import Jega.Locks.Condition
import Jega.Locks.Permits

/-!
# Jega.Locks.Notify — who a notification reaches

`condition_notify` releases the first semaphores of the condition's list, so it
reaches the greenlets that have waited longest exactly when the list holds the
private semaphores of the greenlets that are blocked and not notified, in the
order of their waits (`Listed`).

Entries are added by `ConditionObject_wait` and removed by `condition_notify`
only. A wait that ends before its notification leaves its entry, and so does one
whose `_release_save` raises: `Listed` holds all along a run exactly when no wait
ends in one of these ways (`Notified`).
-/

namespace Jega.Locks.Condition

/-- The greenlet is blocked on its private semaphore and was not notified. -/
def unnotified (l : Locks.St) (w : Gid × Sid) : Bool :=
  (l.frames w.1).any (fun f => f.self = w.2) && (l.sems w.2).counter = 0

/-- The waits on `c` that are blocked and not notified, the longest first. -/
def pending (s : St) (c : Cid) : List (Gid × Sid) := (s.begun c).filter (unnotified s.locks)

/-- The list of each condition holds the private semaphores of these waits. -/
def Listed (s : St) : Prop := ∀ c, s.waiters c = (pending s c).map Prod.snd

/-- The greenlet is blocked on a semaphore with a permit for it, and the loop has
a call that will give it. -/
def Runnable (l : Locks.St) (w : Gid × Sid) : Prop :=
  Blocked l w.2 w.1 ∧ (l.sems w.2).counter > 0 ∧ 0 < notifies l w.2

/-- What a notification of `n` does: of the `k` greenlets that are blocked and
not notified, the first `min n k` become runnable and the others stay. -/
structure Wakes (s s' : St) (c : Cid) (n : Nat) : Prop where
  count : ((pending s c).take n).length = min n (pending s c).length
  woken : ∀ w ∈ (pending s c).take n, Runnable s'.locks w
  others : pending s' c = (pending s c).drop n

/-- Notifications are effective in `s`. -/
structure Effective (s : St) : Prop where
  listed : Listed s
  wakes : ∀ c g (n : Int), Wakes s (condition_notify s c g n (some true)) c n.toNat
  wakes_all : ∀ c g, Wakes s (ConditionObject_notify_all s c g (some true)) c (s.waiters c).length

/-- No wait ends before it is notified: `_release_save` does not raise, and no
exception reaches a greenlet that is blocked and not notified. -/
def Notified (s : St) : Act → Prop
  | .wait _ _ _ owned released => owned = some true → released = true
  | .throw g _ => ∀ sem, unnotified s.locks (g, sem) = false
  | .fire _ => ∀ g, (deadline s.locks).map Prod.fst = some g →
      ∀ sem, unnotified s.locks (g, sem) = false
  | _ => True

/-! ## The semaphores -/

section Locks

variable {l l' : Locks.St}

theorem unnotified_iff {w : Gid × Sid} :
    unnotified l w = true ↔ Blocked l w.2 w.1 ∧ (l.sems w.2).counter = 0 := by
  simp only [unnotified, Bool.and_eq_true, decide_eq_true_eq, Blocked]
  refine and_congr_left fun _ => ?_
  cases hf : l.frames w.1 with
  | none => simp
  | some f =>
    obtain ⟨self, timer⟩ := f
    simp

/-- At most one greenlet is blocked on each semaphore. -/
def Single (l : Locks.St) : Prop :=
  ∀ sem g g', Blocked l sem g → Blocked l sem g' → g = g'

theorem unnotified_congr (hf : l'.frames = l.frames)
    (hc : ∀ sem, (l'.sems sem).counter = (l.sems sem).counter) (w : Gid × Sid) :
    unnotified l' w = unnotified l w := by
  unfold unnotified
  rw [hf, hc]

/-- A resumption with a value changes nothing for the greenlets that were not
notified: one that goes on was. -/
theorem resume_value_unnotified (hs : Single l) (g : Gid) (v : PyObj) (w : Gid × Sid) :
    unnotified (resume l g (.value v)).1 w = unnotified l w := by
  unfold resume
  cases hf : l.frames g with
  | none => rfl
  | some f =>
    simp only [acquire_resumed]
    split
    next hc =>
      have hframes : (fin (take l f.self) g f .Py_True).frames =
          Function.update l.frames g none := rfl
      have hcounter : ∀ sem, sem ≠ f.self →
          ((fin (take l f.self) g f .Py_True).sems sem).counter = (l.sems sem).counter := by
        intro sem hsem
        simp [fin, note, take, Function.update_of_ne hsem]
      rw [Bool.eq_iff_iff, unnotified_iff, unnotified_iff]
      by_cases hg : w.1 = g
      · -- Case: the greenlet that goes on had a permit
        have hleft : ¬ Blocked (fin (take l f.self) g f .Py_True) w.2 w.1 := by
          simp [Blocked, hframes, hg]
        have hright : ¬ (Blocked l w.2 w.1 ∧ (l.sems w.2).counter = 0) := by
          rintro ⟨⟨timer, hb⟩, hzero⟩
          rw [hg, hf, Option.some.injEq] at hb
          rw [hb] at hc
          rw [hzero] at hc
          exact absurd hc (by decide)
        exact iff_of_false (fun h => hleft h.1) hright
      · have hb : Blocked (fin (take l f.self) g f .Py_True) w.2 w.1 ↔ Blocked l w.2 w.1 := by
          simp [Blocked, hframes, Function.update_of_ne hg]
        rw [hb]
        refine and_congr_right fun hblocked => ?_
        have hsem : w.2 ≠ f.self := by
          intro heq
          refine hg (hs w.2 w.1 g hblocked ⟨f.timer, ?_⟩)
          rw [hf, heq]
        rw [hcounter _ hsem]
    · rfl

/-- An exception ends the wait of the greenlet it reaches, and no other. -/
theorem resume_throw_unnotified (g : Gid) (e : Exc) (w : Gid × Sid) :
    unnotified (resume l g (.throw e)).1 w = (unnotified l w && decide (w.1 ≠ g)) := by
  unfold resume
  cases hf : l.frames g with
  | none =>
    by_cases hg : w.1 = g
    · simp [unnotified, hg, hf]
    · simp [hg]
  | some f =>
    have hframes : (acquire_resumed l g f (.throw e)).1.frames = Function.update l.frames g none :=
      rfl
    have hcounter : ∀ sem, ((acquire_resumed l g f (.throw e)).1.sems sem).counter =
        (l.sems sem).counter := by
      intro sem
      by_cases hsem : sem = f.self
      · subst hsem
        simp [acquire_resumed, fin, note]
      · simp [acquire_resumed, fin, note, Function.update_of_ne hsem]
    unfold unnotified
    rw [hframes, hcounter]
    by_cases hg : w.1 = g
    · simp [hg]
    · simp [hg]

/-- A call that ends leaves its greenlet, and no other greenlet starts one. -/
theorem resume_frames (g : Gid) (r : Resumption) :
    (∀ g' f, (resume l g r).1.frames g' = some f → l.frames g' = some f) ∧
      ∀ res, (resume l g r).2 = some res → (resume l g r).1.frames g = none := by
  unfold resume
  cases hf : l.frames g with
  | none => exact ⟨fun _ _ h => h, fun res h => by cases h⟩
  | some f =>
    have hupdate : ∀ g' f', Function.update l.frames g none g' = some f' → l.frames g' = some f' := by
      intro g' f' h
      by_cases hg : g' = g
      · subst hg
        simp at h
      · rwa [Function.update_of_ne hg] at h
    cases r with
    | value v =>
      simp only [acquire_resumed]
      split
      · exact ⟨hupdate, fun res _ => Function.update_self _ _ _⟩
      · exact ⟨fun _ _ h => h, fun res h => by cases h⟩
    | throw e => exact ⟨hupdate, fun res _ => Function.update_self _ _ _⟩

/-- What the loop, an exception or a switch does to the semaphores: the waits of
`thrown` end, and nobody else's notification changes. -/
structure Move (l : Locks.St) (thrown : Option Gid) (r : Locks.St × Option (Gid × Outcome)) :
    Prop where
  inv : Locks.Inv r.1
  frames : ∀ g f, r.1.frames g = some f → l.frames g = some f
  ended : ∀ g res, r.2 = some (g, res) → r.1.frames g = none
  unnotified : ∀ w, unnotified r.1 w = (unnotified l w && decide (thrown ≠ some w.1))

/-- The semaphores seen by a `Move` are those of `l`, whatever the loop's queue. -/
theorem Move.of_frames {l₀ : Locks.St} {thrown : Option Gid}
    {r : Locks.St × Option (Gid × Outcome)} (h : Move l thrown r) (hf : l.frames = l₀.frames)
    (hc : ∀ sem, (l.sems sem).counter = (l₀.sems sem).counter) : Move l₀ thrown r := by
  refine ⟨h.inv, fun g f hg => ?_, h.ended, fun w => ?_⟩
  · rw [← hf]
    exact h.frames g f hg
  · rw [h.unnotified w, unnotified_congr hf hc]

/-- A resumption is a move that ends the waits it leaves unnotified no more. -/
theorem move_resume {g : Gid} {r : Resumption} {thrown : Option Gid}
    (hi : Locks.Inv (resume l g r).1)
    (hun : ∀ w, unnotified (resume l g r).1 w = (unnotified l w && decide (thrown ≠ some w.1))) :
    Move l thrown ((resume l g r).1, (resume l g r).2.map (Prod.mk g)) := by
  rcases resume_frames (l := l) g r with ⟨hframes, hended⟩
  refine ⟨hi, hframes, fun g' res hr => ?_, hun⟩
  rcases Option.map_eq_some_iff.1 hr with ⟨res', hres, heq⟩
  cases heq
  exact hended res hres

theorem move_value {g : Gid} {v : PyObj} (hi : Locks.Inv (resume l g (.value v)).1)
    (hs : Single l) :
    Move l none ((resume l g (.value v)).1, (resume l g (.value v)).2.map (Prod.mk g)) := by
  refine move_resume hi fun w => ?_
  rw [resume_value_unnotified hs]
  simp

theorem move_throw {g : Gid} {e : Exc} (hi : Locks.Inv (resume l g (.throw e)).1) :
    Move l (some g)
      ((resume l g (.throw e)).1, (resume l g (.throw e)).2.map (Prod.mk g)) := by
  refine move_resume hi fun w => ?_
  rw [resume_throw_unnotified]
  simp [eq_comm]

/-- What touches no semaphore moves nobody. -/
theorem move_quiet (hi : Locks.Inv l') (hf : l'.frames = l.frames)
    (hc : ∀ sem, (l'.sems sem).counter = (l.sems sem).counter) : Move l none (l', none) := by
  refine ⟨hi, fun g f hg => ?_, fun g res h => ?_, fun w => ?_⟩
  · rw [← hf]
    exact hg
  · cases h
  · rw [unnotified_congr hf hc]
    simp

/-- Firing an entry: only a deadline ends a wait that was not notified. -/
theorem move_fire (hi : Locks.Inv l) (hs : Single l) {waiter : Gid}
    {r : Locks.St × Option (Gid × Outcome)} (h : fire l waiter = some r) :
    Move l ((deadline l).map Prod.fst) r := by
  have hinv := fire_inv hi h
  rcases fire_cases h with
    ⟨loop, eff, _, ⟨sem, r', _, hd, hnotify, rfl⟩ | ⟨g, timer, _, hd, hr1, hr2⟩ | ⟨_, hd, rfl⟩⟩
  · -- Case: `_notify_waiter`
    rw [hd]
    rcases notify_waiter_cases hnotify with ⟨_, rfl⟩ | ⟨_, _, rfl⟩
    · exact move_quiet hinv rfl fun _ => rfl
    · have hs' : Single (pop { l with loop := loop } sem waiter) := hs
      refine (move_value hinv hs').of_frames rfl fun sem' => ?_
      by_cases hsem : sem' = sem
      · subst hsem
        simp [pop]
      · simp [pop, Function.update_of_ne hsem]
  · -- Case: a deadline
    have hr : r = ((resume { l with loop := loop } g (.throw (.TimeoutException timer))).1,
        (resume { l with loop := loop } g (.throw (.TimeoutException timer))).2.map (Prod.mk g)) :=
      Prod.ext hr1 hr2
    rw [hd, hr]
    rw [hr] at hinv
    exact (move_throw hinv).of_frames rfl fun _ => rfl
  · -- Case: any other entry
    rw [hd]
    exact move_quiet hinv rfl fun _ => rfl

end Locks

/-! ## The invariant -/

/-- Private semaphores are allocated in order and never shared: each is named by
one wait, and a blocked greenlet is in the wait that allocated its semaphore. -/
structure Inv (s : St) : Prop where
  locks : Locks.Inv s.locks
  fresh : ∀ c, ∀ w ∈ s.begun c, w.2 < s.next
  nodup : ∀ c, ((s.begun c).map Prod.snd).Nodup
  distinct : ∀ c c' w w', w ∈ s.begun c → w' ∈ s.begun c' → w.2 = w'.2 → c = c' ∧ w = w'
  owner : ∀ g f, s.locks.frames g = some f → ∃ c, (g, f.self) ∈ s.begun c
  blocked : ∀ g f, s.locks.frames g = some f → ∃ c, s.pc g = .waiting c f.self

theorem init_inv : Inv init := by
  refine ⟨Locks.init_inv _, ?_, ?_, ?_, ?_, ?_⟩
  · intro c w hw
    simp [init] at hw
  · intro c
    simp [init]
  · intro c c' w w' hw
    simp [init] at hw
  · intro g f hf
    simp [init, Locks.init] at hf
  · intro g f hf
    simp [init, Locks.init] at hf

theorem Inv.single {s : St} (hi : Inv s) : Single s.locks := by
  rintro sem g g' ⟨timer, hb⟩ ⟨timer', hb'⟩
  rcases hi.owner g _ hb with ⟨c, hc⟩
  rcases hi.owner g' _ hb' with ⟨c', hc'⟩
  have hsame := (hi.distinct c c' _ _ hc hc' rfl).2
  simpa using hsame

/-- A greenlet outside `wait` is blocked on no private semaphore. -/
theorem Inv.free {s : St} (hi : Inv s) {g : Gid} (hpc : s.pc g = .free) :
    s.locks.frames g = none := by
  cases hf : s.locks.frames g with
  | none => rfl
  | some f =>
    rcases hi.blocked g f hf with ⟨c, hw⟩
    rw [hpc] at hw
    cases hw

/-- Nobody is blocked on a semaphore that is not allocated yet. -/
theorem Inv.unallocated {s : St} (hi : Inv s) (g : Gid) : ¬ Blocked s.locks s.next g := by
  rintro ⟨timer, hb⟩
  rcases hi.owner g _ hb with ⟨c, hc⟩
  exact absurd (hi.fresh c _ hc) (Nat.lt_irrefl _)

/-! ## Moves -/

section Settle

variable {s : St} {thrown : Option Gid} {r : Locks.St × Option (Gid × Outcome)}

theorem settle_same (s : St) (r : Locks.St × Option (Gid × Outcome)) :
    (settle s r).locks = r.1 ∧ (settle s r).next = s.next ∧ (settle s r).waiters = s.waiters ∧
      (settle s r).begun = s.begun := by
  unfold settle finished
  split
  · exact ⟨rfl, rfl, rfl, rfl⟩
  · split <;> exact ⟨rfl, rfl, rfl, rfl⟩

/-- Only the greenlet whose call ended moves on. -/
theorem settle_pc (s : St) (r : Locks.St × Option (Gid × Outcome)) (g : Gid) :
    (settle s r).pc g = s.pc g ∨ ∃ res, r.2 = some (g, res) := by
  unfold settle finished
  split
  · exact Or.inl rfl
  next current res hr =>
    split
    · by_cases hg : g = current
      · rw [hg]
        exact Or.inr ⟨res, hr⟩
      · left
        simp [Function.update_of_ne hg]
    · exact Or.inl rfl

theorem settle_inv (hi : Inv s) (hm : Move s.locks thrown r) : Inv (settle s r) := by
  rcases settle_same s r with ⟨hlocks, hnext, _, hbegun⟩
  refine ⟨?_, ?_, ?_, ?_, ?_, ?_⟩
  · rw [hlocks]
    exact hm.inv
  · rw [hnext, hbegun]
    exact hi.fresh
  · rw [hbegun]
    exact hi.nodup
  · rw [hbegun]
    exact hi.distinct
  · -- Owner: a frame that is left was there before
    intro g f hf
    rw [hlocks] at hf
    rw [hbegun]
    exact hi.owner g f (hm.frames g f hf)
  · -- Blocked: only a greenlet whose call ended has moved on
    intro g f hf
    rw [hlocks] at hf
    rcases settle_pc s r g with hpc | ⟨res, hr⟩
    · rw [hpc]
      exact hi.blocked g f (hm.frames g f hf)
    · rw [hm.ended g res hr] at hf
      cases hf

/-- The list stays right exactly when no wait ends before its notification. -/
theorem settle_listed_iff (hi : Inv s) (hl : Listed s) (hm : Move s.locks thrown r) :
    Listed (settle s r) ↔ ∀ g, thrown = some g → ∀ sem, unnotified s.locks (g, sem) = false := by
  rcases settle_same s r with ⟨hlocks, _, hwaiters, hbegun⟩
  constructor
  · intro hl' g hg sem
    rw [Bool.eq_false_iff]
    intro hun
    rcases (unnotified_iff.1 hun).1 with ⟨timer, hb⟩
    rcases hi.owner g _ hb with ⟨c, hc⟩
    -- The entry of `g` is still in the list, and nothing pending stands for it.
    have hmem : sem ∈ s.waiters c := by
      rw [hl c]
      exact List.mem_map.2 ⟨(g, sem), List.mem_filter.2 ⟨hc, hun⟩, rfl⟩
    have hlc := hl' c
    rw [hwaiters] at hlc
    rw [hlc] at hmem
    rcases List.mem_map.1 hmem with ⟨w, hw, hsem⟩
    unfold pending at hw
    rw [hlocks, hbegun] at hw
    rcases List.mem_filter.1 hw with ⟨hwc, hun'⟩
    have hsame : w = (g, sem) := (hi.distinct c c w (g, sem) hwc hc hsem).2
    rw [hm.unnotified w, hsame, hg] at hun'
    simp at hun'
  · -- nobody whose wait ended was pending, so the pending ones stay
    intro hok c
    have hpending : pending (settle s r) c = pending s c := by
      unfold pending
      rw [hlocks, hbegun]
      refine List.filter_congr fun w _ => ?_
      rw [hm.unnotified w]
      by_cases ht : thrown = some w.1
      · have hfalse := hok w.1 ht w.2
        simp [hfalse]
      · simp [ht]
    rw [hwaiters, hpending]
    exact hl c

end Settle

/-! ## `wait` -/

/-- The private semaphore is empty before the wait on it. -/
theorem new_waiter_eq (l : Locks.St) (waiter : Sid) (g : Gid) :
    (new_waiter l waiter g).frames = l.frames ∧ (new_waiter l waiter g).loop = l.loop ∧
      (new_waiter l waiter g).sems = Function.update l.sems waiter ⟨0, ∅⟩ := by
  have hpos : (SemaphoreObject.init 1).counter > 0 := by
    decide
  have hzero : (SemaphoreObject.init 1).counter - 1 = 0 := by
    decide
  have hempty : (SemaphoreObject.init 1).waiters = ∅ := rfl
  unfold new_waiter semaphore_acquire
  simp only [Function.update_self, if_pos hpos]
  refine ⟨rfl, rfl, ?_⟩
  simp [note, take, hzero, hempty]

theorem new_waiter_counters (l : Locks.St) (waiter : Sid) (g : Gid) :
    counters (new_waiter l waiter g) = Function.update (counters l) waiter 0 := by
  obtain ⟨_, _, hsems⟩ := new_waiter_eq l waiter g
  funext sem
  rcases eq_or_ne sem waiter with rfl | hsem
  · rw [Function.update_self]
    simp only [counters, hsems, Function.update_self]
  · rw [Function.update_of_ne hsem]
    simp only [counters, hsems, Function.update_of_ne hsem]

/-- A new semaphore is one nobody is blocked on. -/
theorem new_waiter_keeps {l : Locks.St} (hi : Locks.Inv l) {waiter : Sid}
    (hnew : ∀ g, ¬ Blocked l waiter g) (g : Gid) : Locks.Inv (new_waiter l waiter g) := by
  rcases new_waiter_eq l waiter g with ⟨hframes, hloop, hsems⟩
  have hnobody : (l.sems waiter).waiters = ∅ := by
    rw [Finset.eq_empty_iff_forall_notMem]
    intro g' hg'
    exact hnew g' ((hi.waiting waiter g').1 hg')
  refine hi.congr (fun sem => ?_) hframes ?_ (fun h _ => ?_) (fun sem => ?_)
  · rw [hsems]
    by_cases hsem : sem = waiter
    · subst hsem
      simp [hnobody]
    · rw [Function.update_of_ne hsem]
  · rw [hloop]
  · rw [hloop]
  · unfold notifies
    rw [hsems, hloop]
    by_cases hsem : sem = waiter
    · subst hsem
      simp
    · rw [Function.update_of_ne hsem]
      exact hi.due sem

theorem new_waiter_inv {s : St} (hi : Inv s) (g : Gid) :
    Locks.Inv (new_waiter s.locks s.next g) :=
  new_waiter_keeps hi.locks hi.unallocated g

theorem new_waiter_unnotified {s : St} (hi : Inv s) (g : Gid) (w : Gid × Sid) :
    unnotified (new_waiter s.locks s.next g) w = unnotified s.locks w := by
  rcases new_waiter_eq s.locks s.next g with ⟨hframes, _, hsems⟩
  unfold unnotified
  rw [hframes, hsems]
  by_cases hsem : w.2 = s.next
  · -- Case: nobody is blocked on the new semaphore
    have hnot : (s.locks.frames w.1).any (fun f => f.self = w.2) = false := by
      rw [Bool.eq_false_iff]
      intro h
      rcases Option.any_eq_true _ _ |>.1 h with ⟨f, hf, hself⟩
      refine hi.unallocated w.1 ⟨f.timer, ?_⟩
      rw [hf, ← hsem, ← of_decide_eq_true hself]
    rw [hnot]
    simp
  · rw [Function.update_of_ne hsem]

/-- The semaphores while `g` is blocked in a new wait. -/
def waited (s : St) (g : Gid) (seconds : Nat) : Locks.St :=
  (semaphore_acquire (new_waiter s.locks s.next g) s.next g true seconds).1

theorem waited_frames (s : St) (g : Gid) (seconds : Nat) :
    ∃ timer, (waited s g seconds).frames =
        Function.update s.locks.frames g (some ⟨s.next, timer⟩) ∧
      ∀ sem, ((waited s g seconds).sems sem).counter =
        ((new_waiter s.locks s.next g).sems sem).counter := by
  rcases new_waiter_eq s.locks s.next g with ⟨hframes, _, hsems⟩
  have hzero : ¬ ((new_waiter s.locks s.next g).sems s.next).counter > 0 := by
    rw [hsems, Function.update_self]
    decide
  unfold waited
  rw [semaphore_acquire_block hzero]
  refine ⟨(new_waiter s.locks s.next g).loop.next, ?_, fun sem => ?_⟩
  · simp only [hframes]
  · by_cases hsem : sem = s.next
    · subst hsem
      simp
    · simp [Function.update_of_ne hsem]

/-- One more greenlet is blocked and not notified. -/
theorem waited_unnotified {s : St} (hi : Inv s) {g : Gid} (hpc : s.pc g = .free) (seconds : Nat)
    (w : Gid × Sid) :
    unnotified (waited s g seconds) w = (unnotified s.locks w || decide (w = (g, s.next))) := by
  rcases waited_frames s g seconds with ⟨timer, hframes, hcounter⟩
  rcases new_waiter_eq s.locks s.next g with ⟨_, _, hsems⟩
  have hnew := new_waiter_unnotified hi g w
  obtain ⟨g', sem⟩ := w
  by_cases hg : g' = g
  · subst hg
    have hold : unnotified s.locks (g', sem) = false := by
      simp [unnotified, hi.free hpc]
    rw [hold]
    unfold unnotified
    rw [hframes, hcounter]
    by_cases hsem : sem = s.next
    · subst hsem
      simp [hsems]
    · simp [hsem, Ne.symm hsem]
  · rw [← hnew]
    unfold unnotified
    rw [hframes, hcounter, Function.update_of_ne hg]
    simp [hg, (new_waiter_eq s.locks s.next g).1]

/-- A wait that raises in `_release_save` changes no greenlet. -/
theorem wait_failed_inv {s : St} (hi : Inv s) (c : Cid) (g : Gid) (seconds : Nat) :
    Inv (ConditionObject_wait s c g seconds (some true) false) := by
  rcases new_waiter_eq s.locks s.next g with ⟨hframes, _, _⟩
  refine ⟨new_waiter_inv hi g, ?_, hi.nodup, hi.distinct, ?_, ?_⟩
  · intro c' w hw
    exact Nat.lt_succ_of_lt (hi.fresh c' w hw)
  · intro g' f hf
    refine hi.owner g' f ?_
    rw [← hframes]
    exact hf
  · intro g' f hf
    refine hi.blocked g' f ?_
    rw [← hframes]
    exact hf

/-- A frame is that of the new wait, or an old one of another greenlet. -/
theorem waited_frame {s : St} {g : Gid} {seconds : Nat} {g' : Gid} {f : Frame}
    (hf : (waited s g seconds).frames g' = some f) :
    g' = g ∧ f.self = s.next ∨ g' ≠ g ∧ s.locks.frames g' = some f := by
  rcases waited_frames s g seconds with ⟨timer, hframes, _⟩
  rw [hframes] at hf
  by_cases hg : g' = g
  · subst hg
    rw [Function.update_self, Option.some.injEq] at hf
    exact Or.inl ⟨rfl, by rw [← hf]⟩
  · rw [Function.update_of_ne hg] at hf
    exact Or.inr ⟨hg, hf⟩

theorem wait_inv {s : St} (hi : Inv s) {g : Gid} (hpc : s.pc g = .free) (c : Cid)
    (seconds : Nat) : Inv (ConditionObject_wait s c g seconds (some true) true) := by
  have hlocks : (ConditionObject_wait s c g seconds (some true) true).locks = waited s g seconds :=
    rfl
  have hnew : (new_waiter s.locks s.next g).frames g = none := by
    rw [(new_waiter_eq s.locks s.next g).1]
    exact hi.free hpc
  have hmem : ∀ c' w, w ∈ (ConditionObject_wait s c g seconds (some true) true).begun c' ↔
      w ∈ s.begun c' ∨ c' = c ∧ w = (g, s.next) := by
    intro c' w
    by_cases hc : c' = c
    · subst hc
      simp [ConditionObject_wait]
    · simp [ConditionObject_wait, hc]
  refine ⟨?_, ?_, ?_, ?_, ?_, ?_⟩
  · rw [hlocks]
    exact acquire_inv (new_waiter_inv hi g) hnew s.next true seconds
  · -- Fresh: the new semaphore is below the next one
    intro c' w hw
    rcases (hmem c' w).1 hw with hw | ⟨_, rfl⟩
    · exact Nat.lt_succ_of_lt (hi.fresh c' w hw)
    · exact Nat.lt_succ_self s.next
  · -- Distinct semaphores of one condition
    intro c'
    by_cases hc : c' = c
    · subst hc
      have hnot : s.next ∉ (s.begun c').map Prod.snd := by
        intro hm
        rcases List.mem_map.1 hm with ⟨w, hw, hsem⟩
        exact absurd hsem (Nat.ne_of_lt (hi.fresh c' w hw))
      simp only [ConditionObject_wait, if_true, Function.update_self, List.map_append,
        List.map_cons, List.map_nil]
      rw [List.nodup_append_comm]
      exact List.nodup_cons.2 ⟨hnot, hi.nodup c'⟩
    · simpa [ConditionObject_wait, Function.update_of_ne hc] using hi.nodup c'
  · -- Distinct semaphores of all conditions
    intro c₁ c₂ w₁ w₂ h₁ h₂ hsem
    rcases (hmem c₁ w₁).1 h₁ with hold₁ | ⟨hc₁, hw₁⟩
    · rcases (hmem c₂ w₂).1 h₂ with hold₂ | ⟨_, hw₂⟩
      · exact hi.distinct c₁ c₂ w₁ w₂ hold₁ hold₂ hsem
      · rw [hw₂] at hsem
        exact absurd hsem (Nat.ne_of_lt (hi.fresh c₁ w₁ hold₁))
    · rcases (hmem c₂ w₂).1 h₂ with hold₂ | ⟨hc₂, hw₂⟩
      · rw [hw₁] at hsem
        exact absurd hsem.symm (Nat.ne_of_lt (hi.fresh c₂ w₂ hold₂))
      · exact ⟨hc₁.trans hc₂.symm, hw₁.trans hw₂.symm⟩
  · -- Owner: the new frame is named by the new wait
    intro g' f hf
    rcases waited_frame hf with ⟨rfl, hself⟩ | ⟨_, hf'⟩
    · exact ⟨c, (hmem c _).2 (Or.inr ⟨rfl, by rw [hself]⟩)⟩
    · rcases hi.owner g' f hf' with ⟨c', hc'⟩
      exact ⟨c', (hmem c' _).2 (Or.inl hc')⟩
  · intro g' f hf
    rcases waited_frame hf with ⟨rfl, hself⟩ | ⟨hg, hf'⟩
    · exact ⟨c, by simp [ConditionObject_wait, hself]⟩
    · rcases hi.blocked g' f hf' with ⟨c', hc'⟩
      exact ⟨c', by simpa [ConditionObject_wait, Function.update_of_ne hg] using hc'⟩

/-- A wait adds its entry and its greenlet, unless `_release_save` raises. -/
theorem wait_listed_iff {s : St} (hi : Inv s) (hl : Listed s) {g : Gid} (hpc : s.pc g = .free)
    (c : Cid) (seconds : Nat) (released : Bool) :
    Listed (ConditionObject_wait s c g seconds (some true) released) ↔ released = true := by
  cases released with
  | false =>
    -- the entry is left without a greenlet, so the list is one too long
    refine iff_of_false (fun hl' => ?_) (by simp)
    have hpending : pending (ConditionObject_wait s c g seconds (some true) false) c =
        pending s c := List.filter_congr fun w _ => new_waiter_unnotified hi g w
    have hlen := congrArg List.length (hl' c)
    rw [hpending, ← hl c] at hlen
    simp [ConditionObject_wait] at hlen
  | true =>
    refine iff_of_true (fun c' => ?_) rfl
    have hold : ∀ c'', (s.begun c'').filter (unnotified (waited s g seconds)) = pending s c'' := by
      intro c''
      refine List.filter_congr fun w hw => ?_
      have hne : w ≠ (g, s.next) := by
        rintro rfl
        exact absurd (hi.fresh c'' _ hw) (Nat.lt_irrefl _)
      rw [waited_unnotified hi hpc]
      simp [hne]
    have hnew : unnotified (waited s g seconds) (g, s.next) = true := by
      rw [waited_unnotified hi hpc]
      simp
    by_cases hc : c' = c
    · subst hc
      have hpending : pending (ConditionObject_wait s c' g seconds (some true) true) c' =
          pending s c' ++ [(g, s.next)] := by
        show List.filter (unnotified (waited s g seconds)) _ = _
        simp only [ConditionObject_wait, if_true, Function.update_self, List.filter_append]
        rw [hold c', List.filter_cons_of_pos hnew, List.filter_nil]
      rw [hpending]
      simp [ConditionObject_wait, hl c']
    · have hpending : pending (ConditionObject_wait s c g seconds (some true) true) c' =
          pending s c' := by
        show List.filter (unnotified (waited s g seconds)) _ = _
        simp only [ConditionObject_wait, if_true, Function.update_of_ne hc]
        exact hold c'
      rw [hpending, ← hl c']
      simp [ConditionObject_wait, Function.update_of_ne hc]

/-! ## `notify` -/

/-- The releases of a notification, in order. -/
def release_all (current : Gid) (l : Locks.St) (items : List Sid) : Locks.St :=
  items.foldl (fun l item => semaphore_release l item current) l

/-- Each item of the slice is at the head of the list when it is removed. -/
theorem notify_items_eq (current : Gid) (l : Locks.St) (items rest : List Sid) :
    notify_items current l (items ++ rest) items = (release_all current l items, rest) := by
  induction items generalizing l with
  | nil => rfl
  | cons item items ih =>
    have herase : (item :: items ++ rest).erase item = items ++ rest := by
      simp
    rw [notify_items, herase, ih]
    rfl

theorem condition_notify_eq (s : St) (c : Cid) (g : Gid) (n : Int) :
    condition_notify s c g n (some true) =
      { s with
        locks := release_all g s.locks ((s.waiters c).take n.toNat)
        waiters := Function.update s.waiters c ((s.waiters c).drop n.toNat) } := by
  have h := notify_items_eq g s.locks ((s.waiters c).take n.toNat) ((s.waiters c).drop n.toNat)
  rw [List.take_append_drop] at h
  simp only [condition_notify, h]

section Release

variable {l : Locks.St}

theorem release_frames (sem : Sid) (g : Gid) : (semaphore_release l sem g).frames = l.frames := by
  rw [semaphore_release_eq]
  rfl

theorem release_counter (sem sem' : Sid) (g : Gid) :
    ((semaphore_release l sem g).sems sem').counter =
      if sem' = sem then (l.sems sem).counter + 1 else (l.sems sem').counter := by
  rw [semaphore_release_eq]
  by_cases hsem : sem' = sem
  · subst hsem
    simp [note]
  · simp [note, hsem]

theorem release_all_inv (hi : Locks.Inv l) (g : Gid) (items : List Sid) :
    Locks.Inv (release_all g l items) := by
  induction items generalizing l with
  | nil => exact hi
  | cons item items ih => exact ih (release_inv hi g item)

theorem release_all_frames (g : Gid) (items : List Sid) :
    (release_all g l items).frames = l.frames := by
  induction items generalizing l with
  | nil => rfl
  | cons item items ih =>
    show (release_all g (semaphore_release l item g) items).frames = l.frames
    rw [ih, release_frames]

/-- A semaphore that is not released keeps its permits, and no call is lost. -/
theorem release_all_other (g : Gid) {sem : Sid} {items : List Sid} (hsem : sem ∉ items) :
    ((release_all g l items).sems sem).counter = (l.sems sem).counter ∧
      notifies l sem ≤ notifies (release_all g l items) sem := by
  induction items generalizing l with
  | nil => exact ⟨rfl, le_refl _⟩
  | cons item items ih =>
    rw [List.mem_cons, not_or] at hsem
    have hone := ih (l := semaphore_release l item g) hsem.2
    rw [release_counter, if_neg hsem.1, release_notifies] at hone
    exact ⟨hone.1, (Nat.le_add_right _ _).trans hone.2⟩

/-- Empty semaphores that are released each have a permit and a call for the
greenlet blocked on them. -/
theorem release_all_released (hi : Locks.Inv l) (g : Gid) {items : List Sid} (hnodup : items.Nodup)
    (hempty : ∀ sem ∈ items, (l.sems sem).counter = 0) {sem : Sid} (hsem : sem ∈ items)
    {g' : Gid} (hb : Blocked l sem g') :
    ((release_all g l items).sems sem).counter > 0 ∧
      0 < notifies (release_all g l items) sem := by
  induction items generalizing l with
  | nil => cases hsem
  | cons item items ih =>
    have hi' := release_inv hi g item
    rw [List.nodup_cons] at hnodup
    rcases List.mem_cons.1 hsem with rfl | hmem
    · -- Case: released first, and not again
      rcases release_all_other (l := semaphore_release l sem g) g hnodup.1 with ⟨hc, hn⟩
      have hcard : (l.sems sem).waiters.card > 0 :=
        Finset.card_pos.2 ⟨g', (hi.waiting sem g').2 hb⟩
      rw [release_notifies, if_pos ⟨rfl, hcard⟩] at hn
      rw [release_counter, if_pos rfl, hempty sem (by simp)] at hc
      refine ⟨?_, Nat.lt_of_lt_of_le (Nat.succ_pos _) hn⟩
      show ((release_all g (semaphore_release l sem g) items).sems sem).counter > 0
      rw [hc]
      decide
    · -- Case: released later, and empty until then
      refine ih hi' hnodup.2 (fun sem' hmem' => ?_) hmem ?_
      · have hne : sem' ≠ item := by
          rintro rfl
          exact hnodup.1 hmem'
        rw [release_counter, if_neg hne]
        exact hempty sem' (List.mem_cons_of_mem _ hmem')
      · rcases hb with ⟨timer, hb⟩
        refine ⟨timer, ?_⟩
        rw [release_frames]
        exact hb

/-- Exactly the released semaphores were notified. -/
theorem release_all_unnotified (hi : Locks.Inv l) (g : Gid) {items : List Sid}
    (hnodup : items.Nodup) (hempty : ∀ sem ∈ items, (l.sems sem).counter = 0) (w : Gid × Sid) :
    unnotified (release_all g l items) w = (unnotified l w && decide (w.2 ∉ items)) := by
  rw [Bool.eq_iff_iff, Bool.and_eq_true, unnotified_iff, unnotified_iff, decide_eq_true_eq]
  have hb : Blocked (release_all g l items) w.2 w.1 ↔ Blocked l w.2 w.1 := by
    simp [Blocked, release_all_frames]
  rw [hb, and_assoc]
  refine and_congr_right fun hblocked => ?_
  by_cases hmem : w.2 ∈ items
  · have hpos := (release_all_released hi g hnodup hempty hmem hblocked).1
    refine iff_of_false (fun hzero => ?_) (fun h => h.2 hmem)
    rw [hzero] at hpos
    exact absurd hpos (by decide)
  · rw [(release_all_other g hmem).1]
    exact ⟨fun h => ⟨h, hmem⟩, fun h => h.1⟩

end Release

/-- Filtering out a prefix of a list of distinct keys leaves the rest. -/
theorem filter_take_eq_drop {α β : Type} [DecidableEq β] (f : α → β) (n : Nat) (as : List α)
    (hnodup : (as.map f).Nodup) :
    as.filter (fun a => decide (f a ∉ (as.map f).take n)) = as.drop n := by
  induction as generalizing n with
  | nil => simp
  | cons a as ih =>
    rw [List.map_cons, List.nodup_cons] at hnodup
    cases n with
    | zero => simp
    | succ n =>
      have htail : as.filter (fun b => decide (f b ∉ f a :: (as.map f).take n)) =
          as.filter (fun b => decide (f b ∉ (as.map f).take n)) := by
        refine List.filter_congr fun b hb => ?_
        have hne : f b ≠ f a := by
          intro heq
          exact hnodup.1 (heq ▸ List.mem_map_of_mem hb)
        simp [hne]
      rw [List.map_cons, List.take_succ_cons, List.filter_cons_of_neg (by simp), htail,
        ih n hnodup.2, List.drop_succ_cons]

section Notify

variable {s : St} {c : Cid}

theorem mem_pending {w : Gid × Sid} (hw : w ∈ pending s c) :
    w ∈ s.begun c ∧ Blocked s.locks w.2 w.1 ∧ (s.locks.sems w.2).counter = 0 :=
  ⟨(List.mem_filter.1 hw).1, unnotified_iff.1 (List.mem_filter.1 hw).2⟩

/-- The list of a condition has no entry twice, and its semaphores are empty. -/
theorem Inv.waiters (hi : Inv s) (hl : Listed s) (c : Cid) :
    (s.waiters c).Nodup ∧ ∀ sem ∈ s.waiters c, (s.locks.sems sem).counter = 0 := by
  rw [hl c]
  refine ⟨?_, fun sem hmem => ?_⟩
  · have hsub : (pending s c).Sublist (s.begun c) := List.filter_sublist
    exact (hi.nodup c).sublist (hsub.map Prod.snd)
  · rcases List.mem_map.1 hmem with ⟨w, hw, rfl⟩
    exact (mem_pending hw).2.2

/-- A notification takes the first `n` greenlets out of the pending ones. -/
theorem notify_pending (hi : Inv s) (hl : Listed s) (c c' : Cid) (g : Gid) (n : Int) :
    pending (condition_notify s c g n (some true)) c' =
      if c' = c then (pending s c).drop n.toNat else pending s c' := by
  rcases hi.waiters hl c with ⟨hnodup, hempty⟩
  have hnodup' : ((s.waiters c).take n.toNat).Nodup := hnodup.sublist (List.take_sublist _ _)
  have hempty' : ∀ sem ∈ (s.waiters c).take n.toNat, (s.locks.sems sem).counter = 0 :=
    fun sem hmem => hempty sem (List.mem_of_mem_take hmem)
  have hpending : pending (condition_notify s c g n (some true)) c' =
      (pending s c').filter (fun w => decide (w.2 ∉ (s.waiters c).take n.toNat)) := by
    unfold pending
    rw [condition_notify_eq, List.filter_filter]
    refine List.filter_congr fun w _ => ?_
    rw [release_all_unnotified hi.locks g hnodup' hempty' w, Bool.and_comm]
  rw [hpending]
  split
  next hc =>
    subst hc
    have hdistinct : ((pending s c').map Prod.snd).Nodup := by
      rw [← hl c']
      exact hnodup
    have hdrop := filter_take_eq_drop Prod.snd n.toNat (pending s c') hdistinct
    rw [← hl c'] at hdrop
    exact hdrop
  next hc =>
    rw [List.filter_eq_self]
    intro w hw
    rw [decide_eq_true_eq]
    intro hmem
    have hmem' := List.mem_of_mem_take hmem
    rw [hl c] at hmem'
    rcases List.mem_map.1 hmem' with ⟨w', hw', hsem⟩
    exact hc (hi.distinct c c' w' w (mem_pending hw').1 (mem_pending hw).1 hsem).1.symm

theorem notify_listed (hi : Inv s) (hl : Listed s) (c : Cid) (g : Gid) (n : Int) :
    Listed (condition_notify s c g n (some true)) := by
  intro c'
  rw [notify_pending hi hl, condition_notify_eq]
  by_cases hc : c' = c
  · subst hc
    simp [hl c', List.map_drop]
  · simp [hc, hl c']

theorem notify_inv (hi : Inv s) (c : Cid) (g : Gid) (n : Int) :
    Inv (condition_notify s c g n (some true)) := by
  rw [condition_notify_eq]
  refine ⟨release_all_inv hi.locks g _, hi.fresh, hi.nodup, hi.distinct, ?_, ?_⟩
  · intro g' f hf
    refine hi.owner g' f ?_
    rw [← release_all_frames g]
    exact hf
  · intro g' f hf
    refine hi.blocked g' f ?_
    rw [← release_all_frames g]
    exact hf

/-- A notification of `n` reaches the `n` greenlets that have waited longest. -/
theorem notify_wakes (hi : Inv s) (hl : Listed s) (c : Cid) (g : Gid) (n : Int) :
    Wakes s (condition_notify s c g n (some true)) c n.toNat := by
  rcases hi.waiters hl c with ⟨hnodup, hempty⟩
  refine ⟨List.length_take, fun w hw => ?_, ?_⟩
  · -- each of them has a permit and a call
    rcases mem_pending (List.mem_of_mem_take hw) with ⟨_, ⟨timer, hb⟩, _⟩
    have hmem : w.2 ∈ (s.waiters c).take n.toNat := by
      rw [hl c, ← List.map_take]
      exact List.mem_map_of_mem hw
    have hpos := release_all_released hi.locks g (hnodup.sublist (List.take_sublist n.toNat _))
      (fun sem hm => hempty sem (List.mem_of_mem_take hm)) hmem ⟨timer, hb⟩
    rw [condition_notify_eq]
    refine ⟨⟨timer, ?_⟩, hpos⟩
    show (release_all g s.locks _).frames w.1 = _
    rw [release_all_frames]
    exact hb
  · -- the others are still pending
    rw [notify_pending hi hl, if_pos rfl]

/-- Notifications are effective exactly in the states whose lists are right. -/
theorem effective_iff (hi : Inv s) : Effective s ↔ Listed s := by
  refine ⟨fun h => h.listed, fun hl => ⟨hl, fun c g n => notify_wakes hi hl c g n, fun c g => ?_⟩⟩
  have h := notify_wakes hi hl c g (s.waiters c).length
  rw [Int.toNat_natCast] at h
  exact h

end Notify

/-! ## Runs -/

/-- Moving the loop's queue alone. -/
theorem Inv.with_loop {s : St} (hi : Inv s) {loop : LoopObject Callback}
    (hl : s.locks.loop.Grows loop) : Inv { s with locks := { s.locks with loop := loop } } :=
  ⟨loop_inv hi.locks hl, hi.fresh, hi.nodup, hi.distinct, hi.owner, hi.blocked⟩

theorem restored_inv {s : St} (hi : Inv s) {g : Gid} {c : Cid} {res : Outcome}
    (hpc : s.pc g = .restoring c res) : Inv { s with pc := Function.update s.pc g .free } := by
  refine ⟨hi.locks, hi.fresh, hi.nodup, hi.distinct, hi.owner, fun g' f hf => ?_⟩
  rcases hi.blocked g' f hf with ⟨c', hw⟩
  have hg : g' ≠ g := by
    rintro rfl
    rw [hpc] at hw
    cases hw
  exact ⟨c', by simpa [Function.update_of_ne hg] using hw⟩

theorem step_inv (s : St) (a : Act) (s' : St) (h : step s a = some s') (hi : Inv s) : Inv s' := by
  cases step_cases h with
  | refused _ => exact hi
  | @wait g c seconds released hpc =>
    cases released with
    | false => exact wait_failed_inv hi c g seconds
    | true => exact wait_inv hi hpc c seconds
  | notify _ => exact notify_inv hi _ _ _
  | notify_all _ => exact notify_inv hi _ _ _
  | restored hpc => exact restored_inv hi hpc
  | fire hfire => exact settle_inv hi (move_fire hi.locks hi.single hfire)
  | due hloop => exact hi.with_loop (LoopObject.grows_fire_timers_next hloop)
  | throw => exact settle_inv hi (move_throw (resume_inv hi.locks _ _))
  | switch => exact settle_inv hi (move_value (resume_inv hi.locks _ _) hi.single)
  | call_soon => exact hi.with_loop (LoopObject.grows_loop_schedule_call _ _ _ _)

/-- What one step does to the lists. -/
theorem step_listed_iff (s : St) (a : Act) (s' : St) (h : step s a = some s') (hi : Inv s)
    (hl : Listed s) : Listed s' ↔ Notified s a := by
  cases step_cases h with
  | refused ha =>
    refine iff_of_true hl ?_
    cases a with
    | wait g c seconds owned released => exact fun howned => absurd howned ha
    | notify g c n owned => trivial
    | notify_all g c owned => trivial
    | _ => cases ha
  | wait hpc =>
    rw [wait_listed_iff hi hl hpc]
    simp [Notified]
  | notify _ => exact iff_of_true (notify_listed hi hl _ _ _) trivial
  | notify_all _ => exact iff_of_true (notify_listed hi hl _ _ _) trivial
  | fire hfire => exact settle_listed_iff hi hl (move_fire hi.locks hi.single hfire)
  | throw =>
    rw [settle_listed_iff hi hl (move_throw (resume_inv hi.locks _ _))]
    simp [Notified]
  | switch =>
    rw [settle_listed_iff hi hl (move_value (resume_inv hi.locks _ _) hi.single)]
    simp [Notified]
  | restored _ | due _ | call_soon => exact iff_of_true hl trivial

theorem init_listed : Listed init := fun _ => rfl

/-- Notifications are effective all along a run exactly when no wait of it ends
before it is notified. -/
theorem effective_iff_notified (as : List Act) (t : St) (h : Trace.run step init as = some t) :
    Trace.Always step Effective init as ↔ Trace.Steps step Notified init as := by
  refine Trace.always_iff_steps (fun s a s' hs _ hi _ => step_inv s a s' hs hi)
    (fun s a s' hs hi he => ?_) init_inv ((effective_iff init_inv).2 init_listed) h
  rw [effective_iff hi] at he
  rw [effective_iff (step_inv s a s' hs hi)]
  exact step_listed_iff s a s' hs hi he

/-- Three waits and a notification of two. -/
theorem effective_iff_notified_two : ∃ t, Trace.run step init
    [.wait 1 0 0 (some true) true, .wait 2 0 5 (some true) true, .wait 3 0 0 (some true) true,
      .notify 4 0 2 (some true), .fire 1, .fire 2] = some t ∧
    (Trace.Always step Effective init
        [.wait 1 0 0 (some true) true, .wait 2 0 5 (some true) true, .wait 3 0 0 (some true) true,
          .notify 4 0 2 (some true), .fire 1, .fire 2] ↔
      Trace.Steps step Notified init
        [.wait 1 0 0 (some true) true, .wait 2 0 5 (some true) true, .wait 3 0 0 (some true) true,
          .notify 4 0 2 (some true), .fire 1, .fire 2]) := by
  have h : (Trace.run step init
      [.wait 1 0 0 (some true) true, .wait 2 0 5 (some true) true, .wait 3 0 0 (some true) true,
        .notify 4 0 2 (some true), .fire 1, .fire 2]).any (fun _ => true) = true := by
    decide
  rcases Trace.run_any h with ⟨t, ht, _⟩
  exact ⟨t, ht, effective_iff_notified _ t ht⟩

/-- After a wait that timed out, a notification of one releases the semaphore it
left in the list, and the greenlet that is blocked is not woken. -/
theorem timeout_breaks_notify : ∃ t, Trace.run step init
    [.wait 1 0 5 (some true) true, .due 0, .fire 0, .restored 1,
      .wait 2 0 0 (some true) true] = some t ∧
    pending t 0 = [(2, 1)] ∧ pending (condition_notify t 0 3 1 (some true)) 0 = [(2, 1)] ∧
    ¬ Effective t := by
  have h : (Trace.run step init
      [.wait 1 0 5 (some true) true, .due 0, .fire 0, .restored 1,
        .wait 2 0 0 (some true) true]).any (fun t => decide (pending t 0 = [(2, 1)]) &&
          decide (pending (condition_notify t 0 3 1 (some true)) 0 = [(2, 1)]) &&
          decide (t.waiters 0 = [0, 1])) = true := by
    decide
  rcases Trace.run_any h with ⟨t, ht, hp⟩
  rw [Bool.and_eq_true, Bool.and_eq_true, decide_eq_true_eq, decide_eq_true_eq,
    decide_eq_true_eq] at hp
  refine ⟨t, ht, hp.1.1, hp.1.2, fun he => ?_⟩
  have hlist := he.listed 0
  rw [hp.2, hp.1.1] at hlist
  simp at hlist

end Jega.Locks.Condition
