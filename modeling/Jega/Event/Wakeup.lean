import Jega.Event.Model
import Jega.Locks.Notify
import Jega.Locks.Turn

/-!
# Jega.Event.Wakeup — an event serves every waiter

The lock of the event is held only between two suspensions, never across one:
`set` and `clear` do not suspend while they hold it, and a wait gives it back
before it blocks on its private semaphore. So whoever runs finds it free.

The condition lists the private semaphore of every blocked greenlet that was not
notified, and stale ones. `set` empties the list, and nobody is added to it while
the flag is set.
-/

namespace Jega.Event

open Locks

/-- What the event promises at every suspension point. -/
structure Serves (s : St) : Prop where
  /-- The lock is free, and nobody waits for it. -/
  lock_free : counters s.locks lock = 1 ∧ ∀ g, ¬ Blocked s.locks lock g
  /-- `set` and `clear` never suspend their caller. -/
  immediate : ∀ g, s.pc g = .free →
    (event_set s g).pc = s.pc ∧ (EventObject_clear s g).pc = s.pc
  /-- A suspended greenlet is in `wait`, on its private semaphore. -/
  suspended : ∀ g, s.pc g = .free ∨ ∃ waiter, s.pc g = .waiting waiter ∧ Blocked s.locks waiter g
  /-- While the flag is set, every blocked greenlet has a permit and a call that
  will give it. -/
  woken : s.flag = true → ∀ g waiter, s.pc g = .waiting waiter →
    counters s.locks waiter > 0 ∧ 0 < notifies s.locks waiter

/-! ## The invariant -/

/-- The semaphores of the event while its lock has that many permits. -/
structure Core (s : St) (permits : UInt32) : Prop where
  locks : Locks.Inv s.locks
  permits : counters s.locks lock = permits
  allocated : lock < s.next
  inside : ∀ waiter g, Blocked s.locks waiter g → lock < waiter ∧ waiter < s.next
  single : ∀ waiter g g', Blocked s.locks waiter g → Blocked s.locks waiter g' → g = g'
  nodup : s.waiters.Nodup
  listed : ∀ waiter ∈ s.waiters,
    lock < waiter ∧ waiter < s.next ∧ counters s.locks waiter = 0
  /-- A blocked greenlet is in the list, or was notified. -/
  notified : ∀ waiter g, Blocked s.locks waiter g →
    waiter ∈ s.waiters ∨ counters s.locks waiter > 0

/-- A greenlet is outside the event or blocked on its private semaphore. -/
inductive Placed (s : St) (g : Gid) : Prop where
  | free (hpc : s.pc g = .free) (hf : s.locks.frames g = none)
  | waiting {waiter : Sid} {timer : Hid} (hpc : s.pc g = .waiting waiter)
    (hf : s.locks.frames g = some ⟨waiter, timer⟩)

/-- The invariant at a suspension point. -/
structure Inv (s : St) : Prop extends Core s 1 where
  placed : ∀ g, Placed s g
  served : s.flag = true → s.waiters = []

/-- The invariant while `g` runs in the event. -/
structure Running (s : St) (g : Gid) (permits : UInt32) : Prop extends Core s permits where
  idle : s.locks.frames g = none
  others : ∀ g', g' ≠ g → Placed s g'

theorem init_inv : Inv init := by
  refine ⟨⟨Locks.init_inv _, rfl, Nat.zero_lt_one, ?_, ?_, List.nodup_nil, ?_, ?_⟩, ?_, ?_⟩
  · rintro waiter g ⟨timer, hb⟩
    cases hb
  · rintro waiter g g' ⟨timer, hb⟩
    cases hb
  · intro waiter hw
    cases hw
  · rintro waiter g ⟨timer, hb⟩
    cases hb
  · intro g
    exact .free rfl rfl
  · intro _
    rfl

/-! ## Running in the event -/

section Running

variable {s s' : St} {g : Gid} {m n : UInt32}

/-- The counters matter for the semaphores that are listed or waited on. -/
theorem Core.congr (hc : Core s m) (hinv : Locks.Inv s'.locks) (hnext : s'.next = s.next)
    (hwaiters : s'.waiters = s.waiters)
    (hframes : ∀ g f, s'.locks.frames g = some f → s.locks.frames g = some f)
    (hpermits : counters s'.locks lock = n)
    (hsame : ∀ waiter, (waiter ∈ s.waiters ∨ ∃ g, Blocked s'.locks waiter g) →
      counters s'.locks waiter = counters s.locks waiter) : Core s' n := by
  have hblocked : ∀ waiter g, Blocked s'.locks waiter g → Blocked s.locks waiter g :=
    fun waiter g ⟨timer, hb⟩ => ⟨timer, hframes g _ hb⟩
  refine ⟨hinv, hpermits, ?_, fun waiter g hb => ?_, fun waiter g g' hb hb' => ?_, ?_,
    fun waiter hw => ?_, fun waiter g hb => ?_⟩
  · rw [hnext]
    exact hc.allocated
  · rw [hnext]
    exact hc.inside waiter g (hblocked waiter g hb)
  · exact hc.single waiter g g' (hblocked waiter g hb) (hblocked waiter g' hb')
  · rw [hwaiters]
    exact hc.nodup
  · rw [hwaiters] at hw
    rw [hnext, hsame waiter (Or.inl hw)]
    exact hc.listed waiter hw
  · rw [hwaiters, hsame waiter (Or.inr ⟨g, hb⟩)]
    exact hc.notified waiter g (hblocked waiter g hb)

theorem Placed.congr {g : Gid} (h : Placed s g) (hpc : s'.pc g = s.pc g)
    (hframes : s'.locks.frames g = s.locks.frames g) : Placed s' g := by
  cases h with
  | free hfree hf => exact .free (hpc.trans hfree) (hframes.trans hf)
  | waiting hw hf => exact .waiting (hpc.trans hw) (hframes.trans hf)

/-- The running greenlet moves the permits of the lock and its own place only. -/
theorem Running.congr (hr : Running s g m) (hinv : Locks.Inv s'.locks) (hnext : s'.next = s.next)
    (hwaiters : s'.waiters = s.waiters) (hpc : ∀ g', g' ≠ g → s'.pc g' = s.pc g')
    (hframes : s'.locks.frames = s.locks.frames)
    (hc : counters s'.locks = Function.update (counters s.locks) lock n) : Running s' g n := by
  refine ⟨hr.toCore.congr hinv hnext hwaiters ?_ ?_ ?_, ?_, fun g' hg => ?_⟩
  · intro g' f hf
    rwa [hframes] at hf
  · rw [hc, Function.update_self]
  · rintro waiter (hw | ⟨g', timer, hb⟩)
    · rw [hc, Function.update_of_ne (Nat.ne_of_gt (hr.listed waiter hw).1)]
    · rw [hframes] at hb
      rw [hc, Function.update_of_ne (Nat.ne_of_gt (hr.inside waiter g' ⟨timer, hb⟩).1)]
  · rw [hframes]
    exact hr.idle
  · exact (hr.others g' hg).congr (hpc g' hg) (congrFun hframes g')

/-- What the running greenlet does to the rest of the event. -/
theorem Running.frame (hr : Running s g m) (hlocks : s'.locks = s.locks) (hnext : s'.next = s.next)
    (hwaiters : s'.waiters = s.waiters) (hpc : ∀ g', g' ≠ g → s'.pc g' = s.pc g') :
    Running s' g m := by
  refine hr.congr ?_ hnext hwaiters hpc (by rw [hlocks]) ?_
  · rw [hlocks]
    exact hr.locks
  · rw [hlocks, ← hr.permits, Function.update_eq_self]

theorem Inv.running (hi : Inv s) (hpc : s.pc g = .free) : Running s g 1 := by
  refine ⟨hi.toCore, ?_, fun g' _ => hi.placed g'⟩
  cases hi.placed g with
  | free _ hf => exact hf
  | waiting hw _ =>
    rw [hpc] at hw
    cases hw

theorem Running.stop (hr : Running s g 1) (hpc : s.pc g = .free)
    (hserved : s.flag = true → s.waiters = []) : Inv s := by
  refine ⟨hr.toCore, fun g' => ?_, hserved⟩
  by_cases hg : g' = g
  · rw [hg]
    exact .free hpc hr.idle
  · exact hr.others g' hg

/-! ## The lock -/

/-- The free lock is taken at once. -/
theorem Running.acquire (hr : Running s g 1) :
    (semaphore_acquire s.locks lock g true 0).2 = some .Py_True ∧
      Running { s with locks := (semaphore_acquire s.locks lock g true 0).1 } g 0 := by
  have hinv := acquire_inv hr.locks hr.idle lock true 0
  have hone : counters s.locks lock > 0 := by
    rw [hr.permits]
    decide
  rcases semaphore_acquire_cases s.locks lock g true 0 with
    ⟨_, hres, hc, hf⟩ | ⟨hzero, _⟩ | ⟨hzero, _⟩
  · refine ⟨hres, hr.congr hinv rfl rfl (fun _ _ => rfl) hf ?_⟩
    rw [hc, hr.permits]
    rfl
  · exact absurd hone hzero
  · exact absurd hone hzero

theorem Running.release (hr : Running s g 0) :
    Running { s with locks := semaphore_release s.locks lock g } g 1 := by
  refine hr.congr (release_inv hr.locks g lock) rfl rfl (fun _ _ => rfl)
    (Condition.release_frames lock g) ?_
  rw [(release_effect s.locks lock g).counter, hr.permits]
  rfl

/-- A lock that is held is owned, and asking changes nothing of it. -/
theorem Running.is_owned_eq (hr : Running s g 0) :
    ConditionObject_is_owned s.locks g = ((semaphore_acquire s.locks lock g false 0).1, true) ∧
      (semaphore_acquire s.locks lock g false 0).1.frames = s.locks.frames ∧
      counters (semaphore_acquire s.locks lock g false 0).1 = counters s.locks := by
  unfold ConditionObject_is_owned
  rcases semaphore_acquire_cases s.locks lock g false 0 with
    ⟨hpos, _⟩ | ⟨_, _, hres, hc, hf⟩ | ⟨_, hfalse, _⟩
  · rw [hr.permits] at hpos
    exact absurd hpos (by decide)
  · simp only [hres]
    exact ⟨trivial, hf, hc⟩
  · cases hfalse

theorem Running.owned (hr : Running s g 0) :
    (ConditionObject_is_owned s.locks g).2 = true ∧
      Running { s with locks := (ConditionObject_is_owned s.locks g).1 } g 0 := by
  obtain ⟨heq, hf, hc⟩ := hr.is_owned_eq
  rw [heq]
  refine ⟨rfl, hr.congr ?_ rfl rfl (fun _ _ => rfl) hf ?_⟩
  · exact acquire_inv hr.locks hr.idle lock false 0
  · rw [hc, ← hr.permits, Function.update_eq_self]

/-! ## The condition -/

/-- `notify_all` empties the list, and whoever was in it is notified. -/
theorem Running.notify_all (hr : Running s g 0) :
    Running (ConditionObject_notify_all s g) g 0 ∧ (ConditionObject_notify_all s g).waiters = [] ∧
      (ConditionObject_notify_all s g).pc = s.pc := by
  obtain ⟨howned, hrun⟩ := hr.owned
  have hitems := Condition.notify_items_eq g (ConditionObject_is_owned s.locks g).1 s.waiters []
  rw [List.append_nil] at hitems
  unfold ConditionObject_notify_all
  simp only [howned, Bool.not_true, Bool.false_eq_true, if_false, List.take_length, hitems]
  generalize (ConditionObject_is_owned s.locks g).1 = l at hrun ⊢
  have hframes := Condition.release_all_frames (l := l) g s.waiters
  have hother : ∀ waiter, waiter ∉ s.waiters →
      counters (Condition.release_all g l s.waiters) waiter = counters l waiter :=
    fun waiter hw => (Condition.release_all_other g hw).1
  refine ⟨⟨⟨Condition.release_all_inv hrun.locks g s.waiters, ?_, hrun.allocated, ?_, ?_,
    List.nodup_nil, ?_, ?_⟩, ?_, ?_⟩, trivial, trivial⟩
  · -- the lock is not in the list
    have hlock : lock ∉ s.waiters := fun h => absurd (hr.listed lock h).1 (Nat.lt_irrefl _)
    exact (hother lock hlock).trans hrun.permits
  · rintro waiter g' ⟨timer, hb⟩
    rw [hframes] at hb
    exact hrun.inside waiter g' ⟨timer, hb⟩
  · rintro waiter g' g'' ⟨timer, hb⟩ ⟨timer', hb'⟩
    rw [hframes] at hb hb'
    exact hrun.single waiter g' g'' ⟨timer, hb⟩ ⟨timer', hb'⟩
  · intro waiter hw
    cases hw
  · rintro waiter g' ⟨timer, hb⟩
    rw [hframes] at hb
    right
    by_cases hw : waiter ∈ s.waiters
    · exact (Condition.release_all_released hrun.locks g hrun.nodup
        (fun waiter' hw' => (hrun.listed waiter' hw').2.2) hw ⟨timer, hb⟩).1
    · rcases hrun.notified waiter g' ⟨timer, hb⟩ with hmem | hpos
      · exact absurd hmem hw
      · show counters (Condition.release_all g l s.waiters) waiter > 0
        rw [hother waiter hw]
        exact hpos
  · show (Condition.release_all g l s.waiters).frames g = none
    rw [hframes]
    exact hrun.idle
  · intro g' hg
    exact (hrun.others g' hg).congr rfl (congrFun hframes g')

/-- The private semaphore of a wait: nobody knows it yet. -/
theorem Running.new_waiter (hr : Running s g 0) :
    Running { s with locks := Condition.new_waiter s.locks s.next g, next := s.next + 1 } g 0 ∧
      counters (Condition.new_waiter s.locks s.next g) s.next = 0 := by
  obtain ⟨hframes, _, _⟩ := Condition.new_waiter_eq s.locks s.next g
  have hnew : ∀ g', ¬ Blocked s.locks s.next g' :=
    fun g' hb => absurd (hr.inside s.next g' hb).2 (Nat.lt_irrefl _)
  have hother : ∀ waiter, waiter < s.next →
      counters (Condition.new_waiter s.locks s.next g) waiter = counters s.locks waiter := by
    intro waiter hlt
    rw [Condition.new_waiter_counters, Function.update_of_ne (Nat.ne_of_lt hlt)]
  have hblocked : ∀ waiter g', Blocked (Condition.new_waiter s.locks s.next g) waiter g' →
      Blocked s.locks waiter g' := by
    rintro waiter g' ⟨timer, hb⟩
    rw [hframes] at hb
    exact ⟨timer, hb⟩
  refine ⟨⟨⟨Condition.new_waiter_keeps hr.locks hnew g, ?_, ?_, ?_, ?_, hr.nodup, ?_, ?_⟩, ?_, ?_⟩,
    ?_⟩
  · exact (hother lock hr.allocated).trans hr.permits
  · exact Nat.lt_succ_of_lt hr.allocated
  · intro waiter g' hb
    obtain ⟨hpos, hlt⟩ := hr.inside waiter g' (hblocked waiter g' hb)
    exact ⟨hpos, Nat.lt_succ_of_lt hlt⟩
  · intro waiter g' g'' hb hb'
    exact hr.single waiter g' g'' (hblocked waiter g' hb) (hblocked waiter g'' hb')
  · intro waiter hw
    obtain ⟨hpos, hlt, hzero⟩ := hr.listed waiter hw
    exact ⟨hpos, Nat.lt_succ_of_lt hlt, (hother waiter hlt).trans hzero⟩
  · intro waiter g' hb
    have hb' := hblocked waiter g' hb
    show waiter ∈ s.waiters ∨ counters (Condition.new_waiter s.locks s.next g) waiter > 0
    rw [hother waiter (hr.inside waiter g' hb').2]
    exact hr.notified waiter g' hb'
  · show (Condition.new_waiter s.locks s.next g).frames g = none
    rw [hframes]
    exact hr.idle
  · intro g' hg
    exact (hr.others g' hg).congr rfl (congrFun hframes g')
  · rw [Condition.new_waiter_counters, Function.update_self]

/-- A wait blocks on a private semaphore that is empty and in nobody's hands, and
lists it. -/
theorem Running.block (hr : Running s g 1) {waiter : Sid} (hpos : lock < waiter)
    (hlt : waiter < s.next) (hzero : counters s.locks waiter = 0) (hnew : waiter ∉ s.waiters)
    (hnobody : ∀ g', ¬ Blocked s.locks waiter g') (hflag : s.flag = false) (seconds : Nat) :
    (semaphore_acquire s.locks waiter g true seconds).2 = none ∧
      Inv { s with
        locks := (semaphore_acquire s.locks waiter g true seconds).1
        waiters := s.waiters ++ [waiter]
        pc := Function.update s.pc g (.waiting waiter) } := by
  have hinv := acquire_inv hr.locks hr.idle waiter true seconds
  rcases semaphore_acquire_cases s.locks waiter g true seconds with
    ⟨hc, _⟩ | ⟨_, hfalse, _⟩ | ⟨_, _, hres, hc, timer, hf⟩
  · rw [hzero] at hc
    exact absurd hc (by decide)
  · cases hfalse
  · refine ⟨hres, ?_⟩
    generalize (semaphore_acquire s.locks waiter g true seconds).1 = l at hinv hc hf ⊢
    have hblocked : ∀ waiter' g', Blocked l waiter' g' →
        (g' = g ∧ waiter' = waiter) ∨ Blocked s.locks waiter' g' := by
      rintro waiter' g' ⟨timer', hb⟩
      rw [hf] at hb
      by_cases hg : g' = g
      · rw [hg, Function.update_self, Option.some.injEq, Frame.mk.injEq] at hb
        exact Or.inl ⟨hg, hb.1.symm⟩
      · rw [Function.update_of_ne hg] at hb
        exact Or.inr ⟨timer', hb⟩
    refine ⟨⟨hinv, ?_, hr.allocated, ?_, ?_, ?_, ?_, ?_⟩, ?_, ?_⟩
    · rw [hc]
      exact hr.permits
    · intro waiter' g' hb
      rcases hblocked waiter' g' hb with ⟨_, rfl⟩ | hb'
      · exact ⟨hpos, hlt⟩
      · exact hr.inside waiter' g' hb'
    · intro waiter' g' g'' hb hb'
      rcases hblocked waiter' g' hb with ⟨hg, rfl⟩ | hold
      · rcases hblocked waiter' g'' hb' with ⟨hg', _⟩ | hold'
        · rw [hg, hg']
        · exact absurd hold' (hnobody g'')
      -- two greenlets on one semaphore were on it before, both of them
      · rcases hblocked waiter' g'' hb' with ⟨_, rfl⟩ | hold'
        · exact absurd hold (hnobody g')
        · exact hr.single waiter' g' g'' hold hold'
    · rw [List.nodup_append_comm]
      exact List.nodup_cons.2 ⟨hnew, hr.nodup⟩
    · intro waiter' hw
      rw [hc]
      rcases List.mem_append.1 hw with hw | hw
      · exact hr.listed waiter' hw
      · rw [List.mem_singleton.1 hw]
        exact ⟨hpos, hlt, hzero⟩
    · intro waiter' g' hb
      rw [hc]
      rcases hblocked waiter' g' hb with ⟨_, rfl⟩ | hb'
      · exact Or.inl (by simp)
      · exact (hr.notified waiter' g' hb').imp_left (List.mem_append_left _)
    · intro g'
      by_cases hg : g' = g
      · rw [hg]
        exact .waiting (Function.update_self _ _ _)
          ((congrFun hf g).trans (Function.update_self _ _ _))
      · refine (hr.others g' hg).congr (Function.update_of_ne hg _ _) ?_
        exact (congrFun hf g').trans (Function.update_of_ne hg _ _)
    · intro h
      rw [show s.flag = true from h] at hflag
      cases hflag

/-! ## The calls -/

/-- A wait that is over gives the lock back. -/
theorem wait_ended_inv (hr : Running s g 0) (hserved : s.flag = true → s.waiters = [])
    (res : Result) : Inv (wait_ended s g res) := by
  have hrun : Running (wait_ended s g res) g 1 := by
    refine hr.release.frame rfl rfl rfl fun g' hg => ?_
    exact Function.update_of_ne hg _ _
  exact hrun.stop (Function.update_self _ _ _) hserved

/-- A wait that goes on takes the lock again at once. -/
theorem acquire_restore_inv (hr : Running s g 1) (hserved : s.flag = true → s.waiters = [])
    (res : Outcome) : Inv (ConditionObject_acquire_restore s g res) := by
  obtain ⟨hres, hrun⟩ := hr.acquire
  unfold ConditionObject_acquire_restore
  simp only [hres, restored]
  exact wait_ended_inv hrun hserved _

theorem condition_wait_inv (hr : Running s g 0) (hflag : s.flag = false) (seconds : Nat) :
    Inv (ConditionObject_wait s g seconds) := by
  obtain ⟨howned, hrun⟩ := hr.owned
  unfold ConditionObject_wait
  simp only [howned, Bool.not_true, Bool.false_eq_true, if_false]
  generalize (ConditionObject_is_owned s.locks g).1 = l at hrun ⊢
  obtain ⟨hnew, hzero⟩ := hrun.new_waiter
  have hframes : ∀ sem, (semaphore_release (Condition.new_waiter l s.next g) sem g).frames =
      l.frames := by
    intro sem
    rw [Condition.release_frames, (Condition.new_waiter_eq l s.next g).1]
  have hempty : counters (semaphore_release (Condition.new_waiter l s.next g) lock g) s.next = 0 := by
    rw [(release_effect _ lock g).counter, Function.update_of_ne (Nat.ne_of_gt hr.allocated)]
    exact hzero
  -- the private semaphore is at an address that no greenlet and no list knows
  have hunlisted : s.next ∉ s.waiters :=
    fun hw => absurd (hr.listed s.next hw).2.1 (Nat.lt_irrefl _)
  have hnobody : ∀ g', ¬ Blocked (semaphore_release (Condition.new_waiter l s.next g) lock g)
      s.next g' := by
    rintro g' ⟨timer, hb⟩
    rw [hframes] at hb
    exact absurd (hrun.inside s.next g' ⟨timer, hb⟩).2 (Nat.lt_irrefl _)
  obtain ⟨hres, hi⟩ := hnew.release.block hr.allocated (Nat.lt_succ_self _) hempty hunlisted
    hnobody hflag seconds
  simp only [hres]
  exact hi

/-- `set` runs to its end with the list emptied. -/
theorem event_set_running (hi : Inv s) (hpc : s.pc g = .free) :
    Running (event_set s g) g 1 ∧ (event_set s g).waiters = [] ∧ (event_set s g).pc = s.pc := by
  obtain ⟨hres, hrun⟩ := (hi.running hpc).acquire
  unfold event_set
  simp only [hres, set_entered]
  generalize (semaphore_acquire s.locks lock g true 0).1 = l at hrun ⊢
  have hset : Running { s with locks := l, flag := true } g 0 :=
    hrun.frame rfl rfl rfl fun _ _ => rfl
  obtain ⟨hall, hempty, hpc'⟩ := hset.notify_all
  exact ⟨hall.release, hempty, hpc'⟩

/-- `clear` runs to its end, and changes neither the list nor a place. -/
theorem clear_running (hi : Inv s) (hpc : s.pc g = .free) :
    Running (EventObject_clear s g) g 1 ∧ (EventObject_clear s g).pc = s.pc := by
  obtain ⟨hres, hrun⟩ := (hi.running hpc).acquire
  unfold EventObject_clear
  simp only [hres, clear_entered]
  generalize (semaphore_acquire s.locks lock g true 0).1 = l at hrun ⊢
  exact ⟨hrun.release.frame rfl rfl rfl fun _ _ => rfl, trivial⟩

theorem event_set_inv (hi : Inv s) (hpc : s.pc g = .free) : Inv (event_set s g) := by
  obtain ⟨hrun, hempty, hpc'⟩ := event_set_running hi hpc
  refine hrun.stop ?_ fun _ => hempty
  rw [hpc']
  exact hpc

/-- `clear` leaves the flag clear. -/
theorem clear_flag (hi : Inv s) (hpc : s.pc g = .free) : (EventObject_clear s g).flag = false := by
  obtain ⟨hres, _⟩ := (hi.running hpc).acquire
  unfold EventObject_clear
  simp only [hres, clear_entered]

theorem clear_inv (hi : Inv s) (hpc : s.pc g = .free) : Inv (EventObject_clear s g) := by
  obtain ⟨hrun, hpc'⟩ := clear_running hi hpc
  refine hrun.stop ?_ fun hflag => ?_
  · rw [hpc']
    exact hpc
  · rw [clear_flag hi hpc] at hflag
    cases hflag

theorem event_wait_inv (hi : Inv s) (hpc : s.pc g = .free) (seconds : Nat) :
    Inv (event_wait s g seconds) := by
  obtain ⟨hres, hrun⟩ := (hi.running hpc).acquire
  unfold event_wait
  simp only [hres, wait_entered]
  -- the flag is tested under the lock, so no `set` comes between the test and the wait
  split
  next hflag =>
    refine condition_wait_inv hrun ?_ seconds
    simpa using hflag
  next => exact wait_ended_inv hrun hi.served _

/-- A wait that ended, whichever way: its greenlet runs, and may take the lock. -/
theorem ended_running (hi : Inv s) {l : Locks.St} {f : Frame} (hl : Locks.Inv l)
    (hf : s.locks.frames g = some f)
    (hframes : l.frames = Function.update s.locks.frames g none)
    (hsame : ∀ waiter, (waiter ∈ s.waiters ∨ ∃ g, Blocked l waiter g) →
      counters l waiter = counters s.locks waiter)
    (hlock : counters l lock = 1) :
    Running { s with locks := l } g 1 ∧ ∃ waiter, s.pc g = .waiting waiter := by
  have hsub : ∀ g' f', l.frames g' = some f' → s.locks.frames g' = some f' := by
    intro g' f' h
    rw [hframes] at h
    by_cases hg : g' = g
    · rw [hg, Function.update_self] at h
      cases h
    · rwa [Function.update_of_ne hg] at h
  refine ⟨⟨hi.toCore.congr hl rfl rfl hsub hlock hsame, ?_, fun g' hg => ?_⟩, ?_⟩
  · exact (congrFun hframes g).trans (Function.update_self _ _ _)
  · refine (hi.placed g').congr rfl ?_
    exact (congrFun hframes g').trans (Function.update_of_ne hg _ _)
  · cases hi.placed g with
    | free _ hnone =>
      rw [hf] at hnone
      cases hnone
    | @waiting waiter _ hpc _ => exact ⟨waiter, hpc⟩

/-- The greenlet whose wait a turn ends. -/
theorem turn_running (hi : Inv s) {thrown : Option (Gid × Exc)} {l : Locks.St} {res : Outcome}
    (ht : Turn s.locks thrown (l, some (g, res))) (hinv : Locks.Inv l) :
    Running { s with locks := l } g 1 ∧ ∃ waiter, s.pc g = .waiting waiter := by
  cases ht with
  | @took _ _ f hf hpos hframes hc =>
    have hb : Blocked s.locks f.self g := ⟨f.timer, hf⟩
    refine ended_running hi hinv hf hframes ?_ ?_
    · -- the semaphore that lost a permit is not listed, and nobody is left on it
      rintro waiter hw
      rw [hc]
      refine Function.update_of_ne ?_ _ _
      rintro rfl
      rcases hw with hmem | ⟨g', timer, hb'⟩
      · rw [(hi.listed _ hmem).2.2] at hpos
        exact absurd hpos (by decide)
      · by_cases hg : g' = g
        · rw [hframes, hg, Function.update_self] at hb'
          cases hb'
        · rw [hframes, Function.update_of_ne hg] at hb'
          exact hg (hi.single f.self g' g ⟨timer, hb'⟩ hb)
    · rw [hc, Function.update_of_ne (Nat.ne_of_lt (hi.inside f.self g hb).1)]
      exact hi.permits
  | failed _ hf hframes hc =>
    refine ended_running hi hinv hf hframes (fun waiter _ => congrFun hc waiter) ?_
    exact (congrFun hc lock).trans hi.permits

/-- After one turn of the loop, the wait that ended goes on. -/
theorem settle_inv (hi : Inv s) {thrown : Option (Gid × Exc)}
    {r : Locks.St × Option (Gid × Outcome)} (ht : Turn s.locks thrown r) (hinv : Locks.Inv r.1) :
    Inv (settle s r) := by
  obtain ⟨l, _ | ⟨g, res⟩⟩ := r
  · -- Case: no wait ended
    cases ht with
    | quiet hframes hc =>
      refine ⟨hi.toCore.congr hinv rfl rfl (fun g f hf => ?_) ?_ (fun waiter _ => ?_), fun g => ?_,
        hi.served⟩
      · exact (congrFun hframes g).symm.trans hf
      · exact (congrFun hc lock).trans hi.permits
      · exact congrFun hc waiter
      · exact (hi.placed g).congr rfl (congrFun hframes g)
  · -- Case: the wait of `g` ended
    obtain ⟨hrun, waiter, hpc⟩ := turn_running hi ht hinv
    simp only [settle, finished, hpc]
    exact acquire_restore_inv hrun hi.served res

/-- Only the loop has changed. -/
theorem Inv.with_loop (hi : Inv s) {loop : LoopObject Callback} (hl : s.locks.loop.Grows loop) :
    Inv { s with locks := { s.locks with loop := loop } } := by
  refine ⟨hi.toCore.congr (loop_inv hi.locks hl) rfl rfl (fun _ _ h => h) hi.permits
    (fun _ _ => rfl), fun g => ?_, hi.served⟩
  exact (hi.placed g).congr rfl rfl

theorem step_inv (s : St) (a : Act) (s' : St) (h : step s a = some s') (hi : Inv s) : Inv s' := by
  cases a with
  | set g =>
    rcases Option.ite_none_right_eq_some.1 h with ⟨hpc, heq⟩
    cases heq
    exact event_set_inv hi hpc
  | clear g =>
    rcases Option.ite_none_right_eq_some.1 h with ⟨hpc, heq⟩
    cases heq
    exact clear_inv hi hpc
  | wait g seconds =>
    rcases Option.ite_none_right_eq_some.1 h with ⟨hpc, heq⟩
    cases heq
    exact event_wait_inv hi hpc seconds
  | fire waiter =>
    rcases Option.map_eq_some_iff.1 h with ⟨r, hfire, rfl⟩
    exact settle_inv hi (turn_fire hfire) (fire_inv hi.locks hfire)
  | due timer =>
    rcases Option.map_eq_some_iff.1 h with ⟨loop, hloop, rfl⟩
    exact hi.with_loop (LoopObject.grows_fire_timers_next hloop)
  | throw g e =>
    cases h
    exact settle_inv hi (turn_throw s.locks g e) (resume_inv hi.locks g _)
  | switch g =>
    cases h
    exact settle_inv hi (turn_value s.locks g _ none) (resume_inv hi.locks g _)
  | call_soon n =>
    cases h
    exact hi.with_loop (LoopObject.grows_loop_schedule_call _ _ _ _)

theorem Inv.serves (hi : Inv s) : Serves s := by
  refine ⟨⟨hi.permits, fun g hb => ?_⟩, fun g hpc => ?_, fun g => ?_, fun hflag g waiter hpc => ?_⟩
  · exact absurd (hi.inside lock g hb).1 (Nat.lt_irrefl _)
  · exact ⟨(event_set_running hi hpc).2.2, (clear_running hi hpc).2⟩
  · cases hi.placed g with
    | free hpc _ => exact Or.inl hpc
    | @waiting waiter timer hpc hf => exact Or.inr ⟨waiter, hpc, timer, hf⟩
  · -- a greenlet that is not in the empty list was notified
    have hb : Blocked s.locks waiter g := by
      cases hi.placed g with
      | free hfree _ =>
        rw [hpc] at hfree
        cases hfree
      | @waiting waiter' timer hw hf =>
        rw [hpc, Pc.waiting.injEq] at hw
        rw [hw]
        exact ⟨timer, hf⟩
    have hpos : counters s.locks waiter > 0 := by
      rcases hi.notified waiter g hb with hmem | hpos
      · rw [hi.served hflag] at hmem
        cases hmem
      · exact hpos
    have hdue := hi.locks.due waiter
    have hcard : 0 < (s.locks.sems waiter).waiters.card :=
      Finset.card_pos.2 ⟨g, (hi.locks.waiting waiter g).2 hb⟩
    have hnat := (counter_pos_iff _).1 hpos
    refine ⟨hpos, ?_⟩
    simp only [counters] at hnat
    omega

end Running

/-! ## Runs -/

/-- No wake-up is lost, and neither `set` nor `clear` ever suspends. -/
theorem event_serves (as : List Act) (t : St) (h : Trace.run step init as = some t) : Serves t :=
  (Trace.run_invariant step_inv init_inv h).serves

/-- One wait times out and leaves a stale entry; the event is cleared between
`set` and the wake-up of the other. -/
theorem event_serves_cleared : ∃ t, Trace.run step init
    [.wait 1 5, .wait 2 0, .due 0, .fire 0, .set 3, .clear 3, .wait 4 0, .fire 2, .set 3] =
      some t ∧ Serves t := by
  have h : (Trace.run step init
      [.wait 1 5, .wait 2 0, .due 0, .fire 0, .set 3, .clear 3, .wait 4 0, .fire 2, .set 3]).any
        (fun t => decide (t.flag = true ∧ t.pc 4 = .waiting 3)) = true := by
    decide
  rcases Trace.run_any h with ⟨t, ht, _⟩
  exact ⟨t, ht, event_serves _ t ht⟩

end Jega.Event
