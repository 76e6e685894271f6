import Jega.Event.Wakeup

/-!
# Jega.Event.Ended — how a wait ends

A wait that blocked ends with `True` after a `set`, with `False` at its own
deadline, or with the exception that was thrown into it. Without a timeout its
deadline is cancelled from the start (`Muted`), and a deadline that is not
cancelled carries its own timer (`Stamped`).

The flag is not cleared here: `noticed` fails after `clear`.
-/

namespace Jega.Locks

variable {l l' l'' : St} {g : Gid}

/-- From `l` to `l'`, no call has started. -/
structure Shrinks (l l' : St) : Prop where
  deadlines : Deadlines l → Deadlines l'
  loop : Extends l.loop l'.loop
  frames : ∀ g f, l'.frames g = some f → l.frames g = some f

theorem Shrinks.trans (h : Shrinks l l') (h' : Shrinks l' l'') : Shrinks l l'' where
  deadlines hd := h'.deadlines (h.deadlines hd)
  loop := h.loop.trans h'.loop
  frames g f hf := h.frames g f (h'.frames g f hf)

/-- Neither a call nor a deadline has been added. -/
theorem shrinks_of_plain (hp : Plain l.loop l'.loop) (hf : l'.frames = l.frames) :
    Shrinks l l' where
  deadlines hd := hd.plain hp hf
  loop := hp.toExtends
  frames g f hg := by rwa [hf] at hg

theorem Stamped.shrinks (hs : Stamped l) (hd : Deadlines l) (h : Shrinks l l') : Stamped l' := by
  intro x g timer hcallback hcancelled
  obtain ⟨self, hf⟩ := (h.deadlines hd).live x g ⟨⟨timer, hcallback⟩, hcancelled⟩
  -- the deadline is that of a call that was there before
  have hlt : x < l.loop.next := hd.timer_lt g _ (h.frames g _ hf)
  have hlive : Live l.loop x g := h.loop.live hlt ⟨⟨timer, hcallback⟩, hcancelled⟩
  rw [h.loop.callback x hlt] at hcallback
  exact hs x g timer hcallback hlive.2

theorem Muted.shrinks (hm : Muted l g) (hd : Deadlines l) (h : Shrinks l l') : Muted l' g :=
  hm.extends hd h.loop (h.frames g)

theorem shrinks_release (l : St) (self : Sid) (g : Gid) : Shrinks l (semaphore_release l self g) :=
  shrinks_of_plain (release_plain l self g) (Condition.release_frames self g)

theorem shrinks_release_all (l : St) (g : Gid) (items : List Sid) :
    Shrinks l (Condition.release_all g l items) := by
  induction items generalizing l with
  | nil => exact shrinks_of_plain (Plain.refl _) rfl
  | cons item items ih => exact (shrinks_release l item g).trans (ih _)

/-- A call that finds a permit, or does not block. -/
theorem shrinks_acquire (l : St) (self : Sid) (g : Gid) {blocking : Bool} (timeout : Nat)
    (hnow : counters l self > 0 ∨ blocking = false) :
    Shrinks l (semaphore_acquire l self g blocking timeout).1 := by
  unfold semaphore_acquire
  split
  · exact shrinks_of_plain (Plain.refl _) rfl
  next hzero =>
    rcases hnow with hpos | rfl
    · exact absurd hpos hzero
    · exact shrinks_of_plain (Plain.refl _) rfl

theorem turn_frames {thrown : Option (Gid × Exc)} {r : St × Option (Gid × Outcome)}
    (ht : Turn l thrown r) : ∀ g f, r.1.frames g = some f → l.frames g = some f := by
  intro g' f' hf'
  have hended : ∀ {l' : St} {g : Gid}, l'.frames = Function.update l.frames g none →
      l'.frames g' = some f' → l.frames g' = some f' := by
    intro l' g hframes hg
    rw [hframes] at hg
    rcases eq_or_ne g' g with rfl | hne
    · rw [Function.update_self] at hg
      cases hg
    · rwa [Function.update_of_ne hne] at hg
  cases ht with
  | quiet hframes _ => rwa [hframes] at hf'
  | took _ _ hframes _ => exact hended hframes hf'
  | failed _ _ hframes _ => exact hended hframes hf'

theorem shrinks_resume (hd : Deadlines l) (g : Gid) (r : Resumption) :
    Shrinks l (resume l g r).1 := by
  obtain ⟨hd', hext⟩ := resume_deadlines hd g r
  refine ⟨fun _ => hd', hext, ?_⟩
  cases r with
  | value v => exact turn_frames (turn_value l g v none)
  | throw e => exact turn_frames (turn_throw l g e)

theorem shrinks_fire (hd : Deadlines l) {waiter : Gid} {r : St × Option (Gid × Outcome)}
    (h : fire l waiter = some r) : Shrinks l r.1 := by
  obtain ⟨hd', hext⟩ := fire_deadlines hd h
  exact ⟨fun _ => hd', hext, turn_frames (turn_fire h)⟩

/-- A deadline that reaches its call makes it `False`, and the call has one. -/
theorem Stamped.expired (hs : Stamped l) (hd : Deadlines l) {e : Exc} {f : Frame}
    (h : expired l = some (g, e)) (hf : l.frames g = some f) :
    acquire_raised f.timer e = .Py_False ∧ ¬ Muted l g := by
  refine ⟨?_, fun hm => hm.not_expired hd e h⟩
  obtain ⟨d, hdeadline, heq⟩ := Option.map_eq_some_iff.1 h
  cases heq
  obtain ⟨item, _, hcallback, hcancelled⟩ := deadline_entry hdeadline
  obtain ⟨self, hframe⟩ := hd.live item d.1 ⟨⟨d.2, hcallback⟩, hcancelled⟩
  rw [hf] at hframe
  cases hframe
  rw [hs item d.1 d.2 hcallback hcancelled]
  exact if_pos rfl

/-- A greenlet that blocks sets one deadline, with its timer on it. -/
theorem Stamped.block (hs : Stamped l) (self : Sid) (g : Gid) (timeout : Nat) :
    Stamped (semaphore_acquire l self g true timeout).1 := by
  by_cases hc : (l.sems self).counter > 0
  · intro h g' timer hcallback hcancelled
    simp only [semaphore_acquire, if_pos hc] at hcallback hcancelled
    exact hs h g' timer hcallback hcancelled
  · refine hs.set_timeout timeout g ?_
    rw [semaphore_acquire_block hc]

end Jega.Locks

namespace Jega.Event

open Locks

/-- A blocked greenlet has a permit only while the flag is set. -/
def Noticed (s : St) : Prop :=
  ∀ waiter g, Blocked s.locks waiter g → counters s.locks waiter > 0 → s.flag = true

/-- What the end of a wait rests on. -/
structure Steady (s : St) : Prop where
  inv : Inv s
  deadlines : Deadlines s.locks
  stamped : Stamped s.locks
  noticed : Noticed s

/-! ## `set` -/

section Calls

variable {s s' : St} {g : Gid}

theorem shrinks_is_owned (l : Locks.St) (g : Gid) :
    Shrinks l (ConditionObject_is_owned l g).1 := by
  unfold ConditionObject_is_owned
  have hacquire := shrinks_acquire l lock g 0 (Or.inr (rfl : false = false))
  dsimp only
  split
  · exact hacquire.trans (shrinks_release _ lock g)
  · exact hacquire

theorem shrinks_notify_all (s : St) (g : Gid) :
    Shrinks s.locks (ConditionObject_notify_all s g).locks := by
  have hitems := Condition.notify_items_eq g (ConditionObject_is_owned s.locks g).1 s.waiters []
  rw [List.append_nil] at hitems
  unfold ConditionObject_notify_all
  dsimp only
  split
  · exact shrinks_is_owned s.locks g
  · simp only [List.take_length, hitems]
    exact (shrinks_is_owned s.locks g).trans (shrinks_release_all _ g s.waiters)

theorem notify_all_same (s : St) (g : Gid) :
    (ConditionObject_notify_all s g).flag = s.flag ∧
      (ConditionObject_notify_all s g).ended = s.ended := by
  unfold ConditionObject_notify_all
  dsimp only
  split
  · exact ⟨rfl, rfl⟩
  · exact ⟨rfl, rfl⟩

/-- The lock of a running event is free. -/
theorem Running.shrinks_lock (hr : Running s g 1) :
    Shrinks s.locks (semaphore_acquire s.locks lock g true 0).1 := by
  refine shrinks_acquire s.locks lock g 0 (Or.inl ?_)
  rw [hr.permits]
  decide

theorem event_set_shrinks (hi : Inv s) (hpc : s.pc g = .free) :
    Shrinks s.locks (event_set s g).locks ∧ (event_set s g).flag = true ∧
      (event_set s g).ended = s.ended := by
  have hlock := (hi.running hpc).shrinks_lock
  obtain ⟨hres, _⟩ := (hi.running hpc).acquire
  unfold event_set
  simp only [hres, set_entered]
  generalize (semaphore_acquire s.locks lock g true 0).1 = l at hlock
  have hall := shrinks_notify_all { s with locks := l, flag := true } g
  obtain ⟨hset, hended⟩ := notify_all_same { s with locks := l, flag := true } g
  exact ⟨(hlock.trans hall).trans (shrinks_release _ lock g), hset, hended⟩

/-- `set` sets the flag, ends no wait, and tells everybody who is blocked. -/
theorem event_set_steady (hs : Steady s) (hpc : s.pc g = .free) :
    Steady (event_set s g) ∧ Shrinks s.locks (event_set s g).locks ∧
      (event_set s g).flag = true ∧ (event_set s g).pc = s.pc ∧
      (event_set s g).ended = s.ended := by
  have hi : Inv (event_set s g) := event_set_inv hs.inv hpc
  have hpc' := (event_set_running hs.inv hpc).2.2
  obtain ⟨hshrinks, hset, hended⟩ := event_set_shrinks hs.inv hpc
  refine ⟨⟨hi, hshrinks.deadlines hs.deadlines, hs.stamped.shrinks hs.deadlines hshrinks, ?_⟩,
    hshrinks, hset, hpc', hended⟩
  intro _ _ _ _
  exact hset

/-! ## `wait` -/

theorem owned_same (hr : Running s g 0) :
    (ConditionObject_is_owned s.locks g).1.frames = s.locks.frames ∧
      counters (ConditionObject_is_owned s.locks g).1 = counters s.locks := by
  obtain ⟨heq, hf, hc⟩ := hr.is_owned_eq
  rw [heq]
  exact ⟨hf, hc⟩

/-- The semaphores when the private one of a new wait has been made and the lock
given back. -/
def ready (s : St) (g : Gid) : Locks.St :=
  semaphore_release
    (Condition.new_waiter (ConditionObject_is_owned s.locks g).1 s.next g) lock g

theorem ready_same (hr : Running s g 0) :
    Shrinks s.locks (ready s g) ∧ (ready s g).frames = s.locks.frames ∧
      counters (ready s g) s.next = 0 ∧
      ∀ waiter, waiter ≠ lock → waiter ≠ s.next →
        counters (ready s g) waiter = counters s.locks waiter := by
  obtain ⟨hframes, hcounters⟩ := owned_same hr
  obtain ⟨hf, hloop, _⟩ := Condition.new_waiter_eq (ConditionObject_is_owned s.locks g).1 s.next g
  have hnew : Shrinks (ConditionObject_is_owned s.locks g).1
      (Condition.new_waiter (ConditionObject_is_owned s.locks g).1 s.next g) := by
    refine shrinks_of_plain ?_ hf
    rw [hloop]
    exact Plain.refl _
  unfold ready
  refine ⟨((shrinks_is_owned s.locks g).trans hnew).trans (shrinks_release _ lock g), ?_, ?_, ?_⟩
  · rw [Condition.release_frames, hf, hframes]
  · rw [(release_effect _ lock g).counter, Condition.new_waiter_counters,
      Function.update_of_ne (Nat.ne_of_gt hr.allocated), Function.update_self]
  · intro waiter hlock hnext
    rw [(release_effect _ lock g).counter, Condition.new_waiter_counters,
      Function.update_of_ne hlock, Function.update_of_ne hnext, hcounters]

theorem wait_blocks (hr : Running s g 0) (seconds : Nat) :
    (semaphore_acquire (ready s g) s.next g true seconds).2 = none := by
  have hzero := (ready_same hr).2.2.1
  rcases semaphore_acquire_cases (ready s g) s.next g true seconds with
    ⟨hpos, _⟩ | ⟨_, hfalse, _⟩ | ⟨_, _, hres, _⟩
  · rw [hzero] at hpos
    exact absurd hpos (by decide)
  · cases hfalse
  · exact hres

/-- A wait that blocks. -/
theorem condition_wait_eq (hr : Running s g 0) (seconds : Nat) :
    ConditionObject_wait s g seconds =
      { s with
        locks := (semaphore_acquire (ready s g) s.next g true seconds).1
        next := s.next + 1
        waiters := s.waiters ++ [s.next]
        pc := Function.update s.pc g (.waiting s.next) } := by
  obtain ⟨howned, _⟩ := hr.owned
  have hres := wait_blocks hr seconds
  unfold ConditionObject_wait
  simp only [howned, Bool.not_true, Bool.false_eq_true, if_false]
  rw [ready] at hres ⊢
  simp only [hres]

theorem condition_wait_stamped (hr : Running s g 0) (hd : Deadlines s.locks)
    (hs : Stamped s.locks) (seconds : Nat) :
    Deadlines (ConditionObject_wait s g seconds).locks ∧
      Stamped (ConditionObject_wait s g seconds).locks ∧
      (seconds = 0 → Muted (ConditionObject_wait s g seconds).locks g) := by
  obtain ⟨hsh, hframes, _, _⟩ := ready_same hr
  have hidle : (ready s g).frames g = none := by
    rw [hframes]
    exact hr.idle
  obtain ⟨hd', _, hmuted⟩ := acquire_deadlines (hsh.deadlines hd) hidle s.next true seconds
  rw [condition_wait_eq hr seconds]
  exact ⟨hd', (hs.shrinks hd hsh).block s.next g seconds, hmuted⟩

/-- A new wait has no permit, and the permits of the others stay. -/
theorem condition_wait_permits (hr : Running s g 0) (seconds : Nat) {waiter : Sid} {g' : Gid}
    (hb : Blocked (ConditionObject_wait s g seconds).locks waiter g')
    (hpos : counters (ConditionObject_wait s g seconds).locks waiter > 0) :
    Blocked s.locks waiter g' ∧ counters s.locks waiter > 0 := by
  obtain ⟨_, hframes, hzero, hother⟩ := ready_same hr
  obtain ⟨timer, hb⟩ := hb
  rw [condition_wait_eq hr seconds] at hb hpos
  rcases semaphore_acquire_cases (ready s g) s.next g true seconds with
    ⟨hc, _⟩ | ⟨_, hfalse, _⟩ | ⟨_, _, _, hc, timer', hf⟩
  · rw [hzero] at hc
    exact absurd hc (by decide)
  · cases hfalse
  · simp only at hb hpos
    rw [hf] at hb
    rw [hc] at hpos
    rcases eq_or_ne g' g with rfl | hg
    · -- the new semaphore is empty
      rw [Function.update_self] at hb
      cases hb
      rw [hzero] at hpos
      exact absurd hpos (by decide)
    · rw [Function.update_of_ne hg, hframes] at hb
      obtain ⟨hlock, hlt⟩ := hr.inside waiter g' ⟨timer, hb⟩
      rw [hother waiter (Nat.ne_of_gt hlock) (Nat.ne_of_lt hlt)] at hpos
      exact ⟨⟨timer, hb⟩, hpos⟩

theorem condition_wait_steady (hr : Running s g 0) (hd : Deadlines s.locks)
    (hs : Stamped s.locks) (hn : Noticed s) (hflag : s.flag = false) (seconds : Nat) :
    Steady (ConditionObject_wait s g seconds) ∧
      (seconds = 0 → Muted (ConditionObject_wait s g seconds).locks g) := by
  have hi : Inv (ConditionObject_wait s g seconds) := condition_wait_inv hr hflag seconds
  obtain ⟨hd', hs', hmuted⟩ := condition_wait_stamped hr hd hs seconds
  refine ⟨⟨hi, hd', hs', fun waiter g' hb hpos => ?_⟩, hmuted⟩
  obtain ⟨hb', hpos'⟩ := condition_wait_permits hr seconds hb hpos
  rw [condition_wait_eq hr seconds]
  exact hn waiter g' hb' hpos'

/-- Nobody is blocked on the lock that is taken. -/
theorem lock_permits (hi : Inv s) (hpc : s.pc g = .free) {waiter : Sid} {g' : Gid}
    (hb : Blocked (semaphore_acquire s.locks lock g true 0).1 waiter g')
    (hpos : counters (semaphore_acquire s.locks lock g true 0).1 waiter > 0) :
    Blocked s.locks waiter g' ∧ counters s.locks waiter > 0 := by
  obtain ⟨timer, hb⟩ := hb
  rcases semaphore_acquire_cases s.locks lock g true 0 with
    ⟨_, _, hc, hf⟩ | ⟨_, hfalse, _⟩ | ⟨hzero, _⟩
  · rw [hf] at hb
    have hlock : waiter ≠ lock := Nat.ne_of_gt (hi.inside waiter g' ⟨timer, hb⟩).1
    rw [hc, Function.update_of_ne hlock] at hpos
    exact ⟨⟨timer, hb⟩, hpos⟩
  · cases hfalse
  · rw [(hi.running hpc).permits] at hzero
    exact absurd (by decide) hzero

/-- A wait on an event that is clear blocks its caller, and without a timeout it
has no deadline. -/
theorem event_wait_steady (hs : Steady s) (hpc : s.pc g = .free) (hflag : s.flag = false)
    (seconds : Nat) :
    Steady (event_wait s g seconds) ∧ (event_wait s g seconds).flag = false ∧
      (event_wait s g seconds).ended = s.ended ∧
      (event_wait s g seconds).pc = Function.update s.pc g (.waiting s.next) ∧
      (seconds = 0 → Muted (event_wait s g seconds).locks g) := by
  have hrunning := hs.inv.running hpc
  obtain ⟨hres, hrun⟩ := hrunning.acquire
  have hsh := hrunning.shrinks_lock
  have hnoticed : Noticed { s with locks := (semaphore_acquire s.locks lock g true 0).1 } := by
    intro waiter g' hb hpos
    obtain ⟨hb', hpos'⟩ := lock_permits hs.inv hpc hb hpos
    exact hs.noticed waiter g' hb' hpos'
  have heq : event_wait s g seconds =
      ConditionObject_wait { s with locks := (semaphore_acquire s.locks lock g true 0).1 } g
        seconds := by
    unfold event_wait
    simp only [hres, wait_entered, hflag, Bool.not_false, if_true]
  obtain ⟨hsteady, hmuted⟩ := condition_wait_steady hrun (hsh.deadlines hs.deadlines)
    (hs.stamped.shrinks hs.deadlines hsh) hnoticed hflag seconds
  rw [heq]
  refine ⟨hsteady, ?_, ?_, ?_, hmuted⟩
  · rw [condition_wait_eq hrun]
    exact hflag
  · rw [condition_wait_eq hrun]
  · rw [condition_wait_eq hrun]

/-! ## Turns -/

/-- What is not a call of the event, nor an exception that looks like a deadline. -/
def Act.passive : Act → Bool
  | .fire _ | .due _ | .switch _ | .call_soon _ => true
  | .throw _ (.other _) => true
  | _ => false

/-- How a blocked call of `g` ends. -/
inductive Ends (s : St) (g : Gid) : Outcome → Prop where
  | set (hflag : s.flag = true) : Ends s g .Py_True
  | expired (hm : ¬ Muted s.locks g) : Ends s g .Py_False
  | thrown (n : Nat) : Ends s g (.NULL (some (.other n)))

/-- No wait ends, or one. -/
inductive Turned (s s' : St) : Prop where
  | quiet (hpc : s'.pc = s.pc) (hended : s'.ended = s.ended)
  | ended {g : Gid} {waiter : Sid} {res : Outcome} (hwaiting : s.pc g = .waiting waiter)
    (hpc : s'.pc = Function.update s.pc g .free)
    (hended : s'.ended = s.ended ++ [(g, .outcome res)])
    (hres : Ends s g res)

theorem Noticed.congr (hn : Noticed s) (hflag : s'.flag = s.flag)
    (hframes : s'.locks.frames = s.locks.frames) (hc : counters s'.locks = counters s.locks) :
    Noticed s' := by
  rintro waiter g ⟨timer, hb⟩ hpos
  rw [hflag]
  rw [hframes] at hb
  rw [hc] at hpos
  exact hn waiter g ⟨timer, hb⟩ hpos

/-- The lock is taken and given back. -/
theorem Running.lock_round (hr : Running s g 1) :
    (semaphore_release (semaphore_acquire s.locks lock g true 0).1 lock g).frames =
        s.locks.frames ∧
      counters (semaphore_release (semaphore_acquire s.locks lock g true 0).1 lock g) =
        counters s.locks := by
  rw [Condition.release_frames, (release_effect _ lock g).counter]
  rcases semaphore_acquire_cases s.locks lock g true 0 with
    ⟨_, _, hc, hf⟩ | ⟨_, hfalse, _⟩ | ⟨hzero, _⟩
  · refine ⟨hf, ?_⟩
    rw [hc, Function.update_self, Function.update_idem, UInt32.sub_add_cancel,
      Function.update_eq_self]
  · cases hfalse
  · rw [hr.permits] at hzero
    exact absurd (by decide) hzero

/-- A wait that goes on to its end, with the lock free. -/
theorem acquire_restore_eq (hr : Running s g 1) (res : Outcome) :
    ConditionObject_acquire_restore s g res =
      wait_ended { s with locks := (semaphore_acquire s.locks lock g true 0).1 } g
        (.outcome res) := by
  obtain ⟨hres, _⟩ := hr.acquire
  unfold ConditionObject_acquire_restore
  simp only [hres, restored]

/-- How an exception ends the call it reaches. -/
def Throws (l : Locks.St) (thrown : Option (Gid × Exc)) : Prop :=
  ∀ g e f, thrown = some (g, e) → l.frames g = some f →
    (acquire_raised f.timer e = .Py_False ∧ ¬ Muted l g) ∨
      ∃ n, acquire_raised f.timer e = .NULL (some (.other n))

theorem Steady.turn_ends (hs : Steady s) {thrown : Option (Gid × Exc)} {l : Locks.St}
    {res : Outcome} (ht : Turn s.locks thrown (l, some (g, res)))
    (hthrown : Throws s.locks thrown) : Ends s g res := by
  cases ht with
  | took hf hpos _ _ => exact .set (hs.noticed _ g ⟨_, hf⟩ hpos)
  | failed ht hf _ _ =>
    rcases hthrown _ _ _ ht hf with ⟨hfalse, hm⟩ | ⟨n, hnull⟩
    · rw [hfalse]
      exact .expired hm
    · rw [hnull]
      exact .thrown n

/-- A wait that ended in the loop goes on to its end. -/
theorem settle_eq (hi : Inv s) {thrown : Option (Gid × Exc)} {l : Locks.St} {res : Outcome}
    (ht : Turn s.locks thrown (l, some (g, res))) (hinv : Locks.Inv l) :
    settle s (l, some (g, res)) =
      wait_ended { s with locks := (semaphore_acquire l lock g true 0).1 } g (.outcome res) := by
  obtain ⟨hrun, waiter, hpc⟩ := turn_running hi ht hinv
  simp only [settle, finished, hpc]
  exact acquire_restore_eq hrun res

theorem settle_shrinks (hi : Inv s) {thrown : Option (Gid × Exc)}
    {r : Locks.St × Option (Gid × Outcome)} (ht : Turn s.locks thrown r) (hinv : Locks.Inv r.1)
    (hsh : Shrinks s.locks r.1) : Shrinks s.locks (settle s r).locks := by
  obtain ⟨l, _ | ⟨g, res⟩⟩ := r
  · exact hsh
  · obtain ⟨hrun, _⟩ := turn_running hi ht hinv
    rw [settle_eq hi ht hinv]
    exact (hsh.trans hrun.shrinks_lock).trans (shrinks_release _ lock g)

/-- Nobody gets a permit in a turn. -/
theorem settle_permits (hi : Inv s) {thrown : Option (Gid × Exc)}
    {r : Locks.St × Option (Gid × Outcome)} (ht : Turn s.locks thrown r) (hinv : Locks.Inv r.1)
    {waiter : Sid} (hb : Blocked (settle s r).locks waiter g)
    (hpos : counters (settle s r).locks waiter > 0) :
    Blocked s.locks waiter g ∧ counters s.locks waiter > 0 := by
  have hturn : ∀ {timer : Hid}, r.1.frames g = some ⟨waiter, timer⟩ → counters r.1 waiter > 0 →
      Blocked s.locks waiter g ∧ counters s.locks waiter > 0 := by
    intro timer hf hpos
    have hf' := turn_frames ht g _ hf
    refine ⟨⟨timer, hf'⟩, ?_⟩
    cases ht with
    | quiet _ hc => rwa [hc] at hpos
    | @took _ g' f hf₀ htook hframes hc =>
      -- the semaphore that lost a permit had one
      rw [hc, Function.update_apply] at hpos
      split at hpos
      next heq => exact heq ▸ htook
      · exact hpos
    | failed _ _ _ hc => rwa [hc] at hpos
  obtain ⟨timer, hb⟩ := hb
  obtain ⟨l, _ | ⟨g', res⟩⟩ := r
  · exact hturn hb hpos
  · obtain ⟨hrun, _⟩ := turn_running hi ht hinv
    obtain ⟨hframes, hcounters⟩ := hrun.lock_round
    rw [settle_eq hi ht hinv] at hb hpos
    simp only [wait_ended] at hb hpos
    rw [hframes] at hb
    rw [hcounters] at hpos
    exact hturn hb hpos

theorem settle_steady (hs : Steady s) {thrown : Option (Gid × Exc)}
    {r : Locks.St × Option (Gid × Outcome)} (ht : Turn s.locks thrown r) (hinv : Locks.Inv r.1)
    (hsh : Shrinks s.locks r.1) (hthrown : Throws s.locks thrown) :
    Steady (settle s r) ∧ Shrinks s.locks (settle s r).locks ∧ (settle s r).flag = s.flag ∧
      Turned s (settle s r) := by
  have hi : Inv (settle s r) := settle_inv hs.inv ht hinv
  have hall : Shrinks s.locks (settle s r).locks := settle_shrinks hs.inv ht hinv hsh
  have hsteady : (settle s r).flag = s.flag → Steady (settle s r) := by
    intro hflag
    refine ⟨hi, hall.deadlines hs.deadlines, hs.stamped.shrinks hs.deadlines hall, ?_⟩
    intro waiter g hb hpos
    obtain ⟨hb', hpos'⟩ := settle_permits hs.inv ht hinv hb hpos
    rw [hflag]
    exact hs.noticed waiter g hb' hpos'
  obtain ⟨l, _ | ⟨g, res⟩⟩ := r
  · -- Case: no wait ended
    exact ⟨hsteady rfl, hall, rfl, .quiet rfl rfl⟩
  · -- Case: the wait of `g` ended
    obtain ⟨_, waiter, hpc⟩ := turn_running hs.inv ht hinv
    have heq := settle_eq hs.inv ht hinv
    have hflag : (settle s (l, some (g, res))).flag = s.flag := by
      rw [heq]
      rfl
    refine ⟨hsteady hflag, hall, hflag, .ended hpc ?_ ?_ (hs.turn_ends ht hthrown)⟩
    · rw [heq]
      rfl
    · rw [heq]
      rfl

/-- What is no call of the event ends at most one wait. -/
theorem passive_steady (hs : Steady s) {a : Act} (ha : a.passive = true)
    (h : step s a = some s') :
    Steady s' ∧ Shrinks s.locks s'.locks ∧ s'.flag = s.flag ∧ Turned s s' := by
  have hloop : ∀ {loop : LoopObject Callback}, Plain s.locks.loop loop →
      s.locks.loop.Grows loop → Steady { s with locks := { s.locks with loop := loop } } ∧
        Shrinks s.locks { s.locks with loop := loop } := by
    intro loop hp hgrows
    have hsh : Shrinks s.locks { s.locks with loop := loop } := shrinks_of_plain hp rfl
    refine ⟨⟨hs.inv.with_loop hgrows, hsh.deadlines hs.deadlines,
      hs.stamped.shrinks hs.deadlines hsh, ?_⟩, hsh⟩
    exact hs.noticed.congr rfl rfl rfl
  cases a with
  | set g => cases ha
  | clear g => cases ha
  | wait g seconds => cases ha
  | fire waiter =>
    obtain ⟨r, hfire, rfl⟩ := Option.map_eq_some_iff.1 h
    refine settle_steady hs (turn_fire hfire) (fire_inv hs.inv.locks hfire)
      (shrinks_fire hs.deadlines hfire) ?_
    intro g e f hthrown hf
    exact Or.inl (hs.stamped.expired hs.deadlines hthrown hf)
  | due timer =>
    obtain ⟨loop, hdue, rfl⟩ := Option.map_eq_some_iff.1 h
    obtain ⟨hs', hsh⟩ := hloop (fire_timers_next_plain hdue)
      (LoopObject.grows_fire_timers_next hdue)
    exact ⟨hs', hsh, rfl, .quiet rfl rfl⟩
  | throw g e =>
    cases h
    cases e with
    | TimeoutException timer => cases ha
    | AttributeError | SystemError | no_class => cases ha
    | other n =>
      refine settle_steady hs (turn_throw s.locks g _) (resume_inv hs.inv.locks g _)
        (shrinks_resume hs.deadlines g _) ?_
      rintro g' e' f hthrown _
      cases hthrown
      exact Or.inr ⟨n, rfl⟩
  | switch g =>
    cases h
    refine settle_steady hs (turn_value s.locks g _ none) (resume_inv hs.inv.locks g _)
      (shrinks_resume hs.deadlines g _) ?_
    intro g' e' f hthrown
    cases hthrown
  | call_soon n =>
    cases h
    obtain ⟨hs', hsh⟩ := hloop (loop_schedule_call_plain s.locks.loop 0 (some (.other n)) none
      (fun _ _ => by simp)) (LoopObject.grows_loop_schedule_call _ _ _ _)
    exact ⟨hs', hsh, rfl, .quiet rfl rfl⟩

theorem init_steady : Steady init where
  inv := init_inv
  deadlines := init_deadlines _
  stamped := fun _ _ _ hcallback _ => absurd hcallback (by simp [init, Locks.init, LoopObject.init])
  noticed := fun _ _ hb _ => absurd hb (by simp [Blocked, init, Locks.init])

end Calls

end Jega.Event
