import Jega.Loop.Model
import Jega.Trace.Rules
import Mathlib.Data.Finset.Card
import Mathlib.Algebra.Group.Int.Defs
import Mathlib.Algebra.Group.Nat.Defs

/-!
# Jega.Locks.Semaphore — `SemaphoreObject`

The semaphore half of `locks.c` as a system of any number of semaphores and
greenlets on one loop. A greenlet blocked in `semaphore_acquire` is suspended in
its `loop_switch`; whatever resumes it, the function goes on in
`acquire_resumed`, either back into the wait or through the label `fin`.

Which greenlet is the loop's own makes no difference here. The field `log` is
history and no function reads it.
-/

namespace Jega.Locks

/-- A semaphore, by address. -/
abbrev Sid := Nat

/-- `counter` is a `uint32_t`. -/
structure SemaphoreObject where
  counter : UInt32
  waiters : Finset Gid

/-- What the loop calls: `_notify_waiter` of a semaphore, `throw` of a greenlet
with a `TimeoutException`, or anything else. -/
inductive Callback where
  | notify_waiter (sem : Sid)
  | throw (g : Gid) (timer : Option Tid)
  | other (n : Nat)
deriving DecidableEq, Repr

/-- How `semaphore_acquire` ends. `NULL` may come without an exception set. -/
inductive Outcome where
  | Py_True
  | Py_False
  | NULL (e : Option Exc)
deriving DecidableEq, Repr

/-- A greenlet suspended in `semaphore_acquire`, and its timer. -/
structure Frame where
  self : Sid
  timer : Hid
deriving DecidableEq, Repr

/-- One finished call. -/
inductive Entry where
  | acquire (g : Gid) (res : Outcome)
  | release (g : Gid)
deriving DecidableEq, Repr

structure St where
  sems : Sid → SemaphoreObject
  loop : LoopObject Callback
  frames : Gid → Option Frame
  /-- The finished calls on each semaphore. -/
  log : Sid → List Entry

/-- `SemaphoreObject_init` stores the `int` it is given. -/
def SemaphoreObject.init (value : Int) : SemaphoreObject := ⟨UInt32.ofInt value, ∅⟩

/-- Fresh semaphores on an idle loop. -/
def init (value : Sid → Int) : St where
  sems := fun sem => SemaphoreObject.init (value sem)
  loop := LoopObject.init Callback
  frames := fun _ => none
  log := fun _ => []

/-! ## The operations -/

/-- `counter--` on the way to `Py_RETURN_TRUE` or `fin`. -/
def take (s : St) (self : Sid) : St :=
  { s with
    sems := Function.update s.sems self
      { s.sems self with counter := (s.sems self).counter - 1 } }

def note (s : St) (self : Sid) (e : Entry) : St :=
  { s with log := Function.update s.log self (s.log self ++ [e]) }

/-- The label `fin`. -/
def fin (s : St) (current : Gid) (f : Frame) (res : Outcome) : St :=
  note
    { s with
      loop := s.loop.cancel f.timer
      sems := Function.update s.sems f.self
        { s.sems f.self with waiters := (s.sems f.self).waiters.erase current }
      frames := Function.update s.frames current none }
    f.self (.acquire current res)

/-- The result of an exception: only the timer of this call makes it `Py_False`.
`fetch_timer` takes a foreign `TimeoutException` away, and one without the
attribute becomes an `AttributeError`. -/
def acquire_raised (timer : Hid) : Exc → Outcome
  | .TimeoutException (some t) => if t = timer then .Py_False else .NULL none
  | .TimeoutException none => .NULL (some .AttributeError)
  | e => .NULL (some e)

/-- `semaphore_acquire` up to its `loop_switch`. -/
def semaphore_acquire (s : St) (self : Sid) (current : Gid) (blocking : Bool) (timeout : Nat) :
    St × Option Outcome :=
  if (s.sems self).counter > 0 then
    (note (take s self) self (.acquire current .Py_True), some .Py_True)
  else if !blocking then (note s self (.acquire current .Py_False), some .Py_False)
  else
    let timer := s.loop.loop_set_timeout timeout (.throw current)
    ({ s with
        loop := timer.1
        sems := Function.update s.sems self
          { s.sems self with waiters := insert current (s.sems self).waiters }
        frames := Function.update s.frames current (some ⟨self, timer.2⟩) },
      none)

/-- `semaphore_acquire` after its `loop_switch`. -/
def acquire_resumed (s : St) (current : Gid) (f : Frame) : Resumption → St × Option Outcome
  | .value _ =>
    -- `while (self->counter <= 0)`
    if (s.sems f.self).counter > 0 then (fin (take s f.self) current f .Py_True, some .Py_True)
    else (s, none)
  | .throw e => (fin s current f (acquire_raised f.timer e), some (acquire_raised f.timer e))

/-- Any switch or throw into a greenlet. -/
def resume (s : St) (g : Gid) (r : Resumption) : St × Option Outcome :=
  match s.frames g with
  | none => (s, none)
  | some f => acquire_resumed s g f r

/-- `semaphore_release`. -/
def semaphore_release (s : St) (self : Sid) (current : Gid) : St :=
  let s :=
    { s with
      sems := Function.update s.sems self
        { s.sems self with counter := (s.sems self).counter + 1 } }
  let s :=
    if (s.sems self).waiters.card > 0 then
      { s with loop := (s.loop.loop_schedule_call 0 (some (.notify_waiter self)) none).1 }
    else s
  note s self (.release current)

/-- `PySet_Pop` of `waiter`. -/
def pop (s : St) (self : Sid) (waiter : Gid) : St :=
  { s with
    sems := Function.update s.sems self
      { s.sems self with waiters := (s.sems self).waiters.erase waiter } }

/-- `SemaphoreObject_notify_waiter`; `waiter` is the one `PySet_Pop` takes. -/
def SemaphoreObject_notify_waiter (s : St) (self : Sid) (waiter : Gid) :
    Option (St × Option Outcome) :=
  if (s.sems self).waiters.card > 0 ∧ (s.sems self).counter > 0 then
    -- `PySet_Pop` may take any member
    if waiter ∈ (s.sems self).waiters then
      some (resume (pop s self waiter) waiter (.value .empty_tuple))
    else none
  else some (s, none)

/-! ## The system -/

inductive Act where
  | acquire (g : Gid) (sem : Sid) (blocking : Bool) (timeout : Nat)
  | release (g : Gid) (sem : Sid)
  /-- The loop fires the head of its queue. -/
  | fire (waiter : Gid)
  /-- A timer of the heap is due. -/
  | due (timer : Hid)
  /-- An exception is thrown into a greenlet. -/
  | throw (g : Gid) (e : Exc)
  /-- Some other code switches into a greenlet. -/
  | switch (g : Gid)
  /-- Some other code schedules a call. -/
  | call_soon (n : Nat)
deriving DecidableEq, Repr

/-- The loop fires the head of its queue; the call of `semaphore_acquire` that
ends by it is given with its caller. -/
def fire (s : St) (waiter : Gid) : Option (St × Option (Gid × Outcome)) :=
  match s.loop.fire_pendings_next (fun _ => false) with
  | none => none
  | some (loop, .call (.notify_waiter sem)) =>
    (SemaphoreObject_notify_waiter { s with loop := loop } sem waiter).map fun r =>
      (r.1, r.2.map (Prod.mk waiter))
  | some (loop, .call (.throw g timer)) =>
    let r := resume { s with loop := loop } g (.throw (.TimeoutException timer))
    some (r.1, r.2.map (Prod.mk g))
  | some (loop, _) => some ({ s with loop := loop }, none)

def step (s : St) : Act → Option St
  | .acquire g sem blocking timeout =>
    if s.frames g = none then some (semaphore_acquire s sem g blocking timeout).1 else none
  | .release g sem => if s.frames g = none then some (semaphore_release s sem g) else none
  | .fire waiter => (fire s waiter).map Prod.fst
  | .due timer => (s.loop.fire_timers_next timer).map fun loop => { s with loop := loop }
  | .throw g e => some (resume s g (.throw e)).1
  | .switch g => some (resume s g (.value .loop_switch_value)).1
  | .call_soon n =>
    some { s with loop := (s.loop.loop_schedule_call 0 (some (.other n)) none).1 }

/-- The deadline at the head of the loop's queue: whom it throws into, and the
timer its exception carries. -/
def deadline (s : St) : Option (Gid × Option Tid) :=
  match s.loop.fire_pendings_next fun _ => false with
  | some (_, .call (.throw g timer)) => some (g, timer)
  | _ => none

/-! ## What the operations do -/

/-- Without a permit, a blocking acquire suspends its caller. -/
theorem semaphore_acquire_block {s : St} {self : Sid} (hc : ¬ (s.sems self).counter > 0)
    (current : Gid) (timeout : Nat) :
    (semaphore_acquire s self current true timeout).1 =
      { s with
        loop := (s.loop.loop_set_timeout timeout (.throw current)).1
        sems := Function.update s.sems self
          { s.sems self with waiters := insert current (s.sems self).waiters }
        frames := Function.update s.frames current (some ⟨self, s.loop.next⟩) } := by
  unfold semaphore_acquire
  rw [if_neg hc]
  rfl

/-- A release adds a permit, and a call when somebody waits. -/
theorem semaphore_release_eq (s : St) (self : Sid) (current : Gid) :
    semaphore_release s self current =
      note
        { s with
          sems := Function.update s.sems self
            { s.sems self with counter := (s.sems self).counter + 1 }
          loop :=
            if (s.sems self).waiters.card > 0 then
              (s.loop.loop_schedule_call 0 (some (.notify_waiter self)) none).1
            else s.loop }
        self (.release current) := by
  by_cases h : (s.sems self).waiters.card > 0
  · simp [semaphore_release, h]
  · simp [semaphore_release, h]

/-- A waiter resumed by a switch while there is a permit takes it. -/
theorem resume_take {s : St} {g : Gid} {f : Frame} {v : PyObj} (hf : s.frames g = some f)
    (hc : (s.sems f.self).counter > 0) :
    resume s g (.value v) = (fin (take s f.self) g f .Py_True, some .Py_True) := by
  simp only [resume, hf, acquire_resumed]
  rw [if_pos hc]

/-- `_notify_waiter` does nothing without waiters or permits, and otherwise
switches into the waiter it popped. -/
theorem notify_waiter_cases {s : St} {self : Sid} {waiter : Gid} {r : St × Option Outcome}
    (h : SemaphoreObject_notify_waiter s self waiter = some r) :
    (min (s.sems self).counter.toNat (s.sems self).waiters.card = 0 ∧ r = (s, none)) ∨
      ((s.sems self).counter > 0 ∧ waiter ∈ (s.sems self).waiters ∧
        r = resume (pop s self waiter) waiter (.value .empty_tuple)) := by
  unfold SemaphoreObject_notify_waiter at h
  split at h
  next hpos =>
    split at h
    next hmem =>
      rw [Option.some.injEq] at h
      exact Or.inr ⟨hpos.2, hmem, h.symm⟩
    · cases h
  next hzero =>
    rw [Option.some.injEq] at h
    refine Or.inl ⟨?_, h.symm⟩
    simp only [gt_iff_lt, UInt32.lt_iff_toNat_lt] at hzero
    have hz : (0 : UInt32).toNat = 0 := rfl
    omega

/-- The loop runs a `_notify_waiter`, throws a deadline, or leaves the
semaphores alone. -/
theorem fire_cases {s : St} {waiter : Gid} {r : St × Option (Gid × Outcome)}
    (h : fire s waiter = some r) :
    ∃ loop eff, s.loop.fire_pendings_next (fun _ => false) = some (loop, eff) ∧
      ((∃ sem r', eff = .call (.notify_waiter sem) ∧ deadline s = none ∧
          SemaphoreObject_notify_waiter { s with loop := loop } sem waiter = some r' ∧
          r = (r'.1, r'.2.map (Prod.mk waiter))) ∨
        (∃ g timer, eff = .call (.throw g timer) ∧ deadline s = some (g, timer) ∧
          r.1 = (resume { s with loop := loop } g (.throw (.TimeoutException timer))).1 ∧
          r.2 = (resume { s with loop := loop } g (.throw (.TimeoutException timer))).2.map
            (Prod.mk g)) ∨
        ((∀ sem, eff ≠ .call (.notify_waiter sem)) ∧ deadline s = none ∧
          r = ({ s with loop := loop }, none))) := by
  unfold fire at h
  split at h
  · cases h
  next loop sem hf =>
    rcases Option.map_eq_some_iff.1 h with ⟨r', hr', hr⟩
    exact ⟨loop, _, hf, Or.inl ⟨sem, r', rfl, by simp [deadline, hf], hr', hr.symm⟩⟩
  next loop g timer hf =>
    rw [Option.some.injEq] at h
    subst h
    exact ⟨loop, _, hf, Or.inr (Or.inl ⟨g, timer, rfl, by simp [deadline, hf], rfl, rfl⟩)⟩
  next loop eff hnotify hthrow hf =>
    rw [Option.some.injEq] at h
    refine ⟨loop, eff, hf, Or.inr (Or.inr ⟨hnotify, ?_, h.symm⟩)⟩
    unfold deadline
    rw [hf]
    split
    next loop' g timer heq =>
      cases heq
      exact absurd rfl (hthrow g timer)
    · rfl

/-- No exception turns into `True`. -/
theorem acquire_raised_ne_true (timer : Hid) (e : Exc) : acquire_raised timer e ≠ .Py_True := by
  unfold acquire_raised
  split
  · split <;> simp
  · simp
  · simp

/-- A resumption by a switch ends the call only with `True`. -/
theorem resume_value_outcome (s : St) (g : Gid) (v : PyObj) :
    (resume s g (.value v)).2 = none ∨ (resume s g (.value v)).2 = some .Py_True := by
  unfold resume
  cases hf : s.frames g with
  | none => exact Or.inl rfl
  | some f =>
    simp only [acquire_resumed]
    split
    · exact Or.inr rfl
    · exact Or.inl rfl

/-- An exception ends the call it reaches. -/
theorem resume_throw_outcome {s : St} {g : Gid} {e : Exc} {res : Outcome} :
    (resume s g (.throw e)).2 = some res ↔
      ∃ f, s.frames g = some f ∧ acquire_raised f.timer e = res := by
  unfold resume
  cases hf : s.frames g with
  | none => simp
  | some f => simp [acquire_resumed]

/-- A deadline that is fired ends the call it reaches. -/
theorem fire_deadline {s : St} {waiter : Gid} {r : St × Option (Gid × Outcome)}
    (h : fire s waiter = some r) {g : Gid} {timer : Option Tid}
    (hd : deadline s = some (g, timer)) :
    r.2 = (resume s g (.throw (.TimeoutException timer))).2.map (Prod.mk g) := by
  have hres : ∀ loop, (resume { s with loop := loop } g (.throw (.TimeoutException timer))).2 =
      (resume s g (.throw (.TimeoutException timer))).2 := by
    intro loop
    unfold resume
    cases hf : s.frames g with
    | none => rfl
    | some f => rfl
  rcases fire_cases h with
    ⟨loop, eff, _, ⟨_, _, _, hd', _, _⟩ | ⟨g', timer', _, hd', _, hr2⟩ | ⟨_, hd', _⟩⟩
  · rw [hd] at hd'
    cases hd'
  · rw [hd] at hd'
    cases hd'
    rw [hr2, hres]
  · rw [hd] at hd'
    cases hd'

/-- Any other entry that is fired ends a call only with `True`. -/
theorem fire_no_deadline {s : St} {waiter : Gid} {r : St × Option (Gid × Outcome)}
    (h : fire s waiter = some r) (hd : deadline s = none) :
    r.2 = none ∨ r.2 = some (waiter, .Py_True) := by
  rcases fire_cases h with
    ⟨loop, eff, _, ⟨sem, r', _, _, hnotify, rfl⟩ | ⟨g', timer', _, hd', _, _⟩ | ⟨_, _, rfl⟩⟩
  · rcases notify_waiter_cases hnotify with ⟨_, rfl⟩ | ⟨_, _, rfl⟩
    · exact Or.inl rfl
    · rcases resume_value_outcome (pop { s with loop := loop } sem waiter) waiter
        .empty_tuple with ho | ho
      · left
        simp [ho]
      · right
        simp [ho]
  · rw [hd] at hd'
    cases hd'
  · exact Or.inl rfl

/-- What a step does, one case for each thing that can happen. -/
inductive Step (s : St) : Act → St → Prop where
  | acquire {g sem blocking timeout} (hfree : s.frames g = none) :
    Step s (.acquire g sem blocking timeout) (semaphore_acquire s sem g blocking timeout).1
  | release {g sem} (hfree : s.frames g = none) :
    Step s (.release g sem) (semaphore_release s sem g)
  | fire {waiter r} (hfire : fire s waiter = some r) : Step s (.fire waiter) r.1
  | due {timer loop} (hloop : s.loop.fire_timers_next timer = some loop) :
    Step s (.due timer) { s with loop := loop }
  | throw {g e} : Step s (.throw g e) (resume s g (.throw e)).1
  | switch {g} : Step s (.switch g) (resume s g (.value .loop_switch_value)).1
  | call_soon {n} :
    Step s (.call_soon n)
      { s with loop := (s.loop.loop_schedule_call 0 (some (.other n)) none).1 }

theorem step_cases {s s' : St} {a : Act} (h : step s a = some s') : Step s a s' := by
  cases a with
  | acquire g sem blocking timeout =>
    rcases Option.ite_none_right_eq_some.1 h with ⟨hfree, heq⟩
    cases heq
    exact .acquire hfree
  | release g sem =>
    rcases Option.ite_none_right_eq_some.1 h with ⟨hfree, heq⟩
    cases heq
    exact .release hfree
  | fire waiter =>
    rcases Option.map_eq_some_iff.1 h with ⟨r, hr, rfl⟩
    exact .fire hr
  | due timer =>
    rcases Option.map_eq_some_iff.1 h with ⟨loop, hloop, rfl⟩
    exact .due hloop
  | throw g e =>
    cases h
    exact .throw
  | switch g =>
    cases h
    exact .switch
  | call_soon n =>
    cases h
    exact .call_soon

/-- A blocking acquire that returns at once has taken a permit. -/
theorem semaphore_acquire_outcome (s : St) (self : Sid) (current : Gid) (timeout : Nat) :
    (semaphore_acquire s self current true timeout).2 = none ∨
      (semaphore_acquire s self current true timeout).2 = some .Py_True := by
  unfold semaphore_acquire
  split
  · exact Or.inr rfl
  · exact Or.inl rfl

end Jega.Locks
