import Jega.Locks.Semaphore

/-!
# Jega.Locks.Condition — `ConditionObject` over any lock

The condition half of `locks.c` as a system of any number of conditions and
greenlets. The lock is any object: what its `_is_owned`, `_release_save` and
`_acquire_restore` answer is part of the action. The semaphores of the system
are the private ones of the waits, allocated in order.

`wait` is cut at its two suspension points: on the private semaphore
(`waiting`), and inside the `_acquire_restore` of the lock (`restoring`).

The field `begun` is history and no function reads it.
-/

namespace Jega.Locks.Condition

/-- A condition, by address. -/
abbrev Cid := Nat

/-- Where a greenlet is suspended in `ConditionObject_wait`, if it is. -/
inductive Pc where
  | free
  | waiting (self : Cid) (waiter : Sid)
  | restoring (self : Cid) (res : Outcome)
deriving DecidableEq, Repr

structure St where
  locks : Locks.St
  /-- The next semaphore to be allocated. -/
  next : Sid
  waiters : Cid → List Sid
  pc : Gid → Pc
  /-- The waits that blocked on each condition, in order. -/
  begun : Cid → List (Gid × Sid)

/-- Conditions nobody waits on. -/
def init : St where
  locks := Locks.init fun _ => 0
  next := 0
  waiters := fun _ => []
  pc := fun _ => .free
  begun := fun _ => []

/-! ## The operations -/

/-- `SemaphoreObjectType()` with its default of one permit, which the caller
takes at once. -/
def new_waiter (locks : Locks.St) (waiter : Sid) (current : Gid) : Locks.St :=
  (semaphore_acquire
    { locks with sems := Function.update locks.sems waiter (SemaphoreObject.init 1) }
    waiter current true 0).1

/-- `ConditionObject_wait` up to its suspension on the private semaphore.
`owned` and `released` are what `_is_owned` and `_release_save` answer, `none`
and `false` when they raise. -/
def ConditionObject_wait (s : St) (self : Cid) (current : Gid) (seconds : Nat)
    (owned : Option Bool) (released : Bool) : St :=
  match owned with
  | none => s
  | some false => s -- "cannot release un-acquired lock"
  | some true =>
    let waiter := s.next
    let s :=
      { s with
        next := s.next + 1
        locks := new_waiter s.locks waiter current
        waiters := Function.update s.waiters self (s.waiters self ++ [waiter]) }
    if released then
      { s with
        locks := (semaphore_acquire s.locks waiter current true seconds).1
        pc := Function.update s.pc current (.waiting self waiter)
        begun := Function.update s.begun self (s.begun self ++ [(current, waiter)]) }
    else s

/-- The loop of `condition_notify` over the slice. -/
def notify_items (current : Gid) : Locks.St → List Sid → List Sid → Locks.St × List Sid
  | locks, waiters, [] => (locks, waiters)
  | locks, waiters, item :: items =>
    -- `remove_from_list` deletes the first place that holds the item
    notify_items current (semaphore_release locks item current) (waiters.erase item) items

/-- `condition_notify`; a slice up to a negative index is empty. -/
def condition_notify (s : St) (self : Cid) (current : Gid) (num : Int) (owned : Option Bool) : St :=
  match owned with
  | none => s
  | some false => s -- "cannot release un-acquired lock"
  | some true =>
    let r := notify_items current s.locks (s.waiters self) ((s.waiters self).take num.toNat)
    { s with locks := r.1, waiters := Function.update s.waiters self r.2 }

/-- `ConditionObject_notify_all`. -/
def ConditionObject_notify_all (s : St) (self : Cid) (current : Gid) (owned : Option Bool) : St :=
  condition_notify s self current (s.waiters self).length owned

/-- `ConditionObject_wait` after its private semaphore: `_acquire_restore` is
called whatever the result. -/
def finished (s : St) : Option (Gid × Outcome) → St
  | none => s
  | some (current, res) =>
    match s.pc current with
    | .waiting self _ => { s with pc := Function.update s.pc current (.restoring self res) }
    | _ => s

/-! ## The system -/

inductive Act where
  | wait (g : Gid) (c : Cid) (seconds : Nat) (owned : Option Bool) (released : Bool)
  | notify (g : Gid) (c : Cid) (n : Int) (owned : Option Bool)
  | notify_all (g : Gid) (c : Cid) (owned : Option Bool)
  /-- `_acquire_restore` of the lock returns or raises, and `wait` ends. -/
  | restored (g : Gid)
  /-- The loop fires the head of its queue. -/
  | fire (waiter : Gid)
  /-- A timer of the heap is due. -/
  | due (timer : Hid)
  /-- An exception is thrown into a greenlet. -/
  | throw (g : Gid) (e : Exc)
  /-- Some other code switches into a greenlet. -/
  | switch (g : Gid)
  /-- Some other code schedules a call. -/
  | call_soon (n : Nat)
deriving DecidableEq, Repr

/-- The semaphores have moved to `locks`, and one call may have ended. -/
def settle (s : St) (r : Locks.St × Option (Gid × Outcome)) : St := finished { s with locks := r.1 } r.2

def step (s : St) : Act → Option St
  | .wait g c seconds owned released =>
    if s.pc g = .free then some (ConditionObject_wait s c g seconds owned released) else none
  | .notify g c n owned =>
    if s.pc g = .free then some (condition_notify s c g n owned) else none
  | .notify_all g c owned =>
    if s.pc g = .free then some (ConditionObject_notify_all s c g owned) else none
  | .restored g =>
    match s.pc g with
    | .restoring _ _ => some { s with pc := Function.update s.pc g .free }
    | _ => none
  | .fire waiter => (fire s.locks waiter).map (settle s)
  | .due timer =>
    (s.locks.loop.fire_timers_next timer).map fun loop =>
      { s with locks := { s.locks with loop := loop } }
  | .throw g e =>
    let r := resume s.locks g (.throw e)
    some (settle s (r.1, r.2.map (Prod.mk g)))
  | .switch g =>
    let r := resume s.locks g (.value .loop_switch_value)
    some (settle s (r.1, r.2.map (Prod.mk g)))
  | .call_soon n =>
    let loop := (s.locks.loop.loop_schedule_call 0 (some (.other n)) none).1
    some { s with locks := { s.locks with loop := loop } }

/-! ## What a step does -/

/-- A call that raises because the lock is not owned, or cannot tell. -/
def Refused : Act → Prop
  | .wait _ _ _ owned _ => owned ≠ some true
  | .notify _ _ _ owned => owned ≠ some true
  | .notify_all _ _ owned => owned ≠ some true
  | _ => False

/-- One case for each thing that can happen. -/
inductive Step (s : St) : Act → St → Prop where
  | refused {a} (ha : Refused a) : Step s a s
  | wait {g c seconds released} (hpc : s.pc g = .free) :
    Step s (.wait g c seconds (some true) released)
      (ConditionObject_wait s c g seconds (some true) released)
  | notify {g c n} (hpc : s.pc g = .free) :
    Step s (.notify g c n (some true)) (condition_notify s c g n (some true))
  | notify_all {g c} (hpc : s.pc g = .free) :
    Step s (.notify_all g c (some true)) (condition_notify s c g (s.waiters c).length (some true))
  | restored {g c res} (hpc : s.pc g = .restoring c res) :
    Step s (.restored g) { s with pc := Function.update s.pc g .free }
  | fire {waiter r} (hfire : fire s.locks waiter = some r) : Step s (.fire waiter) (settle s r)
  | due {timer loop} (hloop : s.locks.loop.fire_timers_next timer = some loop) :
    Step s (.due timer) { s with locks := { s.locks with loop := loop } }
  | throw {g e} :
    Step s (.throw g e)
      (settle s ((resume s.locks g (.throw e)).1, (resume s.locks g (.throw e)).2.map (Prod.mk g)))
  | switch {g} :
    Step s (.switch g)
      (settle s ((resume s.locks g (.value .loop_switch_value)).1,
        (resume s.locks g (.value .loop_switch_value)).2.map (Prod.mk g)))
  | call_soon {n} :
    Step s (.call_soon n)
      { s with locks :=
        { s.locks with loop := (s.locks.loop.loop_schedule_call 0 (some (.other n)) none).1 } }

theorem step_cases {s s' : St} {a : Act} (h : step s a = some s') : Step s a s' := by
  cases a with
  | wait g c seconds owned released =>
    rcases Option.ite_none_right_eq_some.1 h with ⟨hpc, heq⟩
    cases heq
    match owned with
    | none => exact .refused (by simp [Refused])
    | some false => exact .refused (by simp [Refused])
    | some true => exact .wait hpc
  | notify g c n owned =>
    rcases Option.ite_none_right_eq_some.1 h with ⟨hpc, heq⟩
    cases heq
    match owned with
    | none => exact .refused (by simp [Refused])
    | some false => exact .refused (by simp [Refused])
    | some true => exact .notify hpc
  | notify_all g c owned =>
    rcases Option.ite_none_right_eq_some.1 h with ⟨hpc, heq⟩
    cases heq
    match owned with
    | none => exact .refused (by simp [Refused])
    | some false => exact .refused (by simp [Refused])
    | some true => exact .notify_all hpc
  | restored g =>
    simp only [step] at h
    split at h
    next c res hpc =>
      cases h
      exact .restored hpc
    · cases h
  | fire waiter =>
    rcases Option.map_eq_some_iff.1 h with ⟨r, hr, rfl⟩
    exact .fire hr
  | due timer =>
    rcases Option.map_eq_some_iff.1 h with ⟨loop, hloop, rfl⟩
    exact .due hloop
  | throw g e =>
    cases h
    exact .throw
  | switch g =>
    cases h
    exact .switch
  | call_soon n =>
    cases h
    exact .call_soon

end Jega.Locks.Condition
