import Jega.Locks.Condition

/-!
# Jega.Event.Model — `EventObject`

`event.c` over the condition of `locks.c`, whose lock is a plain `LockObject`:
semaphore 0. The other semaphores are the private ones of the waits. A plain
lock has none of the three methods a condition looks for, so `_is_owned`,
`_release_save` and `_acquire_restore` are those of `ConditionObject`.

Each `acquire` of the lock may suspend its caller, in `event_set` (`setting`),
`EventObject_clear` (`clearing`), `event_wait` (`entering`) and
`_acquire_restore` (`restoring`); a wait is suspended on its private semaphore
too (`waiting`).

The field `ended` is history and no function reads it.
-/

namespace Jega.Event

open Locks

/-- What `event_wait` returns: `Py_None` if the flag was set. -/
inductive Result where
  | Py_None
  | outcome (res : Outcome)
deriving DecidableEq, Repr

/-- Where a greenlet is suspended in the event, if it is. -/
inductive Pc where
  | free
  | setting
  | clearing
  | entering (seconds : Nat)
  | waiting (waiter : Sid)
  | restoring (res : Outcome)
deriving DecidableEq, Repr

structure St where
  locks : Locks.St
  /-- The next semaphore to be allocated. -/
  next : Sid
  flag : Bool
  /-- The `waiters` of the condition. -/
  waiters : List Sid
  pc : Gid → Pc
  /-- The finished waits. -/
  ended : List (Gid × Result)

/-- The lock of the condition. -/
def lock : Sid := 0

/-- `EventObject_init`; `LockObject_init` gives the lock one permit. -/
def init : St where
  locks := Locks.init fun _ => 1
  next := 1
  flag := false
  waiters := []
  pc := fun _ => .free
  ended := []

/-- The `RuntimeError` of a condition that is not owned. -/
def RuntimeError : Exc := .other 0

/-! ## The condition over a plain lock -/

/-- `ConditionObject_is_owned`: a lock that can be acquired is not owned. -/
def ConditionObject_is_owned (locks : Locks.St) (current : Gid) : Locks.St × Bool :=
  let r := semaphore_acquire locks lock current false 0
  match r.2 with
  | some .Py_True => (semaphore_release r.1 lock current, false)
  | _ => (r.1, true)

/-- `ConditionObject_notify_all`. -/
def ConditionObject_notify_all (s : St) (current : Gid) : St :=
  let owned := ConditionObject_is_owned s.locks current
  if !owned.2 then { s with locks := owned.1 } -- "cannot release un-acquired lock"
  else
    let r := Condition.notify_items current owned.1 s.waiters (s.waiters.take s.waiters.length)
    { s with locks := r.1, waiters := r.2 }

/-- `event_wait` after the wait of its condition: the lock is released whatever
the result. -/
def wait_ended (s : St) (current : Gid) (res : Result) : St :=
  { s with
    locks := semaphore_release s.locks lock current
    pc := Function.update s.pc current .free
    ended := s.ended ++ [(current, res)] }

/-- `ConditionObject_wait` after its `_acquire_restore`. -/
def restored (s : St) (current : Gid) (res : Outcome) : Outcome → St
  | .NULL e => wait_ended s current (.outcome (.NULL e))
  | _ => wait_ended s current (.outcome res)

/-- `ConditionObject_acquire_restore`, whatever the result of the wait. -/
def ConditionObject_acquire_restore (s : St) (current : Gid) (res : Outcome) : St :=
  let r := semaphore_acquire s.locks lock current true 0
  let s := { s with locks := r.1 }
  match r.2 with
  | none => { s with pc := Function.update s.pc current (.restoring res) }
  | some acquired => restored s current res acquired

/-- `ConditionObject_wait`. -/
def ConditionObject_wait (s : St) (current : Gid) (seconds : Nat) : St :=
  let owned := ConditionObject_is_owned s.locks current
  if !owned.2 then
    wait_ended { s with locks := owned.1 } current (.outcome (.NULL (some RuntimeError)))
  else
    let waiter := s.next
    let locks := semaphore_release (Condition.new_waiter owned.1 waiter current) lock current
    let r := semaphore_acquire locks waiter current true seconds
    let s := { s with locks := r.1, next := s.next + 1, waiters := s.waiters ++ [waiter] }
    match r.2 with
    | none => { s with pc := Function.update s.pc current (.waiting waiter) }
    | some res => ConditionObject_acquire_restore s current res

/-! ## The event -/

/-- `event_set` after its `acquire`; what it returns is left out. -/
def set_entered (s : St) (current : Gid) : Outcome → St
  | .NULL _ => s
  | _ =>
    let s := ConditionObject_notify_all { s with flag := true } current
    { s with locks := semaphore_release s.locks lock current }

/-- `event_set`. -/
def event_set (s : St) (current : Gid) : St :=
  let r := semaphore_acquire s.locks lock current true 0
  let s := { s with locks := r.1 }
  match r.2 with
  | none => { s with pc := Function.update s.pc current .setting }
  | some acquired => set_entered s current acquired

/-- `EventObject_clear` after its `acquire`. -/
def clear_entered (s : St) (current : Gid) : Outcome → St
  | .NULL _ => s
  | _ => { s with flag := false, locks := semaphore_release s.locks lock current }

/-- `EventObject_clear`. -/
def EventObject_clear (s : St) (current : Gid) : St :=
  let r := semaphore_acquire s.locks lock current true 0
  let s := { s with locks := r.1 }
  match r.2 with
  | none => { s with pc := Function.update s.pc current .clearing }
  | some acquired => clear_entered s current acquired

/-- `event_wait` after its `acquire`. -/
def wait_entered (s : St) (current : Gid) (seconds : Nat) : Outcome → St
  | .NULL e => { s with ended := s.ended ++ [(current, .outcome (.NULL e))] }
  | _ =>
    if !s.flag then ConditionObject_wait s current seconds
    else wait_ended s current .Py_None

/-- `event_wait`. -/
def event_wait (s : St) (current : Gid) (seconds : Nat) : St :=
  let r := semaphore_acquire s.locks lock current true 0
  let s := { s with locks := r.1 }
  match r.2 with
  | none => { s with pc := Function.update s.pc current (.entering seconds) }
  | some acquired => wait_entered s current seconds acquired

/-- A greenlet whose `semaphore_acquire` ended goes on in its caller. -/
def finished (s : St) : Option (Gid × Outcome) → St
  | none => s
  | some (current, res) =>
    let resumed := { s with pc := Function.update s.pc current .free }
    match s.pc current with
    | .free => s
    | .setting => set_entered resumed current res
    | .clearing => clear_entered resumed current res
    | .entering seconds => wait_entered resumed current seconds res
    | .waiting _ => ConditionObject_acquire_restore s current res
    | .restoring res' => restored s current res' res

/-! ## The system -/

inductive Act where
  | set (g : Gid)
  | clear (g : Gid)
  | wait (g : Gid) (seconds : Nat)
  /-- The loop fires the head of its queue. -/
  | fire (waiter : Gid)
  /-- A timer of the heap is due. -/
  | due (timer : Hid)
  /-- An exception is thrown into a greenlet. -/
  | throw (g : Gid) (e : Exc)
  /-- Some other code switches into a greenlet. -/
  | switch (g : Gid)
  /-- Some other code schedules a call. -/
  | call_soon (n : Nat)
deriving DecidableEq, Repr

/-- The semaphores have moved to `locks`, and one call may have ended. -/
def settle (s : St) (r : Locks.St × Option (Gid × Outcome)) : St :=
  finished { s with locks := r.1 } r.2

def step (s : St) : Act → Option St
  | .set g => if s.pc g = .free then some (event_set s g) else none
  | .clear g => if s.pc g = .free then some (EventObject_clear s g) else none
  | .wait g seconds => if s.pc g = .free then some (event_wait s g seconds) else none
  | .fire waiter => (fire s.locks waiter).map (settle s)
  | .due timer =>
    (s.locks.loop.fire_timers_next timer).map fun loop =>
      { s with locks := { s.locks with loop := loop } }
  | .throw g e =>
    let r := resume s.locks g (.throw e)
    some (settle s (r.1, r.2.map (Prod.mk g)))
  | .switch g =>
    let r := resume s.locks g (.value .loop_switch_value)
    some (settle s (r.1, r.2.map (Prod.mk g)))
  | .call_soon n =>
    let loop := (s.locks.loop.loop_schedule_call 0 (some (.other n)) none).1
    some { s with locks := { s.locks with loop := loop } }

end Jega.Event
