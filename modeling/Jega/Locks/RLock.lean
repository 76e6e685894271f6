import Jega.Locks.Condition

/-!
# Jega.Locks.RLock — a condition over an `RLockObject`

One `RLock` and its condition, with any number of greenlets that acquire,
release, wait and notify. The semaphore 0 is the lock's `block`; the others are
the private ones of the waits.

A greenlet can be suspended in `rlock_acquire` (`acquiring`), on its private
semaphore (`waiting`), or in `rlock_acquire_restore` (`restoring`); the state
that `rlock_release_save` returned travels with the last two.

The field `ended` is history and no function reads it.
-/

namespace Jega.Locks.RLock

/-- `owner` is `none` for `Py_None`. -/
structure RLockObject where
  block : Sid
  count : UInt32
  owner : Option Gid
deriving DecidableEq, Repr

/-- The tuple of `rlock_release_save`. -/
structure Saved where
  count : UInt32
  owner : Option Gid
deriving DecidableEq, Repr

/-- Where a greenlet is suspended in the lock or its condition. -/
inductive Pc where
  | free
  | acquiring
  | waiting (waiter : Sid) (saved : Saved)
  | restoring (saved : Saved) (res : Outcome)
deriving DecidableEq, Repr

/-- One finished `wait`: its caller, the depth at which it was called, its
result, and the lock as it left it. -/
structure Ended where
  g : Gid
  depth : UInt32
  res : Outcome
  lock : RLockObject
deriving DecidableEq, Repr

structure St where
  locks : Locks.St
  /-- The next semaphore to be allocated. -/
  next : Sid
  lock : RLockObject
  waiters : List Sid
  pc : Gid → Pc
  /-- The finished waits. -/
  ended : List Ended

/-- A free lock; its `block` has the default of one permit. -/
def init : St where
  locks := Locks.init fun _ => 1
  next := 1
  lock := ⟨0, 0, none⟩
  waiters := []
  pc := fun _ => .free
  ended := []

/-! ## The lock -/

/-- `rlock_acquire` after its `semaphore_acquire`. -/
def rlock_acquired (s : St) (current : Gid) : Outcome → St
  | .Py_True => { s with lock := { s.lock with owner := some current, count := 1 } }
  | _ => s

/-- `rlock_acquire`. -/
def rlock_acquire (s : St) (current : Gid) (blocking : Bool) (timeout : Nat) : St :=
  if s.lock.owner = some current then
    -- the owner acquires once more
    { s with lock := { s.lock with count := s.lock.count + 1 } }
  else
    let r := semaphore_acquire s.locks s.lock.block current blocking timeout
    let s := { s with locks := r.1 }
    match r.2 with
    | none => { s with pc := Function.update s.pc current .acquiring }
    | some res => rlock_acquired s current res

/-- `rlock_release`; the count is unsigned. -/
def rlock_release (s : St) (current : Gid) : St :=
  if s.lock.owner ≠ some current then s -- "cannot release un-acquired lock"
  else
    let s := { s with lock := { s.lock with count := s.lock.count - 1 } }
    if s.lock.count = 0 then
      { s with
        lock := { s.lock with owner := none }
        locks := semaphore_release s.locks s.lock.block current }
    else s

/-- `rlock_release_save`. -/
def rlock_release_save (s : St) (current : Gid) : St × Saved :=
  ({ s with
      lock := { s.lock with count := 0, owner := none }
      locks := semaphore_release s.locks s.lock.block current },
    ⟨s.lock.count, s.lock.owner⟩)

/-! ## The condition -/

/-- `ConditionObject_wait` returns. -/
def wait_ended (s : St) (current : Gid) (depth : UInt32) (res : Outcome) : St :=
  { s with
    pc := Function.update s.pc current .free
    ended := s.ended ++ [⟨current, depth, res, s.lock⟩] }

/-- `rlock_acquire_restore` after its `semaphore_acquire`, and the end of the
wait: the lock is restored unless the acquire raised. -/
def restored (s : St) (current : Gid) (saved : Saved) (res : Outcome) : Outcome → St
  | .NULL e => wait_ended s current saved.count (.NULL e)
  | _ =>
    wait_ended { s with lock := { s.lock with count := saved.count, owner := saved.owner } }
      current saved.count res

/-- `rlock_acquire_restore`, whatever the result of the wait. -/
def rlock_acquire_restore (s : St) (current : Gid) (saved : Saved) (res : Outcome) : St :=
  let r := semaphore_acquire s.locks s.lock.block current true 0
  let s := { s with locks := r.1 }
  match r.2 with
  | none => { s with pc := Function.update s.pc current (.restoring saved res) }
  | some acquired => restored s current saved res acquired

/-- `ConditionObject_wait`. -/
def ConditionObject_wait (s : St) (current : Gid) (seconds : Nat) : St :=
  if s.lock.owner ≠ some current then s -- "cannot release un-acquired lock"
  else
    let waiter := s.next
    let s :=
      { s with
        next := s.next + 1
        locks := Condition.new_waiter s.locks waiter current
        waiters := s.waiters ++ [waiter] }
    let (s, saved) := rlock_release_save s current
    let r := semaphore_acquire s.locks waiter current true seconds
    let s := { s with locks := r.1 }
    match r.2 with
    | none => { s with pc := Function.update s.pc current (.waiting waiter saved) }
    | some res => rlock_acquire_restore s current saved res

/-- `condition_notify`. -/
def condition_notify (s : St) (current : Gid) (num : Int) : St :=
  if s.lock.owner ≠ some current then s -- "cannot release un-acquired lock"
  else
    let r := Condition.notify_items current s.locks s.waiters (s.waiters.take num.toNat)
    { s with locks := r.1, waiters := r.2 }

/-- A greenlet whose `semaphore_acquire` ended goes on in its caller. -/
def finished (s : St) : Option (Gid × Outcome) → St
  | none => s
  | some (current, res) =>
    match s.pc current with
    | .free => s
    | .acquiring => rlock_acquired { s with pc := Function.update s.pc current .free } current res
    -- whatever the result, the lock is acquired again
    | .waiting _ saved => rlock_acquire_restore s current saved res
    | .restoring saved res' => restored s current saved res' res

/-! ## The system -/

inductive Act where
  | acquire (g : Gid) (blocking : Bool) (timeout : Nat)
  | release (g : Gid)
  | wait (g : Gid) (seconds : Nat)
  | notify (g : Gid) (n : Int)
  | notify_all (g : Gid)
  /-- The loop fires the head of its queue. -/
  | fire (waiter : Gid)
  /-- A timer of the heap is due. -/
  | due (timer : Hid)
  /-- An exception is thrown into a greenlet. -/
  | throw (g : Gid) (e : Exc)
  /-- Some other code switches into a greenlet. -/
  | switch (g : Gid)
  /-- Some other code schedules a call. -/
  | call_soon (n : Nat)
deriving DecidableEq, Repr

/-- The semaphores have moved to `locks`, and one call may have ended. -/
def settle (s : St) (r : Locks.St × Option (Gid × Outcome)) : St :=
  finished { s with locks := r.1 } r.2

def step (s : St) : Act → Option St
  | .acquire g blocking timeout =>
    if s.pc g = .free then some (rlock_acquire s g blocking timeout) else none
  | .release g => if s.pc g = .free then some (rlock_release s g) else none
  | .wait g seconds => if s.pc g = .free then some (ConditionObject_wait s g seconds) else none
  | .notify g n => if s.pc g = .free then some (condition_notify s g n) else none
  | .notify_all g =>
    if s.pc g = .free then some (condition_notify s g s.waiters.length) else none
  | .fire waiter => (fire s.locks waiter).map (settle s)
  | .due timer =>
    (s.locks.loop.fire_timers_next timer).map fun loop =>
      { s with locks := { s.locks with loop := loop } }
  | .throw g e =>
    let r := resume s.locks g (.throw e)
    some (settle s (r.1, r.2.map (Prod.mk g)))
  | .switch g =>
    let r := resume s.locks g (.value .loop_switch_value)
    some (settle s (r.1, r.2.map (Prod.mk g)))
  | .call_soon n =>
    let loop := (s.locks.loop.loop_schedule_call 0 (some (.other n)) none).1
    some { s with locks := { s.locks with loop := loop } }

/-- What a step does, one case for each thing that can happen. -/
inductive Step (s : St) : Act → St → Prop where
  | acquire {g blocking timeout} (hpc : s.pc g = .free) :
    Step s (.acquire g blocking timeout) (rlock_acquire s g blocking timeout)
  | release {g} (hpc : s.pc g = .free) : Step s (.release g) (rlock_release s g)
  | wait {g seconds} (hpc : s.pc g = .free) :
    Step s (.wait g seconds) (ConditionObject_wait s g seconds)
  | notify {g n} (hpc : s.pc g = .free) : Step s (.notify g n) (condition_notify s g n)
  | notify_all {g} (hpc : s.pc g = .free) :
    Step s (.notify_all g) (condition_notify s g s.waiters.length)
  | fire {waiter r} (hfire : fire s.locks waiter = some r) : Step s (.fire waiter) (settle s r)
  | due {timer loop} (hloop : s.locks.loop.fire_timers_next timer = some loop) :
    Step s (.due timer) { s with locks := { s.locks with loop := loop } }
  | throw {g e} :
    Step s (.throw g e)
      (settle s ((resume s.locks g (.throw e)).1, (resume s.locks g (.throw e)).2.map (Prod.mk g)))
  | switch {g} :
    Step s (.switch g)
      (settle s ((resume s.locks g (.value .loop_switch_value)).1,
        (resume s.locks g (.value .loop_switch_value)).2.map (Prod.mk g)))
  | call_soon {n} :
    Step s (.call_soon n)
      { s with locks :=
        { s.locks with loop := (s.locks.loop.loop_schedule_call 0 (some (.other n)) none).1 } }

theorem step_cases {s s' : St} {a : Act} (h : step s a = some s') : Step s a s' := by
  cases a with
  | acquire g blocking timeout =>
    rcases Option.ite_none_right_eq_some.1 h with ⟨hpc, heq⟩
    cases heq
    exact .acquire hpc
  | release g =>
    rcases Option.ite_none_right_eq_some.1 h with ⟨hpc, heq⟩
    cases heq
    exact .release hpc
  | wait g seconds =>
    rcases Option.ite_none_right_eq_some.1 h with ⟨hpc, heq⟩
    cases heq
    exact .wait hpc
  | notify g n =>
    rcases Option.ite_none_right_eq_some.1 h with ⟨hpc, heq⟩
    cases heq
    exact .notify hpc
  | notify_all g =>
    rcases Option.ite_none_right_eq_some.1 h with ⟨hpc, heq⟩
    cases heq
    exact .notify_all hpc
  | fire waiter =>
    rcases Option.map_eq_some_iff.1 h with ⟨r, hr, rfl⟩
    exact .fire hr
  | due timer =>
    rcases Option.map_eq_some_iff.1 h with ⟨loop, hloop, rfl⟩
    exact .due hloop
  | throw g e =>
    cases h
    exact .throw
  | switch g =>
    cases h
    exact .switch
  | call_soon n =>
    cases h
    exact .call_soon

end Jega.Locks.RLock
