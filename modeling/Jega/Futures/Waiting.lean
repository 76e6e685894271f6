import Jega.Futures.Waiters

/-!
# Jega.Futures.Waiting — `wait`

Any number of greenlets in `wait`, over any futures, while clients cancel these
and their workers complete them. `wait` suspends in one place, the wait of its
event; `waited` is the rest of it.

A worker calls `set_running_or_notify_cancel` once, and if that returned `True`,
`set_result` or `set_exception` once.

Each event sees the loop by itself: what the loop does for others is a call of
other code to it. The field `moment` of a finished call is history.
-/

namespace Jega.Futures.Waiting

/-- What the worker of a future has done: nothing, begun, or all of it. -/
inductive Worker where
  | before
  | running
  | ended
deriving DecidableEq, Repr

/-- The worker of a future that is found in some state. -/
def Worker.of : State → Worker
  | .PENDING | .CANCELLED => .before
  | .RUNNING => .running
  | .CANCELLED_AND_NOTIFIED | .FINISHED => .ended

/-- A greenlet suspended in `wait`. -/
structure Call where
  fs : List Fid
  timeout : Option Int
  return_when : ReturnWhen
  done : Finset Fid
  waiter : Wid
deriving DecidableEq

/-- A finished call, its result, and the states of the futures then. -/
structure Return where
  fs : List Fid
  timeout : Option Int
  return_when : ReturnWhen
  result : Except Error (Finset Fid × Finset Fid)
  moment : Fid → State

structure St (α ε : Type) extends Table α ε where
  workers : Fid → Worker
  calls : Gid → Option Call
  /-- The finished calls of `wait`. -/
  returned : List Return

variable {α ε : Type}

/-- Futures in any states that nobody waits on yet. -/
def St.init (futs : Fid → Future α ε) : St α ε where
  futs := fun f => { futs f with _waiters := [] }
  waiters := fun _ => none
  next := 0
  workers := fun f => .of (futs f)._state
  calls := fun _ => none
  returned := []

/-! ## `wait` -/

/-- `EventObject_wait` up to its `event_wait`: the seconds that it passes.
`PyLong_AsLong` gives -1 for what is no `long`. -/
def event_seconds (timeout : Option Int) : Except Error Nat :=
  match timeout with
  | none => .ok 0
  | some n =>
    let seconds := if -2 ^ 63 ≤ n ∧ n < 2 ^ 63 then n else -1
    if seconds < 0 then .error (.value_error "timeout value out of range") else .ok seconds.toNat

/-- `set(f for f in fs if f._state in [CANCELLED_AND_NOTIFIED, FINISHED])` -/
def Table.done (t : Table α ε) (fs : List Fid) : Finset Fid :=
  (fs.filter fun f => (t.futs f)._state.settled).toFinset

namespace St

/-- The call of `g` returns or raises. -/
def finish (s : St α ε) (g : Gid) (fs : List Fid) (timeout : Option Int) (return_when : ReturnWhen)
    (result : Except Error (Finset Fid × Finset Fid)) : St α ε :=
  { s with
    calls := Function.update s.calls g none
    returned := s.returned ++ [⟨fs, timeout, return_when, result, fun f => (s.futs f)._state⟩] }

/-- `wait` after `waiter.event.wait(timeout)`. -/
def waited (s : St α ε) (g : Gid) (c : Call) (res : Event.Result) : St α ε :=
  match res with
  | .outcome (.NULL e) => s.finish g c.fs c.timeout c.return_when (.error (.thrown e))
  | _ =>
    let removed := uninstall c.waiter c.fs s.futs
    let s := { s with futs := removed.1 }
    if !removed.2 then
      s.finish g c.fs c.timeout c.return_when
        (.error (.value_error "list.remove(x): x not in list"))
    else
      let finished := ((s.waiters c.waiter).map Waiter.finished_futures).getD []
      let done := c.done ∪ finished.toFinset
      s.finish g c.fs c.timeout c.return_when (.ok (done, c.fs.toFinset \ done))

/-- The event of a waiter has moved, and the wait of a greenlet may have ended. -/
def settle (s : St α ε) (waiter : Wid) (w : Waiter) (event : Event.St) : St α ε :=
  let s :=
    { s with waiters := Function.update s.waiters waiter (some { w with event := event }) }
  match event.ended.drop w.event.ended.length with
  | [] => s
  | (g, res) :: _ =>
    match s.calls g with
    | none => s
    | some c => s.waited g c res

/-- `wait` up to `waiter.event.wait(timeout)`, and on if that does not suspend. -/
def wait (s : St α ε) (g : Gid) (fs : List Fid) (timeout : Option Int)
    (return_when : ReturnWhen) : St α ε :=
  let done := s.done fs
  let not_done := fs.toFinset \ done
  if return_when = .FIRST_COMPLETED ∧ done.Nonempty then
    s.finish g fs timeout return_when (.ok (done, not_done))
  else if return_when = .FIRST_EXCEPTION ∧ done.Nonempty then
    -- `cancelled` is a property, and a `bool` cannot be called
    s.finish g fs timeout return_when (.error (.type_error "'bool' object is not callable"))
  else if done.card = fs.length then
    s.finish g fs timeout return_when (.ok (done, not_done))
  else
    match s._create_and_install_waiters fs return_when with
    | .error e => s.finish g fs timeout return_when (.error e)
    | .ok (table, waiter) =>
      let s := { s with toTable := table }
      match event_seconds timeout, s.waiters waiter with
      | .ok seconds, some w =>
        let c : Call := ⟨fs, timeout, return_when, done, waiter⟩
        let s := { s with calls := Function.update s.calls g (some c) }
        s.settle waiter w (Event.event_wait w.event g seconds)
      | .error e, _ => s.finish g fs timeout return_when (.error e)
      | _, none => s

end St

/-! ## The system -/

inductive Act (α ε : Type) where
  | cancel (g : Gid) (future : Fid)
  | set_running_or_notify_cancel (g : Gid) (future : Fid)
  | set_result (g : Gid) (future : Fid) (result : Option α)
  | set_exception (g : Gid) (future : Fid) (exception : ε)
  | wait (g : Gid) (fs : List Fid) (timeout : Option Int) (return_when : ReturnWhen)
  /-- The loop turns, or other code switches or throws into a greenlet, as the
  event of a waiter sees it. -/
  | turn (waiter : Wid) (a : Event.Act)

namespace St

/-- The worker of a future has called `set_running_or_notify_cancel`. -/
def began (s : St α ε) (future : Fid) : Except (Raised ε) (Table α ε × Bool) → St α ε
  | .ok (t, true) =>
    { s with toTable := t, workers := Function.update s.workers future .running }
  | .ok (t, false) => { s with toTable := t, workers := Function.update s.workers future .ended }
  | .error _ => { s with workers := Function.update s.workers future .ended }

def completed (s : St α ε) (future : Fid) (t : Table α ε) : St α ε :=
  { s with toTable := t, workers := Function.update s.workers future .ended }

end St

def step (s : St α ε) : Act α ε → Option (St α ε)
  | .cancel g future =>
    if s.calls g = none then some { s with toTable := s.cancel future } else none
  | .set_running_or_notify_cancel g future =>
    if s.calls g = none ∧ s.workers future = .before then
      some (s.began future (s.toTable.set_running_or_notify_cancel future g))
    else none
  | .set_result g future result =>
    if s.calls g = none ∧ s.workers future = .running then
      some (s.completed future (s.toTable.set_result future result g))
    else none
  | .set_exception g future exception =>
    if s.calls g = none ∧ s.workers future = .running then
      some (s.completed future (s.toTable.set_exception future exception g))
    else none
  | .wait g fs timeout return_when =>
    if s.calls g = none then some (s.wait g fs timeout return_when) else none
  | .turn waiter a =>
    match s.waiters waiter with
    | none => none
    | some w =>
      if a.passive then (Event.step w.event a).map fun event => s.settle waiter w event else none

end Jega.Futures.Waiting
