import Jega.Futures.Waiting
import Jega.Locks.RLock

/-!
# Jega.Futures.Completion — a future, its condition and its callbacks

One new future, with any number of greenlets that call its methods, one of them
its worker. The methods run under `_condition`, a condition over an `RLock`, and
the callbacks outside of it.

A greenlet can be suspended in `with self._condition` (`entering`), in the
`Condition.wait` of `result` and `exception` (`waiting`), or in a callback: what
a callback does is up to the greenlet that is in it. It may be in several of them,
one inside another.

The waiters of `wait` and `as_completed` are left out: telling them does not
suspend. `registered`, `called` and `returned` are history.
-/

namespace Jega.Futures.Completion

open Locks Waiting

/-- A method that waits for the future. -/
inductive Method where
  | result
  | exception
deriving DecidableEq, Repr

inductive Op (α ε : Type) where
  | cancel
  | add_done_callback (func : Func)
  | wait (method : Method) (timeout : Option Int)
  | set_running_or_notify_cancel
  | set_result (result : Option α)
  | set_exception (exception : ε)
deriving DecidableEq, Repr

/-- A greenlet suspended in `Condition.wait`. -/
structure Call where
  method : Method
  timeout : Option Int
deriving DecidableEq, Repr

/-- How `result` or `exception` ends; `failed` is for what `Condition.wait`
raises. -/
inductive Answer (α ε : Type) where
  | result (res : Except (Raised ε) (Option α))
  | exception (res : Except (Raised ε) (Option ε))
  | failed (e : Error)

/-- A finished `result` or `exception`, and the state of the future then. -/
structure Return (α ε : Type) where
  g : Gid
  call : Call
  answer : Answer α ε
  moment : State

/-- One call of a callback, and the state of the future then. -/
structure Called where
  func : Func
  moment : State
deriving DecidableEq, Repr

/-- What called a callback that has not ended. -/
inductive Frame where
  /-- The loop of `_run_callbacks`, with the rest of the list. -/
  | _run_callbacks (rest : List Func)
  | add_done_callback
deriving DecidableEq, Repr

/-- How a callback ends; what it raises is an `Exception`. -/
inductive Ending where
  | returned
  | raised
deriving DecidableEq, Repr

structure St (α ε : Type) where
  fut : Future α ε
  _condition : RLock.St
  worker : Waiting.Worker
  entering : Gid → Option (Op α ε)
  waiting : Gid → Option Call
  /-- The callbacks that a greenlet is in, the innermost first. -/
  frames : Gid → List Frame
  registered : List Func
  called : List Called
  returned : List (Return α ε)

variable {α ε : Type}

/-- The test that the two make before and after they wait. -/
def Method.test [Truth ε] (fut : Future α ε) : Method → Option (Future α ε × Answer α ε)
  | .result => fut.result_test.map fun r => (r.1, .result r.2)
  | .exception => fut.exception_test.map fun r => (fut, .exception r)

/-- `raise TimeoutError()` -/
def Method.timed_out : Method → Answer α ε
  | .result => .result (.error .timeout_error)
  | .exception => .exception (.error .timeout_error)

namespace St

def init : St α ε where
  fut := Future.new
  _condition := RLock.init
  worker := .before
  entering := fun _ => none
  waiting := fun _ => none
  frames := fun _ => []
  registered := []
  called := []
  returned := []

/-- `_condition.__exit__` -/
def leave (s : St α ε) (g : Gid) : St α ε :=
  { s with _condition := RLock.rlock_release s._condition g }

/-! ## Callbacks -/

/-- `func(self)` -/
def call (s : St α ε) (g : Gid) (func : Func) (frame : Frame) : St α ε :=
  { s with
    frames := Function.update s.frames g (frame :: s.frames g)
    called := s.called ++ [⟨func, s.fut._state⟩] }

/-- The loop of `_run_callbacks`, up to the next callback. -/
def _run_callbacks (s : St α ε) (g : Gid) : List Func → St α ε
  | [] => { s with fut := { s.fut with _callbacks := [] } }
  | cb :: rest => s.call g cb (._run_callbacks rest)

/-- The innermost callback that `g` is in has ended. -/
def callback_ended (s : St α ε) (g : Gid) (how : Ending) : Option (St α ε) :=
  match s.frames g, how with
  | [], _ => none
  -- `except Exception: pass`
  | ._run_callbacks rest :: frames, .returned | ._run_callbacks rest :: frames, .raised =>
    some (_run_callbacks { s with frames := Function.update s.frames g frames } g rest)
  -- what was raised goes on in the code that called `add_done_callback`
  | .add_done_callback :: frames, .returned | .add_done_callback :: frames, .raised =>
    some { s with frames := Function.update s.frames g frames }

/-- `notify_all`, the end of the `with`, and `_run_callbacks`, when the future has
become `fut`. -/
def complete (s : St α ε) (g : Gid) (fut : Future α ε) : St α ε :=
  let s := { s with
    fut := fut
    _condition :=
      RLock.condition_notify s._condition g s._condition.waiters.length }
  (s.leave g)._run_callbacks g s.fut._callbacks

/-! ## The methods -/

/-- `result` or `exception` ends in its `with`. -/
def answer (s : St α ε) (g : Gid) (c : Call) (a : Answer α ε) : St α ε :=
  let r : Return α ε := ⟨g, c, a, s.fut._state⟩
  leave { s with returned := s.returned ++ [r] } g

/-- After `self._condition.wait(timeout)`. -/
def woken [Truth ε] (s : St α ε) (g : Gid) (c : Call) : Locks.Outcome → St α ε
  | .NULL e => s.answer g c (.failed (.thrown e))
  | _ =>
    match c.method.test s.fut with
    | some (fut, a) => { s with fut := fut }.answer g c a
    | none => s.answer g c c.method.timed_out

/-- A method after `_condition.__enter__`. -/
def entered [Truth ε] (s : St α ε) (g : Gid) : Op α ε → St α ε
  | .cancel =>
    match s.fut._state with
    | .PENDING => s.complete g { s.fut with _state := .CANCELLED }
    | _ => s.leave g
  | .add_done_callback func =>
    let s := { s with registered := s.registered ++ [func] }
    if s.fut.done then (s.leave g).call g func .add_done_callback
    else { s with fut := { s.fut with _callbacks := s.fut._callbacks ++ [func] } }.leave g
  | .wait method timeout =>
    match method.test s.fut with
    | some (fut, a) => { s with fut := fut }.answer g ⟨method, timeout⟩ a
    | none =>
      match event_seconds timeout with
      | .error e => s.answer g ⟨method, timeout⟩ (.failed e)
      | .ok seconds =>
        let _condition := RLock.ConditionObject_wait s._condition g seconds
        match _condition.ended.drop s._condition.ended.length with
        | [] =>
          { s with
            _condition := _condition
            waiting := Function.update s.waiting g (some ⟨method, timeout⟩) }
        | e :: _ => { s with _condition := _condition }.woken g ⟨method, timeout⟩ e.res
  | .set_running_or_notify_cancel =>
    match s.fut.set_running_or_notify_cancel with
    | .ok (fut, true) => { s with fut := fut, worker := .running }.leave g
    | .ok (fut, false) => { s with fut := fut, worker := .ended }.leave g
    | .error _ => { s with worker := .ended }.leave g
  | .set_result result =>
    { s with worker := .ended }.complete g { s.fut with _result := result, _state := .FINISHED }
  | .set_exception exception =>
    { s with worker := .ended }.complete g
      { s.fut with _exception := some exception, _state := .FINISHED }

/-- A method up to the end of its first `with`, if it does not suspend. -/
def enter [Truth ε] (s : St α ε) (g : Gid) (op : Op α ε) : St α ε :=
  let _condition := RLock.rlock_acquire s._condition g true 0
  let s := { s with _condition := _condition }
  if _condition.pc g = .acquiring then
    { s with entering := Function.update s.entering g (some op) }
  else s.entered g op

/-- The semaphores have moved, and one call may have ended. -/
def settle [Truth ε] (s : St α ε) (r : Locks.St × Option (Gid × Locks.Outcome)) : St α ε :=
  let _condition := RLock.settle s._condition r
  let s' := { s with _condition := _condition }
  match r.2 with
  | none => s'
  | some (g, res) =>
    match s.entering g, s.waiting g with
    | some op, _ =>
      let s' := { s' with entering := Function.update s.entering g none }
      if res = .Py_True then s'.entered g op else s'
    | none, some c =>
      match _condition.ended.drop s._condition.ended.length with
      | [] => s' -- it waits for the lock
      | e :: _ =>
        { s' with waiting := Function.update s.waiting g none }.woken g c e.res
    | none, none => s'

/-- A worker calls `set_running_or_notify_cancel` once, and if that returned
`True`, `set_result` or `set_exception` once. -/
def allows (s : St α ε) : Op α ε → Bool
  | .set_running_or_notify_cancel => s.worker = .before
  | .set_result _ | .set_exception _ => s.worker = .running
  | _ => true

end St

/-! ## The system -/

inductive Act (α ε : Type) where
  | call (g : Gid) (op : Op α ε)
  | callback_ended (g : Gid) (how : Ending)
  /-- The loop turns, or other code switches or throws into a greenlet. -/
  | turn (a : Event.Act)
deriving DecidableEq, Repr

variable [Truth ε]

def turn (s : St α ε) : Event.Act → Option (St α ε)
  | .fire waiter => (fire s._condition.locks waiter).map s.settle
  | .due timer =>
    (s._condition.locks.loop.fire_timers_next timer).map fun loop =>
      { s with _condition.locks.loop := loop }
  | .throw g e =>
    let r := resume s._condition.locks g (.throw e)
    some (s.settle (r.1, r.2.map (Prod.mk g)))
  | .switch g =>
    let r := resume s._condition.locks g (.value .loop_switch_value)
    some (s.settle (r.1, r.2.map (Prod.mk g)))
  | .call_soon n =>
    let loop := (s._condition.locks.loop.loop_schedule_call 0 (some (.other n)) none).1
    some { s with _condition.locks.loop := loop }
  | _ => none

def step (s : St α ε) : Act α ε → Option (St α ε)
  | .call g op => if s._condition.pc g = .free ∧ s.allows op then some (s.enter g op) else none
  | .callback_ended g how =>
    if s._condition.pc g = .free then s.callback_ended g how else none
  | .turn a => if a.passive then turn s a else none

end Jega.Futures.Completion
