import Jega.Loop.Model
import Jega.Trace.Rules

/-!
# Jega.Executor.Model — task futures and their executor

`futures.c` and `executor.c` as a system of one executor, any number of futures
and any number of greenlets on one loop.

* One greenlet runs at a time (`current`). What it is about to do, and where
  the others are suspended, is their `Where`.
* `_worker` is cut at the top of its loop, at the calls of submitted functions
  and at its switches, `back_waiter` at its switches. `wait_future` has two, its
  own and before that, in a loop that is stopped, the one by which `start_loop`
  runs it.
* What a submitted function, a plain greenlet or a callback of the loop does is
  arbitrary: each of its calls is an action, and so are its switches.

`run_worker` releases what a submitted function returned before it stores it. The
future may then hold a dangling pointer, which is as far as that is followed: a
run ends where it would be released again.

The executor is alive during the run and memory does not run out. No exception
is thrown into a parked worker, whose next submitted function would be Python code
that runs with the error set (`Jega.Greenlet`). An unstarted worker is known to its
handle only. Signals do not come, but the loop may be stopped and run again. The
greenlet of the loop does not call `result` in a loop that is stopped.

The fields `completion`, `resumed` and `workers` are history and no function
reads them.
-/

namespace Jega.Executor

/-- A future, by address. -/
abbrev Fid := Nat

/-- A Python callable, by identity. -/
abbrev Callable := Nat

inductive future_state where
  | F_PENDING
  | F_CANCELLED
  | F_FINISHED
deriving DecidableEq, Repr

/-- What a `PyObject *` leads to. -/
inductive Pointer where
  | object (v : PyObj)
  /-- Memory that was given back. -/
  | dangling
deriving DecidableEq, Repr

/-- What a submitted function returns, and whether anything else refers to the
object. That is up to the program. -/
structure Returned where
  v : PyObj
  held : Bool
deriving DecidableEq, Repr

/-- The pointer after `Py_XDECREF`. -/
def Returned.released (res : Returned) : Pointer := if res.held then .object res.v else .dangling

structure FutureObject where
  state : future_state
  result : Option Pointer
  exc_info : Option Exc
  callbacks : List Callable
  waiters : Finset Gid
  handle : Option Hid

/-- `FutureObject_init`. -/
def FutureObject_init : FutureObject := ⟨.F_PENDING, none, none, [], ∅, none⟩

/-- A work item is known by its future. -/
structure ExecutorObject where
  pendings : List Fid
  max_workers : Nat
  run_workers : Nat
deriving DecidableEq, Repr

/-- Where a greenlet is: not created yet, in Python code, a worker before its
first switch, at the top of the loop of `_worker`, in the `loop_switch` of that
loop, in the switch by which `start_loop` runs the loop for `wait_future`, in the
`loop_switch` of `wait_future`, in the loop of `back_waiter`, or dead. -/
inductive Where where
  | unborn
  | user
  | unstarted
  | worker_loop
  | parked
  | start (f : Fid)
  | wait_future (f : Fid)
  | back_waiter (f : Fid)
  | dead
deriving DecidableEq, Repr

structure St where
  futures : Fid → FutureObject
  /-- The futures from here on are new. -/
  next : Fid
  executor : ExecutorObject
  loop : LoopObject Callable
  current : Gid
  loc : Gid → Where
  /-- The handle a worker got from its greenlet's dictionary. -/
  handle : Gid → Option Hid
  /-- The future of the submitted function a worker is in. -/
  job : Gid → Option Fid
  /-- Who completed a future in `run_worker`, and who was suspended in
  `wait_future` at that moment. -/
  completion : Fid → Option (Gid × (Gid → Bool))
  /-- The greenlets that completions switched into, in order. -/
  resumed : Fid → List Gid
  workers : List Gid

/-- The greenlet of the loop. -/
def loop_greenlet : Gid := 0

/-- The greenlet the program starts in, the parent of the loop's. -/
def main_greenlet : Gid := 1

/-- An executor with nothing submitted, on an idle loop. -/
def init (max_workers : Nat) : St where
  futures := fun _ => FutureObject_init
  next := 0
  executor := ⟨[], max_workers, 0⟩
  loop := LoopObject.init Callable
  current := main_greenlet
  loc := fun g => if g = loop_greenlet ∨ g = main_greenlet then .user else .unborn
  handle := fun _ => none
  job := fun _ => none
  completion := fun _ => none
  resumed := fun _ => []
  workers := []

namespace St

/-! ## Switches -/

/-- A switch into the greenlet of the loop, which is never suspended in one of
the functions of this file but `back_waiter`. -/
def loop_switch (s : St) : St := { s with current := loop_greenlet }

/-- `g` is suspended in `wait_future` for `f`. -/
def waits (s : St) (f : Fid) (g : Gid) : Bool := s.loc g = .start f || s.loc g = .wait_future f

/-- `wait_future` of `g` behind `start_loop`, up to its own switch. -/
def started (s : St) (g : Gid) (f : Fid) : St :=
  if (s.futures f).state = .F_PENDING then
    loop_switch { s with loc := Function.update s.loc g (.wait_future f) }
  else { s with current := g, loc := Function.update s.loc g .user }

/-- A switch into `o`, up to the next thing `o` does. A dead greenlet passes it on to
its parent, which `_worker` made the loop's. -/
def greenlet_switch (s : St) (o : Gid) : St :=
  match s.loc o with
  | .dead => s.loop_switch
  | .unstarted | .parked =>
    { s with current := o, loc := Function.update s.loc o .worker_loop }
  | .start f => s.started o f
  | .wait_future _ => { s with current := o, loc := Function.update s.loc o .user }
  | _ => { s with current := o }

/-- A throw into `o`, which ends a `start_loop` with an error. -/
def greenlet_throw (s : St) (o : Gid) : St :=
  match s.loc o with
  | .start _ => { s with current := o, loc := Function.update s.loc o .user }
  | _ => s.greenlet_switch o

/-! ## Futures -/

/-- `call_callbacks`. -/
def call_callbacks (s : St) (f : Fid) : St :=
  { s with
    loop := (s.futures f).callbacks.foldl (fun l cb => (l.loop_schedule_call 0 (some cb) none).1) s.loop
    futures := Function.update s.futures f { s.futures f with callbacks := [] } }

/-- `handle->called = 0` and `schedule_timer`. -/
def reschedule (s : St) (handle : Hid) : St :=
  { s with
    loop :=
      LoopObject.schedule_timer
        { s.loop with
          handles := Function.update s.loop.handles handle
            { s.loop.handles handle with called := false } }
        handle }

/-- `back_waiter` up to its loop. -/
def back_waiter (s : St) (f : Fid) : St :=
  let s :=
    if (s.futures f).waiters = ∅ then s
    else
      match (s.futures f).handle with
      | some handle => s.reschedule handle
      | none => s
  { s with loc := Function.update s.loc s.current (.back_waiter f) }

/-- `set_result` up to the loop of `back_waiter`. -/
def set_result (s : St) (f : Fid) (result : Pointer) : St :=
  let s :=
    { s with futures := Function.update s.futures f { s.futures f with result := some result } }
  (s.call_callbacks f).back_waiter f

/-- `set_exception` up to the loop of `back_waiter`. -/
def set_exception (s : St) (f : Fid) (exc_info : Exc) : St :=
  let s :=
    { s with
      futures := Function.update s.futures f { s.futures f with exc_info := some exc_info } }
  (s.call_callbacks f).back_waiter f

/-- `FutureObject_cancel`. -/
def cancel (s : St) (f : Fid) : St :=
  let s :=
    { s with futures := Function.update s.futures f { s.futures f with state := .F_CANCELLED } }
  s.call_callbacks f

/-- `FutureObject_add_done_callback`. -/
def add_done_callback (s : St) (f : Fid) (callable : Callable) : St :=
  if (s.futures f).state = .F_PENDING then
    { s with
      futures := Function.update s.futures f
        { s.futures f with callbacks := (s.futures f).callbacks ++ [callable] } }
  -- a settled future calls back through the loop at once
  else { s with loop := (s.loop.loop_schedule_call 0 (some callable) none).1 }

/-- `FutureObject_remove_done_callback`. -/
def remove_done_callback (s : St) (f : Fid) (callable : Callable) : St :=
  { s with
    futures := Function.update s.futures f
      { s.futures f with callbacks := (s.futures f).callbacks.filter (· ≠ callable) } }

/-- `wait_future` up to its first switch. The waiter is on the set before
`start_loop`, which fails in the greenlet of the loop and runs a loop that is
stopped. (If the loop's greenlet has ended, a new one switches back before anything
else: the loop runs then, as after `run`.) -/
def wait_future (s : St) (f : Fid) : St :=
  let s :=
    { s with
      futures := Function.update s.futures f
        { s.futures f with waiters := insert s.current (s.futures f).waiters } }
  if s.current = loop_greenlet then s
  else
    let running := { s with loop := { s.loop with state := .L_RUNNING } }
    if s.loop.state = .L_STOP then
      loop_switch { running with loc := Function.update s.loc s.current (.start f) }
    else running.started s.current f

/-- `FutureObject_result` and `FutureObject_exception` up to their first switch. -/
def result (s : St) (f : Fid) : St :=
  if (s.futures f).state = .F_PENDING then s.wait_future f else s

/-! ## Workers -/

/-- `_worker` returns. -/
def worker_exit (s : St) : St :=
  loop_switch { s with loc := Function.update s.loc s.current .dead }

/-- `check_interrupted`, when no signal came. -/
def check_interrupted (s : St) : Bool := s.loop.state = .L_STOP

/-- `_worker` after `run_worker`, up to the top of its loop. -/
def item_done (s : St) : St :=
  if s.check_interrupted then s.worker_exit
  -- without a bound every item has a worker of its own
  else if s.executor.max_workers = 0 then s.worker_exit
  else
    let s :=
      match s.handle s.current with
      | some handle => s.reschedule handle
      | none => s
    { s with loc := Function.update s.loc s.current .worker_loop }

/-- `run_worker` up to the call of the submitted function. The state of the
future was tested by `_worker`. -/
def run_worker (s : St) (f : Fid) : St :=
  if (s.futures f).result.isSome || (s.futures f).exc_info.isSome then s.item_done
  else
    { s with
      loc := Function.update s.loc s.current .user
      job := Function.update s.job s.current (some f) }

/-- One round of the loop of `_worker`, up to the call of a submitted function
or the switch. -/
def worker_loop (s : St) : St :=
  if s.check_interrupted then s.worker_exit
  else
    match s.executor.pendings with
    | [] => loop_switch { s with loc := Function.update s.loc s.current .parked }
    | f :: rest =>
      let s := { s with executor := { s.executor with pendings := rest } }
      -- an item that was cancelled or completed otherwise is dropped
      if (s.futures f).state ≠ .F_PENDING then s
      else
        run_worker
          { s with
            futures := Function.update s.futures f
              { s.futures f with handle := s.handle s.current } }
          f

/-- `run_worker` from the return of the submitted function to the loop of
`back_waiter`. It gives up its reference to the object that was returned before it
hands the pointer to `set_result`. -/
def run_worker_finish (s : St) (f : Fid) (res : Except Exc Returned) : St :=
  let s :=
    { s with
      futures := Function.update s.futures f { s.futures f with state := .F_FINISHED }
      job := Function.update s.job s.current none
      completion := Function.update s.completion f (some (s.current, s.waits f)) }
  match res with
  | .error exc_info => s.set_exception f exc_info
  | .ok v => s.set_result f v.released

/-- The greenlet is in the `back_waiter` of its own `run_worker`, if in any. -/
def own (s : St) (g : Gid) : Bool := (s.handle g).isSome && (s.job g).isNone

/-- One round of the loop of `back_waiter` for `f`: `PySet_Pop` takes any
member. -/
def back_waiter_next (s : St) (f : Fid) (pop : Option Gid) : Option St :=
  match pop with
  | none =>
    if (s.futures f).waiters = ∅ then
      some
        (if s.own s.current then s.item_done
        else { s with loc := Function.update s.loc s.current .user })
    else none
  | some o =>
    if o ∈ (s.futures f).waiters then
      some
        (greenlet_switch
          { s with
            futures := Function.update s.futures f
              { s.futures f with waiters := (s.futures f).waiters.erase o }
            resumed :=
              if s.own s.current then Function.update s.resumed f (s.resumed f ++ [o])
              else s.resumed }
          o)
    else none

/-! ## Submitting -/

/-- `make_future`. -/
def make_future (s : St) : St := { s with next := s.next + 1 }

/-- `adjust_thread_count`; `greenlet_new` returns `greenlet`. -/
def adjust_thread_count (s : St) (greenlet : Gid) : St :=
  if s.executor.max_workers = 0 ∨ s.executor.run_workers < s.executor.max_workers then
    let scheduled := s.loop.loop_schedule_call 0 none (some greenlet)
    { s with
      loop := scheduled.1
      handle := Function.update s.handle greenlet (some scheduled.2)
      loc := Function.update s.loc greenlet .unstarted
      executor := { s.executor with run_workers := s.executor.run_workers + 1 }
      workers := s.workers ++ [greenlet] }
  else s

/-- `internal_submit`. -/
def internal_submit (s : St) (greenlet : Gid) : St :=
  let future := s.next
  let s := s.make_future
  let s := { s with executor := { s.executor with pendings := s.executor.pendings ++ [future] } }
  s.adjust_thread_count greenlet

/-! ## The loop -/

/-- A round of `fire_pendings`. -/
def fire_pendings (s : St) : Option St :=
  match s.loop.fire_pendings_next (fun g => s.loc g = .dead) with
  | none => none
  | some (loop, .switch g) => some (greenlet_switch { s with loop := loop } g)
  -- what a callback does are further actions of the greenlet of the loop
  | some (loop, _) => some { s with loop := loop }

/-- `loop_sleep` up to its switch. -/
def loop_sleep (s : St) (seconds : Nat) : St :=
  loop_switch { s with loop := (s.loop.loop_schedule_call seconds none (some s.current)).1 }

end St

/-! ## The system -/

inductive Act where
  | submit (greenlet : Gid)
  | make_future
  | greenlet_new (g : Gid)
  | result (f : Fid)
  | cancel (f : Fid)
  | add_done_callback (f : Fid) (callable : Callable)
  | remove_done_callback (f : Fid) (callable : Callable)
  | set_result (f : Fid) (result : PyObj)
  | set_exception (f : Fid) (exc_info : Exc)
  | call_later (seconds : Nat) (cb : Callable)
  | sleep (seconds : Nat)
  | switch (o : Gid)
  | throw (o : Gid) (e : Exc)
  /-- A submitted function returns or raises. -/
  | finish (res : Except Exc Returned)
  | fire
  | due (timer : Hid)
  | stop
  | run
  /-- The worker that runs goes round its loop. -/
  | worker_loop
  /-- The greenlet that runs goes round the loop of its `back_waiter`. -/
  | back_waiter (pop : Option Gid)

/-- What the Python code of the greenlet that runs can do. -/
def user_step (s : St) : Act → Option St
  | .submit greenlet => if s.loc greenlet = .unborn then some (s.internal_submit greenlet) else none
  | .make_future => some s.make_future
  | .greenlet_new g =>
    if s.loc g = .unborn then some { s with loc := Function.update s.loc g .user } else none
  | .result f => if f < s.next then some (s.result f) else none
  | .cancel f => if f < s.next then some (s.cancel f) else none
  | .add_done_callback f callable => if f < s.next then some (s.add_done_callback f callable) else none
  | .remove_done_callback f callable =>
    if f < s.next then some (s.remove_done_callback f callable) else none
  | .set_result f result =>
    -- `Py_CLEAR` of a dangling pointer has no defined outcome
    if f < s.next ∧ (s.futures f).result ≠ some .dangling then
      some (s.set_result f (.object result))
    else none
  | .set_exception f exc_info => if f < s.next then some (s.set_exception f exc_info) else none
  | .call_later seconds cb =>
    some { s with loop := (s.loop.loop_schedule_call seconds (some cb) none).1 }
  | .sleep seconds => if s.current ≠ loop_greenlet then some (s.loop_sleep seconds) else none
  | .switch o => if s.loc o ≠ .unborn ∧ s.loc o ≠ .unstarted then some (s.greenlet_switch o) else none
  | .throw o _ =>
    if s.loc o ≠ .unborn ∧ s.loc o ≠ .unstarted ∧ s.loc o ≠ .parked then some (s.greenlet_throw o)
    else none
  | .finish res =>
    match s.job s.current with
    | some f => some (s.run_worker_finish f res)
    | none => none
  | .fire => if s.current = loop_greenlet then s.fire_pendings else none
  | .due timer =>
    if s.current = loop_greenlet then
      (s.loop.fire_timers_next timer).map fun loop => { s with loop := loop }
    else none
  | .stop => some { s with loop := { s.loop with state := .L_STOP } }
  | .run => some { s with loop := { s.loop with state := .L_RUNNING } }
  | .worker_loop | .back_waiter _ => none

def step (s : St) (a : Act) : Option St :=
  match s.loc s.current, a with
  | .user, a => user_step s a
  | .worker_loop, .worker_loop => some s.worker_loop
  | .back_waiter f, .back_waiter pop => s.back_waiter_next f pop
  | _, _ => none

end Jega.Executor
