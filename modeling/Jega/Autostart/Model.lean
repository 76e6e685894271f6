import Jega.Io.Trampoline
import Jega.Loop.Scheduler
import Jega.Tree.Parents

/-!
# Jega.Autostart.Model — the loop's greenlet, started on demand

`loop.c` keeps the loop in a greenlet of its own. `LoopObject_run_on_main_task`
makes it and switches to it, be it for `run()` of the program or for a function
that is to wait and finds no running loop: `ready_trampoline` and `loop_switch`
note the caller in `suspend_thread`, and `LoopObject_run` first of all switches
back there. When the function of a greenlet ends, its parent goes on; a switch
to a dead greenlet goes to its parent too.

A label is what the current greenlet does up to its next switch. The code of the
program, of the callbacks and of `internal_run_once` is left open: it may call
any of these functions and switch to, or throw into, any greenlet. What it
registers and schedules is in the other models of the loop.

Parents are those jega gives. A new greenlet gets the loop's or, before there is
one, the current one (`executor.c`); `greenlet_setparent` gives the loop's, and a
step that would make a cycle is left out. Greenlets that the program makes with
another parent are not in this model.

The field `registered` is history and no function reads it.
-/

namespace Jega.Autostart

open Loop (Caller)

/-- Who called `run`, and so what comes after it. -/
inductive Call where
  /-- The program. -/
  | run
  /-- `add_event` and `start_loop`, through `ready_trampoline`. -/
  | start_loop
  /-- `io_trampoline`, through `ready_trampoline`. -/
  | io_trampoline (fd : Io.Fd)
  | loop_switch
deriving DecidableEq, Repr

/-- Where a greenlet stands, running or not. -/
inductive Pc where
  /-- In code that is not in this model, of a callback in the loop's greenlet. -/
  | code
  /-- In the switch of `LoopObject_run_on_main_task`. -/
  | run_on_main_task (caller : Call)
  /-- In the switch of `internal_io_trampoline`. -/
  | internal_io_trampoline (fd : Io.Fd)
  /-- In a switch of `loop_switch`. -/
  | loop_switch
  /-- Before `LoopObject_run` or `LoopObject_run_once`. -/
  | new
  /-- In the switch of either to `suspend_thread`. -/
  | suspend_thread
  /-- At the `while` of `LoopObject_run`. -/
  | testing
  /-- In `internal_run_once`. -/
  | passing
  | dead
deriving DecidableEq, Repr

structure Greenlet where
  /-- What `run_on_main_task` made it for; the others are of the program. -/
  cb : Option Caller
  parent : Gid
  pc : Pc

/-- Greenlet 0 is the main one. -/
structure St where
  greenlets : Gid → Greenlet
  next : Gid
  current : Gid
  /-- The current greenlet was resumed by a throw. -/
  exc : Bool
  greenlet : Option Gid
  suspend_thread : Option Gid
  state : loop_state
  /-- The waits in `internal_io_trampoline`, and whether the loop was alive then. -/
  registered : List (Gid × Io.Fd × Bool)

/-- After `LoopObject_init`. -/
def init : St where
  greenlets := fun _ => ⟨none, 0, .code⟩
  next := 1
  current := 0
  exc := false
  greenlet := none
  suspend_thread := none
  state := .L_STOP
  registered := []

namespace St

def parent (s : St) (g : Gid) : Gid := (s.greenlets g).parent

def pc (s : St) (g : Gid) : Pc := (s.greenlets g).pc

def cb (s : St) (g : Gid) : Option Caller := (s.greenlets g).cb

/-- `greenlet_dead`, true of `NULL`. -/
def greenlet_dead (s : St) : Option Gid → Bool
  | none => true
  | some g => s.pc g = .dead

/-- Greenlet `g` goes on at `pc`. -/
def goto (s : St) (g : Gid) (pc : Pc) : St :=
  { s with greenlets := Function.update s.greenlets g { s.greenlets g with pc := pc } }

/-! ## The greenlet package -/

/-- Where a switch to `g` goes. -/
def target (s : St) (g : Gid) : Option Gid :=
  Tree.heir s.parent (fun g => !s.greenlet_dead (some g)) s.next g

def greenlet_switch (s : St) (g : Gid) : Option St :=
  (s.target g).map fun g => { s with current := g, exc := false }

def greenlet_throw (s : St) (g : Gid) : Option St :=
  (s.target g).map fun g => { s with current := g, exc := true }

def greenlet_new (s : St) (cb : Option Caller) (parent : Gid) (pc : Pc) : St :=
  { s with
    greenlets := Function.update s.greenlets s.next ⟨cb, parent, pc⟩
    next := s.next + 1 }

/-- `PyGreenlet_SetParent`; it raises on a cycle, and the callers do not look at
that: the greenlet they switch to runs with the error set (`Jega.Greenlet`). -/
def greenlet_setparent (s : St) (g parent : Gid) : Option St :=
  if g ∈ Tree.line s.parent s.next parent then none
  else some
    { s with greenlets := Function.update s.greenlets g { s.greenlets g with parent := parent } }

/-- The function of the current greenlet ends. -/
def ended (s : St) (exc : Bool) : Option St :=
  let g := s.current
  let s := s.goto g .dead
  if exc then s.greenlet_throw (s.parent g) else s.greenlet_switch (s.parent g)

end St

/-! ## Starting -/

/-- `LoopObject_run_on_main_task` up to its switch. -/
def run_on_main_task (s : St) (cb : Caller) (caller : Call) : Option St :=
  let current := s.current
  let s :=
    if s.greenlet_dead s.greenlet then
      { s.greenlet_new (some cb) current .new with greenlet := some s.next }
    else s
  let s := { s with state := .L_RUNNING }.goto current (.run_on_main_task caller)
  s.greenlet.bind s.greenlet_switch

/-- `internal_io_trampoline` up to its switch. -/
def internal_io_trampoline (s : St) (fd : Io.Fd) : Option St :=
  let s :=
    { s with
      registered := s.registered ++ [(s.current, fd, !s.greenlet_dead s.greenlet)]
      state := .L_RUNNING }.goto s.current (.internal_io_trampoline fd)
  s.greenlet.bind s.greenlet_switch

/-- What a caller of `ready_trampoline` does when that returns 1. -/
def readied (s : St) : Call → Option St
  | .io_trampoline fd => internal_io_trampoline s fd
  | _ => some (s.goto s.current .code)

/-- `ready_trampoline`, and its caller after it. -/
def ready_trampoline (s : St) (loop_check : Bool) (caller : Call) : Option St :=
  if s.greenlet_dead s.greenlet then
    run_on_main_task { s with greenlet := none, suspend_thread := some s.current } .run caller
  else if s.state = .L_STOP then
    run_on_main_task { s with suspend_thread := some s.current } .run caller
  else if loop_check ∧ s.greenlet = some s.current then
    some s -- "Cannot switch to MAINLOOP from MAINLOOP"
  else readied s caller

/-- The switch of `LoopObject_run_on_main_task` returns. -/
def run_on_main_task_returned (s : St) (caller : Call) : Option St :=
  let s := if s.greenlet_dead s.greenlet then { s with state := .L_STOP } else s
  if s.exc then some (s.goto s.current .code) else readied s caller

def loop_switch (s : St) : Option St :=
  if s.greenlet = some s.current then
    (s.goto s.current .loop_switch).greenlet_switch (s.parent s.current)
  else if s.greenlet_dead s.greenlet then
    -- "warning !! loop is dead"
    run_on_main_task { s with greenlet := none, suspend_thread := some s.current } .run .loop_switch
  else
    s.greenlet.bind fun loop =>
      (if s.parent loop ≠ s.current then s.greenlet_setparent s.current loop else some s).bind
        fun s => (s.goto s.current .loop_switch).greenlet_switch loop

/-! ## The loop's greenlet -/

/-- After the hand-over, or without one. -/
def started (s : St) : Caller → St
  | .run => s.goto s.current .testing
  | .run_once => s.goto s.current .passing

/-- `LoopObject_run` or `LoopObject_run_once`, up to the switch to `suspend_thread`. -/
def entered (s : St) (cb : Caller) : Option St :=
  let s := if cb = .run then { s with state := .L_RUNNING } else s
  match s.suspend_thread with
  | some g => (s.goto s.current .suspend_thread).greenlet_switch g
  | none => some (started s cb)

/-- That switch returns. Only `LoopObject_run` looks for an exception. -/
def resumed (s : St) (cb : Caller) : Option St :=
  let s := { s with suspend_thread := none }
  if s.exc ∧ cb = .run then s.ended true else some (started s cb)

/-- The `while` of `LoopObject_run`; `work` is what the two counts say. -/
def test (s : St) (work interrupted : Bool) : Option St :=
  if s.state ≠ .L_STOP ∧ work then some (s.goto s.current .passing)
  else { s with state := .L_STOP }.ended interrupted

/-- `internal_run_once` returns; `abort` is `LoopAbortException`, which
`LoopObject_run` catches. -/
def pass_ended (s : St) (exc abort : Bool) : Caller → Option St
  | .run =>
    if exc then { s with state := .L_STOP }.ended (!abort) else some (s.goto s.current .testing)
  | .run_once => s.ended exc

/-- `internal_loop_handle_error`. -/
def handle_error (s : St) : Option St :=
  match s.greenlet with
  | some loop =>
    if s.current = loop ∨ s.current = s.parent loop then
      { s with state := .L_STOP }.greenlet_throw (s.parent loop)
    else some s -- the throw is scheduled
  | none => some s -- `None` has no `throw`

/-- Code ends: of a callback, and then the pass goes on, or of a greenlet. -/
def code_ended (s : St) (exc : Bool) : Option St :=
  match s.cb s.current with
  | some _ => some (s.goto s.current .passing)
  | none => if s.current = 0 then none else s.ended exc

inductive Act where
  | run (cb : Caller)
  | start_loop (loop_check : Bool)
  | io_trampoline (fd : Io.Fd)
  | loop_switch
  /-- `adjust_thread_count` makes a worker. -/
  | greenlet_new
  /-- `_worker` sets its parent. -/
  | greenlet_setparent
  | greenlet_switch (g : Gid)
  | greenlet_throw (g : Gid)
  /-- `check_stop_signal` finds a signal. -/
  | stop
  | handle_error
  /-- The switch that the greenlet stands in returns. -/
  | returned
  | code_ended (exc : Bool)
  /-- The loop's greenlet starts. -/
  | enter
  | test (work interrupted : Bool)
  /-- The pass calls a callback. -/
  | call
  | pass_ended (exc abort : Bool)
deriving DecidableEq, Repr

/-- Code that the model leaves open is running. -/
def St.open (s : St) : Prop := s.pc s.current = .code ∨ s.pc s.current = .passing

instance (s : St) : Decidable s.open := inferInstanceAs (Decidable (_ ∨ _))

def step (s : St) : Act → Option St
  | .run cb => if s.pc s.current = .code then run_on_main_task s cb .run else none
  | .start_loop loop_check =>
    if s.pc s.current = .code then ready_trampoline s loop_check .start_loop else none
  | .io_trampoline fd =>
    if s.pc s.current = .code then ready_trampoline s true (.io_trampoline fd) else none
  | .loop_switch => if s.pc s.current = .code then loop_switch s else none
  | .greenlet_new =>
    if s.pc s.current = .code then
      some (s.greenlet_new none (s.greenlet.getD s.current) .code)
    else none
  | .greenlet_setparent =>
    if s.pc s.current = .code ∧ s.cb s.current = none then
      s.greenlet.bind (s.greenlet_setparent s.current)
    else none
  | .greenlet_switch g => if s.open ∧ g < s.next then s.greenlet_switch g else none
  | .greenlet_throw g => if s.open ∧ g < s.next then s.greenlet_throw g else none
  | .stop => if s.open then some { s with state := .L_STOP } else none
  | .handle_error => if s.open then handle_error s else none
  | .returned =>
    match s.pc s.current with
    | .run_on_main_task caller => run_on_main_task_returned s caller
    | .internal_io_trampoline _ | .loop_switch => some (s.goto s.current .code)
    | .suspend_thread => (s.cb s.current).bind (resumed s)
    | _ => none
  | .code_ended exc => if s.pc s.current = .code then code_ended s exc else none
  | .enter => if s.pc s.current = .new then (s.cb s.current).bind (entered s) else none
  | .test work interrupted => if s.pc s.current = .testing then test s work interrupted else none
  | .call => if s.pc s.current = .passing then some (s.goto s.current .code) else none
  | .pass_ended exc abort =>
    if s.pc s.current = .passing then (s.cb s.current).bind (pass_ended s exc abort)
    else none

end Jega.Autostart
