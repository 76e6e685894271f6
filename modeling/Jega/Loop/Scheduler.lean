import Jega.Loop.Model
import Jega.Loop.Queue
import Jega.Loop.Heapq
import Jega.Trace.Rules
import Mathlib.Algebra.Group.Int.Defs
import Mathlib.Tactic.Simps.Basic

/-!
# Jega.Loop.Scheduler — timers, the two queues and the passes of the loop

The scheduling half of `loop.c` with `timer.c`, over the ring of `queue.c` and
the heap of `heapq.c`. Allocation succeeds, and the C stack has room for the copy
that `reindex_queue` makes (`none`, but for `fire_timers`, which takes the room
as a parameter); a step that would not return is not enabled.

A call of `LoopObject_run` or `run_once` is a pass. Callbacks may start passes
of their own, so there can be any number of them; a label is one round of one
of its loops, and between two rounds any other code may run. What the other
code does to the clock, the signals and `ioactivecnt` is part of the labels.

The fields `log` and `wrapped` are history and no function reads them.
-/

namespace Jega.Loop

variable {κ : Type}

/-- `TimerObject`; a `HandleObject` has the fields up to `seconds` only. -/
structure TimerObject (κ : Type) extends HandleObject κ where
  seconds : Int
  interval : Int
  /-- The source's `repeat`. -/
  repeats : Bool

/-- Who made the call that is in `internal_run_once`. -/
inductive Caller where
  | run
  | run_once
deriving DecidableEq, Repr

/-- Where a pass stands. -/
inductive Pc where
  /-- In the switch to `suspend_thread`. -/
  | starting
  /-- At the `while` of `LoopObject_run`. -/
  | testing
  /-- In the first `call_fork_loop`. -/
  | entering
  /-- At the `while` of `fire_pendings`. -/
  | firing
  /-- In the switch or call made for an entry. -/
  | fired (item : Hid)
  /-- In `picoev_loop_once` or the second `call_fork_loop`. -/
  | polling
deriving DecidableEq, Repr

structure Pass where
  caller : Caller
  pc : Pc
deriving DecidableEq, Repr

/-- The entry a pass has shifted and not finished firing. -/
def Pass.item (p : Pass) : Option Hid :=
  match p.pc with
  | .fired item => some item
  | _ => none

/-- An entry as `fire_pendings` shifted it, and what came of it. -/
structure Shift (κ : Type) where
  item : Hid
  object : TimerObject κ
  dead : Bool
  fired : Fired κ
  time : Int

/-- One thing that happened to a handle or a timer. -/
inductive Event (κ : Type) where
  /-- `schedule_timer` queued it. -/
  | push (item : Hid)
  /-- `fire_timers` moved it from the heap to the queue. -/
  | expire (timer : Hid)
  /-- `fire_timers` dropped it from the heap. -/
  | drop (timer : Hid)
  /-- `fire_pendings` shifted it. -/
  | shift (d : Shift κ)
  /-- `fire_timer` scheduled it once more. -/
  | rearm (timer : Hid)
  | cancel (timer : Hid)

structure St (κ : Type) where
  /-- The handles and timers, by address. -/
  objs : Hid → TimerObject κ
  next : Hid
  scheduled : heapq_t Hid
  pendings : queue_t Hid
  activecnt : UInt32
  ioactivecnt : UInt32
  state : loop_state
  catch_signal : Int
  /-- What `time(NULL)` gives. -/
  clock : Int
  passes : List Pass
  log : List (Event κ)
  /-- `activecnt` has wrapped. -/
  wrapped : Bool

/-- The key of the heap. -/
def St.seconds (s : St κ) (timer : Hid) : Int := (s.objs timer).seconds

/-- `LoopObject_init`. -/
def init (κ : Type) (block : Nat → Hid) (now : Int) : St κ where
  objs := fun _ => ⟨⟨.Handle, none, none, false, false⟩, 0, 0, false⟩
  next := 0
  scheduled := init_heapqueue block
  pendings := init_queue block 1024
  activecnt := 0
  ioactivecnt := 0
  state := .L_STOP
  catch_signal := 0
  clock := now
  passes := []
  log := []
  wrapped := false

namespace St

/-- `activecnt++`. -/
@[simps] def incr (s : St κ) : St κ :=
  { s with activecnt := s.activecnt + 1, wrapped := s.wrapped || s.activecnt + 1 == 0 }

/-- `activecnt--`. -/
@[simps] def decr (s : St κ) : St κ :=
  { s with activecnt := s.activecnt - 1, wrapped := s.wrapped || s.activecnt == 0 }

@[simps] def note (s : St κ) (e : Event κ) : St κ := { s with log := s.log ++ [e] }

@[simps] def set_obj (s : St κ) (o : Hid) (obj : TimerObject κ) : St κ :=
  { s with objs := Function.update s.objs o obj }

/-- Pass `i` goes on at `pc`. -/
@[simps] def goto (s : St κ) (i : Nat) (caller : Caller) (pc : Pc) : St κ :=
  { s with passes := s.passes.set i ⟨caller, pc⟩ }

/-- Pass `i` returns. -/
@[simps] def leave (s : St κ) (i : Nat) : St κ := { s with passes := s.passes.eraseIdx i }

end St

/-! ## Scheduling -/

/-- `HandleObject_new`. -/
def HandleObject_new (callback : Option κ) (greenlet : Option Gid) : TimerObject κ :=
  ⟨⟨.Handle, callback, greenlet, false, false⟩, 0, 0, false⟩

/-- `TimerObject_new` at the time `now`. -/
def TimerObject_new (now seconds : Int) (callback : Option κ) (greenlet : Option Gid) :
    TimerObject κ :=
  ⟨⟨.Timer, callback, greenlet, false, false⟩, if seconds > 0 then now + seconds else 0, seconds,
    false⟩

/-- `make_handle`. -/
def make_handle (s : St κ) (seconds : Int) (callback : Option κ) (greenlet : Option Gid) :
    St κ × Hid :=
  let obj :=
    if seconds > 0 then TimerObject_new s.clock seconds callback greenlet
    else HandleObject_new callback greenlet
  ({ s.set_obj s.next obj with next := s.next + 1 }, s.next)

/-- `schedule_timer`. -/
def schedule_timer (s : St κ) (o : Hid) : Option (St κ) :=
  match (s.objs o).type with
  | .Handle =>
    (queue_push none true s.pendings o).map fun r => ({ s with pendings := r.1 }.note (.push o)).incr
  | .Timer =>
    (heappush true s.seconds s.scheduled o).map fun r => { s with scheduled := r.1 }.incr

/-- `internal_loop_schedule_call`. -/
def internal_loop_schedule_call (s : St κ) (seconds : Int) (cb : Option κ)
    (greenlet : Option Gid) : Option (St κ) :=
  let r := make_handle s seconds cb greenlet
  schedule_timer r.1 r.2

/-- `LoopObject_call_later`. -/
def call_later (s : St κ) (seconds : Int) (cb : κ) : Option (St κ) :=
  if seconds < 0 then some s -- "seconds value out of range"
  else internal_loop_schedule_call s seconds (some cb) none

/-- `LoopObject_call_repeatedly`. For a `HandleObject` the store of `repeat`
goes past the end of the object, and nothing reads it there. -/
def call_repeatedly (s : St κ) (seconds : Int) (cb : κ) : Option (St κ) :=
  if seconds < 0 then some s
  else
    (internal_loop_schedule_call s seconds (some cb) none).map fun s' =>
      s'.set_obj s.next { s'.objs s.next with repeats := true }

/-- `TimerObject_cancel`, and the stores of `cancelled` in other files. -/
def cancel (s : St κ) (timer : Hid) : St κ :=
  (s.set_obj timer { s.objs timer with cancelled := true }).note (.cancel timer)

/-- `loop_set_timeout`. -/
def loop_set_timeout (s : St κ) (seconds : Int) (throw : κ) : Option (St κ) :=
  (internal_loop_schedule_call s seconds (some throw) none).map fun s' =>
    if seconds = 0 then cancel s' s.next else s'

/-! ## Firing -/

/-- The loop of `fire_timers`; every round pops a timer. -/
def fire_timers_loop (stack : Stack) (now : Int) : Nat → St κ → Option (St κ)
  | 0, s => some s
  | fuel + 1, s =>
    if s.scheduled.size > 0 ∧ s.state = .L_RUNNING then
      let timer := s.scheduled.heap 0
      let popped := { s with scheduled := (heappop s.seconds s.scheduled).2 }
      if (s.objs timer).cancelled then
        fire_timers_loop stack now fuel (popped.decr.note (.drop timer))
      else if (s.objs timer).seconds ≤ now then
        (queue_push stack true s.pendings timer).bind fun r =>
          fire_timers_loop stack now fuel ({ popped with pendings := r.1 }.note (.expire timer))
      else some s
    else some s

/-- `fire_timers`. -/
def fire_timers (stack : Stack) (s : St κ) : Option (St κ) :=
  fire_timers_loop stack s.clock s.scheduled.size s

/-- `fire_handle` and `fire_timer` up to the switch or call. -/
def fire (dead : Bool) (o : TimerObject κ) : TimerObject κ × Fired κ :=
  let fired :=
    match o.type with
    | .Handle => fire_handle (fun _ => dead) o.toHandleObject
    | .Timer => fire_timer (fun _ => dead) o.toHandleObject
  ({ o with toHandleObject := fired.1 }, fired.2)

/-- `fire_timer` after the switch or call: a repeating timer is armed again. -/
def fire_returned (s : St κ) (item : Hid) : Option (St κ) :=
  let timer := s.objs item
  if timer.type = .Timer ∧ timer.repeats then
    schedule_timer
      ((s.set_obj item
        { timer with called := false, cancelled := false, seconds := s.clock + timer.interval }).note
          (.rearm item)) item
  else some s

def SIGINT : Int := 2

/-- `check_stop_signal`. -/
def check_stop_signal (s : St κ) : St κ × Bool :=
  if s.state = .L_STOP then (s, true)
  else if s.catch_signal = SIGINT then ({ s with state := .L_STOP, catch_signal := 0 }, true)
  else (s, false)

/-- `internal_run_once` returns `NULL`; `LoopObject_run` goes to `error`. -/
def run_failed (s : St κ) (i : Nat) : Caller → St κ
  | .run => { s with state := .L_STOP }.leave i
  | .run_once => s.leave i

/-- The end of a round of `fire_pendings`: the count and the two early exits. -/
def round_ended (s : St κ) (i : Nat) (caller : Caller) (exc : Bool) : St κ :=
  let s := s.decr
  if exc then run_failed s i caller
  else
    let r := check_stop_signal s
    if r.2 then run_failed r.1 i caller else r.1.goto i caller .firing

/-- An entry is shifted and fired. A switch or call leaves the pass in it. -/
def fire_item (s : St κ) (i : Nat) (caller : Caller) (item : Hid) (dead : Bool) : Option (St κ) :=
  let object := s.objs item
  let r := fire dead object
  let s := (s.set_obj item r.1).note (.shift ⟨item, object, dead, r.2, s.clock⟩)
  match r.2 with
  | .nothing =>
    -- the greenlet is dead, or a flag of the entry stopped it
    if object.cancelled || object.called then some (round_ended s i caller false)
    else (fire_returned s item).map fun s => round_ended s i caller false
  | _ => some (s.goto i caller (.fired item))

/-- A round of `fire_pendings`. -/
def fire_pendings_next (s : St κ) (i : Nat) (caller : Caller) (dead : Bool) : Option (St κ) :=
  if s.state = .L_STOP then some (s.goto i caller .polling)
  else
    match queue_shift s.pendings with
    | (none, _) => some (s.goto i caller .polling)
    | (some item, pendings) => fire_item { s with pendings := pendings } i caller item dead

/-! ## Passes -/

/-- `internal_run_once` from its first `call_fork_loop` to `fire_pendings`. -/
def run_once_entered (s : St κ) (i : Nat) (caller : Caller) : Option (St κ) :=
  (fire_timers none s).map fun s =>
    if s.pendings.size > 0 then s.goto i caller .firing else s.goto i caller .polling

/-- The `while` of `LoopObject_run`. -/
def run_test (s : St κ) (i : Nat) : St κ :=
  if s.state ≠ .L_STOP ∧ (s.activecnt > 0 ∨ s.ioactivecnt > 1) then s.goto i .run .entering
  else { s with state := .L_STOP }.leave i

/-- `internal_run_once` ends; `exc` is `PyErr_Occurred()`. -/
def run_once_ended (s : St κ) (i : Nat) (caller : Caller) (exc : Bool) : St κ :=
  match caller with
  | .run_once => s.leave i
  | .run =>
    let r := check_stop_signal s
    if exc then run_failed r.1 i .run else r.1.goto i .run .testing

inductive Act (κ : Type) where
  | call_soon (cb : κ)
  | call_later (seconds : Int) (cb : κ)
  | call_repeatedly (seconds : Int) (cb : κ)
  | set_timeout (seconds : Int) (throw : κ)
  /-- `loop_sleep` of a greenlet, up to its switch. -/
  | sleep (seconds : Int) (g : Gid)
  /-- A handle is made and not scheduled. -/
  | make_handle (cb : κ)
  | add_callback (o : Hid)
  | cancel (timer : Hid)
  | stop
  /-- Other code sets the state to `L_RUNNING`. -/
  | running
  /-- `sigint_cb`. -/
  | signal (signum : Int)
  /-- The clock shows `now`. -/
  | time (now : Int)
  /-- The I/O half of the loop changes its count. -/
  | io (ioactivecnt : UInt32)
  /-- `LoopObject_run`; `suspended` is whether `suspend_thread` is set. -/
  | run (suspended : Bool)
  | run_once (suspended : Bool)
  /-- The switch to `suspend_thread` returns. -/
  | started (i : Nat) (exc : Bool)
  | test (i : Nat)
  /-- The first `call_fork_loop` returns. -/
  | entered (i : Nat) (ok : Bool)
  /-- A round of `fire_pendings`. -/
  | next (i : Nat) (dead : Bool)
  /-- The switch or call made for an entry returns. -/
  | returned (i : Nat) (exc : Bool)
  /-- The second `call_fork_loop` returns. -/
  | polled (i : Nat) (ok exc : Bool)

/-- A new pass of `LoopObject_run` or `run_once`. -/
def start (s : St κ) (caller : Caller) (suspended : Bool) : St κ :=
  let s := if caller = .run then { s with state := .L_RUNNING } else s
  let pc := if suspended then .starting else if caller = .run then .testing else .entering
  { s with passes := s.passes ++ [⟨caller, pc⟩] }

def step (s : St κ) : Act κ → Option (St κ)
  | .call_soon cb => internal_loop_schedule_call s 0 (some cb) none
  | .call_later seconds cb => call_later s seconds cb
  | .call_repeatedly seconds cb => call_repeatedly s seconds cb
  | .set_timeout seconds throw => loop_set_timeout s seconds throw
  | .sleep seconds g => internal_loop_schedule_call s seconds none (some g)
  | .make_handle cb => some (make_handle s 0 (some cb) none).1
  | .add_callback o => if o < s.next then schedule_timer s o else none
  | .cancel timer => if timer < s.next then some (cancel s timer) else none
  | .stop => some { s with state := .L_STOP }
  | .running => some { s with state := .L_RUNNING }
  | .signal signum =>
    some { s with catch_signal := if s.catch_signal = 0 then signum else s.catch_signal }
  | .time now => some { s with clock := now }
  | .io ioactivecnt => some { s with ioactivecnt := ioactivecnt }
  | .run suspended => some (start s .run suspended)
  | .run_once suspended => some (start s .run_once suspended)
  | .started i exc =>
    match s.passes[i]? with
    | some ⟨.run, .starting⟩ => some (if exc then s.leave i else s.goto i .run .testing)
    | some ⟨.run_once, .starting⟩ => some (s.goto i .run_once .entering)
    | _ => none
  | .test i =>
    match s.passes[i]? with
    | some ⟨.run, .testing⟩ => some (run_test s i)
    | _ => none
  | .entered i ok =>
    match s.passes[i]? with
    | some ⟨caller, .entering⟩ =>
      if ok then run_once_entered s i caller else some (run_failed s i caller)
    | _ => none
  | .next i dead =>
    match s.passes[i]? with
    | some ⟨caller, .firing⟩ => fire_pendings_next s i caller dead
    | _ => none
  | .returned i exc =>
    match s.passes[i]? with
    | some ⟨caller, .fired item⟩ =>
      (fire_returned s item).map fun s => round_ended s i caller exc
    | _ => none
  | .polled i ok exc =>
    match s.passes[i]? with
    | some ⟨caller, .polling⟩ =>
      some (if ok then run_once_ended s i caller exc else run_failed s i caller)
    | _ => none

end Jega.Loop
