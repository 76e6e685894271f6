import Jega.Loop.Fifo

/-!
# Jega.SelfPipe.Model — calls from other threads and the self-pipe

`call_soon_threadsafe` of `loop.py` and the pair of sockets behind it, over the
scheduler of `Jega.Loop`. Any number of threads schedule callbacks; the loop's
thread runs the passes, and in `picoev_loop_once` it lets go of the interpreter
lock and is stuck in `epoll_wait` until something is ready or time is up. A
label is what one thread does without giving the lock away.

The field `waits` is history and no function reads it.
-/

namespace Jega.SelfPipe

open Loop (Pass Pc)

variable {κ : Type}

/-- A thread; 0 runs the loop. -/
abbrev Thread := Nat

/-- How `_csock.send(b'x')` ends: the other two exceptions are caught. -/
inductive Send where
  | sent
  | BlockingIOError
  | InterruptedError
deriving DecidableEq, Repr

structure St (κ : Type) where
  loop : Loop.St κ
  /-- The bytes that `_ssock` has to read. -/
  buffered : Nat
  /-- The threads that have scheduled a callback and are to write. -/
  writing : List Thread
  /-- The pass that is in `epoll_wait`. -/
  waiting : Option Nat
  /-- The reports of `_ssock` that `_read_from_self` was not called for yet. -/
  reported : Nat
  waits : Nat

/-- `_make_self_pipe`, on a loop that counts its reader. -/
def init (κ : Type) (block : Nat → Hid) (now : Int) : St κ where
  loop := { Loop.init κ block now with ioactivecnt := 1 }
  buffered := 0
  writing := []
  waiting := none
  reported := 0
  waits := 0

/-- The test before `picoev_loop_once` in `internal_run_once`. -/
def polls (loop : Loop.St κ) : Prop := loop.scheduled.size > 0 ∨ loop.ioactivecnt > 1

instance (loop : Loop.St κ) : Decidable (polls loop) := inferInstanceAs (Decidable (_ ∨ _))

/-- The pass that a round takes to `epoll_wait`. -/
def enters (loop loop' : Loop.St κ) : Loop.Act κ → Option Nat
  | .entered i _ | .next i _ =>
    if loop'.passes.length = loop.passes.length ∧
        (loop'.passes[i]?).map Pass.pc = some .polling ∧ polls loop' then some i
    else none
  | _ => none

inductive Act (κ : Type) where
  /-- Code of the loop's thread. -/
  | loop (a : Loop.Act κ)
  /-- Time passes or the C handler of a signal runs, whatever the threads do. -/
  | time (now : Int)
  | signal (signum : Int)
  /-- The first half of `call_soon_threadsafe`. -/
  | call_soon_threadsafe (t : Thread) (cb : κ)
  /-- The first half of `_add_callback_signalsafe`, which runs in the loop's thread. -/
  | _add_callback_signalsafe (handle : Hid)
  /-- The second half of either. -/
  | _write_to_self (t : Thread) (r : Send)
  /-- The plain `call_soon`, called in another thread. -/
  | call_soon (t : Thread) (cb : κ)
  /-- A signal writes to the descriptor of `signal.set_wakeup_fd`. -/
  | wakeup_fd
  /-- `epoll_wait` returns; `ready` is whether it reports `_ssock`. -/
  | epoll_wait (ready : Bool)
  | _read_from_self

/-- Thread 0 has the lock and is in no call of its own. -/
def St.free (s : St κ) : Prop := s.waiting = none ∧ 0 ∉ s.writing

instance (s : St κ) : Decidable s.free := inferInstanceAs (Decidable (_ ∧ _))

/-- A thread may run: the loop's thread not while it is in `epoll_wait`. -/
def St.runs (s : St κ) (t : Thread) : Prop := t = 0 → s.waiting = none

instance (s : St κ) (t : Thread) : Decidable (s.runs t) := inferInstanceAs (Decidable (_ → _))

/-- A callback is scheduled, and the thread is to write. -/
def scheduled (s : St κ) (t : Thread) (a : Loop.Act κ) : Option (St κ) :=
  (Loop.step s.loop a).map fun loop => { s with loop := loop, writing := t :: s.writing }

/-- The loop's thread goes on, maybe into `epoll_wait`. -/
def looped (s : St κ) (a : Loop.Act κ) : Option (St κ) :=
  (Loop.step s.loop a).map fun loop =>
    match enters s.loop loop a with
    | some i => { s with loop := loop, waiting := some i, waits := s.waits + 1 }
    | none => { s with loop := loop }

def step (s : St κ) : Act κ → Option (St κ)
  | .loop a => if s.free then looped s a else none
  | .time now => (Loop.step s.loop (.time now)).map fun loop => { s with loop := loop }
  | .signal signum => (Loop.step s.loop (.signal signum)).map fun loop => { s with loop := loop }
  | .call_soon_threadsafe t cb => if s.runs t then scheduled s t (.call_soon cb) else none
  | ._add_callback_signalsafe handle =>
    if s.runs 0 then scheduled s 0 (.add_callback handle) else none
  | ._write_to_self t r =>
    if s.runs t ∧ t ∈ s.writing then
      let s := { s with writing := s.writing.erase t }
      match r with
      | .sent => some { s with buffered := s.buffered + 1 }
      -- the buffer is full, so there is something to read
      | .BlockingIOError => if 0 < s.buffered then some s else none
      | .InterruptedError => some s
    else none
  | .call_soon t cb =>
    if t ≠ 0 then (Loop.step s.loop (.call_soon cb)).map fun loop => { s with loop := loop }
    else none
  | .wakeup_fd => some { s with buffered := s.buffered + 1 }
  | .epoll_wait ready =>
    if s.waiting ≠ none ∧ (ready = true → 0 < s.buffered) then
      some { s with waiting := none, reported := if ready then s.reported + 1 else s.reported }
    else none
  | ._read_from_self =>
    if s.free ∧ 0 < s.reported then
      some { s with buffered := s.buffered - 1, reported := s.reported - 1 }
    else none

end Jega.SelfPipe
