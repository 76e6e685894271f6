import Jega.Io.Private
import Jega.Picoev.Calm
import Jega.Picoev.Interest

/-!
# Jega.Reactor.Model — `loop.c` on picoev

The waits, readers and writers of `Jega.Io` and the loop of `Jega.Picoev` side by
side. A step of the one makes at most one call into the other: a function of
`loop.c` registers or deletes a descriptor, and picoev calls the handler in the
slot of a descriptor, whatever is in there by then. Between picoev's call and
the handler's own one nothing else runs; `calling` is the call.

The handler for an event is looked up if the descriptor is registered, the one for
a timeout in any case.
-/

namespace Jega.Reactor

open Io (Fd Events Revents Callable active)

structure St where
  io : Io.St
  ev : Picoev.St
  calling : Option (Fd × Revents)

/-- A loop with no registration, at the time `base_time`. -/
def init (greenlet parent : Gid) (base_time now : Int) : St :=
  ⟨Io.init greenlet parent, Picoev.picoev_create_loop base_time now, none⟩

/-! ## Calls into picoev -/

/-- The end of `internal_io_trampoline`. -/
def resume_call (s : Io.St) (g : Gid) : Option Picoev.Act :=
  match s.loc g with
  | .other => none
  | .trampoline fd _ _ => some (.del fd)

/-- `register_fd_callback`. -/
def register_call (s : Io.St) (fd : Fd) (event : Events)
    (read_callback write_callback : Option Callable) : Option Picoev.Act :=
  if active s fd then
    match s.mem (s.fds fd).cb_arg with
    | .callback_arg orig_read orig_write =>
      (Io.merge_callback_arg orig_read read_callback write_callback orig_write).map fun _ =>
        .set_events fd ⟨true, true⟩
    | _ => none
  else some (.add fd event 0)

/-- The two handlers. -/
def handler_call (s : Io.St) (fd : Fd) (events : Revents) : Option Picoev.Act :=
  match (s.fds fd).callback, s.mem (s.fds fd).cb_arg with
  | .trampoline_switch_callback, .switch_arg greenlet _ =>
    if events.timeout then resume_call s s.loop.parent
    else if events.write || events.read then resume_call s greenlet
    else none
  | .fd_callback, .callback_arg _ _ =>
    if events.timeout || events.read || events.write then none else some (.del fd)
  | _, _ => none

/-! ## Handlers -/

/-- The handler in a slot. It has no defined result if its argument is freed. -/
def handler (s : Io.St) (fd : Fd) (events : Revents) : Option Io.St :=
  match (s.fds fd).callback, s.mem (s.fds fd).cb_arg with
  | .trampoline_switch_callback, .switch_arg greenlet timeout_exc =>
    some (Io.trampoline_switch_callback s greenlet timeout_exc events)
  | .fd_callback, .callback_arg _ _ => some (Io.fd_callback s fd (s.fds fd).cb_arg events)
  | _, _ => none

/-! ## The system -/

inductive Act where
  /-- The greenlets. -/
  | io (a : Io.Act)
  /-- The kernel, and the loop up to the call of a handler. -/
  | ev (a : Picoev.Act)
  /-- The handler that picoev calls. -/
  | handler
deriving DecidableEq

/-- What picoev does by itself. -/
def own : Picoev.Act → Bool
  | .add _ _ _ | .del _ | .set_events _ _ | .set_timeout _ _ => false
  | _ => true

def io_step (s : St) : Act → Option Io.St
  | .io (.report _ _) => none
  | .io a => if s.calling = none then Io.step s.io a else none
  | .ev a => if s.calling = none ∧ own a then some s.io else none
  | .handler => s.calling.bind fun (fd, events) => handler s.io fd events

/-- What the step is for picoev. -/
def call (s : St) : Act → Option Picoev.Act
  | .io (.io_trampoline _ fd event timeout _) => some (.add fd event timeout)
  | .io (.add_reader fd cb) => register_call s.io fd ⟨true, false⟩ (some cb) none
  | .io (.add_writer fd cb) => register_call s.io fd ⟨false, true⟩ none (some cb)
  | .io (.report _ _) => none
  | .io (.throw g _) | .io (.switch g _) => resume_call s.io g
  | .ev a => some a
  | .handler => s.calling.bind fun (fd, events) => handler_call s.io fd events

def calls (s : St) : Act → Option (Fd × Revents)
  | .ev a => Picoev.called s.ev a
  | _ => none

def step (c : Picoev.Config) (s : St) (a : Act) : Option St :=
  (io_step s a).bind fun io =>
    (Trace.move (Picoev.step c) s.ev (call s a)).map fun ev => ⟨io, ev, calls s a⟩

end Jega.Reactor
