import Jega.Loop.Model
import Jega.Io.Picoev
import Jega.Trace.Rules

/-!
# Jega.Io.Trampoline — waiting for a descriptor

The I/O half of `loop.c` as a system of any number of greenlets and descriptors
on one loop: `internal_io_trampoline`, cut at its switch, the reader and writer
callbacks of `register_fd_callback`, and the two picoev handlers. Handlers run
in the loop's greenlet, which is the only one that polls.

The loop is not in `L_STOP` when a greenlet comes here: with its greenlet alive
`ready_trampoline` would run it first, with the caller in the switch of
`run_on_main_task`. `Jega.Stream.Model` has that branch for the two waits of a
transfer, and `Jega.Autostart.Model` for any wait, with all that may come of it.
Descriptors are those of picoev's table, from 0 to `MAX_FD` less one; with another
one the table is accessed out of its bounds.

The two kinds of callback argument are cells of one memory, because
`merge_callback_arg` reads whatever the slot points to. Reading a freed cell has
no defined result, and the step is then not enabled. The process does not fork.

The fields `received` and `clobbered` are history and no function reads them.
-/

namespace Jega.Io

/-- A file descriptor. -/
abbrev Fd := Nat

/-- A callback argument, by address. -/
abbrev Addr := Nat

/-- A Python callable, by identity. -/
abbrev Callable := Nat

/-- What a callback argument points to. -/
inductive Cell where
  | freed
  | switch_arg (greenlet : Gid) (timeout_exc : Exc)
  | callback_arg (read_callback write_callback : Option Callable)
deriving DecidableEq, Repr

/-- The two handlers of `loop.c`. -/
inductive Handler where
  | trampoline_switch_callback
  | fd_callback
deriving DecidableEq, Repr

/-- Where a greenlet is suspended, as far as descriptors are concerned. -/
inductive Where where
  | other
  | trampoline (fd : Fd) (event : Events) (arg : Addr)
deriving DecidableEq, Repr

structure LoopObject where
  greenlet : Gid
  parent : Gid
  state : loop_state
  ioactivecnt : UInt32
deriving DecidableEq, Repr

structure St where
  loop : LoopObject
  fds : Fd → picoev_fd Handler Addr
  mem : Addr → Cell
  next : Addr
  loc : Gid → Where
  /-- What each greenlet was resumed with, in order. -/
  received : List (Gid × Resumption)
  /-- The descriptors whose registration a wait of another owner replaced or
  removed. -/
  clobbered : List Fd

/-- The identifier of the loop among picoev's. -/
def loop_id : Nat := 1

/-- A running loop with no registration. -/
def init (greenlet parent : Gid) : St where
  loop := ⟨greenlet, parent, .L_RUNNING, 1⟩
  fds := fun _ => ⟨.fd_callback, 0, 0, ⟨false, false⟩, 0⟩
  mem := fun _ => .freed
  next := 0
  loc := fun _ => .other
  received := []
  clobbered := []

def active (s : St) (fd : Fd) : Bool := picoev_is_active loop_id (s.fds fd)

/-! ## `internal_io_trampoline` -/

/-- `internal_io_trampoline` up to its switch. -/
def internal_io_trampoline (s : St) (current : Gid) (fd : Fd) (event : Events) (timeout : Nat)
    (exception : Option Exc) : St :=
  let switch_arg := s.next
  { s with
    mem := Function.update s.mem switch_arg
      (.switch_arg current (exception.getD (.TimeoutException none)))
    next := s.next + 1
    fds := Function.update s.fds fd
      (picoev_add loop_id event timeout .trampoline_switch_callback switch_arg)
    loop :=
      { s.loop with
        -- `picoev_is_active` only decides what is counted
        ioactivecnt := if active s fd then s.loop.ioactivecnt else s.loop.ioactivecnt + 1
        state := .L_RUNNING }
    loc := Function.update s.loc current (.trampoline fd event switch_arg)
    clobbered := if active s fd then s.clobbered ++ [fd] else s.clobbered }

/-- `internal_io_trampoline` after its switch, which returned a value or raised. -/
def trampoline_resumed (s : St) (current : Gid) (fd : Fd) (switch_arg : Addr) (r : Resumption) : St :=
  { s with
    mem := Function.update s.mem switch_arg .freed
    fds := Function.update s.fds fd (picoev_del (s.fds fd))
    loop := { s.loop with ioactivecnt := s.loop.ioactivecnt - 1 }
    loc := Function.update s.loc current .other
    received := s.received ++ [(current, r)]
    clobbered :=
      if active s fd ∧ (s.fds fd).cb_arg ≠ switch_arg then s.clobbered ++ [fd] else s.clobbered }

/-- A switch or a throw into `g`. -/
def resume (s : St) (g : Gid) (r : Resumption) : St :=
  match s.loc g with
  | .other => { s with received := s.received ++ [(g, r)] }
  | .trampoline fd _ switch_arg => trampoline_resumed s g fd switch_arg r

/-! ## Readers and writers -/

/-- `merge_callback_arg` of a new argument with the one in the slot; `none` for
a freed cell. The greenlet and the loop of a `switch_arg` lie where it looks
for the callbacks, so none of them reads as `NULL`. -/
def merge_callback_arg (orig read_callback write_callback : Option Callable) (orig_write : Option Callable) :
    Option (Option Callable × Option Callable) :=
  match read_callback, write_callback with
  -- "Not allow overwrite"
  | some cb, _ => if orig = none then some (some cb, orig_write) else none
  | none, some cb => if orig_write = none then some (orig, some cb) else none
  | none, none => none

/-- `register_fd_callback` with an argument that has one of the callbacks. -/
def register_fd_callback (s : St) (fd : Fd) (event : Events)
    (read_callback write_callback : Option Callable) : Option St :=
  let carg := s.next
  let s' :=
    { s with
      mem := Function.update s.mem carg (.callback_arg read_callback write_callback)
      next := s.next + 1 }
  if active s fd then
    let orig_carg := (s.fds fd).cb_arg
    match s.mem orig_carg with
    | .freed => none
    -- no callback reads as `NULL`, so nothing is merged
    | .switch_arg _ _ => some s'
    | .callback_arg orig_read orig_write =>
      match merge_callback_arg orig_read read_callback write_callback orig_write with
      | none => some s'
      | some (read, write) =>
        some
          { s' with
            mem := Function.update s'.mem orig_carg (.callback_arg read write)
            fds := Function.update s.fds fd (picoev_set_events (s.fds fd) ⟨true, true⟩) }
  else
    some
      { s' with
        fds := Function.update s.fds fd (picoev_add loop_id event 0 .fd_callback carg)
        loop := { s.loop with ioactivecnt := s.loop.ioactivecnt + 1 } }

/-- `LoopObject_add_reader`. -/
def LoopObject_add_reader (s : St) (fd : Fd) (cb : Callable) : Option St :=
  register_fd_callback s fd ⟨true, false⟩ (some cb) none

/-- `LoopObject_add_writer`. -/
def LoopObject_add_writer (s : St) (fd : Fd) (cb : Callable) : Option St :=
  register_fd_callback s fd ⟨false, true⟩ none (some cb)

/-! ## The handlers -/

/-- `internal_loop_handle_error` in the loop's greenlet, for an exception whose
type is not checked: the loop stops and its parent gets the exception. -/
def loop_handle_timeout_error (s : St) (exc : Exc) : St :=
  resume { s with loop := { s.loop with state := .L_STOP } } s.loop.parent (.throw exc)

/-- `trampoline_switch_callback`. -/
def trampoline_switch_callback (s : St) (greenlet : Gid) (timeout_exc : Exc) (events : Revents) : St :=
  if events.timeout then loop_handle_timeout_error s (PyErr_SetString timeout_exc)
  else if events.write || events.read then resume s greenlet (.value .empty_tuple)
  else s

/-- `fd_callback` up to the call of a callback. -/
def fd_callback (s : St) (fd : Fd) (carg : Addr) (events : Revents) : St :=
  if events.timeout || events.read || events.write then s
  else
    { s with
      fds := Function.update s.fds fd (picoev_del (s.fds fd))
      loop := { s.loop with ioactivecnt := s.loop.ioactivecnt - 1 }
      mem := Function.update s.mem carg .freed }

/-! ## The system -/

inductive Act where
  | io_trampoline (g : Gid) (fd : Fd) (event : Events) (timeout : Nat) (exception : Option Exc)
  | add_reader (fd : Fd) (cb : Callable)
  | add_writer (fd : Fd) (cb : Callable)
  /-- Picoev reports events of a registered descriptor. -/
  | report (fd : Fd) (events : Revents)
  /-- An exception is thrown into a greenlet. -/
  | throw (g : Gid) (e : Exc)
  /-- Some other code switches into a greenlet. -/
  | switch (g : Gid) (v : PyObj)
deriving DecidableEq, Repr

def step (s : St) : Act → Option St
  | .io_trampoline g fd event timeout exception =>
    -- "Cannot switch to MAINLOOP from MAINLOOP"
    if s.loc g = .other ∧ g ≠ s.loop.greenlet then
      some (internal_io_trampoline s g fd event timeout exception)
    else none
  | .add_reader fd cb => LoopObject_add_reader s fd cb
  | .add_writer fd cb => LoopObject_add_writer s fd cb
  | .report fd events =>
    if active s fd ∧ events.nonzero then
      match (s.fds fd).callback, s.mem (s.fds fd).cb_arg with
      | .trampoline_switch_callback, .switch_arg greenlet timeout_exc =>
        some (trampoline_switch_callback s greenlet timeout_exc events)
      | .fd_callback, .callback_arg _ _ => some (fd_callback s fd (s.fds fd).cb_arg events)
      | _, _ => none
    else none
  | .throw g e => some (resume s g (.throw e))
  | .switch g v => some (resume s g (.value v))

end Jega.Io
