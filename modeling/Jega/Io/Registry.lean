import Jega.Io.Trampoline
import Mathlib.Data.Fintype.Basic

/-!
# Jega.Io.Registry — the descriptors of the main loop and `ioactivecnt`

Every party of `loop.c` that registers a descriptor, as a system of any number
of greenlets on one loop: readers and writers, `internal_io_trampoline` cut at
its switch, `add_event` and `del_event`, and the loop that starts again after a
fork. What a handler calls is an action of its own, and so is a greenlet that is
resumed, whoever does it; `fd_error` is the branch of `fd_callback` that
unregisters its descriptor.

One slot holds arguments of three kinds, and `picoev_del` leaves it there. Code
that takes one kind for another, or reads a freed one, finds some callbacks or
none: the action says which (`garbage`), and what it writes there is lost.

Descriptors are those of picoev's table, from 0 to `MAX_FD` less one. `loop.c` tests
for negative ones only, and picoev asserts the range; without asserts it reads and
writes past its table. No action has such a descriptor.
-/

namespace Jega.Io.Registry

/-- The slots of `picoev.fds`. -/
abbrev MAX_FD : Nat := 4096

/-- A descriptor that picoev has a slot for. -/
abbrev Slot := Fin MAX_FD

/-- The two callbacks of an argument, `none` for `NULL`. -/
abbrev Callbacks := Option Callable × Option Callable

/-- What the argument of a slot points to. -/
inductive Cell where
  | freed
  | callback_arg (read_callback write_callback : Option Callable)
  | switch_arg (greenlet : Gid)
  | LoopObject
deriving DecidableEq, Repr

inductive Handler where
  | trampoline_switch_callback
  | fd_callback
  | process_callback
deriving DecidableEq, Repr

structure St where
  fds : Slot → picoev_fd (Option Handler) Addr
  ioactivecnt : UInt32
  postfork : Bool
  /-- The descriptor of the self-pipe. -/
  ssock : Slot
  mem : Addr → Cell
  next : Addr
  /-- The greenlets suspended in `internal_io_trampoline`, with its descriptor
  and its `switch_arg`. -/
  waits : Gid → Option (Slot × Addr)

/-- `NULL`, the argument of a slot that was never used. -/
def NULL : Addr := 0

/-- The loop, which `add_event` is given as an argument. -/
def loop : Addr := 1

/-- The memory of `picoev_init`. -/
def picoev_init : Slot → picoev_fd (Option Handler) Addr := fun _ =>
  ⟨none, NULL, 0, ⟨false, false⟩, 0⟩

def active (s : St) (fd : Slot) : Bool := picoev_is_active loop_id (s.fds fd)

/-- `_read_from_self`. -/
def read_from_self : Callable := 0

/-! ## Readers and writers -/

/-- The callbacks read from an argument. -/
def callbacks (mem : Addr → Cell) (garbage : Callbacks) (carg : Addr) : Callbacks :=
  match mem carg with
  | .callback_arg read_callback write_callback => (read_callback, write_callback)
  | _ => garbage

/-- The callbacks written to an argument. -/
def set_callbacks (mem : Addr → Cell) (carg : Addr) (cbs : Callbacks) : Addr → Cell :=
  match mem carg with
  | .callback_arg _ _ => Function.update mem carg (.callback_arg cbs.1 cbs.2)
  | _ => mem

/-- `picoev_del`, and one descriptor less is counted. -/
def del (s : St) (fd : Slot) : St :=
  { s with
    fds := Function.update s.fds fd (picoev_del (s.fds fd))
    ioactivecnt := s.ioactivecnt - 1 }

/-- `destroy_callback_arg`. -/
def destroy_callback_arg (s : St) (carg : Addr) : St :=
  { s with mem := Function.update s.mem carg .freed }

/-- `register_fd_callback` after its `call_fork_loop`, with an argument that has
one of the callbacks. -/
def register (s : St) (fd : Slot) (event : Events) (cbs garbage : Callbacks) : St :=
  let carg := s.next
  let s :=
    { s with
      mem := Function.update s.mem carg (.callback_arg cbs.1 cbs.2)
      next := s.next + 1 }
  if active s fd then
    let orig_carg := (s.fds fd).cb_arg
    let orig := callbacks s.mem garbage orig_carg
    match merge_callback_arg orig.1 cbs.1 cbs.2 orig.2 with
    | none => s
    | some merged =>
      { s with
        mem := set_callbacks s.mem orig_carg merged
        fds := Function.update s.fds fd (picoev_set_events (s.fds fd) ⟨true, true⟩) }
  else
    { s with
      fds := Function.update s.fds fd (picoev_add loop_id event 0 (some .fd_callback) carg)
      ioactivecnt := s.ioactivecnt + 1 }

/-- `LoopObject_remove_reader`. -/
def LoopObject_remove_reader (s : St) (fd : Slot) (garbage : Callbacks) : St :=
  if active s fd then
    let orig_carg := (s.fds fd).cb_arg
    let orig := callbacks s.mem garbage orig_carg
    if orig.2.isSome then
      { s with
        mem := set_callbacks s.mem orig_carg (none, orig.2)
        fds := Function.update s.fds fd (picoev_set_events (s.fds fd) ⟨false, true⟩) }
    else destroy_callback_arg (del s fd) orig_carg
  else s

/-- `LoopObject_remove_writer`. -/
def LoopObject_remove_writer (s : St) (fd : Slot) (garbage : Callbacks) : St :=
  if active s fd then
    let orig_carg := (s.fds fd).cb_arg
    let orig := callbacks s.mem garbage orig_carg
    if orig.1.isSome then
      { s with
        mem := set_callbacks s.mem orig_carg (orig.1, none)
        fds := Function.update s.fds fd (picoev_set_events (s.fds fd) ⟨true, false⟩) }
    else destroy_callback_arg (del s fd) orig_carg
  else s

/-! ## Fork -/

/-- `destroy_main_loop`; `picoev_deinit` destroys the arguments of all slots. -/
def destroy_main_loop (s : St) : St :=
  { s with
    fds := picoev_init
    ioactivecnt := 0
    mem := fun a => if a ≠ NULL ∧ ∃ fd, (s.fds fd).cb_arg = a then .freed else s.mem a }

/-- `_make_self_pipe`, with the descriptor that the system gives. -/
def make_self_pipe (s : St) (ssock : Slot) : St :=
  register { s with ssock := ssock } ssock ⟨true, false⟩ (some read_from_self, none) (none, none)

/-- `reset_loop`; the new loop has the identifier of the old one. -/
def reset_loop (s : St) (ssock : Slot) : St :=
  let s := destroy_main_loop s
  -- `_close_self_pipe`
  let s := LoopObject_remove_reader s s.ssock (none, none)
  make_self_pipe s ssock

/-- `call_fork_loop`. -/
def call_fork_loop (s : St) (ssock : Slot) : St :=
  if s.postfork then reset_loop { s with postfork := false } ssock else s

/-- `register_fd_callback`. -/
def register_fd_callback (s : St) (fd : Slot) (event : Events) (cbs garbage : Callbacks)
    (ssock : Slot) : St :=
  register (call_fork_loop s ssock) fd event cbs garbage

/-- `LoopObject_add_reader`. -/
def LoopObject_add_reader (s : St) (fd : Slot) (cb : Callable) (garbage : Callbacks)
    (ssock : Slot) : St :=
  register_fd_callback s fd ⟨true, false⟩ (some cb, none) garbage ssock

/-- `LoopObject_add_writer`. -/
def LoopObject_add_writer (s : St) (fd : Slot) (cb : Callable) (garbage : Callbacks)
    (ssock : Slot) : St :=
  register_fd_callback s fd ⟨false, true⟩ (none, some cb) garbage ssock

/-- `LoopObject_init` and `__init__`. -/
def init (ssock : Slot) : St :=
  make_self_pipe
    { fds := picoev_init
      ioactivecnt := 0
      postfork := false
      ssock := ssock
      mem := Function.update (fun _ => .freed) loop .LoopObject
      next := 2
      waits := fun _ => none } ssock

/-! ## Waits and events -/

/-- `picoev_add`, which never fails, and its count. -/
def add (s : St) (fd : Slot) (event : Events) (timeout : Nat) (callback : Handler) (cb_arg : Addr) :
    St :=
  { s with
    fds := Function.update s.fds fd (picoev_add loop_id event timeout (some callback) cb_arg)
    ioactivecnt := if active s fd then s.ioactivecnt else s.ioactivecnt + 1 }

/-- `internal_io_trampoline` up to its switch. -/
def internal_io_trampoline (s : St) (current : Gid) (fd : Slot) (event : Events) (timeout : Nat) :
    St :=
  let switch_arg := s.next
  add
    { s with
      mem := Function.update s.mem switch_arg (.switch_arg current)
      next := s.next + 1
      waits := Function.update s.waits current (some (fd, switch_arg)) }
    fd event timeout .trampoline_switch_callback switch_arg

/-- `internal_io_trampoline` after its switch, which returned a value or raised. -/
def trampoline_resumed (s : St) (current : Gid) (fd : Slot) (switch_arg : Addr) : St :=
  del
    { s with
      mem := Function.update s.mem switch_arg .freed
      waits := Function.update s.waits current none }
    fd

/-- A switch or a throw into a greenlet. -/
def resume (s : St) (g : Gid) : St :=
  match s.waits g with
  | none => s
  | some (fd, switch_arg) => trampoline_resumed s g fd switch_arg

/-- `add_event` of `process_callback`. -/
def add_event (s : St) (fd : Slot) (event : Events) (timeout : Nat) : St :=
  add s fd event timeout .process_callback loop

/-- `del_event`. -/
def del_event (s : St) (fd : Slot) : St := if active s fd then del s fd else s

/-- `fd_callback` when there is neither a timeout nor anything to read or
write. -/
def fd_callback_err (s : St) (fd : Slot) : St :=
  destroy_callback_arg (del s fd) (s.fds fd).cb_arg

/-- The `while` of `LoopObject_run`, as long as the loop is not stopped. -/
def goes_on (activecnt : UInt32) (s : St) : Bool := activecnt > 0 || s.ioactivecnt > 1

/-! ## The system -/

inductive Act where
  | add_reader (fd : Slot) (cb : Callable) (garbage : Callbacks) (ssock : Slot)
  | add_writer (fd : Slot) (cb : Callable) (garbage : Callbacks) (ssock : Slot)
  | remove_reader (fd : Slot) (garbage : Callbacks)
  | remove_writer (fd : Slot) (garbage : Callbacks)
  | io_trampoline (g : Gid) (fd : Slot) (event : Events) (timeout : Nat)
  /-- Any switch or throw into a greenlet. -/
  | resume (g : Gid)
  | add_event (fd : Slot) (event : Events) (timeout : Nat)
  | del_event (fd : Slot)
  /-- Picoev reports an error of a descriptor to `fd_callback`. -/
  | fd_error (fd : Slot)
  /-- The process is the child of a fork. -/
  | fork_child
  /-- `internal_run_once` looks for a fork. -/
  | run_once (ssock : Slot)
deriving DecidableEq, Repr

def step (s : St) : Act → Option St
  | .add_reader fd cb garbage ssock => some (LoopObject_add_reader s fd cb garbage ssock)
  | .add_writer fd cb garbage ssock => some (LoopObject_add_writer s fd cb garbage ssock)
  | .remove_reader fd garbage => some (LoopObject_remove_reader s fd garbage)
  | .remove_writer fd garbage => some (LoopObject_remove_writer s fd garbage)
  | .io_trampoline g fd event timeout =>
    if s.waits g = none then some (internal_io_trampoline s g fd event timeout) else none
  | .resume g => some (resume s g)
  | .add_event fd event timeout => some (add_event s fd event timeout)
  | .del_event fd => some (del_event s fd)
  | .fd_error fd =>
    if active s fd ∧ (s.fds fd).callback = some .fd_callback then some (fd_callback_err s fd)
    else none
  | .fork_child => some { s with postfork := true }
  | .run_once ssock => some (call_fork_loop s ssock)

end Jega.Io.Registry
