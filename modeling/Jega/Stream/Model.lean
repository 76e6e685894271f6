import Jega.Io.Private
import Jega.Socket.Sendall

/-!
# Jega.Stream.Model — a transfer between two greenlets

One greenlet sends some data with `internal_sendall` and closes its socket,
another one calls `recv` on the other end until it gets no more, and the rest of
the program goes on around them. `internal_send` and `internal_recv` of `jega.c`
are cut at their calls of the system and at their switches; what a wait does is
`Jega.Io.internal_io_trampoline`. It is entered through `ready_trampoline`: with a
loop in `L_STOP` whose greenlet is alive, as a deadline of another wait leaves it,
that runs the loop first, and the caller is suspended in the switch of
`run_on_main_task`, with nothing registered for it.

The system's side is a stream socket: it takes and hands out bytes in order, in
pieces as it likes, says that it would block only if it then has nothing to take
or to give, and reports a descriptor only if it is ready. A call may also fail.

`internal_recv` waits before its first call. If that wait raises, it returns a
variable that nothing has been assigned to; what the receiver makes of that is a
parameter.
-/

namespace Jega.Stream

open Socket (Bytes get_memory)

/-- Who sends what on which descriptor, and who receives it on which, in pieces of
what size. -/
structure Conn where
  sender : Gid
  receiver : Gid
  out : Io.Fd
  inp : Io.Fd
  data : Bytes
  bufsize : Nat
  /-- With so many bytes under way the sending end counts as writable. -/
  writable : Nat → Bool
  /-- What the unassigned `tmp` of `internal_recv` happens to be. -/
  unassigned : Bytes
  greenlets_ne : sender ≠ receiver
  ends_ne : out ≠ inp
  bufsize_pos : 0 < bufsize
  writable_zero : writable 0 = true

/-- Where the sender is: before a call of `send`, in the wait of `internal_send`,
or behind its loop. On its way into the wait it may be in the switch by which
`ready_trampoline` runs the loop, or behind that. -/
inductive Sender where
  | calling
  | starting
  | started
  | waiting
  | returned
  | raised
deriving DecidableEq, Repr

/-- Where the receiver is: before the first wait of `internal_recv`, on its way into
a wait, in it, before a call of `recv`, or behind its own loop. -/
inductive Receiver where
  | entered
  | starting (first : Bool)
  | started (first : Bool)
  | waiting (first : Bool)
  | calling
  | returned
  | raised
  /-- `internal_recv` returned what its `tmp` happened to be. -/
  | undefined
deriving DecidableEq, Repr

structure St where
  io : Io.St
  /-- Taken from the sender and not yet at the other end. -/
  transit : Bytes
  /-- What the receiver can get at once. -/
  arrived : Bytes
  /-- The sending end is closed. -/
  shut : Bool
  data_sent : Nat
  sender : Sender
  received : Bytes
  receiver : Receiver

/-- What the system answers to a call. -/
inductive Answer where
  /-- So many bytes. -/
  | done (n : Nat)
  | EWOULDBLOCK
  | failed (errno : Int)
deriving DecidableEq, Repr

variable (c : Conn)

/-- The test of `while data_sent < len(data)`. -/
def sendall_test (data_sent : Nat) : Sender :=
  if data_sent < c.data.length then .calling else .returned

def init (greenlet parent : Gid) : St where
  io := Io.init greenlet parent
  transit := []
  arrived := []
  shut := false
  data_sent := 0
  sender := sendall_test c 0
  received := []
  receiver := .entered

def St.in_flight (s : St) : Nat := s.transit.length + s.arrived.length

/-- There are bytes to get, or nothing will come any more. -/
def St.readable (s : St) : Bool := !s.arrived.isEmpty || s.shut && s.transit.isEmpty

/-- All that `internal_recv` has handed out. -/
def handed_out (s : St) : Bytes :=
  if s.receiver = .undefined then s.received ++ c.unassigned else s.received

/-! ## The system's side -/

/-- What `send` may answer. -/
def St.takes (s : St) : Answer → Bool
  | .done n => 0 < n && n ≤ (get_memory c.data s.data_sent).length
  | .EWOULDBLOCK => !c.writable s.in_flight
  | .failed _ => true

/-- What `recv` may answer. -/
def St.gives (s : St) : Answer → Bool
  | .done 0 => s.arrived.isEmpty && s.readable
  | .done n => n ≤ min c.bufsize s.arrived.length
  | .EWOULDBLOCK => !s.readable
  | .failed _ => true

/-! ## `internal_send` and `internal_recv` -/

/-- `run_loop` in `L_STOP`, up to the switch into the living loop greenlet. -/
def run_loop (io : Io.St) : Io.St := { io with loop := { io.loop with state := .L_RUNNING } }

/-- `internal_io_trampoline` of the sender, for `PICOEV_WRITE` and no timeout. -/
def register_write (s : St) : Option St :=
  (Io.step s.io (.io_trampoline c.sender c.out ⟨false, true⟩ 0 none)).map fun io =>
    { s with io := io, sender := .waiting }

/-- `internal_io_trampoline` of the receiver, for `PICOEV_READ` and no timeout. -/
def register_read (s : St) (first : Bool) : Option St :=
  (Io.step s.io (.io_trampoline c.receiver c.inp ⟨true, false⟩ 0 none)).map fun io =>
    { s with io := io, receiver := .waiting first }

/-- `io_trampoline(loop, fd, PICOEV_WRITE, 0, NULL)` of the sender, up to its first
switch. -/
def wait_write (s : St) : Option St :=
  if s.io.loop.state = .L_STOP then some { s with io := run_loop s.io, sender := .starting }
  else register_write c s

/-- `io_trampoline(loop, fd, PICOEV_READ, 0, NULL)` of the receiver, up to its first
switch. -/
def wait_read (s : St) (first : Bool) : Option St :=
  if s.io.loop.state = .L_STOP then
    some { s with io := run_loop s.io, receiver := .starting first }
  else register_read c s first

/-- One round of the loop of `internal_send`, and the test of `internal_sendall`
behind it. -/
def send (s : St) : Answer → Option St
  | .done n =>
    some
      { s with
        transit := s.transit ++ (get_memory c.data s.data_sent).take n
        data_sent := s.data_sent + n
        sender := sendall_test c (s.data_sent + n) }
  | .EWOULDBLOCK => wait_write c s
  | .failed _ => some { s with sender := .raised }

/-- One round of the loop of `internal_recv`, and the receiver's own behind it. -/
def recv (s : St) : Answer → Option St
  | .done 0 => some { s with receiver := .returned }
  | .done n =>
    some
      { s with
        received := s.received ++ s.arrived.take n
        arrived := s.arrived.drop n
        receiver := .entered }
  | .EWOULDBLOCK => wait_read c s false
  | .failed _ => some { s with receiver := .raised }

/-! ## Waking up -/

/-- The last resumption of a step of the loop raised an exception. -/
def thrown (io : Io.St) : Bool :=
  match io.received.getLast? with
  | some (_, .throw _) => true
  | _ => false

/-- How the step of the loop resumed `g`, if it did. -/
def woken (s : St) (io : Io.St) (g : Gid) : Option Resumption :=
  if s.io.received.length < io.received.length then
    match io.received.getLast? with
    | some (g', r) => if g' = g then some r else none
    | none => none
  else none

/-- The sender is in its wait until a step resumes it. -/
def resumed_sender (s : St) (io : Io.St) : Sender :=
  match s.sender with
  | .waiting =>
    if io.loc c.sender = .other then if thrown io then .raised else .calling else .waiting
  | .starting =>
    match woken s io c.sender with
    | some (.value _) => .started
    | some (.throw _) => .raised
    | none => .starting
  | sender => sender

/-- What `internal_recv` does with an exception: `tmp` is unassigned before the first
call. -/
def interrupted (first : Bool) : Receiver := if first then .undefined else .raised

def resumed_receiver (s : St) (io : Io.St) : Receiver :=
  match s.receiver with
  | .waiting first =>
    if io.loc c.receiver = .other then if thrown io then interrupted first else .calling
    else .waiting first
  | .starting first =>
    match woken s io c.receiver with
    | some (.value _) => .started first
    | some (.throw _) => interrupted first
    | none => .starting first
  | receiver => receiver

/-- A step of the loop, or of a greenlet that is not in the transfer. -/
def looped (s : St) (a : Io.Act) : Option St :=
  (Io.step s.io a).map fun io =>
    { s with io := io, sender := resumed_sender c s io, receiver := resumed_receiver c s io }

/-! ## The steps -/

inductive Act where
  | send (answer : Answer)
  /-- The sender closes its socket. -/
  | close
  /-- The wait before the first call of `recv`. -/
  | wait
  /-- `ready_trampoline` has returned, and the wait is registered. -/
  | write_started
  | read_started
  | recv (answer : Answer)
  /-- Some bytes get to the other end. -/
  | deliver (n : Nat)
  /-- The descriptor is ready for what is waited for, and reported. -/
  | write_ready
  | read_ready
  /-- Anything else. -/
  | other (a : Io.Act)
deriving DecidableEq, Repr

def step (s : St) : Act → Option St
  | .send answer => if s.sender = .calling ∧ s.takes c answer then send c s answer else none
  | .close =>
    if (s.sender = .returned ∨ s.sender = .raised) ∧ !s.shut then some { s with shut := true }
    else none
  | .wait => if s.receiver = .entered then wait_read c s true else none
  | .write_started => if s.sender = .started then register_write c s else none
  | .read_started =>
    match s.receiver with
    | .started first => register_read c s first
    | _ => none
  | .recv answer => if s.receiver = .calling ∧ s.gives c answer then recv c s answer else none
  | .deliver n =>
    if 0 < n ∧ n ≤ s.transit.length then
      some { s with transit := s.transit.drop n, arrived := s.arrived ++ s.transit.take n }
    else none
  | .write_ready =>
    if c.writable s.in_flight then looped c s (.report c.out ⟨false, true, false, false⟩) else none
  | .read_ready =>
    if s.readable then looped c s (.report c.inp ⟨true, false, false, false⟩) else none
  | .other a => looped c s a

end Jega.Stream
