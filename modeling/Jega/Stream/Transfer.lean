import Jega.Stream.Model
import Jega.Trace.Rank

/-!
# Jega.Stream.Transfer — what is received, and that it ends

Whatever else the program does, the receiver gets what the sender was told had
been sent, in order and once, unless `internal_recv` has returned its unassigned
variable. If nobody else uses the two descriptors, resumes the two greenlets,
breaks the connection or stops the loop, the transfer takes a bounded number of
steps, one of which is possible until everything is received.

## Main results

* `received_exact`: of every run.
* `transfer_completes`: of the runs where the two are left alone.
-/

namespace Jega.Stream

open Function Trace
open Socket (Bytes get_memory)

variable {c : Conn} {s s' t : St}

/-! ## Bytes -/

/-- What the receiver has, what it can get and what is under way are, in this
order, what has been sent. -/
structure Exact (c : Conn) (s : St) : Prop where
  bytes : s.received ++ s.arrived ++ s.transit = c.data.take s.data_sent
  more : s.sender ≠ .returned → s.sender ≠ .raised → s.data_sent < c.data.length
  all : s.sender = .returned → s.data_sent = c.data.length
  le : s.data_sent ≤ c.data.length
  shut : s.shut = true → s.sender = .returned ∨ s.sender = .raised
  eof : s.receiver = .returned → s.shut = true ∧ s.arrived = [] ∧ s.transit = []

theorem sendall_test_more {n : Nat} (h : sendall_test c n ≠ .returned) : n < c.data.length := by
  by_contra hge
  rw [sendall_test, if_neg hge] at h
  exact h rfl

theorem sendall_test_returned {n : Nat} (h : sendall_test c n = .returned) :
    c.data.length ≤ n := by
  by_contra hlt
  rw [sendall_test, if_pos (Nat.lt_of_not_le hlt)] at h
  cases h

theorem sendall_test_cases (c : Conn) (n : Nat) :
    sendall_test c n = .calling ∨ sendall_test c n = .returned := by
  unfold sendall_test
  split
  · exact Or.inl rfl
  · exact Or.inr rfl

theorem init_exact (c : Conn) (greenlet parent : Gid) : Exact c (init c greenlet parent) where
  bytes := rfl
  more := fun h _ => sendall_test_more h
  all := fun h => Nat.le_antisymm (Nat.zero_le _) (sendall_test_returned h)
  le := Nat.zero_le _
  shut := fun h => by cases h
  eof := fun h => by cases h

/-- The sender is in the wait or in the switch before it. -/
def Sender.suspended : Sender → Prop
  | .starting | .waiting => True
  | _ => False

/-- A step of the loop moves nobody but those who wait. -/
structure Moves (c : Conn) (s s' : St) : Prop where
  sender : s'.sender = s.sender ∨ s.sender.suspended ∧ s'.sender ≠ .returned
  receiver : s'.receiver = .returned → s.receiver = .returned
  received : s'.received = s.received
  arrived : s'.arrived = s.arrived
  transit : s'.transit = s.transit
  data_sent : s'.data_sent = s.data_sent
  shut : s'.shut = s.shut

theorem resumed_sender_cases (c : Conn) (s : St) (io : Io.St) :
    resumed_sender c s io = s.sender ∨
      s.sender.suspended ∧ resumed_sender c s io ≠ .returned := by
  unfold resumed_sender
  split
  next hwait =>
    -- Case: in the wait
    refine Or.inr ⟨hwait ▸ trivial, ?_⟩
    split
    · split
      · exact Sender.noConfusion
      · exact Sender.noConfusion
    · exact Sender.noConfusion
  next hstart =>
    -- Case: before it
    refine Or.inr ⟨hstart ▸ trivial, ?_⟩
    split <;> exact Sender.noConfusion
  next => exact Or.inl rfl

theorem interrupted_ne (first : Bool) : interrupted first ≠ .returned := by
  cases first <;> exact Receiver.noConfusion

theorem resumed_receiver_returned (c : Conn) {io : Io.St}
    (h : resumed_receiver c s io = .returned) : s.receiver = .returned := by
  unfold resumed_receiver at h
  split at h
  next first _ =>
    split at h
    · split at h
      · exact absurd h (interrupted_ne first)
      · cases h
    · cases h
  next first _ =>
    split at h
    · cases h
    · exact absurd h (interrupted_ne first)
    · cases h
  next => exact h

theorem looped_moves {a : Io.Act} (h : looped c s a = some s') : Moves c s s' := by
  rcases Option.map_eq_some_iff.1 h with ⟨io, -, rfl⟩
  exact ⟨resumed_sender_cases c s io, resumed_receiver_returned c, rfl, rfl, rfl, rfl, rfl⟩

theorem suspended_ne {sender : Sender} (h : sender.suspended) :
    sender ≠ .returned ∧ sender ≠ .raised := by
  constructor
  · rintro rfl
    exact h
  · rintro rfl
    exact h

theorem Exact.moves (he : Exact c s) (hm : Moves c s s') : Exact c s' where
  bytes := by
    rw [hm.received, hm.arrived, hm.transit, hm.data_sent]
    exact he.bytes
  more := by
    intro hret hraised
    rw [hm.data_sent]
    rcases hm.sender with heq | ⟨hsusp, -⟩
    · rw [heq] at hret hraised
      exact he.more hret hraised
    · exact he.more (suspended_ne hsusp).1 (suspended_ne hsusp).2
  all := by
    intro h
    rw [hm.data_sent]
    rcases hm.sender with heq | ⟨-, hne⟩
    · exact he.all (heq.symm.trans h)
    · exact absurd h hne
  le := hm.data_sent ▸ he.le
  shut := by
    intro h
    rw [hm.shut] at h
    rcases hm.sender with heq | ⟨hsusp, -⟩
    · rw [heq]
      exact he.shut h
    · rcases he.shut h with hr | hr
      · exact absurd hr (suspended_ne hsusp).1
      · exact absurd hr (suspended_ne hsusp).2
  eof := by
    intro h
    rw [hm.shut, hm.arrived, hm.transit]
    exact he.eof (hm.receiver h)

/-- The sender goes on, still in its call. -/
theorem Exact.waits (he : Exact c s) (hret : s.sender ≠ .returned) (hraised : s.sender ≠ .raised)
    (io : Io.St) {sender : Sender} (hnew : sender ≠ .returned) :
    Exact c { s with io := io, sender := sender } := by
  have hshut : s.shut ≠ true := by
    intro hs
    rcases he.shut hs with hr | hr
    · exact hret hr
    · exact hraised hr
  exact ⟨he.bytes, fun _ _ => he.more hret hraised, fun hr => absurd hr hnew, he.le,
    fun hs => absurd hs hshut, he.eof⟩

/-- The sender starts to wait. -/
theorem Exact.register_write (he : Exact c s) (hret : s.sender ≠ .returned)
    (hraised : s.sender ≠ .raised) (h : register_write c s = some s') : Exact c s' := by
  rcases Option.map_eq_some_iff.1 h with ⟨io, -, rfl⟩
  exact he.waits hret hraised io Sender.noConfusion

theorem Exact.wait_write (he : Exact c s) (hret : s.sender ≠ .returned)
    (hraised : s.sender ≠ .raised) (h : wait_write c s = some s') : Exact c s' := by
  unfold Stream.wait_write at h
  split at h
  · cases h
    exact he.waits hret hraised _ Sender.noConfusion
  · exact he.register_write hret hraised h

/-- The receiver starts to wait. -/
theorem Exact.register_read (he : Exact c s) {first : Bool} (h : register_read c s first = some s') :
    Exact c s' := by
  rcases Option.map_eq_some_iff.1 h with ⟨io, -, rfl⟩
  exact ⟨he.bytes, he.more, he.all, he.le, he.shut, fun hr => by cases hr⟩

theorem Exact.wait_read (he : Exact c s) {first : Bool} (h : wait_read c s first = some s') :
    Exact c s' := by
  unfold Stream.wait_read at h
  split at h
  · cases h
    exact ⟨he.bytes, he.more, he.all, he.le, he.shut, fun hr => by cases hr⟩
  · exact he.register_read h

/-- What the system may take, and what it may give, as propositions. -/
theorem takes_done {n : Nat} :
    s.takes c (.done n) = true ↔ 0 < n ∧ s.data_sent + n ≤ c.data.length := by
  simp only [St.takes, get_memory, List.length_drop, Bool.and_eq_true, decide_eq_true_eq]
  omega

theorem gives_done {n : Nat} (hn : n ≠ 0) :
    s.gives c (.done n) = true ↔ n ≤ c.bufsize ∧ n ≤ s.arrived.length := by
  unfold St.gives
  split
  next heq =>
    cases heq
    exact absurd rfl hn
  next heq =>
    cases heq
    rw [decide_eq_true_eq, Nat.le_min]
  all_goals next heq => cases heq

theorem send_exact {answer : Answer} (h : send c s answer = some s') (hcall : s.sender = .calling)
    (htakes : s.takes c answer = true) (he : Exact c s) : Exact c s' := by
  have hret : s.sender ≠ .returned := by
    rw [hcall]
    exact Sender.noConfusion
  have hraised : s.sender ≠ .raised := by
    rw [hcall]
    exact Sender.noConfusion
  have hshut : s.shut ≠ true := by
    intro hs
    rcases he.shut hs with hr | hr
    · exact hret hr
    · exact hraised hr
  cases answer with
  | done n =>
    cases h
    rcases takes_done.1 htakes with ⟨hpos, hle⟩
    refine ⟨?_, fun hmore _ => sendall_test_more hmore, ?_, hle, fun hs => absurd hs hshut,
      fun hr => absurd (he.eof hr).1 hshut⟩
    · -- what was taken comes behind what had been sent
      show s.received ++ s.arrived ++ (s.transit ++ (get_memory c.data s.data_sent).take n) =
        c.data.take (s.data_sent + n)
      rw [← List.append_assoc, he.bytes, get_memory, List.take_add]
    · intro hr
      exact Nat.le_antisymm hle (sendall_test_returned hr)
  | EWOULDBLOCK => exact he.wait_write hret hraised h
  | failed errno =>
    cases h
    exact ⟨he.bytes, fun _ hne => absurd rfl hne, (fun hr => by cases hr), he.le,
      fun hs => absurd hs hshut, he.eof⟩

theorem recv_exact {answer : Answer} (h : recv c s answer = some s')
    (hgives : s.gives c answer = true) (he : Exact c s) : Exact c s' := by
  unfold recv at h
  split at h
  next =>
    -- Case: there is nothing, and nothing will come
    cases h
    have hend : s.arrived = [] ∧ s.readable = true := by
      simpa [St.gives] using hgives
    have hshut : s.shut = true ∧ s.transit = [] := by
      simpa [St.readable, hend.1] using hend.2
    exact ⟨he.bytes, he.more, he.all, he.le, he.shut, fun _ => ⟨hshut.1, hend.1, hshut.2⟩⟩
  next n _ =>
    -- Case: some bytes
    cases h
    refine ⟨?_, he.more, he.all, he.le, he.shut, fun hr => by cases hr⟩
    show s.received ++ s.arrived.take n ++ s.arrived.drop n ++ s.transit = _
    rw [List.append_assoc s.received, List.take_append_drop, he.bytes]
  next => exact he.wait_read h
  next =>
    cases h
    exact ⟨he.bytes, he.more, he.all, he.le, he.shut, fun hr => by cases hr⟩

theorem step_exact {a : Act} (h : step c s a = some s') (he : Exact c s) : Exact c s' := by
  cases a with
  | send answer =>
    rcases Option.ite_none_right_eq_some.1 h with ⟨⟨hcall, htakes⟩, hsend⟩
    exact send_exact hsend hcall htakes he
  | close =>
    rcases Option.ite_none_right_eq_some.1 h with ⟨hend, heq⟩
    cases heq
    refine ⟨he.bytes, he.more, he.all, he.le, fun _ => hend.1, fun hr => ?_⟩
    exact ⟨rfl, (he.eof hr).2⟩
  | wait =>
    rcases Option.ite_none_right_eq_some.1 h with ⟨-, hwait⟩
    exact he.wait_read hwait
  | write_started =>
    rcases Option.ite_none_right_eq_some.1 h with ⟨hstarted, hreg⟩
    refine he.register_write ?_ ?_ hreg
    · rw [hstarted]
      exact Sender.noConfusion
    · rw [hstarted]
      exact Sender.noConfusion
  | read_started =>
    simp only [step] at h
    split at h
    · exact he.register_read h
    · cases h
  | recv answer =>
    rcases Option.ite_none_right_eq_some.1 h with ⟨⟨-, hgives⟩, hrecv⟩
    exact recv_exact hrecv hgives he
  | deliver n =>
    rcases Option.ite_none_right_eq_some.1 h with ⟨⟨hpos, hle⟩, heq⟩
    cases heq
    refine ⟨?_, he.more, he.all, he.le, he.shut, fun hr => ?_⟩
    · show s.received ++ (s.arrived ++ s.transit.take n) ++ s.transit.drop n = _
      rw [← he.bytes, ← List.append_assoc, List.append_assoc _ _ (s.transit.drop n),
        List.take_append_drop]
    · -- nothing is under way once the receiver is through
      have htransit := (he.eof hr).2.2
      rw [htransit, List.length_nil] at hle
      omega
  | write_ready =>
    rcases Option.ite_none_right_eq_some.1 h with ⟨-, hloop⟩
    exact he.moves (looped_moves hloop)
  | read_ready =>
    rcases Option.ite_none_right_eq_some.1 h with ⟨-, hloop⟩
    exact he.moves (looped_moves hloop)
  | other a => exact he.moves (looped_moves h)

/-- In every run, whatever the calls answer, whoever else uses the descriptors and
whatever is thrown into the two: what has been handed out is the beginning of what
has been sent, unless the first wait of an `internal_recv` has raised, and all of it
if the receiver has come to the end; and all is sent if `sendall` has returned. -/
theorem received_exact {greenlet parent : Gid} {as : List Act}
    (h : run (step c) (init c greenlet parent) as = some s) :
    (s.receiver ≠ .undefined → handed_out c s <+: c.data.take s.data_sent) ∧
    (s.receiver = .returned → handed_out c s = c.data.take s.data_sent) ∧
    (s.sender = .returned → c.data.take s.data_sent = c.data) := by
  have he : Exact c s := run_invariant (fun _ _ _ h he => step_exact h he)
    (init_exact c greenlet parent) h
  refine ⟨?_, ?_, ?_⟩
  · intro hdefined
    rw [handed_out, if_neg hdefined, ← he.bytes, List.append_assoc]
    exact List.prefix_append _ _
  · intro hr
    rcases he.eof hr with ⟨-, harrived, htransit⟩
    have hbytes := he.bytes
    have hdefined : s.receiver ≠ .undefined := by
      rw [hr]
      exact Receiver.noConfusion
    rw [handed_out, if_neg hdefined]
    rwa [harrived, htransit, List.append_nil, List.append_nil] at hbytes
  · intro hr
    rw [he.all hr, List.take_length]

/-- Three bytes through a connection that is full as soon as something is under way. -/
def narrow : Conn where
  sender := 1
  receiver := 2
  out := 3
  inp := 4
  data := [104, 105, 33]
  bufsize := 2
  writable n := n = 0
  unassigned := [0]
  greenlets_ne := by decide
  ends_ne := by decide
  bufsize_pos := by decide
  writable_zero := by decide

/-- The receiver has got two bytes and waits for more. -/
def narrowStart : List Act :=
  [.wait, .send (.done 2), .deliver 2, .read_ready, .recv (.done 2), .wait]

/-- Some code switches into it, so that it calls `recv` too soon and waits again,
and there an exception ends its call. -/
theorem received_exact_thrown :
    ∃ s, run (step narrow) (init narrow 0 9) (narrowStart ++ [.other (.switch 2 .empty_tuple),
        .recv .EWOULDBLOCK, .other (.throw 2 (.other 0))]) = some s ∧
      s.receiver = .raised ∧ handed_out narrow s <+: narrow.data.take s.data_sent := by
  rcases run_any (p := fun s : St => s.receiver == .raised)
    (by decide +kernel : (run (step narrow) (init narrow 0 9) (narrowStart ++
      [.other (.switch 2 .empty_tuple), .recv .EWOULDBLOCK, .other (.throw 2 (.other 0))])).any _ =
        true) with
    ⟨s, hs, hp⟩
  have hraised : s.receiver = .raised := beq_iff_eq.1 hp
  have hdefined : s.receiver ≠ .undefined := by
    rw [hraised]
    exact Receiver.noConfusion
  exact ⟨s, hs, hraised, (received_exact hs).1 hdefined⟩

/-- In the wait before its first call an exception makes it hand out whatever is
there. -/
example : (run (step narrow) (init narrow 0 9) (narrowStart ++
    [.other (.throw 2 (.other 0))])).any (fun s => handed_out narrow s = [104, 105, 0]) := by
  decide +kernel

/-! ## The two are left alone -/

/-- Nobody else uses the descriptors or resumes the greenlets, no wait has a deadline
that passes, which would stop the loop, and no call fails. -/
def LeftAlone (c : Conn) (s : St) : Act → Prop
  | .send (.failed _) | .recv (.failed _) => False
  | .other a => Io.expires a = false ∧ Io.Foreign s.io c.sender c.out a ∧
      Io.Foreign s.io c.receiver c.inp a
  | _ => True

instance (c : Conn) (s : St) : ∀ a, Decidable (LeftAlone c s a)
  | .send (.failed _) | .recv (.failed _) => inferInstanceAs (Decidable False)
  | .other a => inferInstanceAs (Decidable (Io.expires a = false ∧
      Io.Foreign s.io c.sender c.out a ∧ Io.Foreign s.io c.receiver c.inp a))
  | .send (.done _) | .send .EWOULDBLOCK | .recv (.done _) | .recv .EWOULDBLOCK | .close
  | .wait | .write_started | .read_started | .deliver _ | .write_ready | .read_ready =>
    inferInstanceAs (Decidable True)

/-- One of the two waits. -/
def Waits (s : St) : Prop :=
  s.sender = .waiting ∨ s.receiver = .waiting true ∨ s.receiver = .waiting false

/-- The `while` of `LoopObject_run` goes on for the sake of registrations. -/
def Polls (io : Io.St) : Prop := io.loop.state ≠ .L_STOP ∧ io.loop.ioactivecnt > 1

/-- While one of the two waits, the loop's count of registrations is not too low. -/
def Counted (s : St) : Prop := Waits s → s.io.loop.ioactivecnt > 1

instance (s : St) : Decidable (Counted s) :=
  inferInstanceAs (Decidable (_ ∨ _ ∨ _ → _))

/-- The two greenlets and the two descriptors of the connection. -/
def Registry (c : Conn) (io : Io.St) : Prop := Io.Separate io c.sender c.receiver c.out c.inp

/-- The loop runs, and each of the two is suspended exactly if it waits, and on its
own descriptor. -/
structure Alone (c : Conn) (s : St) : Prop where
  registry : Registry c s.io
  running : s.io.loop.state = .L_RUNNING
  sender : (s.sender = .waiting ∧ ∃ arg, s.io.loc c.sender = .trampoline c.out ⟨false, true⟩ arg) ∨
    ((s.sender = .calling ∨ s.sender = .returned) ∧ s.io.loc c.sender = .other)
  receiver : ((∃ first, s.receiver = .waiting first) ∧
      ∃ arg, s.io.loc c.receiver = .trampoline c.inp ⟨true, false⟩ arg) ∨
    ((s.receiver = .entered ∨ s.receiver = .calling ∨ s.receiver = .returned) ∧
      s.io.loc c.receiver = .other)

theorem init_alone {greenlet parent : Gid} (hs : c.sender ≠ greenlet) (hr : c.receiver ≠ greenlet) :
    Alone c (init c greenlet parent) where
  registry := Io.separate_init hs hr c.greenlets_ne c.ends_ne
  running := rfl
  sender := Or.inr ⟨sendall_test_cases c 0, rfl⟩
  receiver := Or.inr ⟨Or.inl rfl, rfl⟩

theorem Alone.sender_other (ha : Alone c s) (h : s.sender ≠ .waiting) :
    s.io.loc c.sender = .other := by
  rcases ha.sender with ⟨hwait, -⟩ | ⟨-, hother⟩
  · exact absurd hwait h
  · exact hother

theorem Alone.receiver_other (ha : Alone c s) (h : ∀ first, s.receiver ≠ .waiting first) :
    s.io.loc c.receiver = .other := by
  rcases ha.receiver with ⟨⟨first, hwait⟩, -⟩ | ⟨-, hother⟩
  · exact absurd hwait (h first)
  · exact hother

/-- Who is not resumed stays where it is. -/
theorem Alone.resumed_sender_eq (ha : Alone c s) {io : Io.St}
    (hloc : io.loc c.sender = s.io.loc c.sender) : resumed_sender c s io = s.sender := by
  unfold resumed_sender
  rcases ha.sender with ⟨hwait, arg, htramp⟩ | ⟨hcall | hret, -⟩
  · rw [hwait, hloc, htramp]
    rfl
  · rw [hcall]
  · rw [hret]

theorem Alone.resumed_receiver_eq (ha : Alone c s) {io : Io.St}
    (hloc : io.loc c.receiver = s.io.loc c.receiver) : resumed_receiver c s io = s.receiver := by
  unfold resumed_receiver
  rcases ha.receiver with ⟨⟨first, hwait⟩, arg, htramp⟩ | ⟨hent | hcall | hret, -⟩
  · rw [hwait, hloc, htramp]
    rfl
  · rw [hent]
  · rw [hcall]
  · rw [hret]

/-- Who is resumed normally makes its call again. -/
theorem resumed_sender_ready {io : Io.St} (hwait : s.sender = .waiting)
    (hother : io.loc c.sender = .other) (hthrown : thrown io = false) :
    resumed_sender c s io = .calling := by
  simp [resumed_sender, hwait, hother, hthrown]

theorem resumed_receiver_ready {io : Io.St} {first : Bool} (hwait : s.receiver = .waiting first)
    (hother : io.loc c.receiver = .other) (hthrown : thrown io = false) :
    resumed_receiver c s io = .calling := by
  simp [resumed_receiver, hwait, hother, hthrown]

theorem thrown_value {io : Io.St} {l : List (Gid × Resumption)} {g : Gid} {v : PyObj}
    (h : io.received = l ++ [(g, .value v)]) : thrown io = false := by
  rw [thrown, h, List.getLast?_concat]

/-! ### The waits -/

theorem Alone.not_stopped (ha : Alone c s) : s.io.loop.state ≠ .L_STOP := by
  rw [ha.running]
  exact loop_state.noConfusion

/-- The sender can wait when it does not, and then does. -/
theorem Alone.wait_write (ha : Alone c s) (hne : s.sender ≠ .waiting) :
    ∃ s', Stream.wait_write c s = some s' ∧ Alone c s' ∧
      s' = { s with io := s'.io, sender := .waiting } := by
  rcases ha.registry.begin (ha.sender_other hne) ⟨false, true⟩ 0 none with
    ⟨io, hstep, hs', hloc, hloc'⟩
  have hrunning := Io.step_running hstep rfl ha.running
  refine ⟨{ s with io := io, sender := .waiting }, ?_, ⟨hs', hrunning, Or.inl ⟨rfl, hloc⟩, ?_⟩, rfl⟩
  · rw [Stream.wait_write, if_neg ha.not_stopped, register_write, hstep]
    rfl
  · show _ ∨ _ ∧ io.loc c.receiver = .other
    rw [hloc']
    exact ha.receiver

theorem Alone.wait_read (ha : Alone c s) (hne : ∀ first, s.receiver ≠ .waiting first)
    (first : Bool) :
    ∃ s', Stream.wait_read c s first = some s' ∧ Alone c s' ∧
      s' = { s with io := s'.io, receiver := .waiting first } := by
  rcases ha.registry.symm.begin (ha.receiver_other hne) ⟨true, false⟩ 0 none with
    ⟨io, hstep, hs', hloc, hloc'⟩
  have hrunning := Io.step_running hstep rfl ha.running
  refine ⟨{ s with io := io, receiver := .waiting first }, ?_,
    ⟨hs'.symm, hrunning, ?_, Or.inl ⟨⟨first, rfl⟩, hloc⟩⟩, rfl⟩
  · rw [Stream.wait_read, if_neg ha.not_stopped, register_read, hstep]
    rfl
  · show _ ∨ _ ∧ io.loc c.sender = .other
    rw [hloc']
    exact ha.sender

/-- A report that the sending end is ready ends the wait of the sender. -/
theorem Alone.write_ready (ha : Alone c s) (hwait : s.sender = .waiting) :
    ∃ s', looped c s (.report c.out ⟨false, true, false, false⟩) = some s' ∧ Alone c s' ∧
      s' = { s with io := s'.io, sender := .calling } := by
  rcases ha.sender with ⟨-, arg, htramp⟩ | ⟨hne, -⟩
  swap
  · rw [hwait] at hne
    rcases hne with h | h <;> cases h
  rcases ha.registry.ready htramp ⟨false, true, false, false⟩ rfl rfl with
    ⟨io, hstep, hs', hloc, hloc', hrec⟩
  have hsender := resumed_sender_ready hwait hloc (thrown_value hrec)
  have hreceiver := ha.resumed_receiver_eq hloc'
  have hrunning := Io.step_running hstep rfl ha.running
  refine ⟨{ s with io := io, sender := .calling }, ?_,
    ⟨hs', hrunning, Or.inr ⟨Or.inl rfl, hloc⟩, ?_⟩, rfl⟩
  · rw [looped, hstep, Option.map_some, hsender, hreceiver]
  · show _ ∨ _ ∧ io.loc c.receiver = .other
    rw [hloc']
    exact ha.receiver

theorem Alone.read_ready (ha : Alone c s) {first : Bool} (hwait : s.receiver = .waiting first) :
    ∃ s', looped c s (.report c.inp ⟨true, false, false, false⟩) = some s' ∧ Alone c s' ∧
      s' = { s with io := s'.io, receiver := .calling } := by
  rcases ha.receiver with ⟨-, arg, htramp⟩ | ⟨hne, -⟩
  swap
  · rw [hwait] at hne
    rcases hne with h | h | h <;> cases h
  rcases ha.registry.symm.ready htramp ⟨true, false, false, false⟩ rfl rfl with
    ⟨io, hstep, hs', hloc, hloc', hrec⟩
  have hreceiver := resumed_receiver_ready hwait hloc (thrown_value hrec)
  have hsender := ha.resumed_sender_eq hloc'
  have hrunning := Io.step_running hstep rfl ha.running
  refine ⟨{ s with io := io, receiver := .calling }, ?_,
    ⟨hs'.symm, hrunning, ?_, Or.inr ⟨Or.inr (Or.inl rfl), hloc⟩⟩, rfl⟩
  · rw [looped, hstep, Option.map_some, hsender, hreceiver]
  · show _ ∨ _ ∧ io.loc c.sender = .other
    rw [hloc']
    exact ha.sender

/-! ### Every step -/

/-- What a step does while the two are left alone, one case for each thing that
can happen. -/
inductive Took (c : Conn) (s : St) : Act → St → Prop where
  | sent {n} (hcall : s.sender = .calling) (hpos : 0 < n) (hle : s.data_sent + n ≤ c.data.length) :
    Took c s (.send (.done n)) { s with
      transit := s.transit ++ (get_memory c.data s.data_sent).take n
      data_sent := s.data_sent + n
      sender := sendall_test c (s.data_sent + n) }
  | send_blocked {io} (hcall : s.sender = .calling) (hfull : c.writable s.in_flight = false) :
    Took c s (.send .EWOULDBLOCK) { s with io := io, sender := .waiting }
  | closed (hreturned : s.sender = .returned) (hshut : s.shut = false) :
    Took c s .close { s with shut := true }
  | wait {io} (hentered : s.receiver = .entered) :
    Took c s .wait { s with io := io, receiver := .waiting true }
  | got {n} (hcall : s.receiver = .calling) (hpos : 0 < n) (hle : n ≤ s.arrived.length) :
    Took c s (.recv (.done n)) { s with
      received := s.received ++ s.arrived.take n
      arrived := s.arrived.drop n
      receiver := .entered }
  | eof (hcall : s.receiver = .calling) :
    Took c s (.recv (.done 0)) { s with receiver := .returned }
  | recv_blocked {io} (hcall : s.receiver = .calling) (hempty : s.readable = false) :
    Took c s (.recv .EWOULDBLOCK) { s with io := io, receiver := .waiting false }
  | delivered {n} (hpos : 0 < n) (hle : n ≤ s.transit.length) :
    Took c s (.deliver n) { s with
      transit := s.transit.drop n, arrived := s.arrived ++ s.transit.take n }
  | write_ready {io} (hwait : s.sender = .waiting) (hroom : c.writable s.in_flight = true) :
    Took c s .write_ready { s with io := io, sender := .calling }
  | read_ready {io first} (hwait : s.receiver = .waiting first) (hread : s.readable = true) :
    Took c s .read_ready { s with io := io, receiver := .calling }
  | other {a io} : Took c s (.other a) { s with io := io }

/-- Between two calls neither is suspended. -/
theorem Alone.congr (ha : Alone c s) (hio : s'.io = s.io)
    (hs : s'.sender = s.sender ∨
      s.sender ≠ .waiting ∧ (s'.sender = .calling ∨ s'.sender = .returned))
    (hr : s'.receiver = s.receiver ∨ (∀ first, s.receiver ≠ .waiting first) ∧
      (s'.receiver = .entered ∨ s'.receiver = .calling ∨ s'.receiver = .returned)) :
    Alone c s' where
  registry := by
    rw [hio]
    exact ha.registry
  running := by
    rw [hio]
    exact ha.running
  sender := by
    rw [hio]
    rcases hs with heq | ⟨hne, hnew⟩
    · rw [heq]
      exact ha.sender
    · exact Or.inr ⟨hnew, ha.sender_other hne⟩
  receiver := by
    rw [hio]
    rcases hr with heq | ⟨hne, hnew⟩
    · rw [heq]
      exact ha.receiver
    · exact Or.inr ⟨hnew, ha.receiver_other hne⟩

theorem Alone.not_raised (ha : Alone c s) : s.sender ≠ .raised := by
  intro h
  rcases ha.sender with ⟨hw, -⟩ | ⟨hc | hr, -⟩
  · cases h.symm.trans hw
  · cases h.symm.trans hc
  · cases h.symm.trans hr

theorem send_took {answer : Answer} (hok : LeftAlone c s (.send answer)) (ha : Alone c s)
    (hcall : s.sender = .calling) (htakes : s.takes c answer = true)
    (h : send c s answer = some s') : Took c s (.send answer) s' ∧ Alone c s' := by
  have hne : s.sender ≠ .waiting := by
    rw [hcall]
    intro hc
    cases hc
  cases answer with
  | done n =>
    cases h
    rcases takes_done.1 htakes with ⟨hpos, hle⟩
    exact ⟨.sent hcall hpos hle, ha.congr rfl (Or.inr ⟨hne, sendall_test_cases c _⟩) (Or.inl rfl)⟩
  | EWOULDBLOCK =>
    rcases ha.wait_write hne with ⟨r, hr, halone, heq⟩
    have hsame : r = s' := Option.some.inj (hr.symm.trans h)
    subst hsame
    rw [St.takes, Bool.not_eq_true'] at htakes
    refine ⟨?_, halone⟩
    rw [heq]
    exact .send_blocked hcall htakes
  | failed errno => exact absurd hok id

theorem recv_took {answer : Answer} (hok : LeftAlone c s (.recv answer)) (ha : Alone c s)
    (hcall : s.receiver = .calling) (hgives : s.gives c answer = true)
    (h : recv c s answer = some s') : Took c s (.recv answer) s' ∧ Alone c s' := by
  have hne : ∀ first, s.receiver ≠ .waiting first := by
    intro first
    rw [hcall]
    intro hc
    cases hc
  cases answer with
  | done n =>
    by_cases hn : n = 0
    · subst hn
      cases h
      exact ⟨.eof hcall, ha.congr rfl (Or.inl rfl) (Or.inr ⟨hne, Or.inr (Or.inr rfl)⟩)⟩
    · have hle := ((gives_done hn).1 hgives).2
      unfold recv at h
      split at h
      next heq =>
        cases heq
        exact absurd rfl hn
      next heq =>
        cases heq
        cases h
        exact ⟨.got hcall (Nat.pos_of_ne_zero hn) hle,
          ha.congr rfl (Or.inl rfl) (Or.inr ⟨hne, Or.inl rfl⟩)⟩
      all_goals next heq => cases heq
  | EWOULDBLOCK =>
    rcases ha.wait_read hne false with ⟨r, hr, halone, heq⟩
    have hsame : r = s' := Option.some.inj (hr.symm.trans h)
    subst hsame
    have hempty : s.readable = false := by
      simpa [St.gives] using hgives
    refine ⟨?_, halone⟩
    rw [heq]
    exact .recv_blocked hcall hempty
  | failed errno => exact absurd hok id

theorem step_took {a : Act} (h : step c s a = some s') (hok : LeftAlone c s a) (ha : Alone c s) :
    Took c s a s' ∧ Alone c s' := by
  cases a with
  | send answer =>
    rcases Option.ite_none_right_eq_some.1 h with ⟨⟨hcall, htakes⟩, hsend⟩
    exact send_took hok ha hcall htakes hsend
  | close =>
    rcases Option.ite_none_right_eq_some.1 h with ⟨⟨hend, hshut⟩, heq⟩
    cases heq
    have hreturned : s.sender = .returned := hend.resolve_right ha.not_raised
    have hopen : s.shut = false := by
      simpa using hshut
    exact ⟨.closed hreturned hopen, ha.congr rfl (Or.inl rfl) (Or.inl rfl)⟩
  | wait =>
    rcases Option.ite_none_right_eq_some.1 h with ⟨hentered, hwait⟩
    have hne : ∀ first, s.receiver ≠ .waiting first := by
      intro first
      rw [hentered]
      intro hc
      cases hc
    rcases ha.wait_read hne true with ⟨r, hr, halone, heq⟩
    have hsame : r = s' := Option.some.inj (hr.symm.trans hwait)
    subst hsame
    refine ⟨?_, halone⟩
    rw [heq]
    exact .wait hentered
  | write_started =>
    rcases Option.ite_none_right_eq_some.1 h with ⟨hstarted, -⟩
    rcases ha.sender with ⟨hw, -⟩ | ⟨hc | hr, -⟩
    · cases hstarted.symm.trans hw
    · cases hstarted.symm.trans hc
    · cases hstarted.symm.trans hr
  | read_started =>
    simp only [step] at h
    split at h
    next first hstarted =>
      rcases ha.receiver with ⟨⟨_, hw⟩, -⟩ | ⟨he | hc | hr, -⟩
      · cases hstarted.symm.trans hw
      · cases hstarted.symm.trans he
      · cases hstarted.symm.trans hc
      · cases hstarted.symm.trans hr
    · cases h
  | recv answer =>
    rcases Option.ite_none_right_eq_some.1 h with ⟨⟨hcall, hgives⟩, hrecv⟩
    exact recv_took hok ha hcall hgives hrecv
  | deliver n =>
    rcases Option.ite_none_right_eq_some.1 h with ⟨⟨hpos, hle⟩, heq⟩
    cases heq
    exact ⟨.delivered hpos hle, ha.congr rfl (Or.inl rfl) (Or.inl rfl)⟩
  | write_ready =>
    rcases Option.ite_none_right_eq_some.1 h with ⟨hroom, hloop⟩
    by_cases hwait : s.sender = .waiting
    · rcases ha.write_ready hwait with ⟨r, hr, halone, heq⟩
      have hsame : r = s' := Option.some.inj (hr.symm.trans hloop)
      subst hsame
      refine ⟨?_, halone⟩
      rw [heq]
      exact .write_ready hwait hroom
    · -- nothing is registered
      rw [looped, ha.registry.mine.not_reported (ha.sender_other hwait)] at hloop
      cases hloop
  | read_ready =>
    rcases Option.ite_none_right_eq_some.1 h with ⟨hread, hloop⟩
    by_cases hwait : ∃ first, s.receiver = .waiting first
    · rcases hwait with ⟨first, hwait⟩
      rcases ha.read_ready hwait with ⟨r, hr, halone, heq⟩
      have hsame : r = s' := Option.some.inj (hr.symm.trans hloop)
      subst hsame
      refine ⟨?_, halone⟩
      rw [heq]
      exact .read_ready hwait hread
    · have hother := ha.receiver_other fun first hf => hwait ⟨first, hf⟩
      rw [looped, ha.registry.theirs.not_reported hother] at hloop
      cases hloop
  | other a =>
    rcases Option.map_eq_some_iff.1 h with ⟨io, hio, rfl⟩
    rcases ha.registry.frame hio hok.2.1 hok.2.2 with ⟨hregistry, hloc, hloc'⟩
    rw [ha.resumed_sender_eq hloc, ha.resumed_receiver_eq hloc']
    refine ⟨.other, hregistry, Io.step_running hio hok.1 ha.running, ?_, ?_⟩
    · show _ ∨ _ ∧ io.loc c.sender = .other
      rw [hloc]
      exact ha.sender
    · show _ ∨ _ ∧ io.loc c.receiver = .other
      rw [hloc']
      exact ha.receiver

/-! ## It ends -/

/-- What the sender still has to do besides sending bytes. -/
def sender_left (c : Conn) (s : St) : Nat :=
  match s.sender with
  | .calling => if c.writable s.in_flight then 0 else 2
  | .starting | .started | .waiting => 1
  | .returned | .raised => if s.shut then 0 else 1

/-- And the receiver, besides getting them. -/
def receiver_left (s : St) : Nat :=
  match s.receiver with
  | .entered => 3
  | .starting _ | .started _ | .waiting _ => 2
  | .calling => if s.readable then 1 else 3
  | .returned | .raised | .undefined => 0

/-- How many steps a transfer can still take. A byte is sent, delivered and
received, and each of these may make a wait of one of the two necessary. -/
def left (c : Conn) (s : St) : Nat :=
  11 * (c.data.length - s.data_sent) + 6 * s.transit.length + 5 * s.arrived.length +
    sender_left c s + receiver_left s

/-- The steps of the transfer itself. -/
def transfers : Act → Bool
  | .other _ => false
  | _ => true

theorem sender_left_le (c : Conn) (s : St) : sender_left c s ≤ 2 := by
  unfold sender_left
  split
  · split <;> omega
  · omega
  · omega
  · omega
  all_goals split <;> omega

theorem receiver_left_le (s : St) : receiver_left s ≤ 3 := by
  unfold receiver_left
  split
  · omega
  · omega
  · omega
  · omega
  · split <;> omega
  all_goals omega

/-- Where the receiver is, and whether it can get something, decide what it has
left. -/
theorem receiver_left_mono (hr : s'.receiver = s.receiver)
    (hread : s.readable = true → s'.readable = true) : receiver_left s' ≤ receiver_left s := by
  unfold receiver_left
  rw [hr]
  split
  · exact Nat.le_refl _
  · exact Nat.le_refl _
  · exact Nat.le_refl _
  · exact Nat.le_refl _
  · cases h : s.readable with
    | true => simp [hread h]
    | false =>
      simp only [Bool.false_eq_true, if_false]
      split <;> omega
  all_goals exact Nat.le_refl _

theorem sender_left_congr (hs : s'.sender = s.sender) (hflight : s'.in_flight = s.in_flight)
    (hshut : s'.shut = s.shut) : sender_left c s' = sender_left c s := by
  unfold sender_left
  rw [hs, hflight, hshut]

/-- A step of the receiver that moves no byte. -/
theorem left_receiver (hsent : s'.data_sent = s.data_sent) (htransit : s'.transit = s.transit)
    (harrived : s'.arrived = s.arrived) (hs : s'.sender = s.sender) (hshut : s'.shut = s.shut)
    (hlt : receiver_left s' < receiver_left s) : left c s' < left c s := by
  have hflight : s'.in_flight = s.in_flight := by
    rw [St.in_flight, htransit, harrived, St.in_flight]
  unfold left
  rw [hsent, htransit, harrived, sender_left_congr hs hflight hshut]
  omega

theorem receiver_left_calling (hcall : s.receiver = .calling) :
    receiver_left s = if s.readable then 1 else 3 := by
  rw [receiver_left, hcall]

theorem transfers_left {a : Act} (h : Took c s a s') (ha : transfers a = true) :
    left c s' < left c s := by
  cases h with
  | @sent n hcall hpos hle =>
    have hs := sender_left_le c { s with
      transit := s.transit ++ (get_memory c.data s.data_sent).take n
      data_sent := s.data_sent + n
      sender := sendall_test c (s.data_sent + n) }
    have hlen : ((get_memory c.data s.data_sent).take n).length = n := by
      rw [List.length_take, get_memory, List.length_drop]
      omega
    -- the receiver may have to wait once more
    have hr : receiver_left { s with
        transit := s.transit ++ (get_memory c.data s.data_sent).take n
        data_sent := s.data_sent + n
        sender := sendall_test c (s.data_sent + n) } ≤ receiver_left s + 2 := by
      unfold receiver_left
      cases s.receiver with
      | calling =>
        simp only
        split <;> split <;> omega
      | _ => simp
    simp only [left, List.length_append, hlen] at hs hr ⊢
    omega
  | send_blocked hcall hfull =>
    simp [left, sender_left, receiver_left, hcall, hfull, St.readable]
  | closed hreturned hshut =>
    have hr : receiver_left { s with shut := true } ≤ receiver_left s := by
      refine receiver_left_mono rfl ?_
      intro hread
      rw [St.readable, hshut, Bool.false_and, Bool.or_false] at hread
      simp [St.readable, hread]
    simp only [left, sender_left, hreturned, hshut] at hr ⊢
    simp only [if_true, Bool.false_eq_true, if_false]
    omega
  | wait hentered =>
    refine left_receiver rfl rfl rfl rfl rfl ?_
    simp [receiver_left, hentered]
  | @got n hcall hpos hle =>
    have hs := sender_left_le c { s with
      received := s.received ++ s.arrived.take n
      arrived := s.arrived.drop n
      receiver := .entered }
    have hread : s.readable = true := by
      have hne : s.arrived ≠ [] := by
        rintro heq
        rw [heq, List.length_nil] at hle
        omega
      simp [St.readable, hne]
    simp only [left, receiver_left, hcall, hread, List.length_drop, if_true] at hs ⊢
    omega
  | eof hcall =>
    refine left_receiver rfl rfl rfl rfl rfl ?_
    rw [receiver_left_calling hcall]
    simp only [receiver_left]
    split <;> omega
  | recv_blocked hcall hempty =>
    refine left_receiver rfl rfl rfl rfl rfl ?_
    rw [receiver_left_calling hcall, hempty]
    simp [receiver_left]
  | @delivered n hpos hle =>
    have hlen : (s.transit.take n).length = n := List.length_take_of_le hle
    have hread : ({ s with
        transit := s.transit.drop n, arrived := s.arrived ++ s.transit.take n } : St).readable =
        true := by
      have hne : s.arrived ++ s.transit.take n ≠ [] := by
        intro heq
        have hzero := congrArg List.length heq
        rw [List.length_append, hlen, List.length_nil] at hzero
        omega
      simp only [St.readable, Bool.or_eq_true, Bool.not_eq_true', List.isEmpty_eq_false_iff]
      exact Or.inl hne
    have hr : receiver_left { s with
        transit := s.transit.drop n, arrived := s.arrived ++ s.transit.take n } ≤
        receiver_left s := receiver_left_mono rfl fun _ => hread
    have hflight : (s.transit.drop n).length + (s.arrived ++ s.transit.take n).length =
        s.transit.length + s.arrived.length := by
      rw [List.length_drop, List.length_append, hlen]
      omega
    have hs : sender_left c { s with
        transit := s.transit.drop n, arrived := s.arrived ++ s.transit.take n } =
        sender_left c s := sender_left_congr rfl hflight rfl
    rw [left, hs]
    simp only [left, List.length_append, List.length_drop, hlen] at hr ⊢
    omega
  | write_ready hwait hroom =>
    have hroom' : c.writable (s.transit.length + s.arrived.length) = true := hroom
    simp [left, sender_left, receiver_left, hwait, hroom', St.readable, St.in_flight]
  | read_ready hwait hread =>
    refine left_receiver rfl rfl rfl rfl rfl ?_
    have hread' : (!s.arrived.isEmpty || s.shut && s.transit.isEmpty) = true := hread
    simp [receiver_left, hwait, St.readable, hread']
  | other => cases ha

theorem other_left {a : Act} (h : Took c s a s') (ha : transfers a = false) :
    left c s' ≤ left c s := by
  cases h with
  | other => exact Nat.le_refl _
  | _ => cases ha

theorem init_left (c : Conn) (greenlet parent : Gid) :
    left c (init c greenlet parent) ≤ 11 * c.data.length + 5 := by
  have hs := sender_left_le c (init c greenlet parent)
  have hr := receiver_left_le (init c greenlet parent)
  simp only [left] at hs hr ⊢
  simp only [init, Nat.sub_zero, List.length_nil] at hs hr ⊢
  omega

/-- A step of the transfer is possible, a report by a loop that goes on polling among
them, and no answer of the system leaves a call stuck. -/
structure Goes (c : Conn) (s : St) : Prop where
  progress : ∃ a s', transfers a = true ∧ LeftAlone c s a ∧ step c s a = some s' ∧
    (a = .write_ready ∨ a = .read_ready → Polls s.io)
  send : s.sender = .calling → ∀ answer, s.takes c answer = true →
    ∃ s', step c s (.send answer) = some s'
  recv : s.receiver = .calling → ∀ answer, s.gives c answer = true →
    ∃ s', step c s (.recv answer) = some s'

theorem Alone.sends (ha : Alone c s) (hcall : s.sender = .calling) {answer : Answer}
    (htakes : s.takes c answer = true) : ∃ s', step c s (.send answer) = some s' := by
  have hstep : step c s (.send answer) = send c s answer := if_pos ⟨hcall, htakes⟩
  rw [hstep]
  cases answer with
  | done n => exact ⟨_, rfl⟩
  | EWOULDBLOCK =>
    have hne : s.sender ≠ .waiting := by
      rw [hcall]
      intro hc
      cases hc
    rcases ha.wait_write hne with ⟨s', hs', -⟩
    exact ⟨s', hs'⟩
  | failed errno => exact ⟨_, rfl⟩

theorem Alone.receives (ha : Alone c s) (hcall : s.receiver = .calling) {answer : Answer}
    (hgives : s.gives c answer = true) : ∃ s', step c s (.recv answer) = some s' := by
  have hstep : step c s (.recv answer) = recv c s answer := if_pos ⟨hcall, hgives⟩
  rw [hstep]
  unfold recv
  split
  · exact ⟨_, rfl⟩
  · exact ⟨_, rfl⟩
  · have hne : ∀ first, s.receiver ≠ .waiting first := by
      intro first
      rw [hcall]
      intro hc
      cases hc
    rcases ha.wait_read hne false with ⟨s', hs', -⟩
    exact ⟨s', hs'⟩
  · exact ⟨_, rfl⟩

/-- While the receiver cannot get anything and nothing is under way, it is the
sender's turn. -/
theorem Alone.sender_goes (ha : Alone c s) (he : Exact c s) (hcount : Counted s) (harrived : s.arrived = [])
    (htransit : s.transit = []) (hshut : s.shut = false) :
    ∃ a s', transfers a = true ∧ LeftAlone c s a ∧ step c s a = some s' ∧
      (a = .write_ready ∨ a = .read_ready → Polls s.io) := by
  rcases ha.sender with ⟨hwait, -⟩ | ⟨hcall | hreturned, -⟩
  · -- Case: it waits, and there is room
    have hroom : c.writable s.in_flight = true := by
      rw [St.in_flight, harrived, htransit]
      exact c.writable_zero
    rcases ha.write_ready hwait with ⟨s', hs', -⟩
    exact ⟨.write_ready, s', rfl, trivial, (if_pos hroom).trans hs',
      fun _ => ⟨ha.not_stopped, hcount (Or.inl hwait)⟩⟩
  · -- Case: it calls `send`
    have htakes : s.takes c (.done 1) = true :=
      takes_done.2 ⟨Nat.one_pos, he.more (hcall ▸ Sender.noConfusion) (hcall ▸ Sender.noConfusion)⟩
    rcases ha.sends hcall htakes with ⟨s', hs'⟩
    exact ⟨.send (.done 1), s', rfl, trivial, hs', by rintro (h | h) <;> cases h⟩
  · -- Case: it is through
    have hopen : (s.sender = .returned ∨ s.sender = .raised) ∧ !s.shut := by
      simp [hreturned, hshut]
    exact ⟨.close, _, rfl, trivial, if_pos hopen, by rintro (h | h) <;> cases h⟩

theorem goes (ha : Alone c s) (he : Exact c s) (hcount : Counted s) (hmore : s.receiver ≠ .returned) : Goes c s := by
  refine ⟨?_, fun hcall _ htakes => ha.sends hcall htakes,
    fun hcall _ hgives => ha.receives hcall hgives⟩
  rcases ha.receiver with ⟨⟨first, hwait⟩, -⟩ | ⟨hentered | hcall | hreturned, -⟩
  · -- Case: the receiver waits
    cases hread : s.readable with
    | true =>
      rcases ha.read_ready hwait with ⟨s', hs', -⟩
      have hwaits : Waits s := by
        cases first with
        | true => exact Or.inr (Or.inl hwait)
        | false => exact Or.inr (Or.inr hwait)
      exact ⟨.read_ready, s', rfl, trivial, (if_pos hread).trans hs',
        fun _ => ⟨ha.not_stopped, hcount hwaits⟩⟩
    | false =>
      have hnone : s.arrived = [] ∧ (s.shut = true → s.transit ≠ []) := by
        simpa [St.readable] using hread
      by_cases htransit : s.transit = []
      · have hshut : s.shut = false := by
          rw [Bool.eq_false_iff]
          intro hs
          exact hnone.2 hs htransit
        exact ha.sender_goes he hcount hnone.1 htransit hshut
      · have hlen : 0 < 1 ∧ 1 ≤ s.transit.length :=
          ⟨Nat.one_pos, List.length_pos_of_ne_nil htransit⟩
        exact ⟨.deliver 1, _, rfl, trivial, if_pos hlen, by rintro (h | h) <;> cases h⟩
  · -- Case: the receiver has called `recv`
    have hne : ∀ first, s.receiver ≠ .waiting first := by
      intro first
      rw [hentered]
      intro hc
      cases hc
    rcases ha.wait_read hne true with ⟨s', hs', -⟩
    exact ⟨.wait, s', rfl, trivial, (if_pos hentered).trans hs', by rintro (h | h) <;> cases h⟩
  · -- Case: the system's `recv` is called
    by_cases hread : s.readable = true
    · by_cases hempty : s.arrived = []
      · have hgives : s.gives c (.done 0) = true := by
          simp [St.gives, hempty, hread]
        rcases ha.receives hcall hgives with ⟨s', hs'⟩
        exact ⟨.recv (.done 0), s', rfl, trivial, hs', by rintro (h | h) <;> cases h⟩
      · have hgives : s.gives c (.done 1) = true :=
          (gives_done Nat.one_ne_zero).2 ⟨c.bufsize_pos, List.length_pos_of_ne_nil hempty⟩
        rcases ha.receives hcall hgives with ⟨s', hs'⟩
        exact ⟨.recv (.done 1), s', rfl, trivial, hs', by rintro (h | h) <;> cases h⟩
    · have hgives : s.gives c .EWOULDBLOCK = true := by
        simp [St.gives, hread]
      rcases ha.receives hcall hgives with ⟨s', hs'⟩
      exact ⟨.recv .EWOULDBLOCK, s', rfl, trivial, hs', by rintro (h | h) <;> cases h⟩
  · exact absurd hreturned hmore

/-- In every run in which the two are left alone, the steps of the transfer are
bounded by the length of the data, whatever happens between them. If the loop's
count is never too low, another one is possible until the receiver has come to the
end, and then it has received the data. -/
theorem transfer_completes {greenlet parent : Gid} {as : List Act}
    (hsender : c.sender ≠ greenlet) (hreceiver : c.receiver ≠ greenlet)
    (h : run (step c) (init c greenlet parent) as = some s)
    (hok : Steps (step c) (LeftAlone c) (init c greenlet parent) as)
    (hcounted : Always (step c) Counted (init c greenlet parent) as) :
    as.countP transfers ≤ 11 * c.data.length + 5 ∧
    (s.receiver ≠ .returned → Goes c s) ∧
    (s.receiver = .returned → s.received = c.data) := by
  have hinv : ∀ (s : St) a s', step c s a = some s' → LeftAlone c s a →
      Alone c s ∧ Exact c s → Alone c s' ∧ Exact c s' := by
    rintro s a s' hstep hleft ⟨ha, he⟩
    exact ⟨(step_took hstep hleft ha).2, step_exact hstep he⟩
  have hinit : Alone c (init c greenlet parent) ∧ Exact c (init c greenlet parent) :=
    ⟨init_alone hsender hreceiver, init_exact c greenlet parent⟩
  rcases run_invariant_steps hinv hinit hok h with ⟨ha, he⟩
  refine ⟨?_, goes ha he (hcounted.last h), ?_⟩
  · -- Bounded
    have hcount : as.countP transfers + left c s ≤ left c (init c greenlet parent) :=
      countP_le_rank hinv
        (fun s a s' hs hleft hi => transfers_left (step_took hs hleft hi.1).1)
        (fun s a s' hs hleft hi => other_left (step_took hs hleft hi.1).1) hinit hok h
    have hinit_left := init_left c greenlet parent
    omega
  · -- Complete: who has come to the end has got what the sender had sent
    intro hend
    rcases he.eof hend with ⟨hshut, harrived, htransit⟩
    have hreturned : s.sender = .returned := (he.shut hshut).resolve_right ha.not_raised
    have hbytes := he.bytes
    rwa [harrived, htransit, List.append_nil, List.append_nil, he.all hreturned,
      List.take_length] at hbytes

/-- The sender is woken once and the receiver three times, while a third greenlet
waits for something else. -/
def narrowRun : List Act :=
  [.wait, .send (.done 2), .send .EWOULDBLOCK,
    .other (.io_trampoline 5 6 ⟨true, false⟩ 0 none), .deliver 2, .read_ready, .recv (.done 2),
    .wait, .write_ready, .other (.report 6 ⟨true, false, false, false⟩), .send (.done 1), .close,
    .deliver 1, .read_ready, .recv (.done 1), .wait, .read_ready, .recv (.done 0)]

theorem transfer_completes_narrow :
    ∃ s, run (step narrow) (init narrow 0 9) narrowRun = some s ∧
      s.receiver = .returned ∧ s.received = narrow.data := by
  rcases run_any (p := fun s : St => s.receiver == .returned &&
      decide (Steps (step narrow) (LeftAlone narrow) (init narrow 0 9) narrowRun) &&
      decide (Always (step narrow) Counted (init narrow 0 9) narrowRun))
    (by decide +kernel : (run (step narrow) (init narrow 0 9) narrowRun).any _ = true) with
    ⟨s, hs, hp⟩
  simp only [Bool.and_eq_true, beq_iff_eq, decide_eq_true_eq] at hp
  have hcomplete := transfer_completes (by decide) (by decide) hs hp.1.2 hp.2
  exact ⟨s, hs, hp.1.1, hcomplete.2.2 hp.1.1⟩

end Jega.Stream
