import Mathlib.Algebra.Order.Ring.Rat
import Mathlib.Data.List.Basic

/-!
# Jega.Socket.Sendall — the two loops of `internal_sendall`

`internal_sendall` of `jsocket.py` over `internal_send`, and the loop of the
function of that name in `jega.c`. The branch for sockets with a timeout hands
`send` a keyword argument. Which keywords `send` takes is a parameter of the
loops; `internal_send(s, *args)` takes none.

## Main results

* `timed_sends`: with a `send` that takes the keyword, both loops send the same.
* `sendall_iff`: with `internal_send`, the exact condition for all data to be
  sent.
-/

namespace Jega.Socket

abbrev Bytes := List UInt8

inductive Keyword where
  | timeout
deriving DecidableEq, Repr

inductive SendError where
  /-- "got an unexpected keyword argument" -/
  | TypeError
  /-- "timed out" -/
  | timeout
deriving DecidableEq, Repr

/-- What the system makes of the sends of one `sendall`, in order. -/
structure Peer where
  /-- How often the buffer is full before a send gets through. -/
  blocked : Nat → Nat
  /-- How much it takes of so many bytes. -/
  takes : Nat → Nat → Nat
  takes_pos : ∀ i n, 0 < n → 0 < takes i n
  takes_le : ∀ i n, takes i n ≤ n

/-- A call of `send` of the system's socket. -/
inductive Call where
  | EWOULDBLOCK (view : Bytes) (flags : Int)
  | sent (view : Bytes) (flags : Int) (n : Nat)
deriving DecidableEq, Repr

/-- The bytes that a call took. -/
def Call.accepted : Call → Bytes
  | .EWOULDBLOCK _ _ => []
  | .sent view _ n => view.take n

/-- A count that `send` can return for the view. -/
abbrev Sent (view : Bytes) := { n : Nat // n ≤ view.length ∧ (0 < view.length → 0 < n) }

/-! ## `internal_send` -/

/-- The `while` of `internal_send` in `jega.c`: a call that would block is made
again after `io_trampoline`. -/
def send_calls (view : Bytes) (flags : Int) (n : Nat) : Nat → List Call
  | 0 => [.sent view flags n]
  | blocked + 1 => .EWOULDBLOCK view flags :: send_calls view flags n blocked

/-- The `i`-th send, by a function that takes the keywords `takes`. -/
def send (takes : List Keyword) (peer : Peer) (i : Nat) (view : Bytes) (flags : Int)
    (kwargs : List (Keyword × Rat)) : Except SendError (Sent view × List Call) :=
  if kwargs.all fun kw => kw.1 ∈ takes then
    let n := peer.takes i view.length
    .ok (⟨n, peer.takes_le i view.length, peer.takes_pos i view.length⟩,
      send_calls view flags n (peer.blocked i))
  else .error .TypeError

/-- The keywords of `internal_send(s, *args)`. -/
def internal_send_keywords : List Keyword := []

/-! ## The loops -/

/-- What a function returned or raised, with the calls it made. -/
abbrev Outcome := Except SendError Unit × List Call

/-- `_get_memory`. -/
def get_memory (data : Bytes) (offset : Nat) : Bytes := data.drop offset

section Loops

variable (takes : List Keyword) (peer : Peer) (data : Bytes) (flags : Int)

/-- The loop of a socket without a timeout. -/
def sendall_untimed (i data_sent : Nat) : Outcome :=
  if data_sent < data.length then
    match send takes peer i (get_memory data data_sent) flags [] with
    | .error e => (.error e, [])
    | .ok (n, calls) =>
      let rest := sendall_untimed (i + 1) (data_sent + n.1)
      (rest.1, calls ++ rest.2)
  else (.ok (), [])
termination_by data.length - data_sent
decreasing_by
  have hn := n.2
  simp only [get_memory, List.length_drop] at hn
  omega

/-- The loop of a socket with a timeout; `time` gives the successive values of
`time.time()`. -/
def sendall_timed (time : Nat → Rat) (deadline : Rat) (i data_sent : Nat) (timeleft : Rat) :
    Outcome :=
  match send takes peer i (get_memory data data_sent) flags [(.timeout, timeleft)] with
  | .error e => (.error e, [])
  | .ok (n, calls) =>
    if data_sent + n.1 ≥ data.length then (.ok (), calls)
    else
      let timeleft := deadline - time (i + 1)
      if timeleft ≤ 0 then (.error .timeout, calls)
      else
        let rest := sendall_timed time deadline (i + 1) (data_sent + n.1) timeleft
        (rest.1, calls ++ rest.2)
termination_by data.length - data_sent
decreasing_by
  have hn := n.2
  simp only [get_memory, List.length_drop] at hn
  omega

/-- `internal_sendall`, with any `send`. -/
def sendall (time : Nat → Rat) (timeout : Option Rat) : Outcome :=
  match timeout with
  | none => sendall_untimed takes peer data flags 0 0
  | some timeout =>
    sendall_timed takes peer data flags time (time 0 + timeout) 0 0 timeout

end Loops

/-- `internal_sendall`. -/
def internal_sendall (peer : Peer) (data : Bytes) (flags : Int) (time : Nat → Rat)
    (timeout : Option Rat) : Outcome :=
  sendall internal_send_keywords peer data flags time timeout

/-! ## What is sent -/

/-- The bytes that the calls took, one after another. -/
def accepted (calls : List Call) : Bytes := calls.flatMap Call.accepted

/-- The call ends normally and sends the data from the offset on, once. -/
structure SendsFrom (data : Bytes) (offset : Nat) (r : Outcome) : Prop where
  returned : r.1 = .ok ()
  bytes : accepted r.2 = data.drop offset

section Sends

variable {takes : List Keyword} {peer : Peer} {data : Bytes} {flags : Int}

theorem accepted_append (calls calls' : List Call) :
    accepted (calls ++ calls') = accepted calls ++ accepted calls' := List.flatMap_append

/-- Waiting sends nothing. -/
theorem accepted_send_calls (view : Bytes) (n blocked : Nat) :
    accepted (send_calls view flags n blocked) = view.take n := by
  induction blocked with
  | zero => simp [send_calls, accepted, Call.accepted]
  | succ blocked ih =>
    rw [send_calls, accepted, List.flatMap_cons, ← accepted, ih]
    rfl

/-- A send that returns has sent what it says. -/
theorem send_accepted {i : Nat} {view : Bytes} {kwargs : List (Keyword × Rat)} {n : Sent view}
    {calls : List Call} (h : send takes peer i view flags kwargs = .ok (n, calls)) :
    accepted calls = view.take n.1 := by
  unfold send at h
  split at h
  · cases h
    exact accepted_send_calls _ _ _
  · cases h

/-- A send raises for a keyword that it does not take. -/
theorem send_error {i : Nat} {view : Bytes} {kwargs : List (Keyword × Rat)} {e : SendError}
    (h : send takes peer i view flags kwargs = .error e) :
    e = .TypeError ∧ ∃ kw ∈ kwargs, kw.1 ∉ takes := by
  unfold send at h
  split at h
  · cases h
  next hall =>
    cases h
    refine ⟨rfl, ?_⟩
    simpa using hall

/-- One send, and the loop goes on behind it. -/
theorem SendsFrom.cons {data_sent n : Nat} {calls : List Call} {r : Outcome}
    (hcalls : accepted calls = (get_memory data data_sent).take n)
    (h : SendsFrom data (data_sent + n) r) : SendsFrom data data_sent (r.1, calls ++ r.2) := by
  refine ⟨h.returned, ?_⟩
  rw [accepted_append, hcalls, h.bytes, get_memory, ← List.drop_drop, List.take_append_drop]

/-- The last send. -/
theorem SendsFrom.last {data_sent n : Nat} {calls : List Call}
    (hcalls : accepted calls = (get_memory data data_sent).take n)
    (hlen : data.length ≤ data_sent + n) : SendsFrom data data_sent (.ok (), calls) := by
  refine ⟨rfl, ?_⟩
  rw [hcalls, get_memory]
  refine List.take_of_length_le ?_
  rw [List.length_drop]
  omega

/-- The loop without a timeout calls `send` with positional arguments only. -/
theorem untimed_sends (takes : List Keyword) (i data_sent : Nat) :
    SendsFrom data data_sent (sendall_untimed takes peer data flags i data_sent) := by
  fun_induction sendall_untimed takes peer data flags i data_sent with
  | case1 i data_sent hlt e herr =>
    obtain ⟨_, kw, hkw, _⟩ := send_error herr
    exact absurd hkw List.not_mem_nil
  | case2 i data_sent hlt n calls hok rest ih => exact ih.cons (send_accepted hok)
  | case3 i data_sent hge =>
    -- everything is sent
    refine ⟨rfl, ?_⟩
    exact (List.drop_of_length_le (Nat.le_of_not_lt hge)).symm

/-- With a `send` that takes the keyword, and time enough, the timed loop sends
the same. -/
theorem timed_sends (hkey : .timeout ∈ takes) {time : Nat → Rat} {deadline : Rat}
    (htime : ∀ i, time i < deadline) (i data_sent : Nat) (timeleft : Rat) :
    SendsFrom data data_sent
      (sendall_timed takes peer data flags time deadline i data_sent timeleft) := by
  fun_induction sendall_timed takes peer data flags time deadline i data_sent timeleft with
  | case1 i data_sent timeleft e herr =>
    obtain ⟨_, kw, hkw, hnot⟩ := send_error herr
    rw [List.mem_singleton] at hkw
    rw [hkw] at hnot
    exact absurd hkey hnot
  | case2 i data_sent timeleft n calls hok hlast => exact .last (send_accepted hok) hlast
  | case3 i data_sent timeleft n calls hok hmore left hlate =>
    have hleft : 0 < left := sub_pos.2 (htime (i + 1))
    exact absurd hlate (not_le.2 hleft)
  | case4 i data_sent timeleft n calls hok hmore left hlate rest ih =>
    exact ih.cons (send_accepted hok)

/-- Without the keyword the timed loop sends nothing. -/
theorem timed_raises (hkey : .timeout ∉ takes) (time : Nat → Rat) (deadline : Rat)
    (i data_sent : Nat) (timeleft : Rat) :
    sendall_timed takes peer data flags time deadline i data_sent timeleft =
      (.error .TypeError, []) := by
  have hsend : send takes peer i (get_memory data data_sent) flags [(.timeout, timeleft)] =
      .error .TypeError := by
    refine if_neg ?_
    simp [hkey]
  rw [sendall_timed, hsend]

end Sends

/-! ## Main result -/

/-- `sendall` ends normally, sends exactly the data, and as it would without a
timeout. -/
structure SendsAll (peer : Peer) (data : Bytes) (flags : Int) (time : Nat → Rat)
    (timeout : Option Rat) : Prop where
  sends : SendsFrom data 0 (internal_sendall peer data flags time timeout)
  same : accepted (internal_sendall peer data flags time timeout).2 =
    accepted (internal_sendall peer data flags time none).2

/-- All data is sent exactly if the socket has no timeout. -/
theorem sendall_iff (peer : Peer) (data : Bytes) (flags : Int) (time : Nat → Rat)
    (timeout : Option Rat) : SendsAll peer data flags time timeout ↔ timeout = none := by
  cases timeout with
  | none => exact iff_of_true ⟨untimed_sends _ 0 0, rfl⟩ rfl
  | some timeout =>
    refine iff_of_false (fun h => ?_) nofun
    have hraised : internal_sendall peer data flags time (some timeout) =
        (.error .TypeError, []) := timed_raises List.not_mem_nil time _ 0 0 timeout
    have hret := h.sends.returned
    rw [hraised] at hret
    cases hret

/-- A peer that takes one byte of each send. -/
def one_byte : Peer where
  blocked _ := 0
  takes _ n := min 1 n
  takes_pos i n hn := by omega
  takes_le i n := by omega

/-- With ten seconds and a clock that stands still, two bytes are not sent. -/
theorem sendall_with_timeout : ¬ SendsAll one_byte [104, 105] 0 (fun _ => 0) (some 10) := by
  intro h
  have hret := h.sends.returned
  have hraised : internal_sendall one_byte [104, 105] 0 (fun _ => 0) (some 10) =
      (.error .TypeError, []) := timed_raises List.not_mem_nil _ _ 0 0 10
  rw [hraised] at hret
  cases hret

end Jega.Socket
