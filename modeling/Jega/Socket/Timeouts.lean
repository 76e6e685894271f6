import Jega.Event.Model
import Jega.Io.Trampoline
import Jega.Loop.Queued
import Mathlib.Algebra.Order.Ring.Rat
import Mathlib.Data.Rat.Floor

/-!
# Jega.Socket.Timeouts — what becomes of a timeout

The three ways a timeout of the Python API takes to the layer that keeps it:
`wait_read` and its like to picoev, `select` to the timer of a semaphore, and
`internal_connect` with the time that is left, through `wait_write`. Each of them
takes the integer part, and both layers take 0 for no timeout.

The numbers are those of Python 3. `PyArg_ParseTuple` and `PyLong_AsLong` refuse
what does not fit, and then no wait is installed.

## Main result

* `timeouts_bounded_iff`: the exact condition for a timeout to bound its wait, on
  each way.
-/

namespace Jega.Socket

open Locks

/-- `int(t)`, which truncates. -/
def int (t : ℚ) : Int := t.num.tdiv t.den

/-- The format unit `i`, `none` for an `OverflowError`. -/
def as_int (n : Int) : Option Int := if -2 ^ 31 ≤ n ∧ n < 2 ^ 31 then some n else none

/-- `PyLong_AsLong`, `none` for an `OverflowError`. -/
def as_long (n : Int) : Option Int := if -2 ^ 63 ≤ n ∧ n < 2 ^ 63 then some n else none

/-! ## Waiting for a descriptor -/

/-- `LoopObject_io_trampoline` up to the switch, `none` if it raises. -/
def LoopObject_io_trampoline (s : Io.St) (current : Gid) (fd : Io.Fd) (read write : Bool)
    (timeout : Int) (exception : Option Exc) : Option Io.St :=
  match as_int timeout with
  | none => none
  | some timeout =>
    if timeout < 0 then none -- "timeout value out of range "
    else if !read ∧ !write ∧ timeout ≤ 0 then none
    else
      some (Io.internal_io_trampoline s current fd ⟨read, write⟩ timeout.toNat exception)

/-- The function that the three of `jsocket.py` are. -/
def wait (read write : Bool) (s : Io.St) (current : Gid) (fileno : Io.Fd) (timeout : Option ℚ)
    (timeout_exc : Option Exc) : Option Io.St :=
  -- `if not timeout: timeout = 0`
  let timeout := timeout.getD 0
  LoopObject_io_trampoline s current fileno read write (int timeout) timeout_exc

def wait_read := wait true false
def wait_write := wait false true
def wait_readwrite := wait true true

/-! ## `select` -/

/-- `EventObject_wait`, `none` if it raises. -/
def EventObject_wait (s : Event.St) (current : Gid) (timeout : Option Int) : Option Event.St :=
  match timeout with
  | none => some (Event.event_wait s current 0)
  | some timeout =>
    match as_long timeout with
    | none => none
    | some seconds =>
      if seconds < 0 then none -- "timeout value out of range"
      else some (Event.event_wait s current seconds.toNat)

/-- `Event()`, on a loop with anything else scheduled. -/
def new_event (loop : LoopObject Callback) : Event.St :=
  { Event.init with locks := { Locks.init (fun _ => 1) with loop := loop } }

/-- The wait of `select` for its own event. -/
def select_wait (loop : LoopObject Callback) (current : Gid) (timeout : Option ℚ) :
    Option Event.St :=
  EventObject_wait (new_event loop) current (timeout.map int)

/-! ## `internal_connect` -/

/-- What `connect_ex` answers. -/
inductive Connected where
  /-- 0 or `EISCONN`. -/
  | connected
  /-- `EWOULDBLOCK`, `EINPROGRESS` or `EALREADY`. -/
  | pending
  | failed (errno : Int)
deriving DecidableEq, Repr

/-- What the system answers in one round of `internal_connect`. -/
structure Round where
  /-- `SO_ERROR`. -/
  err : Int
  result : Connected
  /-- What `time.time()` gives, when it is asked. -/
  time : ℚ

/-- `timeleft` of a round. -/
def Round.timeleft (r : Round) (deadline : ℚ) : ℚ := deadline - r.time

/-- The rounds of a socket with a timeout that call `wait_write`, each with its
`timeleft`. Every wait may be the last one. -/
def connect_waits (deadline : ℚ) : List Round → List Round
  | [] => []
  | r :: rounds =>
    if r.err ≠ 0 then []
    else
      match r.result with
      | .connected => []
      | .failed _ => []
      | .pending =>
        if r.timeleft deadline ≤ 0 then [] -- 'timed out'
        else r :: connect_waits deadline rounds

/-! ## What the layers take for no timeout -/

/-- If a wait was installed, picoev has a timeout for it. -/
def Watched (fd : Io.Fd) (r : Option Io.St) : Prop :=
  ∀ s, r = some s → (s.fds fd).timeout_in_secs ≠ 0

/-- If a wait was installed, its timer was not cancelled on the spot. -/
def Timed (g : Gid) (r : Option Event.St) : Prop :=
  ∀ s f, r = some s → s.locks.frames g = some f → (s.locks.loop.handles f.timer).cancelled = false

/-! ## Each layer -/

/-- The integer part of a number that is not negative. -/
theorem int_eq_floor {t : ℚ} (ht : 0 ≤ t) : int t = ⌊t⌋ := by
  have hnum : 0 ≤ t.num := Rat.num_nonneg.2 ht
  rw [int, Rat.floor_def', Int.tdiv_eq_ediv_of_nonneg hnum]

theorem int_nonneg {t : ℚ} (ht : 0 ≤ t) : 0 ≤ int t := by
  rw [int_eq_floor ht]
  exact Int.floor_nonneg.2 ht

/-- It is 0 below 1. -/
theorem int_toNat_ne_zero_iff {t : ℚ} (ht : 0 ≤ t) : (int t).toNat ≠ 0 ↔ 1 ≤ t := by
  rw [int_eq_floor ht, ← Nat.pos_iff_ne_zero, ← Int.pos_iff_toNat_pos, Int.floor_pos]

/-- What does not fit is more than 0. -/
theorem one_le_of_large {t : ℚ} (ht : 0 ≤ t) {max : Int} (hmax : 0 < max) (h : max ≤ int t) :
    1 ≤ t := by
  rw [← int_toNat_ne_zero_iff ht]
  omega

/-- The slot gets the integer part. -/
theorem watched_wait_iff {read write : Bool} (hevents : read = true ∨ write = true) (s : Io.St)
    (g : Gid) (fd : Io.Fd) (exc : Option Exc) {t : ℚ} (ht : 0 ≤ t) :
    Watched fd (wait read write s g fd (some t) exc) ↔ 1 ≤ t := by
  have hnonneg := int_nonneg ht
  by_cases hfits : int t < 2 ^ 31
  · have hint : as_int (int t) = some (int t) := if_pos ⟨by omega, hfits⟩
    have hsome : wait read write s g fd (some t) exc =
        some (Io.internal_io_trampoline s g fd ⟨read, write⟩ (int t).toNat exc) := by
      have hgo : ¬ ((!read) = true ∧ (!write) = true ∧ int t ≤ 0) := by
        rintro ⟨hread, hwrite, _⟩
        rw [Bool.not_eq_true'] at hread hwrite
        simp [hread, hwrite] at hevents
      simp only [wait, LoopObject_io_trampoline, Option.getD_some, hint]
      rw [if_neg (not_lt.2 hnonneg), if_neg hgo]
    have hslot : ((Io.internal_io_trampoline s g fd ⟨read, write⟩ (int t).toNat exc).fds
        fd).timeout_in_secs = (int t).toNat := by
      simp [Io.internal_io_trampoline, Io.picoev_add]
    rw [hsome, ← int_toNat_ne_zero_iff ht]
    constructor
    · intro h
      have hne := h _ rfl
      rwa [hslot] at hne
    · intro h s' hs'
      cases hs'
      rwa [hslot]
  · -- Case: an `OverflowError`
    have hint : as_int (int t) = none := if_neg fun h => hfits h.2
    have hnone : wait read write s g fd (some t) exc = none := by
      simp only [wait, LoopObject_io_trampoline, Option.getD_some, hint]
    rw [hnone]
    refine iff_of_true nofun ?_
    exact one_le_of_large ht (by decide) (not_lt.1 hfits)

theorem loop_set_timeout_timer (loop : LoopObject Callback) (seconds : Nat)
    (throw : Option Tid → Callback) : (loop.loop_set_timeout seconds throw).2 = loop.next := rfl

/-- A new event is waited for at once, with a timer of its own. -/
theorem event_wait_new (loop : LoopObject Callback) (g : Gid) (seconds : Nat) :
    (Event.event_wait (new_event loop) g seconds).locks.frames g = some ⟨1, loop.next⟩ ∧
      (Event.event_wait (new_event loop) g seconds).locks.loop =
        (loop.loop_set_timeout seconds (.throw g)).1 := by
  simp [Event.event_wait, Event.wait_entered, Event.ConditionObject_wait,
    Event.ConditionObject_is_owned, Condition.new_waiter, semaphore_acquire, semaphore_release,
    take, note, new_event, Event.init, Locks.init, SemaphoreObject.init, Event.lock,
    loop_set_timeout_timer]

/-- A timer without seconds is cancelled. -/
theorem loop_set_timeout_cancelled (loop : LoopObject Callback) (g : Gid) (seconds : Nat) :
    ((loop.loop_set_timeout seconds (.throw g)).1.handles loop.next).cancelled = false ↔
      seconds ≠ 0 := by
  by_cases hs : seconds = 0
  · refine iff_of_false ?_ (not_not.2 hs)
    simp [LoopObject.loop_set_timeout, hs, LoopObject.cancel, LoopObject.loop_schedule_call,
      LoopObject.make_handle]
  · refine iff_of_true ?_ hs
    simp [LoopObject.loop_set_timeout, hs, LoopObject.loop_schedule_call_handles,
      LoopObject.make_handle]

/-- The timer gets the integer part. -/
theorem timed_select_iff (loop : LoopObject Callback) (g : Gid) {t : ℚ} (ht : 0 ≤ t) :
    Timed g (select_wait loop g (some t)) ↔ 1 ≤ t := by
  have hnonneg := int_nonneg ht
  by_cases hfits : int t < 2 ^ 63
  · have hlong : as_long (int t) = some (int t) := if_pos ⟨by omega, hfits⟩
    have hsome : select_wait loop g (some t) =
        some (Event.event_wait (new_event loop) g (int t).toNat) := by
      simp only [select_wait, EventObject_wait, Option.map_some, hlong]
      exact if_neg (not_lt.2 hnonneg)
    obtain ⟨hframe, hloop⟩ := event_wait_new loop g (int t).toNat
    rw [hsome, ← int_toNat_ne_zero_iff ht, ← loop_set_timeout_cancelled loop g, ← hloop]
    constructor
    · intro h
      exact h _ _ rfl hframe
    · intro h s f hs hf
      cases hs
      rw [hframe] at hf
      cases hf
      exact h
  · -- Case: an `OverflowError`
    have hlong : as_long (int t) = none := if_neg fun h => hfits h.2
    have hnone : select_wait loop g (some t) = none := by
      simp only [select_wait, EventObject_wait, Option.map_some, hlong]
    rw [hnone]
    refine iff_of_true nofun ?_
    exact one_le_of_large ht (by decide) (not_lt.1 hfits)

/-- `internal_connect` waits with time left. -/
theorem timeleft_pos {deadline : ℚ} {rounds : List Round} {r : Round}
    (hr : r ∈ connect_waits deadline rounds) : 0 < r.timeleft deadline := by
  induction rounds with
  | nil => exact absurd hr List.not_mem_nil
  | cons r' rounds ih =>
    unfold connect_waits at hr
    split at hr
    · exact absurd hr List.not_mem_nil
    · split at hr
      · exact absurd hr List.not_mem_nil
      · exact absurd hr List.not_mem_nil
      · split at hr
        · exact absurd hr List.not_mem_nil
        next hleft =>
          rcases List.mem_cons.1 hr with hhead | htail
          · rw [hhead]
            exact not_le.1 hleft
          · exact ih htail

/-! ## Main result -/

/-- A timeout bounds its wait, on each way, exactly if it is at least one
second; for `internal_connect`, if the clock is read a second before the
deadline. -/
theorem timeouts_bounded_iff (s : Io.St) (loop : LoopObject Callback) (g : Gid) (fd : Io.Fd)
    (exc : Option Exc) :
    (∀ t : ℚ, 0 < t →
      (Watched fd (wait_read s g fd (some t) exc) ↔ 1 ≤ t) ∧
      (Watched fd (wait_write s g fd (some t) exc) ↔ 1 ≤ t) ∧
      (Watched fd (wait_readwrite s g fd (some t) exc) ↔ 1 ≤ t)) ∧
    (∀ t : ℚ, 0 ≤ t → (Timed g (select_wait loop g (some t)) ↔ 1 ≤ t)) ∧
    (∀ (start timeout : ℚ) rounds, ∀ r ∈ connect_waits (start + timeout) rounds,
      (Watched fd (wait_write s g fd (some (r.timeleft (start + timeout))) exc) ↔
        r.time + 1 ≤ start + timeout)) := by
  refine ⟨?_, ?_, ?_⟩
  · intro t ht
    have hnonneg := ht.le
    refine ⟨?_, ?_, ?_⟩
    · exact watched_wait_iff (.inl rfl) s g fd exc hnonneg
    · exact watched_wait_iff (.inr rfl) s g fd exc hnonneg
    · exact watched_wait_iff (.inl rfl) s g fd exc hnonneg
  · intro t ht
    exact timed_select_iff loop g ht
  · intro start timeout rounds r hr
    have hpos := timeleft_pos hr
    refine (watched_wait_iff (.inr rfl) s g fd exc hpos.le).trans ?_
    rw [Round.timeleft, le_sub_iff_add_le, add_comm]

/-- Times above and below a second, and a connection that is tried at once. -/
theorem timeouts_bounded_second :
    Watched 7 (wait_read (Io.init 1 0) 2 7 (some (3 / 2)) none) ∧
    Timed 2 (select_wait (LoopObject.init Callback) 2 (some 1)) ∧
    Watched 7 (wait_write (Io.init 1 0) 2 7
      (some (Round.timeleft ⟨0, .pending, 0⟩ (0 + 10))) none) := by
  have hr : (⟨0, .pending, 0⟩ : Round) ∈ connect_waits (0 + 10) [⟨0, .pending, 0⟩] := by
    norm_num [connect_waits, Round.timeleft]
  obtain ⟨hwait, hselect, hconnect⟩ :=
    timeouts_bounded_iff (Io.init 1 0) (LoopObject.init Callback) 2 7 none
  refine ⟨?_, ?_, ?_⟩
  · exact (hwait (3 / 2) (by norm_num)).1.2 (by norm_num)
  · exact (hselect 1 (by norm_num)).2 (by norm_num)
  · exact (hconnect 0 10 _ _ hr).2 (by norm_num)

/-- Half a second lets `wait_read` wait for any time, 0 lets `select`, and half a
second left lets `internal_connect`. -/
theorem half_second_unbounded :
    ¬ Watched 7 (wait_read (Io.init 1 0) 2 7 (some (1 / 2)) none) ∧
    ¬ Timed 2 (select_wait (LoopObject.init Callback) 2 (some 0)) ∧
    (⟨0, .pending, 1 / 2⟩ : Round) ∈ connect_waits (0 + 1) [⟨0, .pending, 1 / 2⟩] ∧
    ¬ Watched 7 (wait_write (Io.init 1 0) 2 7
      (some (Round.timeleft ⟨0, .pending, 1 / 2⟩ (0 + 1))) none) := by
  refine ⟨?_, ?_, ?_, ?_⟩
  · rw [wait_read, watched_wait_iff (.inl rfl) _ _ _ _ (by norm_num)]
    norm_num
  · rw [timed_select_iff _ _ le_rfl]
    norm_num
  · norm_num [connect_waits, Round.timeleft]
  · rw [wait_write, watched_wait_iff (.inr rfl) _ _ _ _ (by norm_num [Round.timeleft])]
    norm_num [Round.timeleft]

end Jega.Socket
