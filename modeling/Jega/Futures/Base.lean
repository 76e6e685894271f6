import Mathlib.Tactic.Basic

/-!
# Jega.Futures.Base — `Future` of `_base.py`

The methods of a future, as functions of it. What runs under `_condition` does
not suspend, `Condition.wait` apart, and that lets go of the condition; `result`
is given in two parts, before and after it.

`none` is Python's `None`. The callbacks that `_run_callbacks` calls and the
waiters that a future tells about its end are not part of the future.
-/

namespace Jega.Futures

/-- `_state`. -/
inductive State where
  | PENDING
  | RUNNING
  | CANCELLED
  | CANCELLED_AND_NOTIFIED
  | FINISHED
deriving DecidableEq, Repr

def State.text : State → String
  | .PENDING => "PENDING"
  | .RUNNING => "RUNNING"
  | .CANCELLED => "CANCELLED"
  | .CANCELLED_AND_NOTIFIED => "CANCELLED_AND_NOTIFIED"
  | .FINISHED => "FINISHED"

/-- `_state in [CANCELLED_AND_NOTIFIED, FINISHED]` -/
def State.settled : State → Bool
  | .CANCELLED_AND_NOTIFIED | .FINISHED => true
  | .PENDING | .RUNNING | .CANCELLED => false

/-- What the methods raise; `ε` are the exceptions of other code. -/
inductive Raised (ε : Type) where
  | cancelled_error
  | timeout_error
  | runtime_error (message : String)
  | attribute_error (message : String)
  | other (e : ε)
deriving DecidableEq, Repr

/-- A future, by its identity. -/
abbrev Fid := Nat

/-- A done callback, by its identity. -/
abbrev Func := Nat

/-- A waiter of `wait` or `as_completed`, by its identity. -/
abbrev Wid := Nat

/-- The truth value of an exception object. -/
class Truth (ε : Type) where
  bool : ε → Bool

/-- That of an integer. -/
instance : Truth Nat where
  bool e := e ≠ 0

structure Future (α ε : Type) where
  _state : State
  _used : Bool
  _result : Option α
  _exception : Option ε
  _callbacks : List Func
  _waiters : List Wid
deriving DecidableEq, Repr

namespace Future

variable {α ε : Type}

/-- `__init__` -/
def new : Future α ε where
  _state := .PENDING
  _used := false
  _result := none
  _exception := none
  _callbacks := []
  _waiters := []

def _run_callbacks (f : Future α ε) : Future α ε := { f with _callbacks := [] }

/-! ## The methods of clients -/

def cancel (f : Future α ε) : Future α ε × Bool :=
  match f._state with
  | .RUNNING | .FINISHED => (f, false)
  | .CANCELLED | .CANCELLED_AND_NOTIFIED => (f, true)
  | .PENDING => (_run_callbacks { f with _state := .CANCELLED }, true)

def cancelled (f : Future α ε) : Bool :=
  f._state = .CANCELLED ∨ f._state = .CANCELLED_AND_NOTIFIED

def running (f : Future α ε) : Bool := f._state = .RUNNING

def done (f : Future α ε) : Bool :=
  f._state = .CANCELLED ∨ f._state = .CANCELLED_AND_NOTIFIED ∨ f._state = .FINISHED

def _get_result [Truth ε] (f : Future α ε) :
    Future α ε × Except (Raised ε) (Option α) :=
  if f._used then
    (f, .error (.runtime_error "the result of a futue can only be fetched once"))
  else
    let got := match f._exception with
      | some e => if Truth.bool e then .error (.other e) else .ok f._result
      | none => .ok f._result
    ({ f with _used := true, _exception := none, _result := none }, got)

/-- The test that `result` makes before and after it waits; `none` where the
future is not done. -/
def result_test [Truth ε] (f : Future α ε) :
    Option (Future α ε × Except (Raised ε) (Option α)) :=
  match f._state with
  | .CANCELLED | .CANCELLED_AND_NOTIFIED => some (f, .error .cancelled_error)
  | .FINISHED => some f._get_result
  | .PENDING | .RUNNING => none

/-- `result` after `Condition.wait`. -/
def result_woken [Truth ε] (f : Future α ε) : Future α ε × Except (Raised ε) (Option α) :=
  f.result_test.getD (f, .error .timeout_error)

/-- The test of `exception`, before and after it waits. -/
def exception_test (f : Future α ε) : Option (Except (Raised ε) (Option ε)) :=
  match f._state with
  | .CANCELLED | .CANCELLED_AND_NOTIFIED => some (.error .cancelled_error)
  | .FINISHED => some (.ok f._exception)
  | .PENDING | .RUNNING => none

/-- The second component tells whether `func` is called at once. -/
def add_done_callback (f : Future α ε) (func : Func) : Future α ε × Bool :=
  if f.done then (f, true) else ({ f with _callbacks := f._callbacks ++ [func] }, false)

/-! ## The methods of workers -/

def set_running_or_notify_cancel (f : Future α ε) : Except (Raised ε) (Future α ε × Bool) :=
  match f._state with
  | .CANCELLED => .ok ({ f with _state := .CANCELLED_AND_NOTIFIED }, false)
  | .PENDING => .ok ({ f with _state := .RUNNING }, true)
  | .RUNNING | .CANCELLED_AND_NOTIFIED | .FINISHED =>
    .error (.runtime_error ("Future in unexpected state: " ++ f._state.text))

def set_result (f : Future α ε) (result : Option α) : Future α ε :=
  _run_callbacks { f with _result := result, _state := .FINISHED }

def set_exception (f : Future α ε) (exception : ε) : Future α ε :=
  _run_callbacks { f with _exception := some exception, _state := .FINISHED }

/-! ## What a future holds -/

/-- The future holds what a call returned or raised, and nothing else. -/
def Carries (f : Future α ε) : Except ε (Option α) → Prop
  | .ok r => f._result = r ∧ f._exception = none
  | .error e => f._result = none ∧ f._exception = some e

/-- It holds neither a result nor an exception. -/
def Empty (f : Future α ε) : Prop := f._result = none ∧ f._exception = none

/-- It holds what the call gave until that was fetched, and then nothing. -/
def Keeps (f : Future α ε) (o : Except ε (Option α)) : Prop :=
  (f._used = false → f.Carries o) ∧ (f._used = true → f.Empty)

theorem carries_set_result {f : Future α ε} (hf : f.Empty) (r : Option α) :
    (f.set_result r).Carries (.ok r) := ⟨rfl, hf.2⟩

theorem carries_set_exception {f : Future α ε} (hf : f.Empty) (e : ε) :
    (f.set_exception e).Carries (.error e) := ⟨hf.1, rfl⟩

/-- The futures differ in their callbacks and waiters only. -/
structure Alike (f f' : Future α ε) : Prop where
  state : f'._state = f._state
  used : f'._used = f._used
  result : f'._result = f._result
  exception : f'._exception = f._exception

theorem Alike.refl (f : Future α ε) : Alike f f := ⟨rfl, rfl, rfl, rfl⟩

theorem Alike.empty {f f' : Future α ε} (h : Alike f f') (hf : f.Empty) : f'.Empty :=
  ⟨h.result.trans hf.1, h.exception.trans hf.2⟩

theorem Alike.carries {f f' : Future α ε} (h : Alike f f') {o : Except ε (Option α)}
    (hf : f.Carries o) : f'.Carries o := by
  cases o with
  | ok r => exact ⟨h.result.trans hf.1, h.exception.trans hf.2⟩
  | error e => exact ⟨h.result.trans hf.1, h.exception.trans hf.2⟩

theorem Alike.keeps {f f' : Future α ε} (h : Alike f f') {o : Except ε (Option α)}
    (hf : f.Keeps o) : f'.Keeps o := by
  constructor
  · intro hu
    exact h.carries (hf.1 (h.used ▸ hu))
  · intro hu
    exact h.empty (hf.2 (h.used ▸ hu))

theorem add_done_callback_alike (f : Future α ε) (func : Func) :
    Alike f (f.add_done_callback func).1 := by
  unfold add_done_callback
  split
  · exact Alike.refl f
  · exact ⟨rfl, rfl, rfl, rfl⟩

variable [Truth ε]

/-- The first fetch gives what the call gave, and every other one an error. -/
theorem get_result_first {f : Future α ε} {o : Except ε (Option α)} (hf : f.Carries o)
    (hused : f._used = false) (htrue : ∀ e, o = .error e → Truth.bool e = true) :
    f._get_result.2 = o.mapError .other := by
  unfold _get_result
  rw [hused]
  cases o with
  | ok r =>
    obtain ⟨hr, he⟩ := hf
    simp only [he, hr, Bool.false_eq_true, if_false]
    rfl
  | error e =>
    obtain ⟨hr, he⟩ := hf
    simp only [he, htrue e rfl, Bool.false_eq_true, if_false, if_true]
    rfl

theorem get_result_keeps {f : Future α ε} {o : Except ε (Option α)} (hf : f.Keeps o) :
    f._get_result.1.Keeps o := by
  unfold _get_result
  split
  · exact hf
  · constructor
    · intro hused
      cases hused
    · intro _
      exact ⟨rfl, rfl⟩

theorem get_result_state (f : Future α ε) : f._get_result.1._state = f._state := by
  unfold _get_result
  split <;> rfl

/-- `result` changes a finished future only. -/
theorem result_test_unfinished {f : Future α ε} (hf : f._state ≠ .FINISHED) :
    (f.result_test.map Prod.fst).getD f = f := by
  unfold result_test
  cases hs : f._state with
  | FINISHED => exact absurd hs hf
  | PENDING => rfl
  | RUNNING => rfl
  | CANCELLED => rfl
  | CANCELLED_AND_NOTIFIED => rfl

theorem result_test_finished {f : Future α ε} (hf : f._state = .FINISHED) :
    (f.result_test.map Prod.fst).getD f = f._get_result.1 := by
  unfold result_test
  rw [hf]
  rfl

end Future

end Jega.Futures
