import Mathlib.Logic.Function.Basic

/-!
# Jega.Io.Picoev — the descriptor table of picoev

`picoev.h` over the epoll backend, with its asserts compiled out. There is one
slot for each descriptor. `epoll_ctl` errors are not looked at, so adding and
deleting never fail. `α` is the type of callback arguments and `η` that of the
handlers.
-/

namespace Jega.Io

/-- `PICOEV_READ` and `PICOEV_WRITE` of a set of events. -/
structure Events where
  read : Bool
  write : Bool
deriving DecidableEq, Repr

/-- Every event of the first set is in the second. -/
def Events.Subset (a b : Events) : Prop :=
  (a.read = true → b.read = true) ∧ (a.write = true → b.write = true)

theorem Events.Subset.refl (a : Events) : a.Subset a := ⟨id, id⟩

/-- What picoev reports to a handler. -/
structure Revents where
  read : Bool
  write : Bool
  timeout : Bool
  err : Bool
deriving DecidableEq, Repr

def Revents.nonzero (r : Revents) : Bool := r.read || r.write || r.timeout || r.err

/-- `loop_id` is 0 for a descriptor that is not registered. -/
structure picoev_fd (η α : Type) where
  callback : η
  cb_arg : α
  loop_id : Nat
  events : Events
  timeout_in_secs : Nat
deriving DecidableEq, Repr

/-- `picoev_is_active`. -/
def picoev_is_active {η α : Type} (loop_id : Nat) (target : picoev_fd η α) : Bool :=
  target.loop_id = loop_id

/-- `picoev_add`: the slot is written whatever it held. -/
def picoev_add {η α : Type} (loop_id : Nat) (events : Events) (timeout_in_secs : Nat)
    (callback : η) (cb_arg : α) : picoev_fd η α :=
  ⟨callback, cb_arg, loop_id, events, timeout_in_secs⟩

/-- `picoev_del`: the callback and its argument stay in the slot. -/
def picoev_del {η α : Type} (target : picoev_fd η α) : picoev_fd η α :=
  { target with loop_id := 0, events := ⟨false, false⟩, timeout_in_secs := 0 }

/-- `picoev_set_events`. -/
def picoev_set_events {η α : Type} (target : picoev_fd η α) (events : Events) : picoev_fd η α :=
  { target with events := events }

end Jega.Io
