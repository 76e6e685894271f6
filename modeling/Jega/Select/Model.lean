import Jega.Io.Readers

/-!
# Jega.Select.Model — `select`

`jega/ext/jselect.py` over the registry of the loop: the two loops that install
the callbacks, the wait, during which picoev reports descriptors to
`fd_callback`, and `close`. Other greenlets and what other callables do when
they are called are left out, and so is `error_list`, which nothing reads. The
descriptors are those of picoev's table, as in `Jega.Io.Registry`: `get_fileno` has
no such bound, and where it is a parameter here it raises on what has none of them.
-/

namespace Jega.Select

open Io hiding active init
open Io.Registry

/-- An object of the lists, by identity. -/
abbrev Fdobj := Nat

/-- The two methods that `SelectHelper` registers. -/
inductive Method where
  | _on_read
  | _on_write
deriving DecidableEq, Repr

/-- The callables of one `SelectHelper`: a method with an object as its
argument. They are new ones, so none is what the loop registers for itself. -/
structure Methods where
  bound : Method → Fdobj → Callable
  callee : Callable → Option (Method × Fdobj)
  callee_bound : ∀ method fdobj, callee (bound method fdobj) = some (method, fdobj)
  callee_self_pipe : callee read_from_self = none

/-- The callables by number, after that of the self-pipe. -/
def numbered : Methods where
  bound
    | ._on_read, fdobj => 2 * fdobj + 1
    | ._on_write, fdobj => 2 * fdobj + 2
  callee
    | 0 => none
    | n + 1 => some (if n % 2 = 0 then ._on_read else ._on_write, n / 2)
  callee_bound := by
    intro method fdobj
    cases method with
    | _on_read => simp
    | _on_write => simp [Nat.add_mod, Nat.mul_add_div]
  callee_self_pipe := rfl

/-- `get_fileno` of the integers that picoev has a slot for; the others, which it
returns as they are, are outside of the model. -/
def int_fileno (fdobj : Fdobj) : Option Slot :=
  if h : fdobj < MAX_FD then some ⟨fdobj, h⟩ else none

structure SelectHelper where
  _read_fds : List Slot
  _write_fds : List Slot
  /-- The flag of `_event`. -/
  _event : Bool
  rlist : List Fdobj
  wlist : List Fdobj
deriving DecidableEq, Repr

/-- `SelectHelper.__init__`. -/
def SelectHelper.init : SelectHelper := ⟨[], [], false, [], []⟩

namespace SelectHelper

def _on_read (self : SelectHelper) (fdobj : Fdobj) : SelectHelper :=
  { self with rlist := self.rlist ++ [fdobj], _event := true }

def _on_write (self : SelectHelper) (fdobj : Fdobj) : SelectHelper :=
  { self with wlist := self.wlist ++ [fdobj], _event := true }

/-- The list that a method appends to. -/
def ready (self : SelectHelper) : Method → List Fdobj
  | ._on_read => self.rlist
  | ._on_write => self.wlist

end SelectHelper

structure St where
  registry : Registry.St
  helper : SelectHelper

section Select

-- `fileno` is what `get_fileno` returns, `none` if it or the conversion to a
-- descriptor raises
variable (methods : Methods) (fileno : Fdobj → Option Slot)

/-! ## `SelectHelper` -/

/-- `SelectHelper.add_reader`. -/
def add_reader (s : St) (fdobj : Fdobj) : Option St :=
  (fileno fdobj).map fun fd =>
    { registry :=
        LoopObject_add_reader s.registry fd (methods.bound ._on_read fdobj) (none, none)
          s.registry.ssock
      helper := { s.helper with _read_fds := s.helper._read_fds ++ [fd] } }

/-- `SelectHelper.add_writer`. -/
def add_writer (s : St) (fdobj : Fdobj) : Option St :=
  (fileno fdobj).map fun fd =>
    { registry :=
        LoopObject_add_writer s.registry fd (methods.bound ._on_write fdobj) (none, none)
          s.registry.ssock
      helper := { s.helper with _write_fds := s.helper._write_fds ++ [fd] } }

/-- A call of a registered callable. -/
def call (self : SelectHelper) (callback : Option Callable) : SelectHelper :=
  match callback.bind methods.callee with
  | some (._on_read, fdobj) => self._on_read fdobj
  | some (._on_write, fdobj) => self._on_write fdobj
  | none => self

/-- `fd_callback`. -/
def fd_callback (s : St) (fd : Slot) (events : Revents) : St :=
  let carg := callbacks s.registry.mem (none, none) (s.registry.fds fd).cb_arg
  if events.timeout then s
  else if events.read then { s with helper := call methods s.helper carg.1 }
  else if events.write then { s with helper := call methods s.helper carg.2 }
  else { s with registry := fd_callback_err s.registry fd } -- `PICOEV_ERR`

/-- Picoev reports a descriptor. -/
def report (s : St) (r : Slot × Revents) : St :=
  if Reads s.registry r.1 then fd_callback methods s r.1 r.2 else s

/-- `SelectHelper.close`. -/
def close (s : St) : Registry.St :=
  let registry :=
    s.helper._read_fds.foldl (fun t fd => LoopObject_remove_reader t fd (none, none)) s.registry
  s.helper._write_fds.foldl (fun t fd => LoopObject_remove_writer t fd (none, none)) registry

/-! ## `select` -/

/-- A loop over one of the lists, and whether it raised. -/
def add_each (add : St → Fdobj → Option St) (s : St) : List Fdobj → St × Bool
  | [] => (s, false)
  | fdobj :: fdobjs =>
    match add s fdobj with
    | none => (s, true)
    | some s' => add_each add s' fdobjs

inductive Outcome where
  | returned (rlist wlist : List Fdobj)
  | raised
deriving DecidableEq, Repr

/-- The two loops before the `try`. -/
def install (s : Registry.St) (read_list write_list : List Fdobj) : St × Bool :=
  let r := add_each (add_reader methods fileno) ⟨s, .init⟩ read_list
  if r.2 then r else add_each (add_writer methods fileno) r.1 write_list

/-- `select`. A `timeout` of `none` is one that `int` does not take, `reports`
is what picoev reports during the wait, and `raises` whether the wait ends with an
exception. -/
def select (s : Registry.St) (read_list write_list : List Fdobj) (timeout : Option (Option Int))
    (reports : List (Slot × Revents)) (raises : Bool) : Registry.St × Outcome :=
  match timeout with
  | none => (s, .raised)
  | some _ =>
    let r := install methods fileno s read_list write_list
    -- nothing has entered the `try` yet
    if r.2 then (r.1.registry, .raised)
    else
      let t := reports.foldl (report methods) r.1
      (close t, if raises then .raised else .returned t.helper.rlist t.helper.wlist)

end Select

end Jega.Select
