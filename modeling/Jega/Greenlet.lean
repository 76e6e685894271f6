import Mathlib.Data.Finset.Basic

/-!
# Jega.Greenlet — what the C code sees of greenlets

A greenlet is known by its address. It is resumed by a switch, which makes the
`greenlet_switch` it is suspended in return the argument of the switch, or by
a throw, which makes that `greenlet_switch` return `NULL` with an exception
set.

C code of jega may run on with an error set: a wait that takes its lock back, a
sleep that returns its timer. All models take the interpreter to do with such a
call or switch what it does without an error, since it looks at the indicator
where a call returns `NULL` and not before. Python code in which an error is set
already when it goes on is where this ends, because an interpreter may notice at
any instruction: a run has no such step (an exception thrown into a parked worker
of `Jega.Executor`, the switch after a `greenlet_setparent` that has raised).
-/

namespace Jega

/-- A greenlet, by address. -/
abbrev Gid := Nat

/-- A timer object, by address. -/
abbrev Tid := Nat

/-- A Python object, by identity. `loop_switch_value` is the one object
`init_loop_module` builds for switches that carry no data; a switch without
arguments gives the empty tuple. -/
inductive PyObj where
  | loop_switch_value
  | empty_tuple
  | None
  | obj (n : Nat)
deriving DecidableEq, Repr

/-- A pending Python error, or what a caller gave to be raised. `timer` is the
attribute `loop_set_timeout` puts on the instance it throws; a `TimeoutException`
raised by hand has none. `no_class` is an object that is no class, such as an
instance. -/
inductive Exc where
  | TimeoutException (timer : Option Tid)
  | AttributeError
  | SystemError
  | other (n : Nat)
  | no_class (n : Nat)
deriving DecidableEq, Repr

/-- `PyExceptionClass_Check`. -/
def Exc.is_class : Exc → Bool
  | .no_class _ => false
  | _ => true

/-- The error that `PyErr_SetString` sets for what it is given: "exception %R not
a BaseException subclass" if that is no class. -/
def PyErr_SetString (exception : Exc) : Exc :=
  if exception.is_class then exception else .SystemError

/-- The error is the one that was given exactly if that is a class. -/
theorem PyErr_SetString_eq_iff {exception : Exc} :
    PyErr_SetString exception = exception ↔ exception.is_class = true := by
  cases exception <;> simp [PyErr_SetString, Exc.is_class]

/-- How a suspended greenlet is resumed. -/
inductive Resumption where
  | value (v : PyObj)
  | throw (e : Exc)
deriving DecidableEq, Repr

end Jega
