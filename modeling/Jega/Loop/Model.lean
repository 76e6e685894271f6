import Jega.Greenlet
import Mathlib.Data.List.Basic
import Mathlib.Logic.Function.Basic

/-!
# Jega.Loop.Model — handles and the loop's pending queue

`timer.c` and the scheduling half of `loop.c`. Handle and timer objects live in
an arena indexed by address, because they are shared: a channel keeps a
reference to its notify handle and a worker keeps pushing one handle again and
again. `κ` is the type of the callbacks a component schedules.

The queue functions are list operations here: `queue_push` appends and
`queue_shift` takes the head.
-/

namespace Jega

/-- A handle or timer object, by address. -/
abbrev Hid := Nat

/-- `Py_TYPE` of an entry, as `check_handle_obj` reads it. -/
inductive HandleType where
  | Handle
  | Timer
deriving DecidableEq, Repr

/-- `HandleObject` and the fields `TimerObject` shares with it. -/
structure HandleObject (κ : Type) where
  type : HandleType
  callback : Option κ
  greenlet : Option Gid
  called : Bool
  cancelled : Bool

/-- What firing an entry does: nothing, a switch into a greenlet, or a call. -/
inductive Fired (κ : Type) where
  | nothing
  | switch (g : Gid)
  | call (k : κ)
deriving DecidableEq, Repr

/-- The switch or call shared by the two firing functions: a greenlet if the
entry has one that is not dead, its callback otherwise. -/
def HandleObject.invoke {κ : Type} (dead : Gid → Bool) (handle : HandleObject κ) : Fired κ :=
  match handle.greenlet, handle.callback with
  | some g, _ => if !dead g then .switch g else .nothing
  | none, some k => .call k
  | none, none => .nothing

/-- `fire_handle`: it tests `called` and never sets it. -/
def fire_handle {κ : Type} (dead : Gid → Bool) (handle : HandleObject κ) :
    HandleObject κ × Fired κ :=
  if handle.cancelled then (handle, .nothing)
  else if !handle.called then (handle, handle.invoke dead)
  else (handle, .nothing)

/-- `fire_timer` up to the switch or call: it sets `called` first. -/
def fire_timer {κ : Type} (dead : Gid → Bool) (timer : HandleObject κ) :
    HandleObject κ × Fired κ :=
  if timer.cancelled then (timer, .nothing)
  else if !timer.called then ({ timer with called := true }, timer.invoke dead)
  else (timer, .nothing)

/-- `loop_state`. -/
inductive loop_state where
  | L_STOP
  | L_RUNNING
deriving DecidableEq, Repr

/-- The scheduling fields of `LoopObject`. Entries of the queue and of the heap
are allocated objects. -/
structure LoopObject (κ : Type) where
  handles : Hid → HandleObject κ
  next : Hid
  pendings : List Hid
  scheduled : List Hid
  state : loop_state
  pendings_lt : ∀ h ∈ pendings, h < next
  scheduled_lt : ∀ h ∈ scheduled, h < next

namespace LoopObject

variable {κ : Type}

/-- A running loop with nothing scheduled. -/
def init (κ : Type) : LoopObject κ where
  handles := fun _ => ⟨.Handle, none, none, false, true⟩
  next := 0
  pendings := []
  scheduled := []
  state := .L_RUNNING
  pendings_lt := by simp
  scheduled_lt := by simp

/-- `make_handle`: a `TimerObject` for a positive delay, a `HandleObject`
otherwise. -/
def make_handle (self : LoopObject κ) (seconds : Nat) (callback : Option κ)
    (greenlet : Option Gid) : LoopObject κ × Hid :=
  let type := if seconds > 0 then .Timer else .Handle
  ({ self with
      handles := Function.update self.handles self.next ⟨type, callback, greenlet, false, false⟩
      next := self.next + 1
      pendings_lt := fun h hh => Nat.lt_succ_of_lt (self.pendings_lt h hh)
      scheduled_lt := fun h hh => Nat.lt_succ_of_lt (self.scheduled_lt h hh) },
    self.next)

/-- `schedule_timer`: a handle goes to the queue, a timer to the heap. -/
def schedule_timer (self : LoopObject κ) (o : Hid) : LoopObject κ :=
  if ho : o < self.next then
    match (self.handles o).type with
    | .Handle =>
      { self with
        pendings := self.pendings ++ [o]
        pendings_lt := by
          intro h hh
          rcases List.mem_append.1 hh with hh | hh
          · exact self.pendings_lt h hh
          · rw [List.mem_singleton] at hh
            exact hh ▸ ho }
    | .Timer =>
      { self with
        scheduled := o :: self.scheduled
        scheduled_lt := by
          intro h hh
          rcases List.mem_cons.1 hh with hh | hh
          · exact hh ▸ ho
          · exact self.scheduled_lt h hh }
  else self

/-- `internal_loop_schedule_call`. -/
def loop_schedule_call (self : LoopObject κ) (seconds : Nat) (cb : Option κ)
    (greenlet : Option Gid) : LoopObject κ × Hid :=
  let (self, handle) := self.make_handle seconds cb greenlet
  (self.schedule_timer handle, handle)

/-- `((TimerObject*)timer)->cancelled = 1`. -/
def cancel (self : LoopObject κ) (timer : Hid) : LoopObject κ :=
  { self with
    handles := Function.update self.handles timer
      { self.handles timer with cancelled := true } }

/-- `loop_set_timeout`: a call that throws into the current greenlet. The
exception carries its timer, unless there is no deadline, and then the call is
cancelled at once. -/
def loop_set_timeout (self : LoopObject κ) (seconds : Nat) (throw : Option Tid → κ) :
    LoopObject κ × Hid :=
  let timer := if seconds > 0 then some self.next else none
  let scheduled := self.loop_schedule_call seconds (some (throw timer)) none
  (if seconds = 0 then scheduled.1.cancel scheduled.2 else scheduled.1, scheduled.2)

/-- One round of the loop of `fire_pendings` up to the switch or call: the head
of the queue is shifted and fired. -/
def fire_pendings_next (dead : Gid → Bool) (self : LoopObject κ) :
    Option (LoopObject κ × Fired κ) :=
  if self.state = .L_STOP then none
  else
    -- `state != L_STOP && (item = queue_shift(pendings)) != NULL`
    match hp : self.pendings with
    | [] => none
    | item :: rest =>
      let fired :=
        match (self.handles item).type with
        | .Handle => fire_handle dead (self.handles item)
        | .Timer => fire_timer dead (self.handles item)
      some
        ({ self with
            handles := Function.update self.handles item fired.1
            pendings := rest
            pendings_lt := fun h hh => self.pendings_lt h (by rw [hp]; exact List.mem_cons_of_mem _ hh) },
          fired.2)

/-- One round of the loop of `fire_timers` for a timer that is due: it moves
from the heap to the queue. -/
def fire_timers_next (self : LoopObject κ) (timer : Hid) : Option (LoopObject κ) :=
  if hm : timer ∈ self.scheduled then
    some
      { self with
        scheduled := self.scheduled.erase timer
        pendings := self.pendings ++ [timer]
        scheduled_lt := fun h hh => self.scheduled_lt h (List.mem_of_mem_erase hh)
        pendings_lt := by
          intro h hh
          rcases List.mem_append.1 hh with hh | hh
          · exact self.pendings_lt h hh
          · rw [List.mem_singleton] at hh
            exact hh ▸ self.scheduled_lt timer hm }
  else none

end LoopObject

end Jega
