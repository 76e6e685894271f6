import Jega.Futures.Waiting

/-!
# Jega.Futures.AsCompleted — `as_completed`

Any number of generators of `as_completed`, each for distinct futures and
without a timeout, while clients cancel the futures and their workers complete
them. A generator begins at its first `next`. It stops at each `yield`, where
the caller of `next` goes on, and in the wait of its event, where the caller is
suspended with it; any greenlet may make the next call.

As in `wait`, nobody suspends while holding a condition or the lock of a waiter,
and each event sees the loop by itself. The field `yielded` is history.
-/

namespace Jega.Futures.AsCompleted

open Waiting

/-- What a generator may raise; `thrown` is what ended the wait of its event. -/
inductive Error where
  | key_error (future : Fid)
  | value_error (message : String)
  | thrown (e : Option Exc)
deriving DecidableEq, Repr

inductive Pc where
  | created
  /-- At the first `yield`, with the rest of `finished`. -/
  | first (rest : List Fid)
  /-- At the `while`; nobody sees a generator there. -/
  | looping
  /-- In `waiter.event.wait(wait_timeout)`. -/
  | waiting
  /-- At the second `yield`, with the rest of `finished`. -/
  | yielding (future : Fid) (rest : List Fid)
  | closed
  | returned
  | raised (e : Error)
deriving DecidableEq, Repr

/-- A generator with its locals. -/
structure Gen where
  fs : List Fid
  waiter : Wid
  pending : Finset Fid
  pc : Pc
  yielded : List Fid
deriving DecidableEq

structure St (α ε : Type) extends Table α ε where
  workers : Fid → Waiting.Worker
  gens : Nat → Option Gen
  next_gen : Nat
  /-- The generator that a greenlet is suspended in. -/
  calls : Gid → Option Nat

variable {α ε : Type}

namespace St

/-- Futures in any states that nobody waits on yet. -/
def init (futs : Fid → Future α ε) : St α ε where
  futs := fun f => { futs f with _waiters := [] }
  waiters := fun _ => none
  next := 0
  workers := fun f => .of (futs f)._state
  gens := fun _ => none
  next_gen := 0
  calls := fun _ => none

def set_gen (s : St α ε) (n : Nat) (G : Gen) : St α ε :=
  { s with gens := Function.update s.gens n (some G) }

def set_waiter (s : St α ε) (waiter : Wid) (w : Waiter) : St α ε :=
  { s with waiters := Function.update s.waiters waiter (some w) }

/-- The generator is left at `pc`, through its `finally`. -/
def finish (s : St α ε) (n : Nat) (G : Gen) (pc : Pc) : St α ε :=
  let removed := uninstall G.waiter G.fs s.futs
  let pc := if removed.2 then pc else .raised (.value_error "list.remove(x): x not in list")
  { s with futs := removed.1 }.set_gen n { G with pc := pc }

/-- `for future in finished` with the `yield` of the second loop. -/
def second_loop (again : St α ε → Gen → St α ε) (s : St α ε) (n : Nat) (G : Gen) :
    List Fid → St α ε
  | [] => again s G
  | future :: rest =>
    s.set_gen n { G with pc := .yielding future rest, yielded := G.yielded ++ [future] }

/-- After `waiter.event.wait`; `again` is the `while`. -/
def waited (again : St α ε → Gen → St α ε) (s : St α ε) (g : Gid) (n : Nat) (G : Gen)
    (res : Event.Result) : St α ε :=
  match res with
  | .outcome (.NULL e) => s.finish n G (.raised (.thrown e))
  | _ =>
    match s.waiters G.waiter with
    | none => s
    | some w =>
      let finished := w.finished_futures
      let s := s.set_waiter G.waiter
        { w with finished_futures := [], event := Event.EventObject_clear w.event g }
      second_loop again s n G finished

/-- `while pending`, for a number of rounds. -/
def while_pending (g : Gid) (n : Nat) : Nat → St α ε → Gen → St α ε
  | 0, s, _ => s
  | fuel + 1, s, G =>
    if G.pending = ∅ then s.finish n G .returned
    else
      match s.waiters G.waiter with
      | none => s
      | some w =>
        -- a timeout of `None` is 0 seconds
        let event := Event.event_wait w.event g 0
        let s := s.set_waiter G.waiter { w with event := event }
        match event.ended.drop w.event.ended.length with
        | [] =>
          { s.set_gen n { G with pc := .waiting } with
            calls := Function.update s.calls g (some n) }
        | (_, res) :: _ => waited (while_pending g n fuel) s g n G res

/-- Two rounds are enough: the event is clear after the first one. -/
def rounds : Nat := 2

/-- `for future in finished` with the `yield` of the first loop. -/
def first_loop (s : St α ε) (g : Gid) (n : Nat) (G : Gen) : List Fid → St α ε
  | [] => while_pending g n rounds s { G with pc := .looping }
  | future :: rest =>
    s.set_gen n { G with pc := .first rest, yielded := G.yielded ++ [future] }

/-- `as_completed` up to its first loop; `order` is the order of the set
`finished`. -/
def begin (s : St α ε) (g : Gid) (n : Nat) (G : Gen) (order : List Fid) : St α ε :=
  let finished := s.done G.fs
  match s._create_and_install_waiters G.fs ._AS_COMPLETED with
  | .error _ => s
  | .ok (table, waiter) =>
    first_loop { s with toTable := table } g n
      { G with waiter := waiter, pending := G.fs.toFinset \ finished } order

/-- The generator goes on after the `yield` of the second loop. -/
def yielded (s : St α ε) (g : Gid) (n : Nat) (G : Gen) (future : Fid) (rest : List Fid) : St α ε :=
  if future ∈ G.pending then
    second_loop (while_pending g n rounds) s n
      { G with pending := G.pending.erase future, pc := .looping } rest
  else s.finish n G (.raised (.key_error future))

/-- The event of a waiter has moved, and the wait of a greenlet may have ended. -/
def settle (s : St α ε) (waiter : Wid) (w : Waiter) (event : Event.St) : St α ε :=
  let s := s.set_waiter waiter { w with event := event }
  match event.ended.drop w.event.ended.length with
  | [] => s
  | (g, res) :: _ =>
    match s.calls g with
    | none => s
    | some n =>
      match s.gens n with
      | none => s
      | some G =>
        waited (while_pending g n rounds) { s with calls := Function.update s.calls g none } g n
          { G with pc := .looping } res

/-- The worker of a future has called `set_running_or_notify_cancel`. -/
def began (s : St α ε) (future : Fid) : Except (Raised ε) (Table α ε × Bool) → St α ε
  | .ok (t, true) =>
    { s with toTable := t, workers := Function.update s.workers future .running }
  | .ok (t, false) => { s with toTable := t, workers := Function.update s.workers future .ended }
  | .error _ => { s with workers := Function.update s.workers future .ended }

def completed (s : St α ε) (future : Fid) (t : Table α ε) : St α ε :=
  { s with toTable := t, workers := Function.update s.workers future .ended }

end St

/-! ## The system -/

inductive Act (α ε : Type) where
  | cancel (g : Gid) (future : Fid)
  | set_running_or_notify_cancel (g : Gid) (future : Fid)
  | set_result (g : Gid) (future : Fid) (result : Option α)
  | set_exception (g : Gid) (future : Fid) (exception : ε)
  | as_completed (fs : List Fid)
  /-- `next` of a generator; the order is for its first one. -/
  | next (g : Gid) (n : Nat) (order : List Fid)
  /-- The generator is closed, or nobody holds it any more. -/
  | close (n : Nat)
  /-- The loop turns, or other code switches or throws into a greenlet, as the
  event of a waiter sees it. -/
  | turn (waiter : Wid) (a : Event.Act)

def next (s : St α ε) (g : Gid) (n : Nat) (G : Gen) (order : List Fid) : Option (St α ε) :=
  match G.pc with
  | .created =>
    if order.Nodup ∧ order.toFinset = s.done G.fs then some (s.begin g n G order) else none
  | .first rest => some (s.first_loop g n G rest)
  | .yielding future rest => some (s.yielded g n G future rest)
  | _ => none

def close (s : St α ε) (n : Nat) (G : Gen) : Option (St α ε) :=
  match G.pc with
  | .created => some (s.set_gen n { G with pc := .closed })
  | .first _ | .yielding _ _ => some (s.finish n G .closed)
  | _ => none

def step (s : St α ε) : Act α ε → Option (St α ε)
  | .cancel g future =>
    if s.calls g = none then some { s with toTable := s.cancel future } else none
  | .set_running_or_notify_cancel g future =>
    if s.calls g = none ∧ s.workers future = .before then
      some (s.began future (s.toTable.set_running_or_notify_cancel future g))
    else none
  | .set_result g future result =>
    if s.calls g = none ∧ s.workers future = .running then
      some (s.completed future (s.toTable.set_result future result g))
    else none
  | .set_exception g future exception =>
    if s.calls g = none ∧ s.workers future = .running then
      some (s.completed future (s.toTable.set_exception future exception g))
    else none
  | .as_completed fs =>
    if fs.Nodup then
      some { s.set_gen s.next_gen ⟨fs, 0, ∅, .created, []⟩ with next_gen := s.next_gen + 1 }
    else none
  | .next g n order =>
    if s.calls g = none then (s.gens n).bind fun G => next s g n G order else none
  | .close n => (s.gens n).bind fun G => close s n G
  | .turn waiter a =>
    match s.waiters waiter with
    | none => none
    | some w =>
      if a.passive then (Event.step w.event a).map fun event => s.settle waiter w event else none

end Jega.Futures.AsCompleted
