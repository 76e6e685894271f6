import Jega.Futures.Pool
import Jega.Trace.Rules

/-!
# Jega.Futures.Protocol — the work items of a `ThreadPoolExecutor`

The worker threads take items from the queue and run them, the loop executes what
they post, and clients call the methods of the futures, in any order.

## Main result

* `protocol_kept`: in every run each item keeps the protocol, and its thread is
  not blocked after `_set_running`.
-/

namespace Jega.Futures

open Trace

variable {α ε : Type}

structure St (α ε : Type) extends Pool α ε where
  pendings : List (Entry α ε)

def init (max_workers : Nat) : St α ε where
  toPool := .new max_workers
  pendings := []

inductive Act (α ε : Type) where
  | submit
  | shutdown
  | quit
  | get (t : Tid)
  | empty (t : Tid)
  | exit (t : Tid)
  /-- A step of `run`; `o` is what `fn` gives if it ends the call. -/
  | run (t : Tid) (o : Outcome α ε)
  | client (i : Fid) (c : Call)
  /-- Other code adds a callback. -/
  | call_soon (n : Nat)
  /-- The loop takes a callback and calls it. -/
  | fire
deriving DecidableEq, Repr

/-- The loop calls the first of its callbacks. -/
def fire_pendings (s : St α ε) : Option (St α ε) :=
  match s.pendings with
  | .item i m :: rest => some { toPool := s.exec i m, pendings := rest }
  | .other _ :: rest => some { s with pendings := rest }
  | [] => none

def step [Truth ε] (s : St α ε) : Act α ε → Option (St α ε)
  | .submit => some (if s._shutdown then s else { s with toPool := s.submit })
  | .shutdown => some { s with _shutdown := true }
  | .quit => some { s with quitting := true }
  | .get t => (s.get t).map fun p => { s with toPool := p }
  | .empty t => (s.empty t).map fun p => { s with toPool := p }
  | .exit t => (s.exit t).map fun p => { s with toPool := p }
  | .run t o =>
    (s.toPool.run t o).map fun r =>
      { toPool := r.1, pendings := s.pendings ++ r.2.2.map (.item r.2.1) }
  | .client i c => (s.client i c).map fun p => { s with toPool := p }
  | .call_soon n => some { s with pendings := s.pendings ++ [.other n] }
  | .fire => fire_pendings s

/-! ## The invariant -/

def Inv (s : St α ε) : Prop := ∃ φ, Placed s.toPool s.pendings φ

theorem inv_init (max_workers : Nat) : Inv (init max_workers : St α ε) :=
  ⟨_, placed_new max_workers⟩

section Steps

variable {s : St α ε} {φ : Fid → Place α ε}

theorem inv_fire_pendings {s' : St α ε} (h : Placed s.toPool s.pendings φ)
    (hfire : fire_pendings s = some s') : Inv s' := by
  unfold fire_pendings at hfire
  split at hfire
  · -- Case: the callback of an item
    rename_i i m rest hp
    cases hfire
    rw [hp] at h
    exact ⟨φ, h.exec⟩
  · -- Case: another one
    rename_i n rest hp
    cases hfire
    rw [hp] at h
    refine ⟨φ, h.others fun j => ?_⟩
    rw [messages_other]
  · cases hfire

variable [Truth ε]

theorem inv_step (s : St α ε) (a : Act α ε) (s' : St α ε) (hstep : step s a = some s')
    (hi : Inv s) : Inv s' := by
  obtain ⟨φ, h⟩ := hi
  cases a with
  | submit =>
    cases hstep
    split
    · exact ⟨φ, h⟩
    · exact ⟨_, h.submit⟩
  | shutdown =>
    cases hstep
    exact ⟨φ, { h with }⟩
  | quit =>
    cases hstep
    exact ⟨φ, { h with }⟩
  | get t =>
    obtain ⟨p, hget, rfl⟩ := Option.map_eq_some_iff.1 hstep
    exact h.get hget
  | empty t =>
    obtain ⟨p, hempty, rfl⟩ := Option.map_eq_some_iff.1 hstep
    exact ⟨φ, h.empty hempty⟩
  | exit t =>
    obtain ⟨p, hexit, rfl⟩ := Option.map_eq_some_iff.1 hstep
    exact ⟨φ, h.exit hexit⟩
  | run t o =>
    obtain ⟨⟨p, i, ms⟩, hrun, rfl⟩ := Option.map_eq_some_iff.1 hstep
    exact h.run hrun
  | client i c =>
    obtain ⟨p, hclient, rfl⟩ := Option.map_eq_some_iff.1 hstep
    exact ⟨φ, h.client hclient⟩
  | call_soon n =>
    cases hstep
    refine ⟨φ, h.others fun j => ?_⟩
    rw [messages_append, messages_other, messages_nil, List.append_nil]
  | fire => exact inv_fire_pendings h hstep

/-! ## The protocol -/

/-- Each item keeps the protocol, and `_set_running` releases its thread. -/
structure Protocol (s : St α ε) : Prop where
  items : ∀ i, i < s.next → (s.items i).Kept
  released : ∀ t i o, s.workers t = .busy i .waiting → (s.items i).executed = true →
    (step s (.run t o)).isSome = true

theorem Inv.protocol (h : Inv s) : Protocol s := by
  obtain ⟨φ, h⟩ := h
  constructor
  · intro i hi
    exact (h.holds i hi).kept
  · intro t i o ht he
    have hi : i < s.next := (h.busy t i .waiting ht).1
    have hevent : (s.items i)._event = true := (h.holds i hi).kept.released he
    simp [step, Pool.run, ht, WorkItem.run, hevent]

theorem protocol_kept (max_workers : Nat) (as : List (Act α ε)) (s : St α ε)
    (hrun : run step (init max_workers) as = some s) : Protocol s := by
  have hinv : Inv s := run_invariant inv_step (inv_init max_workers) hrun
  exact hinv.protocol

end Steps

/-- `submit`, and the thread runs `fn`, which returns `7`. -/
def finishedRun : List (Act Nat Nat) :=
  [.submit, .get 0, .run 0 (.ok none), .fire, .run 0 (.ok none), .run 0 (.ok none),
    .run 0 (.ok (some 7)), .run 0 (.ok none), .fire]

theorem protocol_kept_finished :
    ∃ s : St Nat Nat, run step (init 1) finishedRun = some s ∧ Protocol s ∧
      (s.items 0).future._state = .FINISHED ∧ (s.items 0).future._result = some 7 := by
  have hfinished : ∃ s : St Nat Nat, run step (init 1) finishedRun = some s ∧
      decide ((s.items 0).future._state = .FINISHED ∧
        (s.items 0).future._result = some 7) = true := run_any (by decide)
  obtain ⟨s, hrun, hs⟩ := hfinished
  exact ⟨s, hrun, protocol_kept 1 finishedRun s hrun, of_decide_eq_true hs⟩

/-- A client fetches the result, and the future does not hold it any more. -/
theorem fetched_result_gone :
    ¬ ∀ (as : List (Act Nat Nat)) (s : St Nat Nat), run step (init 1) as = some s →
      ∀ i, i < s.next → (s.items i).future._state = .FINISHED →
        ∃ o, (s.items i).outcome = some o ∧ (s.items i).future.Carries o := by
  intro h
  have hgone : ∃ s : St Nat Nat, run step (init 1) (finishedRun ++ [.client 0 .result]) = some s ∧
      decide (0 < s.next ∧ (s.items 0).future._state = .FINISHED ∧
        (s.items 0).outcome = some (.ok (some 7)) ∧ (s.items 0).future._result = none) = true :=
    run_any (by decide)
  obtain ⟨s, hrun, hs⟩ := hgone
  obtain ⟨hi, hf, ho, hr⟩ := of_decide_eq_true hs
  obtain ⟨o, ho', hc⟩ := h _ s hrun 0 hi hf
  rw [ho, Option.some.injEq] at ho'
  subst ho'
  have hseven : (s.items 0).future._result = some 7 := hc.1
  rw [hr] at hseven
  cases hseven

end Jega.Futures
