import Jega.Io.Waiters

/-!
# Jega.Io.Contract — what a report resumes

The contract of a wait: a report on a descriptor resumes the greenlet that is
registered for it, normally for readiness and with its own exception for a
deadline, and resumes nobody else.

The handler runs in the loop's greenlet, so `internal_loop_handle_error` always
takes the branch that throws into the parent of the loop: a deadline reaches its
owner only if that is the parent. `PyErr_SetString` takes a class: given an
instance, as by some callers, it sets a `SystemError` in its place. A report of an
error alone is not handled by `trampoline_switch_callback`, although `fd_callback`
has a branch for it.

## Main results

* `contract_iff_routed`: the exact condition, along every run.
* `Led.contract`: where waits share no descriptor, the contract is about every
  suspended greenlet.
-/

namespace Jega.Io

open Trace

/-- What a wait ends with when its descriptor gets this report. -/
def outcome (exc : Exc) (events : Revents) : Resumption :=
  if events.timeout then .throw exc else .value .empty_tuple

/-- The step, if it is a report on the descriptor of a registered greenlet,
resumes that greenlet with its outcome, and nobody else. -/
def Contract (s : St) (a : Act) : Prop :=
  ∀ g fd event arg exc events, a = .report fd events → events.nonzero = true →
    Registered s g fd event arg exc →
      ∃ s', step s a = some s' ∧ s'.received = s.received ++ [(g, outcome exc events)]

/-- The report, if it is on the descriptor of a registered greenlet, is a
deadline of the parent of the loop whose exception is a class, or has no deadline
and is a readiness. -/
def Routed (s : St) (a : Act) : Prop :=
  ∀ g fd event arg exc events, a = .report fd events → events.nonzero = true →
    Registered s g fd event arg exc →
      (events.timeout = true ∧ g = s.loop.parent ∧ exc.is_class = true) ∨
      (events.timeout = false ∧ (events.read = true ∨ events.write = true))

/-! ## One report -/

/-- A deadline goes to the parent of the loop, whoever waited. -/
theorem timeout_received (s : St) (g : Gid) (exc : Exc) {events : Revents}
    (ht : events.timeout = true) :
    (trampoline_switch_callback s g exc events).received =
      s.received ++ [(s.loop.parent, .throw (PyErr_SetString exc))] := by
  simp only [trampoline_switch_callback, ht, if_true, loop_handle_timeout_error]
  exact resume_received _ _ _

theorem ready_received (s : St) (g : Gid) (exc : Exc) {events : Revents}
    (ht : events.timeout = false) (hrw : events.read = true ∨ events.write = true) :
    (trampoline_switch_callback s g exc events).received =
      s.received ++ [(g, .value .empty_tuple)] := by
  have hwr : (events.write || events.read) = true := by
    rcases hrw with h | h <;> simp [h]
  simp only [trampoline_switch_callback, ht, hwr, if_true, Bool.false_eq_true, if_false]
  exact resume_received _ _ _

/-- A report of an error alone changes nothing. -/
theorem error_ignored (s : St) (g : Gid) (exc : Exc) {events : Revents}
    (ht : events.timeout = false) (hr : events.read = false) (hw : events.write = false) :
    trampoline_switch_callback s g exc events = s := by
  simp [trampoline_switch_callback, ht, hr, hw]

/-- The owner gets its outcome exactly if the report is routed to it. -/
theorem received_iff {s : St} {g : Gid} {exc : Exc} {events : Revents} :
    (trampoline_switch_callback s g exc events).received =
        s.received ++ [(g, outcome exc events)] ↔
      (events.timeout = true ∧ g = s.loop.parent ∧ exc.is_class = true) ∨
      (events.timeout = false ∧ (events.read = true ∨ events.write = true)) := by
  cases ht : events.timeout with
  | true =>
    rw [timeout_received s g exc ht]
    have hout : outcome exc events = .throw exc := by
      simp [outcome, ht]
    rw [hout]
    constructor
    · -- the last entry of the history tells who was resumed
      intro h
      have hlast := List.append_cancel_left h
      rw [List.cons.injEq, Prod.mk.injEq, Resumption.throw.injEq] at hlast
      exact .inl ⟨rfl, hlast.1.1.symm, PyErr_SetString_eq_iff.1 hlast.1.2⟩
    · rintro (⟨-, rfl, hclass⟩ | ⟨hf, -⟩)
      · rw [PyErr_SetString_eq_iff.2 hclass]
      · cases hf
  | false =>
    by_cases hrw : events.read = true ∨ events.write = true
    · rw [ready_received s g exc ht hrw]
      simp [outcome, ht, hrw]
    · -- nobody is resumed, so the history is too short
      have hr : events.read = false := by
        simpa using fun h => hrw (.inl h)
      have hw : events.write = false := by
        simpa using fun h => hrw (.inr h)
      rw [error_ignored s g exc ht hr hw]
      simp [hr, hw]

theorem contract_iff {s : St} {a : Act} : Contract s a ↔ Routed s a := by
  constructor
  · intro h g fd event arg exc events ha hne hreg
    obtain ⟨s', hs, hrec⟩ := h g fd event arg exc events ha hne hreg
    subst ha
    rw [hreg.report hne, Option.some.injEq] at hs
    subst hs
    exact received_iff.1 hrec
  · intro h g fd event arg exc events ha hne hreg
    have hroute := h g fd event arg exc events ha hne hreg
    subst ha
    exact ⟨_, hreg.report hne, received_iff.2 hroute⟩

/-! ## Whole runs -/

/-- Along every run, from whatever state, the contract is kept exactly when each
report on the descriptor of a waiter either is a deadline of the parent of the
loop whose exception is a class, or has no deadline and is a readiness. -/
theorem contract_iff_routed (s : St) (as : List Act) :
    Steps step Contract s as ↔ Steps step Routed s as := by
  induction as generalizing s with
  | nil => exact Iff.rfl
  | cons a as ih =>
    simp only [Steps, contract_iff, ih]

/-- A spawned greenlet and the main one wait; the deadline of the spawned one
passes, and the main greenlet gets its exception. -/
theorem deadline_misrouted :
    ∃ s, run step (init 0 1) [.io_trampoline 1 3 ⟨true, false⟩ 0 none,
      .io_trampoline 2 4 ⟨true, false⟩ 5 none] = some s ∧
      Registered s 2 4 ⟨true, false⟩ 1 (.TimeoutException none) ∧
      ¬ Contract s (.report 4 ⟨false, false, true, false⟩) := by
  refine ⟨_, rfl, ⟨rfl, rfl, rfl, rfl, rfl⟩, fun h => ?_⟩
  obtain ⟨s', hs, hrec⟩ := h 2 4 ⟨true, false⟩ 1 (.TimeoutException none) _ rfl rfl
    ⟨rfl, rfl, rfl, rfl, rfl⟩
  injection hs with hs
  subst hs
  exact absurd hrec (by decide)

/-- Where every waiter is registered, the contract is about every suspended
greenlet: a routed report on its descriptor resumes it, and nobody else. -/
theorem Led.contract {s : St} (hl : Led s) {g : Gid} {fd : Fd} {event : Events} {arg : Addr}
    (hloc : s.loc g = .trampoline fd event arg) {events : Revents} (hne : events.nonzero = true)
    (hr : Routed s (.report fd events)) :
    ∃ exc s', s.mem arg = .switch_arg g exc ∧ step s (.report fd events) = some s' ∧
      s'.received = s.received ++ [(g, outcome exc events)] := by
  obtain ⟨exc, hreg, -⟩ := hl g fd event arg hloc
  obtain ⟨s', hs, hrec⟩ := contract_iff.2 hr g fd event arg exc events rfl hne hreg
  exact ⟨exc, s', hreg.leads, hs, hrec⟩

end Jega.Io
