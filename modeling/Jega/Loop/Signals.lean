import Jega.Loop.Scheduler
import Jega.Trace.History

/-!
# Jega.Loop.Signals — the signals that a check answers

`sigint_cb` is the handler of two signals and keeps the first one that nobody
has taken; `check_stop_signal` takes a `SIGINT` and leaves a `SIGTERM` where it
is. So a `SIGTERM` that comes first stays, and hides every later `SIGINT`.

`Heard` tells from the deliveries and checks alone what a check should do.

## Main results

* `checks_answer_iff`: the exact condition for every check to answer the signals
  delivered before it, along every run.
* `sigterm_latched`: a `SIGTERM` that is kept is kept forever.
-/

namespace Jega.Loop.Signals

open Trace

variable {κ : Type}

/-- The signals that `sigint_cb` is installed for. -/
inductive Signal where
  | SIGINT
  | SIGTERM
deriving DecidableEq, Repr

def SIGTERM : Int := 15

def Signal.signum : Signal → Int
  | .SIGINT => Loop.SIGINT
  | .SIGTERM => Signals.SIGTERM

inductive Op where
  | deliver (sig : Signal)
  /-- `check_stop_signal` of a running loop. -/
  | check
  /-- `LoopObject_run` is called. -/
  | run
deriving DecidableEq, Repr

def step (s : St κ) : Op → Option (St κ)
  | .deliver sig => Loop.step s (.signal sig.signum)
  | .check => if s.state = .L_RUNNING then some (check_stop_signal s).1 else none
  | .run => Loop.step s (.run false)

/-! ## What the deliveries and checks tell -/

structure Heard where
  /-- A `SIGINT` was delivered since the last check. -/
  unchecked : Bool
  /-- A `SIGINT` was delivered since the last stop. -/
  since_stop : Bool
  /-- The first signal that was delivered since the last stop. -/
  first : Option Signal
deriving DecidableEq, Repr

/-- Nothing was delivered. -/
def silence : Heard := ⟨false, false, none⟩

def note (_ : St κ) (op : Op) (s' : St κ) (l : Heard) : Heard :=
  match op with
  | .deliver sig =>
    ⟨l.unchecked || sig = .SIGINT, l.since_stop || sig = .SIGINT, l.first.or (some sig)⟩
  | .check => if s'.state = .L_STOP then silence else { l with unchecked := false }
  | .run => l

abbrev heard : Watched (St κ) Heard → Op → Option (Watched (St κ) Heard) := watch step note

/-- The first check after a `SIGINT` returns 1 and stops the loop with no signal
pending; without a `SIGINT` since the last stop a check leaves the loop running. -/
def Answers (t : Watched (St κ) Heard) : Op → Prop
  | .check =>
    (t.hist.unchecked = true →
      (check_stop_signal t.st).2 = true ∧ (check_stop_signal t.st).1.state = .L_STOP ∧
        (check_stop_signal t.st).1.catch_signal = 0) ∧
    (t.hist.since_stop = false → (check_stop_signal t.st).1.state = .L_RUNNING)
  | _ => True

/-- Where a check has a `SIGINT` to answer, no `SIGTERM` came first. -/
def Unmasked (t : Watched (St κ) Heard) : Op → Prop
  | .check => t.hist.unchecked = true → t.hist.first ≠ some .SIGTERM
  | _ => True

instance (t : Watched (St κ) Heard) : ∀ op, Decidable (Answers t op)
  | .check => inferInstanceAs (Decidable (_ ∧ _))
  | .deliver _ | .run => isTrue trivial

instance (t : Watched (St κ) Heard) : ∀ op, Decidable (Unmasked t op)
  | .check => inferInstanceAs (Decidable (_ → _))
  | .deliver _ | .run => isTrue trivial

/-! ## One step -/

/-- What `catch_signal` holds. -/
def caught : Option Signal → Int
  | none => 0
  | some sig => sig.signum

/-- The handler keeps the first signal, and as long as every check answered, a
`SIGINT` was delivered since the last stop exactly if it is unchecked. -/
structure Kept (t : Watched (St κ) Heard) : Prop where
  catch_signal : t.st.catch_signal = caught t.hist.first
  since_stop : t.hist.since_stop = t.hist.unchecked
  sigint : t.hist.first = some .SIGINT → t.hist.unchecked = true
  delivered : t.hist.unchecked = true → t.hist.first ≠ none

@[simp] theorem caught_eq_zero_iff {first : Option Signal} : caught first = 0 ↔ first = none := by
  cases first with
  | none => simp [caught]
  | some sig => cases sig <;> simp [caught, Signal.signum, Loop.SIGINT, SIGTERM]

@[simp] theorem caught_eq_sigint_iff {first : Option Signal} :
    caught first = Loop.SIGINT ↔ first = some .SIGINT := by
  cases first with
  | none => simp [caught, Loop.SIGINT]
  | some sig => cases sig <;> simp [caught, Signal.signum, Loop.SIGINT, SIGTERM]

/-- A check of a running loop looks for a `SIGINT` that came first. -/
theorem check_stop_signal_cases {t : Watched (St κ) Heard}
    (hcaught : t.st.catch_signal = caught t.hist.first) (hrunning : t.st.state = .L_RUNNING) :
    (t.hist.first = some .SIGINT ∧
      check_stop_signal t.st = ({ t.st with state := .L_STOP, catch_signal := 0 }, true)) ∨
    (t.hist.first ≠ some .SIGINT ∧ check_stop_signal t.st = (t.st, false)) := by
  have hgo : ¬ t.st.state = .L_STOP := by
    rw [hrunning]
    decide
  have htest : t.st.catch_signal = Loop.SIGINT ↔ t.hist.first = some .SIGINT := by
    rw [hcaught, caught_eq_sigint_iff]
  unfold check_stop_signal
  rw [if_neg hgo]
  by_cases hfirst : t.hist.first = some .SIGINT
  · exact .inl ⟨hfirst, if_pos (htest.2 hfirst)⟩
  · exact .inr ⟨hfirst, if_neg (mt htest.1 hfirst)⟩

/-- An unchecked `SIGINT` that was not the first came after a `SIGTERM`. -/
theorem Kept.masked {t : Watched (St κ) Heard} (hk : Kept t) (hfirst : t.hist.first ≠ some .SIGINT)
    (hunchecked : t.hist.unchecked = true) : t.hist.first = some .SIGTERM := by
  rcases Option.ne_none_iff_exists'.1 (hk.delivered hunchecked) with ⟨sig, hsig⟩
  cases sig with
  | SIGINT => exact absurd hsig hfirst
  | SIGTERM => exact hsig

/-- The step of a check. -/
theorem check_step {t t' : Watched (St κ) Heard} (h : heard t .check = some t') :
    t.st.state = .L_RUNNING ∧ t'.st = (check_stop_signal t.st).1 ∧
      t'.hist = note t.st .check t'.st t.hist := by
  obtain ⟨hs, hhist⟩ := watch_eq_some.1 h
  obtain ⟨hrunning, heq⟩ := Option.ite_none_right_eq_some.1 hs
  rw [Option.some.injEq] at heq
  exact ⟨hrunning, heq.symm, hhist⟩

/-- A check answers exactly if no `SIGTERM` came before its `SIGINT`. -/
theorem answers_iff_unmasked {t t' : Watched (St κ) Heard} {op : Op} (h : heard t op = some t')
    (hk : Kept t) : Answers t op ↔ Unmasked t op := by
  cases op with
  | deliver sig => exact Iff.rfl
  | run => exact Iff.rfl
  | check =>
    have hrunning := (check_step h).1
    have hsince := hk.since_stop
    simp only [Answers, Unmasked]
    rcases check_stop_signal_cases hk.catch_signal hrunning with ⟨hfirst, heq⟩ | ⟨hfirst, heq⟩
    · -- Case: the loop stops, and there is a `SIGINT` to answer
      have hunchecked := hk.sigint hfirst
      simp [heq, hfirst, hsince, hunchecked]
    · -- Case: the loop goes on, so there must be none
      constructor
      · intro hans hunchecked
        have hret := (hans.1 hunchecked).1
        rw [heq] at hret
        exact absurd hret Bool.false_ne_true
      · intro hun
        refine ⟨fun hunchecked => absurd (hk.masked hfirst hunchecked) (hun hunchecked), fun _ => ?_⟩
        rw [heq]
        exact hrunning

theorem Kept.deliver {t t' : Watched (St κ) Heard} {sig : Signal}
    (h : heard t (.deliver sig) = some t') (hk : Kept t) : Kept t' := by
  obtain ⟨hs, hhist⟩ := watch_eq_some.1 h
  have hst : t'.st =
      { t.st with
        catch_signal := if t.st.catch_signal = 0 then sig.signum else t.st.catch_signal } := by
    simpa [step, Loop.step, eq_comm] using hs
  have hcaught := hk.catch_signal
  refine ⟨?_, ?_, ?_, ?_⟩
  · -- the handler keeps the first signal
    rw [hst, hhist]
    simp only [note, hcaught, caught_eq_zero_iff]
    cases t.hist.first with
    | none => rfl
    | some first => simp
  · rw [hhist]
    simp only [note, hk.since_stop]
  · intro hfirst
    rw [hhist] at hfirst ⊢
    simp only [note] at hfirst ⊢
    cases hold : t.hist.first with
    | none =>
      rw [hold, Option.none_or, Option.some.injEq] at hfirst
      simp [hfirst]
    | some first =>
      rw [hold, Option.some_or] at hfirst
      simp [hk.sigint (hold.trans hfirst)]
  · intro _
    rw [hhist]
    simp [note]

/-- A check that is not masked keeps what is known. -/
theorem kept_step {t t' : Watched (St κ) Heard} {op : Op} (h : heard t op = some t')
    (hun : Unmasked t op) (hk : Kept t) : Kept t' := by
  cases op with
  | deliver sig => exact hk.deliver h
  | run =>
    obtain ⟨hs, hhist⟩ := watch_eq_some.1 h
    have hst : t'.st = start t.st .run false := by
      simpa [step, Loop.step, eq_comm] using hs
    have hcatch : t'.st.catch_signal = t.st.catch_signal := by
      rw [hst]
      rfl
    have hsame : t'.hist = t.hist := hhist
    refine ⟨?_, ?_, ?_, ?_⟩
    · rw [hcatch, hsame]
      exact hk.catch_signal
    · rw [hsame]
      exact hk.since_stop
    · rw [hsame]
      exact hk.sigint
    · rw [hsame]
      exact hk.delivered
  | check =>
    obtain ⟨hrunning, hst, hhist⟩ := check_step h
    rcases check_stop_signal_cases hk.catch_signal hrunning with ⟨_, heq⟩ | ⟨hfirst, heq⟩
    · -- Case: the loop stops with nothing left
      have hstop : t'.st.state = .L_STOP := by rw [hst, heq]
      have hhist' : t'.hist = silence := by
        rw [hhist]
        exact if_pos hstop
      refine ⟨?_, ?_, ?_, ?_⟩
      · rw [hst, heq, hhist']
        rfl
      · rw [hhist']
        rfl
      · rw [hhist']
        exact nofun
      · rw [hhist']
        exact nofun
    · -- Case: the loop goes on, and nothing was to be answered
      have hst' : t'.st = t.st := by rw [hst, heq]
      have hunchecked : t.hist.unchecked = false := by
        by_contra hun'
        have htrue := Bool.eq_true_of_not_eq_false hun'
        exact hun htrue (hk.masked hfirst htrue)
      have hhist' : t'.hist = t.hist := by
        rw [hhist, hst']
        have hgo : ¬ t.st.state = .L_STOP := by
          rw [hrunning]
          decide
        simp only [note, if_neg hgo]
        rw [← hunchecked]
      have hsame : t' = t := by
        cases t
        cases t'
        cases hst'
        cases hhist'
        rfl
      rw [hsame]
      exact hk

/-! ## Main results -/

/-- Along every run from a loop with no signal pending, every check answers the
signals delivered before it exactly if no check that has a `SIGINT` to answer
comes after a `SIGTERM` that was the first signal since the last stop. -/
theorem checks_answer_iff {s : St κ} {t : Watched (St κ) Heard} {ops : List Op}
    (hs : s.catch_signal = 0) (hrun : Trace.run heard ⟨s, silence⟩ ops = some t) :
    Steps heard Answers ⟨s, silence⟩ ops ↔ Steps heard Unmasked ⟨s, silence⟩ ops := by
  have hk : Kept ⟨s, silence⟩ := ⟨hs, rfl, nofun, nofun⟩
  refine steps_iff ?_ ?_ hk hrun
  · intro t op t' h hun hk
    exact kept_step h hun hk
  · intro t op t' h hk
    exact answers_iff_unmasked h hk

/-- A loop that runs and stops, runs on and gets a `SIGTERM` at the end. -/
theorem checks_answer_twice : ∃ t : Watched (St Unit) Heard,
    Trace.run heard ⟨init Unit id 0, silence⟩ [.run, .check, .deliver .SIGINT, .deliver .SIGTERM,
      .check, .deliver .SIGINT, .run, .check, .run, .deliver .SIGTERM, .check] = some t ∧
    Steps heard Answers ⟨init Unit id 0, silence⟩ [.run, .check, .deliver .SIGINT,
      .deliver .SIGTERM, .check, .deliver .SIGINT, .run, .check, .run, .deliver .SIGTERM, .check] :=
  ⟨_, rfl, (checks_answer_iff rfl rfl).2 (by decide)⟩

/-- After a `SIGTERM` the check of a `SIGINT` returns 0. -/
theorem sigterm_masks_sigint : ∃ t : Watched (St Unit) Heard,
    Trace.run heard ⟨init Unit id 0, silence⟩ [.run, .deliver .SIGTERM, .deliver .SIGINT, .check] =
      some t ∧
    t.st.state = .L_RUNNING ∧
    ¬ Steps heard Answers ⟨init Unit id 0, silence⟩
      [.run, .deliver .SIGTERM, .deliver .SIGINT, .check] :=
  ⟨_, rfl, rfl, by decide⟩

/-- No delivery, check or new run takes a `SIGTERM` away, so no check stops the
loop any more. -/
theorem sigterm_latched {s t : St κ} {ops : List Op} (hs : s.catch_signal = SIGTERM)
    (hrun : Trace.run step s ops = some t) :
    Steps step (fun s op => op = .check → (check_stop_signal s).2 = false) s ops := by
  have hkeep : ∀ (s : St κ) op s', step s op = some s' → True → s.catch_signal = SIGTERM →
      s'.catch_signal = SIGTERM := by
    intro s op s' h _ hs
    cases op with
    | deliver sig =>
      cases h
      simp [hs, SIGTERM]
    | run =>
      cases h
      exact hs
    | check =>
      obtain ⟨hrunning, heq⟩ := Option.ite_none_right_eq_some.1 h
      cases heq
      simp [check_stop_signal, hrunning, hs, SIGTERM, SIGINT]
  refine (steps_true s ops).imp hkeep ?_ hs hrun
  intro s op s' h _ hs hop
  subst hop
  obtain ⟨hrunning, _⟩ := Option.ite_none_right_eq_some.1 h
  simp [check_stop_signal, hrunning, hs, SIGTERM, SIGINT]

end Jega.Loop.Signals
