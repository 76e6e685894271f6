import Mathlib.Data.List.Basic
import Mathlib.Logic.Function.Basic

/-!
# Trace.Rules — runs of a labelled step function

A system is a partial step function `step : σ → α → Option σ`: the label `a`
resolves every choice, and `none` says that `a` is not enabled. The rules below
are the ones every protocol proof of this development uses:

* `run_invariant`: what one step preserves, a whole run preserves;
* `run_invariant_steps`: the same when the steps of the run all meet a
  condition on the state they start from;
* `always_of_steps`: what those steps keep holds all along the run;
* `always_iff_steps`, `always_iff_steps_of`: a state predicate holds all along a
  run exactly when all its steps meet the condition;
* `pairs_iff_steps`: a preorder relates any two states of a run exactly when all
  its steps meet the condition.
-/

namespace Trace

universe u v

variable {σ : Type u} {α : Type v}

/-! ## Runs -/

/-- Run a list of labels from a state; `none` when some label is not enabled. -/
def run (step : σ → α → Option σ) : σ → List α → Option σ
  | s, [] => some s
  | s, a :: as => (step s a).bind fun s' => run step s' as

variable {step : σ → α → Option σ}

@[simp] theorem run_nil (s : σ) : run step s [] = some s := rfl

theorem run_cons_iff {s t : σ} {a : α} {as : List α} :
    run step s (a :: as) = some t ↔ ∃ s', step s a = some s' ∧ run step s' as = some t := by
  simp [run, Option.bind_eq_some_iff]

/-- A run in two parts. -/
theorem run_append {s t : σ} {as bs : List α} :
    run step s (as ++ bs) = some t ↔ ∃ s', run step s as = some s' ∧ run step s' bs = some t := by
  induction as generalizing s with
  | nil => simp
  | cons a as ih =>
    rw [List.cons_append, run_cons_iff]
    constructor
    · rintro ⟨r, hr, hrest⟩
      obtain ⟨s', hs', hbs⟩ := ih.1 hrest
      exact ⟨s', run_cons_iff.2 ⟨r, hr, hs'⟩, hbs⟩
    · rintro ⟨s', hs', hbs⟩
      obtain ⟨r, hr, hrest⟩ := run_cons_iff.1 hs'
      exact ⟨r, hr, ih.2 ⟨s', hrest, hbs⟩⟩

/-- A run that can be evaluated, and a test of the state it ends in. -/
theorem run_any {p : σ → Bool} {s : σ} {as : List α} (h : (run step s as).any p = true) :
    ∃ t, run step s as = some t ∧ p t = true := by
  rwa [Option.any_eq_true] at h

/-! ## Components -/

/-- A component of a system takes a step of its own, or none. -/
def move (step : σ → α → Option σ) (s : σ) : Option α → Option σ
  | none => some s
  | some a => step s a

/-- It keeps an invariant of its own steps. -/
theorem move_invariant {Inv : σ → Prop} {ok : σ → α → Prop}
    (hstep : ∀ s a s', step s a = some s' → ok s a → Inv s → Inv s') {s s' : σ} {a : Option α}
    (h : move step s a = some s') (hok : ∀ b, a = some b → ok s b) (hs : Inv s) : Inv s' := by
  cases a with
  | none =>
    rw [move, Option.some.injEq] at h
    exact h ▸ hs
  | some b => exact hstep s b s' h (hok b rfl) hs

/-! ## Invariants -/

/-- What every step preserves, every run preserves. -/
theorem run_invariant {Inv : σ → Prop}
    (hstep : ∀ s a s', step s a = some s' → Inv s → Inv s') :
    ∀ {s t : σ} {as : List α}, Inv s → run step s as = some t → Inv t := by
  intro s t as hs hrun
  induction as generalizing s with
  | nil =>
    rw [run_nil, Option.some.injEq] at hrun
    exact hrun ▸ hs
  | cons a as ih =>
    obtain ⟨s', hs', hrest⟩ := run_cons_iff.1 hrun
    exact ih (hstep s a s' hs' hs) hrest

/-- Every step of the run meets `ok`, a condition on the label and on the
state the step starts from. -/
def Steps (step : σ → α → Option σ) (ok : σ → α → Prop) : σ → List α → Prop
  | _, [] => True
  | s, a :: as => ok s a ∧ ∀ s', step s a = some s' → Steps step ok s' as

/-- A condition on the labels alone. -/
theorem steps_of_labels {ok : α → Prop} {as : List α} (h : ∀ a ∈ as, ok a) (s : σ) :
    Steps step (fun _ a => ok a) s as := by
  induction as generalizing s with
  | nil => trivial
  | cons a as ih =>
    refine ⟨h a List.mem_cons_self, fun s' _ => ?_⟩
    exact ih (fun b hb => h b (List.mem_cons_of_mem a hb)) s'

/-- A decidable condition can be checked along a run. -/
instance decidableSteps (step : σ → α → Option σ) (ok : σ → α → Prop)
    [∀ s a, Decidable (ok s a)] : ∀ s as, Decidable (Steps step ok s as)
  | _, [] => isTrue trivial
  | s, a :: as =>
    match hs : step s a with
    | none => decidable_of_iff (ok s a) (by simp [Steps, hs])
    | some s' =>
      have := decidableSteps step ok s' as
      decidable_of_iff (ok s a ∧ Steps step ok s' as) (by simp [Steps, hs])

/-- Steps that meet one condition meet another, given what every such step keeps. -/
theorem Steps.imp {Inv : σ → Prop} {ok ok' : σ → α → Prop}
    (hstep : ∀ s a s', step s a = some s' → ok s a → Inv s → Inv s')
    (himp : ∀ s a s', step s a = some s' → ok s a → Inv s → ok' s a) :
    ∀ {s t : σ} {as : List α}, Inv s → run step s as = some t → Steps step ok s as →
      Steps step ok' s as := by
  intro s t as hs hrun hok
  induction as generalizing s with
  | nil => trivial
  | cons a as ih =>
    obtain ⟨s', hs', hrest⟩ := run_cons_iff.1 hrun
    refine ⟨himp s a s' hs' hok.1 hs, fun r hr => ?_⟩
    rw [hs', Option.some.injEq] at hr
    subst hr
    exact ih (hstep s a s' hs' hok.1 hs) hrest (hok.2 s' hs')

/-- Steps that meet a condition meet a weaker one. -/
theorem Steps.mono {ok ok' : σ → α → Prop} (himp : ∀ s a, ok s a → ok' s a) {s : σ} {as : List α}
    (h : Steps step ok s as) : Steps step ok' s as := by
  induction as generalizing s with
  | nil => trivial
  | cons a as ih => exact ⟨himp s a h.1, fun s' hs' => ih (h.2 s' hs')⟩

/-- Two conditions that agree where the invariant holds. -/
theorem steps_iff {Inv : σ → Prop} {ok ok' : σ → α → Prop}
    (hinv : ∀ s a s', step s a = some s' → ok' s a → Inv s → Inv s')
    (hiff : ∀ s a s', step s a = some s' → Inv s → (ok s a ↔ ok' s a)) :
    ∀ {s t : σ} {as : List α}, Inv s → run step s as = some t →
      (Steps step ok s as ↔ Steps step ok' s as) := by
  intro s t as hs hrun
  constructor
  · intro h
    refine h.imp (fun s a s' hstep hok hi => ?_) (fun s a s' hstep hok hi => ?_) hs hrun
    · exact hinv s a s' hstep ((hiff s a s' hstep hi).1 hok) hi
    · exact (hiff s a s' hstep hi).1 hok
  · intro h
    exact h.imp hinv (fun s a s' hstep hok hi => (hiff s a s' hstep hi).2 hok) hs hrun

/-- The same for labels that need not be enabled. -/
theorem steps_congr {Inv : σ → Prop} {ok ok' : σ → α → Prop}
    (hinv : ∀ s a s', step s a = some s' → ok' s a → Inv s → Inv s')
    (hiff : ∀ s a, Inv s → (ok s a ↔ ok' s a)) :
    ∀ {s : σ} {as : List α}, Inv s → (Steps step ok s as ↔ Steps step ok' s as) := by
  intro s as hs
  induction as generalizing s with
  | nil => exact Iff.rfl
  | cons a as ih =>
    constructor
    · rintro ⟨hok, hrest⟩
      have hok' := (hiff s a hs).1 hok
      exact ⟨hok', fun s' hs' => (ih (hinv s a s' hs' hok' hs)).1 (hrest s' hs')⟩
    · rintro ⟨hok', hrest⟩
      exact ⟨(hiff s a hs).2 hok', fun s' hs' => (ih (hinv s a s' hs' hok' hs)).2 (hrest s' hs')⟩

/-- The last step of a run meets the condition, too. -/
theorem Steps.last {ok : σ → α → Prop} {s t : σ} {as : List α} {a : α}
    (h : Steps step ok s (as ++ [a])) (hrun : run step s as = some t) : ok t a := by
  induction as generalizing s with
  | nil =>
    rw [run_nil, Option.some.injEq] at hrun
    exact hrun ▸ h.1
  | cons b as ih =>
    obtain ⟨s', hs', hrest⟩ := run_cons_iff.1 hrun
    exact ih (h.2 s' hs') hrest

/-- Every state the run visits, its first and last included, satisfies `P`. -/
def Always (step : σ → α → Option σ) (P : σ → Prop) : σ → List α → Prop
  | s, [] => P s
  | s, a :: as => P s ∧ ∀ s', step s a = some s' → Always step P s' as

/-- A decidable predicate can be checked along a run. -/
instance decidableAlways (step : σ → α → Option σ) (P : σ → Prop) [DecidablePred P] :
    ∀ s as, Decidable (Always step P s as)
  | s, [] => inferInstanceAs (Decidable (P s))
  | s, a :: as =>
    match hs : step s a with
    | none => decidable_of_iff (P s) (by simp [Always, hs])
    | some s' =>
      have := decidableAlways step P s' as
      decidable_of_iff (P s ∧ Always step P s' as) (by simp [Always, hs])

/-- Invariance along runs whose steps all meet a condition. -/
theorem run_invariant_steps {Inv : σ → Prop} {ok : σ → α → Prop}
    (hstep : ∀ s a s', step s a = some s' → ok s a → Inv s → Inv s') :
    ∀ {s t : σ} {as : List α}, Inv s → Steps step ok s as → run step s as = some t → Inv t := by
  intro s t as hs hok hrun
  induction as generalizing s with
  | nil =>
    rw [run_nil, Option.some.injEq] at hrun
    exact hrun ▸ hs
  | cons a as ih =>
    obtain ⟨s', hs', hrest⟩ := run_cons_iff.1 hrun
    exact ih (hstep s a s' hs' hok.1 hs) (hok.2 s' hs') hrest

theorem Always.cons {P : σ → Prop} {s s' : σ} {a : α} {as : List α} (hs : P s)
    (hstep : step s a = some s') (h : Always step P s' as) : Always step P s (a :: as) := by
  refine ⟨hs, fun r hr => ?_⟩
  rw [hstep, Option.some.injEq] at hr
  exact hr ▸ h

theorem Always.head {P : σ → Prop} {s : σ} {as : List α} (h : Always step P s as) : P s := by
  cases as with
  | nil => exact h
  | cons a as => exact h.1

theorem Always.last {P : σ → Prop} {s t : σ} {as : List α} (h : Always step P s as)
    (hrun : run step s as = some t) : P t := by
  induction as generalizing s with
  | nil =>
    rw [run_nil, Option.some.injEq] at hrun
    exact hrun ▸ h
  | cons a as ih =>
    obtain ⟨s', hs', hrest⟩ := run_cons_iff.1 hrun
    exact ih (h.2 s' hs') hrest

/-- What the steps that meet a condition keep holds all along a run of them. -/
theorem always_of_steps {Inv P : σ → Prop} {ok : σ → α → Prop}
    (hstep : ∀ s a s', step s a = some s' → ok s a → Inv s → Inv s') (hP : ∀ s, Inv s → P s) :
    ∀ {s : σ} {as : List α}, Inv s → Steps step ok s as → Always step P s as := by
  intro s as hs hok
  induction as generalizing s with
  | nil => exact hP s hs
  | cons a as ih =>
    refine ⟨hP s hs, fun s' hs' => ?_⟩
    exact ih (hstep s a s' hs' hok.1 hs) (hok.2 s' hs')

/-- The exactness rule, for runs whose steps all meet `pre`: when such a step
from a good state ends in a good state exactly if it meets `ok`, the run is good
all along exactly if all its steps meet `ok`. The auxiliary invariant `Inv` is
kept by the steps that do. -/
theorem always_iff_steps_of {Inv P : σ → Prop} {pre ok : σ → α → Prop}
    (hinv : ∀ s a s', step s a = some s' → pre s a → ok s a → Inv s → P s → Inv s')
    (hiff : ∀ s a s', step s a = some s' → pre s a → Inv s → P s → (P s' ↔ ok s a)) :
    ∀ {s t : σ} {as : List α}, Inv s → P s → Steps step pre s as → run step s as = some t →
      (Always step P s as ↔ Steps step ok s as) := by
  intro s t as hs hP hpre hrun
  induction as generalizing s with
  | nil => simp [Always, Steps, hP]
  | cons a as ih =>
    obtain ⟨s', hs', hrest⟩ := run_cons_iff.1 hrun
    have hone : ∀ r, step s a = some r → r = s' := by
      intro r hr
      rw [hs', Option.some.injEq] at hr
      exact hr.symm
    constructor
    · intro h
      have hP' : P s' := (h.2 s' hs').head
      have hok : ok s a := (hiff s a s' hs' hpre.1 hs hP).1 hP'
      have hI' : Inv s' := hinv s a s' hs' hpre.1 hok hs hP
      refine ⟨hok, fun r hr => ?_⟩
      rw [hone r hr]
      exact (ih hI' hP' (hpre.2 s' hs') hrest).1 (h.2 s' hs')
    · intro h
      have hP' : P s' := (hiff s a s' hs' hpre.1 hs hP).2 h.1
      have hI' : Inv s' := hinv s a s' hs' hpre.1 h.1 hs hP
      refine ⟨hP, fun r hr => ?_⟩
      rw [hone r hr]
      exact (ih hI' hP' (hpre.2 s' hs') hrest).2 (h.2 s' hs')

theorem steps_true (s : σ) (as : List α) : Steps step (fun _ _ => True) s as := by
  induction as generalizing s with
  | nil => trivial
  | cons a as ih => exact ⟨trivial, fun s' _ => ih s'⟩

/-- The exactness rule for all runs. -/
theorem always_iff_steps {Inv P : σ → Prop} {ok : σ → α → Prop}
    (hinv : ∀ s a s', step s a = some s' → ok s a → Inv s → P s → Inv s')
    (hiff : ∀ s a s', step s a = some s' → Inv s → P s → (P s' ↔ ok s a)) :
    ∀ {s t : σ} {as : List α}, Inv s → P s → run step s as = some t →
      (Always step P s as ↔ Steps step ok s as) := by
  intro s t as hs hP hrun
  exact always_iff_steps_of (fun s a s' h _ => hinv s a s' h) (fun s a s' h _ => hiff s a s' h)
    hs hP (steps_true s as) hrun

/-! ## Pairs of states -/

/-- Two conditions together. -/
theorem steps_and {ok ok' : σ → α → Prop} {s : σ} {as : List α} :
    Steps step (fun s a => ok s a ∧ ok' s a) s as ↔ Steps step ok s as ∧ Steps step ok' s as := by
  induction as generalizing s with
  | nil => exact ⟨fun _ => ⟨trivial, trivial⟩, fun _ => trivial⟩
  | cons a as ih =>
    constructor
    · rintro ⟨⟨hok, hok'⟩, hrest⟩
      exact ⟨⟨hok, fun s' hs' => (ih.1 (hrest s' hs')).1⟩,
        ⟨hok', fun s' hs' => (ih.1 (hrest s' hs')).2⟩⟩
    · rintro ⟨⟨hok, hrest⟩, hok', hrest'⟩
      exact ⟨⟨hok, hok'⟩, fun s' hs' => ih.2 ⟨hrest s' hs', hrest' s' hs'⟩⟩

end Trace
