import Jega.Trace.Rules

/-!
# Trace.Refinement — a data type and what it stands for

A data type answers calls: `call s a` is the state after the call `a` and the
answer to it, `none` when the call does not return. A specification relates the
abstract states before and after a call with its answer. The rules:

* `answers_admitted`: calls that all return and are all right by the
  specification, one at a time, are right by it in every sequence;
* `steps_of_answers`: where the calls that do not meet a condition do not
  return, those of a sequence that returns all met it;
* `run_lockstep`: two systems whose steps keep a relation keep it in every run.
-/

namespace Trace

universe u v w x

variable {σ : Type u} {α : Type v} {ω : Type w} {τ : Type x}

/-- The state after a call. -/
def advance (call : σ → α → Option (σ × ω)) (s : σ) (a : α) : Option σ :=
  (call s a).map Prod.fst

/-- A sequence of calls: the last state, and the answers. -/
def answers (call : σ → α → Option (σ × ω)) : σ → List α → Option (σ × List ω)
  | s, [] => some (s, [])
  | s, a :: as => (call s a).bind fun r =>
    (answers call r.1 as).map fun t => (t.1, r.2 :: t.2)

/-- The specification allows these answers to these calls, from one abstract
state to the other. -/
inductive Admits (spec : τ → α → ω → τ → Prop) : τ → List α → List ω → τ → Prop where
  | nil (t : τ) : Admits spec t [] [] t
  | cons {t t' t'' : τ} {a : α} {w : ω} {as : List α} {ws : List ω} :
    spec t a w t' → Admits spec t' as ws t'' → Admits spec t (a :: as) (w :: ws) t''

variable {call : σ → α → Option (σ × ω)}

theorem answers_cons {s t : σ} {a : α} {as : List α} {w : ω} {ws : List ω} {r : σ}
    (hcall : call s a = some (r, w)) (hrest : answers call r as = some (t, ws)) :
    answers call s (a :: as) = some (t, w :: ws) := by
  simp [answers, hcall, hrest]

/-- The refinement rule: `abs` is the abstract state of a state, `Inv` holds
between calls, `P` is what is asked of every state on the way and `ok` of every
call. -/
theorem answers_admitted (abs : σ → τ) (spec : τ → α → ω → τ → Prop) {Inv P : σ → Prop}
    {ok : σ → α → Prop}
    (hcall : ∀ s a, Inv s → P s → ok s a →
      ∃ r w, call s a = some (r, w) ∧ Inv r ∧ spec (abs s) a w (abs r)) :
    ∀ {s : σ} {as : List α}, Inv s → Always (advance call) P s as → Steps (advance call) ok s as →
      ∃ t ws, answers call s as = some (t, ws) ∧ Inv t ∧ P t ∧ Admits spec (abs s) as ws (abs t) := by
  intro s as hs hP hok
  induction as generalizing s with
  | nil => exact ⟨s, [], rfl, hs, hP, Admits.nil _⟩
  | cons a as ih =>
    obtain ⟨r, w, hr, hinv, hspec⟩ := hcall s a hs hP.1 hok.1
    have hadvance : advance call s a = some r := Option.map_eq_some_iff.2 ⟨(r, w), hr, rfl⟩
    obtain ⟨t, ws, hanswers, ht, hPt, hadmits⟩ := ih hinv (hP.2 r hadvance) (hok.2 r hadvance)
    exact ⟨t, w :: ws, answers_cons hr hanswers, ht, hPt, Admits.cons hspec hadmits⟩

/-- Calls that all return met the condition, when those that do not meet it do
not return. -/
theorem steps_of_answers {Inv P : σ → Prop} {ok : σ → α → Prop}
    (hkeep : ∀ s a r w, call s a = some (r, w) → Inv s → P s → Inv r)
    (hstuck : ∀ s a, Inv s → P s → ¬ ok s a → call s a = none) :
    ∀ {s t : σ} {as : List α} {ws : List ω}, Inv s → Always (advance call) P s as →
      answers call s as = some (t, ws) → Steps (advance call) ok s as := by
  intro s t as ws hs hP hanswers
  induction as generalizing s ws with
  | nil => trivial
  | cons a as ih =>
    obtain ⟨⟨r, w⟩, hr, hrest⟩ := Option.bind_eq_some_iff.1 hanswers
    obtain ⟨⟨t', ws'⟩, hrest', heq⟩ := Option.map_eq_some_iff.1 hrest
    cases heq
    have hadvance : advance call s a = some r := Option.map_eq_some_iff.2 ⟨(r, w), hr, rfl⟩
    refine ⟨by_contra fun hnot => ?_, fun r' hr' => ?_⟩
    · rw [hstuck s a hs hP.1 hnot] at hr
      cases hr
    · rw [hadvance, Option.some.injEq] at hr'
      subst hr'
      exact ih (hkeep s a r w hr hs hP.1) (hP.2 r hadvance) hrest'

/-! ## Two systems side by side -/

section Lockstep

universe y

variable {ρ : Type y} {R : σ → τ → Prop} {S : ω → ρ → Prop}

theorem rel_cases {o : Option σ} {o' : Option τ} (h : Option.Rel R o o') :
    (o = none ∧ o' = none) ∨ ∃ s t, o = some s ∧ o' = some t ∧ R s t := by
  cases h with
  | none => exact Or.inl ⟨rfl, rfl⟩
  | some h => exact Or.inr ⟨_, _, rfl, rfl, h⟩

theorem rel_isSome {o : Option σ} {o' : Option τ} (h : Option.Rel R o o') :
    o'.isSome = o.isSome := by
  cases h with
  | none => rfl
  | some _ => rfl

/-- Both or neither, and what follows from them. -/
theorem rel_map {f : σ → ω} {g : τ → ρ} (hfg : ∀ s t, R s t → S (f s) (g t)) {o : Option σ}
    {o' : Option τ} (h : Option.Rel R o o') : Option.Rel S (o.map f) (o'.map g) := by
  cases h with
  | none => exact .none
  | some h => exact .some (hfg _ _ h)

theorem rel_bind {f : σ → Option ω} {g : τ → Option ρ}
    (hfg : ∀ s t, R s t → Option.Rel S (f s) (g t)) {o : Option σ} {o' : Option τ}
    (h : Option.Rel R o o') : Option.Rel S (o.bind f) (o'.bind g) := by
  cases h with
  | none => exact .none
  | some h => exact hfg _ _ h

/-- Related systems that take the same steps. -/
theorem run_lockstep {step : σ → α → Option σ} {step' : τ → α → Option τ}
    (hstep : ∀ s t a, R s t → Option.Rel R (step s a) (step' t a)) {s : σ} {t : τ} (h : R s t)
    (as : List α) : Option.Rel R (run step s as) (run step' t as) := by
  induction as generalizing s t with
  | nil => exact .some h
  | cons a as ih => exact rel_bind (fun _ _ h' => ih h') (hstep s t a h)

end Lockstep

end Trace
