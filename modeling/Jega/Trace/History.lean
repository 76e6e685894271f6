import Jega.Trace.Rules

/-!
# Trace.History — history variables

A history variable is written along a run and no step reads it. `watch` adds one
to a step function; the runs of the watched system are the runs of the system
(`run_watch_iff`), and a condition on the system's steps can be stated on either
(`steps_watch`).
-/

namespace Trace

universe u v w

variable {σ : Type u} {α : Type v} {η : Type w}

/-- A state and what is known of the run so far. -/
structure Watched (σ : Type u) (η : Type w) where
  st : σ
  hist : η

/-- The step function that also writes the history: `note` sees both ends of the
step. -/
def watch (step : σ → α → Option σ) (note : σ → α → σ → η → η) (t : Watched σ η) (a : α) :
    Option (Watched σ η) :=
  (step t.st a).map fun s' => ⟨s', note t.st a s' t.hist⟩

variable {step : σ → α → Option σ} {note : σ → α → σ → η → η}

theorem watch_eq_some {t t' : Watched σ η} {a : α} :
    watch step note t a = some t' ↔
      step t.st a = some t'.st ∧ t'.hist = note t.st a t'.st t.hist := by
  constructor
  · intro h
    obtain ⟨s', hs', rfl⟩ := Option.map_eq_some_iff.1 h
    exact ⟨hs', rfl⟩
  · rintro ⟨hs', hh⟩
    refine Option.map_eq_some_iff.2 ⟨t'.st, hs', ?_⟩
    rw [← hh]

/-- A step of the system is a step of the watched one. -/
theorem watch_of_step {s s' : σ} {a : α} (h : step s a = some s') (hist : η) :
    watch step note ⟨s, hist⟩ a = some ⟨s', note s a s' hist⟩ :=
  watch_eq_some.2 ⟨h, rfl⟩

/-- A history restricts no run. -/
theorem run_watch_iff {t : Watched σ η} {s' : σ} {as : List α} :
    (∃ hist, run (watch step note) t as = some ⟨s', hist⟩) ↔ run step t.st as = some s' := by
  induction as generalizing t with
  | nil =>
    constructor
    · rintro ⟨hist, h⟩
      rw [run_nil, Option.some.injEq] at h
      rw [h, run_nil]
    · intro h
      rw [run_nil, Option.some.injEq] at h
      exact ⟨t.hist, by rw [run_nil, ← h]⟩
  | cons a as ih =>
    rw [run_cons_iff]
    constructor
    · rintro ⟨hist, h⟩
      obtain ⟨t', ht', hrest⟩ := run_cons_iff.1 h
      exact ⟨t'.st, (watch_eq_some.1 ht').1, ih.1 ⟨hist, hrest⟩⟩
    · rintro ⟨r, hr, hrest⟩
      have hone : watch step note t a = some ⟨r, note t.st a r t.hist⟩ := watch_of_step hr t.hist
      obtain ⟨hist, hrun⟩ := (@ih ⟨r, note t.st a r t.hist⟩).2 hrest
      exact ⟨hist, run_cons_iff.2 ⟨_, hone, hrun⟩⟩

theorem run_watch {t t' : Watched σ η} {as : List α}
    (h : run (watch step note) t as = some t') : run step t.st as = some t'.st :=
  run_watch_iff.1 ⟨t'.hist, h⟩

/-- A condition on the states of the system may be asked of either. -/
theorem steps_watch {p : σ → α → Prop} {t : Watched σ η} {as : List α} :
    Steps (watch step note) (fun t a => p t.st a) t as ↔ Steps step p t.st as := by
  induction as generalizing t with
  | nil => exact Iff.rfl
  | cons a as ih =>
    constructor
    · rintro ⟨hok, hrest⟩
      exact ⟨hok, fun s' hs' => ih.1 (hrest _ (watch_of_step hs' t.hist))⟩
    · rintro ⟨hok, hrest⟩
      exact ⟨hok, fun t' ht' => ih.2 (hrest _ (watch_eq_some.1 ht').1)⟩

end Trace
