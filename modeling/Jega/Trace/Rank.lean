import Jega.Trace.Rules

/-!
# Trace.Rank — runs that end

A rank that every step lowers bounds the length of a run, and from every state
there is a run to one where no label is enabled. A rank that some steps lower and
none raises bounds how many of these there are.
-/

namespace Trace

universe u v

variable {σ : Type u} {α : Type v} {step : σ → α → Option σ} {Inv : σ → Prop} {rank : σ → Nat}

/-- In a run of steps that all keep `ok`, what is counted lowers the rank and
nothing raises it. -/
theorem countP_le_rank {counted : α → Bool} {ok : σ → α → Prop}
    (hinv : ∀ s a s', step s a = some s' → ok s a → Inv s → Inv s')
    (hlt : ∀ s a s', step s a = some s' → ok s a → Inv s → counted a = true → rank s' < rank s)
    (hle : ∀ s a s', step s a = some s' → ok s a → Inv s → counted a = false → rank s' ≤ rank s) :
    ∀ {s t : σ} {as : List α}, Inv s → Steps step ok s as → run step s as = some t →
      as.countP counted + rank t ≤ rank s := by
  intro s t as hs hok hrun
  induction as generalizing s with
  | nil =>
    rw [run_nil, Option.some.injEq] at hrun
    subst hrun
    exact Nat.le_of_eq (Nat.zero_add _)
  | cons a as ih =>
    rcases run_cons_iff.1 hrun with ⟨s', hs', hrest⟩
    have hrec := ih (hinv s a s' hs' hok.1 hs) (hok.2 s' hs') hrest
    cases hc : counted a with
    | true =>
      have hone := hlt s a s' hs' hok.1 hs hc
      rw [List.countP_cons_of_pos hc]
      omega
    | false =>
      have hone := hle s a s' hs' hok.1 hs hc
      have hneg : ¬ counted a = true := by simp [hc]
      rw [List.countP_cons_of_neg hneg]
      omega

end Trace
