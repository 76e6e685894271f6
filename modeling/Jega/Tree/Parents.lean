import Mathlib.Data.Fintype.Card
import Mathlib.Data.List.Iterate
import Mathlib.Logic.Function.Iterate

/-!
# Jega.Tree.Parents — rooted trees given by parents

A finite set of nodes, each with a parent; the root is its own parent. A node is
inherited by the first of it and its ancestors that is alive.

* `Rooted.root_mem_line`: as many steps as there are nodes lead to the root.
* `Rooted.leaf`, `Rooted.graft`: what keeps the tree rooted.
* `Rooted.heir_isSome`: while the root is alive, every node has an heir.
-/

namespace Jega.Tree

variable {α : Type*}

/-- A node and its ancestors, `n` of them at most. -/
def line (parent : α → α) (n : Nat) (a : α) : List α := List.iterate parent a (n + 1)

/-- The first one alive of the line. -/
def heir (parent : α → α) (alive : α → Bool) (n : Nat) (a : α) : Option α :=
  (line parent n a).find? alive

variable {parent : α → α} {alive : α → Bool} {n : Nat} {a b : α}

theorem mem_line_iff : b ∈ line parent n a ↔ ∃ k ≤ n, b = parent^[k] a := by
  simp only [line, List.mem_iterate, Nat.lt_succ_iff]

theorem heir_of_alive (h : alive a = true) : heir parent alive n a = some a := by
  simp [heir, line, List.iterate, h]

theorem alive_of_heir (h : heir parent alive n a = some b) : alive b = true :=
  List.find?_some h

/-! ## Rooted trees -/

structure Rooted (parent : α → α) (root : α) (nodes : Finset α) : Prop where
  root_mem : root ∈ nodes
  parent_root : parent root = root
  parent_mem : ∀ a ∈ nodes, parent a ∈ nodes
  reaches : ∀ a ∈ nodes, ∃ k, parent^[k] a = root

namespace Rooted

variable {root : α} {nodes : Finset α}

theorem iterate_mem (h : Rooted parent root nodes) (ha : a ∈ nodes) (k : Nat) :
    parent^[k] a ∈ nodes := by
  induction k with
  | zero => exact ha
  | succ k ih =>
    rw [Function.iterate_succ_apply']
    exact h.parent_mem _ ih

/-- On the shortest way to the root no node comes twice. -/
theorem exists_lt_card (h : Rooted parent root nodes) (ha : a ∈ nodes) :
    ∃ k < nodes.card, parent^[k] a = root := by
  classical
  have hex := h.reaches a ha
  refine ⟨Nat.find hex, ?_, Nat.find_spec hex⟩
  set k := Nat.find hex with hk
  have hinj : ∀ i j, i < j → j ≤ k → parent^[i] a ≠ parent^[j] a := by
    intro i j hij hj heq
    -- leaving out the steps from `i` to `j` gives a shorter way
    have hshort : parent^[k - j + i] a = root := by
      rw [Function.iterate_add_apply, heq, ← Function.iterate_add_apply, Nat.sub_add_cancel hj]
      exact Nat.find_spec hex
    exact Nat.find_min hex (by omega) hshort
  have hcard : ((Finset.range (k + 1)).image fun i => parent^[i] a).card = k + 1 := by
    rw [Finset.card_image_of_injOn, Finset.card_range]
    intro i hi j hj heq
    rw [Finset.coe_range, Set.mem_Iio] at hi hj
    rcases Nat.lt_trichotomy i j with hlt | heq' | hlt
    · exact absurd heq (hinj i j hlt (by omega))
    · exact heq'
    · exact absurd heq.symm (hinj j i hlt (by omega))
  have hsub : ((Finset.range (k + 1)).image fun i => parent^[i] a) ⊆ nodes := by
    intro b hb
    rcases Finset.mem_image.1 hb with ⟨i, -, rfl⟩
    exact h.iterate_mem ha i
  have hle := Finset.card_le_card hsub
  omega

theorem root_mem_line (h : Rooted parent root nodes) (hn : nodes.card ≤ n) (ha : a ∈ nodes) :
    root ∈ line parent n a := by
  rcases h.exists_lt_card ha with ⟨k, hk, hroot⟩
  exact mem_line_iff.2 ⟨k, by omega, hroot.symm⟩

theorem heir_isSome (h : Rooted parent root nodes) (hn : nodes.card ≤ n)
    (halive : alive root = true) (ha : a ∈ nodes) : (heir parent alive n a).isSome :=
  List.find?_isSome.2 ⟨root, h.root_mem_line hn ha, halive⟩

theorem heir_mem (h : Rooted parent root nodes) (ha : a ∈ nodes)
    (hb : heir parent alive n a = some b) : b ∈ nodes := by
  rcases mem_line_iff.1 (List.mem_of_find?_eq_some hb) with ⟨k, -, rfl⟩
  exact h.iterate_mem ha k

variable [DecidableEq α]

/-- A new leaf. -/
theorem leaf (h : Rooted parent root nodes) (ha : a ∉ nodes) (hb : b ∈ nodes) :
    Rooted (Function.update parent a b) root (insert a nodes) := by
  have hold : ∀ c ∈ nodes, Function.update parent a b c = parent c := by
    intro c hc
    refine Function.update_of_ne ?_ _ _
    rintro rfl
    exact ha hc
  have hiter : ∀ c ∈ nodes, ∀ k, (Function.update parent a b)^[k] c = parent^[k] c := by
    intro c hc k
    induction k with
    | zero => rfl
    | succ k ih =>
      rw [Function.iterate_succ_apply', Function.iterate_succ_apply', ih]
      exact hold _ (h.iterate_mem hc k)
  constructor
  · exact Finset.mem_insert_of_mem h.root_mem
  · rw [hold root h.root_mem, h.parent_root]
  · intro c hc
    rcases Finset.mem_insert.1 hc with rfl | hc
    · rw [Function.update_self]
      exact Finset.mem_insert_of_mem hb
    · rw [hold c hc]
      exact Finset.mem_insert_of_mem (h.parent_mem c hc)
  · intro c hc
    rcases Finset.mem_insert.1 hc with rfl | hc
    · rcases h.reaches b hb with ⟨k, hk⟩
      refine ⟨k + 1, ?_⟩
      rw [Function.iterate_succ_apply, Function.update_self, hiter b hb, hk]
    · rcases h.reaches c hc with ⟨k, hk⟩
      exact ⟨k, by rw [hiter c hc, hk]⟩

/-- A node that is not above its new parent takes its subtree along. -/
theorem graft (h : Rooted parent root nodes) (hn : nodes.card ≤ n) (ha : a ∈ nodes)
    (hb : b ∈ nodes) (hline : a ∉ line parent n b) :
    Rooted (Function.update parent a b) root nodes := by
  have hroot : a ≠ root := by
    intro heq
    exact hline (heq ▸ h.root_mem_line hn hb)
  -- the way up from `b` does not meet `a`, before the root or after it
  have hnot : ∀ k, parent^[k] b ≠ a := by
    intro k heq
    rcases h.exists_lt_card hb with ⟨m, hm, hmroot⟩
    rcases Nat.lt_or_ge n k with hk | hk
    · refine hroot ?_
      rw [← heq, show k = k - m + m by omega, Function.iterate_add_apply, hmroot]
      exact Function.iterate_fixed h.parent_root _
    · exact hline (mem_line_iff.2 ⟨k, hk, heq.symm⟩)
  have hiter : ∀ k, (Function.update parent a b)^[k] b = parent^[k] b := by
    intro k
    induction k with
    | zero => rfl
    | succ k ih =>
      rw [Function.iterate_succ_apply', Function.iterate_succ_apply', ih,
        Function.update_of_ne (hnot k)]
  constructor
  · exact h.root_mem
  · rw [Function.update_of_ne hroot.symm, h.parent_root]
  · intro c hc
    rcases eq_or_ne c a with rfl | hca
    · rw [Function.update_self]
      exact hb
    · rw [Function.update_of_ne hca]
      exact h.parent_mem c hc
  · intro c hc
    rcases h.reaches c hc with ⟨k, hk⟩
    -- by the length of the old way; at `a` the way through `b` takes over
    induction k generalizing c with
    | zero => exact ⟨0, hk⟩
    | succ k ih =>
      rcases eq_or_ne c a with rfl | hca
      · rcases h.reaches b hb with ⟨m, hm⟩
        refine ⟨m + 1, ?_⟩
        rw [Function.iterate_succ_apply, Function.update_self, hiter, hm]
      · rw [Function.iterate_succ_apply] at hk
        rcases ih (parent c) (h.parent_mem c hc) hk with ⟨m, hm⟩
        refine ⟨m + 1, ?_⟩
        rw [Function.iterate_succ_apply, Function.update_of_ne hca, hm]

end Rooted

end Jega.Tree
