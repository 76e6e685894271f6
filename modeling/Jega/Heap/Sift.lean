import Mathlib.Data.Multiset.Range
import Mathlib.Data.Finset.Range
import Mathlib.Logic.Equiv.Basic
import Mathlib.Order.Defs.LinearOrder

/-!
# Heap.Sift — an array-backed binary heap with a hole

The cells `0 .. n - 1` of `a` are a heap by `key`; the parent of cell `i` is
cell `(i - 1) / 2`. An item that is being sifted is held outside of the array,
and the cell it would go to is the hole. The rules say what a sift may do:

* `Hole.up`, `Hole.down`: the hole moves to its parent or to its least child,
  whose entry takes the place of the hole;
* `Hole.fill`: the item is put down, and the array is a heap again;
* `contents_move`: a move of the hole changes no entry.
-/

namespace Heap

universe u v

variable {α : Type u} {κ : Type v}

/-! ## Entries -/

/-- The entries of the first `n` cells. -/
def contents (a : Nat → α) (n : Nat) : Multiset α := (Multiset.range n).map a

@[simp] theorem contents_zero (a : Nat → α) : contents a 0 = 0 := rfl

theorem contents_succ (a : Nat → α) (n : Nat) : contents a (n + 1) = a n ::ₘ contents a n := by
  simp [contents, Multiset.range_succ]

theorem contents_congr {a b : Nat → α} {n : Nat} (h : ∀ i, i < n → a i = b i) :
    contents a n = contents b n :=
  Multiset.map_congr rfl fun i hi => h i (Multiset.mem_range.1 hi)

@[simp] theorem card_contents (a : Nat → α) (n : Nat) : (contents a n).card = n := by
  simp [contents]

theorem mem_contents {a : Nat → α} {n : Nat} {x : α} :
    x ∈ contents a n ↔ ∃ i, i < n ∧ a i = x := by
  simp [contents]

theorem swap_lt {i j n : Nat} (hi : i < n) (hj : j < n) {k : Nat} (hk : k < n) :
    Equiv.swap i j k < n := by
  rw [Equiv.swap_apply_def]
  split_ifs <;> assumption

/-- Exchanging two cells changes no entry. -/
theorem contents_swap (a : Nat → α) {i j n : Nat} (hi : i < n) (hj : j < n) :
    contents (a ∘ Equiv.swap i j) n = contents a n := by
  have hperm : (Multiset.range n).map (Equiv.swap i j) = Multiset.range n := by
    have hnodup : ((Multiset.range n).map (Equiv.swap i j)).Nodup :=
      (Multiset.nodup_range n).map (Equiv.injective _)
    refine (Multiset.Nodup.ext hnodup (Multiset.nodup_range n)).2 fun k => ?_
    rw [Multiset.mem_map, Multiset.mem_range]
    constructor
    · rintro ⟨m, hm, rfl⟩
      exact swap_lt hi hj (Multiset.mem_range.1 hm)
    · intro hk
      exact ⟨Equiv.swap i j k, Multiset.mem_range.2 (swap_lt hi hj hk), Equiv.swap_apply_self i j k⟩
  rw [contents, ← Multiset.map_map, hperm, contents]

/-- Moving the hole changes no entry. -/
theorem contents_move (a : Nat → α) {hole p n : Nat} (hhole : hole < n) (hp : p < n) (x : α) :
    contents (Function.update (Function.update a hole (a p)) p x) n =
      contents (Function.update a hole x) n := by
  rw [← contents_swap (Function.update a hole x) hhole hp]
  congr 1
  funext k
  simp only [Function.comp_apply, Equiv.swap_apply_def, Function.update_apply]
  grind

/-- Taking the entry of cell 0 away and moving the last one there. -/
theorem contents_cut (a : Nat → α) (n : Nat) :
    a 0 ::ₘ contents (Function.update a 0 (a n)) n = contents a (n + 1) := by
  have hmove := contents_move a (Nat.succ_pos n) (Nat.lt_succ_self n) (a 0)
  rw [Function.update_eq_self, contents_succ, Function.update_self] at hmove
  rw [← hmove]
  congr 1
  apply contents_congr
  intro i hi
  rw [Function.update_of_ne (Nat.ne_of_lt hi)]

/-! ## Order -/

variable [LinearOrder κ]

/-- No cell is before its parent. -/
def Ordered (key : α → κ) (a : Nat → α) (n : Nat) : Prop :=
  ∀ i, 0 < i → i < n → key (a ((i - 1) / 2)) ≤ key (a i)

variable {key : α → κ} {a : Nat → α} {n hole : Nat} {x : α}

/-- The keys of the entries matter, and no others. -/
theorem Ordered.congr_key {key' : α → κ} (ho : Ordered key a n)
    (h : ∀ i, i < n → key' (a i) = key (a i)) : Ordered key' a n := by
  intro i h0 hi
  rw [h i hi, h ((i - 1) / 2) (by omega)]
  exact ho i h0 hi

theorem Ordered.mono {m : Nat} (ho : Ordered key a n) (hm : m ≤ n) : Ordered key a m :=
  fun i h0 hi => ho i h0 (hi.trans_le hm)

/-- The root is a least entry. -/
theorem Ordered.root_le (ho : Ordered key a n) {i : Nat} (hi : i < n) : key (a 0) ≤ key (a i) := by
  induction i using Nat.strongRecOn with
  | ind i ih =>
    rcases Nat.eq_zero_or_pos i with rfl | h0
    · exact le_refl _
    · exact (ih ((i - 1) / 2) (by omega) (by omega)).trans (ho i h0 hi)

theorem Ordered.root_le_of_mem (ho : Ordered key a n) (hx : x ∈ contents a n) :
    key (a 0) ≤ key x := by
  obtain ⟨i, hi, rfl⟩ := mem_contents.1 hx
  exact ho.root_le hi

/-- The order around a hole: the pairs off the hole are in order, and the
children of the hole are not before its parent. -/
structure Hole (key : α → κ) (a : Nat → α) (n hole : Nat) : Prop where
  off : ∀ i, 0 < i → i < n → i ≠ hole → (i - 1) / 2 ≠ hole → key (a ((i - 1) / 2)) ≤ key (a i)
  around : 0 < hole → ∀ c, 0 < c → c < n → (c - 1) / 2 = hole →
    key (a ((hole - 1) / 2)) ≤ key (a c)

/-- No child of the hole is before the item. -/
def Below (key : α → κ) (a : Nat → α) (n hole : Nat) (x : α) : Prop :=
  ∀ c, 0 < c → c < n → (c - 1) / 2 = hole → key x ≤ key (a c)

/-- The item is before the parent of the hole: the parent comes down. -/
theorem Hole.up (hh : Hole key a n hole) (h0 : 0 < hole) (hlt : hole < n)
    (hx : key x < key (a ((hole - 1) / 2))) :
    Hole key (Function.update a hole (a ((hole - 1) / 2))) n ((hole - 1) / 2) ∧
      Below key (Function.update a hole (a ((hole - 1) / 2))) n ((hole - 1) / 2) x := by
  have hpar : (hole - 1) / 2 ≠ hole := by omega
  -- a sibling of the hole is a child of its parent as well
  have hsib : ∀ c, 0 < c → c < n → c ≠ hole → (c - 1) / 2 = (hole - 1) / 2 →
      key (a ((hole - 1) / 2)) ≤ key (a c) := by
    intro c hc0 hc hne hp
    have hoff := hh.off c hc0 hc hne (by omega)
    rwa [hp] at hoff
  refine ⟨⟨?_, ?_⟩, ?_⟩
  · intro i hi0 hi hne hp
    rcases eq_or_ne i hole with rfl | hih
    · exact absurd rfl hp
    rw [Function.update_of_ne hih]
    rcases eq_or_ne ((i - 1) / 2) hole with hph | hph
    · rw [hph, Function.update_self]
      exact hh.around h0 i hi0 hi hph
    · rw [Function.update_of_ne hph]
      exact hh.off i hi0 hi hih hph
  · intro hp0 c hc0 hc hp
    have hgrand : ((hole - 1) / 2 - 1) / 2 ≠ hole := by omega
    have hpp := hh.off ((hole - 1) / 2) hp0 (by omega) hpar hgrand
    rw [Function.update_of_ne hgrand]
    rcases eq_or_ne c hole with rfl | hch
    · rw [Function.update_self]
      exact hpp
    · rw [Function.update_of_ne hch]
      exact hpp.trans (hsib c hc0 hc hch hp)
  · intro c hc0 hc hp
    rcases eq_or_ne c hole with rfl | hch
    · rw [Function.update_self]
      exact hx.le
    · rw [Function.update_of_ne hch]
      exact hx.le.trans (hsib c hc0 hc hch hp)

/-- The least child of the hole comes up. -/
theorem Hole.down (hh : Hole key a n hole) {c : Nat} (hc0 : 0 < c) (hc : c < n)
    (hpar : (c - 1) / 2 = hole)
    (hleast : ∀ d, 0 < d → d < n → (d - 1) / 2 = hole → key (a c) ≤ key (a d)) :
    Hole key (Function.update a hole (a c)) n c := by
  have hne : c ≠ hole := by omega
  refine ⟨?_, ?_⟩
  · intro i hi0 hi hic hp
    rcases eq_or_ne i hole with rfl | hih
    · have hpi : (i - 1) / 2 ≠ i := by omega
      rw [Function.update_self, Function.update_of_ne hpi]
      exact hh.around hi0 c hc0 hc hpar
    rw [Function.update_of_ne hih]
    rcases eq_or_ne ((i - 1) / 2) hole with hph | hph
    · rw [hph, Function.update_self]
      exact hleast i hi0 hi hph
    · rw [Function.update_of_ne hph]
      exact hh.off i hi0 hi hih hph
  · intro _ d hd0 hd hdp
    have hdh : d ≠ hole := by omega
    rw [hpar, Function.update_self, Function.update_of_ne hdh, ← hdp]
    exact hh.off d hd0 hd hdh (by omega)

/-- The item is put down where it is not before the parent of the hole. -/
theorem Hole.fill (hh : Hole key a n hole) (hb : Below key a n hole x)
    (hx : 0 < hole → key (a ((hole - 1) / 2)) ≤ key x) :
    Ordered key (Function.update a hole x) n := by
  intro i hi0 hi
  rcases eq_or_ne i hole with rfl | hih
  · have hpi : (i - 1) / 2 ≠ i := by omega
    rw [Function.update_self, Function.update_of_ne hpi]
    exact hx hi0
  rw [Function.update_of_ne hih]
  rcases eq_or_ne ((i - 1) / 2) hole with hph | hph
  · rw [hph, Function.update_self]
    exact hb i hi0 hi hph
  · rw [Function.update_of_ne hph]
    exact hh.off i hi0 hi hih hph

end Heap
