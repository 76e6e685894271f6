import Mathlib.Algebra.Group.Nat.Defs
import Mathlib.Data.List.Basic

/-!
# Memory.Block — blocks of memory and narrow integers

A block is a list of cells, and a cell that was never written holds `none`. A
copy that leaves the block, or its source, is `none`: there is no telling what
it does. The rules say what becomes of the text at the start of a block:

* `Holds.realloc`: a block that changes its size keeps the text that fits;
* `Holds.memcpy`: what is copied behind the text is appended to it.

`narrow` is what is left of an unsigned integer that goes through a narrower
signed one, and `toNat_narrow` its value.
-/

namespace Memory

universe u

variable {α : Type u}

/-! ## Blocks -/

abbrev Block (α : Type u) := List (Option α)

/-- A block that has a new size; the cells that are added were not written. -/
def realloc (b : Block α) (n : ℕ) : Block α := b.take n ++ List.replicate (n - b.length) none

/-- The first `n` cells of `c`, written from the cell `first` on. -/
def memcpy (b : Block α) (first : ℕ) (c : List α) (n : ℕ) : Option (Block α) :=
  if first + n ≤ b.length ∧ n ≤ c.length then
    some (b.take first ++ (c.take n).map some ++ b.drop (first + n))
  else none

/-- The block starts with a text. -/
def Holds (b : Block α) (text : List α) : Prop := b.take text.length = text.map some

@[simp] theorem length_realloc (b : Block α) (n : ℕ) : (realloc b n).length = n := by
  rw [realloc, List.length_append, List.length_take, List.length_replicate]
  omega

theorem holds_nil (b : Block α) : Holds b [] := rfl

/-- The start of the text is the start of the block. -/
theorem Holds.take {b : Block α} {text : List α} {n : ℕ} (h : Holds b text)
    (hn : n ≤ text.length) : b.take n = (text.take n).map some := by
  rw [List.map_take, ← h, List.take_take, Nat.min_eq_left hn]

theorem Holds.realloc {b : Block α} {text : List α} {n : ℕ} (h : Holds b text)
    (hlen : text.length ≤ b.length) (hn : text.length ≤ n) : Holds (realloc b n) text := by
  have hleft : text.length ≤ (b.take n).length := by
    rw [List.length_take]
    omega
  rw [Holds, Memory.realloc, List.take_append_of_le_length hleft, List.take_take, Nat.min_eq_left hn]
  exact h

theorem memcpy_eq_none {b : Block α} {first n : ℕ} {c : List α} (h : b.length < first + n) :
    memcpy b first c n = none := by
  rw [memcpy, if_neg]
  intro hfits
  omega

/-- A copy into the block writes the block and no other. -/
theorem memcpy_eq_some {b : Block α} {first n : ℕ} {c : List α} (hb : first + n ≤ b.length)
    (hc : n ≤ c.length) : ∃ b', memcpy b first c n = some b' ∧ b'.length = b.length := by
  refine ⟨_, if_pos ⟨hb, hc⟩, ?_⟩
  rw [List.length_append, List.length_append, List.length_take, List.length_map, List.length_take,
    List.length_drop]
  omega

theorem length_memcpy {b b' : Block α} {first n : ℕ} {c : List α} (h : memcpy b first c n = some b') :
    b'.length = b.length := by
  obtain ⟨⟨hb, hc⟩, _⟩ := Option.ite_none_right_eq_some.1 h
  obtain ⟨b'', heq, hlen⟩ := memcpy_eq_some hb hc
  rw [h, Option.some.injEq] at heq
  rw [heq, hlen]

theorem Holds.memcpy {b b' : Block α} {text c : List α} {n : ℕ} (h : Holds b text)
    (hcopy : memcpy b text.length c n = some b') : Holds b' (text ++ c.take n) := by
  obtain ⟨⟨hb, hc⟩, heq⟩ := Option.ite_none_right_eq_some.1 hcopy
  rw [Option.some.injEq] at heq
  have htext : (b.take text.length ++ (c.take n).map some).length = (text ++ c.take n).length := by
    rw [List.length_append, List.length_append, List.length_take, List.length_map]
    omega
  rw [Holds, ← heq, ← htext, List.take_left, List.map_append, h]

/-! ## Narrow integers -/

/-- An integer of `w` bits that goes through a signed one of `v` bits. -/
def narrow {w : ℕ} (v : ℕ) (x : BitVec w) : BitVec w := (x.setWidth v).signExtend w

/-- The lowest `v` bits are left, and the uppermost of them fills the others. -/
theorem toNat_narrow {v w : ℕ} (hvw : v ≤ w) (x : BitVec w) :
    (narrow v x).toNat =
      if 2 * (x.toNat % 2 ^ v) < 2 ^ v then x.toNat % 2 ^ v
      else x.toNat % 2 ^ v + (2 ^ w - 2 ^ v) := by
  have hpow : 2 ^ v ≤ 2 ^ w := Nat.pow_le_pow_right Nat.two_pos hvw
  have hlow : x.toNat % 2 ^ v < 2 ^ v := Nat.mod_lt _ (Nat.two_pow_pos v)
  have hwide : ((x.setWidth v).setWidth w).toNat = x.toNat % 2 ^ v := by
    rw [BitVec.toNat_setWidth, BitVec.toNat_setWidth]
    exact Nat.mod_eq_of_lt (by omega)
  rw [narrow, BitVec.toNat_signExtend, hwide]
  split
  next hneg =>
    rw [BitVec.msb_eq_true_iff_two_mul_ge, BitVec.toNat_setWidth] at hneg
    rw [if_neg (by omega)]
  next hneg =>
    rw [Bool.not_eq_true, BitVec.msb_eq_false_iff_two_mul_lt, BitVec.toNat_setWidth] at hneg
    rw [if_pos hneg, Nat.add_zero]

end Memory
