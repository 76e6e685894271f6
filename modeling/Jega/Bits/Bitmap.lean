import Mathlib.Logic.Function.Basic

/-!
# Bits.Bitmap — sets of numbers in the bits of words

Bits are counted from the top of a word, so that a scan that tests the sign and
shifts left meets them in ascending order. A `Row` is a bitmap of two levels: a
bit for each number, and a summary bit for each word of bits. The rules:

* `mem_insert`, `mem_erase`: what the two writes do to the set;
* `Agrees.insert`, `Agrees.erase`: they keep a summary bit in agreement with its
  word;
* `msb_iff`, `getMsbD_shl`, `eq_zero_iff`: one round of the scan.
-/

namespace Bits

variable {w : Nat}

/-! ## Words -/

/-- The word whose only bit is bit `n` from the top. -/
def bit (w n : Nat) : BitVec w := BitVec.intMin w >>> n

theorem getMsbD_bit (n k : Nat) : (bit w n).getMsbD k = decide (k = n ∧ n < w) := by
  rw [bit, BitVec.getMsbD_ushiftRight, BitVec.getMsbD_intMin, Bool.eq_iff_iff]
  simp only [Bool.and_eq_true, decide_eq_true_eq, Bool.not_eq_true', decide_eq_false_iff_not]
  omega

theorem getMsbD_or_bit (v : BitVec w) {n : Nat} (hn : n < w) (k : Nat) :
    (v ||| bit w n).getMsbD k = (v.getMsbD k || decide (k = n)) := by
  rw [BitVec.getMsbD_or, getMsbD_bit]
  simp [hn]

theorem getMsbD_and_not_bit (v : BitVec w) {n : Nat} (hn : n < w) (k : Nat) :
    (v &&& ~~~ bit w n).getMsbD k = (v.getMsbD k && !decide (k = n)) := by
  rw [BitVec.getMsbD_and, BitVec.getMsbD_not, getMsbD_bit]
  by_cases hk : k < w
  · simp [hk, hn]
  · simp [hk, BitVec.getMsbD_of_ge v k (Nat.le_of_not_lt hk)]

theorem eq_zero_iff (v : BitVec w) : v = 0#w ↔ ∀ k, v.getMsbD k = false := by
  constructor
  · rintro rfl k
    exact BitVec.getMsbD_zero
  · intro h
    apply BitVec.eq_of_getMsbD_eq
    intro k _
    rw [h k, BitVec.getMsbD_zero]

theorem ne_zero_iff (v : BitVec w) : v ≠ 0#w ↔ ∃ k, v.getMsbD k = true := by
  rw [ne_eq, eq_zero_iff, not_forall]
  simp only [Bool.not_eq_false]

/-- The sign of a word is its first bit. -/
theorem msb_iff (v : BitVec w) : v.msb = v.getMsbD 0 := BitVec.msb_eq_getMsbD_zero v

/-- A shift drops the first bit. -/
theorem getMsbD_shl (v : BitVec w) (k : Nat) : (v <<< 1).getMsbD k = v.getMsbD (k + 1) :=
  BitVec.getMsbD_shiftLeft v 1

theorem lt_of_getMsbD {v : BitVec w} {k : Nat} (h : v.getMsbD k = true) : k < w := by
  rcases Nat.lt_or_ge k w with hk | hk
  · exact hk
  · rw [BitVec.getMsbD_of_ge v k hk] at h
    exact absurd h Bool.false_ne_true

/-! ## Rows -/

/-- Words of bits, and the words that summarise them. -/
structure Row (w : Nat) where
  word : Nat → BitVec w
  summary : Nat → BitVec w

namespace Row

variable (r : Row w)

def mem (k : Nat) : Bool := (r.word (k / w)).getMsbD (k % w)

/-- The summary bit of word `i`. -/
def marked (i : Nat) : Bool := (r.summary (i / w)).getMsbD (i % w)

def insert (k : Nat) : Row w where
  word := Function.update r.word (k / w) (r.word (k / w) ||| bit w (k % w))
  summary := Function.update r.summary (k / w / w) (r.summary (k / w / w) ||| bit w (k / w % w))

/-- The summary bit goes with the last bit of its word. -/
def erase (k : Nat) : Row w where
  word := Function.update r.word (k / w) (r.word (k / w) &&& ~~~ bit w (k % w))
  summary :=
    if r.word (k / w) &&& ~~~ bit w (k % w) = 0#w then
      Function.update r.summary (k / w / w) (r.summary (k / w / w) &&& ~~~ bit w (k / w % w))
    else r.summary

variable {r}

theorem word_insert (k : Nat) :
    (r.insert k).word = Function.update r.word (k / w) (r.word (k / w) ||| bit w (k % w)) := rfl

theorem word_erase (k : Nat) :
    (r.erase k).word = Function.update r.word (k / w) (r.word (k / w) &&& ~~~ bit w (k % w)) := rfl

/-- The same word and the same bit. -/
theorem eq_of_div_mod {j k : Nat} (hd : j / w = k / w) (hm : j % w = k % w) : j = k := by
  rw [← Nat.div_add_mod j w, ← Nat.div_add_mod k w, hd, hm]

theorem mem_insert (hw : 0 < w) (k j : Nat) : (r.insert k).mem j = (r.mem j || decide (j = k)) := by
  rw [mem, mem, word_insert]
  by_cases hd : j / w = k / w
  · rw [hd, Function.update_self, getMsbD_or_bit _ (Nat.mod_lt k hw)]
    have hiff : j % w = k % w ↔ j = k := ⟨eq_of_div_mod hd, fun h => h ▸ rfl⟩
    simp only [hiff]
  · have hne : j ≠ k := fun h => hd (h ▸ rfl)
    simp [Function.update_of_ne hd, hne]

theorem mem_erase (hw : 0 < w) (k j : Nat) :
    (r.erase k).mem j = (r.mem j && !decide (j = k)) := by
  rw [mem, mem, word_erase]
  by_cases hd : j / w = k / w
  · rw [hd, Function.update_self, getMsbD_and_not_bit _ (Nat.mod_lt k hw)]
    have hiff : j % w = k % w ↔ j = k := ⟨eq_of_div_mod hd, fun h => h ▸ rfl⟩
    simp only [hiff]
  · have hne : j ≠ k := fun h => hd (h ▸ rfl)
    simp [Function.update_of_ne hd, hne]

theorem marked_insert (hw : 0 < w) (k i : Nat) :
    (r.insert k).marked i = (r.marked i || decide (i = k / w)) := by
  change (Function.update r.summary _ _ (i / w)).getMsbD (i % w) =
    ((r.summary (i / w)).getMsbD (i % w) || decide (i = k / w))
  by_cases hd : i / w = k / w / w
  · rw [hd, Function.update_self, getMsbD_or_bit _ (Nat.mod_lt _ hw)]
    have hiff : i % w = k / w % w ↔ i = k / w := ⟨eq_of_div_mod hd, fun h => h ▸ rfl⟩
    simp only [hiff]
  · have hne : i ≠ k / w := fun h => hd (h ▸ rfl)
    simp [Function.update_of_ne hd, hne]

theorem marked_erase (hw : 0 < w) (k i : Nat) :
    (r.erase k).marked i =
      (r.marked i && !decide (i = k / w ∧ (r.erase k).word (k / w) = 0#w)) := by
  have hword : (r.erase k).word (k / w) = r.word (k / w) &&& ~~~ bit w (k % w) := by
    rw [word_erase, Function.update_self]
  rw [hword]
  change ((ite _ (Function.update r.summary _ _) r.summary) (i / w)).getMsbD (i % w) =
    ((r.summary (i / w)).getMsbD (i % w) && _)
  by_cases hz : r.word (k / w) &&& ~~~ bit w (k % w) = 0#w
  · rw [if_pos hz]
    by_cases hd : i / w = k / w / w
    · rw [hd, Function.update_self, getMsbD_and_not_bit _ (Nat.mod_lt _ hw)]
      have hiff : i % w = k / w % w ↔ i = k / w := ⟨eq_of_div_mod hd, fun h => h ▸ rfl⟩
      simp only [hiff, hz, and_true]
    · have hne : i ≠ k / w := fun h => hd (h ▸ rfl)
      simp [Function.update_of_ne hd, hne]
  · rw [if_neg hz]
    simp [hz]

theorem or_bit_of_getMsbD {v : BitVec w} {n : Nat} (h : v.getMsbD n = true) :
    v ||| bit w n = v := by
  apply BitVec.eq_of_getMsbD_eq
  intro k _
  rw [getMsbD_or_bit v (lt_of_getMsbD h)]
  by_cases hk : k = n
  · rw [hk, h, Bool.true_or]
  · simp [hk]

/-- A member is there already. -/
theorem insert_of_mem {k : Nat} (hmem : r.mem k = true) (hmarked : r.marked (k / w) = true) :
    r.insert k = r := by
  rw [mem] at hmem
  rw [marked] at hmarked
  rw [insert, or_bit_of_getMsbD hmem, or_bit_of_getMsbD hmarked, Function.update_eq_self,
    Function.update_eq_self]

/-- What is zero stays zero. -/
theorem word_erase_zero {i : Nat} (h : r.word i = 0#w) (k : Nat) : (r.erase k).word i = 0#w := by
  rw [word_erase]
  by_cases hi : i = k / w
  · subst hi
    rw [Function.update_self, h]
    exact BitVec.zero_and
  · rw [Function.update_of_ne hi, h]

theorem summary_erase_zero {i : Nat} (h : r.summary i = 0#w) (k : Nat) :
    (r.erase k).summary i = 0#w := by
  change (ite _ (Function.update r.summary _ _) r.summary) i = 0#w
  split
  · by_cases hi : i = k / w / w
    · subst hi
      rw [Function.update_self, h]
      exact BitVec.zero_and
    · rw [Function.update_of_ne hi, h]
  · exact h

/-- A word that is not zero has a member. -/
theorem word_ne_zero_iff (hw : 0 < w) (i : Nat) :
    r.word i ≠ 0#w ↔ ∃ k, k / w = i ∧ r.mem k = true := by
  rw [ne_zero_iff]
  constructor
  · rintro ⟨n, hn⟩
    have hlt : n < w := lt_of_getMsbD hn
    refine ⟨i * w + n, ?_, ?_⟩
    · rw [Nat.mul_comm, Nat.mul_add_div hw, Nat.div_eq_of_lt hlt, Nat.add_zero]
    · rw [mem, Nat.mul_comm, Nat.mul_add_div hw, Nat.div_eq_of_lt hlt, Nat.mul_add_mod,
        Nat.mod_eq_of_lt hlt, Nat.add_zero]
      exact hn
  · rintro ⟨k, rfl, hk⟩
    exact ⟨k % w, hk⟩

/-- The summary bit of word `i` says whether the word is zero. -/
def Agrees (r : Row w) (i : Nat) : Prop := r.marked i = true ↔ r.word i ≠ 0#w

theorem Agrees.insert (hw : 0 < w) {i : Nat} (h : r.Agrees i) (k : Nat) :
    (r.insert k).Agrees i := by
  rw [Agrees] at h ⊢
  rw [marked_insert hw, Bool.or_eq_true, decide_eq_true_eq, h, word_ne_zero_iff hw,
    word_ne_zero_iff hw]
  constructor
  · rintro (⟨j, hj, hmem⟩ | rfl)
    · exact ⟨j, hj, by rw [mem_insert hw, hmem, Bool.true_or]⟩
    · exact ⟨k, rfl, by simp [mem_insert hw]⟩
  · rintro ⟨j, hj, hmem⟩
    rw [mem_insert hw, Bool.or_eq_true, decide_eq_true_eq] at hmem
    rcases hmem with hmem | rfl
    · exact Or.inl ⟨j, hj, hmem⟩
    · exact Or.inr hj.symm

theorem Agrees.erase (hw : 0 < w) {i : Nat} (h : r.Agrees i) (k : Nat) :
    (r.erase k).Agrees i := by
  rw [Agrees] at h ⊢
  rw [marked_erase hw, Bool.and_eq_true, h, Bool.not_eq_true', decide_eq_false_iff_not]
  by_cases hi : i = k / w
  · subst hi
    constructor
    · rintro ⟨_, hne⟩ hz
      exact hne ⟨rfl, hz⟩
    · intro hne
      refine ⟨fun hz => hne ?_, fun hz => hne hz.2⟩
      rw [word_erase, Function.update_self, hz]
      exact BitVec.zero_and
  · have hword : (r.erase k).word i = r.word i := Function.update_of_ne hi _ _
    rw [hword]
    exact ⟨fun hz => hz.1, fun hne => ⟨hne, fun hc => hi hc.1⟩⟩

end Row

end Bits
