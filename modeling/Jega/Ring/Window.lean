import Mathlib.Data.List.Range
import Mathlib.Data.Nat.ModEq
import Mathlib.Logic.Function.Basic

/-!
# Ring.Window — the contents of a ring buffer

The entries of a ring of `max` cells are the `n` cells from `first` on, taken
around the ring. The rules say what the two ends do to them:

* `window_push`: writing behind the last entry appends;
* `window_shift`: the first entry is the cell at `first`, the others follow it.
-/

namespace Ring

universe u

variable {α : Type u}

/-- The `n` cells from `first` on, around a ring of `max` cells. -/
def window (a : Nat → α) (first max n : Nat) : List α :=
  (List.range n).map fun i => a ((first + i) % max)

@[simp] theorem window_zero (a : Nat → α) (first max : Nat) : window a first max 0 = [] := rfl

@[simp] theorem length_window (a : Nat → α) (first max n : Nat) :
    (window a first max n).length = n := by
  simp [window]

theorem window_succ (a : Nat → α) (first max n : Nat) :
    window a first max (n + 1) = window a first max n ++ [a ((first + n) % max)] := by
  simp [window, List.range_succ]

theorem window_shift (a : Nat → α) {first max : Nat} (hfirst : first < max) (n : Nat) :
    window a first max (n + 1) = a first :: window a ((first + 1) % max) max n := by
  have hstep : ∀ i, (first + (i + 1)) % max = ((first + 1) % max + i) % max := by
    intro i
    rw [Nat.mod_add_mod, Nat.add_assoc, Nat.add_comm 1 i]
  simp only [window, List.range_succ_eq_map, List.map_cons, List.map_map]
  rw [Nat.add_zero, Nat.mod_eq_of_lt hfirst, List.cons.injEq]
  refine ⟨rfl, List.map_congr_left fun i _ => ?_⟩
  exact congrArg a (hstep i)

/-- Places less than a turn apart are different cells. -/
theorem place_ne (first : Nat) {max i n : Nat} (hi : i < n) (hn : n < max) :
    (first + i) % max ≠ (first + n) % max := by
  intro h
  have hmod : i ≡ n [MOD max] := Nat.ModEq.add_left_cancel' first h
  have heq : i = n := Nat.ModEq.eq_of_lt_of_lt hmod (hi.trans hn) hn
  omega

theorem window_congr {a b : Nat → α} {first max n : Nat}
    (h : ∀ i, i < n → a ((first + i) % max) = b ((first + i) % max)) :
    window a first max n = window b first max n := by
  apply List.map_congr_left
  intro i hi
  exact h i (List.mem_range.1 hi)

theorem window_push (a : Nat → α) {first max n : Nat} (hn : n < max) (x : α) :
    window (Function.update a ((first + n) % max) x) first max (n + 1) =
      window a first max n ++ [x] := by
  rw [window_succ, Function.update_self]
  congr 1
  apply window_congr
  intro i hi
  rw [Function.update_of_ne (place_ne first hi hn)]

end Ring
