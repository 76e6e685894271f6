import Mathlib.Tactic.Ring
import Mathlib.Tactic.Linarith

/-!
# Wheel.Slots — the arithmetic of a timing wheel

A wheel has `n` slots of `r` ticks each, one of which is the base. A slot stands
for the time at which the base has passed it. That time does not change when
the base moves (`expiry_advance`): the slot gets nearer by the ticks that the
base gains.
-/

namespace Wheel

variable {n base idx : Nat}

/-- How many slots after the base `idx` is. -/
def dist (n base idx : Nat) : Nat := (idx + n - base) % n

theorem dist_of_le (hb : base ≤ idx) (hi : idx < n) : dist n base idx = idx - base := by
  have heq : idx + n - base = idx - base + n := by omega
  rw [dist, heq, Nat.add_mod_right, Nat.mod_eq_of_lt (by omega)]

theorem dist_of_lt (hi : idx < base) (hb : base < n) : dist n base idx = idx + n - base :=
  Nat.mod_eq_of_lt (by omega)

@[simp] theorem dist_self (hb : base < n) : dist n base base = 0 := by
  rw [dist_of_le (Nat.le_refl base) hb, Nat.sub_self]

/-- The slot that is `d` slots after the base. -/
theorem dist_add {d : Nat} (hb : base < n) (hd : d < n) : dist n base ((base + d) % n) = d := by
  rcases Nat.lt_or_ge (base + d) n with hlt | hge
  · rw [Nat.mod_eq_of_lt hlt, dist_of_le (Nat.le_add_right base d) hlt]
    omega
  · have hmod : (base + d) % n = base + d - n := by
      rw [Nat.mod_eq_sub_mod hge, Nat.mod_eq_of_lt (by omega)]
    rw [hmod, dist_of_lt (by omega) hb]
    omega

/-- The base moves by one: every other slot is one slot nearer. -/
theorem dist_advance (hb : base < n) (hi : idx < n) (hne : idx ≠ base) :
    dist n ((base + 1) % n) idx + 1 = dist n base idx := by
  rcases Nat.lt_or_ge (base + 1) n with hlt | hge
  · rw [Nat.mod_eq_of_lt hlt]
    rcases Nat.lt_or_ge idx base with hlt' | hge'
    · rw [dist_of_lt hlt' hb, dist_of_lt (by omega) hlt]
      omega
    · rw [dist_of_le hge' hi, dist_of_le (by omega) hi]
      omega
  · have heq : base + 1 = n := by omega
    rw [heq, Nat.mod_self, dist_of_le (Nat.zero_le idx) hi, dist_of_lt (by omega) hb]
    omega

/-- The time at which the base, now at `time`, has passed slot `idx`. -/
def expiry (n : Nat) (r time : Int) (base idx : Nat) : Int := time + (dist n base idx + 1) * r

variable {r time : Int}

theorem expiry_base (hb : base < n) : expiry n r time base base = time + r := by
  rw [expiry, dist_self hb]
  push_cast
  ring

/-- A slot keeps its time until the base is there. -/
theorem expiry_advance (hb : base < n) (hi : idx < n) (hne : idx ≠ base) :
    expiry n r (time + r) ((base + 1) % n) idx = expiry n r time base idx := by
  rw [expiry, expiry, ← dist_advance hb hi hne]
  push_cast
  ring

theorem le_expiry (hr : 0 < r) (base idx : Nat) : time + r ≤ expiry n r time base idx := by
  have hpos : (0 : Int) ≤ dist n base idx * r :=
    mul_nonneg (Int.natCast_nonneg _) (le_of_lt hr)
  rw [expiry, add_mul, one_mul]
  linarith

end Wheel
