import Jega.Picoev.Order

/-!
# Jega.Picoev.Bounds — no read or write leaves the tables

`picoev_set_timeout` takes the descriptor for an index, `picoev_handle_timeout`
takes the bits it finds. In any run, whatever the handlers do, the bitmaps hold
bits of descriptors below `max_fd` only, and so do the copies that the walk makes
of their words.
-/

namespace Jega.Picoev

open Bits

variable {c : Config}

/-! ## What a timeout leaves in the rows -/

/-- A row after `picoev_set_timeout`: what it had, less or more one descriptor. -/
theorem clear_timeout_row_cases (s : St) (fd idx : Nat) :
    (clear_timeout s fd).row idx = s.row idx ∨
      (clear_timeout s fd).row idx = (s.row idx).erase fd := by
  by_cases hun : (s.fds fd).timeout_idx = PICOEV_TIMEOUT_IDX_UNUSED
  · exact Or.inl (by rw [clear_timeout_unused hun])
  · rw [clear_timeout_row hun]
    split
    · exact Or.inr rfl
    · exact Or.inl rfl

theorem clear_timeout_mem {s : St} {fd idx k : Nat}
    (h : ((clear_timeout s fd).row idx).mem k = true) : (s.row idx).mem k = true := by
  rcases clear_timeout_row_cases s fd idx with heq | heq
  · rwa [heq] at h
  · rw [heq, Row.mem_erase (by decide), Bool.and_eq_true] at h
    exact h.1

theorem clear_timeout_marked {s : St} {fd idx i : Nat}
    (h : ((clear_timeout s fd).row idx).marked i = true) : (s.row idx).marked i = true := by
  rcases clear_timeout_row_cases s fd idx with heq | heq
  · rwa [heq] at h
  · rw [heq, Row.marked_erase (by decide), Bool.and_eq_true] at h
    exact h.1

theorem set_timeout_mem {s : St} {fd idx k : Nat} {secs : Int}
    (h : ((picoev_set_timeout c s fd secs).row idx).mem k = true) :
    (s.row idx).mem k = true ∨ k = fd := by
  rw [picoev_set_timeout] at h
  split at h
  · rw [arm_timeout_row] at h
    split at h
    · rw [Row.mem_insert (by decide), Bool.or_eq_true, decide_eq_true_eq] at h
      rcases h with h | h
      · exact Or.inl (clear_timeout_mem h)
      · exact Or.inr h
    · exact Or.inl (clear_timeout_mem h)
  · exact Or.inl (clear_timeout_mem h)

theorem set_timeout_marked {s : St} {fd idx i : Nat} {secs : Int}
    (h : ((picoev_set_timeout c s fd secs).row idx).marked i = true) :
    (s.row idx).marked i = true ∨ i = fd / 16 := by
  rw [picoev_set_timeout] at h
  split at h
  · rw [arm_timeout_row] at h
    split at h
    · rw [Row.marked_insert (by decide), Bool.or_eq_true, decide_eq_true_eq] at h
      rcases h with h | h
      · exact Or.inl (clear_timeout_marked h)
      · exact Or.inr h
    · exact Or.inl (clear_timeout_marked h)
  · exact Or.inl (clear_timeout_marked h)

/-! ## The invariant -/

/-- The bits a copy still holds belong to descriptors of the table. -/
def Pc.Within (max_fd : Nat) : Pc → Prop
  | .words _ j vv => ∀ n, vv.getMsbD n = true → (j + n) * 16 < max_fd
  | .bits _ j vv k v =>
    j * 16 < max_fd ∧ (∀ n, vv.getMsbD n = true → (j + n) * 16 < max_fd) ∧
      ∀ n, v.getMsbD n = true → k + n < max_fd
  | _ => True

structure Bounded (c : Config) (s : St) : Prop where
  mem : ∀ idx k, (s.row idx).mem k = true → k < c.max_fd
  marked : ∀ idx i, (s.row idx).marked i = true → i * 16 < c.max_fd
  within : s.pc.Within c.max_fd

/-- Rows that gained no more than `fd`. -/
theorem Bounded.of_rows {s s' : St} {fd : Nat} (h : Bounded c s) (hfd : fd < c.max_fd)
    (hpc : s'.pc = s.pc)
    (hmem : ∀ idx k, (s'.row idx).mem k = true → (s.row idx).mem k = true ∨ k = fd)
    (hmarked : ∀ idx i, (s'.row idx).marked i = true → (s.row idx).marked i = true ∨ i = fd / 16) :
    Bounded c s' where
  mem idx k hk := by
    rcases hmem idx k hk with hk | rfl
    · exact h.mem idx k hk
    · exact hfd
  marked idx i hi := by
    rcases hmarked idx i hi with hi | rfl
    · exact h.marked idx i hi
    · omega
  within := hpc ▸ h.within

theorem Bounded.set_timeout {s : St} {fd : Nat} (h : Bounded c s) (hfd : fd < c.max_fd)
    (secs : Int) : Bounded c (picoev_set_timeout c s fd secs) :=
  h.of_rows hfd (still_set_timeout s fd secs).pc (fun _ _ => set_timeout_mem)
    (fun _ _ => set_timeout_marked)

/-- The bitmaps and the walk are as they were. -/
theorem Bounded.same {s s' : St} (h : Bounded c s) (hvec : s'.vec = s.vec)
    (hsum : s'.vec_of_vec = s.vec_of_vec) (hpc : s'.pc.Within c.max_fd) : Bounded c s' where
  mem idx k hk := by
    rw [St.row, hvec] at hk
    exact h.mem idx k hk
  marked idx i hi := by
    rw [St.row, hsum] at hi
    exact h.marked idx i hi
  within := hpc

theorem Bounded.update_events {s : St} (h : Bounded c s) (fd : Nat) (events : Io.Events)
    (del : Bool) : Bounded c (picoev_update_events_internal s fd events del) := by
  rw [update_events_eq]
  exact h.same rfl rfl h.within

/-! ## The walk -/

theorem mem_of_copy {s : St} {idx j n : Nat} (h : (s.vec idx j).getMsbD n = true) :
    (s.row idx).mem (j * 16 + n) = true := by
  have hn : n < 16 := lt_of_getMsbD h
  have hdiv : (j * 16 + n) / 16 = j := by omega
  have hmod : (j * 16 + n) % 16 = n := by omega
  rw [Row.mem, hdiv, hmod]
  exact h

theorem marked_of_copy {s : St} {idx i n : Nat} (h : (s.vec_of_vec idx i).getMsbD n = true) :
    (s.row idx).marked (i * 16 + n) = true := by
  have hn : n < 16 := lt_of_getMsbD h
  have hdiv : (i * 16 + n) / 16 = i := by omega
  have hmod : (i * 16 + n) % 16 = n := by omega
  rw [Row.marked, hdiv, hmod]
  exact h

/-- A word of a row that becomes zero. -/
theorem mem_of_write_zero {s : St} {base j idx k : Nat}
    (h : (Row.mem ⟨write s.vec base j 0#_ idx, s.vec_of_vec idx⟩ k) = true) :
    (s.row idx).mem k = true := by
  rw [Row.mem, write_apply] at h
  dsimp only at h
  split at h
  · by_cases hj : k / 16 = j
    · rw [hj, Function.update_self, BitVec.getMsbD_zero] at h
      exact absurd h Bool.false_ne_true
    · rw [Function.update_of_ne hj] at h
      exact h
  · exact h

theorem marked_of_write_zero {s : St} {base i idx k : Nat}
    (h : (Row.marked ⟨s.vec idx, write s.vec_of_vec base i 0#_ idx⟩ k) = true) :
    (s.row idx).marked k = true := by
  rw [Row.marked, write_apply] at h
  dsimp only at h
  split at h
  · by_cases hi : k / 16 = i
    · rw [hi, Function.update_self, BitVec.getMsbD_zero] at h
      exact absurd h Bool.false_ne_true
    · rw [Function.update_of_ne hi] at h
      exact h
  · exact h

theorem within_shifted {w m j : Nat} {v : BitVec w}
    (h : ∀ n, v.getMsbD n = true → (j + n) * 16 < m) :
    ∀ n, (v <<< 1).getMsbD n = true → (j + 1 + n) * 16 < m := by
  intro n hn
  rw [getMsbD_shl] at hn
  have := h (n + 1) hn
  omega

theorem Bounded.scans {s s' : St} (h : Bounded c s) (hs : Scans c s s') : Bounded c s' := by
  have hwithin := h.within
  cases hs with
  | enter hpc hdue => exact h.same rfl rfl trivial
  | leave hpc hdue => exact h.same rfl rfl trivial
  | @short i hpc hi hvv =>
    refine h.same rfl rfl fun n hn => ?_
    exact h.marked s.base_idx _ (marked_of_copy hn)
  | skip_short hpc hi hvv => exact h.same rfl rfl trivial
  | advance hpc hi => exact h.same rfl rfl trivial
  | @word i j vv hpc hmsb =>
    rw [hpc] at hwithin
    refine h.same rfl rfl ⟨hwithin 0 hmsb, hwithin, fun n hn => ?_⟩
    exact h.mem s.base_idx _ (mem_of_copy hn)
  | @skip_word i j vv hpc hvv hmsb =>
    rw [hpc] at hwithin
    exact h.same rfl rfl (within_shifted hwithin)
  | end_words hpc hvv =>
    exact ⟨h.mem, fun idx k hk => h.marked idx k (marked_of_write_zero hk), trivial⟩
  | @fire i j k vv v hpc hmsb =>
    rw [hpc] at hwithin
    refine h.same rfl rfl ⟨hwithin.1, hwithin.2.1, fun n hn => ?_⟩
    rw [getMsbD_shl] at hn
    have := hwithin.2.2 (n + 1) hn
    omega
  | @skip_bit i j k vv v hpc hne hmsb =>
    rw [hpc] at hwithin
    refine h.same rfl rfl ⟨hwithin.1, hwithin.2.1, fun n hn => ?_⟩
    rw [getMsbD_shl] at hn
    have := hwithin.2.2 (n + 1) hn
    omega
  | @end_bits i j k vv v hpc hv =>
    rw [hpc] at hwithin
    exact ⟨fun idx k hk => h.mem idx k (mem_of_write_zero hk), h.marked,
      within_shifted hwithin.2.1⟩

theorem Bounded.step {s s' : St} {a : Act} (h : Bounded c s) (hs : step c s a = some s') :
    Bounded c s' := by
  cases a with
  | add fd events secs =>
    obtain ⟨hfd, rfl⟩ := eq_of_guard hs
    have hfresh : Bounded c (fresh s fd) := h.same rfl rfl h.within
    exact (hfresh.update_events fd events false).set_timeout hfd secs
  | del fd =>
    obtain ⟨hfd, rfl⟩ := eq_of_guard hs
    have hset := (h.update_events fd ⟨false, false⟩ true).set_timeout hfd 0
    exact hset.same rfl rfl hset.within
  | set_events fd events =>
    obtain ⟨-, rfl⟩ := eq_of_guard hs
    rw [picoev_set_events]
    split
    · exact h.update_events fd events false
    · exact h
  | set_timeout fd secs =>
    obtain ⟨hfd, rfl⟩ := eq_of_guard hs
    exact h.set_timeout hfd secs
  | opens fd =>
    obtain ⟨-, rfl⟩ := eq_of_guard hs
    exact h.same rfl rfl h.within
  | closes fd kept =>
    rw [Picoev.step, Option.some.injEq] at hs
    subst hs
    exact h.same rfl rfl h.within
  | released fd ev =>
    rw [Picoev.step, Option.some.injEq] at hs
    subst hs
    exact h.same rfl rfl h.within
  | loop_once now events =>
    obtain ⟨-, rfl⟩ := eq_of_guard hs
    exact h.same rfl rfl trivial
  | interrupted now =>
    obtain ⟨-, rfl⟩ := eq_of_guard hs
    exact h.same rfl rfl h.within
  | poll =>
    obtain ⟨event, events, -, rfl⟩ := poll_eq hs
    exact h.same rfl rfl trivial
  | polled now =>
    obtain ⟨-, rfl⟩ := eq_of_guard hs
    exact h.same rfl rfl trivial
  | handle_timeout => exact h.scans (scans_of_step hs)

theorem bounded_create_loop (base_time now : Int) :
    Bounded c (picoev_create_loop base_time now) where
  mem idx k hk := by
    change (0#16).getMsbD _ = true at hk
    rw [BitVec.getMsbD_zero] at hk
    exact absurd hk Bool.false_ne_true
  marked idx i hi := by
    change (0#16).getMsbD _ = true at hi
    rw [BitVec.getMsbD_zero] at hi
    exact absurd hi Bool.false_ne_true
  within := trivial

/-! ## The sizes of the tables -/

theorem le_rnd_up (v : Nat) {d : Nat} (hd : 0 < d) : v ≤ PICOEV_RND_UP v d := by
  have hmod := Nat.div_add_mod (v + d - 1) d
  have hlt := Nat.mod_lt (v + d - 1) hd
  rw [PICOEV_RND_UP, Nat.mul_comm]
  omega

theorem dvd_rnd_up (v : Nat) : 16 ∣ PICOEV_RND_UP v 128 :=
  Dvd.dvd.mul_left (by decide) _

/-- There is a word for each descriptor. -/
theorem Config.max_fd_le : c.max_fd ≤ c.timeout_vec_size * 16 := by
  rw [Config.timeout_vec_size, Nat.div_mul_cancel (dvd_rnd_up c.max_fd)]
  exact le_rnd_up c.max_fd (by decide)

/-- There is a summary bit for each word. -/
theorem Config.timeout_vec_size_le : c.timeout_vec_size ≤ c.timeout_vec_of_vec_size * 16 := by
  rw [Config.timeout_vec_of_vec_size, Nat.div_mul_cancel (dvd_rnd_up c.timeout_vec_size)]
  exact le_rnd_up c.timeout_vec_size (by decide)

/-- In any run the walk reads and writes words of the bitmaps and slots of the
table that there are: `vec_of_vec[i]`, `vec[j]` and `fds[k]`. -/
theorem walk_in_bounds {s : St} {as : List Act} {base_time now : Int}
    (hrun : Trace.run (step c) (picoev_create_loop base_time now) as = some s) :
    s.base_idx < PICOEV_TIMEOUT_VEC_SIZE ∧
    (∀ i j vv, s.pc = .words i j vv →
      i < c.timeout_vec_of_vec_size ∧ (vv.msb = true → j < c.timeout_vec_size)) ∧
    ∀ i j vv k v, s.pc = .bits i j vv k v →
      i < c.timeout_vec_of_vec_size ∧ j < c.timeout_vec_size ∧ (v.msb = true → k < c.max_fd) := by
  have hshape : Shape c s := shape_run hrun
  have hbounded : Bounded c s :=
    Trace.run_invariant (fun _ _ _ hs h => h.step hs) (bounded_create_loop base_time now) hrun
  have hwithin := hbounded.within
  have hplaced := hshape.placed
  have hsize : c.max_fd ≤ c.timeout_vec_size * 16 := c.max_fd_le
  refine ⟨hshape.base_lt, fun i j vv hpc => ?_, fun i j vv k v hpc => ?_⟩
  · rw [hpc] at hplaced hwithin
    refine ⟨hplaced.1, fun hmsb => ?_⟩
    rw [msb_iff] at hmsb
    have := hwithin 0 hmsb
    omega
  · rw [hpc] at hplaced hwithin
    obtain ⟨hj, -, hv⟩ := hwithin
    refine ⟨hplaced.1, by omega, fun hmsb => ?_⟩
    rw [msb_iff] at hmsb
    exact hv 0 hmsb

/-- At the word of descriptor 5. -/
theorem walk_in_bounds_word : ∃ s,
    Trace.run (step jega) (picoev_create_loop 0 0)
      (two_due ++ .replicate 20 .handle_timeout) = some s ∧
    s.pc.scanning = true ∧ s.base_idx < PICOEV_TIMEOUT_VEC_SIZE := by
  have h : (Trace.run (step jega) (picoev_create_loop 0 0)
      (two_due ++ .replicate 20 .handle_timeout)).any (fun s => s.pc.scanning) = true := by
    decide +kernel
  obtain ⟨s, hs, hp⟩ := Trace.run_any h
  exact ⟨s, hs, hp, (walk_in_bounds hs).1⟩

end Jega.Picoev
