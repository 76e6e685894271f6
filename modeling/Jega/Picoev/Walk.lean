import Jega.Picoev.Timeouts

/-!
# Jega.Picoev.Walk — the walk keeps the agreement

One lemma for each test of `picoev_handle_timeout_internal`: what the walk is
past is cleared, and what its copies say is true of the bitmaps.
-/

namespace Jega.Picoev

open Bits

variable {c : Config}

/-! ## What the copies say -/

/-- No bit in the copy of a summary word: the word is zero. -/
theorem Rep.word_zero {s : St} {i n : Nat} (h : Rep c s) (hbase : s.base_idx < 128) (hn : n < 16)
    (hvisited : s.pc.visited ≤ i * 16 + n)
    (hbit : (s.vec_of_vec s.base_idx i).getMsbD n = false) : s.vec s.base_idx (i * 16 + n) = 0#16 := by
  have hagrees := h.agrees s.base_idx hbase (i * 16 + n) (fun _ => hvisited)
  have hdiv : (i * 16 + n) / 16 = i := by omega
  have hmod : (i * 16 + n) % 16 = n := by omega
  have hmarked : (s.row s.base_idx).marked (i * 16 + n) = false := by
    rw [Row.marked, hdiv, hmod]
    exact hbit
  by_contra hne
  rw [Row.Agrees, hmarked] at hagrees
  exact absurd (hagrees.2 hne) Bool.false_ne_true

/-- A descriptor of a word that is zero is not in the slot. -/
theorem Rep.not_armed {s : St} {fd : Nat} (h : Rep c s) (hbase : s.base_idx < 128)
    (hz : s.vec s.base_idx (fd / 16) = 0#16) : ¬ Armed s fd s.base_idx := by
  rcases Nat.lt_or_ge fd s.pc.done with hlt | hge
  · exact h.past fd hlt
  · rw [← h.mem s.base_idx hbase fd (fun _ => hge), Row.mem]
    change ¬ (s.vec s.base_idx (fd / 16)).getMsbD (fd % 16) = true
    rw [hz, BitVec.getMsbD_zero]
    exact Bool.false_ne_true

/-- The walk goes on, and past descriptors that are not in the slot. -/
theorem Rep.move {s : St} (h : Rep c s) (pc : Pc) (hdone : s.pc.done ≤ pc.done)
    (hpast : ∀ fd < pc.done, ¬ Armed s fd s.base_idx) (hvisited : s.pc.visited ≤ pc.visited)
    (hzero : ∀ j < pc.cleared, s.vec s.base_idx j = 0#16)
    (hsum : ∀ i < pc.cleared_summary, s.vec_of_vec s.base_idx i = 0#16)
    (hcopies : pc.Copies s) : Rep c { s with pc := pc } where
  slot := h.slot
  mem idx hidx fd hfd := h.mem idx hidx fd (fun hi => Nat.le_trans hdone (hfd hi))
  past := hpast
  agrees idx hidx i hi := h.agrees idx hidx i (fun hb => Nat.le_trans hvisited (hi hb))
  zero := hzero
  zero_summary := hsum
  copies := by
    cases pc with
    | words i j vv => exact hcopies
    | bits i j vv k v => exact hcopies
    | _ => trivial

/-- Outside the slots. -/
theorem Rep.outside {s : St} (h : Rep c s) (pc : Pc) (hs : s.pc.scanning = false)
    (hpc : pc.scanning = false) (now : Int) : Rep c { s with now := now, pc := pc } := by
  have hdone := done_of_not_scanning hs
  have hdone' := done_of_not_scanning hpc
  have hmove : Rep c { s with pc := pc } := by
    refine h.move pc (by omega) (fun fd hfd => ?_) ?_ (fun j hj => ?_) (fun i hi => ?_) ?_
    · omega
    · cases hspc : s.pc with
      | shorts i => rw [hspc] at hs; exact absurd hs.symm Bool.false_ne_true
      | words i j vv => rw [hspc] at hs; exact absurd hs.symm Bool.false_ne_true
      | bits i j vv k v => rw [hspc] at hs; exact absurd hs.symm Bool.false_ne_true
      | _ => exact Nat.zero_le _
    · rw [scanning_of_cleared hj] at hpc
      exact absurd hpc.symm Bool.false_ne_true
    · rw [scanning_of_cleared_summary hi] at hpc
      exact absurd hpc.symm Bool.false_ne_true
    · cases pc with
      | words i j vv => exact absurd hpc.symm Bool.false_ne_true
      | bits i j vv k v => exact absurd hpc.symm Bool.false_ne_true
      | _ => trivial
  exact ⟨hmove.slot, hmove.mem, hmove.past, hmove.agrees, hmove.zero, hmove.zero_summary, by
    cases pc with
    | words i j vv => exact absurd hpc.symm Bool.false_ne_true
    | bits i j vv k v => exact absurd hpc.symm Bool.false_ne_true
    | _ => trivial⟩

theorem Rep.short {s : St} {i : Nat} (h : Rep c s) (hbase : s.base_idx < 128)
    (hpc : s.pc = .shorts i) :
    Rep c { s with pc := .words i (i * 16) (s.vec_of_vec s.base_idx i) } := by
  have hpast := h.past
  have hzero := h.zero
  have hsum := h.zero_summary
  have hvis : s.pc.visited = i * 16 := by rw [hpc]; rfl
  rw [hpc] at hpast hzero hsum
  refine h.move _ ?_ (fun fd hfd => hpast fd ?_) ?_ hzero hsum (fun n hn hbit => ?_)
  · rw [hpc]
    change i * 256 ≤ i * 16 * 16
    omega
  · change fd < i * 16 * 16 at hfd
    change fd < i * 256
    omega
  · rw [hpc]
    exact Nat.le_refl _
  · exact h.word_zero hbase (by omega) (by omega) hbit

/-- A summary word that is zero: its words are. -/
theorem Rep.skip_short {s : St} {i : Nat} (h : Rep c s) (hbase : s.base_idx < 128)
    (hpc : s.pc = .shorts i) (hvv : s.vec_of_vec s.base_idx i = 0#16) :
    Rep c { s with pc := .shorts (i + 1) } := by
  have hcleared := h.zero
  have hsum := h.zero_summary
  have hvis : s.pc.visited = i * 16 := by rw [hpc]; rfl
  rw [hpc] at hcleared hsum
  have hzero (j : Nat) (hj : j < (i + 1) * 16) : s.vec s.base_idx j = 0#16 := by
    rcases Nat.lt_or_ge j (i * 16) with hlt | hge
    · exact hcleared j hlt
    · obtain ⟨n, rfl⟩ := Nat.exists_eq_add_of_le hge
      exact h.word_zero hbase (by omega) (by omega) (by rw [hvv, BitVec.getMsbD_zero])
  refine h.move _ ?_ (fun fd hfd => ?_) ?_ hzero (fun b hb => ?_) trivial
  · rw [hpc]
    change i * 256 ≤ (i + 1) * 256
    omega
  · change fd < (i + 1) * 256 at hfd
    exact h.not_armed hbase (hzero _ (by omega))
  · rw [hpc]
    change i * 16 ≤ (i + 1) * 16
    omega
  · change b < i + 1 at hb
    rcases Nat.lt_or_ge b i with hlt | hge
    · exact hsum b hlt
    · have heq : b = i := by omega
      rw [heq]
      exact hvv

theorem Rep.word {s : St} {i j : Nat} {vv : BitVec 16} (h : Rep c s) (hpc : s.pc = .words i j vv) :
    Rep c { s with pc := .bits i j vv (j * 16) (s.vec s.base_idx j) } := by
  have hpast := h.past
  have hzero := h.zero
  have hsum := h.zero_summary
  have hcopies := h.copies
  rw [hpc] at hpast hzero hsum hcopies
  refine h.move _ ?_ hpast ?_ hzero hsum ⟨fun n hn hbit => ?_, fun n hn => ?_⟩
  · rw [hpc]
    exact Nat.le_refl _
  · rw [hpc]
    exact Nat.le_succ j
  · rw [getMsbD_shl] at hbit
    have heq : j + 1 + n = j + (n + 1) := by omega
    rw [heq]
    exact hcopies (n + 1) (by omega) hbit
  · have hdiv : (j * 16 + n) / 16 = j := by omega
    have hmod : (j * 16 + n) % 16 = n := by omega
    rw [Row.mem, hdiv, hmod]
    rfl

theorem Rep.skip_word {s : St} {i j : Nat} {vv : BitVec 16} (h : Rep c s) (hbase : s.base_idx < 128)
    (hpc : s.pc = .words i j vv) (hj : j < i * 16 + 16) (hmsb : vv.getMsbD 0 = false) :
    Rep c { s with pc := .words i (j + 1) (vv <<< 1) } := by
  have hpast := h.past
  have hcleared := h.zero
  have hsum := h.zero_summary
  have hcopies := h.copies
  rw [hpc] at hpast hcleared hsum hcopies
  have hzero (j' : Nat) (hj' : j' < j + 1) : s.vec s.base_idx j' = 0#16 := by
    rcases Nat.lt_or_ge j' j with hlt | hge
    · exact hcleared j' hlt
    · have heq : j' = j + 0 := by omega
      rw [heq]
      exact hcopies 0 (by omega) hmsb
  refine h.move _ ?_ (fun fd hfd => ?_) ?_ hzero hsum (fun n hn hbit => ?_)
  · rw [hpc]
    change j * 16 ≤ (j + 1) * 16
    omega
  · change fd < (j + 1) * 16 at hfd
    exact h.not_armed hbase (hzero _ (by omega))
  · rw [hpc]
    exact Nat.le_succ j
  · rw [getMsbD_shl] at hbit
    have heq : j + 1 + n = j + (n + 1) := by omega
    rw [heq]
    exact hcopies (n + 1) (by omega) hbit

/-- Every word of the summary word is done: it is cleared. -/
theorem Rep.end_words {s : St} {i j : Nat} (h : Rep c s) (hbase : s.base_idx < 128)
    (hpc : s.pc = .words i j 0#16) (hij : i * 16 ≤ j) (hji : j ≤ i * 16 + 16) :
    Rep c { s with
      vec_of_vec := write s.vec_of_vec s.base_idx i 0#16
      pc := .shorts (i + 1) } := by
  have hcleared := h.zero
  have hsum := h.zero_summary
  have hcopies := h.copies
  have hdone : s.pc.done = j * 16 := by rw [hpc]; rfl
  have hvis : s.pc.visited = j := by rw [hpc]; rfl
  rw [hpc] at hcleared hsum hcopies
  have hzero (j' : Nat) (hj' : j' < (i + 1) * 16) : s.vec s.base_idx j' = 0#16 := by
    rcases Nat.lt_or_ge j' j with hlt | hge
    · exact hcleared j' hlt
    · obtain ⟨n, rfl⟩ := Nat.exists_eq_add_of_le hge
      exact hcopies n (by omega) BitVec.getMsbD_zero
  refine ⟨h.slot, fun idx hidx fd hfd => ?_, fun fd hfd => ?_, fun idx hidx x hx => ?_, hzero,
    fun b hb => ?_, trivial⟩
  · refine h.mem idx hidx fd fun hi => ?_
    have hge : (i + 1) * 256 ≤ fd := hfd hi
    omega
  · change fd < (i + 1) * 256 at hfd
    exact h.not_armed hbase (hzero _ (by omega))
  · have hold : idx = s.base_idx → (i + 1) * 16 ≤ x := hx
    have hagrees := h.agrees idx hidx x (fun hi => by have := hold hi; omega)
    rw [Row.Agrees] at hagrees ⊢
    have hmarked : Row.marked ⟨s.vec idx, write s.vec_of_vec s.base_idx i 0#16 idx⟩ x =
        (s.row idx).marked x := by
      rw [Row.marked, Row.marked, write_apply]
      dsimp only
      split
      · rename_i hi
        have hge := hold hi
        have hne : x / 16 ≠ i := by omega
        rw [Function.update_of_ne hne]
        rfl
      · rfl
    change Row.marked ⟨s.vec idx, write s.vec_of_vec s.base_idx i 0#16 idx⟩ x = true ↔ _
    rw [hmarked]
    exact hagrees
  · change write s.vec_of_vec s.base_idx i 0#16 s.base_idx b = 0#16
    rw [write_apply, if_pos rfl]
    by_cases hbi : b = i
    · rw [hbi, Function.update_self]
    · rw [Function.update_of_ne hbi]
      change b < i + 1 at hb
      exact hsum b (show b < i by omega)

/-- What the walk finds in its copy is in the slot. -/
theorem Rep.armed_of_copy {s : St} {i j k : Nat} {vv v : BitVec 16} (h : Rep c s)
    (hbase : s.base_idx < 128) (hpc : s.pc = .bits i j vv k v) (hk : k < j * 16 + 16)
    (hmsb : v.getMsbD 0 = true) : Armed s k s.base_idx := by
  have hcopies := h.copies
  rw [hpc] at hcopies
  rw [← h.mem s.base_idx hbase k (fun _ => by rw [hpc]; exact Nat.le_refl k)]
  exact (hcopies.2 0 hk).symm.trans hmsb

theorem Rep.fire {s : St} {i j k : Nat} {vv v : BitVec 16} (h : Rep c s) (hbase : s.base_idx < 128)
    (hpc : s.pc = .bits i j vv k v) (hk : k < j * 16 + 16) (hmsb : v.getMsbD 0 = true) :
    Rep c { s with
      fds := Function.update s.fds k { s.fds k with timeout_idx := 255 }
      pc := .bits i j vv (k + 1) (v <<< 1) } := by
  have harmed : Armed s k s.base_idx := h.armed_of_copy hbase hpc hk hmsb
  have hpast := h.past
  have hzero := h.zero
  have hsum := h.zero_summary
  have hcopies := h.copies
  have hdone : s.pc.done = k := by rw [hpc]; rfl
  have hvis : s.pc.visited = j + 1 := by rw [hpc]; rfl
  rw [hpc] at hpast hzero hsum hcopies
  have hself : Function.update s.fds k { s.fds k with timeout_idx := 255 } k =
      { s.fds k with timeout_idx := 255 } := Function.update_self k _ s.fds
  have hnot (idx : Nat) (hidx : idx < 128) :
      ¬ Armed { s with
        fds := Function.update s.fds k { s.fds k with timeout_idx := 255 }
        pc := .bits i j vv (k + 1) (v <<< 1) } k idx := by
    rintro ⟨-, hslot⟩
    change (Function.update s.fds k _ k).timeout_idx = idx at hslot
    rw [hself] at hslot
    have : 255 = idx := hslot
    omega
  have hother (x : Nat) (hx : x ≠ k) :
      Function.update s.fds k { s.fds k with timeout_idx := 255 } x = s.fds x :=
    Function.update_of_ne hx _ _
  refine ⟨fun x hx => ?_, fun idx hidx x hx => ?_, fun x hx => ?_, fun idx hidx x hx => ?_,
    hzero, hsum, ⟨hcopies.1, fun n hn => ?_⟩⟩
  · change (Function.update s.fds k _ x).loop_id = _ at hx
    change _ ∧ ((Function.update s.fds k _ x).timeout_idx < 128 ∨
      (Function.update s.fds k _ x).timeout_idx = 255)
    by_cases hxk : x = k
    · subst hxk
      rw [hself]
      exact ⟨(h.slot x harmed.1).1, Or.inr rfl⟩
    · rw [hother x hxk] at hx ⊢
      exact h.slot x hx
  · have hx' : idx = s.base_idx → k + 1 ≤ x := hx
    by_cases hxk : x = k
    · subst hxk
      refine iff_of_false (fun hm => ?_) (hnot idx hidx)
      -- The bit was in the slot of the walk, and in no other
      have hne : idx ≠ s.base_idx := fun hi => absurd (hx' hi) (by omega)
      have harmed' := (h.mem idx hidx x (fun hi => absurd hi hne)).1 hm
      exact hne (harmed'.2.symm.trans harmed.2)
    · have hmem := h.mem idx hidx x (fun hi => by have := hx' hi; omega)
      change (s.row idx).mem x = true ↔ _
      rw [hmem, Armed, Armed]
      change _ ↔ (Function.update s.fds k _ x).loop_id = _ ∧
        (Function.update s.fds k _ x).timeout_idx = _
      rw [hother x hxk]
  · change x < k + 1 at hx
    by_cases hxk : x = k
    · subst hxk
      exact hnot s.base_idx hbase
    · rintro ⟨hreg, hslot⟩
      change (Function.update s.fds k _ x).loop_id = _ at hreg
      change (Function.update s.fds k _ x).timeout_idx = _ at hslot
      rw [hother x hxk] at hreg hslot
      have hlt : x < k := by omega
      exact hpast x hlt ⟨hreg, hslot⟩
  · exact h.agrees idx hidx x (fun hi => by rw [hvis]; exact hx hi)
  · rw [getMsbD_shl]
    have heq : k + 1 + n = k + (n + 1) := by omega
    rw [heq] at hn ⊢
    exact hcopies.2 (n + 1) hn

theorem Rep.skip_bit {s : St} {i j k : Nat} {vv v : BitVec 16} (h : Rep c s)
    (hbase : s.base_idx < 128) (hpc : s.pc = .bits i j vv k v) (hk : k < j * 16 + 16)
    (hmsb : v.getMsbD 0 = false) : Rep c { s with pc := .bits i j vv (k + 1) (v <<< 1) } := by
  have hpast := h.past
  have hzero := h.zero
  have hsum := h.zero_summary
  have hcopies := h.copies
  have hdone : s.pc.done = k := by rw [hpc]; rfl
  have hvis : s.pc.visited = j + 1 := by rw [hpc]; rfl
  have hnot : ¬ Armed s k s.base_idx := by
    rw [← h.mem s.base_idx hbase k (fun _ => by omega)]
    rw [hpc] at hcopies
    have hbit := hcopies.2 0 hk
    rw [hmsb] at hbit
    exact fun hm => absurd (hbit.trans hm) Bool.false_ne_true
  rw [hpc] at hpast hzero hsum hcopies
  refine h.move _ ?_ (fun fd hfd => ?_) ?_ hzero hsum ⟨hcopies.1, fun n hn => ?_⟩
  · rw [hdone]
    exact Nat.le_succ k
  · change fd < k + 1 at hfd
    rcases Nat.lt_or_ge fd k with hlt | hge
    · exact hpast fd hlt
    · have heq : fd = k := by omega
      rw [heq]
      exact hnot
  · rw [hvis]
    exact Nat.le_refl _
  · rw [getMsbD_shl]
    have heq : k + 1 + n = k + (n + 1) := by omega
    rw [heq] at hn ⊢
    exact hcopies.2 (n + 1) hn

/-- The copy is used up: its word is cleared. -/
theorem Rep.end_bits {s : St} {i j k : Nat} {vv : BitVec 16} (h : Rep c s)
    (hbase : s.base_idx < 128) (hpc : s.pc = .bits i j vv k 0#16) (hjk : j * 16 ≤ k)
    (hkj : k ≤ j * 16 + 16) :
    Rep c { s with
      vec := write s.vec s.base_idx j 0#16
      pc := .words i (j + 1) (vv <<< 1) } := by
  have hpast := h.past
  have hcleared := h.zero
  have hsum := h.zero_summary
  have hcopies := h.copies
  have hdone : s.pc.done = k := by rw [hpc]; rfl
  have hvis : s.pc.visited = j + 1 := by rw [hpc]; rfl
  rw [hpc] at hpast hcleared hsum hcopies
  have hother (j' : Nat) (hj' : j' ≠ j) :
      write s.vec s.base_idx j 0#16 s.base_idx j' = s.vec s.base_idx j' := by
    rw [write_apply, if_pos rfl, Function.update_of_ne hj']
  have hrow (idx : Nat) (hidx : idx ≠ s.base_idx) :
      write s.vec s.base_idx j 0#16 idx = s.vec idx := by
    rw [write_apply, if_neg hidx]
  refine ⟨h.slot, fun idx hidx fd hfd => ?_, fun fd hfd => ?_, fun idx hidx x hx => ?_,
    fun j' hj' => ?_, hsum, fun n hn hbit => ?_⟩
  · have hfd' : idx = s.base_idx → (j + 1) * 16 ≤ fd := hfd
    have hmem := h.mem idx hidx fd (fun hi => by have := hfd' hi; omega)
    have hsame : Row.mem ⟨write s.vec s.base_idx j 0#16 idx, s.vec_of_vec idx⟩ fd =
        (s.row idx).mem fd := by
      change (write s.vec s.base_idx j 0#16 idx (fd / 16)).getMsbD (fd % 16) =
        (s.vec idx (fd / 16)).getMsbD (fd % 16)
      by_cases hi : idx = s.base_idx
      · have hge := hfd' hi
        subst hi
        rw [hother (fd / 16) (by omega)]
      · rw [hrow idx hi]
    change Row.mem ⟨write s.vec s.base_idx j 0#16 idx, s.vec_of_vec idx⟩ fd = true ↔ _
    rw [hsame]
    exact hmem
  · change fd < (j + 1) * 16 at hfd
    rcases Nat.lt_or_ge fd k with hlt | hge
    · exact hpast fd hlt
    · -- The copy had no bit for it
      change ¬ Armed s fd s.base_idx
      rw [← h.mem s.base_idx hbase fd (fun _ => by omega)]
      obtain ⟨n, rfl⟩ := Nat.exists_eq_add_of_le hge
      rw [← hcopies.2 n (by omega), BitVec.getMsbD_zero]
      exact Bool.false_ne_true
  · have hx' : idx = s.base_idx → j + 1 ≤ x := hx
    have hagrees := h.agrees idx hidx x (fun hi => by rw [hvis]; exact hx' hi)
    rw [Row.Agrees] at hagrees ⊢
    have hword : write s.vec s.base_idx j 0#16 idx x = s.vec idx x := by
      by_cases hi : idx = s.base_idx
      · have := hx' hi
        subst hi
        exact hother x (by omega)
      · rw [hrow idx hi]
    change _ ↔ write s.vec s.base_idx j 0#16 idx x ≠ 0#16
    rw [hword]
    exact hagrees
  · change j' < j + 1 at hj'
    change write s.vec s.base_idx j 0#16 s.base_idx j' = 0#16
    by_cases heq : j' = j
    · rw [heq, write_apply, if_pos rfl, Function.update_self]
    · rw [hother j' heq]
      exact hcleared j' (show j' < j by omega)
  · change write s.vec s.base_idx j 0#16 s.base_idx (j + 1 + n) = 0#16
    rw [hother _ (by omega)]
    exact hcopies.1 n hn hbit

/-- The walk has been through the whole slot: it is empty. -/
theorem Rep.slot_empty {s : St} {i : Nat} (h : Rep c s) (hpc : s.pc = .shorts i)
    (hi : c.timeout_vec_of_vec_size ≤ i) (fd : Nat) : ¬ Armed s fd s.base_idx := by
  intro ha
  have hpast := h.past
  rw [hpc] at hpast
  have hfd := (h.slot fd ha.1).1
  have hsize := c.max_fd_le
  have hsize' := c.timeout_vec_size_le
  have hlt : fd < i * 256 := by omega
  exact hpast fd hlt ha

theorem Rep.advance {s : St} {i : Nat} (h : Rep c s)
    (hpc : s.pc = .shorts i) (hi : c.timeout_vec_of_vec_size ≤ i) (base_time : Int) :
    Rep c { s with base_idx := (s.base_idx + 1) % 128, base_time := base_time, pc := .rounds } := by
  have hzero := h.zero
  have hsum := h.zero_summary
  have hdone : s.pc.done = i * 256 := by rw [hpc]; rfl
  have hvis : s.pc.visited = i * 16 := by rw [hpc]; rfl
  rw [hpc] at hzero hsum
  have hempty := h.slot_empty hpc hi
  refine ⟨h.slot, fun idx hidx fd _ => ?_, fun fd hfd => absurd hfd (Nat.not_lt_zero fd),
    fun idx hidx x _ => ?_, fun j hj => absurd hj (Nat.not_lt_zero j),
    fun b hb => absurd hb (Nat.not_lt_zero b), trivial⟩
  · by_cases hb : idx = s.base_idx
    · subst hb
      rcases Nat.lt_or_ge fd (i * 256) with hlt | hge
      · have hz : s.vec s.base_idx (fd / 16) = 0#16 := hzero _ (show fd / 16 < i * 16 by omega)
        refine iff_of_false ?_ (hempty fd)
        change ¬ (s.vec s.base_idx (fd / 16)).getMsbD (fd % 16) = true
        rw [hz, BitVec.getMsbD_zero]
        exact Bool.false_ne_true
      · exact h.mem s.base_idx hidx fd (fun _ => by omega)
    · exact h.mem idx hidx fd (fun hi => absurd hi hb)
  · by_cases hb : idx = s.base_idx
    · subst hb
      rcases Nat.lt_or_ge x (i * 16) with hlt | hge
      · have hz : s.vec s.base_idx x = 0#16 := hzero x hlt
        have hz' : s.vec_of_vec s.base_idx (x / 16) = 0#16 :=
          hsum _ (show x / 16 < i by omega)
        change (s.vec_of_vec s.base_idx (x / 16)).getMsbD (x % 16) = true ↔
          s.vec s.base_idx x ≠ 0#16
        rw [hz, hz', BitVec.getMsbD_zero]
        exact iff_of_false Bool.false_ne_true (fun hne => hne rfl)
      · exact h.agrees s.base_idx hidx x (fun _ => by omega)
    · exact h.agrees idx hidx x (fun hi => absurd hi hb)

theorem Rep.scans {s s' : St} (h : Rep c s) (hshape : Shape c s) (hs : Scans c s s') :
    Rep c s' := by
  have hbase := hshape.base_lt
  have hplaced := hshape.placed
  cases hs with
  | enter hpc hdue =>
    refine h.move _ ?_ (fun fd hfd => ?_) ?_ (fun j hj => ?_) (fun i hi => ?_) trivial
    · rw [hpc]
      exact Nat.le_refl _
    · exact absurd hfd (by change ¬ fd < 0 * 256; omega)
    · rw [hpc]
      exact Nat.le_refl _
    · exact absurd hj (by change ¬ j < 0 * 16; omega)
    · exact absurd hi (Nat.not_lt_zero i)
  | leave hpc hdue => exact h.outside .idle (by rw [hpc]; rfl) rfl s.now
  | short hpc hi hvv => exact h.short hbase hpc
  | skip_short hpc hi hvv => exact h.skip_short hbase hpc hvv
  | advance hpc hi => exact h.advance hpc hi _
  | word hpc hmsb => exact h.word hpc
  | @skip_word i j vv hpc hvv hmsb =>
    rw [hpc] at hplaced
    obtain ⟨-, -, -, hcopy⟩ := hplaced
    exact h.skip_word hbase hpc (lt_of_copy hcopy hvv) hmsb
  | @end_words i j vv hpc hvv =>
    rw [hpc] at hplaced
    obtain ⟨-, hij, hji, -⟩ := hplaced
    subst hvv
    exact h.end_words hbase hpc hij hji
  | @fire i j k vv v hpc hmsb =>
    rw [hpc] at hplaced
    obtain ⟨-, -, -, -, -, -, hv⟩ := hplaced
    exact h.fire hbase hpc (lt_of_copy hv (ne_zero_of_bit hmsb)) hmsb
  | @skip_bit i j k vv v hpc hne hmsb =>
    rw [hpc] at hplaced
    obtain ⟨-, -, -, -, -, -, hv⟩ := hplaced
    exact h.skip_bit hbase hpc (lt_of_copy hv hne) hmsb
  | @end_bits i j k vv v hpc hv =>
    rw [hpc] at hplaced
    obtain ⟨-, -, -, -, hjk, hkj, -⟩ := hplaced
    subst hv
    exact h.end_bits hbase hpc hjk hkj

end Jega.Picoev
