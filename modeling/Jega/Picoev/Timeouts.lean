import Jega.Picoev.Bounds

/-!
# Jega.Picoev.Timeouts — the bitmaps against the table

`timeout_idx` says which slot a descriptor is in, and the bitmaps say which
descriptors a slot has. `Rep` is their agreement, with what the walk of
`picoev_handle_timeout_internal` has done to the slot it is in; here is what each
call does to it.
-/

namespace Jega.Picoev

open Bits

variable {c : Config}

/-! ## The agreement -/

/-- `fd` is registered, with a timeout in slot `idx`. -/
def Armed (s : St) (fd idx : Nat) : Prop :=
  (s.fds fd).loop_id = loop_id ∧ (s.fds fd).timeout_idx = idx

instance (s : St) (fd idx : Nat) : Decidable (Armed s fd idx) := inferInstanceAs (Decidable (_ ∧ _))

/-- Words whose summary bit is not kept up: the walk clears the summary at the
end of its word. -/
def Pc.visited : Pc → Nat
  | .shorts i => i * 16
  | .words _ j _ => j
  | .bits _ j _ _ _ => j + 1
  | _ => 0

/-- Words that the walk has cleared. -/
def Pc.cleared : Pc → Nat
  | .shorts i => i * 16
  | .words _ j _ | .bits _ j _ _ _ => j
  | _ => 0

/-- Words of the summary that the walk has cleared. -/
def Pc.cleared_summary : Pc → Nat
  | .shorts i | .words i _ _ | .bits i _ _ _ _ => i
  | _ => 0

/-- What the copies say of the bitmaps: no bit in `vv` for a word means that the
word is zero, and `v` has the bits of its word. -/
def Pc.Copies (s : St) : Pc → Prop
  | .words i j vv =>
    ∀ n, j + n < i * 16 + 16 → vv.getMsbD n = false → s.vec s.base_idx (j + n) = 0#16
  | .bits i j vv k v =>
    (∀ n, j + 1 + n < i * 16 + 16 → (vv <<< 1).getMsbD n = false →
      s.vec s.base_idx (j + 1 + n) = 0#16) ∧
    ∀ n, k + n < j * 16 + 16 → v.getMsbD n = (s.row s.base_idx).mem (k + n)
  | _ => True

/-- The bitmaps represent the table. What the walk is past is left out: those
words are cleared, or about to be. -/
structure Rep (c : Config) (s : St) : Prop where
  slot : ∀ fd, (s.fds fd).loop_id = loop_id →
    fd < c.max_fd ∧ ((s.fds fd).timeout_idx < 128 ∨ (s.fds fd).timeout_idx = 255)
  mem : ∀ idx < 128, ∀ fd, (idx = s.base_idx → s.pc.done ≤ fd) →
    ((s.row idx).mem fd = true ↔ Armed s fd idx)
  past : ∀ fd < s.pc.done, ¬ Armed s fd s.base_idx
  agrees : ∀ idx < 128, ∀ i, (idx = s.base_idx → s.pc.visited ≤ i) → (s.row idx).Agrees i
  zero : ∀ j < s.pc.cleared, s.vec s.base_idx j = 0#16
  zero_summary : ∀ i < s.pc.cleared_summary, s.vec_of_vec s.base_idx i = 0#16
  copies : s.pc.Copies s

theorem done_of_not_scanning {pc : Pc} (h : pc.scanning = false) : pc.done = 0 := by
  cases pc with
  | idle => rfl
  | poll es => rfl
  | rounds => rfl
  | shorts i => exact absurd h.symm Bool.false_ne_true
  | words i j vv => exact absurd h.symm Bool.false_ne_true
  | bits i j vv k v => exact absurd h.symm Bool.false_ne_true

theorem scanning_of_cleared {pc : Pc} {j : Nat} (h : j < pc.cleared) : pc.scanning = true := by
  cases pc with
  | shorts i => rfl
  | words i j vv => rfl
  | bits i j vv k v => rfl
  | _ => exact absurd h (Nat.not_lt_zero j)

theorem scanning_of_cleared_summary {pc : Pc} {i : Nat} (h : i < pc.cleared_summary) :
    pc.scanning = true := by
  cases pc with
  | shorts i => rfl
  | words i j vv => rfl
  | bits i j vv k v => rfl
  | _ => exact absurd h (Nat.not_lt_zero i)

/-! ## Calls -/

/-- The same rows, and the same descriptors in them. -/
theorem Rep.of_armed {s s' : St} (h : Rep c s) (hstill : Still s s')
    (hrow : ∀ idx, s'.row idx = s.row idx)
    (hslot : ∀ fd, (s'.fds fd).loop_id = loop_id →
      fd < c.max_fd ∧ ((s'.fds fd).timeout_idx < 128 ∨ (s'.fds fd).timeout_idx = 255))
    (harmed : ∀ fd idx, idx < 128 → (Armed s' fd idx ↔ Armed s fd idx))
    (hbase : s.base_idx < 128) : Rep c s' where
  slot := hslot
  mem idx hidx fd hfd := by
    rw [hstill.base_idx, hstill.pc] at hfd
    rw [hrow, harmed fd idx hidx]
    exact h.mem idx hidx fd hfd
  past fd hfd := by
    rw [hstill.pc] at hfd
    rw [hstill.base_idx, harmed fd _ hbase]
    exact h.past fd hfd
  agrees idx hidx i hi := by
    rw [hstill.base_idx, hstill.pc] at hi
    rw [hrow]
    exact h.agrees idx hidx i hi
  zero j hj := by
    rw [hstill.pc] at hj
    have hvec : s'.vec s.base_idx = s.vec s.base_idx := congrArg Row.word (hrow s.base_idx)
    rw [hstill.base_idx, hvec]
    exact h.zero j hj
  zero_summary i hi := by
    rw [hstill.pc] at hi
    have hsum : s'.vec_of_vec s.base_idx = s.vec_of_vec s.base_idx :=
      congrArg Row.summary (hrow s.base_idx)
    rw [hstill.base_idx, hsum]
    exact h.zero_summary i hi
  copies := by
    have hvec : s'.vec s.base_idx = s.vec s.base_idx := congrArg Row.word (hrow s.base_idx)
    have hcopies := h.copies
    rw [hstill.pc]
    cases hpc : s.pc with
    | words i j vv =>
      rw [hpc] at hcopies
      intro n hn hz
      rw [hstill.base_idx, hvec]
      exact hcopies n hn hz
    | bits i j vv k v =>
      rw [hpc] at hcopies
      refine ⟨fun n hn hz => ?_, fun n hn => ?_⟩
      · rw [hstill.base_idx, hvec]
        exact hcopies.1 n hn hz
      · rw [hstill.base_idx, hrow]
        exact hcopies.2 n hn
    | _ => trivial

theorem clear_timeout_fds (s : St) (fd : Nat) :
    (clear_timeout s fd).fds = Function.update s.fds fd { s.fds fd with timeout_idx := 255 } := by
  rw [clear_timeout]
  split
  · rfl
  · rename_i h
    have hun : (s.fds fd).timeout_idx = 255 := not_not.1 h
    rw [← hun, Function.update_eq_self]

/-- A descriptor that is not in the copy loses its bit. -/
theorem Rep.clear {s : St} {fd : Nat} (h : Rep c s) (hbase : s.base_idx < 128)
    (hcopied : s.pc.copied fd = false) : Rep c (clear_timeout s fd) := by
  by_cases hun : (s.fds fd).timeout_idx = 255
  · rw [clear_timeout_unused hun]
    exact h
  have hstill := still_clear_timeout s fd
  have hfds := clear_timeout_fds s fd
  have hrow := clear_timeout_row hun
  generalize clear_timeout s fd = t at hstill hfds hrow ⊢
  have hself : t.fds fd = { s.fds fd with timeout_idx := 255 } := by
    rw [hfds, Function.update_self]
  have hother (x : Nat) (hx : x ≠ fd) : t.fds x = s.fds x := by
    rw [hfds, Function.update_of_ne hx]
  have hnot (idx : Nat) (hidx : idx < 128) : ¬ Armed t fd idx := by
    rintro ⟨-, hslot⟩
    rw [hself] at hslot
    have : 255 = idx := hslot
    omega
  have harmed (x idx : Nat) (hx : x ≠ fd) : Armed t x idx ↔ Armed s x idx := by
    rw [Armed, Armed, hother x hx]
  have hzero (j : Nat) (hj : s.vec s.base_idx j = 0#16) : t.vec s.base_idx j = 0#16 := by
    change (t.row s.base_idx).word j = 0#16
    rw [hrow]
    split
    · exact Row.word_erase_zero hj fd
    · exact hj
  refine ⟨fun x hx => ?_, fun idx hidx x hx => ?_, fun x hx => ?_, fun idx hidx i hi => ?_,
    fun j hj => ?_, fun i hi => ?_, ?_⟩
  · by_cases hxfd : x = fd
    · subst hxfd
      rw [hself] at hx ⊢
      exact ⟨(h.slot x hx).1, Or.inr rfl⟩
    · rw [hother x hxfd] at hx ⊢
      exact h.slot x hx
  · rw [hstill.base_idx, hstill.pc] at hx
    have hmem := h.mem idx hidx x hx
    by_cases hxfd : x = fd
    · subst hxfd
      refine iff_of_false (fun hm => ?_) (hnot idx hidx)
      rw [hrow] at hm
      split at hm
      · rw [Row.mem_erase (by decide)] at hm
        simp at hm
      · rename_i hne
        exact hne (hmem.1 hm).2.symm
    · rw [harmed x idx hxfd, ← hmem, hrow]
      split
      · rw [Row.mem_erase (by decide)]
        simp [hxfd]
      · rfl
  · rw [hstill.pc] at hx
    rw [hstill.base_idx]
    intro ha
    by_cases hxfd : x = fd
    · subst hxfd
      exact hnot s.base_idx hbase ha
    · exact h.past x hx ((harmed x _ hxfd).1 ha)
  · rw [hstill.base_idx, hstill.pc] at hi
    rw [hrow]
    split
    · exact (h.agrees idx hidx i hi).erase (by decide) fd
    · exact h.agrees idx hidx i hi
  · rw [hstill.pc] at hj
    rw [hstill.base_idx]
    exact hzero j (h.zero j hj)
  · rw [hstill.pc] at hi
    rw [hstill.base_idx]
    change (t.row s.base_idx).summary i = 0#16
    rw [hrow]
    split
    · exact Row.summary_erase_zero (h.zero_summary i hi) fd
    · exact h.zero_summary i hi
  · have hcopies := h.copies
    rw [hstill.pc]
    cases hpc : s.pc with
    | words i j vv =>
      rw [hpc] at hcopies
      intro n hn hz
      rw [hstill.base_idx]
      exact hzero _ (hcopies n hn hz)
    | bits i j vv k v =>
      rw [hpc] at hcopies hcopied
      refine ⟨fun n hn hz => ?_, fun n hn => ?_⟩
      · rw [hstill.base_idx]
        exact hzero _ (hcopies.1 n hn hz)
      · rw [hstill.base_idx, hcopies.2 n hn, hrow]
        split
        · -- The erased bit is not one of the copy
          rw [Row.mem_erase (by decide)]
          by_cases hfd : k + n = fd
          · subst hfd
            have hbit : v.getMsbD n = false := by simpa [Pc.copied] using hcopied
            rw [← hcopies.2 n hn, hbit, Bool.false_and]
          · simp [hfd]
        · rfl
    | _ => trivial

/-- The slot of a timeout is one of the wheel. -/
theorem timeout_slot_lt (s : St) (secs : Int) : timeout_slot c s secs < 128 :=
  Nat.mod_lt _ (by decide)

theorem delta_lt (s : St) (secs : Int) : delta c s secs < 128 := by
  rw [delta]
  split
  · decide
  · rename_i h
    rw [not_or, not_lt, not_le] at h
    have hlt : Int.tdiv (s.now + secs - s.base_time) c.resolution < 128 := h.2
    omega

/-- In a slot that is due, a timeout is put in another one. -/
theorem timeout_slot_ne_base {s : St} {secs : Int} (hbase : s.base_idx < 128)
    (hdue : s.base_time ≤ s.now - c.resolution) (hsecs : 0 ≤ secs) :
    timeout_slot c s secs ≠ s.base_idx := by
  have hr := c.resolution_pos
  have hge : c.resolution ≤ s.now + secs - s.base_time := by omega
  have hone : 1 ≤ Int.tdiv (s.now + secs - s.base_time) c.resolution := by
    rw [Int.tdiv_eq_ediv_of_nonneg (by omega), Int.le_ediv_iff_mul_le hr]
    omega
  have hdelta : 1 ≤ delta c s secs := by
    rw [delta]
    split
    · decide
    · omega
  have hlt := delta_lt (c := c) s secs
  rw [timeout_slot]
  intro heq
  have hdist := Wheel.dist_add (n := 128) hbase hlt
  rw [heq, Wheel.dist_self hbase] at hdist
  omega

/-- A registered descriptor is put in a slot, where it may have been before. -/
theorem Rep.arm {s : St} {fd : Nat} {secs : Int} (h : Rep c s)
    (hreg : (s.fds fd).loop_id = loop_id)
    (honly : ∀ idx < 128, Armed s fd idx → idx = timeout_slot c s secs)
    (hscan : s.pc.scanning = true → timeout_slot c s secs ≠ s.base_idx) :
    Rep c (arm_timeout c s fd secs) := by
  have hlt := timeout_slot_lt (c := c) s secs
  have hrow := arm_timeout_row (c := c) s fd secs
  generalize hslot : timeout_slot c s secs = slot at hlt hrow honly hscan
  have hself : (arm_timeout c s fd secs).fds fd = { s.fds fd with timeout_idx := slot } := by
    rw [← hslot]
    exact Function.update_self fd _ s.fds
  have hother (x : Nat) (hx : x ≠ fd) : (arm_timeout c s fd secs).fds x = s.fds x :=
    Function.update_of_ne hx _ _
  have harmed (x idx : Nat) (hx : x ≠ fd) :
      Armed (arm_timeout c s fd secs) x idx ↔ Armed s x idx := by
    rw [Armed, Armed, hother x hx]
  have hthis (idx : Nat) : Armed (arm_timeout c s fd secs) fd idx ↔ idx = slot := by
    rw [Armed, hself]
    exact ⟨fun ha => ha.2.symm, fun hi => ⟨hreg, hi.symm⟩⟩
  -- The walk is in another slot
  have hwalk (hs : s.pc.scanning = true) :
      (arm_timeout c s fd secs).row s.base_idx = s.row s.base_idx := by
    rw [hrow, if_neg (fun heq => hscan hs heq.symm)]
  have hvec (hs : s.pc.scanning = true) :
      (arm_timeout c s fd secs).vec s.base_idx = s.vec s.base_idx := congrArg Row.word (hwalk hs)
  have hsum (hs : s.pc.scanning = true) :
      (arm_timeout c s fd secs).vec_of_vec s.base_idx = s.vec_of_vec s.base_idx :=
    congrArg Row.summary (hwalk hs)
  refine ⟨fun x hx => ?_, fun idx hidx x hx => ?_, fun x hx => ?_, fun idx hidx i hi => ?_,
    fun j hj => ?_, fun i hi => ?_, ?_⟩
  · by_cases hxfd : x = fd
    · subst hxfd
      rw [hself]
      exact ⟨(h.slot x hreg).1, Or.inl hlt⟩
    · rw [hother x hxfd] at hx ⊢
      exact h.slot x hx
  · have hmem := h.mem idx hidx x hx
    rw [hrow]
    by_cases hxfd : x = fd
    · subst hxfd
      rw [hthis]
      split
      · rename_i hi
        rw [Row.mem_insert (by decide)]
        simp [hi]
      · rename_i hi
        rw [hmem]
        exact iff_of_false (fun ha => hi (honly idx hidx ha)) hi
    · rw [harmed x idx hxfd, ← hmem]
      split
      · rw [Row.mem_insert (by decide)]
        simp [hxfd]
      · rfl
  · intro ha
    by_cases hxfd : x = fd
    · subst hxfd
      have hs : s.pc.scanning = true := by
        by_contra hc
        rw [Bool.not_eq_true] at hc
        have hdone : (arm_timeout c s x secs).pc.done = 0 := done_of_not_scanning hc
        omega
      exact hscan hs ((hthis _).1 ha).symm
    · exact h.past x hx ((harmed x _ hxfd).1 ha)
  · rw [hrow]
    split
    · exact (h.agrees idx hidx i hi).insert (by decide) fd
    · exact h.agrees idx hidx i hi
  · have hs : s.pc.scanning = true := scanning_of_cleared hj
    change (arm_timeout c s fd secs).vec s.base_idx j = 0#16
    rw [hvec hs]
    exact h.zero j hj
  · have hs : s.pc.scanning = true := scanning_of_cleared_summary hi
    change (arm_timeout c s fd secs).vec_of_vec s.base_idx i = 0#16
    rw [hsum hs]
    exact h.zero_summary i hi
  · have hcopies := h.copies
    change s.pc.Copies (arm_timeout c s fd secs)
    cases hpc : s.pc with
    | words i j vv =>
      have hs : s.pc.scanning = true := by rw [hpc]; rfl
      rw [hpc] at hcopies
      intro n hn hz
      change (arm_timeout c s fd secs).vec s.base_idx (j + n) = 0#16
      rw [hvec hs]
      exact hcopies n hn hz
    | bits i j vv k v =>
      have hs : s.pc.scanning = true := by rw [hpc]; rfl
      rw [hpc] at hcopies
      refine ⟨fun n hn hz => ?_, fun n hn => ?_⟩
      · change (arm_timeout c s fd secs).vec s.base_idx (j + 1 + n) = 0#16
        rw [hvec hs]
        exact hcopies.1 n hn hz
      · change v.getMsbD n = ((arm_timeout c s fd secs).row s.base_idx).mem (k + n)
        rw [hwalk hs]
        exact hcopies.2 n hn
    | _ => trivial

/-! ## The calls, one by one -/

/-- A bit of the copy is a descriptor of the slot. -/
theorem Rep.armed_of_copied {s : St} {fd : Nat} (h : Rep c s) (hshape : Shape c s)
    (hcopied : s.pc.copied fd = true) : Armed s fd s.base_idx := by
  have hcopies := h.copies
  have hplaced := hshape.placed
  cases hpc : s.pc with
  | bits i j vv k v =>
    rw [hpc] at hcopied hcopies hplaced
    rw [Pc.copied, Bool.and_eq_true, decide_eq_true_eq] at hcopied
    obtain ⟨hkfd, hbit⟩ := hcopied
    obtain ⟨-, -, -, -, -, -, hv⟩ := hplaced
    have hlt := hv _ hbit
    have hmem := hcopies.2 _ hlt
    have heq : k + (fd - k) = fd := by omega
    rw [hbit, heq] at hmem
    exact (h.mem _ hshape.base_lt fd (fun _ => by rw [hpc]; exact hkfd)).1 hmem.symm
  | idle => rw [hpc] at hcopied; exact absurd hcopied Bool.false_ne_true
  | poll es => rw [hpc] at hcopied; exact absurd hcopied Bool.false_ne_true
  | rounds => rw [hpc] at hcopied; exact absurd hcopied Bool.false_ne_true
  | shorts i => rw [hpc] at hcopied; exact absurd hcopied Bool.false_ne_true
  | words i j vv => rw [hpc] at hcopied; exact absurd hcopied Bool.false_ne_true

theorem Rep.update_events {s : St} (h : Rep c s) (hbase : s.base_idx < 128) (fd : Nat)
    (events : Io.Events) (del : Bool) :
    Rep c (picoev_update_events_internal s fd events del) := by
  have hfds := update_events_fds s fd events del
  refine h.of_armed (still_update_events s fd events del) (fun idx => ?_) (fun x hx => ?_)
    (fun x idx _ => ?_) hbase
  · rw [update_events_eq]
    rfl
  · rw [(hfds x).1] at hx
    rw [(hfds x).2]
    exact h.slot x hx
  · rw [Armed, Armed, (hfds x).1, (hfds x).2]

theorem Rep.set_timeout {s : St} {fd secs : Nat} (h : Rep c s) (hshape : Shape c s)
    (hcopied : s.pc.copied fd = false) (hreg : secs ≠ 0 → (s.fds fd).loop_id = loop_id) :
    Rep c (picoev_set_timeout c s fd secs) := by
  have hclear : Rep c (clear_timeout s fd) := h.clear hshape.base_lt hcopied
  rw [picoev_set_timeout]
  split
  · rename_i hsecs
    have hstill := still_clear_timeout s fd
    have hshape' : Shape c (clear_timeout s fd) := hshape.still hstill
    have hself : (clear_timeout s fd).fds fd = { s.fds fd with timeout_idx := 255 } := by
      rw [clear_timeout_fds, Function.update_self]
    refine hclear.arm ?_ (fun idx hidx ha => ?_) (fun hs => ?_)
    · rw [hself]
      exact hreg (fun hz => hsecs (by rw [hz]; rfl))
    · have hslot := ha.2
      rw [hself] at hslot
      have : 255 = idx := hslot
      omega
    · exact timeout_slot_ne_base hshape'.base_lt (hshape'.due hs) (Int.natCast_nonneg secs)
  · exact hclear

theorem add_row (s : St) (fd : Nat) (events : Io.Events) (secs : Int) (idx : Nat) :
    (picoev_add c s fd events secs).row idx =
      if secs ≠ 0 ∧ idx = timeout_slot c s secs then (s.row idx).insert fd else s.row idx := by
  have hrow : (picoev_update_events_internal (fresh s fd) fd events false).row idx =
      s.row idx := by
    rw [update_events_eq]
    rfl
  have hslot : timeout_slot c (picoev_update_events_internal (fresh s fd) fd events false) secs =
      timeout_slot c s secs := by
    rw [update_events_eq]
    rfl
  rw [add_eq]
  by_cases hsecs : secs = 0
  · rw [if_neg (not_not.2 hsecs), if_neg (fun hc => hc.1 hsecs), hrow]
  · rw [if_pos hsecs, arm_timeout_row, hslot, hrow]
    simp only [ne_eq, hsecs, not_false_eq_true, true_and]

theorem visited_of_not_scanning {pc : Pc} (h : pc.scanning = false) : pc.visited = 0 := by
  cases pc with
  | shorts i => exact absurd h.symm Bool.false_ne_true
  | words i j vv => exact absurd h.symm Bool.false_ne_true
  | bits i j vv k v => exact absurd h.symm Bool.false_ne_true
  | _ => rfl

/-- Where the walk is, a timeout is put elsewhere. -/
theorem slot_ne_base {s : St} (hshape : Shape c s) (hs : s.pc.scanning = true) (secs : Nat) :
    timeout_slot c s secs ≠ s.base_idx :=
  timeout_slot_ne_base hshape.base_lt (hshape.due hs) (Int.natCast_nonneg secs)

/-- Registered again with a timeout in the same slot: nothing changes. -/
theorem Rep.add_again {s : St} {fd secs : Nat} {events : Io.Events} (h : Rep c s)
    (hshape : Shape c s) (hreg : (s.fds fd).loop_id = loop_id) (hsecs : secs ≠ 0)
    (hslot : timeout_slot c s secs = (s.fds fd).timeout_idx) :
    Rep c (picoev_add c s fd events secs) := by
  have hbase := hshape.base_lt
  have hlt : timeout_slot c s secs < 128 := timeout_slot_lt s secs
  have hself : (picoev_add c s fd events secs).fds fd =
      ⟨loop_id, events, (s.fds fd).timeout_idx⟩ := by
    have hcast : (secs : Int) ≠ 0 := by omega
    rw [add_fds, Function.update_self, if_neg hcast, hslot]
  have hother (x : Nat) (hx : x ≠ fd) : (picoev_add c s fd events secs).fds x = s.fds x := by
    rw [add_fds, Function.update_of_ne hx]
  have harmed : Armed s fd (timeout_slot c s secs) := ⟨hreg, hslot.symm⟩
  have hmem : (s.row (timeout_slot c s secs)).mem fd = true := by
    rw [h.mem _ hlt fd]
    · exact harmed
    · intro hb
      by_contra hlt'
      exact h.past fd (Nat.lt_of_not_le hlt') (hb ▸ harmed)
  have hmarked : (s.row (timeout_slot c s secs)).marked (fd / 16) = true := by
    refine (h.agrees _ hlt (fd / 16) (fun hb => ?_)).2 ?_
    · cases hs : s.pc.scanning with
      | true => exact absurd hb (slot_ne_base hshape hs secs)
      | false =>
        rw [visited_of_not_scanning hs]
        exact Nat.zero_le _
    · rw [Row.word_ne_zero_iff (by decide)]
      exact ⟨fd, rfl, hmem⟩
  refine h.of_armed (still_add s fd events secs) (fun idx => ?_) (fun x hx => ?_)
    (fun x idx _ => ?_) hbase
  · rw [add_row]
    split
    · rename_i hidx
      rw [hidx.2]
      exact Row.insert_of_mem hmem hmarked
    · rfl
  · by_cases hxfd : x = fd
    · subst hxfd
      rw [hself]
      exact h.slot x hreg
    · rw [hother x hxfd] at hx ⊢
      exact h.slot x hx
  · rw [Armed, Armed]
    by_cases hxfd : x = fd
    · subst hxfd
      rw [hself]
      exact and_congr_left' ⟨fun _ => hreg, fun _ => rfl⟩
    · rw [hother x hxfd]

theorem Rep.add {s : St} {fd secs : Nat} {events : Io.Events} (h : Rep c s) (hshape : Shape c s)
    (hfd : fd < c.max_fd)
    (hok : (s.fds fd).loop_id = loop_id → (s.fds fd).timeout_idx ≠ 255 →
      secs ≠ 0 ∧ timeout_slot c s secs = (s.fds fd).timeout_idx) :
    Rep c (picoev_add c s fd events secs) := by
  by_cases harmed : (s.fds fd).loop_id = loop_id ∧ (s.fds fd).timeout_idx ≠ 255
  · obtain ⟨hsecs, hslot⟩ := hok harmed.1 harmed.2
    exact h.add_again hshape harmed.1 hsecs hslot
  have hself : (fresh s fd).fds fd = ⟨loop_id, ⟨false, false⟩, 255⟩ := Function.update_self fd _ s.fds
  have hother (x : Nat) (hx : x ≠ fd) : (fresh s fd).fds x = s.fds x := Function.update_of_ne hx _ _
  have hnot (idx : Nat) (hidx : idx < 128) : ¬ Armed s fd idx := by
    intro ha
    exact harmed ⟨ha.1, by rw [ha.2]; omega⟩
  have hfresh : Rep c (fresh s fd) := by
    refine h.of_armed ⟨rfl, rfl, rfl, rfl⟩ (fun _ => rfl) (fun x hx => ?_) (fun x idx hidx => ?_)
      hshape.base_lt
    · by_cases hxfd : x = fd
      · subst hxfd
        rw [hself]
        exact ⟨hfd, Or.inr rfl⟩
      · rw [hother x hxfd] at hx ⊢
        exact h.slot x hx
    · by_cases hxfd : x = fd
      · subst hxfd
        refine iff_of_false (fun ha => ?_) (hnot idx hidx)
        have hslot := ha.2
        rw [hself] at hslot
        have : 255 = idx := hslot
        omega
      · rw [Armed, Armed, hother x hxfd]
  have hshape' : Shape c (fresh s fd) := hshape.still ⟨rfl, rfl, rfl, rfl⟩
  have hupdate := hfresh.update_events hshape'.base_lt fd events false
  have hstill := still_update_events (fresh s fd) fd events false
  refine hupdate.set_timeout (hshape'.still hstill) ?_ (fun _ => ?_)
  · rw [hstill.pc]
    cases hc : (fresh s fd).pc.copied fd with
    | false => rfl
    | true =>
      exact absurd (h.armed_of_copied hshape hc) (hnot _ hshape.base_lt)
  · rw [update_events_eq]
    dsimp only
    rw [Function.update_self, hself]

theorem Rep.del {s : St} {fd : Nat} (h : Rep c s) (hshape : Shape c s)
    (hcopied : s.pc.copied fd = false) : Rep c (picoev_del c s fd) := by
  have hbase := hshape.base_lt
  have hupdate := h.update_events hbase fd ⟨false, false⟩ true
  have hstill := still_update_events s fd ⟨false, false⟩ true
  have hset : Rep c (picoev_set_timeout c
      (picoev_update_events_internal s fd ⟨false, false⟩ true) fd 0) :=
    Rep.set_timeout hupdate (hshape.still hstill) (hstill.pc ▸ hcopied) (fun hne => absurd rfl hne)
  rw [picoev_del]
  dsimp only
  generalize hu : picoev_set_timeout c (picoev_update_events_internal s fd ⟨false, false⟩ true) fd 0
    = u at hset
  have hunused : (u.fds fd).timeout_idx = 255 := by
    rw [← hu, set_timeout_fds, Function.update_self, if_pos rfl]
  have hbase' : u.base_idx < 128 := by
    have hstill' : Still s u := hu ▸ hstill.trans (still_set_timeout _ fd 0)
    rw [hstill'.base_idx]
    exact hbase
  have hother (x : Nat) (hx : x ≠ fd) :
      Function.update u.fds fd { u.fds fd with loop_id := 0 } x = u.fds x :=
    Function.update_of_ne hx _ _
  have hself : Function.update u.fds fd { u.fds fd with loop_id := 0 } fd =
      { u.fds fd with loop_id := 0 } := Function.update_self fd _ u.fds
  refine hset.of_armed ⟨rfl, rfl, rfl, rfl⟩ (fun _ => rfl) (fun x hx => ?_) (fun x idx hidx => ?_)
    hbase'
  · change (Function.update u.fds fd _ x).loop_id = _ at hx
    change _ ∧ ((Function.update u.fds fd _ x).timeout_idx < 128 ∨
      (Function.update u.fds fd _ x).timeout_idx = 255)
    by_cases hxfd : x = fd
    · subst hxfd
      rw [hself] at hx
      exact absurd hx Nat.zero_ne_one
    · rw [hother x hxfd] at hx ⊢
      exact hset.slot x hx
  · rw [Armed, Armed]
    change (Function.update u.fds fd _ x).loop_id = _ ∧
      (Function.update u.fds fd _ x).timeout_idx = _ ↔ _
    by_cases hxfd : x = fd
    · subst hxfd
      rw [hself]
      refine iff_of_false (fun ha => absurd ha.1 Nat.zero_ne_one) (fun ha => ?_)
      have := ha.2
      omega
    · rw [hother x hxfd]

end Jega.Picoev
