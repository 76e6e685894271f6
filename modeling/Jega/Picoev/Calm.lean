import Jega.Picoev.Walk

/-!
# Jega.Picoev.Calm — the steps that keep bitmaps and table in agreement

The agreement lasts as long as nobody touches a descriptor whose bit is in the
copy that the walk has just made of its word, nobody registers a descriptor that
has a timeout (in another slot), and timeouts are set for registered descriptors
only. These are exactly the steps that break it (`rep_always_iff_calm`), and
while it lasts the walk calls the descriptors of its slot only
(`called_armed`).
-/

namespace Jega.Picoev

open Io (Revents)
open Bits

variable {c : Config}

/-- The steps that keep the agreement. -/
def Calm (c : Config) (s : St) : Act → Prop
  | .add fd _ secs =>
    (s.fds fd).loop_id = loop_id → (s.fds fd).timeout_idx ≠ 255 →
      secs ≠ 0 ∧ timeout_slot c s secs = (s.fds fd).timeout_idx
  | .del fd => s.pc.copied fd = false
  | .set_timeout fd secs =>
    s.pc.copied fd = false ∧ (secs ≠ 0 → (s.fds fd).loop_id = loop_id)
  | _ => True

instance (s : St) : ∀ a, Decidable (Calm c s a)
  | .add fd _ secs => inferInstanceAs (Decidable ((s.fds fd).loop_id = loop_id →
      (s.fds fd).timeout_idx ≠ 255 → secs ≠ 0 ∧ timeout_slot c s secs = (s.fds fd).timeout_idx))
  | .del fd => inferInstanceAs (Decidable (s.pc.copied fd = false))
  | .set_timeout fd secs => inferInstanceAs (Decidable (s.pc.copied fd = false ∧
      (secs ≠ 0 → (s.fds fd).loop_id = loop_id)))
  | .set_events _ _ | .opens _ | .closes _ _ | .released _ _ | .loop_once _ _ | .interrupted _
  | .poll | .polled _ | .handle_timeout => isTrue trivial

theorem rep_create_loop (base_time now : Int) : Rep c (picoev_create_loop base_time now) where
  slot fd hfd := absurd hfd Nat.zero_ne_one
  mem idx hidx fd _ := by
    change (0#16).getMsbD _ = true ↔ _
    rw [BitVec.getMsbD_zero]
    exact iff_of_false Bool.false_ne_true (fun ha => absurd ha.1 Nat.zero_ne_one)
  past fd hfd := absurd hfd (Nat.not_lt_zero fd)
  agrees idx hidx i _ := by
    change (0#16).getMsbD _ = true ↔ 0#16 ≠ 0#16
    rw [BitVec.getMsbD_zero]
    exact iff_of_false Bool.false_ne_true (fun hne => hne rfl)
  zero j hj := absurd hj (Nat.not_lt_zero j)
  zero_summary i hi := absurd hi (Nat.not_lt_zero i)
  copies := trivial

theorem not_scanning_of_eq {pc pc' : Pc} (h : pc = pc') (hs : pc'.scanning = false) :
    pc.scanning = false := h ▸ hs

theorem Rep.step {s s' : St} {a : Act} (h : Rep c s) (hshape : Shape c s) (hcalm : Calm c s a)
    (hs : step c s a = some s') : Rep c s' := by
  have hbase := hshape.base_lt
  cases a with
  | add fd events secs =>
    obtain ⟨hfd, rfl⟩ := eq_of_guard hs
    exact h.add hshape hfd hcalm
  | del fd =>
    obtain ⟨-, rfl⟩ := eq_of_guard hs
    exact h.del hshape hcalm
  | set_events fd events =>
    obtain ⟨-, rfl⟩ := eq_of_guard hs
    rw [picoev_set_events]
    split
    · exact h.update_events hbase fd events false
    · exact h
  | set_timeout fd secs =>
    obtain ⟨-, rfl⟩ := eq_of_guard hs
    exact h.set_timeout hshape hcalm.1 hcalm.2
  | opens fd =>
    obtain ⟨-, rfl⟩ := eq_of_guard hs
    exact h.of_armed ⟨rfl, rfl, rfl, rfl⟩ (fun _ => rfl) h.slot (fun _ _ _ => Iff.rfl) hbase
  | closes fd kept =>
    rw [Picoev.step, Option.some.injEq] at hs
    subst hs
    exact h.of_armed ⟨rfl, rfl, rfl, rfl⟩ (fun _ => rfl) h.slot (fun _ _ _ => Iff.rfl) hbase
  | released fd ev =>
    rw [Picoev.step, Option.some.injEq] at hs
    subst hs
    exact h.of_armed ⟨rfl, rfl, rfl, rfl⟩ (fun _ => rfl) h.slot (fun _ _ _ => Iff.rfl) hbase
  | loop_once now events =>
    obtain ⟨⟨hpc, -⟩, rfl⟩ := eq_of_guard hs
    exact h.outside (.poll events) (not_scanning_of_eq hpc rfl) rfl now
  | interrupted now =>
    obtain ⟨hpc, rfl⟩ := eq_of_guard hs
    have houtside := h.outside .idle (not_scanning_of_eq hpc rfl) rfl now
    rw [← hpc] at houtside
    exact houtside
  | poll =>
    obtain ⟨event, events, hpc, rfl⟩ := poll_eq hs
    have houtside := h.outside (.poll events) (not_scanning_of_eq hpc rfl) rfl s.now
    exact houtside.of_armed ⟨rfl, rfl, rfl, rfl⟩ (fun _ => rfl) h.slot (fun _ _ _ => Iff.rfl) hbase
  | polled now =>
    obtain ⟨hpc, rfl⟩ := eq_of_guard hs
    exact h.outside .rounds (not_scanning_of_eq hpc rfl) rfl now
  | handle_timeout => exact h.scans hshape (scans_of_step hs)

/-! ## The other steps break it -/

/-- A descriptor in the copy is deleted: the walk still has its bit. -/
theorem not_rep_del {s : St} {fd : Nat} (hshape : Shape c s) (hcopied : s.pc.copied fd = true) :
    ¬ Rep c (picoev_del c s fd) := by
  intro h
  have hstill : Still s (picoev_del c s fd) := still_del s fd
  rw [← hstill.pc] at hcopied
  have harmed := h.armed_of_copied (hshape.still hstill) hcopied
  have hreg := harmed.1
  rw [del_fds] at hreg
  exact absurd hreg Nat.zero_ne_one

/-- A descriptor in the copy gets another timeout, or none. -/
theorem not_rep_set_timeout {s : St} {fd secs : Nat} (hshape : Shape c s)
    (hcopied : s.pc.copied fd = true) : ¬ Rep c (picoev_set_timeout c s fd secs) := by
  intro h
  have hbase := hshape.base_lt
  have hstill : Still s (picoev_set_timeout c s fd secs) := still_set_timeout s fd secs
  rw [← hstill.pc] at hcopied
  have harmed := h.armed_of_copied (hshape.still hstill) hcopied
  have hslot := harmed.2
  rw [set_timeout_fds, Function.update_self, hstill.base_idx] at hslot
  dsimp only at hslot
  split at hslot
  · omega
  · rw [hstill.pc] at hcopied
    exact slot_ne_base hshape (scanning_of_copied hcopied) secs hslot

/-- A descriptor that is not registered gets a timeout. -/
theorem not_rep_unregistered {s : St} {fd secs : Nat} (hshape : Shape c s) (hsecs : secs ≠ 0)
    (hreg : (s.fds fd).loop_id ≠ loop_id) : ¬ Rep c (picoev_set_timeout c s fd secs) := by
  intro h
  have hcast : (secs : Int) ≠ 0 := by omega
  have hstill : Still s (picoev_set_timeout c s fd secs) := still_set_timeout s fd secs
  have hslot : timeout_slot c (clear_timeout s fd) secs = timeout_slot c s secs := by
    have hclear := still_clear_timeout s fd
    rw [timeout_slot, timeout_slot, delta, delta, hclear.base_idx, hclear.base_time, hclear.now]
  have hmem : ((picoev_set_timeout c s fd secs).row (timeout_slot c s secs)).mem fd = true := by
    rw [picoev_set_timeout, if_pos hcast, arm_timeout_row, if_pos hslot.symm, Row.mem_insert (by decide)]
    simp
  rw [h.mem _ (timeout_slot_lt s secs) fd] at hmem
  · have hreg' := hmem.1
    rw [set_timeout_fds, Function.update_self] at hreg'
    exact hreg hreg'
  · rw [hstill.base_idx, hstill.pc]
    intro hb
    cases hs : s.pc.scanning with
    | true => exact absurd hb (slot_ne_base hshape hs secs)
    | false =>
      rw [done_of_not_scanning hs]
      exact Nat.zero_le fd

/-- A descriptor that has a timeout is registered again: the old bit stays. -/
theorem not_rep_add {s : St} {fd secs : Nat} {events : Io.Events} (h : Rep c s)
    (hreg : (s.fds fd).loop_id = loop_id) (hslot : (s.fds fd).timeout_idx ≠ 255)
    (hok : ¬ (secs ≠ 0 ∧ timeout_slot c s secs = (s.fds fd).timeout_idx)) :
    ¬ Rep c (picoev_add c s fd events secs) := by
  intro h'
  have hlt : (s.fds fd).timeout_idx < 128 := (h.slot fd hreg).2.resolve_right hslot
  have hahead : (s.fds fd).timeout_idx = s.base_idx → s.pc.done ≤ fd := by
    intro hb
    by_contra hlt'
    exact h.past fd (Nat.lt_of_not_le hlt') ⟨hreg, hb⟩
  have hmem : (s.row (s.fds fd).timeout_idx).mem fd = true :=
    (h.mem _ hlt fd hahead).2 ⟨hreg, rfl⟩
  have hstill : Still s (picoev_add c s fd events secs) := still_add s fd events secs
  have hrow : (picoev_add c s fd events secs).row (s.fds fd).timeout_idx =
      s.row (s.fds fd).timeout_idx := by
    rw [add_row, if_neg]
    rintro ⟨hsecs, heq⟩
    exact hok ⟨by omega, heq.symm⟩
  have harmed := (h'.mem _ hlt fd (by rw [hstill.base_idx, hstill.pc]; exact hahead)).1
    (by rw [hrow]; exact hmem)
  have hidx := harmed.2
  rw [add_fds, Function.update_self] at hidx
  dsimp only at hidx
  split at hidx
  · omega
  · rename_i hsecs
    exact hok ⟨fun hz => hsecs (by rw [hz]; rfl), hidx⟩

theorem rep_step_iff {s s' : St} {a : Act} (hs : step c s a = some s') (hshape : Shape c s)
    (h : Rep c s) : Rep c s' ↔ Calm c s a := by
  constructor
  · intro h'
    cases a with
    | add fd events secs =>
      obtain ⟨-, rfl⟩ := eq_of_guard hs
      intro hreg hslot
      by_contra hok
      exact not_rep_add h hreg hslot hok h'
    | del fd =>
      obtain ⟨-, rfl⟩ := eq_of_guard hs
      by_contra hcopied
      exact not_rep_del hshape (Bool.eq_true_of_not_eq_false hcopied) h'
    | set_timeout fd secs =>
      obtain ⟨-, rfl⟩ := eq_of_guard hs
      constructor
      · by_contra hcopied
        exact not_rep_set_timeout hshape (Bool.eq_true_of_not_eq_false hcopied) h'
      · intro hsecs
        by_contra hreg
        exact not_rep_unregistered hshape hsecs hreg h'
    | _ => trivial
  · intro hcalm
    exact h.step hshape hcalm hs

/-- Bitmaps and table agree all along a run if and only if its steps are calm. -/
theorem rep_always_iff_calm {s : St} {as : List Act} {base_time now : Int}
    (hrun : Trace.run (step c) (picoev_create_loop base_time now) as = some s) :
    Trace.Always (step c) (Rep c) (picoev_create_loop base_time now) as ↔
      Trace.Steps (step c) (Calm c) (picoev_create_loop base_time now) as := by
  have hinv : ∀ s a s', step c s a = some s' → Calm c s a → Shape c s → Rep c s → Shape c s' :=
    fun s a s' hs _ hshape _ => hshape.step hs
  have hiff : ∀ s a s', step c s a = some s' → Shape c s → Rep c s → (Rep c s' ↔ Calm c s a) :=
    fun s a s' hs hshape h => rep_step_iff hs hshape h
  exact Trace.always_iff_steps hinv hiff (shape_create_loop base_time now)
    (rep_create_loop base_time now) hrun

/-- A pass whose handler sets the timeout it was called for again. -/
theorem rep_always_iff_calm_rearming :
    Trace.Always (step jega) (Rep jega) (picoev_create_loop 0 0) (two_due ++ rearming) ↔
      Trace.Steps (step jega) (Calm jega) (picoev_create_loop 0 0) (two_due ++ rearming) := by
  have h : (Trace.run (step jega) (picoev_create_loop 0 0) (two_due ++ rearming)).any
      (fun _ => true) = true := by
    decide +kernel
  obtain ⟨s, hs, -⟩ := Trace.run_any h
  exact rep_always_iff_calm hs

/-- Its steps are calm. -/
example : Trace.Steps (step jega) (Calm jega) (picoev_create_loop 0 0) (two_due ++ rearming) := by
  decide +kernel

/-- The handler of 5 deletes 9, which is in the same word: they are not. -/
example : ¬ Trace.Steps (step jega) (Calm jega) (picoev_create_loop 0 0)
    (.add 9 ⟨true, false⟩ 1 :: two_due ++ .replicate 27 .handle_timeout ++ [.del 9]) := by
  decide +kernel

/-! ## Calm runs -/

/-- What a calm run keeps. -/
theorem rep_of_calm {s : St} {as : List Act} {base_time now : Int}
    (hrun : Trace.run (step c) (picoev_create_loop base_time now) as = some s)
    (hcalm : Trace.Steps (step c) (Calm c) (picoev_create_loop base_time now) as) :
    Shape c s ∧ Rep c s := by
  have hstep : ∀ s a s', step c s a = some s' → Calm c s a → Shape c s ∧ Rep c s →
      Shape c s' ∧ Rep c s' :=
    fun s a s' hs hok h => ⟨h.1.step hs, h.2.step h.1 hok hs⟩
  exact Trace.run_invariant_steps hstep
    ⟨shape_create_loop base_time now, rep_create_loop base_time now⟩ hcalm hrun

theorem called_bits {s : St} {fd : Nat} {ev : Revents}
    (hcall : called s .handle_timeout = some (fd, ev)) :
    ∃ i j vv v, s.pc = .bits i j vv fd v ∧ v.getMsbD 0 = true ∧ ev.timeout = true := by
  rw [called] at hcall
  split at hcall
  · rename_i i j vv k v hpc
    split at hcall
    · rename_i hmsb
      rw [Option.some.injEq, Prod.mk.injEq] at hcall
      obtain ⟨rfl, rfl⟩ := hcall
      exact ⟨i, j, vv, v, hpc, (msb_iff v).symm.trans hmsb, rfl⟩
    · exact absurd hcall (by simp)
  · exact absurd hcall (by simp)

/-- The walk calls descriptors of the slot, and the slot is due. -/
theorem called_armed {s : St} {fd : Nat} {ev : Revents} (hshape : Shape c s) (h : Rep c s)
    (hcall : called s .handle_timeout = some (fd, ev)) :
    Armed s fd s.base_idx ∧ s.base_time + c.resolution ≤ s.now := by
  obtain ⟨i, j, vv, v, hpc, hmsb, -⟩ := called_bits hcall
  have hplaced := hshape.placed
  rw [hpc] at hplaced
  obtain ⟨-, -, -, -, -, -, hv⟩ := hplaced
  have hk : fd < j * 16 + 16 := lt_of_copy hv (ne_zero_of_bit hmsb)
  have hdue := hshape.due (by rw [hpc]; rfl)
  exact ⟨h.armed_of_copy hshape.base_lt hpc hk hmsb, by omega⟩

end Jega.Picoev
