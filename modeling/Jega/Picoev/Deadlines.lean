import Jega.Picoev.Calm
import Jega.Trace.History

/-!
# Jega.Picoev.Deadlines — timeouts are neither early nor late

A timeout of `secs` set at `loop->now` has the deadline `now + secs`. The slot
it is put in expires at a time of its own, which stays the same while the wheel
turns. Two conditions on the moment a timeout is set tell how the two times are
related:

* a deadline within the wheel, before `base_time + 128 * resolution`, is before
  the slot's time: the timeout is not called early (`never_early`);
* a deadline that is not before `base_time` is at most `resolution` before the
  slot's time: at the end of a pass no deadline is that far behind
  (`never_late`).

The second fails while `loop->now` is what `malloc` left there: a timeout that is
set before the first `picoev_loop_once` may be as late as the wheel is long.
-/

namespace Jega.Picoev

open Io (Revents)
open Bits

variable {c : Config}

/-! ## Expiry of a slot -/

/-- When the slot of `fd` expires. -/
def expiry (c : Config) (s : St) (fd : Nat) : Int :=
  Wheel.expiry 128 c.resolution s.base_time s.base_idx (s.fds fd).timeout_idx

/-- When the slot that a timeout is put in expires. -/
def slot_expiry (c : Config) (s : St) (secs : Int) : Int :=
  s.base_time + (delta c s secs + 1) * c.resolution

theorem expiry_timeout_slot {s : St} (hbase : s.base_idx < 128) (secs : Int) :
    Wheel.expiry 128 c.resolution s.base_time s.base_idx (timeout_slot c s secs) =
      slot_expiry c s secs := by
  rw [Wheel.expiry, timeout_slot, Wheel.dist_add hbase (delta_lt s secs), slot_expiry]

/-- A slot that the wheel has comes after the deadline if that is within the
wheel. -/
theorem lt_slot_expiry_iff (s : St) (secs : Int) :
    s.now + secs < slot_expiry c s secs ↔ s.now + secs < s.base_time + 128 * c.resolution := by
  have hr := c.resolution_pos
  rw [slot_expiry, delta]
  generalize c.resolution = r at hr
  obtain ⟨x, hx⟩ : ∃ x, s.now + secs - s.base_time = x := ⟨_, rfl⟩
  have hnow : s.now + secs = s.base_time + x := by omega
  rw [hx, hnow]
  split
  · rename_i hq
    have hcast : ((PICOEV_TIMEOUT_VEC_SIZE - 1 : Nat) : Int) + 1 = 128 := rfl
    rw [hcast]
  · rename_i hq
    rw [not_or, not_lt, not_le] at hq
    have hq' : Int.tdiv x r < 128 := hq.2
    rw [Int.toNat_of_nonneg hq.1]
    rcases lt_or_ge x 0 with hneg | hnonneg
    · -- The quotient is rounded towards zero
      have hle : 0 * r ≤ Int.tdiv x r * r := by
        exact Int.mul_le_mul_of_nonneg_right hq.1 (le_of_lt hr)
      constructor
      · intro _
        nlinarith
      · intro _
        nlinarith
    · rw [Int.tdiv_eq_ediv_of_nonneg hnonneg] at hq' ⊢
      have hlt := Int.lt_ediv_add_one_mul_self x hr
      constructor
      · intro _
        nlinarith
      · intro _
        omega

/-- It comes by at most `resolution` after the deadline if the deadline is not in
the past of the wheel. -/
theorem slot_expiry_le_iff (s : St) (secs : Int) :
    slot_expiry c s secs ≤ s.now + secs + c.resolution ↔ s.base_time ≤ s.now + secs := by
  have hr := c.resolution_pos
  rw [slot_expiry, delta]
  generalize c.resolution = r at hr
  obtain ⟨x, hx⟩ : ∃ x, s.now + secs - s.base_time = x := ⟨_, rfl⟩
  have hnow : s.now + secs = s.base_time + x := by omega
  rw [hx, hnow]
  rcases lt_or_ge x 0 with hneg | hnonneg
  · refine iff_of_false (fun hle => ?_) (by omega)
    split at hle
    · have hcast : ((PICOEV_TIMEOUT_VEC_SIZE - 1 : Nat) : Int) + 1 = 128 := rfl
      rw [hcast] at hle
      nlinarith
    · rename_i hq
      rw [not_or, not_lt, not_le] at hq
      rw [Int.toNat_of_nonneg hq.1] at hle
      have := mul_nonneg hq.1 (le_of_lt hr)
      nlinarith
  · refine iff_of_true ?_ (by omega)
    rw [Int.tdiv_eq_ediv_of_nonneg hnonneg]
    have hle := Int.ediv_mul_le x (ne_of_gt hr)
    split
    · rename_i hq
      have hnneg : ¬ x / r < 0 := not_lt.2 (Int.ediv_nonneg hnonneg (le_of_lt hr))
      have hge : (128 : Int) ≤ x / r := hq.resolve_left hnneg
      have hcast : ((PICOEV_TIMEOUT_VEC_SIZE - 1 : Nat) : Int) + 1 = 128 := rfl
      rw [hcast]
      nlinarith
    · rename_i hq
      rw [not_or, not_lt, not_le] at hq
      rw [Int.toNat_of_nonneg hq.1]
      nlinarith

/-! ## Deadlines along a run -/

/-- The deadlines of the descriptors that have a timeout. -/
abbrev Deadlines := Nat → Option Int

/-- What a step makes of the deadlines. -/
def note_deadline (s : St) (a : Act) (_ : St) (deadline : Deadlines) : Deadlines :=
  match a with
  | .add fd _ secs | .set_timeout fd secs =>
    Function.update deadline fd (if secs = 0 then none else some (s.now + secs))
  | .del fd => Function.update deadline fd none
  | .handle_timeout =>
    match called s .handle_timeout with
    | some (fd, _) => Function.update deadline fd none
    | none => deadline
  | _ => deadline

/-- A descriptor that has a deadline has a timeout, in a slot that expires as `P`
says; one that has none has no timeout. -/
def KnownAt (c : Config) (P : Int → Int → Prop) (s : St) (fd : Nat) : Option Int → Prop
  | some d =>
    ((s.fds fd).loop_id = loop_id ∧ (s.fds fd).timeout_idx < 128) ∧ P d (expiry c s fd)
  | none => ∀ idx < 128, ¬ Armed s fd idx

structure Kept (c : Config) (P : Int → Int → Prop) (t : Trace.Watched St Deadlines) : Prop where
  shape : Shape c t.st
  rep : Rep c t.st
  known : ∀ fd, KnownAt c P t.st fd (t.hist fd)

/-- A step that sets a timeout meets `P`. -/
def Sets (c : Config) (P : Int → Int → Prop) (s : St) : Act → Prop
  | .add _ _ secs | .set_timeout _ secs => secs ≠ 0 → P (s.now + secs) (slot_expiry c s secs)
  | _ => True

variable {P : Int → Int → Prop}

/-- The wheel is where it was, and the descriptor in its slot. -/
theorem KnownAt.same {s s' : St} {fd : Nat} {o : Option Int} (h : KnownAt c P s fd o)
    (hbase : s'.base_idx = s.base_idx) (htime : s'.base_time = s.base_time)
    (hreg : (s'.fds fd).loop_id = (s.fds fd).loop_id)
    (hslot : (s'.fds fd).timeout_idx = (s.fds fd).timeout_idx) : KnownAt c P s' fd o := by
  cases o with
  | none =>
    intro idx hidx ha
    rw [Armed, hreg, hslot] at ha
    exact h idx hidx ha
  | some d =>
    rw [KnownAt, expiry, hbase, htime, hreg, hslot]
    exact h

theorem KnownAt.unused {s : St} {fd : Nat} (h : (s.fds fd).timeout_idx = 255) :
    KnownAt c P s fd none := by
  rintro idx hidx ⟨-, ha⟩
  omega

/-- A call that sets the timeout of `fd` to `secs`. -/
theorem known_set {s s' : St} {deadline : Deadlines} {fd secs : Nat}
    (h : Kept c P ⟨s, deadline⟩) (hstill : Still s s')
    (hself : (s'.fds fd).timeout_idx = if (secs : Int) = 0 then 255 else timeout_slot c s secs)
    (hreg : secs ≠ 0 → (s'.fds fd).loop_id = loop_id)
    (hother : ∀ x, x ≠ fd → s'.fds x = s.fds x)
    (hset : secs ≠ 0 → P (s.now + secs) (slot_expiry c s secs)) (x : Nat) :
    KnownAt c P s' x
      (Function.update deadline fd (if secs = 0 then none else some (s.now + secs)) x) := by
  by_cases hx : x = fd
  · subst hx
    rw [Function.update_self]
    by_cases hsecs : secs = 0
    · rw [if_pos hsecs]
      rw [if_pos (by rw [hsecs]; rfl)] at hself
      exact KnownAt.unused hself
    · have hcast : (secs : Int) ≠ 0 := by omega
      rw [if_neg hsecs]
      rw [if_neg hcast] at hself
      refine ⟨⟨hreg hsecs, hself ▸ timeout_slot_lt s secs⟩, ?_⟩
      rw [expiry, hstill.base_idx, hstill.base_time, hself, expiry_timeout_slot h.shape.base_lt]
      exact hset hsecs
  · rw [Function.update_of_ne hx]
    exact (h.known x).same hstill.base_idx hstill.base_time (by rw [hother x hx])
      (by rw [hother x hx])

/-- The walk: a descriptor is called when the base is at its slot, and is in no
slot then; the base leaves a slot that is empty. -/
theorem known_scans {s s' : St} {deadline : Deadlines} (h : Kept c P ⟨s, deadline⟩)
    (hs : Scans c s s') (x : Nat) :
    KnownAt c P s' x (note_deadline s .handle_timeout s' deadline x) := by
  have hbase := h.shape.base_lt
  have hknown := h.known x
  have hcall : called s .handle_timeout = none →
      note_deadline s .handle_timeout s' deadline x = deadline x := by
    intro hnone
    simp only [note_deadline, hnone]
  cases hs with
  | enter hpc hdue =>
    rw [hcall (by simp only [called, hpc])]
    exact hknown.same rfl rfl rfl rfl
  | leave hpc hdue =>
    rw [hcall (by simp only [called, hpc])]
    exact hknown.same rfl rfl rfl rfl
  | short hpc hi hvv =>
    rw [hcall (by simp only [called, hpc])]
    exact hknown.same rfl rfl rfl rfl
  | skip_short hpc hi hvv =>
    rw [hcall (by simp only [called, hpc])]
    exact hknown.same rfl rfl rfl rfl
  | advance hpc hi =>
    rw [hcall (by simp only [called, hpc])]
    cases hd : deadline x with
    | none =>
      dsimp only at hknown
      rw [hd] at hknown
      exact hknown
    | some d =>
      dsimp only at hknown
      rw [hd] at hknown
      obtain ⟨⟨hreg, hlt⟩, hP⟩ := hknown
      have hne : (s.fds x).timeout_idx ≠ s.base_idx :=
        fun heq => h.rep.slot_empty hpc hi x ⟨hreg, heq⟩
      refine ⟨⟨hreg, hlt⟩, ?_⟩
      rw [expiry]
      dsimp only
      rw [Wheel.expiry_advance hbase hlt hne]
      exact hP
  | word hpc hmsb =>
    rw [hcall (by simp only [called, hpc])]
    exact hknown.same rfl rfl rfl rfl
  | skip_word hpc hvv hmsb =>
    rw [hcall (by simp only [called, hpc])]
    exact hknown.same rfl rfl rfl rfl
  | end_words hpc hvv =>
    rw [hcall (by simp only [called, hpc])]
    exact hknown.same rfl rfl rfl rfl
  | @fire i j k vv v hpc hmsb =>
    have hfired : called s .handle_timeout = some (k, ⟨false, false, true, false⟩) := by
      simp only [called, hpc, msb_iff, hmsb, if_true]
    simp only [note_deadline, hfired]
    by_cases hx : x = k
    · subst hx
      rw [Function.update_self]
      apply KnownAt.unused
      dsimp only
      rw [Function.update_self]
    · rw [Function.update_of_ne hx]
      refine hknown.same rfl rfl ?_ ?_
      · dsimp only
        rw [Function.update_of_ne hx]
      · dsimp only
        rw [Function.update_of_ne hx]
  | skip_bit hpc hne hmsb =>
    rw [hcall (by simp only [called, hpc, msb_iff, hmsb, Bool.false_eq_true, if_false])]
    exact hknown.same rfl rfl rfl rfl
  | end_bits hpc hv =>
    rw [hcall (by simp [called, hpc, hv])]
    exact hknown.same rfl rfl rfl rfl

theorem Kept.step {t t' : Trace.Watched St Deadlines} {a : Act} (h : Kept c P t)
    (hcalm : Calm c t.st a) (hsets : Sets c P t.st a)
    (hs : Trace.watch (step c) note_deadline t a = some t') : Kept c P t' := by
  obtain ⟨s, deadline⟩ := t
  obtain ⟨s', deadline'⟩ := t'
  obtain ⟨hstep, hhist⟩ := Trace.watch_eq_some.1 hs
  dsimp only at hstep hhist hcalm hsets
  have hshape' : Shape c s' := h.shape.step hstep
  have hrep' : Rep c s' := h.rep.step h.shape hcalm hstep
  refine ⟨hshape', hrep', ?_⟩
  dsimp only
  subst hhist
  have hknown := h.known
  intro x
  cases a with
  | add fd events secs =>
    obtain ⟨-, rfl⟩ := eq_of_guard hstep
    refine known_set h (still_add s fd events secs) ?_ (fun _ => ?_) (fun y hy => ?_) hsets x
    · rw [add_fds, Function.update_self]
    · rw [add_fds, Function.update_self]
    · rw [add_fds, Function.update_of_ne hy]
  | del fd =>
    obtain ⟨-, rfl⟩ := eq_of_guard hstep
    by_cases hx : x = fd
    · subst hx
      simp only [note_deadline, Function.update_self]
      rintro idx - ⟨hreg, -⟩
      rw [del_fds] at hreg
      exact absurd hreg Nat.zero_ne_one
    · simp only [note_deadline, Function.update_of_ne hx]
      have hstill : Still s (picoev_del c s fd) := still_del s fd
      have hfds : (picoev_del c s fd).fds x = s.fds x := del_fds_ne s hx
      exact (hknown x).same hstill.base_idx hstill.base_time (by rw [hfds]) (by rw [hfds])
  | set_events fd events =>
    obtain ⟨-, rfl⟩ := eq_of_guard hstep
    have hstill : Still s (picoev_set_events s fd events) := still_set_events s fd events
    have hfds : ((picoev_set_events s fd events).fds x).loop_id = (s.fds x).loop_id ∧
        ((picoev_set_events s fd events).fds x).timeout_idx = (s.fds x).timeout_idx := by
      rw [picoev_set_events]
      split
      · exact update_events_fds s fd events false x
      · exact ⟨rfl, rfl⟩
    exact (hknown x).same hstill.base_idx hstill.base_time hfds.1 hfds.2
  | set_timeout fd secs =>
    obtain ⟨-, rfl⟩ := eq_of_guard hstep
    refine known_set h (still_set_timeout s fd secs) ?_ (fun hsecs => ?_) (fun y hy => ?_) hsets x
    · rw [set_timeout_fds, Function.update_self]
    · rw [set_timeout_fds, Function.update_self]
      exact hcalm.2 hsecs
    · rw [set_timeout_fds, Function.update_of_ne hy]
  | opens fd =>
    obtain ⟨-, rfl⟩ := eq_of_guard hstep
    exact (hknown x).same rfl rfl rfl rfl
  | closes fd kept =>
    rw [Picoev.step, Option.some.injEq] at hstep
    subst hstep
    exact (hknown x).same rfl rfl rfl rfl
  | released fd ev =>
    rw [Picoev.step, Option.some.injEq] at hstep
    subst hstep
    exact (hknown x).same rfl rfl rfl rfl
  | loop_once now events =>
    obtain ⟨-, rfl⟩ := eq_of_guard hstep
    exact (hknown x).same rfl rfl rfl rfl
  | interrupted now =>
    obtain ⟨-, rfl⟩ := eq_of_guard hstep
    exact (hknown x).same rfl rfl rfl rfl
  | poll =>
    obtain ⟨event, events, -, rfl⟩ := poll_eq hstep
    exact (hknown x).same rfl rfl rfl rfl
  | polled now =>
    obtain ⟨-, rfl⟩ := eq_of_guard hstep
    exact (hknown x).same rfl rfl rfl rfl
  | handle_timeout => exact known_scans h (scans_of_step hstep) x

/-- The state after `picoev_create_loop`, with no deadline. -/
def created (base_time now : Int) : Trace.Watched St Deadlines :=
  ⟨picoev_create_loop base_time now, fun _ => none⟩

/-- What runs keep in which the timeouts are set as `P` says. -/
theorem kept_run {t : Trace.Watched St Deadlines} {as : List Act} {base_time now : Int}
    (hok : Trace.Steps (Trace.watch (step c) note_deadline)
      (fun t a => Calm c t.st a ∧ Sets c P t.st a) (created base_time now) as)
    (hrun : Trace.run (Trace.watch (step c) note_deadline) (created base_time now) as = some t) :
    Kept c P t := by
  have hinit : Kept c P (created base_time now) :=
    ⟨shape_create_loop base_time now, rep_create_loop base_time now,
      fun _ _ _ ha => absurd ha.1 Nat.zero_ne_one⟩
  have hstep : ∀ t a t', Trace.watch (step c) note_deadline t a = some t' →
      Calm c t.st a ∧ Sets c P t.st a → Kept c P t → Kept c P t' :=
    fun t a t' hs hok h => h.step hok.1 hok.2 hs
  exact Trace.run_invariant_steps hstep hinit hok hrun

/-! ## Early and late -/

/-- A timeout is set to a deadline within the wheel. -/
def Within (c : Config) (s : St) : Act → Prop
  | .add _ _ secs | .set_timeout _ secs =>
    secs ≠ 0 → s.now + secs < s.base_time + PICOEV_TIMEOUT_VEC_SIZE * c.resolution
  | _ => True

/-- A timeout is set to a deadline that is not behind the wheel. -/
def Ahead (s : St) : Act → Prop
  | .add _ _ secs | .set_timeout _ secs => secs ≠ 0 → s.base_time ≤ s.now + secs
  | _ => True

theorem sets_of_within {s : St} {a : Act} (h : Within c s a) :
    Sets c (fun d e => d < e) s a := by
  cases a with
  | add fd events secs => exact fun hsecs => (lt_slot_expiry_iff s secs).2 (h hsecs)
  | set_timeout fd secs => exact fun hsecs => (lt_slot_expiry_iff s secs).2 (h hsecs)
  | _ => trivial

theorem sets_of_ahead {s : St} {a : Act} (h : Ahead s a) :
    Sets c (fun d e => e ≤ d + c.resolution) s a := by
  cases a with
  | add fd events secs => exact fun hsecs => (slot_expiry_le_iff s secs).2 (h hsecs)
  | set_timeout fd secs => exact fun hsecs => (slot_expiry_le_iff s secs).2 (h hsecs)
  | _ => trivial

instance (s : St) : ∀ a, Decidable (Within c s a)
  | .add _ _ secs | .set_timeout _ secs => inferInstanceAs (Decidable (secs ≠ 0 →
      s.now + secs < s.base_time + PICOEV_TIMEOUT_VEC_SIZE * c.resolution))
  | .del _ | .set_events _ _ | .opens _ | .closes _ _ | .released _ _ | .loop_once _ _
  | .interrupted _ | .poll | .polled _ | .handle_timeout => isTrue trivial

instance (s : St) : ∀ a, Decidable (Ahead s a)
  | .add _ _ secs | .set_timeout _ secs =>
    inferInstanceAs (Decidable (secs ≠ 0 → s.base_time ≤ s.now + secs))
  | .del _ | .set_events _ _ | .opens _ | .closes _ _ | .released _ _ | .loop_once _ _
  | .interrupted _ | .poll | .polled _ | .handle_timeout => isTrue trivial

/-- Only descriptors with a deadline are called for a timeout, and after it. -/
theorem never_early {t : Trace.Watched St Deadlines} {as : List Act} {base_time now : Int}
    {fd : Nat} {ev : Revents}
    (hok : Trace.Steps (Trace.watch (step c) note_deadline)
      (fun t a => Calm c t.st a ∧ Within c t.st a) (created base_time now) as)
    (hrun : Trace.run (Trace.watch (step c) note_deadline) (created base_time now) as = some t)
    (hcall : called t.st .handle_timeout = some (fd, ev)) :
    ∃ d, t.hist fd = some d ∧ d < t.st.now := by
  have hsets : Trace.Steps (Trace.watch (step c) note_deadline)
      (fun t a => Calm c t.st a ∧ Sets c (fun d e => d < e) t.st a) (created base_time now) as :=
    hok.mono fun _ _ h => ⟨h.1, sets_of_within h.2⟩
  have hkept := kept_run hsets hrun
  obtain ⟨harmed, hdue⟩ := called_armed hkept.shape hkept.rep hcall
  have hknown := hkept.known fd
  cases hd : t.hist fd with
  | none =>
    rw [hd] at hknown
    exact absurd harmed (hknown _ hkept.shape.base_lt)
  | some d =>
    rw [hd] at hknown
    have hlt := hknown.2
    rw [expiry, harmed.2, Wheel.expiry_base hkept.shape.base_lt] at hlt
    exact ⟨d, rfl, lt_of_lt_of_le hlt hdue⟩

/-- A timeout of a second is called in the pass of two seconds later. -/
theorem never_early_second : ∃ t,
    Trace.run (Trace.watch (step jega) note_deadline) (created 0 0)
      (two_due ++ .replicate 26 .handle_timeout) = some t ∧
    ∃ d, t.hist 5 = some d ∧ d < t.st.now := by
  have h : (Trace.run (Trace.watch (step jega) note_deadline) (created 0 0)
      (two_due ++ .replicate 26 .handle_timeout)).any (fun t =>
        decide (called t.st .handle_timeout = some (5, ⟨false, false, true, false⟩))) = true := by
    decide +kernel
  obtain ⟨t, ht, hp⟩ := Trace.run_any h
  exact ⟨t, ht, never_early (by decide +kernel) ht (of_decide_eq_true hp)⟩

/-- When a pass is over, no deadline is behind the clock by `resolution`. -/
theorem never_late {t : Trace.Watched St Deadlines} {as : List Act} {base_time now : Int}
    {s' : St} {fd : Nat} {d : Int}
    (hok : Trace.Steps (Trace.watch (step c) note_deadline)
      (fun t a => Calm c t.st a ∧ Ahead t.st a) (created base_time now) as)
    (hrun : Trace.run (Trace.watch (step c) note_deadline) (created base_time now) as = some t)
    (hend : step c t.st .handle_timeout = some s') (hidle : s'.pc = .idle)
    (hd : t.hist fd = some d) : t.st.now < d + c.resolution := by
  have hsets : Trace.Steps (Trace.watch (step c) note_deadline)
      (fun t a => Calm c t.st a ∧ Sets c (fun d e => e ≤ d + c.resolution) t.st a)
      (created base_time now) as :=
    hok.mono fun _ _ h => ⟨h.1, sets_of_ahead h.2⟩
  have hkept := kept_run hsets hrun
  have hknown := hkept.known fd
  rw [hd] at hknown
  have hge : t.st.base_time + c.resolution ≤ expiry c t.st fd :=
    Wheel.le_expiry c.resolution_pos t.st.base_idx (t.st.fds fd).timeout_idx
  have hle := hknown.2
  have hpast : ¬ t.st.base_time ≤ t.st.now - c.resolution := by
    cases scans_of_step hend with
    | leave hpc hdue => exact hdue
    | _ => exact absurd hidle (by simp)
  omega

/-- A timeout of three seconds is not behind after a pass at two. -/
theorem never_late_three : ∃ t,
    Trace.run (Trace.watch (step jega) note_deadline) (created 0 0)
      (.add 9 ⟨true, false⟩ 3 :: .loop_once 2 [] :: .polled 2 :: .replicate 36 .handle_timeout) =
        some t ∧
    t.st.now < 3 + jega.resolution := by
  have h : (Trace.run (Trace.watch (step jega) note_deadline) (created 0 0)
      (.add 9 ⟨true, false⟩ 3 :: .loop_once 2 [] :: .polled 2 ::
        .replicate 36 .handle_timeout)).any (fun t =>
          decide (t.hist 9 = some 3) &&
            (step jega t.st .handle_timeout).any (fun s => decide (s.pc = .idle))) = true := by
    decide +kernel
  obtain ⟨t, ht, hp⟩ := Trace.run_any h
  rw [Bool.and_eq_true, decide_eq_true_eq, Option.any_eq_true] at hp
  obtain ⟨hd, s', hs', hidle⟩ := hp
  exact ⟨t, ht, never_late (by decide +kernel) ht hs' (of_decide_eq_true hidle) hd⟩

end Jega.Picoev
