import Jega.Picoev.Passes
import Jega.Trace.History

/-!
# Jega.Picoev.Order — whom a pass calls, whatever the handlers do

Within one slot the descriptors are called in ascending order, each at most
once. A descriptor whose bit is in the copy of a word is called even if a
handler deletes it first.
-/

namespace Jega.Picoev

open Io (Events Revents)
open Bits

variable {c : Config}

/-! ## The calls of a slot -/

/-- The descriptors called since the walk came to its slot. -/
def note_called (s : St) (a : Act) (_ : St) (slot : List Nat) : List Nat :=
  match a, s.pc with
  | .handle_timeout, .rounds => []
  | .handle_timeout, .bits _ _ _ k v => if v.getMsbD 0 then slot ++ [k] else slot
  | _, _ => slot

/-- The descriptors that the walk is past. -/
def Pc.done : Pc → Nat
  | .shorts i => i * 256
  | .words _ j _ => j * 16
  | .bits _ _ _ k _ => k
  | _ => 0

/-- The calls so far are in order, and behind the walk. -/
def Ordered (t : Trace.Watched St (List Nat)) : Prop :=
  t.hist.Pairwise (· < ·) ∧ (t.st.pc.scanning = true → ∀ fd ∈ t.hist, fd < t.st.pc.done)

theorem ordered_of_le {t t' : Trace.Watched St (List Nat)} (h : Ordered t)
    (hhist : t'.hist = t.hist) (hscan : t'.st.pc.scanning = true → t.st.pc.scanning = true)
    (hdone : t.st.pc.done ≤ t'.st.pc.done) : Ordered t' := by
  rw [Ordered, hhist]
  exact ⟨h.1, fun hs fd hfd => Nat.lt_of_lt_of_le (h.2 (hscan hs) fd hfd) hdone⟩

theorem Ordered.still {t t' : Trace.Watched St (List Nat)} (h : Ordered t)
    (hhist : t'.hist = t.hist) (hpc : t'.st.pc = t.st.pc) : Ordered t' :=
  ordered_of_le h hhist (fun hs => hpc ▸ hs) (Nat.le_of_eq (by rw [hpc]))

theorem note_called_rounds {s s' : St} {slot : List Nat} (hpc : s.pc = .rounds) :
    note_called s .handle_timeout s' slot = [] := by
  simp only [note_called, hpc]

theorem note_called_bits {s s' : St} {slot : List Nat} {i j k : Nat} {vv v : BitVec 16}
    (hpc : s.pc = .bits i j vv k v) :
    note_called s .handle_timeout s' slot = if v.getMsbD 0 then slot ++ [k] else slot := by
  simp only [note_called, hpc]

theorem note_called_shorts {s s' : St} {slot : List Nat} {i : Nat} (hpc : s.pc = .shorts i) :
    note_called s .handle_timeout s' slot = slot := by
  simp only [note_called, hpc]

theorem note_called_words {s s' : St} {slot : List Nat} {i j : Nat} {vv : BitVec 16}
    (hpc : s.pc = .words i j vv) : note_called s .handle_timeout s' slot = slot := by
  simp only [note_called, hpc]

theorem ordered_scans {s s' : St} {slot : List Nat} (hshape : Shape c s) (h : Ordered ⟨s, slot⟩)
    (hs : Scans c s s') : Ordered ⟨s', note_called s .handle_timeout s' slot⟩ := by
  have hplaced := hshape.placed
  have hscan (hc : s.pc.scanning = true) := h.2 hc
  cases hs with
  | enter hpc hdue =>
    rw [note_called_rounds hpc]
    exact ⟨List.Pairwise.nil, fun _ fd hfd => absurd hfd List.not_mem_nil⟩
  | leave hpc hdue =>
    rw [note_called_rounds hpc]
    exact ⟨List.Pairwise.nil, fun _ fd hfd => absurd hfd List.not_mem_nil⟩
  | @short i hpc hi hvv =>
    refine ordered_of_le h (by rw [note_called_shorts hpc]) (fun _ => by rw [hpc]; rfl) ?_
    rw [hpc]
    change i * 256 ≤ i * 16 * 16
    omega
  | @skip_short i hpc hi hvv =>
    refine ordered_of_le h (by rw [note_called_shorts hpc]) (fun _ => by rw [hpc]; rfl) ?_
    rw [hpc]
    change i * 256 ≤ (i + 1) * 256
    omega
  | advance hpc hi =>
    rw [note_called_shorts hpc]
    exact ⟨h.1, fun hc => absurd hc Bool.false_ne_true⟩
  | @word i j vv hpc hmsb =>
    refine ordered_of_le h (by rw [note_called_words hpc]) (fun _ => by rw [hpc]; rfl) ?_
    rw [hpc]
    exact Nat.le_refl _
  | @skip_word i j vv hpc hvv hmsb =>
    refine ordered_of_le h (by rw [note_called_words hpc]) (fun _ => by rw [hpc]; rfl) ?_
    rw [hpc]
    change j * 16 ≤ (j + 1) * 16
    omega
  | @end_words i j vv hpc hvv =>
    refine ordered_of_le h (by rw [note_called_words hpc]) (fun _ => by rw [hpc]; rfl) ?_
    rw [hpc] at hplaced ⊢
    obtain ⟨-, -, hji, -⟩ := hplaced
    change j * 16 ≤ (i + 1) * 256
    omega
  | @fire i j k vv v hpc hmsb =>
    have hbehind : ∀ fd ∈ slot, fd < k := by
      rw [hpc] at hscan
      exact hscan rfl
    rw [note_called_bits hpc, if_pos hmsb]
    constructor
    · rw [List.pairwise_append]
      refine ⟨h.1, List.pairwise_singleton _ k, fun a ha b hb => ?_⟩
      rw [List.mem_singleton] at hb
      exact hb ▸ hbehind a ha
    · intro _ fd hfd
      change fd < k + 1
      rcases List.mem_append.1 hfd with hfd | hfd
      · exact Nat.lt_succ_of_lt (hbehind fd hfd)
      · rw [List.mem_singleton] at hfd
        omega
  | @skip_bit i j k vv v hpc hne hmsb =>
    refine ordered_of_le h ?_ (fun _ => by rw [hpc]; rfl) ?_
    · simp only [note_called_bits hpc, hmsb, Bool.false_eq_true, if_false]
    · rw [hpc]
      exact Nat.le_succ k
  | @end_bits i j k vv v hpc hv =>
    refine ordered_of_le h ?_ (fun _ => by rw [hpc]; rfl) ?_
    · simp only [note_called_bits hpc, hv, BitVec.getMsbD_zero, Bool.false_eq_true,
        if_false]
    · rw [hpc] at hplaced ⊢
      obtain ⟨-, -, -, -, -, hkj, -⟩ := hplaced
      change k ≤ (j + 1) * 16
      omega

theorem note_called_of_ne {s s' : St} {a : Act} {slot : List Nat} (ha : a ≠ .handle_timeout) :
    note_called s a s' slot = slot := by
  unfold note_called
  split
  · exact absurd rfl ha
  · exact absurd rfl ha
  · rfl

theorem Ordered.step {t t' : Trace.Watched St (List Nat)} {a : Act} (hshape : Shape c t.st)
    (h : Ordered t) (hs : Trace.watch (step c) note_called t a = some t') : Ordered t' := by
  obtain ⟨hstep, hhist⟩ := Trace.watch_eq_some.1 hs
  by_cases ha : a = .handle_timeout
  · subst ha
    have := ordered_scans hshape h (scans_of_step hstep)
    rwa [← hhist] at this
  rw [note_called_of_ne ha] at hhist
  by_cases hcall : a.moves = false
  · exact h.still hhist (still_of_call hstep hcall).pc
  -- The other moves end outside the slots
  refine ⟨hhist ▸ h.1, fun hc => ?_⟩
  cases a with
  | loop_once now events =>
    obtain ⟨-, heq⟩ := eq_of_guard hstep
    rw [← heq] at hc
    exact absurd hc Bool.false_ne_true
  | interrupted now =>
    obtain ⟨hpc, heq⟩ := eq_of_guard hstep
    rw [← heq] at hc
    dsimp only at hc
    rw [hpc] at hc
    exact absurd hc Bool.false_ne_true
  | poll =>
    obtain ⟨event, events, -, heq⟩ := poll_eq hstep
    rw [heq] at hc
    exact absurd hc Bool.false_ne_true
  | polled now =>
    obtain ⟨-, heq⟩ := eq_of_guard hstep
    rw [← heq] at hc
    exact absurd hc Bool.false_ne_true
  | handle_timeout => exact absurd rfl ha
  | _ => exact absurd rfl hcall

/-- Within one slot the descriptors are called in ascending order, so each at
most once, whatever the handlers do. -/
theorem slot_calls_ascending {as : List Act} {base_time now : Int}
    {t : Trace.Watched St (List Nat)}
    (hrun : Trace.run (Trace.watch (step c) note_called) ⟨picoev_create_loop base_time now, []⟩ as =
      some t) :
    t.hist.Pairwise (· < ·) := by
  have hinit : Shape c (picoev_create_loop base_time now) ∧
      Ordered ⟨picoev_create_loop base_time now, []⟩ :=
    ⟨shape_create_loop base_time now, List.Pairwise.nil, fun hc => absurd hc Bool.false_ne_true⟩
  have hstep : ∀ t a t', Trace.watch (step c) note_called t a = some t' →
      Shape c t.st ∧ Ordered t → Shape c t'.st ∧ Ordered t' :=
    fun t a t' hs h => ⟨h.1.step (Trace.watch_eq_some.1 hs).1, h.2.step h.1 hs⟩
  exact (Trace.run_invariant hstep hinit hrun).2.1

/-- Two descriptors of one word. -/
theorem slot_calls_ascending_pair : ∃ t,
    Trace.run (Trace.watch (step jega) note_called) ⟨picoev_create_loop 0 0, []⟩
      (.add 9 ⟨true, false⟩ 1 :: two_due ++ .replicate 31 .handle_timeout) = some t ∧
    t.hist = [5, 9] ∧ t.hist.Pairwise (· < ·) := by
  have h : (Trace.run (Trace.watch (step jega) note_called) ⟨picoev_create_loop 0 0, []⟩
      (.add 9 ⟨true, false⟩ 1 :: two_due ++ .replicate 31 .handle_timeout)).any
        (fun t => decide (t.hist = [5, 9])) = true := by
    decide +kernel
  obtain ⟨t, ht, hp⟩ := Trace.run_any h
  exact ⟨t, ht, of_decide_eq_true hp, slot_calls_ascending ht⟩

/-! ## The copy of a word -/

/-- The walk has a copy of the bit of `fd`, and is not there yet. -/
def Pc.copied : Pc → Nat → Bool
  | .bits _ _ _ k v, fd => decide (k ≤ fd) && v.getMsbD (fd - k)
  | _, _ => false

theorem copied_scans {s s' : St} {fd : Nat} (h : s.pc.copied fd = true) (hs : Scans c s s') :
    called s .handle_timeout = some (fd, ⟨false, false, true, false⟩) ∨ s'.pc.copied fd = true := by
  cases hpc : s.pc with
  | bits i j vv k v =>
    rw [hpc, Pc.copied, Bool.and_eq_true, decide_eq_true_eq] at h
    obtain ⟨hk, hbit⟩ := h
    -- A bit further down is one place nearer after the shift
    have hshift (hne : fd ≠ k) : Pc.copied (.bits i j vv (k + 1) (v <<< 1)) fd = true := by
      have heq : fd - (k + 1) + 1 = fd - k := by omega
      rw [Pc.copied, Bool.and_eq_true, decide_eq_true_eq, getMsbD_shl, heq]
      exact ⟨by omega, hbit⟩
    cases hs with
    | fire hpc' hmsb =>
      rw [hpc] at hpc'
      cases hpc'
      by_cases hfd : fd = k
      · subst hfd
        refine Or.inl ?_
        simp only [called, hpc, msb_iff, hmsb, if_true]
      · exact Or.inr (hshift hfd)
    | skip_bit hpc' hne hmsb =>
      rw [hpc] at hpc'
      cases hpc'
      refine Or.inr (hshift fun hfd => ?_)
      subst hfd
      rw [Nat.sub_self, hmsb] at hbit
      exact Bool.false_ne_true hbit
    | end_bits hpc' hv =>
      rw [hpc] at hpc'
      cases hpc'
      rw [hv, BitVec.getMsbD_zero] at hbit
      exact absurd hbit Bool.false_ne_true
    | enter hpc' hdue => rw [hpc] at hpc'; cases hpc'
    | leave hpc' hdue => rw [hpc] at hpc'; cases hpc'
    | short hpc' hi hvv => rw [hpc] at hpc'; cases hpc'
    | skip_short hpc' hi hvv => rw [hpc] at hpc'; cases hpc'
    | advance hpc' hi => rw [hpc] at hpc'; cases hpc'
    | word hpc' hmsb => rw [hpc] at hpc'; cases hpc'
    | skip_word hpc' hvv hmsb => rw [hpc] at hpc'; cases hpc'
    | end_words hpc' hvv => rw [hpc] at hpc'; cases hpc'
  | idle => rw [hpc] at h; exact absurd h Bool.false_ne_true
  | poll es => rw [hpc] at h; exact absurd h Bool.false_ne_true
  | rounds => rw [hpc] at h; exact absurd h Bool.false_ne_true
  | shorts i => rw [hpc] at h; exact absurd h Bool.false_ne_true
  | words i j vv => rw [hpc] at h; exact absurd h Bool.false_ne_true

theorem scanning_of_copied {pc : Pc} {fd : Nat} (h : pc.copied fd = true) :
    pc.scanning = true := by
  cases pc with
  | bits i j vv k v => rfl
  | _ => exact absurd h Bool.false_ne_true

/-- Only its own call takes a descriptor out of the copy. -/
theorem copied_step {s s' : St} {a : Act} {fd : Nat} (h : s.pc.copied fd = true)
    (hs : step c s a = some s') :
    called s a = some (fd, ⟨false, false, true, false⟩) ∨ s'.pc.copied fd = true := by
  by_cases ha : a.moves = false
  · exact Or.inr (by rw [(still_of_call hs ha).pc]; exact h)
  have hscan := scanning_of_copied h
  cases a with
  | loop_once now events =>
    obtain ⟨⟨hpc, -⟩, -⟩ := eq_of_guard hs
    rw [hpc] at hscan
    exact absurd hscan Bool.false_ne_true
  | interrupted now =>
    obtain ⟨hpc, -⟩ := eq_of_guard hs
    rw [hpc] at hscan
    exact absurd hscan Bool.false_ne_true
  | poll =>
    obtain ⟨event, events, hpc, -⟩ := poll_eq hs
    rw [hpc] at hscan
    exact absurd hscan Bool.false_ne_true
  | polled now =>
    obtain ⟨hpc, -⟩ := eq_of_guard hs
    rw [hpc] at hscan
    exact absurd hscan Bool.false_ne_true
  | handle_timeout => exact copied_scans h (scans_of_step hs)
  | _ => exact absurd rfl ha

/-- Once its bit is in the copy, a descriptor is called, whatever handlers do in
between: deleting it or changing its timeout does not help. -/
theorem copied_is_called {s t : St} {bs : List Act} {fd : Nat} (h : s.pc.copied fd = true)
    (hrun : Trace.run (step c) s bs = some t) (hout : t.pc.copied fd = false) :
    ∃ xs a ys u, bs = xs ++ a :: ys ∧ Trace.run (step c) s xs = some u ∧
      called u a = some (fd, ⟨false, false, true, false⟩) := by
  induction bs generalizing s with
  | nil =>
    rw [Trace.run_nil, Option.some.injEq] at hrun
    rw [hrun, hout] at h
    exact absurd h Bool.false_ne_true
  | cons b bs ih =>
    obtain ⟨s', hs', hrest⟩ := Trace.run_cons_iff.1 hrun
    rcases copied_step h hs' with hcall | hcopied
    · exact ⟨[], b, bs, s, rfl, rfl, hcall⟩
    · obtain ⟨xs, a, ys, u, rfl, hxs, hcall⟩ := ih hcopied hrest
      exact ⟨b :: xs, a, ys, u, rfl, Trace.run_cons_iff.2 ⟨s', hs', hxs⟩, hcall⟩

/-- The handler of 5 deletes 9, which is called a few steps later. -/
theorem copied_is_called_deleted : ∃ s t,
    Trace.run (step jega) (picoev_create_loop 0 0)
      (.add 9 ⟨true, false⟩ 1 :: two_due ++ .replicate 27 .handle_timeout) = some s ∧
    Trace.run (step jega) s (.del 9 :: .replicate 4 .handle_timeout) = some t ∧
    ∃ xs a ys u, .del 9 :: .replicate 4 .handle_timeout = xs ++ a :: ys ∧
      Trace.run (step jega) s xs = some u ∧
      called u a = some (9, ⟨false, false, true, false⟩) := by
  have h : (Trace.run (step jega) (picoev_create_loop 0 0)
      (.add 9 ⟨true, false⟩ 1 :: two_due ++ .replicate 27 .handle_timeout)).any (fun s =>
        s.pc.copied 9 && (Trace.run (step jega) s (.del 9 :: .replicate 4 .handle_timeout)).any
          (fun t => !t.pc.copied 9)) = true := by
    decide +kernel
  obtain ⟨s, hs, hp⟩ := Trace.run_any h
  rw [Bool.and_eq_true] at hp
  obtain ⟨t, ht, hout⟩ := Trace.run_any hp.2
  exact ⟨s, t, hs, ht, copied_is_called hp.1 ht (Bool.not_eq_true' _ ▸ hout)⟩

end Jega.Picoev
