import Jega.Io.Arguments

/-!
# Jega.Io.Readers — readers and writers as a map

What the readers and writers are for: each descriptor has an optional reader and
an optional writer, and the one that was added first stays until it is removed.
The loop has the map in its slots and in the arguments these point to, for any
set of descriptors that waits and DNS leave alone.

## Main result

* `registry_refines_map`: every sequence of additions and removals does to the
  slots what it does to the map.
-/

namespace Jega.Io.Registry

open Trace

/-! ## The map -/

/-- The reader and the writer of each descriptor. -/
abbrev Map := Slot → Callbacks

/-- An addition does not overwrite. -/
def Map.apply (m : Map) : Act → Map
  | .add_reader fd cb _ _ => Function.update m fd ((m fd).1.or (some cb), (m fd).2)
  | .add_writer fd cb _ _ => Function.update m fd ((m fd).1, (m fd).2.or (some cb))
  | .remove_reader fd _ => Function.update m fd (none, (m fd).2)
  | .remove_writer fd _ => Function.update m fd ((m fd).1, none)
  | _ => m

/-- The map after a sequence of additions and removals. -/
def Map.after (m : Map) (as : List Act) : Map := as.foldl Map.apply m

/-- The map of a new loop, with the reader of its self-pipe. -/
def self_pipe (ssock : Slot) : Map :=
  Function.update (fun _ => (none, none)) ssock (some read_from_self, none)

/-- The events that the callbacks are for. -/
def Callbacks.events (cbs : Callbacks) : Events := ⟨cbs.1.isSome, cbs.2.isSome⟩

/-- Readers and writers are added to or removed from one of the descriptors. -/
def Registers (D : Set Slot) : Act → Prop
  | .add_reader fd _ _ _ => fd ∈ D
  | .add_writer fd _ _ _ => fd ∈ D
  | .remove_reader fd _ => fd ∈ D
  | .remove_writer fd _ => fd ∈ D
  | _ => False

/-! ## The slots -/

/-- The slot has these callbacks. -/
structure Shows (mem : Addr → Cell) (target : picoev_fd (Option Handler) Addr) (cbs : Callbacks) :
    Prop where
  active : picoev_is_active loop_id target = (cbs.1.isSome || cbs.2.isSome)
  events : target.events = cbs.events
  callback : picoev_is_active loop_id target = true → target.callback = some .fd_callback
  cb_arg : picoev_is_active loop_id target = true →
    mem target.cb_arg = .callback_arg cbs.1 cbs.2

/-- The descriptors of `D` are as the map has them, each registered one with an
argument of its own, and all registered descriptors are counted. -/
structure Represents (D : Set Slot) (s : St) (m : Map) : Prop where
  slot : ∀ fd ∈ D, Shows s.mem (s.fds fd) (m fd)
  lt : ∀ fd ∈ D, active s fd = true → (s.fds fd).cb_arg < s.next
  apart : ∀ fd ∈ D, ∀ fd' ∈ D, active s fd = true → active s fd' = true →
    (s.fds fd).cb_arg = (s.fds fd').cb_arg → fd = fd'
  counted : s.ioactivecnt.toNat = (registered s).card
  postfork : s.postfork = false

section Represents

variable {D : Set Slot} {s s' : St} {m : Map} {fd : Slot}

/-- The slot of one descriptor is written. -/
theorem Represents.put (h : Represents D s m) {target : picoev_fd (Option Handler) Addr}
    {cbs : Callbacks} (hfds : s'.fds = Function.update s.fds fd target)
    (hshows : Shows s'.mem target cbs)
    (hmem : ∀ x ∈ D, x ≠ fd → active s x = true →
      s'.mem (s.fds x).cb_arg = s.mem (s.fds x).cb_arg ∧ (s.fds x).cb_arg < s'.next)
    (harg : picoev_is_active loop_id target = true →
      target.cb_arg < s'.next ∧ ∀ x ∈ D, x ≠ fd → active s x = true →
        (s.fds x).cb_arg ≠ target.cb_arg)
    (hcounted : s'.ioactivecnt.toNat = (registered s').card) (hfork : s'.postfork = false) :
    Represents D s' (Function.update m fd cbs) where
  slot := by
    intro x hx
    rw [hfds]
    by_cases hxf : x = fd
    · subst hxf
      rw [Function.update_self, Function.update_self]
      exact hshows
    · rw [Function.update_of_ne hxf, Function.update_of_ne hxf]
      have hslot := h.slot x hx
      refine ⟨hslot.active, hslot.events, hslot.callback, fun hact => ?_⟩
      rw [(hmem x hx hxf hact).1]
      exact hslot.cb_arg hact
  lt := by
    intro x hx hact
    rw [active_update hfds] at hact
    rw [hfds]
    by_cases hxf : x = fd
    · rw [if_pos hxf] at hact
      rw [hxf, Function.update_self]
      exact (harg hact).1
    · rw [if_neg hxf] at hact
      rw [Function.update_of_ne hxf]
      exact (hmem x hx hxf hact).2
  apart := by
    intro x hx y hy hactx hacty heq
    rw [active_update hfds] at hactx hacty
    rw [hfds] at heq
    by_cases hxf : x = fd
    · by_cases hyf : y = fd
      · exact hxf.trans hyf.symm
      · rw [if_pos hxf] at hactx
        rw [if_neg hyf] at hacty
        rw [hxf, Function.update_self, Function.update_of_ne hyf] at heq
        exact absurd heq.symm ((harg hactx).2 y hy hyf hacty)
    · rw [if_neg hxf] at hactx
      rw [Function.update_of_ne hxf] at heq
      by_cases hyf : y = fd
      · rw [if_pos hyf] at hacty
        rw [hyf, Function.update_self] at heq
        exact absurd heq ((harg hacty).2 x hx hxf hactx)
      · rw [if_neg hyf] at hacty
        rw [Function.update_of_ne hyf] at heq
        exact h.apart x hx y hy hactx hacty heq
  counted := hcounted
  postfork := hfork

/-- The registered descriptors are those that have a reader or a writer. -/
theorem Represents.active_iff (h : Represents D s m) (hfd : fd ∈ D) :
    active s fd = true ↔ (m fd).1.isSome = true ∨ (m fd).2.isSome = true := by
  rw [← Bool.or_eq_true, ← (h.slot fd hfd).active]
  rfl

/-- An argument that is read has the callbacks of the map. -/
theorem Represents.callbacks_eq (h : Represents D s m) (hfd : fd ∈ D) (hact : active s fd = true)
    (garbage : Callbacks) : callbacks s.mem garbage (s.fds fd).cb_arg = m fd := by
  rw [callbacks, (h.slot fd hfd).cb_arg hact]

theorem Represents.live (h : Represents D s m) (hfd : fd ∈ D) (hact : active s fd = true) :
    SlotOwned s fd := ⟨_, _, (h.slot fd hfd).cb_arg hact⟩

/-- Without a fork an addition or a removal keeps the count. -/
theorem Represents.counted_step (h : Represents D s m) {a : Act} (hs : step s a = some s')
    (ha : Registers D a) : s'.ioactivecnt.toNat = (registered s').card := by
  have hc := step_change hs
  rw [hc.ioactivecnt, hc.registered]
  cases hchange : change s a with
  | keep => exact h.counted
  | register x => exact counted_register h.counted (change_new s a x hchange)
  | unregister x =>
    rcases change_unregister hs hchange with ⟨g, switch_arg, hresume, _⟩ | hmem
    · rw [hresume] at ha
      exact ha.elim
    · exact (counted_unregister_iff h.counted).2 hmem
  | restart pipe x =>
    cases a with
    | add_reader _ _ _ _ | add_writer _ _ _ _ =>
      simp only [change, h.postfork, Bool.false_eq_true, if_false, registers] at hchange
      split at hchange <;> cases hchange
    | remove_reader _ _ | remove_writer _ _ =>
      simp only [change] at hchange
      split at hchange <;> cases hchange
    | _ => exact ha.elim

/-- The argument of a registered descriptor gets other callbacks, and its events
follow. -/
theorem Represents.write (h : Represents D s m) (hfd : fd ∈ D) (hact : active s fd = true)
    {cbs : Callbacks} (hsome : (cbs.1.isSome || cbs.2.isSome) = true)
    (hcounted : s'.ioactivecnt.toNat = (registered s').card)
    (hs' : s' =
      { s with
        mem := set_callbacks s.mem (s.fds fd).cb_arg cbs
        fds := Function.update s.fds fd (picoev_set_events (s.fds fd) cbs.events) }) :
    Represents D s' (Function.update m fd cbs) := by
  have hslot := h.slot fd hfd
  have hact' : picoev_is_active loop_id (s.fds fd) = true := hact
  have hmem : s'.mem =
      Function.update s.mem (s.fds fd).cb_arg (.callback_arg cbs.1 cbs.2) := by
    rw [hs', ← set_callbacks_live (h.live hfd hact)]
  have hother : ∀ x ∈ D, x ≠ fd → active s x = true → (s.fds x).cb_arg ≠ (s.fds fd).cb_arg := by
    intro x hx hne hxact heq
    exact hne (h.apart x hx fd hfd hxact hact heq)
  subst hs'
  refine h.put rfl ⟨hact'.trans hsome.symm, rfl, fun _ => hslot.callback hact', fun _ => ?_⟩ ?_ ?_
    hcounted h.postfork
  · show _ = _
    rw [hmem]
    exact Function.update_self _ _ _
  · intro x hx hne hxact
    refine ⟨?_, h.lt x hx hxact⟩
    rw [hmem, Function.update_of_ne (hother x hx hne hxact)]
  · exact fun _ => ⟨h.lt fd hfd hact, hother⟩

/-- A registered descriptor is deleted with its argument. -/
theorem Represents.destroy (h : Represents D s m) (hfd : fd ∈ D) (hact : active s fd = true)
    (hcounted : s'.ioactivecnt.toNat = (registered s').card)
    (hs' : s' = destroy_callback_arg (del s fd) (s.fds fd).cb_arg) :
    Represents D s' (Function.update m fd (none, none)) := by
  have hdel : picoev_is_active loop_id (picoev_del (s.fds fd)) = false := by
    simp [picoev_is_active, picoev_del, loop_id]
  have hnot : ¬ picoev_is_active loop_id (picoev_del (s.fds fd)) = true := by
    rw [hdel]
    exact Bool.false_ne_true
  subst hs'
  refine h.put rfl ⟨hdel, rfl, fun hd => absurd hd hnot, fun hd => absurd hd hnot⟩ ?_
    (fun hd => absurd hd hnot) hcounted h.postfork
  intro x hx hne hxact
  refine ⟨Function.update_of_ne ?_ _ _, h.lt x hx hxact⟩
  intro heq
  exact hne (h.apart x hx fd hfd hxact hact heq)

/-! ## Additions -/

/-- An argument that was allocated and is in no slot. -/
theorem Represents.unused_arg (h : Represents D s m) (cell : Cell) :
    Represents D { s with mem := Function.update s.mem s.next cell, next := s.next + 1 } m where
  slot := by
    intro x hx
    have hslot := h.slot x hx
    refine ⟨hslot.active, hslot.events, hslot.callback, fun hact => ?_⟩
    have hlt := h.lt x hx hact
    show Function.update s.mem s.next cell (s.fds x).cb_arg = _
    rw [Function.update_of_ne (Nat.ne_of_lt hlt)]
    exact hslot.cb_arg hact
  lt := fun x hx hact => Nat.lt_succ_of_lt (h.lt x hx hact)
  apart := h.apart
  counted := h.counted
  postfork := h.postfork

/-- `merge_callback_arg` of callbacks that are not all there. -/
theorem merge_eq (orig : Callbacks) {cbs : Callbacks} (hone : One cbs) :
    (∀ merged, merge_callback_arg orig.1 cbs.1 cbs.2 orig.2 = some merged →
      merged = (orig.1.or cbs.1, orig.2.or cbs.2) ∧
        (orig.1.isSome = true ∨ orig.2.isSome = true → merged.1.isSome = true ∧
          merged.2.isSome = true)) ∧
    (merge_callback_arg orig.1 cbs.1 cbs.2 orig.2 = none →
      orig = (orig.1.or cbs.1, orig.2.or cbs.2)) := by
  obtain ⟨read, write⟩ := cbs
  obtain ⟨orig_read, orig_write⟩ := orig
  cases read with
  | some cb =>
    cases write with
    | some cb' => cases hone
    | none => cases orig_read <;> simp [merge_callback_arg]
  | none =>
    cases write with
    | some cb => cases orig_write <;> simp [merge_callback_arg]
    | none => cases hone

/-- `register` does not overwrite. -/
theorem Represents.register (h : Represents D s m) (hfd : fd ∈ D) {cbs garbage : Callbacks}
    (hone : One cbs)
    (hcounted : (Registry.register s fd cbs.events cbs garbage).ioactivecnt.toNat =
      (registered (Registry.register s fd cbs.events cbs garbage)).card) :
    Represents D (Registry.register s fd cbs.events cbs garbage)
      (Function.update m fd ((m fd).1.or cbs.1, (m fd).2.or cbs.2)) := by
  have h₁ : Represents D (made s cbs) m := h.unused_arg _
  cases hact : active s fd with
  | false =>
    -- Case: the descriptor is added with the new argument
    have hnot : ¬ picoev_is_active loop_id (s.fds fd) = true := by
      rw [Bool.not_eq_true]
      exact hact
    have hreg : Registry.register s fd cbs.events cbs garbage =
        { made s cbs with
          fds :=
            Function.update s.fds fd (picoev_add loop_id cbs.events 0 (some .fd_callback) s.next)
          ioactivecnt := s.ioactivecnt + 1 } := if_neg hnot
    have hnone : m fd = (none, none) := by
      have hslot := (h.slot fd hfd).active
      rw [show picoev_is_active loop_id (s.fds fd) = false from hact, eq_comm,
        Bool.or_eq_false_iff, Option.isSome_eq_false_iff, Option.isSome_eq_false_iff,
        Option.isNone_iff_eq_none, Option.isNone_iff_eq_none] at hslot
      exact Prod.ext hslot.1 hslot.2
    rw [hreg] at hcounted ⊢
    rw [hnone, Option.none_or, Option.none_or]
    refine h₁.put rfl ⟨?_, rfl, fun _ => rfl, fun _ => ?_⟩ ?_ ?_ hcounted h.postfork
    · have hsome : (cbs.1.isSome || cbs.2.isSome) = true := by
        rw [hone, Bool.not_or_self]
      rw [hsome]
      exact decide_eq_true rfl
    · exact Function.update_self _ _ _
    · exact fun x hx _ hx' => ⟨rfl, h₁.lt x hx hx'⟩
    · exact fun _ => ⟨Nat.lt_succ_self _, fun x hx _ hx' => Nat.ne_of_lt (h.lt x hx hx')⟩
  | true =>
    have hcbs := h₁.callbacks_eq hfd hact garbage
    rw [made_fds] at hcbs
    obtain ⟨hmerged, hsame⟩ := merge_eq (m fd) hone
    cases hm : merge_callback_arg (m fd).1 cbs.1 cbs.2 (m fd).2 with
    | none =>
      -- Case: "Not allow overwrite"
      rw [register_refused hact cbs.events (hcbs.symm ▸ hm), ← hsame hm, Function.update_eq_self]
      exact h₁
    | some merged =>
      obtain ⟨heq, hboth⟩ := hmerged merged hm
      obtain ⟨hread, hwrite⟩ := hboth ((h.active_iff hfd).1 hact)
      have hevents : Callbacks.events merged = ⟨true, true⟩ := by
        rw [Callbacks.events, hread, hwrite]
      rw [register_merged hact cbs.events (hcbs.symm ▸ hm)] at hcounted ⊢
      rw [← heq]
      refine h₁.write hfd hact ?_ hcounted ?_
      · rw [hread, Bool.true_or]
      · rw [hevents]
        rfl

/-! ## Removals -/

/-- A descriptor that is not registered has no callbacks. -/
theorem Represents.none_of_inactive (h : Represents D s m) (hfd : fd ∈ D)
    (hact : ¬ active s fd = true) : m fd = (none, none) := by
  rw [h.active_iff hfd, not_or, Option.not_isSome_iff_eq_none, Option.not_isSome_iff_eq_none] at hact
  exact Prod.ext hact.1 hact.2

theorem Represents.remove_reader (h : Represents D s m) (hfd : fd ∈ D) {garbage : Callbacks}
    (hcounted : (LoopObject_remove_reader s fd garbage).ioactivecnt.toNat =
      (registered (LoopObject_remove_reader s fd garbage)).card) :
    Represents D (LoopObject_remove_reader s fd garbage)
      (Function.update m fd (none, (m fd).2)) := by
  unfold LoopObject_remove_reader at hcounted ⊢
  by_cases hact : active s fd = true
  · simp only [hact, if_true, h.callbacks_eq hfd hact garbage] at hcounted ⊢
    cases hw : (m fd).2 with
    | some cb =>
      rw [hw] at hcounted
      exact h.write hfd hact rfl hcounted rfl
    | none =>
      rw [hw] at hcounted
      exact h.destroy hfd hact hcounted rfl
  · rw [if_neg hact, h.none_of_inactive hfd hact, ← h.none_of_inactive hfd hact,
      Function.update_eq_self]
    exact h

theorem Represents.remove_writer (h : Represents D s m) (hfd : fd ∈ D) {garbage : Callbacks}
    (hcounted : (LoopObject_remove_writer s fd garbage).ioactivecnt.toNat =
      (registered (LoopObject_remove_writer s fd garbage)).card) :
    Represents D (LoopObject_remove_writer s fd garbage)
      (Function.update m fd ((m fd).1, none)) := by
  unfold LoopObject_remove_writer at hcounted ⊢
  by_cases hact : active s fd = true
  · simp only [hact, if_true, h.callbacks_eq hfd hact garbage] at hcounted ⊢
    cases hr : (m fd).1 with
    | some cb =>
      rw [hr] at hcounted
      exact h.write hfd hact rfl hcounted rfl
    | none =>
      rw [hr] at hcounted
      exact h.destroy hfd hact hcounted rfl
  · rw [if_neg hact, h.none_of_inactive hfd hact, ← h.none_of_inactive hfd hact,
      Function.update_eq_self]
    exact h

/-! ## Runs -/

/-- Without a fork the loop stays. -/
theorem Represents.register_fd_callback_eq (h : Represents D s m) (fd : Slot) (event : Events)
    (cbs garbage : Callbacks) (ssock : Slot) :
    register_fd_callback s fd event cbs garbage ssock =
      Registry.register s fd event cbs garbage := by
  have hsame : call_fork_loop s ssock = s := by
    simp only [call_fork_loop, h.postfork, Bool.false_eq_true, if_false]
  rw [register_fd_callback, hsame]

theorem represents_step {a : Act} (h : Represents D s m) (ha : Registers D a)
    (hs : step s a = some s') : Represents D s' (m.apply a) := by
  have hcounted := h.counted_step hs ha
  cases a with
  | add_reader fd cb garbage ssock =>
    cases hs
    have hreg := h.register_fd_callback_eq fd ⟨true, false⟩ (some cb, none) garbage ssock
    have hone : One (some cb, none) := rfl
    simp only [LoopObject_add_reader, hreg] at hcounted ⊢
    have hput := h.register ha hone hcounted
    rwa [Option.or_none] at hput
  | add_writer fd cb garbage ssock =>
    cases hs
    have hreg := h.register_fd_callback_eq fd ⟨false, true⟩ (none, some cb) garbage ssock
    have hone : One (none, some cb) := rfl
    simp only [LoopObject_add_writer, hreg] at hcounted ⊢
    have hput := h.register ha hone hcounted
    rwa [Option.or_none] at hput
  | remove_reader fd garbage =>
    cases hs
    exact h.remove_reader ha hcounted
  | remove_writer fd garbage =>
    cases hs
    exact h.remove_writer ha hcounted
  | _ => exact ha.elim

theorem represents_run {as : List Act} {t : St} (h : Represents D s m)
    (ha : ∀ a ∈ as, Registers D a) (hrun : run step s as = some t) :
    Represents D t (m.after as) := by
  induction as generalizing s m with
  | nil =>
    cases hrun
    exact h
  | cons a as ih =>
    obtain ⟨s', hs, hrest⟩ := run_cons_iff.1 hrun
    have h' := represents_step h (ha a List.mem_cons_self) hs
    exact ih h' (fun b hb => ha b (List.mem_cons_of_mem a hb)) hrest

end Represents

/-- Other descriptors are registered for waits and DNS. -/
def Others (D : Set Slot) : Act → Prop
  | .io_trampoline _ fd _ _ => fd ∉ D
  | .add_event fd _ _ => fd ∉ D
  | _ => False

/-- The slot of another descriptor is written, and no argument of the map. -/
theorem Represents.put_other {D : Set Slot} {s s' : St} {m : Map} (h : Represents D s m) {fd : Slot}
    (hfd : fd ∉ D) {target : picoev_fd (Option Handler) Addr}
    (hfds : s'.fds = Function.update s.fds fd target)
    (hmem : ∀ a < s.next, s'.mem a = s.mem a) (hnext : s.next ≤ s'.next)
    (hc : Changed s s' (registers s fd)) (hfork : s'.postfork = s.postfork) : Represents D s' m := by
  have hsame : ∀ x ∈ D, s'.fds x = s.fds x := by
    intro x hx
    have hne : x ≠ fd := by
      rintro rfl
      exact hfd hx
    rw [hfds, Function.update_of_ne hne]
  have hact : ∀ x ∈ D, active s' x = active s x := by
    intro x hx
    unfold active
    rw [hsame x hx]
  refine ⟨?_, ?_, ?_, ?_, hfork.trans h.postfork⟩
  · intro x hx
    have hslot := h.slot x hx
    rw [hsame x hx]
    refine ⟨hslot.active, hslot.events, hslot.callback, fun hxact => ?_⟩
    rw [hmem _ (h.lt x hx hxact)]
    exact hslot.cb_arg hxact
  · intro x hx hxact
    rw [hact x hx] at hxact
    rw [hsame x hx]
    exact Nat.lt_of_lt_of_le (h.lt x hx hxact) hnext
  · intro x hx y hy hxact hyact heq
    rw [hact x hx] at hxact
    rw [hact y hy] at hyact
    rw [hsame x hx, hsame y hy] at heq
    exact h.apart x hx y hy hxact hyact heq
  · rw [hc.ioactivecnt, hc.registered]
    unfold registers
    split
    · exact h.counted
    next hnot =>
      refine counted_register h.counted ?_
      rw [mem_registered]
      exact hnot

/-- Waits and DNS on other descriptors leave the map alone. -/
theorem represents_others {D : Set Slot} {s s' : St} {m : Map} {a : Act} (h : Represents D s m)
    (ha : Others D a) (hs : step s a = some s') : Represents D s' m := by
  have hc := step_change hs
  cases a with
  | io_trampoline g fd event timeout =>
    obtain ⟨_, heq⟩ := Option.ite_none_right_eq_some.1 hs
    cases heq
    refine h.put_other ha rfl (fun x hx => ?_) (Nat.le_succ _) hc rfl
    exact Function.update_of_ne (Nat.ne_of_lt hx) _ _
  | add_event fd event timeout =>
    cases hs
    exact h.put_other ha rfl (fun _ _ => rfl) (Nat.le_refl _) hc rfl
  | _ => exact ha.elim

theorem Represents.mono {D D' : Set Slot} {s : St} {m : Map} (h : Represents D s m) (hD : D' ⊆ D) :
    Represents D' s m where
  slot fd hfd := h.slot fd (hD hfd)
  lt fd hfd := h.lt fd (hD hfd)
  apart fd hfd fd' hfd' := h.apart fd (hD hfd) fd' (hD hfd')
  counted := h.counted
  postfork := h.postfork

/-! ## Main result -/

/-- Nothing is registered in the table of `picoev_init`. -/
theorem represents_empty {s : St} (hfds : s.fds = picoev_init) (hcnt : s.ioactivecnt = 0)
    (hfork : s.postfork = false) : Represents Set.univ s fun _ => (none, none) := by
  have hnot : ∀ fd, ¬ active s fd = true := by
    intro fd
    simp [active, hfds, picoev_init, picoev_is_active, loop_id]
  refine ⟨fun fd _ => ?_, fun fd _ hact => absurd hact (hnot fd),
    fun fd _ _ _ hact => absurd hact (hnot fd), ?_, hfork⟩
  · refine ⟨Bool.not_eq_true _ ▸ hnot fd, ?_, fun hact => absurd hact (hnot fd),
      fun hact => absurd hact (hnot fd)⟩
    rw [hfds]
    rfl
  · rw [registered_init hfds, hcnt]
    rfl

theorem represents_init (D : Set Slot) (ssock : Slot) :
    Represents D (init ssock) (self_pipe ssock) := by
  refine Represents.mono ?_ (Set.subset_univ D)
  have hone : One (some read_from_self, none) := rfl
  exact (represents_empty rfl rfl rfl).register (Set.mem_univ ssock) hone
    (init_accounted ssock).counted

/-- The slots of any descriptors that no wait or DNS socket uses are the map of
their readers and writers after every sequence of additions and removals, and
`ioactivecnt` is the number of registered descriptors. -/
theorem registry_refines_map (D : Set Slot) (ssock : Slot) :
    Represents D (init ssock) (self_pipe ssock) ∧
      ∀ s m as t, Represents D s m → (∀ a ∈ as, Registers D a) → run step s as = some t →
        Represents D t (m.after as) :=
  ⟨represents_init D ssock, fun _ _ _ _ h ha hrun => represents_run h ha hrun⟩

/-- A wait on one descriptor, and a reader and a writer of another that are
added, added again and removed. -/
theorem registry_refines_map_beside : ∃ s t,
    run step (init 5) [.io_trampoline 1 8 ⟨true, false⟩ 0] = some s ∧
      run step s [.add_reader 7 1 (none, none) 5, .add_writer 7 2 (none, none) 5,
        .add_reader 7 3 (none, none) 5, .remove_writer 7 (none, none)] = some t ∧
      Represents {fd | fd ≠ 8} t ((self_pipe 5).after [.add_reader 7 1 (none, none) 5,
        .add_writer 7 2 (none, none) 5, .add_reader 7 3 (none, none) 5,
        .remove_writer 7 (none, none)]) := by
  let s := internal_io_trampoline (init 5) 1 8 ⟨true, false⟩ 0
  have hwait : step (init 5) (.io_trampoline 1 8 ⟨true, false⟩ 0) = some s := rfl
  have hother : Others {fd | fd ≠ 8} (.io_trampoline 1 8 ⟨true, false⟩ 0) := fun h => h rfl
  have hs : Represents {fd | fd ≠ 8} s (self_pipe 5) :=
    represents_others (represents_init _ 5) hother hwait
  have hregisters : ∀ a ∈ [Act.add_reader 7 1 (none, none) 5, .add_writer 7 2 (none, none) 5,
      .add_reader 7 3 (none, none) 5, .remove_writer 7 (none, none)],
      Registers {fd | fd ≠ 8} a := by
    have h78 : (7 : Slot) ≠ 8 := by decide
    simp [Registers, h78]
  exact ⟨s, _, rfl, rfl, (registry_refines_map _ 5).2 s _ _ _ hs hregisters rfl⟩

end Jega.Io.Registry
