import Jega.Picoev.Model

/-!
# Jega.Picoev.Calls — what the calls into picoev change

One lemma for each function and each part of the state: the slots of the table,
the rows of the timeout bitmaps, the events the kernel watches. No call moves
the loop or its clock (`Still`).
-/

namespace Jega.Picoev

open Io (Events Revents)
open Bits

variable {c : Config}

/-! ## The loop stands still -/

/-- The loop and its clock are where they were. -/
structure Still (s s' : St) : Prop where
  pc : s'.pc = s.pc
  base_idx : s'.base_idx = s.base_idx
  base_time : s'.base_time = s.base_time
  now : s'.now = s.now

theorem Still.refl (s : St) : Still s s := ⟨rfl, rfl, rfl, rfl⟩

theorem Still.trans {s t u : St} (h : Still s t) (h' : Still t u) : Still s u where
  pc := h'.pc.trans h.pc
  base_idx := h'.base_idx.trans h.base_idx
  base_time := h'.base_time.trans h.base_time
  now := h'.now.trans h.now

theorem still_clear_timeout (s : St) (fd : Nat) : Still s (clear_timeout s fd) := by
  rw [clear_timeout]
  split
  · exact ⟨rfl, rfl, rfl, rfl⟩
  · exact Still.refl s

theorem still_set_timeout (s : St) (fd : Nat) (secs : Int) :
    Still s (picoev_set_timeout c s fd secs) := by
  rw [picoev_set_timeout]
  split
  · exact (still_clear_timeout s fd).trans ⟨rfl, rfl, rfl, rfl⟩
  · exact still_clear_timeout s fd

/-! ## The table -/

/-- `epoll_ctl` touches the kernel's set only. -/
theorem epoll_ctl_eq {s s' : St} {op : EpollCtl} {fd : Nat} {events : Events}
    (h : epoll_ctl s op fd events = some s') : s' = { s with interest := s'.interest } := by
  unfold epoll_ctl at h
  split at h
  · -- ADD
    cases h
    rfl
  · -- MOD
    cases h
    rfl
  · -- DEL
    cases h
    rfl
  · exact absurd h (by simp)

theorem epoll_ctl_getD_eq (s : St) (op : EpollCtl) (fd : Nat) (events : Events) :
    (epoll_ctl s op fd events).getD s =
      { s with interest := ((epoll_ctl s op fd events).getD s).interest } := by
  cases h : epoll_ctl s op fd events with
  | none => rfl
  | some s' => exact epoll_ctl_eq h

/-- What `picoev_update_events_internal` asks of the kernel. -/
def updated_interest (s : St) (fd : Nat) (events : Events) (del : Bool) : Nat → Option Events :=
  (picoev_update_events_internal s fd events del).interest

theorem update_events_eq (s : St) (fd : Nat) (events : Events) (del : Bool) :
    picoev_update_events_internal s fd events del =
      { s with
        fds := Function.update s.fds fd { s.fds fd with events := events }
        interest := updated_interest s fd events del } := by
  rw [updated_interest, picoev_update_events_internal]
  by_cases hev : events = (s.fds fd).events
  · rw [if_pos hev, hev, Function.update_eq_self]
  rw [if_neg hev]
  cases del with
  | true => rfl
  | false =>
    by_cases hnone : events = ⟨false, false⟩
    · simp only [Bool.false_eq_true, if_false, if_pos hnone]
      rw [epoll_ctl_getD_eq]
    · simp only [Bool.false_eq_true, if_false, if_neg hnone]
      cases hmod : epoll_ctl s .MOD fd events with
      | some s' =>
        simp only
        rw [epoll_ctl_eq hmod]
      | none =>
        simp only
        rw [epoll_ctl_getD_eq]

theorem still_update_events (s : St) (fd : Nat) (events : Events) (del : Bool) :
    Still s (picoev_update_events_internal s fd events del) := by
  rw [update_events_eq]
  exact ⟨rfl, rfl, rfl, rfl⟩

/-- Only the events of a slot change. -/
theorem update_events_fds (s : St) (fd : Nat) (events : Events) (del : Bool) (x : Nat) :
    ((picoev_update_events_internal s fd events del).fds x).loop_id = (s.fds x).loop_id ∧
      ((picoev_update_events_internal s fd events del).fds x).timeout_idx =
        (s.fds x).timeout_idx := by
  rw [update_events_eq]
  dsimp only
  by_cases hx : x = fd
  · subst hx
    rw [Function.update_self]
    exact ⟨rfl, rfl⟩
  · rw [Function.update_of_ne hx]
    exact ⟨rfl, rfl⟩

/-- The slot a call leaves in the table. -/
theorem set_timeout_fds (s : St) (fd : Nat) (secs : Int) :
    (picoev_set_timeout c s fd secs).fds = Function.update s.fds fd
      { s.fds fd with
        timeout_idx := if secs = 0 then 255 else timeout_slot c s secs } := by
  have hclear : (clear_timeout s fd).fds =
      Function.update s.fds fd
        { s.fds fd with timeout_idx := PICOEV_TIMEOUT_IDX_UNUSED } := by
    rw [clear_timeout]
    split
    · rfl
    · rename_i h
      rw [not_not] at h
      rw [← h, Function.update_eq_self]
  have hslot : timeout_slot c (clear_timeout s fd) secs = timeout_slot c s secs := by
    have hstill := still_clear_timeout s fd
    rw [timeout_slot, timeout_slot, delta, delta, hstill.base_idx, hstill.base_time, hstill.now]
  rw [picoev_set_timeout]
  by_cases hsecs : secs = 0
  · simp only [hsecs, ne_eq, not_true_eq_false, if_false, if_true]
    exact hclear
  · simp only [ne_eq, hsecs, not_false_eq_true, if_true, if_false]
    change Function.update (clear_timeout s fd).fds fd _ = _
    rw [hclear, Function.update_idem, Function.update_self, hslot]

theorem clear_timeout_unused {s : St} {fd : Nat}
    (h : (s.fds fd).timeout_idx = PICOEV_TIMEOUT_IDX_UNUSED) : clear_timeout s fd = s := by
  rw [clear_timeout, if_neg (not_not.2 h)]

/-- The slot that `picoev_add` leaves. -/
theorem add_fds (s : St) (fd : Nat) (events : Events) (secs : Int) :
    (picoev_add c s fd events secs).fds = Function.update s.fds fd
      ⟨loop_id, events, if secs = 0 then 255 else timeout_slot c s secs⟩ := by
  have hslot : timeout_slot c (picoev_update_events_internal (fresh s fd) fd events false) secs =
      timeout_slot c s secs := by
    rw [update_events_eq]
    rfl
  rw [picoev_add, set_timeout_fds, hslot, update_events_eq]
  dsimp only [fresh]
  rw [Function.update_self, Function.update_self, Function.update_idem, Function.update_idem]

/-- `picoev_add` finds no timeout to clear. -/
theorem add_eq (s : St) (fd : Nat) (events : Events) (secs : Int) :
    picoev_add c s fd events secs =
      if secs ≠ 0 then
        arm_timeout c (picoev_update_events_internal (fresh s fd) fd events false) fd secs
      else picoev_update_events_internal (fresh s fd) fd events false := by
  have hclear : clear_timeout (picoev_update_events_internal (fresh s fd) fd events false) fd =
      picoev_update_events_internal (fresh s fd) fd events false := by
    apply clear_timeout_unused
    rw [update_events_eq]
    dsimp only [fresh]
    rw [Function.update_self, Function.update_self]
  rw [picoev_add, picoev_set_timeout, hclear]

theorem del_fds (s : St) (fd : Nat) : ((picoev_del c s fd).fds fd).loop_id = 0 := by
  rw [picoev_del]
  dsimp only
  rw [Function.update_self]

theorem del_fds_ne (s : St) {fd x : Nat} (hx : x ≠ fd) :
    (picoev_del c s fd).fds x = s.fds x := by
  rw [picoev_del]
  dsimp only
  rw [Function.update_of_ne hx, set_timeout_fds, Function.update_of_ne hx, update_events_eq]
  exact Function.update_of_ne hx _ _

/-- The kernel's part of the state is as it was. -/
structure SameKernel (s s' : St) : Prop where
  opened : s'.opened = s.opened
  interest : s'.interest = s.interest
  stale : s'.stale = s.stale

theorem clear_timeout_kernel (s : St) (fd : Nat) : SameKernel s (clear_timeout s fd) := by
  rw [clear_timeout]
  split
  all_goals exact ⟨rfl, rfl, rfl⟩

theorem set_timeout_kernel (s : St) (fd : Nat) (secs : Int) :
    SameKernel s (picoev_set_timeout c s fd secs) := by
  have hclear := clear_timeout_kernel s fd
  rw [picoev_set_timeout]
  split
  · exact ⟨hclear.opened, hclear.interest, hclear.stale⟩
  · exact hclear

/-! ## The rows -/

/-- The two levels of slot `idx`. -/
def St.row (s : St) (idx : Nat) : Row PICOEV_SHORT_BITS := ⟨s.vec idx, s.vec_of_vec idx⟩

theorem write_apply {α : Type} (arr : Nat → Nat → α) (i j : Nat) (x : α) (i' : Nat) :
    write arr i j x i' = if i' = i then Function.update (arr i') j x else arr i' := by
  rw [write]
  by_cases h : i' = i
  · subst h
    rw [Function.update_self, if_pos rfl]
  · rw [Function.update_of_ne h, if_neg h]

theorem clear_timeout_row {s : St} {fd : Nat}
    (h : (s.fds fd).timeout_idx ≠ PICOEV_TIMEOUT_IDX_UNUSED) (idx : Nat) :
    (clear_timeout s fd).row idx =
      if idx = (s.fds fd).timeout_idx then (s.row idx).erase fd else s.row idx := by
  rw [clear_timeout, if_pos h, St.row, St.row]
  by_cases hidx : idx = (s.fds fd).timeout_idx
  · subst hidx
    simp only [write_apply, if_true, Row.erase]
    split <;> simp [write_apply]
  · simp only [write_apply, if_neg hidx]
    split <;> simp [write_apply, hidx]

theorem arm_timeout_row (s : St) (fd : Nat) (secs : Int) (idx : Nat) :
    (arm_timeout c s fd secs).row idx =
      if idx = timeout_slot c s secs then (s.row idx).insert fd else s.row idx := by
  rw [arm_timeout, St.row, St.row]
  by_cases hidx : idx = timeout_slot c s secs
  · subst hidx
    simp only [write_apply, if_true, Row.insert]
  · simp only [write_apply, if_neg hidx]

end Jega.Picoev
