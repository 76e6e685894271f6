import Jega.Picoev.Passes

/-!
# Jega.Picoev.Interest — the kernel's set against the table

With deferred deletes `picoev_del` leaves the descriptor in the kernel's set, and
the first event that comes for it takes it out. The results:

* the kernel watches what the table says, exactly as long as descriptors are
  open and `Sole` when they are registered and are not closed while they are
  (`watching_iff_open`);
* an event for a descriptor that is not watched comes once, if it is `Sole`
  (`dropped_once`);
* a handler gets events it asked for, exactly as long as nobody asks for others
  on a descriptor that is ahead in the batch (`delivers_iff`).
-/

namespace Jega.Picoev

open Io (Events Revents)

variable {c : Config}

abbrev none_watched : Events := ⟨false, false⟩

/-! ## What the kernel watches -/

/-- No file that had the number before is still in the kernel's set. One is if it
has a duplicate. -/
def Sole (s : St) (fd : Nat) : Prop := s.stale fd = []

instance (s : St) (fd : Nat) : Decidable (Sole s fd) := inferInstanceAs (Decidable (_ = _))

/-- For every registered descriptor that asks for events the kernel has one entry,
with these events. -/
def Watching (s : St) : Prop :=
  ∀ fd, (s.fds fd).loop_id = loop_id → (s.fds fd).events ≠ none_watched →
    s.interest fd = some (s.fds fd).events ∧ Sole s fd

/-- The kernel watches open descriptors. -/
def OpenOnly (s : St) : Prop := ∀ fd, s.opened fd = false → s.interest fd = none

theorem epoll_ctl_interest_ne {s : St} {op : EpollCtl} {fd x : Nat} {events : Events}
    (hx : x ≠ fd) : ((epoll_ctl s op fd events).getD s).interest x = s.interest x := by
  unfold epoll_ctl
  split
  · exact Function.update_of_ne hx _ _
  · exact Function.update_of_ne hx _ _
  · exact Function.update_of_ne hx _ _
  · rfl

/-- After `EPOLL_CTL_DEL` the descriptor is not in the set. -/
theorem epoll_ctl_del {s : St} (h : OpenOnly s) (fd : Nat) (events : Events) :
    ((epoll_ctl s .DEL fd events).getD s).interest fd = none := by
  unfold epoll_ctl
  cases ho : s.opened fd with
  | false => exact h fd ho
  | true =>
    cases hi : s.interest fd with
    | none => exact hi
    | some ev => exact Function.update_self fd none s.interest

/-- What `picoev_update_events_internal` leaves in the kernel's set. -/
theorem updated_interest_self {s : St} (h : OpenOnly s) (fd : Nat) (events : Events) (del : Bool) :
    updated_interest s fd events del fd =
      if events = (s.fds fd).events ∨ del = true then s.interest fd
      else if events = none_watched ∨ s.opened fd = false then none
      else some events := by
  rw [updated_interest, picoev_update_events_internal]
  by_cases hev : events = (s.fds fd).events
  · simp only [hev, true_or, if_true]
  rw [if_neg hev]
  cases del with
  | true => simp only [or_true, if_true]
  | false =>
    simp only [hev, Bool.false_eq_true, or_self, if_false]
    by_cases hnone : events = ⟨false, false⟩
    · simp only [hnone, if_true, true_or]
      exact epoll_ctl_del h fd _
    · simp only [hnone, if_false, false_or]
      unfold epoll_ctl
      cases ho : s.opened fd with
      | false => exact h fd ho
      | true =>
        cases hi : s.interest fd with
        | none => exact Function.update_self fd _ s.interest
        | some ev => exact Function.update_self fd _ s.interest

theorem updated_interest_ne (s : St) {fd x : Nat} (hx : x ≠ fd) (events : Events) (del : Bool) :
    updated_interest s fd events del x = s.interest x := by
  rw [updated_interest, picoev_update_events_internal]
  by_cases hev : events = (s.fds fd).events
  · rw [if_pos hev]
  rw [if_neg hev]
  cases del with
  | true => rfl
  | false =>
    by_cases hnone : events = ⟨false, false⟩
    · simp only [hnone, Bool.false_eq_true, if_false, if_true]
      exact epoll_ctl_interest_ne hx
    · simp only [hnone, Bool.false_eq_true, if_false]
      cases hmod : epoll_ctl s .MOD fd events with
      | some s' =>
        have hsame : ((epoll_ctl s .MOD fd events).getD s).interest x = s.interest x :=
          epoll_ctl_interest_ne hx
        rw [hmod] at hsame
        exact hsame
      | none => exact epoll_ctl_interest_ne hx

/-! ## The calls -/

theorem add_interest (s : St) (fd : Nat) (events : Events) (secs : Int) :
    (picoev_add c s fd events secs).interest = updated_interest (fresh s fd) fd events false := by
  rw [picoev_add]
  exact (set_timeout_kernel _ fd secs).interest

theorem add_kernel (s : St) (fd : Nat) (events : Events) (secs : Int) :
    (picoev_add c s fd events secs).opened = s.opened ∧
      (picoev_add c s fd events secs).stale = s.stale := by
  have hset := set_timeout_kernel (c := c)
    (picoev_update_events_internal (fresh s fd) fd events false) fd secs
  rw [picoev_add, hset.opened, hset.stale, update_events_eq]
  exact ⟨rfl, rfl⟩

/-- `picoev_del` asks nothing of the kernel. -/
theorem del_kernel (s : St) (fd : Nat) : SameKernel s (picoev_del c s fd) := by
  have hupdate : SameKernel s (picoev_update_events_internal s fd none_watched true) := by
    rw [picoev_update_events_internal]
    split
    all_goals exact ⟨rfl, rfl, rfl⟩
  have hset := set_timeout_kernel (c := c)
    (picoev_update_events_internal s fd none_watched true) fd 0
  constructor
  · exact hset.opened.trans hupdate.opened
  · exact hset.interest.trans hupdate.interest
  · exact hset.stale.trans hupdate.stale

theorem set_events_eq (s : St) (fd : Nat) (events : Events) :
    picoev_set_events s fd events =
      { s with
        fds := Function.update s.fds fd { s.fds fd with events := events }
        interest := updated_interest s fd events false } := by
  rw [picoev_set_events]
  by_cases hev : (s.fds fd).events = events
  · have hint : updated_interest s fd events false = s.interest := by
      rw [updated_interest, picoev_update_events_internal, if_pos hev.symm]
    rw [if_neg (not_not.2 hev), hint, ← hev, Function.update_eq_self]
  · rw [if_pos hev, update_events_eq]

/-- The walk asks nothing of the kernel, and leaves the events alone. -/
theorem scans_kernel {s s' : St} (hs : Scans c s s') :
    SameKernel s s' ∧
      ∀ x, (s'.fds x).loop_id = (s.fds x).loop_id ∧ (s'.fds x).events = (s.fds x).events := by
  cases hs with
  | @fire i j k vv v hpc hmsb =>
    refine ⟨⟨rfl, rfl, rfl⟩, fun x => ?_⟩
    dsimp only
    by_cases hx : x = k
    · subst hx
      rw [Function.update_self]
      exact ⟨rfl, rfl⟩
    · rw [Function.update_of_ne hx]
      exact ⟨rfl, rfl⟩
  | _ => exact ⟨⟨rfl, rfl, rfl⟩, fun _ => ⟨rfl, rfl⟩⟩

theorem OpenOnly.update_events {s : St} (h : OpenOnly s) (fd : Nat) (events : Events)
    (del : Bool) (x : Nat) (ho : s.opened x = false) :
    updated_interest s fd events del x = none := by
  by_cases hx : x = fd
  · subst hx
    rw [updated_interest_self h]
    split
    · exact h x ho
    · rw [if_pos (Or.inr ho)]
  · rw [updated_interest_ne s hx]
    exact h x ho

theorem OpenOnly.step {s s' : St} {a : Act} (h : OpenOnly s) (hs : step c s a = some s') :
    OpenOnly s' := by
  cases a with
  | add fd events secs =>
    obtain ⟨-, rfl⟩ := eq_of_guard hs
    intro x ho
    rw [(add_kernel s fd events secs).1] at ho
    rw [add_interest]
    exact OpenOnly.update_events (s := fresh s fd) h fd events false x ho
  | del fd =>
    obtain ⟨-, rfl⟩ := eq_of_guard hs
    intro x ho
    rw [(del_kernel s fd).opened] at ho
    rw [(del_kernel s fd).interest]
    exact h x ho
  | set_events fd events =>
    obtain ⟨-, rfl⟩ := eq_of_guard hs
    rw [set_events_eq]
    exact fun x ho => h.update_events fd events false x ho
  | set_timeout fd secs =>
    obtain ⟨-, rfl⟩ := eq_of_guard hs
    intro x ho
    rw [(set_timeout_kernel s fd secs).opened] at ho
    rw [(set_timeout_kernel s fd secs).interest]
    exact h x ho
  | opens fd =>
    obtain ⟨hclosed, rfl⟩ := eq_of_guard hs
    intro x ho
    by_cases hx : x = fd
    · subst hx
      exact h x hclosed
    · dsimp only at ho
      rw [Function.update_of_ne hx] at ho
      exact h x ho
  | closes fd kept =>
    rw [Picoev.step, Option.some.injEq] at hs
    subst hs
    intro x ho
    dsimp only at ho ⊢
    by_cases hx : x = fd
    · subst hx
      exact Function.update_self x none s.interest
    · rw [Function.update_of_ne hx] at ho ⊢
      exact h x ho
  | released fd ev =>
    rw [Picoev.step, Option.some.injEq] at hs
    subst hs
    exact h
  | loop_once now events =>
    obtain ⟨-, rfl⟩ := eq_of_guard hs
    exact h
  | interrupted now =>
    obtain ⟨-, rfl⟩ := eq_of_guard hs
    exact h
  | poll =>
    obtain ⟨event, events, -, rfl⟩ := poll_eq hs
    intro x ho
    dsimp only
    rw [picoev_poll_once_internal]
    by_cases hx : x = event.fd
    · subst hx
      split
      · exact h _ ho
      · exact epoll_ctl_del (s := { s with pc := .poll events }) h _ _
    · split
      · exact h x ho
      · rw [epoll_ctl_interest_ne hx]
        exact h x ho
  | polled now =>
    obtain ⟨-, rfl⟩ := eq_of_guard hs
    exact h
  | handle_timeout =>
    have hkernel := (scans_kernel (scans_of_step hs)).1
    intro x ho
    rw [hkernel.opened] at ho
    rw [hkernel.interest]
    exact h x ho

/-! ## Watching -/

/-- Descriptors that are registered for events are open, and the only ones. -/
def Open (s : St) : Act → Prop
  | .add fd events _ => events ≠ none_watched → s.opened fd = true ∧ Sole s fd
  | .set_events fd events =>
    (s.fds fd).loop_id = loop_id → events ≠ none_watched → events ≠ (s.fds fd).events →
      s.opened fd = true ∧ Sole s fd
  | .closes fd _ => (s.fds fd).loop_id = loop_id → (s.fds fd).events = none_watched
  | _ => True

instance (s : St) : ∀ a, Decidable (Open s a)
  | .add fd events _ =>
    inferInstanceAs (Decidable (events ≠ none_watched → s.opened fd = true ∧ Sole s fd))
  | .set_events fd events => inferInstanceAs (Decidable ((s.fds fd).loop_id = loop_id →
      events ≠ none_watched → events ≠ (s.fds fd).events → s.opened fd = true ∧ Sole s fd))
  | .closes fd _ => inferInstanceAs (Decidable ((s.fds fd).loop_id = loop_id →
      (s.fds fd).events = none_watched))
  | .del _ | .set_timeout _ _ | .opens _ | .released _ _ | .loop_once _ _ | .interrupted _ | .poll
  | .polled _ | .handle_timeout => isTrue trivial

/-- Only the slot of `fd` and its entries in the kernel's set changed. -/
theorem watching_iff_at (fd : Nat) {s s' : St} (h : Watching s)
    (hfds : ∀ x, x ≠ fd → s'.fds x = s.fds x) (hint : ∀ x, x ≠ fd → s'.interest x = s.interest x)
    (hstale : ∀ x, x ≠ fd → s'.stale x = s.stale x) :
    Watching s' ↔ ((s'.fds fd).loop_id = loop_id → (s'.fds fd).events ≠ none_watched →
      s'.interest fd = some (s'.fds fd).events ∧ Sole s' fd) := by
  constructor
  · intro h'
    exact h' fd
  · intro hfd x
    by_cases hx : x = fd
    · subst hx
      exact hfd
    · rw [hfds x hx, hint x hx, Sole, hstale x hx]
      exact h x

theorem Watching.same {s s' : St} (h : Watching s) (hint : s'.interest = s.interest)
    (hstale : s'.stale = s.stale)
    (hfds : ∀ x, (s'.fds x).loop_id = (s.fds x).loop_id ∧ (s'.fds x).events = (s.fds x).events) :
    Watching s' := by
  intro x hreg hev
  rw [(hfds x).1] at hreg
  rw [(hfds x).2] at hev ⊢
  rw [hint, Sole, hstale]
  exact h x hreg hev

theorem watching_step_iff {s s' : St} {a : Act} (hs : step c s a = some s') (hopen : OpenOnly s)
    (h : Watching s) : Watching s' ↔ Open s a := by
  cases a with
  | add fd events secs =>
    obtain ⟨-, rfl⟩ := eq_of_guard hs
    have hself : (picoev_add c s fd events secs).fds fd =
        ⟨loop_id, events, if (secs : Int) = 0 then 255 else timeout_slot c s secs⟩ := by
      rw [add_fds, Function.update_self]
    have hsole : Sole (picoev_add c s fd events secs) fd ↔ Sole s fd := by
      rw [Sole, Sole, (add_kernel s fd events secs).2]
    rw [watching_iff_at fd h (fun x hx => by rw [add_fds, Function.update_of_ne hx])
      (fun x hx => by rw [add_interest, updated_interest_ne _ hx]; rfl)
      (fun x _ => by rw [(add_kernel s fd events secs).2]), hself, hsole, add_interest,
      updated_interest_self (s := fresh s fd) hopen]
    have hfresh : ((fresh s fd).fds fd).events = none_watched := by
      rw [fresh]
      dsimp only
      rw [Function.update_self]
    rw [hfresh]
    change (_ → events ≠ none_watched → _ = some events ∧ _) ↔
      (events ≠ none_watched → s.opened fd = true ∧ _)
    by_cases hev : events = none_watched
    · exact iff_of_true (fun _ hne => absurd hev hne) (fun hne => absurd hev hne)
    · have hopened : (fresh s fd).opened fd = s.opened fd := rfl
      simp only [hev, Bool.false_eq_true, or_self, if_false, false_or, hopened]
      cases s.opened fd with
      | true => simp
      | false => simp
  | del fd =>
    obtain ⟨-, rfl⟩ := eq_of_guard hs
    refine iff_of_true ?_ trivial
    have hkernel := del_kernel (c := c) s fd
    rw [watching_iff_at fd h (fun x hx => del_fds_ne s hx) (fun x _ => by rw [hkernel.interest])
      (fun x _ => by rw [hkernel.stale]), del_fds]
    exact fun hreg => absurd hreg Nat.zero_ne_one
  | set_events fd events =>
    obtain ⟨-, rfl⟩ := eq_of_guard hs
    have hfd := h fd
    rw [watching_iff_at fd h (fun x hx => by rw [set_events_eq]; exact Function.update_of_ne hx _ _)
      (fun x hx => by rw [set_events_eq]; exact updated_interest_ne s hx events false)
      (fun x _ => by rw [set_events_eq]), set_events_eq]
    dsimp only [Sole]
    rw [Function.update_self, updated_interest_self hopen]
    by_cases hev : events = (s.fds fd).events
    · refine iff_of_true (fun hreg hne => ?_) (fun _ _ hne => absurd hev hne)
      rw [if_pos (Or.inl hev), hev]
      exact hfd hreg (hev ▸ hne)
    · by_cases hnone : events = none_watched
      · exact iff_of_true (fun _ hne => absurd hnone hne) (fun _ hne => absurd hnone hne)
      · simp only [Open, Sole, hev, hnone, Bool.false_eq_true, or_self, if_false, false_or, ne_eq,
          not_false_eq_true, true_implies]
        cases s.opened fd with
        | true => simp
        | false => simp
  | set_timeout fd secs =>
    obtain ⟨-, rfl⟩ := eq_of_guard hs
    have hkernel := set_timeout_kernel (c := c) s fd secs
    refine iff_of_true (h.same hkernel.interest hkernel.stale fun x => ?_) trivial
    rw [set_timeout_fds]
    by_cases hx : x = fd
    · subst hx
      rw [Function.update_self]
      exact ⟨rfl, rfl⟩
    · rw [Function.update_of_ne hx]
      exact ⟨rfl, rfl⟩
  | opens fd =>
    obtain ⟨-, rfl⟩ := eq_of_guard hs
    exact iff_of_true (h.same rfl rfl fun _ => ⟨rfl, rfl⟩) trivial
  | closes fd kept =>
    -- Whatever becomes of the entry, it is not the file's that may have the number next
    rw [step, Option.some.injEq] at hs
    subst hs
    refine (watching_iff_at fd h (fun _ _ => by rfl) (fun x hx => by
      exact Function.update_of_ne hx _ _) (fun x hx => by
        cases kept with
        | true => exact Function.update_of_ne hx _ _
        | false => rfl)).trans ?_
    dsimp only
    rw [Function.update_self]
    constructor
    · intro hw hreg
      by_contra hne
      exact absurd (hw hreg hne).1 (by simp)
    · intro hok hreg hne
      exact absurd (hok hreg) hne
  | released fd ev =>
    rw [step, Option.some.injEq] at hs
    subst hs
    refine iff_of_true ?_ trivial
    rw [watching_iff_at fd h (fun _ _ => by rfl) (fun _ _ => by rfl)
      (fun x hx => Function.update_of_ne hx _ _)]
    intro hreg hne
    have hsole : s.stale fd = [] := (h fd hreg hne).2
    refine ⟨(h fd hreg hne).1, ?_⟩
    dsimp only [Sole]
    rw [Function.update_self, hsole]
    rfl
  | loop_once now events =>
    obtain ⟨-, rfl⟩ := eq_of_guard hs
    exact iff_of_true (h.same rfl rfl fun _ => ⟨rfl, rfl⟩) trivial
  | interrupted now =>
    obtain ⟨-, rfl⟩ := eq_of_guard hs
    exact iff_of_true (h.same rfl rfl fun _ => ⟨rfl, rfl⟩) trivial
  | poll =>
    -- Only a descriptor that is not watched is taken out
    obtain ⟨event, events, -, rfl⟩ := poll_eq hs
    refine iff_of_true (fun x hreg hne => ?_) trivial
    dsimp only at hreg hne ⊢
    rw [picoev_poll_once_internal]
    split
    · exact h x hreg hne
    · rename_i hw
      have hx : x ≠ event.fd := by
        rintro rfl
        exact hw (decide_eq_true ⟨hreg, hne⟩)
      rw [epoll_ctl_interest_ne hx]
      exact h x hreg hne
  | polled now =>
    obtain ⟨-, rfl⟩ := eq_of_guard hs
    exact iff_of_true (h.same rfl rfl fun _ => ⟨rfl, rfl⟩) trivial
  | handle_timeout =>
    obtain ⟨hkernel, hfds⟩ := scans_kernel (scans_of_step hs)
    exact iff_of_true (h.same hkernel.interest hkernel.stale hfds) trivial

theorem watching_create_loop (base_time now : Int) :
    OpenOnly (picoev_create_loop base_time now) ∧ Watching (picoev_create_loop base_time now) :=
  ⟨fun _ _ => rfl, fun _ hreg => absurd hreg Nat.zero_ne_one⟩

/-- Two waits on one descriptor, the second for writing. -/
def two_waits : List Act :=
  [.opens 5, .add 5 ⟨true, false⟩ 0, .loop_once 0 [⟨5, true, false, false⟩], .poll, .del 5,
    .polled 0, .handle_timeout, .add 5 ⟨false, true⟩ 0]

/-- Closed while it is registered: another wait is not watched if it asks for the
same events with `picoev_set_events`. -/
example : ¬ Trace.Steps (step jega) Open (picoev_create_loop 0 0)
    (two_waits ++ [.closes 5 false]) := by
  decide +kernel

/-- Deleted and closed with a duplicate: the next file with the number has a wait,
and the kernel reports the events of both. -/
example : ¬ Trace.Steps (step jega) Open (picoev_create_loop 0 0)
    (two_waits ++ [.del 5, .closes 5 true, .opens 5, .add 5 ⟨true, false⟩ 0]) := by
  decide +kernel

/-! ## Deferred deletes -/

/-- Calls that ask for events of `fd`. -/
def Asks (fd : Nat) : Act → Prop
  | .add x _ _ | .set_events x _ => x = fd
  | _ => False

/-- The kernel has no entry with the number `fd`. -/
def Unwatched (s : St) (fd : Nat) : Prop := s.interest fd = none ∧ Sole s fd

theorem Unwatched.same {s s' : St} {fd : Nat} (h : Unwatched s fd) (hk : SameKernel s s') :
    Unwatched s' fd := by
  rw [Unwatched, Sole, hk.interest, hk.stale]
  exact h

/-- An entry that is not there stays away until somebody asks for events. -/
theorem unwatched_step {s s' : St} {a : Act} {fd : Nat} (h : Unwatched s fd)
    (ha : ¬ Asks fd a) (hs : step c s a = some s') : Unwatched s' fd := by
  cases a with
  | add x events secs =>
    obtain ⟨-, rfl⟩ := eq_of_guard hs
    rw [Unwatched, Sole, (add_kernel s x events secs).2, add_interest,
      updated_interest_ne _ (fun heq => ha heq.symm)]
    exact h
  | del x =>
    obtain ⟨-, rfl⟩ := eq_of_guard hs
    exact h.same (del_kernel s x)
  | set_events x events =>
    obtain ⟨-, rfl⟩ := eq_of_guard hs
    rw [set_events_eq, Unwatched]
    dsimp only
    rw [updated_interest_ne _ (fun heq => ha heq.symm)]
    exact h
  | set_timeout x secs =>
    obtain ⟨-, rfl⟩ := eq_of_guard hs
    exact h.same (set_timeout_kernel s x secs)
  | opens x =>
    obtain ⟨-, rfl⟩ := eq_of_guard hs
    exact h
  | closes x kept =>
    -- There is no entry that a duplicate could keep
    rw [step, Option.some.injEq] at hs
    subst hs
    have hwatches : s.watches fd = [] := by
      rw [St.watches, h.1, h.2]
      rfl
    rw [Unwatched, Sole]
    dsimp only
    by_cases hx : fd = x
    · subst hx
      rw [Function.update_self]
      cases kept with
      | true => exact ⟨rfl, (Function.update_self fd _ s.stale).trans hwatches⟩
      | false => exact ⟨rfl, h.2⟩
    · rw [Function.update_of_ne hx]
      cases kept with
      | true => exact ⟨h.1, (Function.update_of_ne hx _ s.stale).trans h.2⟩
      | false => exact h
  | released x ev =>
    rw [step, Option.some.injEq] at hs
    subst hs
    rw [Unwatched, Sole]
    dsimp only
    by_cases hx : fd = x
    · subst hx
      rw [Function.update_self, h.2]
      exact ⟨h.1, rfl⟩
    · rw [Function.update_of_ne hx]
      exact h
  | loop_once now events =>
    obtain ⟨-, rfl⟩ := eq_of_guard hs
    exact h
  | interrupted now =>
    obtain ⟨-, rfl⟩ := eq_of_guard hs
    exact h
  | poll =>
    obtain ⟨event, events, -, rfl⟩ := poll_eq hs
    refine ⟨?_, h.2⟩
    dsimp only
    rw [picoev_poll_once_internal]
    split
    · exact h.1
    · by_cases hx : fd = event.fd
      · subst hx
        unfold epoll_ctl
        cases ho : s.opened event.fd with
        | false => exact h.1
        | true =>
          simp only [h.1]
          exact h.1
      · rw [epoll_ctl_interest_ne hx]
        exact h.1
  | polled now =>
    obtain ⟨-, rfl⟩ := eq_of_guard hs
    exact h
  | handle_timeout => exact h.same (scans_kernel (scans_of_step hs)).1

theorem unwatched_run {s t : St} {bs : List Act} {fd : Nat} (h : Unwatched s fd)
    (hbs : ∀ b ∈ bs, ¬ Asks fd b) (hrun : Trace.run (step c) s bs = some t) :
    Unwatched t fd := by
  have hstep : ∀ s a s', step c s a = some s' → ¬ Asks fd a → Unwatched s fd → Unwatched s' fd :=
    fun s a s' hs ha h => unwatched_step h ha hs
  exact Trace.run_invariant_steps hstep h (Trace.steps_of_labels hbs s) hrun

/-- What is not watched is not reported. -/
theorem Unwatched.not_reported {s : St} {fd : Nat} (h : Unwatched s fd)
    {reported : List epoll_event} (hreported : Reportable s reported) :
    fd ∉ reported.map epoll_event.fd := by
  have hwatches : s.watches fd = [] := by
    rw [St.watches, h.1, h.2]
    rfl
  intro hmem
  rcases List.mem_map.1 hmem with ⟨e, he, rfl⟩
  rcases (hreported.2 e he).2 with ⟨ev, hev, -⟩
  rw [hwatches] at hev
  exact absurd hev List.not_mem_nil

/-- A descriptor that is deleted is taken out of the kernel's set by the first
event that comes for it, if it is `Sole`: `epoll_wait` does not report it again
until somebody asks for its events. -/
theorem dropped_once {s s' t : St} {as bs : List Act} {base_time now : Int}
    {event : epoll_event} {events reported : List epoll_event}
    (hreach : Trace.run (step c) (picoev_create_loop base_time now) as = some s)
    (hpc : s.pc = .poll (event :: events)) (hw : watched s event.fd = false)
    (hsole : Sole s event.fd) (hpoll : step c s .poll = some s') (hbs : ∀ b ∈ bs, ¬ Asks event.fd b)
    (hrun : Trace.run (step c) s' bs = some t) (hreported : Reportable t reported) :
    called s .poll = none ∧ event.fd ∉ reported.map epoll_event.fd := by
  have hopen : OpenOnly s :=
    Trace.run_invariant (fun _ _ _ hs h => OpenOnly.step h hs)
      (watching_create_loop base_time now).1 hreach
  have hout : Unwatched s' event.fd := by
    obtain ⟨e, es, hpc', rfl⟩ := poll_eq hpoll
    rw [hpc] at hpc'
    cases hpc'
    refine ⟨?_, hsole⟩
    dsimp only
    rw [picoev_poll_once_internal]
    split
    · rename_i hw'
      change watched s event.fd = true at hw'
      rw [hw] at hw'
      exact absurd hw' Bool.false_ne_true
    · exact epoll_ctl_del (s := { s with pc := .poll events }) hopen _ _
  constructor
  · simp only [called, hpc, hw, Bool.false_eq_true, false_and, if_false]
  · exact (unwatched_run hout hbs hrun).not_reported hreported

/-- A descriptor is deleted by the handler of another one, and has an event. -/
def deleted_ahead : List Act :=
  [.opens 5, .opens 6, .add 5 ⟨true, false⟩ 0, .add 6 ⟨true, false⟩ 0,
    .loop_once 0 [⟨5, true, false, false⟩, ⟨6, true, false, false⟩], .poll, .del 6]

theorem dropped_once_deleted : ∃ s s' t,
    Trace.run (step jega) (picoev_create_loop 0 0) deleted_ahead = some s ∧
    step jega s .poll = some s' ∧
    Trace.run (step jega) s' [.polled 0, .handle_timeout] = some t ∧
    called s .poll = none ∧
    ∀ reported, Reportable t reported → 6 ∉ reported.map epoll_event.fd := by
  have h : (Trace.run (step jega) (picoev_create_loop 0 0) deleted_ahead).any (fun s =>
      decide (s.pc = .poll [⟨6, true, false, false⟩] ∧ Sole s 6) && !watched s 6 &&
        (step jega s .poll).any (fun s' =>
          (Trace.run (step jega) s' [.polled 0, .handle_timeout]).isSome)) = true := by
    decide +kernel
  obtain ⟨s, hs, hp⟩ := Trace.run_any h
  rw [Bool.and_eq_true, Bool.and_eq_true, decide_eq_true_eq, Bool.not_eq_true',
    Option.any_eq_true] at hp
  obtain ⟨⟨⟨hpc, hsole⟩, hw⟩, s', hs', ht⟩ := hp
  obtain ⟨t, ht⟩ := Option.isSome_iff_exists.1 ht
  have hbs : ∀ b ∈ [Act.polled 0, .handle_timeout], ¬ Asks 6 b := by
    intro b hb
    rcases List.mem_cons.1 hb with rfl | hb
    · exact id
    · rw [List.mem_singleton] at hb
      subst hb
      exact id
  refine ⟨s, s', t, hs, hs', ht, ?_, fun reported hreported => ?_⟩
  · have hnil : Reportable t [] := ⟨by decide, by simp⟩
    exact (dropped_once hs hpc hw hsole hs' hbs ht hnil).1
  · exact (dropped_once hs hpc hw hsole hs' hbs ht hreported).2

/-! ## The batch -/

/-- The reported events that are still to come. -/
def Pc.batch : Pc → List epoll_event
  | .poll events => events
  | _ => []

/-- Every event to come for a descriptor that is registered and asks for events is
one it asks for. -/
def Delivers (s : St) : Prop :=
  ∀ event ∈ s.pc.batch, watched s event.fd = true →
    (event.epollin = true → (s.fds event.fd).events.read = true) ∧
      (event.epollout = true → (s.fds event.fd).events.write = true)

/-- What the batch says of `fd` is in `events`. -/
def Covers (s : St) (fd : Nat) (events : Events) : Prop :=
  ∀ event ∈ s.pc.batch, event.fd = fd → events ≠ none_watched →
    (event.epollin = true → events.read = true) ∧ (event.epollout = true → events.write = true)

instance (s : St) (fd : Nat) (events : Events) : Decidable (Covers s fd events) :=
  inferInstanceAs (Decidable (∀ _ ∈ _, _))

/-- Nobody asks for other events on a descriptor that is ahead in the batch. -/
def Timely (s : St) : Act → Prop
  | .add fd events _ => Covers s fd events
  | .set_events fd events => (s.fds fd).loop_id = loop_id → Covers s fd events
  | _ => True

instance (s : St) : ∀ a, Decidable (Timely s a)
  | .add fd events _ => inferInstanceAs (Decidable (Covers s fd events))
  | .set_events fd events =>
    inferInstanceAs (Decidable ((s.fds fd).loop_id = loop_id → Covers s fd events))
  | .del _ | .set_timeout _ _ | .opens _ | .closes _ _ | .released _ _ | .loop_once _ _
  | .interrupted _ | .poll | .polled _ | .handle_timeout => isTrue trivial

theorem watched_iff (s : St) (fd : Nat) :
    watched s fd = true ↔ (s.fds fd).loop_id = loop_id ∧ (s.fds fd).events ≠ none_watched := by
  rw [watched, decide_eq_true_eq]

/-- The batch and the other slots are as they were. -/
theorem delivers_iff_at (fd : Nat) {s s' : St} (h : Delivers s) (hpc : s'.pc = s.pc)
    (hfds : ∀ x, x ≠ fd → (s'.fds x).loop_id = (s.fds x).loop_id ∧
      (s'.fds x).events = (s.fds x).events) :
    Delivers s' ↔ ((s'.fds fd).loop_id = loop_id → Covers s fd (s'.fds fd).events) := by
  constructor
  · intro h' hreg event hmem heq hne
    subst heq
    exact h' event (by rw [hpc]; exact hmem) ((watched_iff s' event.fd).2 ⟨hreg, hne⟩)
  · intro hfd event hmem hw
    rw [hpc] at hmem
    rw [watched_iff] at hw
    by_cases hx : event.fd = fd
    · subst hx
      exact hfd hw.1 event hmem rfl hw.2
    · rw [(hfds event.fd hx).1, (hfds event.fd hx).2] at hw
      rw [(hfds event.fd hx).2]
      exact h event hmem ((watched_iff s event.fd).2 hw)

theorem Delivers.same {s s' : St} (h : Delivers s) (hpc : ∀ e ∈ s'.pc.batch, e ∈ s.pc.batch)
    (hfds : ∀ x, (s'.fds x).loop_id = (s.fds x).loop_id ∧ (s'.fds x).events = (s.fds x).events) :
    Delivers s' := by
  intro event hmem hw
  rw [watched_iff, (hfds event.fd).1, (hfds event.fd).2] at hw
  rw [(hfds event.fd).2]
  exact h event (hpc event hmem) ((watched_iff s event.fd).2 hw)

theorem delivers_of_nil {s : St} (h : s.pc.batch = []) : Delivers s := by
  intro event hmem
  rw [h] at hmem
  exact absurd hmem List.not_mem_nil

theorem batch_scans {s s' : St} (hs : Scans c s s') : s'.pc.batch = [] := by
  cases hs with
  | _ => rfl

theorem delivers_step_iff {s s' : St} {a : Act} (hs : step c s a = some s') (hw : Watching s)
    (h : Delivers s) : Delivers s' ↔ Timely s a := by
  cases a with
  | add fd events secs =>
    obtain ⟨-, rfl⟩ := eq_of_guard hs
    have hself : (picoev_add c s fd events secs).fds fd =
        ⟨loop_id, events, if (secs : Int) = 0 then 255 else timeout_slot c s secs⟩ := by
      rw [add_fds, Function.update_self]
    rw [delivers_iff_at fd h (still_add s fd events secs).pc
      (fun x hx => by rw [add_fds, Function.update_of_ne hx]; exact ⟨rfl, rfl⟩), hself]
    exact ⟨fun hc => hc rfl, fun hc _ => hc⟩
  | del fd =>
    obtain ⟨-, rfl⟩ := eq_of_guard hs
    refine iff_of_true ?_ trivial
    rw [delivers_iff_at fd h (still_del s fd).pc
      (fun x hx => by rw [del_fds_ne s hx]; exact ⟨rfl, rfl⟩), del_fds]
    exact fun hreg => absurd hreg Nat.zero_ne_one
  | set_events fd events =>
    obtain ⟨-, rfl⟩ := eq_of_guard hs
    have hself : (picoev_set_events s fd events).fds fd = { s.fds fd with events := events } := by
      rw [set_events_eq]
      exact Function.update_self fd _ s.fds
    have hother (x : Nat) (hx : x ≠ fd) : (picoev_set_events s fd events).fds x = s.fds x := by
      rw [set_events_eq]
      exact Function.update_of_ne hx _ _
    rw [delivers_iff_at fd h (still_set_events s fd events).pc
      (fun x hx => by rw [hother x hx]; exact ⟨rfl, rfl⟩), hself]
    exact Iff.rfl
  | set_timeout fd secs =>
    obtain ⟨-, rfl⟩ := eq_of_guard hs
    refine iff_of_true (h.same (fun e he => ?_) fun x => ?_) trivial
    · rwa [(still_set_timeout s fd secs).pc] at he
    · rw [set_timeout_fds]
      by_cases hx : x = fd
      · subst hx
        rw [Function.update_self]
        exact ⟨rfl, rfl⟩
      · rw [Function.update_of_ne hx]
        exact ⟨rfl, rfl⟩
  | opens fd =>
    obtain ⟨-, rfl⟩ := eq_of_guard hs
    exact iff_of_true (h.same (fun _ he => he) fun _ => ⟨rfl, rfl⟩) trivial
  | closes fd kept =>
    rw [step, Option.some.injEq] at hs
    subst hs
    exact iff_of_true (h.same (fun _ he => he) fun _ => ⟨rfl, rfl⟩) trivial
  | released fd ev =>
    rw [step, Option.some.injEq] at hs
    subst hs
    exact iff_of_true (h.same (fun _ he => he) fun _ => ⟨rfl, rfl⟩) trivial
  | loop_once now events =>
    -- What is reported is watched, and what is watched is what was asked for
    obtain ⟨⟨-, hreported⟩, rfl⟩ := eq_of_guard hs
    refine iff_of_true (fun event hmem hwatched => ?_) trivial
    change watched s event.fd = true at hwatched
    rw [watched_iff] at hwatched
    obtain ⟨ev, hev, hin⟩ := (hreported.2 event hmem).2
    rcases hw event.fd hwatched.1 hwatched.2 with ⟨hinterest, hsole⟩
    rw [St.watches, hinterest, hsole] at hev
    rw [List.mem_singleton.1 hev] at hin
    exact hin
  | interrupted now =>
    obtain ⟨-, rfl⟩ := eq_of_guard hs
    exact iff_of_true (h.same (fun _ he => he) fun _ => ⟨rfl, rfl⟩) trivial
  | poll =>
    obtain ⟨event, events, hpc, rfl⟩ := poll_eq hs
    refine iff_of_true (h.same (fun e he => ?_) fun _ => ⟨rfl, rfl⟩) trivial
    rw [hpc]
    exact List.mem_cons_of_mem event he
  | polled now =>
    obtain ⟨-, rfl⟩ := eq_of_guard hs
    exact iff_of_true (delivers_of_nil rfl) trivial
  | handle_timeout =>
    exact iff_of_true (delivers_of_nil (batch_scans (scans_of_step hs))) trivial

/-- While descriptors are `Open`, the events to come for the registered ones that
ask for any are asked for, all along a run, if and only if nobody asks for other
events on a descriptor that is ahead in the batch. -/
theorem delivers_iff {s : St} {as : List Act} {base_time now : Int}
    (hopen : Trace.Steps (step c) Open (picoev_create_loop base_time now) as)
    (hrun : Trace.run (step c) (picoev_create_loop base_time now) as = some s) :
    Trace.Always (step c) Delivers (picoev_create_loop base_time now) as ↔
      Trace.Steps (step c) Timely (picoev_create_loop base_time now) as := by
  have hinit := watching_create_loop base_time now
  have hinv : ∀ s a s', step c s a = some s' → Open s a → Timely s a → OpenOnly s ∧ Watching s →
      Delivers s → OpenOnly s' ∧ Watching s' :=
    fun s a s' hs ho _ h _ => ⟨h.1.step hs, (watching_step_iff hs h.1 h.2).2 ho⟩
  have hiff : ∀ s a s', step c s a = some s' → Open s a → OpenOnly s ∧ Watching s → Delivers s →
      (Delivers s' ↔ Timely s a) :=
    fun s a s' hs _ h hd => delivers_step_iff hs h.2 hd
  exact Trace.always_iff_steps_of hinv hiff hinit (delivers_of_nil rfl) hopen hrun

theorem delivers_iff_two_waits :
    Trace.Always (step jega) Delivers (picoev_create_loop 0 0) two_waits ↔
      Trace.Steps (step jega) Timely (picoev_create_loop 0 0) two_waits := by
  have h : (Trace.run (step jega) (picoev_create_loop 0 0) two_waits).any (fun _ => true) = true := by
    decide +kernel
  obtain ⟨s, hs, -⟩ := Trace.run_any h
  exact delivers_iff (by decide +kernel) hs

/-- A handler deletes the descriptor that is next in the batch and registers it
for writing: it is called with the old event. -/
example : ¬ Trace.Steps (step jega) Timely (picoev_create_loop 0 0)
    (deleted_ahead ++ [.add 6 ⟨false, true⟩ 0]) := by
  decide +kernel

/-- What a handler is then called with by the poll. -/
theorem called_asked {s : St} {fd : Nat} {ev : Revents} (h : Delivers s)
    (hcall : called s .poll = some (fd, ev)) :
    (s.fds fd).loop_id = loop_id ∧ (ev.read = true → (s.fds fd).events.read = true) ∧
      (ev.write = true → (s.fds fd).events.write = true) := by
  rw [called] at hcall
  split at hcall
  · rename_i event events hpc
    split at hcall
    · rename_i hw
      rw [Option.some.injEq, Prod.mk.injEq] at hcall
      obtain ⟨rfl, rfl⟩ := hcall
      have hmem : event ∈ s.pc.batch := by
        rw [hpc]
        exact List.mem_cons_self
      exact ⟨((watched_iff s _).1 hw.1).1, h event hmem hw.1⟩
    · exact absurd hcall (by simp)
  · exact absurd hcall (by simp)

/-! ## The table of `Jega.Io.Picoev` -/

/-- A slot of this table as one of `Jega.Io.Picoev`, which has no bitmaps. -/
def St.slot {η α : Type} (s : St) (fd : Nat) (callback : η) (cb_arg : α) (secs : Nat) :
    Io.picoev_fd η α :=
  ⟨callback, cb_arg, (s.fds fd).loop_id, (s.fds fd).events, secs⟩

/-- Its functions are the calls of this model, as far as a slot goes. -/
theorem slot_calls {η α : Type} (s : St) (fd : Nat) (events : Events) (secs : Nat) (callback : η)
    (cb_arg : α) :
    (picoev_add c s fd events secs).slot fd callback cb_arg secs =
        Io.picoev_add loop_id events secs callback cb_arg ∧
      (picoev_del c s fd).slot fd callback cb_arg 0 =
        Io.picoev_del (s.slot fd callback cb_arg secs) ∧
      (picoev_set_events s fd events).slot fd callback cb_arg secs =
        Io.picoev_set_events (s.slot fd callback cb_arg secs) events := by
  refine ⟨?_, ?_, ?_⟩
  · rw [St.slot, add_fds, Function.update_self]
    rfl
  · have hevents : ((picoev_del c s fd).fds fd).events = none_watched := by
      rw [picoev_del]
      dsimp only
      rw [Function.update_self, set_timeout_fds, Function.update_self, update_events_eq]
      dsimp only
      rw [Function.update_self]
    rw [St.slot, del_fds, hevents]
    rfl
  · rw [St.slot, set_events_eq]
    dsimp only
    rw [Function.update_self]
    rfl

end Jega.Picoev
