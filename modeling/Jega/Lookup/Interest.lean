import Jega.Io.Counting

/-!
# Jega.Lookup.Interest — the descriptors of c-ares in the loop

`state_cb` of `lookup.c`, with which c-ares tells what it wants to know of a
socket, and the branch of `process_callback` that destroys the channel. c-ares
closes all its sockets then, in any order. `state_cb` only looks whether a
descriptor is registered, and not for what. The loop is running, so that
`ready_trampoline` lets every `add_event` through.

## Main result

* `interest_tracked_iff`: the exact condition for the registrations to follow
  what c-ares told, along every run.
-/

namespace Jega.Lookup.Interest

open Trace
open Io hiding active init
open Io.Registry

/-- Seconds between two looks at a descriptor. -/
def CHECK_INTERVAL : Nat := 1

/-- c-ares wants to know nothing, as of a socket that is closed. -/
def nothing : Events := ⟨false, false⟩

/-- `state_cb`, with its `read` and `write`. -/
def state_cb (s : Registry.St) (fd : Slot) (interest : Events) : Registry.St :=
  if interest.read || interest.write then
    if !active s fd then add_event s fd interest CHECK_INTERVAL else s
  else del_event s fd

/-- `ares_destroy` closes the sockets. -/
def ares_destroy (s : Registry.St) (sockets : List Slot) : Registry.St :=
  sockets.foldl (fun s fd => state_cb s fd nothing) s

/-- `process_callback` with `PICOEV_ERR`; there is nothing to process on the new
channel. -/
def process_callback_err (s : Registry.St) (fd : Slot) (sockets : List Slot) : Registry.St :=
  ares_destroy (del_event s fd) sockets

/-- The loop, and what c-ares wants to know of each socket. -/
structure St where
  loop : Registry.St
  interest : Slot → Events

inductive Op where
  | state_cb (fd : Slot) (interest : Events)
  /-- Picoev reports an error of a descriptor; `sockets` are those that are open,
  in the order in which they are closed. -/
  | process_callback_err (fd : Slot) (sockets : List Slot)

def step (s : St) : Op → Option St
  | .state_cb fd interest =>
    some ⟨state_cb s.loop fd interest, Function.update s.interest fd interest⟩
  | .process_callback_err fd sockets =>
    if ∀ x, x ∈ sockets ↔ s.interest x ≠ nothing then
      some ⟨process_callback_err s.loop fd sockets, fun _ => nothing⟩
    else none

/-- The calls are for these descriptors. -/
def Uses (D : Set Slot) : Op → Prop
  | .state_cb fd _ => fd ∈ D
  | .process_callback_err fd _ => fd ∈ D

/-- The descriptors of c-ares are registered for what it wants to know, and all
registered descriptors are counted. -/
structure Tracked (D : Set Slot) (s : St) : Prop where
  registered : ∀ fd ∈ D, active s.loop fd = true ↔ s.interest fd ≠ nothing
  events : ∀ fd ∈ D, s.interest fd ≠ nothing → (s.loop.fds fd).events = s.interest fd
  counted : s.loop.ioactivecnt.toNat = (Registry.registered s.loop).card

/-- c-ares does not go from one interest to another. -/
def Steady (s : St) : Op → Prop
  | .state_cb fd interest =>
    s.interest fd ≠ nothing → interest ≠ nothing → interest = s.interest fd
  | .process_callback_err _ _ => True

instance (s : St) : ∀ op, Decidable (Steady s op)
  | .state_cb _ _ => inferInstanceAs (Decidable (_ → _ → _))
  | .process_callback_err _ _ => isTrue trivial

/-! ## The calls -/

section Calls

variable {D : Set Slot} {s : St} {l : Registry.St} {fd : Slot}

theorem nothing_iff (interest : Events) :
    (interest.read || interest.write) = true ↔ interest ≠ nothing := by
  obtain ⟨read, write⟩ := interest
  cases read <;> cases write <;> simp [nothing]

/-- One descriptor follows a new interest, and the others are as they were. -/
theorem Tracked.put (h : Tracked D s) {interest : Events}
    (hact : active l fd = true ↔ interest ≠ nothing)
    (hevents : interest ≠ nothing → (l.fds fd).events = interest)
    (hother : ∀ x, x ≠ fd →
      active l x = active s.loop x ∧ (l.fds x).events = (s.loop.fds x).events)
    (hcounted : l.ioactivecnt.toNat = (Registry.registered l).card) :
    Tracked D ⟨l, Function.update s.interest fd interest⟩ := by
  refine ⟨fun x hx => ?_, fun x hx => ?_, hcounted⟩
  · show active l x = true ↔ Function.update s.interest fd interest x ≠ nothing
    by_cases hxf : x = fd
    · rw [hxf, Function.update_self]
      exact hact
    · rw [Function.update_of_ne hxf, (hother x hxf).1]
      exact h.registered x hx
  · show Function.update s.interest fd interest x ≠ nothing →
      (l.fds x).events = Function.update s.interest fd interest x
    by_cases hxf : x = fd
    · rw [hxf, Function.update_self]
      exact hevents
    · rw [Function.update_of_ne hxf, (hother x hxf).2]
      exact h.events x hx

/-- A descriptor that is added is registered for its interest. -/
theorem add_event_slot (l : Registry.St) (fd : Slot) (interest : Events) :
    active (add_event l fd interest CHECK_INTERVAL) fd = true ∧
      ((add_event l fd interest CHECK_INTERVAL).fds fd).events = interest ∧
      ∀ x, x ≠ fd → (add_event l fd interest CHECK_INTERVAL).fds x = l.fds x := by
  refine ⟨?_, ?_, fun x hx => Function.update_of_ne hx _ _⟩
  · rw [active_update (s := l) rfl fd, if_pos rfl]
    rfl
  · simp [add_event, add, picoev_add]

/-- A descriptor that is deleted is not registered. -/
theorem del_event_slot (l : Registry.St) (fd : Slot) :
    active (del_event l fd) fd = false ∧
      ∀ x, x ≠ fd → (del_event l fd).fds x = l.fds x := by
  unfold del_event
  by_cases hact : active l fd = true
  · rw [if_pos hact]
    refine ⟨?_, fun x hx => Function.update_of_ne hx _ _⟩
    rw [active_update (s := l) rfl fd, if_pos rfl]
    simp [picoev_is_active, picoev_del, loop_id]
  · rw [if_neg hact]
    exact ⟨Bool.eq_false_of_not_eq_true hact, fun x _ => rfl⟩

/-- A slot that is as it was is as active as it was. -/
theorem active_congr {l' : Registry.St} {x : Slot} (h : l'.fds x = l.fds x) :
    active l' x = active l x := by
  rw [active, active, h]

theorem add_event_counted (h : l.ioactivecnt.toNat = (registered l).card)
    (hact : ¬ active l fd = true) (interest : Events) :
    (add_event l fd interest CHECK_INTERVAL).ioactivecnt.toNat =
      (registered (add_event l fd interest CHECK_INTERVAL)).card := by
  have hc := changed_add l fd interest CHECK_INTERVAL .process_callback loop
  rw [registers, if_neg hact] at hc
  have hnot : fd ∉ registered l := by
    rw [mem_registered]
    exact hact
  rw [add_event, hc.ioactivecnt, hc.registered]
  exact counted_register h hnot

theorem del_event_counted (h : l.ioactivecnt.toNat = (registered l).card) (fd : Slot) :
    (del_event l fd).ioactivecnt.toNat = (registered (del_event l fd)).card := by
  unfold del_event
  split
  next hact =>
    have hc := changed_del l fd
    rw [hc.ioactivecnt, hc.registered]
    exact (counted_unregister_iff h).2 (mem_registered.2 hact)
  · exact h

/-- `ares_destroy` deletes the sockets, and registers nothing. -/
theorem ares_destroy_spec (sockets : List Slot) (l : Registry.St)
    (h : l.ioactivecnt.toNat = (registered l).card) :
    (∀ x, active (ares_destroy l sockets) x = true → x ∉ sockets ∧ active l x = true) ∧
      (ares_destroy l sockets).ioactivecnt.toNat = (registered (ares_destroy l sockets)).card := by
  induction sockets generalizing l with
  | nil => exact ⟨fun x hx => ⟨List.not_mem_nil, hx⟩, h⟩
  | cons fd sockets ih =>
    obtain ⟨hact, hcnt⟩ := ih (del_event l fd) (del_event_counted h fd)
    refine ⟨fun x hx => ?_, hcnt⟩
    obtain ⟨hmem, hleft⟩ := hact x hx
    have hslot := del_event_slot l fd
    have hne : x ≠ fd := by
      rintro rfl
      rw [hslot.1] at hleft
      cases hleft
    rw [active_congr (hslot.2 x hne)] at hleft
    exact ⟨List.not_mem_cons_of_ne_of_not_mem hne hmem, hleft⟩

/-- What a call of `state_cb` leaves: the registrations follow it exactly if the
interest does not go to another. -/
theorem state_cb_tracked_iff (h : Tracked D s) (hfd : fd ∈ D) (interest : Events) :
    Tracked D ⟨state_cb s.loop fd interest, Function.update s.interest fd interest⟩ ↔
      (s.interest fd ≠ nothing → interest ≠ nothing → interest = s.interest fd) := by
  have hreg := h.registered fd hfd
  unfold state_cb
  by_cases hint : interest = nothing
  · -- Case: the socket is closed
    have hgo : ¬ (interest.read || interest.write) = true := by
      rw [nothing_iff]
      exact not_not.2 hint
    obtain ⟨hgone, hsame⟩ := del_event_slot s.loop fd
    rw [if_neg hgo]
    refine iff_of_true (h.put ?_ ?_ ?_ (del_event_counted h.counted fd))
      (fun _ hne => absurd hint hne)
    · rw [hgone]
      exact iff_of_false Bool.false_ne_true (not_not.2 hint)
    · exact fun hne => absurd hint hne
    · intro x hx
      exact ⟨active_congr (hsame x hx), by rw [hsame x hx]⟩
  · rw [if_pos ((nothing_iff interest).2 hint)]
    cases hact : active s.loop fd with
    | false =>
      -- Case: the descriptor is added
      have hwas : s.interest fd = nothing := by
        by_contra hne
        rw [hreg.2 hne] at hact
        cases hact
      have hnot : ¬ active s.loop fd = true := by
        rw [hact]
        exact Bool.false_ne_true
      obtain ⟨hadded, hevents, hsame⟩ := add_event_slot s.loop fd interest
      rw [Bool.not_false, if_pos rfl]
      refine iff_of_true (h.put ?_ ?_ ?_ (add_event_counted h.counted hnot interest))
        (fun hne => absurd hwas hne)
      · exact iff_of_true hadded hint
      · exact fun _ => hevents
      · intro x hx
        exact ⟨active_congr (hsame x hx), by rw [hsame x hx]⟩
    | true =>
      -- Case: the descriptor is registered, and stays as it is
      have hwas : s.interest fd ≠ nothing := hreg.1 hact
      rw [Bool.not_true, if_neg Bool.false_ne_true]
      constructor
      · intro h' _ _
        have hev := h'.events fd hfd
        simp only [Function.update_self] at hev
        rw [← hev hint, h.events fd hfd hwas]
      · intro hsame
        have heq : Function.update s.interest fd interest = s.interest := by
          rw [hsame hwas hint, Function.update_eq_self]
        rw [heq]
        exact h

/-- After an error nothing of c-ares is registered. -/
theorem process_callback_err_tracked (h : Tracked D s) {sockets : List Slot}
    (hsock : ∀ x, x ∈ sockets ↔ s.interest x ≠ nothing) :
    Tracked D ⟨process_callback_err s.loop fd sockets, fun _ => nothing⟩ := by
  obtain ⟨hact, hcnt⟩ :=
    ares_destroy_spec sockets (del_event s.loop fd) (del_event_counted h.counted fd)
  refine ⟨fun x hx => ?_, fun x _ hne => absurd rfl hne, hcnt⟩
  refine iff_of_false (fun hleft => ?_) (not_not.2 rfl)
  obtain ⟨hmem, hleft⟩ := hact x hleft
  obtain ⟨hgone, hsame⟩ := del_event_slot s.loop fd
  by_cases hxf : x = fd
  · rw [hxf, hgone] at hleft
    cases hleft
  · rw [active_congr (hsame x hxf), h.registered x hx, ← hsock] at hleft
    exact hmem hleft

theorem tracked_step {op : Op} {s' : St} (hs : step s op = some s') (huse : Uses D op)
    (h : Tracked D s) : Tracked D s' ↔ Steady s op := by
  cases op with
  | state_cb fd interest =>
    cases hs
    exact state_cb_tracked_iff h huse interest
  | process_callback_err fd sockets =>
    simp only [step] at hs
    split at hs
    next hsock =>
      cases hs
      exact iff_of_true (process_callback_err_tracked h hsock) trivial
    · cases hs

end Calls

/-! ## Main result -/

/-- Along every run of calls for descriptors that were not registered, the
registrations follow the interest of c-ares all along exactly if c-ares never
goes from one interest in a descriptor to another. -/
theorem interest_tracked_iff {D : Set Slot} {l : Registry.St} {t : St} {ops : List Op}
    (hcounted : l.ioactivecnt.toNat = (registered l).card)
    (hfree : ∀ fd ∈ D, active l fd = false) (hops : ∀ op ∈ ops, Uses D op)
    (hrun : Trace.run step ⟨l, fun _ => nothing⟩ ops = some t) :
    Always step (Tracked D) ⟨l, fun _ => nothing⟩ ops ↔
      Steps step Steady ⟨l, fun _ => nothing⟩ ops := by
  have hinit : Tracked D ⟨l, fun _ => nothing⟩ := by
    refine ⟨fun fd hfd => ?_, fun fd _ hne => absurd rfl hne, hcounted⟩
    rw [hfree fd hfd]
    exact iff_of_false Bool.false_ne_true (not_not.2 rfl)
  have hone : ∀ s op s', step s op = some s' → Uses D op → True → Tracked D s →
      (Tracked D s' ↔ Steady s op) := fun s op s' hs huse _ h => tracked_step hs huse h
  exact always_iff_steps_of (fun _ _ _ _ _ _ _ _ => trivial) hone trivial hinit
    (steps_of_labels hops _) hrun

/-- Of the descriptors 7 and 8 the new loop has registered none. -/
theorem init_free : ∀ fd ∈ ({7, 8} : Set Slot), active (Registry.init 5) fd = false := by
  have hslots : active (Registry.init 5) 7 = false ∧ active (Registry.init 5) 8 = false := by decide
  rintro fd (rfl | hfd)
  · exact hslots.1
  · rw [Set.mem_singleton_iff] at hfd
    rw [hfd]
    exact hslots.2

/-- Two sockets, one of which is closed and opened again. -/
theorem interest_tracked_sockets : ∃ t,
    Trace.run step ⟨Registry.init 5, fun _ => nothing⟩ [.state_cb 7 ⟨true, false⟩,
      .state_cb 8 ⟨true, true⟩, .state_cb 7 nothing, .state_cb 7 ⟨false, true⟩] = some t ∧
    Always step (Tracked {7, 8}) ⟨Registry.init 5, fun _ => nothing⟩ [.state_cb 7 ⟨true, false⟩,
      .state_cb 8 ⟨true, true⟩, .state_cb 7 nothing, .state_cb 7 ⟨false, true⟩] := by
  refine ⟨_, rfl, (interest_tracked_iff (init_accounted 5).counted init_free ?_ rfl).2 ?_⟩
  · simp [Uses]
  · decide

/-- A socket that is to be read is now to be written, too. -/
theorem interest_in_writing_lost : ∃ t,
    Trace.run step ⟨Registry.init 5, fun _ => nothing⟩
      [.state_cb 7 ⟨true, false⟩, .state_cb 7 ⟨true, true⟩] = some t ∧
    (t.loop.fds 7).events = ⟨true, false⟩ ∧
    ¬ Always step (Tracked {7, 8}) ⟨Registry.init 5, fun _ => nothing⟩
      [.state_cb 7 ⟨true, false⟩, .state_cb 7 ⟨true, true⟩] := by
  refine ⟨_, rfl, by decide, fun h => ?_⟩
  have htracked := h.last rfl
  have hevents := htracked.events 7 (.inl rfl) (by decide)
  exact absurd hevents (by decide)

end Jega.Lookup.Interest
