import Jega.Io.Registry
import Mathlib.Data.Finset.Card
import Mathlib.Data.Fintype.Card

/-!
# Jega.Io.Counting — `ioactivecnt` and the registered descriptors

A step changes the registrations in one of few ways (`Change`), and the count
follows: up for a descriptor that becomes registered, down for one that is
unregistered. Only a wait that ends unregisters and counts down without a look,
so the count is right as long as its descriptor is registered still (`Held`).

The loop runs on while more than one descriptor is counted, and takes the one
that is left for the self-pipe. It is, as long as the self-pipe is registered
first and last (`Piped`).

## Main results

* `step_change`: what each step does to the registrations and the count.
* `registrations_accounted_iff`: the exact condition, along every run.
-/

namespace Jega.Io.Registry

open Trace

/-- The descriptors registered with the main loop. -/
def registered (s : St) : Finset Slot := Finset.univ.filter fun fd => active s fd = true

/-- The count is right, and the loop does not end over a registration. -/
structure Accounted (s : St) : Prop where
  counted : s.ioactivecnt.toNat = (registered s).card
  unwrapped : s.ioactivecnt.toNat ≤ MAX_FD
  /-- `LoopObject_run` ends only when the self-pipe is all that is registered. -/
  idle : ∀ activecnt, goes_on activecnt s = false → registered s ⊆ {s.ssock}

/-- What a step does to the registrations. -/
inductive Change where
  | keep
  | register (fd : Slot)
  | unregister (fd : Slot)
  /-- A new loop with the self-pipe, and one more descriptor if it is another. -/
  | restart (ssock fd : Slot)

/-- A descriptor is registered unless it is. -/
def registers (s : St) (fd : Slot) : Change := if active s fd then .keep else .register fd

def change (s : St) : Act → Change
  | .add_reader fd _ _ ssock => if s.postfork then .restart ssock fd else registers s fd
  | .add_writer fd _ _ ssock => if s.postfork then .restart ssock fd else registers s fd
  | .remove_reader fd garbage =>
    if active s fd ∧ (callbacks s.mem garbage (s.fds fd).cb_arg).2 = none then .unregister fd
    else .keep
  | .remove_writer fd garbage =>
    if active s fd ∧ (callbacks s.mem garbage (s.fds fd).cb_arg).1 = none then .unregister fd
    else .keep
  | .io_trampoline _ fd _ _ => registers s fd
  | .resume g =>
    match s.waits g with
    | none => .keep
    | some (fd, _) => .unregister fd
  | .add_event fd _ _ => registers s fd
  | .del_event fd => if active s fd then .unregister fd else .keep
  | .fd_error fd => .unregister fd
  | .fork_child => .keep
  | .run_once ssock => if s.postfork then .restart ssock ssock else .keep

/-- A wait ends only while its descriptor is registered. -/
def Held (s : St) (a : Act) : Prop :=
  ∀ g fd switch_arg, a = .resume g → s.waits g = some (fd, switch_arg) → fd ∈ registered s

/-- The self-pipe is the first descriptor to be registered and the last one left. -/
def Piped (s : St) (a : Act) : Prop :=
  match change s a with
  | .register fd => registered s = ∅ → fd = s.ssock
  | .unregister fd => ∀ x, (registered s).erase fd = {x} → x = s.ssock
  | _ => True

/-! ## The registrations and the count -/

/-- The registrations after a change. -/
def Change.registered : Change → Finset Slot → Finset Slot
  | .keep, r => r
  | .register fd, r => insert fd r
  | .unregister fd, r => r.erase fd
  | .restart ssock fd, _ => {ssock, fd}

/-- The count after a change. -/
def Change.ioactivecnt : Change → UInt32 → UInt32
  | .keep, n => n
  | .register _, n => n + 1
  | .unregister _, n => n - 1
  | .restart ssock fd, _ => if fd = ssock then 1 else 2

/-- The self-pipe after a change. -/
def Change.ssock : Change → Slot → Slot
  | .restart ssock _, _ => ssock
  | _, ssock => ssock

/-- The step from `s` to `s'` is that change. -/
structure Changed (s s' : St) (c : Change) : Prop where
  registered : registered s' = c.registered (registered s)
  ioactivecnt : s'.ioactivecnt = c.ioactivecnt s.ioactivecnt
  ssock : s'.ssock = c.ssock s.ssock

variable {s s' : St}

@[simp] theorem mem_registered {fd : Slot} : fd ∈ registered s ↔ active s fd = true := by
  simp [registered]

/-- The registrations are in the slots. -/
theorem registered_congr (h : ∀ fd, (s'.fds fd).loop_id = (s.fds fd).loop_id) :
    registered s' = registered s := by
  ext fd
  simp [active, picoev_is_active, h]

/-- What else a state holds is not registered. -/
theorem Changed.of_eq {s₀ : St} {c : Change} (h : Changed s₀ s' c) (hfds : s₀.fds = s.fds)
    (hcnt : s₀.ioactivecnt = s.ioactivecnt) (hssock : s₀.ssock = s.ssock) : Changed s s' c := by
  have hreg : Registry.registered s₀ = Registry.registered s := by
    refine registered_congr fun fd => ?_
    rw [hfds]
  refine ⟨?_, ?_, ?_⟩
  · rw [h.registered, hreg]
  · rw [h.ioactivecnt, hcnt]
  · rw [h.ssock, hssock]

/-- Nothing is registered or counted. -/
theorem changed_keep (hreg : ∀ fd, (s'.fds fd).loop_id = (s.fds fd).loop_id)
    (hcnt : s'.ioactivecnt = s.ioactivecnt) (hssock : s'.ssock = s.ssock) :
    Changed s s' .keep :=
  ⟨registered_congr hreg, hcnt, hssock⟩

/-- A slot that is written keeps the registrations of the others. -/
theorem active_update {fd : Slot} {target : picoev_fd (Option Handler) Addr}
    (hfds : s'.fds = Function.update s.fds fd target) (x : Slot) :
    active s' x = if x = fd then picoev_is_active loop_id target else active s x := by
  unfold active
  rw [hfds]
  by_cases hx : x = fd
  · rw [hx, Function.update_self, if_pos rfl]
  · rw [Function.update_of_ne hx, if_neg hx]

theorem changed_del (s : St) (fd : Slot) : Changed s (del s fd) (.unregister fd) := by
  refine ⟨?_, rfl, rfl⟩
  ext x
  have hx : active (del s fd) x = _ := active_update rfl x
  simp only [Change.registered, Finset.mem_erase, mem_registered, hx]
  by_cases hfd : x = fd
  · simp [hfd, picoev_is_active, picoev_del, loop_id]
  · simp [hfd]

/-- A slot that is added is registered, and counted if it was not. -/
theorem changed_added {fd : Slot} {event : Events} {timeout : Nat} {callback : Handler}
    {cb_arg : Addr}
    (hfds : s'.fds =
      Function.update s.fds fd (picoev_add loop_id event timeout (some callback) cb_arg))
    (hcnt : s'.ioactivecnt = if active s fd then s.ioactivecnt else s.ioactivecnt + 1)
    (hssock : s'.ssock = s.ssock) : Changed s s' (registers s fd) := by
  have hreg : Registry.registered s' = insert fd (Registry.registered s) := by
    ext x
    simp only [Finset.mem_insert, mem_registered, active_update hfds x]
    by_cases hfd : x = fd
    · simp [hfd, picoev_is_active, picoev_add]
    · simp [hfd]
  unfold registers
  by_cases hact : active s fd = true
  · rw [if_pos hact] at hcnt ⊢
    refine ⟨?_, hcnt, hssock⟩
    rw [hreg]
    exact Finset.insert_eq_self.2 (mem_registered.2 hact)
  · rw [if_neg hact] at hcnt ⊢
    exact ⟨hreg, hcnt, hssock⟩

theorem changed_add (s : St) (fd : Slot) (event : Events) (timeout : Nat) (callback : Handler)
    (cb_arg : Addr) : Changed s (add s fd event timeout callback cb_arg) (registers s fd) :=
  changed_added rfl rfl rfl

/-- Other events of a descriptor are not another registration. -/
theorem set_events_loop_id (fds : Slot → picoev_fd (Option Handler) Addr) (fd : Slot)
    (event : Events) (x : Slot) :
    (Function.update fds fd (picoev_set_events (fds fd) event) x).loop_id = (fds x).loop_id := by
  by_cases hx : x = fd
  · rw [hx, Function.update_self]
    rfl
  · rw [Function.update_of_ne hx]

theorem changed_register (s : St) (fd : Slot) (event : Events) (cbs garbage : Callbacks) :
    Changed s (register s fd event cbs garbage) (registers s fd) := by
  unfold register
  simp only
  split
  next hact =>
    -- Case: the callback is merged or left out
    have hkeep : registers s fd = .keep := if_pos hact
    rw [hkeep]
    split
    · exact changed_keep (fun _ => rfl) rfl rfl
    · exact changed_keep (set_events_loop_id s.fds fd _) rfl rfl
  next hact =>
    -- Case: the descriptor is added
    have hnot : ¬ active s fd = true := hact
    exact changed_added rfl (if_neg hnot).symm rfl

theorem registered_init : ∀ {s : St}, s.fds = picoev_init → registered s = ∅ := by
  intro s hfds
  ext fd
  simp [active, hfds, picoev_init, picoev_is_active, loop_id]

/-- The self-pipe is the one descriptor of a new loop. -/
theorem make_self_pipe_spec {s : St} (hfds : s.fds = picoev_init) (hcnt : s.ioactivecnt = 0)
    (ssock : Slot) :
    registered (make_self_pipe s ssock) = {ssock} ∧ (make_self_pipe s ssock).ioactivecnt = 1 ∧
      (make_self_pipe s ssock).ssock = ssock := by
  have hempty : registered { s with ssock := ssock } = ∅ := registered_init hfds
  have hnot : ¬ active { s with ssock := ssock } ssock = true := by
    intro hact
    have hmem := mem_registered.2 hact
    rw [hempty] at hmem
    exact absurd hmem (Finset.notMem_empty _)
  have hc := changed_register { s with ssock := ssock } ssock ⟨true, false⟩
    (some read_from_self, none) (none, none)
  have hregisters : registers { s with ssock := ssock } ssock = .register ssock := if_neg hnot
  rw [hregisters] at hc
  refine ⟨?_, ?_, hc.ssock⟩
  · have hreg := hc.registered
    rw [hempty] at hreg
    exact hreg
  · have hone : (make_self_pipe s ssock).ioactivecnt = s.ioactivecnt + 1 := hc.ioactivecnt
    rw [hone, hcnt]
    rfl

/-- After a fork the loop starts again with a new self-pipe. -/
theorem reset_loop_spec (s : St) (ssock : Slot) :
    registered (reset_loop s ssock) = {ssock} ∧ (reset_loop s ssock).ioactivecnt = 1 ∧
      (reset_loop s ssock).ssock = ssock := by
  have hclosed : LoopObject_remove_reader (destroy_main_loop s) (destroy_main_loop s).ssock
      (none, none) = destroy_main_loop s := by
    refine if_neg ?_
    simp [active, destroy_main_loop, picoev_init, picoev_is_active, loop_id]
  unfold reset_loop
  simp only [hclosed]
  exact make_self_pipe_spec rfl rfl ssock

/-- `call_fork_loop` leaves the loop alone, or starts it again. -/
theorem call_fork_loop_cases (s : St) (ssock : Slot) :
    (s.postfork = false ∧ call_fork_loop s ssock = s) ∨
      (s.postfork = true ∧ registered (call_fork_loop s ssock) = {ssock} ∧
        (call_fork_loop s ssock).ioactivecnt = 1 ∧ (call_fork_loop s ssock).ssock = ssock) := by
  unfold call_fork_loop
  cases hfork : s.postfork with
  | false => exact Or.inl ⟨rfl, rfl⟩
  | true => exact Or.inr ⟨rfl, reset_loop_spec _ _⟩

theorem changed_register_fd_callback (s : St) (fd : Slot) (event : Events) (cbs garbage : Callbacks)
    (ssock : Slot) :
    Changed s (register_fd_callback s fd event cbs garbage ssock)
      (if s.postfork then .restart ssock fd else registers s fd) := by
  unfold register_fd_callback
  have hc := changed_register (call_fork_loop s ssock) fd event cbs garbage
  rcases call_fork_loop_cases s ssock with ⟨hfork, hsame⟩ | ⟨hfork, hreg, hcnt, hssock⟩
  · rw [hsame] at hc ⊢
    rw [hfork]
    exact hc
  · generalize call_fork_loop s ssock = r at hc hreg hcnt hssock ⊢
    rw [hfork, if_pos rfl]
    -- in the new loop only its self-pipe is registered
    have hact : active r fd = true ↔ fd = ssock := by
      rw [← mem_registered, hreg, Finset.mem_singleton]
    unfold registers at hc
    by_cases hfd : fd = ssock
    · -- Case: the new self-pipe itself
      rw [if_pos (hact.2 hfd)] at hc
      refine ⟨?_, ?_, hc.ssock.trans hssock⟩
      · rw [hc.registered]
        simp [Change.registered, hreg, hfd]
      · rw [hc.ioactivecnt]
        simp [Change.ioactivecnt, hcnt, hfd]
    · rw [if_neg fun h => hfd (hact.1 h)] at hc
      refine ⟨?_, ?_, hc.ssock.trans hssock⟩
      · rw [hc.registered]
        simp only [Change.registered, hreg]
        exact Finset.pair_comm _ _
      · rw [hc.ioactivecnt]
        simp only [Change.ioactivecnt, hcnt, if_neg hfd]
        rfl

/-- Either removal unregisters the descriptor unless the other direction has a
callback. -/
theorem changed_remove {fd : Slot} {other : Option Callable} {event : Events}
    {mem mem' : Addr → Cell} {removed : St}
    (hremoved : removed =
      if active s fd then
        if other.isSome then
          { s with
            mem := mem
            fds := Function.update s.fds fd (picoev_set_events (s.fds fd) event) }
        else { del s fd with mem := mem' }
      else s) :
    Changed s removed (if active s fd ∧ other = none then .unregister fd else .keep) := by
  rw [hremoved]
  by_cases hact : active s fd = true
  · cases other with
    | none =>
      simp only [hact, if_true, Option.isSome_none, Bool.false_eq_true, if_false, and_self]
      have hdel := changed_del s fd
      exact ⟨hdel.registered, hdel.ioactivecnt, hdel.ssock⟩
    | some cb =>
      simp only [hact, if_true, Option.isSome_some, reduceCtorEq, and_false, if_false]
      exact changed_keep (set_events_loop_id s.fds fd event) rfl rfl
  · simp only [hact, Bool.false_eq_true, if_false, false_and]
    exact changed_keep (fun _ => rfl) rfl rfl

/-- What each step does to the registrations and the count. -/
theorem step_change {a : Act} (h : step s a = some s') : Changed s s' (change s a) := by
  cases a with
  | add_reader fd cb garbage ssock =>
    cases h
    exact changed_register_fd_callback s fd _ _ garbage ssock
  | add_writer fd cb garbage ssock =>
    cases h
    exact changed_register_fd_callback s fd _ _ garbage ssock
  | remove_reader fd garbage =>
    cases h
    exact changed_remove rfl
  | remove_writer fd garbage =>
    cases h
    exact changed_remove rfl
  | io_trampoline g fd event timeout =>
    obtain ⟨_, heq⟩ := Option.ite_none_right_eq_some.1 h
    cases heq
    exact (changed_add _ fd event timeout _ _).of_eq rfl rfl rfl
  | resume g =>
    cases h
    simp only [change, resume]
    cases s.waits g with
    | none => exact changed_keep (fun _ => rfl) rfl rfl
    | some w => exact (changed_del _ w.1).of_eq rfl rfl rfl
  | add_event fd event timeout =>
    cases h
    exact changed_add s fd event timeout _ _
  | del_event fd =>
    cases h
    simp only [change, del_event]
    split
    · exact changed_del s fd
    · exact changed_keep (fun _ => rfl) rfl rfl
  | fd_error fd =>
    obtain ⟨_, heq⟩ := Option.ite_none_right_eq_some.1 h
    cases heq
    have hdel := changed_del s fd
    exact ⟨hdel.registered, hdel.ioactivecnt, hdel.ssock⟩
  | fork_child =>
    cases h
    exact changed_keep (fun _ => rfl) rfl rfl
  | run_once ssock =>
    cases h
    simp only [change]
    rcases call_fork_loop_cases s ssock with ⟨hfork, hsame⟩ | ⟨hfork, hreg, hcnt, hssock⟩
    · rw [hsame, hfork]
      exact changed_keep (fun _ => rfl) rfl rfl
    · rw [hfork, if_pos rfl]
      refine ⟨?_, ?_, hssock⟩
      · rw [hreg]
        simp [Change.registered]
      · rw [hcnt]
        simp [Change.ioactivecnt]

/-! ## One step -/

/-- `Accounted`, of the registrations, the count and the self-pipe. -/
structure Balanced (r : Finset Slot) (n : UInt32) (ssock : Slot) : Prop where
  counted : n.toNat = r.card
  last : ∀ x, r = {x} → x = ssock

theorem card_le (r : Finset Slot) : r.card ≤ MAX_FD :=
  (Finset.card_le_univ r).trans_eq (Fintype.card_fin MAX_FD)

/-- The loop takes the one descriptor it counts for the self-pipe. -/
theorem accounted_iff_balanced (s : St) :
    Accounted s ↔ Balanced (registered s) s.ioactivecnt s.ssock := by
  have hgo : ∀ activecnt, goes_on activecnt s = false ↔
      activecnt = 0 ∧ s.ioactivecnt.toNat ≤ 1 := by
    intro activecnt
    simp only [goes_on, Bool.or_eq_false_iff, decide_eq_false_iff_not, gt_iff_lt,
      UInt32.lt_iff_toNat_lt, Nat.not_lt, ← UInt32.toNat_inj]
    exact and_congr_left fun _ => Nat.le_zero
  constructor
  · intro h
    refine ⟨h.counted, fun x hx => ?_⟩
    -- with one descriptor left the loop stops, so it is the self-pipe
    have hone : s.ioactivecnt.toNat ≤ 1 := by
      rw [h.counted, hx, Finset.card_singleton]
    have hsub := h.idle 0 ((hgo 0).2 ⟨rfl, hone⟩)
    rw [hx, Finset.singleton_subset_singleton] at hsub
    exact hsub
  · intro h
    refine ⟨h.counted, ?_, fun activecnt hstop => ?_⟩
    · rw [h.counted]
      exact card_le _
    · have hone := ((hgo activecnt).1 hstop).2
      rw [h.counted] at hone
      rcases Nat.le_one_iff_eq_zero_or_eq_one.1 hone with hzero | hsingle
      · rw [Finset.card_eq_zero.1 hzero]
        exact Finset.empty_subset _
      · obtain ⟨x, hx⟩ := Finset.card_eq_one.1 hsingle
        rw [hx, h.last x hx]

/-- What a change must meet, beside the descriptor that it registers being new. -/
def Change.Ok (r : Finset Slot) (ssock : Slot) : Change → Prop
  | .register fd => r = ∅ → fd = ssock
  | .unregister fd => fd ∈ r ∧ ∀ x, r.erase fd = {x} → x = ssock
  | _ => True

/-- There are at most `MAX_FD` descriptors, so the count does not wrap. -/
theorem counted_register {r : Finset Slot} {n : UInt32} {fd : Slot} (h : n.toNat = r.card)
    (hfd : fd ∉ r) : (n + 1).toNat = (insert fd r).card := by
  have hle := card_le r
  have hmax : MAX_FD = 4096 := rfl
  have hone : (1 : UInt32).toNat = 1 := rfl
  rw [Finset.card_insert_of_notMem hfd, UInt32.toNat_add]
  omega

/-- A descriptor that was not registered is counted off all the same. -/
theorem counted_unregister_iff {r : Finset Slot} {n : UInt32} {fd : Slot} (h : n.toNat = r.card) :
    (n - 1).toNat = (r.erase fd).card ↔ fd ∈ r := by
  have hle := card_le r
  have hmax : MAX_FD = 4096 := rfl
  have hone : (1 : UInt32).toNat = 1 := rfl
  rw [UInt32.toNat_sub]
  constructor
  · intro hsame
    by_contra hnot
    rw [Finset.erase_eq_of_notMem hnot] at hsame
    omega
  · intro hmem
    have hpos : 0 < r.card := Finset.card_pos.2 ⟨fd, hmem⟩
    rw [Finset.card_erase_of_mem hmem]
    omega

/-- A change keeps the balance exactly if it unregisters what is registered, and
leaves no other descriptor than the self-pipe alone. -/
theorem balanced_change_iff {r : Finset Slot} {n : UInt32} {ssock : Slot} (h : Balanced r n ssock)
    (c : Change) (hnew : ∀ fd, c = .register fd → fd ∉ r) :
    Balanced (c.registered r) (c.ioactivecnt n) (c.ssock ssock) ↔ c.Ok r ssock := by
  have hcounted := h.counted
  cases c with
  | keep => exact iff_of_true h trivial
  | register fd =>
    have hfd := hnew fd rfl
    have hcount := counted_register hcounted hfd
    simp only [Change.registered, Change.ioactivecnt, Change.ssock, Change.Ok]
    constructor
    · intro hb hempty
      refine hb.last fd ?_
      rw [hempty]
      rfl
    · intro hok
      refine ⟨hcount, fun x hx => ?_⟩
      have hcard : (insert fd r).card = 1 := by
        rw [hx, Finset.card_singleton]
      rw [Finset.card_insert_of_notMem hfd] at hcard
      -- one is left after an insertion only if there was none before
      have hempty : r = ∅ := Finset.card_eq_zero.1 (by omega)
      rw [hempty] at hx
      rw [← hok hempty]
      exact (Finset.singleton_injective hx).symm
  | unregister fd =>
    simp only [Change.registered, Change.ioactivecnt, Change.ssock, Change.Ok]
    have hcount : (n - 1).toNat = (r.erase fd).card ↔ fd ∈ r := counted_unregister_iff hcounted
    constructor
    · intro hb
      exact ⟨hcount.1 hb.counted, hb.last⟩
    · rintro ⟨hmem, hlast⟩
      exact ⟨hcount.2 hmem, hlast⟩
  | restart pipe fd =>
    refine iff_of_true ⟨?_, fun x hx => ?_⟩ trivial
    · simp only [Change.registered, Change.ioactivecnt]
      by_cases hfd : fd = pipe
      · simp [hfd]
      · rw [if_neg hfd, Finset.card_pair (Ne.symm hfd)]
        rfl
    · have hmem : pipe ∈ ({x} : Finset Slot) := by
        rw [← hx]
        simp [Change.registered]
      exact (Finset.mem_singleton.1 hmem).symm

/-- What a step unregisters is registered, unless it is what a wait was for. -/
theorem change_unregister {a : Act} {fd : Slot} (h : step s a = some s')
    (hc : change s a = .unregister fd) :
    (∃ g switch_arg, a = .resume g ∧ s.waits g = some (fd, switch_arg)) ∨ fd ∈ registered s := by
  cases a with
  -- `resume` is the one label that does not look whether the slot is active
  | resume g =>
    left
    simp only [change] at hc
    split at hc
    · cases hc
    next fd' switch_arg hw =>
      cases hc
      exact ⟨g, switch_arg, rfl, hw⟩
  | remove_reader x garbage | remove_writer x garbage =>
    right
    simp only [change] at hc
    split at hc
    next hact =>
      cases hc
      exact mem_registered.2 hact.1
    · cases hc
  | del_event x =>
    right
    simp only [change] at hc
    split at hc
    next hact =>
      cases hc
      exact mem_registered.2 hact
    · cases hc
  | fd_error x =>
    right
    obtain ⟨hact, _⟩ := Option.ite_none_right_eq_some.1 h
    cases hc
    exact mem_registered.2 hact.1
  | add_reader x _ _ _ | add_writer x _ _ _ =>
    simp only [change, registers] at hc
    split at hc
    · cases hc
    · split at hc <;> cases hc
  | io_trampoline _ x _ _ | add_event x _ _ =>
    simp only [change, registers] at hc
    split at hc <;> cases hc
  | run_once _ =>
    simp only [change] at hc
    split at hc <;> cases hc
  | fork_child => cases hc

/-- Only the end of a wait may unregister what is not registered. -/
theorem change_ok_iff {a : Act} (h : step s a = some s') :
    (change s a).Ok (registered s) s.ssock ↔ Held s a ∧ Piped s a := by
  have hresume : ∀ g fd switch_arg, a = .resume g → s.waits g = some (fd, switch_arg) →
      change s a = .unregister fd := by
    intro g fd switch_arg ha hw
    rw [ha]
    simp only [change, hw]
  unfold Piped
  cases hc : change s a with
  | keep | restart | register =>
    -- Case: no wait ends
    have hheld : Held s a := by
      intro g fd switch_arg ha hw
      rw [hresume g fd switch_arg ha hw] at hc
      cases hc
    simp [Change.Ok, hheld]
  | unregister fd =>
    simp only [Change.Ok]
    refine and_congr_left fun _ => ?_
    constructor
    · intro hmem g fd' switch_arg ha hw
      rw [hresume g fd' switch_arg ha hw] at hc
      cases hc
      exact hmem
    · intro hheld
      rcases change_unregister h hc with ⟨g, switch_arg, ha, hw⟩ | hmem
      · exact hheld g fd switch_arg ha hw
      · exact hmem

/-- What a step registers was not registered. -/
theorem change_new (s : St) (a : Act) (fd : Slot) (h : change s a = .register fd) :
    fd ∉ registered s := by
  have hregisters : ∀ x, registers s x = .register fd → fd ∉ registered s := by
    intro x hx
    unfold registers at hx
    split at hx
    · cases hx
    next hact =>
      cases hx
      rw [mem_registered]
      exact hact
  cases a with
  | add_reader x _ _ _ | add_writer x _ _ _ =>
    simp only [change] at h
    split at h
    · cases h
    · exact hregisters x h
  | io_trampoline _ x _ _ => exact hregisters x h
  | add_event x _ _ => exact hregisters x h
  | remove_reader _ _ | remove_writer _ _ | del_event _ | run_once _ =>
    simp only [change] at h
    split at h <;> cases h
  | resume g =>
    simp only [change] at h
    split at h <;> cases h
  | fd_error _ | fork_child => cases h

theorem step_accounted_iff (s : St) (a : Act) (s' : St) (h : step s a = some s')
    (ha : Accounted s) : Accounted s' ↔ Held s a ∧ Piped s a := by
  have hc := step_change h
  have hb := (accounted_iff_balanced s).1 ha
  rw [← change_ok_iff h, ← balanced_change_iff hb _ (change_new s a), accounted_iff_balanced,
    hc.registered, hc.ioactivecnt, hc.ssock]

/-! ## Runs -/

theorem init_accounted (ssock : Slot) : Accounted (init ssock) := by
  rw [accounted_iff_balanced]
  have hspec : registered (init ssock) = {ssock} ∧ (init ssock).ioactivecnt = 1 ∧
      (init ssock).ssock = ssock := make_self_pipe_spec rfl rfl ssock
  obtain ⟨hreg, hcnt, hssock⟩ := hspec
  rw [hreg, hcnt, hssock]
  refine ⟨?_, fun x hx => ?_⟩
  · rw [Finset.card_singleton]
    rfl
  · exact (Finset.singleton_injective hx).symm

/-- The registrations are accounted for all along a run exactly when each wait
ends while its descriptor is registered, and the self-pipe is the first and the
last to be registered. -/
theorem registrations_accounted_iff (ssock : Slot) (as : List Act) (t : St)
    (h : run step (init ssock) as = some t) :
    Always step Accounted (init ssock) as ↔
      Steps step (fun s a => Held s a ∧ Piped s a) (init ssock) as := by
  have hkeep : ∀ s a s', step s a = some s' → Held s a ∧ Piped s a → Accounted s → Accounted s →
      Accounted s' := by
    intro s a s' hs' hok _ ha
    exact (step_accounted_iff s a s' hs' ha).2 hok
  have hiff : ∀ s a s', step s a = some s' → Accounted s → Accounted s →
      (Accounted s' ↔ Held s a ∧ Piped s a) := by
    intro s a s' hs' _ ha
    exact step_accounted_iff s a s' hs' ha
  exact always_iff_steps hkeep hiff (init_accounted ssock) (init_accounted ssock) h

/-- Two waits on two descriptors, a reader beside them, and a fork. -/
theorem registrations_accounted_iff_forked : ∃ t, run step (init 3)
    [.io_trampoline 1 5 ⟨true, false⟩ 0, .io_trampoline 2 6 ⟨false, true⟩ 9,
      .add_reader 7 1 (none, none) 0, .resume 2, .resume 1, .fork_child, .run_once 4,
      .remove_reader 7 (none, none)] = some t ∧
    (Always step Accounted (init 3)
        [.io_trampoline 1 5 ⟨true, false⟩ 0, .io_trampoline 2 6 ⟨false, true⟩ 9,
          .add_reader 7 1 (none, none) 0, .resume 2, .resume 1, .fork_child, .run_once 4,
          .remove_reader 7 (none, none)] ↔
      Steps step (fun s a => Held s a ∧ Piped s a) (init 3)
        [.io_trampoline 1 5 ⟨true, false⟩ 0, .io_trampoline 2 6 ⟨false, true⟩ 9,
          .add_reader 7 1 (none, none) 0, .resume 2, .resume 1, .fork_child, .run_once 4,
          .remove_reader 7 (none, none)]) := by
  have h : (run step (init 3)
      [.io_trampoline 1 5 ⟨true, false⟩ 0, .io_trampoline 2 6 ⟨false, true⟩ 9,
        .add_reader 7 1 (none, none) 0, .resume 2, .resume 1, .fork_child, .run_once 4,
        .remove_reader 7 (none, none)]).any
          (fun t => t.ssock = 4 && t.ioactivecnt = 1) = true := by
    decide
  rcases run_any h with ⟨t, ht, _⟩
  exact ⟨t, ht, registrations_accounted_iff 3 _ t ht⟩

/-- Two greenlets wait for one descriptor. It is counted once and taken off
twice, so the reader that is added after that is not enough to keep the loop. -/
theorem second_wait_uncounted :
    ¬ ∀ ssock as t, run step (init ssock) as = some t → Accounted t := by
  intro hall
  have h : (run step (init 3)
      [.io_trampoline 1 5 ⟨true, false⟩ 0, .io_trampoline 2 5 ⟨true, false⟩ 0, .resume 1,
        .resume 2, .add_reader 7 1 (none, none) 0]).any
          (fun t => goes_on 0 t = false ∧ active t 7 = true ∧ t.ssock = 3) = true := by
    decide
  rcases run_any h with ⟨t, ht, hp⟩
  obtain ⟨hstop, hact, hssock⟩ := of_decide_eq_true hp
  have hmem := (hall 3 _ t ht).idle 0 hstop (mem_registered.2 hact)
  rw [hssock, Finset.mem_singleton] at hmem
  exact absurd hmem (by decide)

end Jega.Io.Registry
