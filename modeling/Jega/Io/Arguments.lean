import Jega.Io.Counting
import Jega.Trace.History

/-!
# Jega.Io.Arguments — who may read and destroy a callback argument

A slot keeps its argument when its descriptor is deleted, and nothing tells a
`callback_arg_t` from the `switch_arg_t` of a wait or the `LoopObject` of a DNS
socket. The readers and writers take the argument of any registered descriptor
for a `callback_arg_t`, and the destruction of the main loop destroys the
arguments of all slots as such.

`Holder` tells from the calls alone what a slot was last used for.

## Main result

* `arguments_owned_iff`: the exact condition for every argument that is read or
  destroyed to be a live `callback_arg_t`, along every run.
-/

namespace Jega.Io.Registry

open Trace

/-! ## The life of a loop -/

/-- The loop object, and whether it is gone. -/
structure Life where
  st : St
  gone : Bool

inductive Op where
  | act (a : Act)
  /-- Picoev reports a readiness to `fd_callback`, which reads its argument. -/
  | fd_callback (fd : Slot)
  /-- `LoopObject_clear`, called by the deallocation of the loop. -/
  | clear
deriving DecidableEq, Repr

/-- `fd_callback` is registered for the descriptor. -/
def Reads (s : St) (fd : Slot) : Prop :=
  active s fd = true ∧ (s.fds fd).callback = some .fd_callback

instance (s : St) (fd : Slot) : Decidable (Reads s fd) :=
  inferInstanceAs (Decidable (_ ∧ _))

def op_step (s : Life) (op : Op) : Option Life :=
  if s.gone then none
  else
    match op with
    | .act a => (step s.st a).map fun st => { s with st := st }
    | .fd_callback fd => if Reads s.st fd then some s else none
    | .clear => some ⟨destroy_main_loop s.st, true⟩

/-! ## What is read and destroyed -/

/-- The address is one of a `callback_arg_t` that `make_callback_arg` made and
nobody destroyed. -/
def Live (mem : Addr → Cell) (carg : Addr) : Prop := ∃ r w, mem carg = .callback_arg r w

/-- The argument of the slot may be read, and destroyed. -/
def SlotOwned (s : St) (fd : Slot) : Prop := Live s.mem (s.fds fd).cb_arg

/-- `cb_arg_clear_handler` may destroy the arguments of all slots, one after
another. -/
structure SweepOwned (s : St) : Prop where
  live : ∀ fd, (s.fds fd).cb_arg ≠ NULL → SlotOwned s fd
  once : ∀ fd fd', (s.fds fd).cb_arg ≠ NULL → (s.fds fd).cb_arg = (s.fds fd').cb_arg → fd = fd'

/-- `register_fd_callback` first looks for a fork, which destroys the loop, and
then merges with the argument of a registered descriptor. -/
def RegisterOwned (s : St) (fd ssock : Slot) : Prop :=
  (s.postfork = true → SweepOwned s) ∧
    (active (call_fork_loop s ssock) fd = true → SlotOwned (call_fork_loop s ssock) fd)

/-- Whatever the step reads or destroys as a `callback_arg_t` is a live one, and
it destroys nothing twice. -/
def Owned (s : Life) : Op → Prop
  | .act (.add_reader fd _ _ ssock) => RegisterOwned s.st fd ssock
  | .act (.add_writer fd _ _ ssock) => RegisterOwned s.st fd ssock
  | .act (.remove_reader fd _) => active s.st fd = true → SlotOwned s.st fd
  | .act (.remove_writer fd _) => active s.st fd = true → SlotOwned s.st fd
  | .act (.fd_error fd) => Reads s.st fd → SlotOwned s.st fd
  | .act (.run_once _) => s.st.postfork = true → SweepOwned s.st
  | .fd_callback fd => Reads s.st fd → SlotOwned s.st fd
  | .clear => SweepOwned s.st
  | _ => True

/-! ## What the calls tell -/

/-- What a slot was last used for: nothing, a reader or a writer, a registration
of these that is over, or a wait or DNS socket. -/
inductive Holder where
  | unused
  | callbacks (reader writer : Bool)
  | removed
  | foreign
deriving DecidableEq, Repr

/-- A new loop, with its self-pipe. -/
def restarted (ssock : Slot) : Slot → Holder :=
  Function.update (fun _ => .unused) ssock (.callbacks true false)

/-- One direction more. -/
def Holder.merged (reader writer : Bool) : Holder → Holder
  | .callbacks r w => .callbacks (reader || r) (writer || w)
  | h => h

/-- A reader or writer is added. -/
def added (s : St) (l : Slot → Holder) (fd ssock : Slot) (reader writer : Bool) : Slot → Holder :=
  let l := if s.postfork then restarted ssock else l
  let registered := if s.postfork then decide (fd = ssock) else active s fd
  Function.update l fd
    (if registered then (l fd).merged reader writer else .callbacks reader writer)

def Holder.without_reader : Holder → Holder
  | .callbacks _ true => .callbacks false true
  | _ => .removed

def Holder.without_writer : Holder → Holder
  | .callbacks true _ => .callbacks true false
  | _ => .removed

/-- The holders after a step. -/
def note (s : Life) (op : Op) (_ : Life) (l : Slot → Holder) : Slot → Holder :=
  match op with
  | .act (.add_reader fd _ _ ssock) => added s.st l fd ssock true false
  | .act (.add_writer fd _ _ ssock) => added s.st l fd ssock false true
  | .act (.remove_reader fd _) =>
    if active s.st fd then Function.update l fd (l fd).without_reader else l
  | .act (.remove_writer fd _) =>
    if active s.st fd then Function.update l fd (l fd).without_writer else l
  | .act (.io_trampoline _ fd _ _) => Function.update l fd .foreign
  | .act (.add_event fd _ _) => Function.update l fd .foreign
  | .act (.fd_error fd) => Function.update l fd .removed
  | .act (.run_once ssock) => if s.st.postfork then restarted ssock else l
  | _ => l

abbrev held := watch op_step note

/-- The loop of `init`, which has registered its self-pipe. -/
def held_init (ssock : Slot) : Watched Life (Slot → Holder) :=
  ⟨⟨init ssock, false⟩, restarted ssock⟩

/-- Every slot that was used since the loop was made has a reader or a writer. -/
def Clean (l : Slot → Holder) : Prop := ∀ fd, l fd = .unused ∨ ∃ r w, l fd = .callbacks r w

/-- Readers and writers are not added to or removed from a descriptor that is
registered for a wait or for DNS, and the loop is destroyed when it is clean. -/
def Proper (t : Watched Life (Slot → Holder)) : Op → Prop
  | .act (.add_reader fd _ _ _) =>
    if t.st.st.postfork then Clean t.hist else active t.st.st fd = true → t.hist fd ≠ .foreign
  | .act (.add_writer fd _ _ _) =>
    if t.st.st.postfork then Clean t.hist else active t.st.st fd = true → t.hist fd ≠ .foreign
  | .act (.remove_reader fd _) => active t.st.st fd = true → t.hist fd ≠ .foreign
  | .act (.remove_writer fd _) => active t.st.st fd = true → t.hist fd ≠ .foreign
  | .act (.run_once _) => t.st.st.postfork = true → Clean t.hist
  | .clear => Clean t.hist
  | _ => True

/-! ## The slots and their holders -/

/-- The slot has the argument its holder left there. -/
def Matches (mem : Addr → Cell) (target : picoev_fd (Option Handler) Addr) : Holder → Prop
  | .unused => target.cb_arg = NULL ∧ picoev_is_active loop_id target = false
  | .callbacks r w => target.cb_arg ≠ NULL ∧ target.callback = some .fd_callback ∧
      ∃ cbs : Callbacks, mem target.cb_arg = .callback_arg cbs.1 cbs.2 ∧
        cbs.1.isSome = r ∧ cbs.2.isSome = w
  | .removed => target.cb_arg ≠ NULL ∧ picoev_is_active loop_id target = false ∧
      mem target.cb_arg = .freed
  | .foreign => target.cb_arg ≠ NULL ∧ target.callback ≠ some .fd_callback ∧
      ¬ Live mem target.cb_arg

structure Kept (s : St) (l : Slot → Holder) : Prop where
  slot : ∀ fd, Matches s.mem (s.fds fd) (l fd)
  lt : ∀ fd, (s.fds fd).cb_arg < s.next
  apart : ∀ fd fd', SlotOwned s fd → (s.fds fd).cb_arg = (s.fds fd').cb_arg → fd = fd'
  waits : ∀ g fd switch_arg, s.waits g = some (fd, switch_arg) →
    switch_arg < s.next ∧ ¬ Live s.mem switch_arg
  null_dead : ¬ Live s.mem NULL
  loop_dead : ¬ Live s.mem loop
  loop_lt : loop < s.next

/-- The cell is as it was, or it was no callback argument and was freed. -/
def Aged (mem mem' : Addr → Cell) (a : Addr) : Prop :=
  mem' a = mem a ∨ mem' a = .freed ∧ ¬ Live mem a

section Matches

variable {mem mem' : Addr → Cell} {target : picoev_fd (Option Handler) Addr} {h : Holder}

theorem Matches.aged (hm : Matches mem target h) (ha : Aged mem mem' target.cb_arg) :
    Matches mem' target h := by
  cases h with
  | unused => exact hm
  | callbacks r w =>
    obtain ⟨hnull, hcb, cbs, hmem, hr, hw⟩ := hm
    rcases ha with hsame | ⟨_, hdead⟩
    · exact ⟨hnull, hcb, cbs, hsame.trans hmem, hr, hw⟩
    · exact absurd ⟨_, _, hmem⟩ hdead
  | removed =>
    obtain ⟨hnull, hact, hmem⟩ := hm
    refine ⟨hnull, hact, ?_⟩
    rcases ha with hsame | ⟨hfreed, _⟩
    · exact hsame.trans hmem
    · exact hfreed
  | foreign =>
    obtain ⟨hnull, hcb, hdead⟩ := hm
    refine ⟨hnull, hcb, ?_⟩
    rintro ⟨r, w, hlive⟩
    rcases ha with hsame | ⟨hfreed, _⟩
    · exact hdead ⟨r, w, hsame ▸ hlive⟩
    · rw [hfreed] at hlive
      cases hlive

/-- The argument of a slot that is in use by readers and writers is live, and no
other one. -/
theorem Matches.live_iff (hm : Matches mem target h) (hnull : ¬ Live mem NULL) :
    Live mem target.cb_arg ↔ ∃ r w, h = .callbacks r w := by
  cases h with
  | unused =>
    rw [hm.1]
    exact iff_of_false hnull (fun ⟨_, _, heq⟩ => by cases heq)
  | callbacks r w =>
    obtain ⟨_, _, cbs, hmem, _⟩ := hm
    exact iff_of_true ⟨_, _, hmem⟩ ⟨r, w, rfl⟩
  | removed =>
    refine iff_of_false ?_ (fun ⟨_, _, heq⟩ => by cases heq)
    rintro ⟨r, w, hlive⟩
    rw [hm.2.2] at hlive
    cases hlive
  | foreign => exact iff_of_false hm.2.2 (fun ⟨_, _, heq⟩ => by cases heq)

theorem Matches.null_iff (hm : Matches mem target h) : target.cb_arg = NULL ↔ h = .unused := by
  cases h with
  | unused => exact iff_of_true hm.1 rfl
  | callbacks r w => exact iff_of_false hm.1 nofun
  | removed => exact iff_of_false hm.1 nofun
  | foreign => exact iff_of_false hm.1 nofun

/-- A registered slot is in use. -/
theorem Matches.of_active (hm : Matches mem target h) (ha : picoev_is_active loop_id target = true) :
    (∃ r w, h = .callbacks r w) ∨ h = .foreign := by
  cases h with
  | unused =>
    rw [hm.2] at ha
    cases ha
  | callbacks r w => exact .inl ⟨r, w, rfl⟩
  | removed =>
    rw [hm.2.1] at ha
    cases ha
  | foreign => exact .inr rfl

/-- A deleted descriptor keeps its argument. -/
theorem Matches.del (hm : Matches mem target h) : Matches mem (picoev_del target) h := by
  have hact : picoev_is_active loop_id (picoev_del target) = false := by
    simp [picoev_is_active, picoev_del, loop_id]
  cases h with
  | unused => exact ⟨hm.1, hact⟩
  | callbacks r w => exact hm
  | removed => exact ⟨hm.1, hact, hm.2.2⟩
  | foreign => exact hm

end Matches

/-! ## How they are kept -/

section Kept

variable {s s' : St} {l : Slot → Holder}

/-- One slot is written, and the cells of the others only age. -/
theorem Kept.put (hk : Kept s l) {fd : Slot} {target : picoev_fd (Option Handler) Addr} {h : Holder}
    (hfds : s'.fds = Function.update s.fds fd target) (hslot : Matches s'.mem target h)
    (haged : ∀ x, x ≠ fd → Aged s.mem s'.mem (s.fds x).cb_arg) (hlt : target.cb_arg < s'.next)
    (hnext : s.next ≤ s'.next)
    (hapart : ∀ x, x ≠ fd → Live s'.mem (s.fds x).cb_arg ∨ Live s'.mem target.cb_arg →
      (s.fds x).cb_arg ≠ target.cb_arg)
    (hdead : ∀ a < s.next, ¬ Live s.mem a → ¬ Live s'.mem a)
    (hwaits : ∀ g fd switch_arg, s'.waits g = some (fd, switch_arg) →
      switch_arg < s'.next ∧ ¬ Live s'.mem switch_arg) :
    Kept s' (Function.update l fd h) where
  slot := by
    intro x
    rw [hfds]
    by_cases hx : x = fd
    · subst hx
      rw [Function.update_self, Function.update_self]
      exact hslot
    · rw [Function.update_of_ne hx, Function.update_of_ne hx]
      exact (hk.slot x).aged (haged x hx)
  lt := by
    intro x
    rw [hfds]
    by_cases hx : x = fd
    · subst hx
      rw [Function.update_self]
      exact hlt
    · rw [Function.update_of_ne hx]
      exact Nat.lt_of_lt_of_le (hk.lt x) hnext
  apart := by
    intro x y hx heq
    unfold SlotOwned at hx
    rw [hfds] at hx heq
    by_cases hxf : x = fd
    · by_cases hyf : y = fd
      · exact hxf.trans hyf.symm
      · subst hxf
        rw [Function.update_self] at hx heq
        rw [Function.update_of_ne hyf] at heq
        exact absurd heq.symm (hapart y hyf (.inr hx))
    · rw [Function.update_of_ne hxf] at hx heq
      by_cases hyf : y = fd
      · subst hyf
        rw [Function.update_self] at heq
        exact absurd heq (hapart x hxf (.inl hx))
      · rw [Function.update_of_ne hyf] at heq
        refine hk.apart x y ?_ heq
        by_contra hdead'
        exact hdead _ (hk.lt x) hdead' hx
  waits := hwaits
  null_dead := hdead _ (Nat.lt_trans Nat.zero_lt_one hk.loop_lt) hk.null_dead
  loop_dead := hdead _ hk.loop_lt hk.loop_dead
  loop_lt := Nat.lt_of_lt_of_le hk.loop_lt hnext

/-- Nothing but the slots, the memory and the waits matters. -/
theorem Kept.congr (hk : Kept s l) (hfds : s'.fds = s.fds) (hmem : s'.mem = s.mem)
    (hnext : s'.next = s.next) (hwaits : s'.waits = s.waits) : Kept s' l where
  slot := by
    rw [hfds, hmem]
    exact hk.slot
  lt := by
    rw [hfds, hnext]
    exact hk.lt
  apart := by
    unfold SlotOwned
    rw [hfds, hmem]
    exact hk.apart
  waits := by
    rw [hwaits, hmem, hnext]
    exact hk.waits
  null_dead := hmem ▸ hk.null_dead
  loop_dead := hmem ▸ hk.loop_dead
  loop_lt := hnext ▸ hk.loop_lt

/-- A cell that is written leaves the others alone. -/
theorem live_update {mem : Addr → Cell} {a b : Addr} {cell : Cell} (h : b ≠ a) :
    Live (Function.update mem a cell) b ↔ Live mem b := by
  simp only [Live, Function.update_of_ne h]

/-- A new cell of memory. -/
theorem Kept.aged_new (hk : Kept s l) (cell : Cell) (x : Slot) :
    Aged s.mem (Function.update s.mem s.next cell) (s.fds x).cb_arg :=
  .inl (Function.update_of_ne (Nat.ne_of_lt (hk.lt x)) _ _)

/-- An argument that is allocated and put into a slot. -/
theorem Kept.alloc (hk : Kept s l) {fd : Slot} {target : picoev_fd (Option Handler) Addr}
    {h : Holder} {cell : Cell} (hfds : s'.fds = Function.update s.fds fd target)
    (hmem : s'.mem = Function.update s.mem s.next cell) (hnext : s'.next = s.next + 1)
    (harg : target.cb_arg = s.next) (hslot : Matches s'.mem target h)
    (hwaits : ∀ g fd switch_arg, s'.waits g = some (fd, switch_arg) →
      s.waits g = some (fd, switch_arg) ∨ switch_arg = s.next ∧ ¬ Live s'.mem s.next) :
    Kept s' (Function.update l fd h) := by
  have hdead : ∀ a < s.next, ¬ Live s.mem a → ¬ Live s'.mem a := by
    intro a ha hd
    rw [hmem, live_update (Nat.ne_of_lt ha)]
    exact hd
  refine hk.put hfds hslot (fun x _ => hmem ▸ hk.aged_new cell x) ?_ ?_ ?_ hdead ?_
  · rw [harg, hnext]
    exact Nat.lt_succ_self _
  · rw [hnext]
    exact Nat.le_succ _
  · intro x _ _
    rw [harg]
    exact Nat.ne_of_lt (hk.lt x)
  · intro g fd' switch_arg hg
    rcases hwaits g fd' switch_arg hg with hold | ⟨heq, hd⟩
    · obtain ⟨hlt, hd⟩ := hk.waits g fd' switch_arg hold
      exact ⟨hnext ▸ Nat.lt_succ_of_lt hlt, hdead _ hlt hd⟩
    · exact ⟨by rw [hnext, heq]; exact Nat.lt_succ_self _, heq ▸ hd⟩

/-- The argument of a slot of readers and writers is written or destroyed. -/
theorem Kept.write (hk : Kept s l) {fd : Slot} {target : picoev_fd (Option Handler) Addr}
    {h : Holder} {cell : Cell} (hlive : SlotOwned s fd)
    (hfds : s'.fds = Function.update s.fds fd target)
    (hmem : s'.mem = Function.update s.mem (s.fds fd).cb_arg cell) (hnext : s'.next = s.next)
    (harg : target.cb_arg = (s.fds fd).cb_arg) (hslot : Matches s'.mem target h)
    (hwaits : s'.waits = s.waits) : Kept s' (Function.update l fd h) := by
  have hother : ∀ x, x ≠ fd → (s.fds x).cb_arg ≠ (s.fds fd).cb_arg := by
    intro x hx heq
    exact hx (hk.apart fd x hlive heq.symm).symm
  have hdead : ∀ a < s.next, ¬ Live s.mem a → ¬ Live s'.mem a := by
    intro a _ hd
    have hne : a ≠ (s.fds fd).cb_arg := by
      rintro rfl
      exact hd hlive
    rw [hmem, live_update hne]
    exact hd
  refine hk.put hfds hslot (fun x hx => .inl ?_) ?_ (Nat.le_of_eq hnext.symm) ?_ hdead ?_
  · rw [hmem, Function.update_of_ne (hother x hx)]
  · rw [harg, hnext]
    exact hk.lt fd
  · intro x hx _
    rw [harg]
    exact hother x hx
  · intro g fd' switch_arg hg
    rw [hwaits] at hg
    obtain ⟨hlt, hd⟩ := hk.waits g fd' switch_arg hg
    exact ⟨hnext ▸ hlt, hdead _ hlt hd⟩

/-- A descriptor is deleted, and a cell that is no callback argument may be
freed. -/
theorem Kept.delete (hk : Kept s l) {fd : Slot}
    (hfds : s'.fds = Function.update s.fds fd (picoev_del (s.fds fd)))
    (haged : ∀ a, Aged s.mem s'.mem a) (hnext : s'.next = s.next)
    (hwaits : ∀ g p, s'.waits g = some p → s.waits g = some p) : Kept s' l := by
  have hdead : ∀ a, ¬ Live s.mem a → ¬ Live s'.mem a := by
    rintro a hd ⟨r, w, hlive⟩
    rcases haged a with hsame | ⟨hfreed, _⟩
    · exact hd ⟨r, w, hsame ▸ hlive⟩
    · rw [hfreed] at hlive
      cases hlive
  rw [← Function.update_eq_self fd l]
  refine hk.put hfds ((hk.slot fd).aged (haged _)).del (fun x _ => haged _) (hnext ▸ hk.lt fd)
    (Nat.le_of_eq hnext.symm) ?_ (fun a _ => hdead a) ?_
  · intro x hx hlive heq
    have hslot : (s.fds x).cb_arg = (s.fds fd).cb_arg := heq
    have hwas : SlotOwned s x := by
      by_contra hd
      rcases hlive with hlive | hlive
      · exact hdead _ hd hlive
      · refine hdead _ ?_ hlive
        show ¬ Live s.mem (s.fds fd).cb_arg
        rw [← hslot]
        exact hd
    exact hx (hk.apart x fd hwas hslot)
  · intro g fd' switch_arg hg
    obtain ⟨hlt, hd⟩ := hk.waits g fd' switch_arg (hwaits g _ hg)
    exact ⟨hnext ▸ hlt, hdead _ hd⟩

/-! ## Registrations and removals -/

/-- One of the two callbacks, as the readers and writers pass it. -/
def One (cbs : Callbacks) : Prop := cbs.1.isSome = !cbs.2.isSome

/-- `merge_callback_arg` adds the direction that is asked for, unless it is there. -/
theorem merge_isSome (orig : Callbacks) {cbs : Callbacks} (hone : One cbs) :
    (∀ merged, merge_callback_arg orig.1 cbs.1 cbs.2 orig.2 = some merged →
      merged.1.isSome = (cbs.1.isSome || orig.1.isSome) ∧
        merged.2.isSome = (cbs.2.isSome || orig.2.isSome)) ∧
    (merge_callback_arg orig.1 cbs.1 cbs.2 orig.2 = none →
      orig.1.isSome = (cbs.1.isSome || orig.1.isSome) ∧
        orig.2.isSome = (cbs.2.isSome || orig.2.isSome)) := by
  obtain ⟨read, write⟩ := cbs
  obtain ⟨orig_read, orig_write⟩ := orig
  cases read with
  | some cb =>
    cases write with
    | some cb' => cases hone
    | none => cases orig_read <;> simp [merge_callback_arg]
  | none =>
    cases write with
    | some cb => cases orig_write <;> simp [merge_callback_arg]
    | none => cases hone

/-- The argument of a slot of readers and writers. -/
theorem Kept.slot_callbacks (hk : Kept s l) {fd : Slot} {r w : Bool} (h : l fd = .callbacks r w) :
    SlotOwned s fd ∧ (s.fds fd).cb_arg ≠ NULL ∧ (s.fds fd).callback = some .fd_callback ∧
      ∀ garbage, (callbacks s.mem garbage (s.fds fd).cb_arg).1.isSome = r ∧
        (callbacks s.mem garbage (s.fds fd).cb_arg).2.isSome = w := by
  have hslot := hk.slot fd
  rw [h] at hslot
  obtain ⟨hnull, hcb, cbs, hmem, hr, hw⟩ := hslot
  refine ⟨⟨_, _, hmem⟩, hnull, hcb, fun garbage => ?_⟩
  rw [callbacks, hmem]
  exact ⟨hr, hw⟩

/-- What is written to a live argument is there. -/
theorem set_callbacks_live {mem : Addr → Cell} {carg : Addr} (h : Live mem carg) (cbs : Callbacks) :
    set_callbacks mem carg cbs = Function.update mem carg (.callback_arg cbs.1 cbs.2) := by
  obtain ⟨r, w, hmem⟩ := h
  unfold set_callbacks
  rw [hmem]

/-- An unregistered descriptor gets a new argument. -/
theorem Kept.register_new (hk : Kept s l) {fd : Slot} {event : Events} {cbs garbage : Callbacks}
    (hact : active s fd = false) :
    Kept (register s fd event cbs garbage)
      (Function.update l fd (.callbacks cbs.1.isSome cbs.2.isSome)) := by
  have hnot : ¬ picoev_is_active loop_id (s.fds fd) = true := by
    rw [Bool.not_eq_true]
    exact hact
  have hreg : register s fd event cbs garbage =
      { s with
        mem := Function.update s.mem s.next (.callback_arg cbs.1 cbs.2)
        next := s.next + 1
        fds := Function.update s.fds fd (picoev_add loop_id event 0 (some .fd_callback) s.next)
        ioactivecnt := s.ioactivecnt + 1 } := if_neg hnot
  rw [hreg]
  refine hk.alloc rfl rfl rfl rfl ⟨?_, rfl, cbs, ?_, rfl, rfl⟩ (fun _ _ _ h => .inl h)
  · exact Nat.ne_of_gt (Nat.lt_trans Nat.zero_lt_one hk.loop_lt)
  · exact Function.update_self _ _ _

/-- A new argument in memory, and in no slot yet. -/
def made (s : St) (cbs : Callbacks) : St :=
  { s with
    mem := Function.update s.mem s.next (.callback_arg cbs.1 cbs.2)
    next := s.next + 1 }

@[simp] theorem made_fds (s : St) (cbs : Callbacks) : (made s cbs).fds = s.fds := rfl

/-- The new argument is not registered for any descriptor. -/
theorem Kept.with_made (hk : Kept s l) (cbs : Callbacks) : Kept (made s cbs) l := by
  have hdead : ∀ a < s.next, ¬ Live s.mem a → ¬ Live (made s cbs).mem a := by
    intro a ha hd
    rwa [made, live_update (Nat.ne_of_lt ha)]
  -- some slot is written with what it holds
  have hput : Kept (made s cbs) (Function.update l 0 (l 0)) := by
    refine hk.put (Function.update_eq_self 0 s.fds).symm ((hk.slot 0).aged (hk.aged_new _ 0))
      (fun x _ => hk.aged_new _ x) (Nat.lt_succ_of_lt (hk.lt 0)) (Nat.le_succ _) ?_ hdead ?_
    · intro x hx hlive heq
      refine hx (hk.apart x 0 ?_ heq)
      by_contra hd
      rcases hlive with hlive | hlive
      · exact hdead _ (hk.lt x) hd hlive
      · rw [← heq] at hlive
        exact hdead _ (hk.lt x) hd hlive
    · intro g fd switch_arg hg
      obtain ⟨hlt, hd⟩ := hk.waits g fd switch_arg hg
      exact ⟨Nat.lt_succ_of_lt hlt, hdead _ hlt hd⟩
  rwa [Function.update_eq_self] at hput

/-- "Not allow overwrite" -/
theorem register_refused {fd : Slot} {cbs garbage : Callbacks} (hact : active s fd = true)
    (event : Events)
    (hm : merge_callback_arg (callbacks (made s cbs).mem garbage (s.fds fd).cb_arg).1 cbs.1 cbs.2
      (callbacks (made s cbs).mem garbage (s.fds fd).cb_arg).2 = none) :
    register s fd event cbs garbage = made s cbs := by
  unfold register
  unfold made at hm ⊢
  simp only [active] at hact
  simp only [active, hact, if_true, hm]

theorem register_merged {fd : Slot} {cbs garbage merged : Callbacks} (hact : active s fd = true)
    (event : Events)
    (hm : merge_callback_arg (callbacks (made s cbs).mem garbage (s.fds fd).cb_arg).1 cbs.1 cbs.2
      (callbacks (made s cbs).mem garbage (s.fds fd).cb_arg).2 = some merged) :
    register s fd event cbs garbage =
      { made s cbs with
        mem := set_callbacks (made s cbs).mem (s.fds fd).cb_arg merged
        fds := Function.update s.fds fd (picoev_set_events (s.fds fd) ⟨true, true⟩) } := by
  unfold register
  unfold made at hm ⊢
  simp only [active] at hact
  simp only [active, hact, if_true, hm]

/-- The argument of a registered descriptor gets one direction more, if it lacks
it. -/
theorem Kept.register_merge (hk : Kept s l) {fd : Slot} {event : Events} {cbs garbage : Callbacks}
    {r w : Bool} (hone : One cbs) (hact : active s fd = true) (h : l fd = .callbacks r w) :
    Kept (register s fd event cbs garbage)
      (Function.update l fd ((l fd).merged cbs.1.isSome cbs.2.isSome)) := by
  have hk₁ : Kept (made s cbs) l := hk.with_made cbs
  obtain ⟨hlive, hnull, hcb, hsome⟩ := hk₁.slot_callbacks h
  obtain ⟨hr, hw⟩ := hsome garbage
  have harg : Live (made s cbs).mem (s.fds fd).cb_arg := hlive
  rw [made_fds] at hr hw
  obtain ⟨hmerged, hsame⟩ :=
    merge_isSome (callbacks (made s cbs).mem garbage (s.fds fd).cb_arg) hone
  cases hm : merge_callback_arg (callbacks (made s cbs).mem garbage (s.fds fd).cb_arg).1 cbs.1 cbs.2
      (callbacks (made s cbs).mem garbage (s.fds fd).cb_arg).2 with
  | none =>
    -- Case: "Not allow overwrite"
    obtain ⟨hr', hw'⟩ := hsame hm
    rw [register_refused hact event hm, h, Holder.merged, ← hr, ← hw, ← hr', ← hw', hr, hw, ← h,
      Function.update_eq_self]
    exact hk₁
  | some merged =>
    obtain ⟨hr', hw'⟩ := hmerged merged hm
    rw [register_merged hact event hm, h, Holder.merged, set_callbacks_live harg]
    refine hk₁.write hlive rfl rfl rfl rfl ⟨hnull, hcb, merged, ?_, ?_, ?_⟩ rfl
    · exact Function.update_self _ _ _
    · rw [hr', ← hr]
    · rw [hw', ← hw]

/-- One direction is removed, and the other one stays. -/
theorem Kept.narrow (hk : Kept s l) {fd : Slot} {r w : Bool} (h : l fd = .callbacks r w)
    (cbs : Callbacks) (event : Events) :
    Kept
      { s with
        mem := set_callbacks s.mem (s.fds fd).cb_arg cbs
        fds := Function.update s.fds fd (picoev_set_events (s.fds fd) event) }
      (Function.update l fd (.callbacks cbs.1.isSome cbs.2.isSome)) := by
  obtain ⟨hlive, hnull, hcb, _⟩ := hk.slot_callbacks h
  rw [set_callbacks_live hlive]
  refine hk.write hlive rfl rfl rfl rfl ⟨hnull, hcb, cbs, ?_, rfl, rfl⟩ rfl
  exact Function.update_self _ _ _

/-- The last direction is removed, and the argument destroyed. -/
theorem Kept.destroy (hk : Kept s l) {fd : Slot} {r w : Bool} (h : l fd = .callbacks r w) :
    Kept (destroy_callback_arg (del s fd) (s.fds fd).cb_arg) (Function.update l fd .removed) := by
  obtain ⟨hlive, hnull, _⟩ := hk.slot_callbacks h
  refine hk.write hlive rfl rfl rfl rfl ⟨hnull, ?_, ?_⟩ rfl
  · simp [picoev_is_active, picoev_del, loop_id]
  · exact Function.update_self _ _ _

theorem Kept.remove_reader (hk : Kept s l) {fd : Slot} {r w : Bool} (garbage : Callbacks)
    (hact : active s fd = true) (h : l fd = .callbacks r w) :
    Kept (LoopObject_remove_reader s fd garbage)
      (Function.update l fd (l fd).without_reader) := by
  obtain ⟨_, _, _, hsome⟩ := hk.slot_callbacks h
  obtain ⟨_, hw⟩ := hsome garbage
  simp only [LoopObject_remove_reader, hact, if_true]
  rw [h]
  cases w with
  | true =>
    simp only [hw, if_true]
    have hkept := hk.narrow h (none, (callbacks s.mem garbage (s.fds fd).cb_arg).2) ⟨false, true⟩
    rw [hw] at hkept
    exact hkept
  | false =>
    simp only [hw, Bool.false_eq_true, if_false]
    exact hk.destroy h

theorem Kept.remove_writer (hk : Kept s l) {fd : Slot} {r w : Bool} (garbage : Callbacks)
    (hact : active s fd = true) (h : l fd = .callbacks r w) :
    Kept (LoopObject_remove_writer s fd garbage)
      (Function.update l fd (l fd).without_writer) := by
  obtain ⟨_, _, _, hsome⟩ := hk.slot_callbacks h
  obtain ⟨hr, _⟩ := hsome garbage
  simp only [LoopObject_remove_writer, hact, if_true]
  rw [h]
  cases r with
  | true =>
    simp only [hr, if_true]
    have hkept := hk.narrow h ((callbacks s.mem garbage (s.fds fd).cb_arg).1, none) ⟨true, false⟩
    rw [hr] at hkept
    exact hkept
  | false =>
    simp only [hr, Bool.false_eq_true, if_false]
    exact hk.destroy h

/-! ## The new loop -/

theorem Kept.destroy_main_loop (hk : Kept s l) :
    Kept (Registry.destroy_main_loop s) (fun _ => .unused) := by
  have hdead : ∀ a, ¬ Live s.mem a → ¬ Live (Registry.destroy_main_loop s).mem a := by
    rintro a hd ⟨r, w, hlive⟩
    simp only [Registry.destroy_main_loop] at hlive
    split at hlive
    · cases hlive
    · exact hd ⟨r, w, hlive⟩
  have hnull : ∀ fd, ((Registry.destroy_main_loop s).fds fd).cb_arg = NULL := fun _ => rfl
  refine ⟨fun fd => ⟨rfl, rfl⟩, fun fd => ?_, fun fd fd' hlive => ?_, ?_, hdead _ hk.null_dead,
    hdead _ hk.loop_dead, hk.loop_lt⟩
  · rw [hnull]
    exact Nat.lt_trans Nat.zero_lt_one hk.loop_lt
  · unfold SlotOwned at hlive
    rw [hnull] at hlive
    exact absurd hlive (hdead _ hk.null_dead)
  · intro g fd switch_arg hg
    obtain ⟨hlt, hd⟩ := hk.waits g fd switch_arg hg
    exact ⟨hlt, hdead _ hd⟩

/-- The self-pipe is registered with an empty table. -/
theorem Kept.make_self_pipe (hk : Kept s fun _ => .unused) (hfds : s.fds = picoev_init)
    (ssock : Slot) : Kept (Registry.make_self_pipe s ssock) (restarted ssock) := by
  have hk' : Kept { s with ssock := ssock } (fun _ => .unused) := hk.congr rfl rfl rfl rfl
  have hact : active { s with ssock := ssock } ssock = false := by
    simp [active, hfds, picoev_init, picoev_is_active, loop_id]
  exact hk'.register_new hact

theorem Kept.reset_loop (hk : Kept s l) (ssock : Slot) :
    Kept (Registry.reset_loop s ssock) (restarted ssock) := by
  have hclosed : LoopObject_remove_reader (Registry.destroy_main_loop s)
      (Registry.destroy_main_loop s).ssock (none, none) = Registry.destroy_main_loop s := by
    refine if_neg ?_
    simp [active, Registry.destroy_main_loop, picoev_init, picoev_is_active, loop_id]
  unfold Registry.reset_loop
  simp only [hclosed]
  exact hk.destroy_main_loop.make_self_pipe rfl ssock

theorem Kept.call_fork_loop (hk : Kept s l) (ssock : Slot) :
    Kept (Registry.call_fork_loop s ssock) (if s.postfork then restarted ssock else l) := by
  unfold Registry.call_fork_loop
  cases s.postfork with
  | false => exact hk
  | true =>
    have hk' : Kept { s with postfork := false } l := hk.congr rfl rfl rfl rfl
    exact hk'.reset_loop ssock

theorem kept_init (ssock : Slot) : Kept (init ssock) (restarted ssock) := by
  refine Kept.make_self_pipe ?_ rfl ssock
  have hdead : ∀ a, ¬ Live (Function.update (fun _ => Cell.freed) loop .LoopObject) a := by
    rintro a ⟨r, w, hlive⟩
    by_cases ha : a = loop
    · rw [ha, Function.update_self] at hlive
      cases hlive
    · rw [Function.update_of_ne ha] at hlive
      cases hlive
  exact ⟨fun fd => ⟨rfl, rfl⟩, fun _ => Nat.two_pos, fun _ _ hlive => absurd hlive (hdead _), nofun,
    hdead _, hdead _, Nat.one_lt_two⟩

/-! ## What may be read and destroyed -/

theorem Kept.slotOwned_iff (hk : Kept s l) {fd : Slot} (hact : active s fd = true) :
    SlotOwned s fd ↔ l fd ≠ .foreign := by
  unfold SlotOwned
  rw [(hk.slot fd).live_iff hk.null_dead]
  rcases (hk.slot fd).of_active hact with ⟨r, w, h⟩ | h
  · rw [h]
    exact iff_of_true ⟨r, w, rfl⟩ nofun
  · rw [h]
    exact iff_of_false nofun (fun hne => hne rfl)

theorem Kept.sweepOwned_iff (hk : Kept s l) : SweepOwned s ↔ Clean l := by
  constructor
  · intro hs fd
    by_cases hnull : (s.fds fd).cb_arg = NULL
    · exact .inl ((hk.slot fd).null_iff.1 hnull)
    · exact .inr (((hk.slot fd).live_iff hk.null_dead).1 (hs.live fd hnull))
  · intro hc
    have hlive : ∀ fd, (s.fds fd).cb_arg ≠ NULL → SlotOwned s fd := by
      intro fd hnull
      rcases hc fd with h | h
      · exact absurd ((hk.slot fd).null_iff.2 h) hnull
      · exact ((hk.slot fd).live_iff hk.null_dead).2 h
    exact ⟨hlive, fun fd fd' hnull heq => hk.apart fd fd' (hlive fd hnull) heq⟩

/-- The handler of readers and writers has their argument. -/
theorem Kept.reads (hk : Kept s l) {fd : Slot} (h : Reads s fd) : ∃ r w, l fd = .callbacks r w := by
  rcases (hk.slot fd).of_active h.1 with hc | hc
  · exact hc
  · have hslot := hk.slot fd
    rw [hc] at hslot
    exact absurd h.2 hslot.2.1

/-- After a look for a fork, the registered descriptor is the self-pipe of the new
loop, or the loop is the old one. -/
theorem Kept.registerOwned_iff (hk : Kept s l) (fd ssock : Slot) :
    RegisterOwned s fd ssock ↔
      if s.postfork then Clean l else active s fd = true → l fd ≠ .foreign := by
  unfold RegisterOwned
  have hk₁ := hk.call_fork_loop ssock
  rcases call_fork_loop_cases s ssock with ⟨hfork, hsame⟩ | ⟨hfork, hreg, _⟩
  · rw [hsame, hfork]
    simp only [Bool.false_eq_true, if_false, false_imp_iff, true_and]
    exact forall_congr' fun hact => hk.slotOwned_iff hact
  · rw [hfork] at hk₁ ⊢
    simp only [if_true, forall_const] at hk₁ ⊢
    rw [hk.sweepOwned_iff, and_iff_left_iff_imp]
    intro _ hact
    have hfd : fd = ssock := by
      rw [← mem_registered, hreg, Finset.mem_singleton] at hact
      exact hact
    rw [hk₁.slotOwned_iff hact, hfd, restarted, Function.update_self]
    exact nofun

end Kept

/-! ## Runs -/

/-- As long as the loop is there, its slots are as the calls tell. -/
def Told (t : Watched Life (Slot → Holder)) : Prop := t.st.gone = false → Kept t.st.st t.hist

section Steps

variable {s s' : St} {l : Slot → Holder}

/-- A reader or a writer is added, to the loop that is there after a look for a
fork. -/
theorem Kept.register_fd_callback (hk : Kept s l) {fd ssock : Slot} {event : Events}
    {cbs garbage : Callbacks} (hone : One cbs)
    (hp : if s.postfork then Clean l else active s fd = true → l fd ≠ .foreign) :
    Kept (Registry.register_fd_callback s fd event cbs garbage ssock)
      (added s l fd ssock cbs.1.isSome cbs.2.isSome) := by
  have hk₁ := hk.call_fork_loop ssock
  have hact : active (Registry.call_fork_loop s ssock) fd =
      if s.postfork then decide (fd = ssock) else active s fd := by
    rcases call_fork_loop_cases s ssock with ⟨hfork, hsame⟩ | ⟨hfork, hreg, _⟩
    · rw [hsame, hfork]
      rfl
    · rw [hfork, if_pos rfl, Bool.eq_iff_iff, decide_eq_true_eq, ← mem_registered, hreg,
        Finset.mem_singleton]
  have howned : active (Registry.call_fork_loop s ssock) fd = true →
      SlotOwned (Registry.call_fork_loop s ssock) fd := ((hk.registerOwned_iff fd ssock).2 hp).2
  unfold Registry.register_fd_callback added
  simp only [← hact]
  cases hreg : active (Registry.call_fork_loop s ssock) fd with
  | false => exact hk₁.register_new hreg
  | true =>
    obtain ⟨r, w, h⟩ := ((hk₁.slot fd).live_iff hk₁.null_dead).1 (howned hreg)
    exact hk₁.register_merge hone hreg h

/-- The slot of a wait holds its `switch_arg_t`. -/
theorem Kept.internal_io_trampoline (hk : Kept s l) (g : Gid) (fd : Slot) (event : Events)
    (timeout : Nat) :
    Kept (Registry.internal_io_trampoline s g fd event timeout)
      (note ⟨s, false⟩ (.act (.io_trampoline g fd event timeout))
        ⟨Registry.internal_io_trampoline s g fd event timeout, false⟩ l) := by
  have hdead : ¬ Live (Function.update s.mem s.next (.switch_arg g)) s.next := by
    rintro ⟨r, w, hlive⟩
    rw [Function.update_self] at hlive
    cases hlive
  refine hk.alloc rfl rfl rfl rfl ⟨?_, by simp [picoev_add], hdead⟩ ?_
  · exact Nat.ne_of_gt (Nat.lt_trans Nat.zero_lt_one hk.loop_lt)
  · intro g' fd' switch_arg hg
    have hg' : Function.update s.waits g (some (fd, s.next)) g' = some (fd', switch_arg) := hg
    by_cases hgg : g' = g
    · rw [hgg, Function.update_self] at hg'
      cases hg'
      exact .inr ⟨rfl, hdead⟩
    · rw [Function.update_of_ne hgg] at hg'
      exact .inl hg'

/-- Whoever returns from its wait destroys the `switch_arg_t`. -/
theorem Kept.resume (hk : Kept s l) (g : Gid) :
    Kept (Registry.resume s g)
      (note ⟨s, false⟩ (.act (.resume g)) ⟨Registry.resume s g, false⟩ l) := by
  simp only [note, Registry.resume]
  cases hw : s.waits g with
  | none => exact hk
  | some p =>
    obtain ⟨fd, switch_arg⟩ := p
    obtain ⟨_, hd⟩ := hk.waits g fd switch_arg hw
    refine hk.delete rfl (fun a => ?_) rfl (fun g' p hg => ?_)
    · by_cases ha : a = switch_arg
      · exact .inr ⟨ha ▸ Function.update_self _ _ _, ha ▸ hd⟩
      · exact .inl (Function.update_of_ne ha _ _)
    · have hg' : Function.update s.waits g none g' = some p := hg
      by_cases hgg : g' = g
      · rw [hgg, Function.update_self] at hg'
        cases hg'
      · rwa [Function.update_of_ne hgg] at hg'

theorem kept_step {a : Act} (h : step s a = some s') (hk : Kept s l)
    (hp : Proper ⟨⟨s, false⟩, l⟩ (.act a)) : Kept s' (note ⟨s, false⟩ (.act a) ⟨s', false⟩ l) := by
  cases a with
  | add_reader fd cb garbage ssock =>
    cases h
    exact hk.register_fd_callback rfl hp
  | add_writer fd cb garbage ssock =>
    cases h
    exact hk.register_fd_callback rfl hp
  | remove_reader fd garbage =>
    cases h
    simp only [note]
    cases hact : active s fd with
    | false =>
      have hsame : LoopObject_remove_reader s fd garbage = s := if_neg (Bool.not_eq_true _ ▸ hact)
      rw [hsame]
      exact hk
    | true =>
      rcases (hk.slot fd).of_active hact with ⟨r, w, hc⟩ | hf
      · exact hk.remove_reader garbage hact hc
      · exact absurd hf (hp hact)
  | remove_writer fd garbage =>
    cases h
    simp only [note]
    cases hact : active s fd with
    | false =>
      have hsame : LoopObject_remove_writer s fd garbage = s := if_neg (Bool.not_eq_true _ ▸ hact)
      rw [hsame]
      exact hk
    | true =>
      rcases (hk.slot fd).of_active hact with ⟨r, w, hc⟩ | hf
      · exact hk.remove_writer garbage hact hc
      · exact absurd hf (hp hact)
  | io_trampoline g fd event timeout =>
    obtain ⟨_, heq⟩ := Option.ite_none_right_eq_some.1 h
    cases heq
    exact hk.internal_io_trampoline g fd event timeout
  | resume g =>
    cases h
    exact hk.resume g
  | add_event fd event timeout =>
    cases h
    refine hk.put rfl ⟨by simp [picoev_add, loop, NULL], by simp [picoev_add],
      hk.loop_dead⟩ (fun _ _ => .inl rfl) hk.loop_lt (Nat.le_refl _)
      (fun x _ hlive heq => ?_) (fun _ _ hd => hd) hk.waits
    have hx : (s.fds x).cb_arg = loop := heq
    rw [hx] at hlive
    exact hk.loop_dead (hlive.elim id id)
  | del_event fd =>
    cases h
    simp only [note, del_event]
    cases hact : active s fd with
    | false => exact hk
    | true => exact hk.delete rfl (fun _ => .inl rfl) rfl (fun _ _ hg => hg)
  | fd_error fd =>
    obtain ⟨hreads, heq⟩ := Option.ite_none_right_eq_some.1 h
    cases heq
    obtain ⟨r, w, hc⟩ := hk.reads hreads
    exact hk.destroy hc
  | fork_child =>
    cases h
    exact hk.congr rfl rfl rfl rfl
  | run_once ssock =>
    cases h
    exact hk.call_fork_loop ssock

end Steps

theorem told_step {t t' : Watched Life (Slot → Holder)} {op : Op} (h : held t op = some t')
    (hp : Proper t op) (ht : Told t) : Told t' := by
  obtain ⟨hstep, hhist⟩ := watch_eq_some.1 h
  obtain ⟨hgone, hop⟩ := Option.ite_none_left_eq_some.1 hstep
  have hthere : t.st.gone = false := Bool.not_eq_true _ ▸ hgone
  have hk := ht hthere
  intro hthere'
  rw [hhist]
  cases op with
  | act a =>
    obtain ⟨s', hs', heq⟩ := Option.map_eq_some_iff.1 hop
    rw [← heq]
    obtain ⟨⟨s, gone⟩, l⟩ := t
    cases hthere
    exact kept_step hs' hk hp
  | fd_callback fd =>
    obtain ⟨_, heq⟩ := Option.ite_none_right_eq_some.1 hop
    rw [← Option.some.inj heq]
    exact hk
  | clear =>
    rw [Option.some.injEq] at hop
    rw [← hop] at hthere'
    cases hthere'

theorem owned_iff_proper {t t' : Watched Life (Slot → Holder)} {op : Op}
    (h : held t op = some t') (ht : Told t) : Owned t.st op ↔ Proper t op := by
  obtain ⟨hstep, _⟩ := watch_eq_some.1 h
  obtain ⟨hgone, hop⟩ := Option.ite_none_left_eq_some.1 hstep
  have hk := ht (Bool.not_eq_true _ ▸ hgone)
  -- `fd_callback` has an argument of readers and writers
  have hreads : ∀ fd, Reads t.st.st fd → SlotOwned t.st.st fd := by
    intro fd hr
    exact ((hk.slot fd).live_iff hk.null_dead).2 (hk.reads hr)
  cases op with
  | fd_callback fd => exact iff_of_true (hreads fd) trivial
  | clear => exact hk.sweepOwned_iff
  | act a =>
    cases a with
    | add_reader fd cb garbage ssock => exact hk.registerOwned_iff fd ssock
    | add_writer fd cb garbage ssock => exact hk.registerOwned_iff fd ssock
    | remove_reader fd garbage => exact forall_congr' fun hact => hk.slotOwned_iff hact
    | remove_writer fd garbage => exact forall_congr' fun hact => hk.slotOwned_iff hact
    | fd_error fd => exact iff_of_true (hreads fd) trivial
    | run_once ssock => exact imp_congr_right fun _ => hk.sweepOwned_iff
    | _ => exact Iff.rfl

/-! ## Main result -/

/-- Along a run whatever is read or destroyed as a `callback_arg_t` is a live one,
and is destroyed once, exactly when readers and writers are not mixed with waits
or DNS on a registered descriptor, and the loop is destroyed only when every slot
that was used has a reader or a writer. -/
theorem arguments_owned_iff (ssock : Slot) (as : List Op) (s : Life)
    (h : run op_step ⟨init ssock, false⟩ as = some s) :
    Steps held (fun t op => Owned t.st op) (held_init ssock) as ↔
      Steps held Proper (held_init ssock) as := by
  have hwatched : ∃ l, run held (held_init ssock) as = some ⟨s, l⟩ := run_watch_iff.2 h
  obtain ⟨l, hrun⟩ := hwatched
  exact steps_iff (fun t op t' hs hp ht => told_step hs hp ht)
    (fun t op t' hs ht => owned_iff_proper hs ht) (fun _ => kept_init ssock) hrun

/-- A reader, a writer beside it and a socket wait on another descriptor, and a
removal of either direction. -/
theorem arguments_owned_iff_both : ∃ s, run op_step ⟨init 5, false⟩
    [.act (.add_reader 7 1 (none, none) 5), .act (.add_writer 7 2 (none, none) 5),
      .act (.io_trampoline 1 8 ⟨true, false⟩ 0), .fd_callback 7,
      .act (.remove_reader 7 (none, none)), .act (.remove_writer 7 (none, none))] = some s ∧
    active s.st 8 = true ∧ active s.st 7 = false ∧
    (Steps held (fun t op => Owned t.st op) (held_init 5)
        [.act (.add_reader 7 1 (none, none) 5), .act (.add_writer 7 2 (none, none) 5),
          .act (.io_trampoline 1 8 ⟨true, false⟩ 0), .fd_callback 7,
          .act (.remove_reader 7 (none, none)), .act (.remove_writer 7 (none, none))] ↔
      Steps held Proper (held_init 5)
        [.act (.add_reader 7 1 (none, none) 5), .act (.add_writer 7 2 (none, none) 5),
          .act (.io_trampoline 1 8 ⟨true, false⟩ 0), .fd_callback 7,
          .act (.remove_reader 7 (none, none)), .act (.remove_writer 7 (none, none))]) := by
  have h : (run op_step ⟨init 5, false⟩
      [.act (.add_reader 7 1 (none, none) 5), .act (.add_writer 7 2 (none, none) 5),
        .act (.io_trampoline 1 8 ⟨true, false⟩ 0), .fd_callback 7,
        .act (.remove_reader 7 (none, none)), .act (.remove_writer 7 (none, none))]).any
        (fun s => active s.st 8 = true ∧ active s.st 7 = false) = true := by
    decide
  obtain ⟨s, hs, hact⟩ := run_any h
  obtain ⟨h8, h7⟩ := of_decide_eq_true hact
  exact ⟨s, hs, h8, h7, arguments_owned_iff 5 _ s hs⟩

/-- A reader is added and removed, and the loop that is destroyed after a fork
destroys its argument once more. -/
theorem removed_argument_destroyed :
    ¬ ∀ ssock as s, run op_step ⟨init ssock, false⟩ as = some s →
      Steps held (fun t op => Owned t.st op) (held_init ssock) as := by
  intro hall
  have h : (run held (held_init 5) [.act (.add_reader 7 1 (none, none) 5),
      .act (.remove_reader 7 (none, none)), .act .fork_child]).any
      (fun t => t.st.st.postfork = true ∧ (t.st.st.fds 7).cb_arg ≠ NULL ∧
        t.st.st.mem (t.st.st.fds 7).cb_arg = .freed) = true := by
    decide
  obtain ⟨t, ht, hend⟩ := run_any h
  obtain ⟨hfork, hnull, hfreed⟩ := of_decide_eq_true hend
  have hlast : (run held (held_init 5) [.act (.add_reader 7 1 (none, none) 5),
      .act (.remove_reader 7 (none, none)), .act .fork_child, .act (.run_once 6)]).isSome = true := by
    decide
  obtain ⟨t', ht'⟩ := Option.isSome_iff_exists.1 hlast
  have howned : Steps held (fun t op => Owned t.st op) (held_init 5)
      ([.act (.add_reader 7 1 (none, none) 5), .act (.remove_reader 7 (none, none)),
        .act .fork_child] ++ [.act (.run_once 6)]) := hall 5 _ t'.st (run_watch ht')
  obtain ⟨r, w, hlive⟩ := (howned.last ht hfork).live 7 hnull
  rw [hfreed] at hlive
  cases hlive

end Jega.Io.Registry
