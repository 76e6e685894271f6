import Jega.Loop.Steps

/-!
# Jega.Loop.Accounting — `activecnt` counts the work of the loop

`activecnt` is meant to be the number of entries in the queue, in the heap and
in flight; `LoopObject_run` trusts it to find both empty. It is a `uint32_t`
while each of the two structures holds up to 2^31 entries, so the count is
right as long as an entry is scheduled with fewer than 2^32 - 1 of them there,
and not otherwise.
-/

namespace Jega.Loop

open Trace

variable {κ : Type}

/-! ## The statement -/

/-- The entries that keep the loop busy. -/
def load (s : St κ) : Nat := s.pendings.size + s.scheduled.size + (inflight s).card

/-- `activecnt` is the number of entries, and it has never wrapped. -/
structure Accounted (s : St κ) : Prop where
  activecnt : s.activecnt.toNat = load s
  wrapped : s.wrapped = false

/-- `LoopObject_run` would leave its `while` here, and not because of a stop. -/
def Leaves (s : St κ) : Prop :=
  s.state ≠ .L_STOP ∧ ¬ (s.activecnt > 0 ∨ s.ioactivecnt > 1)

/-- The count is right, and the loop is left only when both structures are empty. -/
def WorkAccounted (s : St κ) : Prop :=
  Accounted s ∧ (Leaves s → s.pendings.size = 0 ∧ s.scheduled.size = 0)

/-- The labels that call `schedule_timer`. A round of `fire_pendings` does for
a repeating timer whose greenlet is dead. -/
def Act.Schedules (s : St κ) : Act κ → Prop
  | .call_soon _ | .set_timeout _ _ | .sleep _ _ | .add_callback _ => True
  | .call_later seconds _ | .call_repeatedly seconds _ => 0 ≤ seconds
  | .next _ dead =>
    s.state ≠ .L_STOP ∧ ∃ item, (queue_shift s.pendings).1 = some item ∧
      Rearms (s.objs item) ∧ (s.objs item).cancelled = false ∧ (s.objs item).called = false ∧
      (s.objs item).invoke (fun _ => dead) = .nothing
  | .returned i _ => ∃ caller item, s.passes[i]? = some ⟨caller, .fired item⟩ ∧
      Rearms (s.objs item)
  | _ => False

/-- Nothing is scheduled on top of 2^32 - 1 entries. -/
def NoOverflow (s : St κ) (a : Act κ) : Prop := a.Schedules s → load s + 1 < 2 ^ 32

variable {s s' t : St κ} {i : Nat}

/-! ## Counting up and down -/

theorem incr_count (h : s.activecnt.toNat + 1 < 2 ^ 32) :
    s.incr.activecnt.toNat = s.activecnt.toNat + 1 ∧ s.incr.wrapped = s.wrapped := by
  have hadd : (s.activecnt + 1).toNat = s.activecnt.toNat + 1 := by
    rw [UInt32.toNat_add, UInt32.toNat_one, Nat.mod_eq_of_lt h]
  refine ⟨hadd, ?_⟩
  have hne : s.activecnt + 1 ≠ 0 := by
    intro h0
    rw [h0] at hadd
    exact absurd hadd (by simp)
  simp [hne]

theorem incr_wraps (h : 2 ^ 32 ≤ s.activecnt.toNat + 1) : s.incr.wrapped = true := by
  have hlt := s.activecnt.toNat_lt
  have hzero : s.activecnt + 1 = 0 := by
    rw [← UInt32.toNat_inj, UInt32.toNat_add, UInt32.toNat_one]
    have hfull : s.activecnt.toNat + 1 = 2 ^ 32 := by omega
    rw [hfull]
    rfl
  simp [hzero]

theorem decr_count (h : 0 < s.activecnt.toNat) :
    s.decr.activecnt.toNat = s.activecnt.toNat - 1 ∧ s.decr.wrapped = s.wrapped := by
  have hle : (1 : UInt32) ≤ s.activecnt := UInt32.le_iff_toNat_le.2 h
  refine ⟨by rw [St.decr_activecnt, UInt32.toNat_sub_of_le _ _ hle]; rfl, ?_⟩
  have hne : s.activecnt ≠ 0 := by
    intro h0
    rw [h0] at h
    exact absurd h (by simp)
  simp [hne]

/-- The count is `n`, and it has never wrapped. -/
def Tallied (s : St κ) (n : Nat) : Prop := s.activecnt.toNat = n ∧ s.wrapped = false

theorem accounted_iff : Accounted s ↔ Tallied s (load s) :=
  ⟨fun h => ⟨h.activecnt, h.wrapped⟩, fun h => ⟨h.1, h.2⟩⟩

/-- When the count is right, an idle loop has nothing queued. -/
theorem workAccounted_iff : WorkAccounted s ↔ Accounted s := by
  constructor
  · exact fun h => h.1
  · refine fun h => ⟨h, fun hleaves => ?_⟩
    have hzero : s.activecnt.toNat = 0 := by
      have hnot : ¬ s.activecnt > 0 := fun hpos => hleaves.2 (Or.inl hpos)
      simpa [UInt32.lt_iff_toNat_lt] using hnot
    have hload : load s = 0 := h.activecnt ▸ hzero
    unfold load at hload
    omega

/-- `schedule_timer` adds one entry and counts it. -/
theorem schedule_timer_tallied (hs : Sized s) {o : Hid} (h : schedule_timer s o = some s') :
    load s' = load s + 1 ∧ s'.activecnt = s.incr.activecnt ∧ s'.wrapped = s.incr.wrapped := by
  rcases schedule_timer_cases h with ⟨_, r, hr, rfl⟩ | ⟨_, r, hr, rfl⟩
  · -- Case: a handle
    have hsize := (hs.push hr).2
    refine ⟨?_, rfl, rfl⟩
    simp only [load, St.incr_pendings, St.note_pendings, St.incr_scheduled, St.note_scheduled, hsize]
    change _ + (inflight s).card = _
    omega
  · -- Case: a timer
    have hsize := (heappush_sized hs.scheduled hr).2
    refine ⟨?_, rfl, rfl⟩
    simp only [load, St.incr_pendings, St.incr_scheduled, hsize]
    change _ + (inflight s).card = _
    omega

theorem schedule_tallied {n : Nat} (hs : Sized s) {o : Hid} (h : schedule_timer s o = some s')
    (htally : Tallied s n) :
    (n + 1 < 2 ^ 32 → Tallied s' (n + 1)) ∧ (2 ^ 32 ≤ n + 1 → s'.wrapped = true) := by
  obtain ⟨_, hcount, hwrapped⟩ := schedule_timer_tallied hs h
  constructor
  · intro hlt
    rw [← htally.1] at hlt ⊢
    rw [Tallied, hcount, hwrapped, (incr_count hlt).1, (incr_count hlt).2]
    exact ⟨rfl, htally.2⟩
  · intro hge
    rw [← htally.1] at hge
    rw [hwrapped]
    exact incr_wraps hge

/-- The end of a round counts one entry off. -/
theorem round_ended_tallied {p : Pass} (hp : s.passes[i]? = some p) (caller : Caller)
    (exc : Bool) :
    load (round_ended s i caller exc) + p.item.toList.length = load s ∧
      (s.wrapped = true → (round_ended s i caller exc).wrapped = true) ∧
      ∀ n, Tallied s (n + 1) → Tallied (round_ended s i caller exc) n := by
  obtain ⟨hsame, hflight⟩ := round_ended_same hp caller exc
  refine ⟨?_, ?_, ?_⟩
  · have hcard := congrArg Multiset.card hflight
    rw [Multiset.card_add, Multiset.coe_card] at hcard
    unfold load
    rw [hsame.pendings, hsame.scheduled]
    simp only [St.decr_pendings, St.decr_scheduled]
    omega
  · intro hw
    rw [hsame.wrapped]
    simp [hw]
  · intro n htally
    obtain ⟨hcount, hwrapped⟩ := decr_count (s := s) (by rw [htally.1]; omega)
    rw [Tallied, hsame.activecnt, hsame.wrapped, hcount, hwrapped, htally.1]
    exact ⟨rfl, htally.2⟩

/-! ## Steps -/

/-- The two states have the same entries and the same count. -/
structure SameWork (s s' : St κ) : Prop where
  pendings : s'.pendings = s.pendings
  scheduled : s'.scheduled = s.scheduled
  inflight : inflight s' = inflight s
  activecnt : s'.activecnt = s.activecnt
  wrapped : s'.wrapped = s.wrapped

theorem SameWork.load (h : SameWork s s') : load s' = load s := by
  unfold Loop.load
  rw [h.pendings, h.scheduled, h.inflight]

theorem SameWork.accounted (h : SameWork s s') : Accounted s' ↔ Accounted s := by
  rw [accounted_iff, accounted_iff, Tallied, Tallied, h.activecnt, h.wrapped, h.load]

theorem SameWork.keeps (h : SameWork s s') {p : Prop} (ha : Accounted s) (hp : p) :
    Accounted s' ↔ p :=
  iff_of_true (h.accounted.2 ha) hp

theorem Quiet.sameWork (h : Quiet s s') : SameWork s s' :=
  ⟨h.pendings, h.scheduled, h.inflight, h.activecnt, h.wrapped⟩

theorem make_handle_same (s : St κ) (seconds : Int) (cb : Option κ) (greenlet : Option Gid) :
    SameWork s (make_handle s seconds cb greenlet).1 :=
  ⟨rfl, rfl, rfl, rfl, rfl⟩

theorem repeats_same (s : St κ) (o : Hid) :
    SameWork s (s.set_obj o { s.objs o with repeats := true }) :=
  ⟨rfl, rfl, rfl, rfl, rfl⟩

theorem cancel_same (s : St κ) (o : Hid) : SameWork s (cancel s o) := ⟨rfl, rfl, rfl, rfl, rfl⟩

/-- A timeout of no seconds is cancelled at once. -/
theorem set_timeout_same (s : St κ) (seconds : Int) (o : Hid) :
    SameWork s (if seconds = 0 then cancel s o else s) := by
  split
  · exact cancel_same s o
  · exact ⟨rfl, rfl, rfl, rfl, rfl⟩

/-- An entry that fired is not armed again, or scheduled once more. -/
theorem returned_cases {item : Hid} (hs : Sized s) (h : fire_returned s item = some s') :
    (¬ Rearms (s.objs item) ∧ s' = s) ∨
      ∃ r o, Rearms (s.objs item) ∧ Sized r ∧ SameWork s r ∧ schedule_timer r o = some s' := by
  rcases fire_returned_cases h with ⟨hnot, rfl⟩ | ⟨hre, hsched⟩
  · exact Or.inl ⟨hnot, rfl⟩
  · refine Or.inr ⟨_, _, hre, hs.congr ?_ ?_, ⟨?_, ?_, ?_, ?_, ?_⟩, hsched⟩
    all_goals rfl

/-! ## Entries that move -/

/-- `fire_timers` drops an entry of the heap. -/
theorem load_drop (hpos : 0 < s.scheduled.size) :
    load s = load (({ s with scheduled := (heappop s.seconds s.scheduled).2 }.decr).note
      (.drop (s.scheduled.heap 0))) + 1 := by
  simp only [load, St.note_pendings, St.decr_pendings, St.note_scheduled, St.decr_scheduled,
    heappop_size]
  change _ = _ + (inflight s).card + 1
  omega

/-- `fire_timers` moves an entry from the heap to the queue. -/
theorem load_expire (hs : Sized s) (hpos : 0 < s.scheduled.size) {q : queue_t Hid × Int}
    (hq : queue_push none true s.pendings (s.scheduled.heap 0) = some q) :
    load ({ s with scheduled := (heappop s.seconds s.scheduled).2, pendings := q.1 }.note
      (.expire (s.scheduled.heap 0))) = load s := by
  have hsize := (hs.push hq).2
  simp only [load, St.note_pendings, St.note_scheduled, heappop_size, hsize]
  change _ + (inflight s).card = _
  omega

/-- An entry is out of the queue and not counted off. -/
theorem load_shift {item : Hid} {q : queue_t Hid} (hs : Sized s)
    (hshift : queue_shift s.pendings = (some item, q)) {r : St κ} (hpendings : r.pendings = q)
    (hscheduled : r.scheduled = s.scheduled) (hpasses : r.passes = s.passes) :
    Sized r ∧ load s = load r + 1 := by
  obtain ⟨hwf, hsize⟩ := hs.shift hshift
  constructor
  · exact ⟨hpendings ▸ hwf.1, hpendings ▸ hwf.2, hscheduled ▸ hs.scheduled⟩
  · unfold load inflight
    rw [hpendings, hscheduled, hpasses]
    omega

/-- A pass is in the entry that it took. -/
theorem load_fired {caller : Caller} (hp : s.passes[i]? = some ⟨caller, .firing⟩) (item : Hid) :
    load (s.goto i caller (.fired item)) = load s + 1 := by
  have hflight := congrArg Multiset.card (inflight_goto hp caller (.fired item))
  simp only [Pass.item, Option.toList_none, Option.toList_some, Multiset.card_add,
    Multiset.coe_card, List.length_nil, List.length_singleton] at hflight
  simp only [load, St.goto_pendings, St.goto_scheduled]
  omega

/-- The entry that a pass is in counts. -/
theorem load_flying {caller : Caller} {item : Hid}
    (hp : s.passes[i]? = some ⟨caller, .fired item⟩) : load s = load s - 1 + 1 := by
  have hcard := congrArg Multiset.card (inflight_leave hp)
  simp only [Pass.item, Option.toList_some, Multiset.card_add, Multiset.coe_card,
    List.length_singleton] at hcard
  unfold load
  omega

/-! ## One step -/

/-- Scheduling keeps the count exactly if it does not overflow. -/
theorem schedule_accounted (hs : Sized s) (ha : Accounted s) {o : Hid}
    (h : schedule_timer s o = some s') :
    Accounted s' ↔ load s + 1 < 2 ^ 32 := by
  obtain ⟨hload, _⟩ := schedule_timer_tallied hs h
  obtain ⟨hroom, hfull⟩ := schedule_tallied hs h (accounted_iff.1 ha)
  rw [accounted_iff, hload]
  constructor
  · intro htally
    by_contra hge
    have hw := hfull (not_lt.1 hge)
    rw [htally.2] at hw
    cases hw
  · exact hroom

theorem call_accounted (hs : Sized s) (ha : Accounted s) {seconds : Int} {cb : Option κ}
    {greenlet : Option Gid} (h : internal_loop_schedule_call s seconds cb greenlet = some s') :
    Accounted s' ↔ load s + 1 < 2 ^ 32 := by
  have hmake := make_handle_same s seconds cb greenlet
  rw [← hmake.load]
  exact schedule_accounted (hs.congr rfl rfl) (hmake.accounted.2 ha) h

/-- `fire_timers` counts off what it drops and keeps what it moves. -/
theorem fire_timers_accounted (hs : Sized s) (ha : Accounted s) (h : fire_timers none s = some s') :
    Accounted s' := by
  refine (fire_timers_loop_invariant (P := fun r => Sized r ∧ Accounted r) ?_ ?_ h ⟨hs, ha⟩).2
  · -- Case: a cancelled timer is dropped
    intro r hpos _ ⟨hr, har⟩
    have hload := load_drop hpos
    obtain ⟨hcount, hwrapped⟩ := decr_count (s := r) (by rw [har.activecnt]; omega)
    refine ⟨hr.drop, ⟨hcount.trans ?_, hwrapped.trans har.wrapped⟩⟩
    rw [har.activecnt, hload, Nat.add_sub_cancel]
  · -- Case: a timer that is due moves to the queue
    intro r q hpos _ _ hq ⟨hr, har⟩
    exact ⟨hr.expire hq, ⟨har.activecnt.trans (load_expire hr hpos hq).symm, har.wrapped⟩⟩

theorem Act.Idle.not_schedules {a : Act κ} (h : a.Idle s) : ¬ a.Schedules s := by
  cases a with
  | call_later seconds cb | call_repeatedly seconds cb => exact not_le.2 h
  | next i dead =>
    rintro ⟨hstate, item, hitem, _⟩
    rcases h with h | h
    · exact hstate h
    · rw [h] at hitem
      cases hitem
  | call_soon _ | set_timeout _ _ | sleep _ _ | add_callback _ => exact h.elim
  | _ => simp_all [Act.Idle, Act.Schedules]

theorem Act.Calls.schedules {a : Act κ} (h : a.Calls) : a.Schedules s := by
  cases a with
  | call_soon cb | sleep seconds g => trivial
  | call_later seconds cb => exact h
  | _ => exact h.elim

/-- Arming an entry again keeps the count exactly if it does not overflow. -/
theorem returned_tallied {item : Hid} {n : Nat} (hs : Sized s) (htally : Tallied s n)
    (h : fire_returned s item = some s') :
    (¬ Rearms (s.objs item) ∧ load s' = load s ∧ Tallied s' n) ∨
      (Rearms (s.objs item) ∧ load s' = load s + 1 ∧ (n + 1 < 2 ^ 32 → Tallied s' (n + 1)) ∧
        (2 ^ 32 ≤ n + 1 → s'.wrapped = true)) := by
  rcases returned_cases hs h with ⟨hnot, rfl⟩ | ⟨r, o, hre, hr, hsame, hsched⟩
  · exact Or.inl ⟨hnot, rfl, htally⟩
  · have htally' : Tallied r n := by rwa [Tallied, hsame.activecnt, hsame.wrapped]
    obtain ⟨hload, _⟩ := schedule_timer_tallied hr hsched
    rw [hsame.load] at hload
    exact Or.inr ⟨hre, hload, schedule_tallied hr hsched htally'⟩

/-- A round that ends after the switch or call of its entry. -/
theorem returned_accounted {p : Pass} {caller : Caller} {item : Hid} {exc : Bool} {n : Nat}
    (hs : Sized s) (hp : s.passes[i]? = some p)
    (htally : Tallied s (n + 1)) (hload : load s = n + p.item.toList.length)
    (h : fire_returned s item = some t) :
    Accounted (round_ended t i caller exc) ↔ (Rearms (s.objs item) → n + 1 + 1 < 2 ^ 32) := by
  obtain ⟨hload', hwrapped, htally'⟩ :=
    round_ended_tallied (fire_returned_passes h ▸ hp) caller exc
  rw [accounted_iff]
  rcases returned_tallied hs htally h with ⟨hnot, hloadt, ht⟩ | ⟨hre, hloadt, hroom, hfull⟩
  · refine iff_of_true ?_ fun hre => absurd hre hnot
    have hn : load (round_ended t i caller exc) = n := by omega
    rw [hn]
    exact htally' n ht
  · have hn : load (round_ended t i caller exc) = n + 1 := by omega
    rw [hn]
    constructor
    · intro hacc _
      by_contra hge
      have hw := hwrapped (hfull (not_lt.1 hge))
      rw [hacc.2] at hw
      cases hw
    · exact fun hok => htally' (n + 1) (hroom (hok hre))

/-- A round of `fire_pendings` moves one entry from the queue into flight, or
counts it off. -/
theorem fire_item_accounted {caller : Caller} {item : Hid} {q : queue_t Hid} {dead : Bool}
    (hs : Sized s) (ha : Accounted s) (hp : s.passes[i]? = some ⟨caller, .firing⟩)
    (hshift : queue_shift s.pendings = (some item, q))
    (h : FireItem { s with pendings := q } i caller item dead s') :
    Accounted s' ↔
      ((Rearms (s.objs item) ∧ (s.objs item).cancelled = false ∧ (s.objs item).called = false ∧
        (s.objs item).invoke (fun _ => dead) = .nothing) → load s + 1 < 2 ^ 32) := by
  have htally := accounted_iff.1 ha
  -- the entry is out of the queue and not counted off
  have hout : ∀ r : St κ, r.pendings = q → r.scheduled = s.scheduled → r.activecnt = s.activecnt →
      r.wrapped = s.wrapped → r.passes = s.passes →
      Sized r ∧ Tallied r (load r + 1) ∧ load s = load r + 1 := by
    intro r hpq hsc hact hwr hpass
    obtain ⟨hr, hload⟩ := load_shift hs hshift hpq hsc hpass
    refine ⟨hr, ?_, hload⟩
    rw [Tallied, hact, hwr, ← hload]
    exact htally
  cases h with
  | skipped hflag _ =>
    -- Case: a flag stops it
    obtain ⟨hr, htr, _⟩ := hout (({ s with pendings := q }.set_obj item (s.objs item)).note
      (.shift ⟨item, s.objs item, dead, .nothing, s.clock⟩)) rfl rfl rfl rfl rfl
    obtain ⟨hload', _, htally'⟩ := round_ended_tallied (s := ({ s with pendings := q }.set_obj item
      (s.objs item)).note (.shift ⟨item, s.objs item, dead, .nothing, s.clock⟩)) hp caller false
    refine iff_of_true ?_ ?_
    · rw [accounted_iff]
      have hn := htally' _ htr
      rwa [← hload'] at hn
    · rintro ⟨_, hcancelled, hcalled, _⟩
      rcases hflag with hflag | hflag
      · exact absurd (hcancelled.symm.trans hflag) (by simp)
      · exact absurd (hcalled.symm.trans hflag) (by simp)
  | lost hcancelled hcalled hnothing hreturned =>
    -- Case: its greenlet is dead
    obtain ⟨hr, htr, hlr⟩ := hout (({ s with pendings := q }.set_obj item (s.objs item).marked).note
      (.shift ⟨item, s.objs item, dead, .nothing, s.clock⟩)) rfl rfl rfl rfl rfl
    refine (returned_accounted hr hp htr rfl hreturned).trans ?_
    rw [hlr]
    simp only [St.note_objs, St.set_obj_objs, Function.update_self]
    constructor
    · exact fun hok hre => hok hre.1
    · exact fun hok hre => hok ⟨hre, hcancelled, hcalled, hnothing⟩
  | fired _ _ hfired =>
    -- Case: the pass is in it
    generalize hr : ({ s with pendings := q }.set_obj item (s.objs item).marked).note
      (.shift ⟨item, s.objs item, dead, (s.objs item).invoke (fun _ => dead), s.clock⟩) = r
    obtain ⟨_, htr, _⟩ := hout r (by rw [← hr]; rfl) (by rw [← hr]; rfl) (by rw [← hr]; rfl)
      (by rw [← hr]; rfl) (by rw [← hr]; rfl)
    have hpr : r.passes[i]? = some ⟨caller, .firing⟩ := by
      rw [← hr]
      exact hp
    refine iff_of_true ?_ ?_
    · have hgoto : Tallied (r.goto i caller (.fired item))
          (load (r.goto i caller (.fired item))) := by
        rw [load_fired hpr]
        exact htr
      exact accounted_iff.2 (hr ▸ hgoto)
    · exact fun hre => absurd hre.2.2.2 hfired

/-- One step keeps the count exactly if it does not overflow. -/
theorem step_accounted_iff {a : Act κ} (h : step s a = some s') (hs : Sized s)
    (ha : Accounted s) : Accounted s' ↔ NoOverflow s a := by
  have hnot : ∀ {a : Act κ}, ¬ a.Schedules s → NoOverflow s a := fun hn hsched => absurd hsched hn
  have hmust : ∀ {a : Act κ}, a.Schedules s → (load s + 1 < 2 ^ 32 ↔ NoOverflow s a) :=
    fun hsched => ⟨fun hlt _ => hlt, fun hok => hok hsched⟩
  cases step_cases h with
  | quiet hidle hquiet => exact hquiet.sameWork.keeps ha (hnot hidle.not_schedules)
  | call hcalls hcall =>
    rw [← hmust hcalls.schedules]
    exact call_accounted hs ha hcall
  | @call_repeatedly seconds cb r hsec hcall =>
    rw [← hmust (a := .call_repeatedly seconds cb) hsec]
    exact (repeats_same r s.next).accounted.trans (call_accounted hs ha hcall)
  | @set_timeout seconds throw r hcall =>
    rw [← hmust (a := .set_timeout seconds throw) trivial]
    exact (set_timeout_same r seconds s.next).accounted.trans (call_accounted hs ha hcall)
  | make_handle =>
    exact (make_handle_same s _ _ _).keeps ha (hnot (a := .make_handle _) id)
  | add_callback _ hsched =>
    rw [← hmust (a := .add_callback _) trivial]
    exact schedule_accounted hs ha hsched
  | cancel _ =>
    exact (cancel_same s _).keeps ha (hnot (a := .cancel _) id)
  | time =>
    refine SameWork.keeps (s := s) ?_ ha (hnot (a := .time _) id)
    exact ⟨rfl, rfl, rfl, rfl, rfl⟩
  | entered htimers hquiet =>
    exact hquiet.sameWork.keeps (fire_timers_accounted hs ha htimers)
      (hnot (a := .entered _ true) id)
  | @next i caller item q dead _ hp hgo hshift hfire =>
    refine (fire_item_accounted hs ha hp hshift hfire).trans ?_
    constructor
    · rintro hok ⟨_, item', hitem, hre⟩
      rw [hshift, Option.some.injEq] at hitem
      subst hitem
      exact hok hre
    · exact fun hok hre => hok ⟨hgo, item, by rw [hshift], hre⟩
  | @returned i caller item exc r hp hreturned =>
    have hload := load_flying hp
    have htally := accounted_iff.1 ha
    rw [hload] at htally
    refine (returned_accounted hs hp htally hload hreturned).trans ?_
    rw [← hload]
    constructor
    · rintro hok ⟨caller', item', hp', hre⟩
      rw [hp] at hp'
      cases hp'
      exact hok hre
    · exact fun hok hre => hok ⟨caller, item, hp, hre⟩

/-! ## Runs -/

theorem init_accounted (block : Nat → Hid) (now : Int) : Accounted (init κ block now) := ⟨rfl, rfl⟩

/-- The count is right all along a run, and the loop is never left with work
queued, exactly if nothing is scheduled on top of 2^32 - 1 entries. -/
theorem work_accounted_iff {block : Nat → Hid} {now : Int} {as : List (Act κ)}
    (h : run step (init κ block now) as = some t) :
    Always step WorkAccounted (init κ block now) as ↔
      Steps step NoOverflow (init κ block now) as := by
  refine always_iff_steps (fun s a s' hs _ hsized _ => step_sized hs hsized)
    (fun s a s' hs hsized hP => ?_) (init_sized block now)
    (workAccounted_iff.2 (init_accounted block now)) h
  rw [workAccounted_iff]
  exact step_accounted_iff hs hsized hP.1

/-- A repeating timer that is armed again. -/
def timerRun : List (Act Nat) :=
  [.call_repeatedly 2 0, .run false, .test 0, .time 9, .entered 0 true, .next 0 false,
    .returned 0 false]

theorem work_accounted_iff_timer :
    Always step WorkAccounted (init Nat (fun _ => 0) 5) timerRun ↔
      Steps step NoOverflow (init Nat (fun _ => 0) 5) timerRun := by
  obtain ⟨t, ht, _⟩ := run_any (p := fun t : St Nat => t.activecnt == 1)
    (by decide : (run step (init Nat (fun _ => 0) 5) timerRun).any _ = true)
  exact work_accounted_iff ht

/-! ## The count wraps -/

/-- `s'` is `s` with `n` more entries for `o`. -/
structure Added (o : Hid) (n : Nat) (s s' : St κ) : Prop where
  objs : s'.objs = s.objs
  next : s'.next = s.next
  state : s'.state = s.state
  ioactivecnt : s'.ioactivecnt = s.ioactivecnt
  activecnt : s'.activecnt = s.activecnt + UInt32.ofNat n
  pendings : s'.pendings.size = s.pendings.size + if (s.objs o).type = .Handle then n else 0
  scheduled : s'.scheduled.size = s.scheduled.size + if (s.objs o).type = .Timer then n else 0

/-- Where the entries for `o` go there is room for `n` more. -/
def Room (s : St κ) (o : Hid) (n : Nat) : Prop :=
  match (s.objs o).type with
  | .Handle => s.pendings.size + n ≤ 2 ^ 31
  | .Timer => s.scheduled.size + n ≤ 2 ^ 31

theorem schedule_timer_added (hs : Sized s) {o : Hid} (hroom : Room s o 1) :
    ∃ s', schedule_timer s o = some s' ∧ Sized s' ∧ Added o 1 s s' := by
  unfold Room at hroom
  cases htype : (s.objs o).type with
  | Handle =>
    rw [htype] at hroom
    obtain ⟨r, hr⟩ := queue_push_room (o := o) hs.pendings hs.pendings_dvd hroom
    have hsched : schedule_timer s o = some ({ s with pendings := r.1 }.note (.push o)).incr := by
      simp [schedule_timer, htype, hr]
    obtain ⟨_, hsize⟩ := hs.push hr
    exact ⟨_, hsched, schedule_timer_sized hsched hs,
      ⟨rfl, rfl, rfl, rfl, rfl, by simp [htype, hsize], by simp [htype]⟩⟩
  | Timer =>
    rw [htype] at hroom
    obtain ⟨r, hr⟩ := heappush_room s.seconds hs.scheduled hroom o
    have hsched : schedule_timer s o = some { s with scheduled := r.1 }.incr := by
      simp [schedule_timer, htype, hr]
    have hsize := (heappush_sized hs.scheduled hr).2
    exact ⟨_, hsched, schedule_timer_sized hsched hs,
      ⟨rfl, rfl, rfl, rfl, rfl, by simp [htype], by simp [htype, hsize]⟩⟩

/-- One object can be scheduled again and again. -/
theorem add_callbacks_added {o : Hid} (n : Nat) :
    ∀ {s : St κ}, Sized s → o < s.next → Room s o n →
      ∃ s', run step s (List.replicate n (.add_callback o)) = some s' ∧ Sized s' ∧
        Added o n s s' := by
  induction n with
  | zero =>
    intro s hs _ _
    exact ⟨s, rfl, hs, ⟨rfl, rfl, rfl, rfl, by simp, by simp, by simp⟩⟩
  | succ n ih =>
    intro s hs ho hroom
    have hone : Room s o 1 := by
      unfold Room at hroom ⊢
      split <;> simp_all <;> omega
    obtain ⟨r, hr, hsr, har⟩ := schedule_timer_added hs hone
    have hrest : Room r o n := by
      unfold Room at hroom ⊢
      rw [har.objs, har.pendings, har.scheduled]
      split <;> simp_all <;> omega
    obtain ⟨s', hrun, hs', ha'⟩ := ih hsr (by rwa [har.next]) hrest
    refine ⟨s', ?_, hs', ?_⟩
    · rw [List.replicate_succ, run_cons_iff]
      exact ⟨r, by simp [step, ho, hr], hrun⟩
    · refine ⟨ha'.objs.trans har.objs, ha'.next.trans har.next, ha'.state.trans har.state,
        ha'.ioactivecnt.trans har.ioactivecnt, ?_, ?_, ?_⟩
      · rw [ha'.activecnt, har.activecnt, UInt32.add_assoc, ← UInt32.ofNat_add, Nat.add_comm 1 n]
      · rw [ha'.pendings, har.pendings, har.objs]
        split <;> omega
      · rw [ha'.scheduled, har.scheduled, har.objs]
        split <;> omega

/-- The start of a run that wraps the count: a handle and a timer are made. -/
def wrapStart : List (Act Nat) := [.run false, .call_soon 0, .call_later 1 0]

/-- One handle and one timer, each scheduled 2^31 times: the count is 0, and
the loop is left. -/
theorem activecnt_wraps :
    ∃ (as : List (Act Nat)) (s : St Nat), run step (init Nat (fun _ => 0) 0) as = some s ∧
      Leaves s ∧ s.pendings.size = 2 ^ 31 ∧ s.scheduled.size = 2 ^ 31 ∧ ¬ WorkAccounted s := by
  obtain ⟨r, hr, hcheck⟩ := run_any
    (p := fun r : St Nat => r.next == 2 && (r.objs 0).type == .Handle && (r.objs 1).type == .Timer &&
      r.pendings.size == 1 && r.scheduled.size == 1 && r.activecnt == 2 && r.ioactivecnt == 0 &&
      r.state == .L_RUNNING)
    (by decide : (run step (init Nat (fun _ => 0) 0) wrapStart).any _ = true)
  simp only [Bool.and_eq_true, beq_iff_eq] at hcheck
  obtain ⟨⟨⟨⟨⟨⟨⟨hnext, hhandle⟩, htimer⟩, hpend⟩, hsched⟩, hcount⟩, hio⟩, hstate⟩ := hcheck
  have hsized : Sized r := by
    exact run_invariant (fun s a s' hs => step_sized hs) (init_sized _ _) hr
  obtain ⟨u, hu, hsu, hau⟩ := add_callbacks_added (o := 0) (2 ^ 31 - 1) hsized
    (hnext ▸ Nat.zero_lt_two) (by simp [Room, hhandle, hpend])
  obtain ⟨v, hv, hsv, hav⟩ := add_callbacks_added (o := 1) (2 ^ 31 - 1) hsu
    (by rw [hau.next, hnext]; exact Nat.one_lt_two)
    (by simp [Room, hau.objs, htimer, hau.scheduled, hhandle, hsched])
  have hpv : v.pendings.size = 2 ^ 31 := by
    rw [hav.pendings, hau.pendings, hau.objs, hhandle, htimer, hpend]
    rfl
  have hsv : v.scheduled.size = 2 ^ 31 := by
    rw [hav.scheduled, hau.scheduled, hau.objs, hhandle, htimer, hsched]
    rfl
  have hzero : v.activecnt = 0 := by
    rw [hav.activecnt, hau.activecnt, hcount]
    rfl
  have hleaves : Leaves v := by
    refine ⟨by rw [hav.state, hau.state, hstate]; simp, ?_⟩
    rw [hzero, hav.ioactivecnt, hau.ioactivecnt, hio]
    simp
  refine ⟨_, v, run_append.2 ⟨r, hr, run_append.2 ⟨u, hu, hv⟩⟩, hleaves, hpv, hsv, fun hwork => ?_⟩
  have hempty := (hwork.2 hleaves).1
  rw [hpv] at hempty
  cases hempty

end Jega.Loop
