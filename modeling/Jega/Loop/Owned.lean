import Jega.Loop.Accounting

/-!
# Jega.Loop.Owned — the entries of one component among others

A component schedules callbacks of its own (`own`) and keeps their handles to
itself. Whatever other code does to the loop spares those entries: their objects
stay, their calls stay in the queue in their order, and a timer that is not
cancelled waits on in the heap or in the queue (`foreign_spares`). Only a round
that takes one of them off the queue touches it (`next_owned`).
-/

namespace Jega.Loop

variable {κ : Type} (own : κ → Bool)

/-- An entry of the component. -/
def Owned (s : St κ) (o : Hid) : Prop :=
  o < s.next ∧ ∃ k, (s.objs o).callback = some k ∧ own k = true

/-- The entry is in the heap or in the queue. -/
def Waiting (s : St κ) (o : Hid) : Prop :=
  o ∈ s.scheduled.contents ∨ o ∈ s.pendings.entries

/-- The callback of a handle of the component. -/
def ownCall (obj : TimerObject κ) : Option κ :=
  if obj.type = .Handle then obj.callback.filter own else none

/-- The calls of the component in the queue. -/
def calls (s : St κ) : List κ := s.pendings.entries.filterMap fun o => ownCall own (s.objs o)

/-- The entries are objects, those of the heap are timers, and those of the
component switch into no greenlet and are not armed again. -/
structure Tidy (s : St κ) : Prop extends Sized s where
  heap : ∀ o ∈ s.scheduled.contents, o < s.next ∧ (s.objs o).type = .Timer
  queue : ∀ o ∈ s.pendings.entries, o < s.next
  blank : ∀ o, s.next ≤ o → ¬ Rearms (s.objs o)
  plain : ∀ o, Owned own s o → (s.objs o).greenlet = none ∧ (s.objs o).repeats = false

/-- Nothing happens to the entries of the component. -/
structure Spares (s s' : St κ) : Prop where
  next : s.next ≤ s'.next
  objs : ∀ o, Owned own s o → s'.objs o = s.objs o
  fresh : ∀ o, Owned own s' o → Owned own s o
  calls : calls own s' = calls own s
  waits : ∀ o, Owned own s o → (s.objs o).cancelled = false → Waiting s o → Waiting s' o

/-- What a round of `fire_pendings` switches into or calls. -/
def fires (s : St κ) (dead : Bool) : Fired κ :=
  if s.state = .L_STOP then .nothing
  else
    match (queue_shift s.pendings).1 with
    | none => .nothing
    | some item => (fire dead (s.objs item)).2

/-- A label of other code, which has no entry of the component. -/
def Act.Foreign (s : St κ) : Act κ → Prop
  | .call_soon cb | .call_later _ cb | .call_repeatedly _ cb | .set_timeout _ cb
  | .make_handle cb => own cb = false
  | .add_callback o | .cancel o => ¬ Owned own s o
  | _ => True

variable {own} {s s' t : St κ} {i : Nat}

theorem init_tidy (block : Nat → Hid) (now : Int) : Tidy own (init κ block now) where
  toSized := init_sized block now
  heap := nofun
  queue := nofun
  blank := fun _ _ hre => nomatch hre.2
  plain := nofun

/-! ## What spares the component -/

theorem Spares.owned (h : Spares own s s') {o : Hid} (ho : Owned own s o) : Owned own s' o := by
  obtain ⟨hlt, k, hk, hown⟩ := ho
  refine ⟨Nat.lt_of_lt_of_le hlt h.next, k, ?_, hown⟩
  rw [h.objs o ⟨hlt, k, hk, hown⟩]
  exact hk

theorem Spares.trans (h : Spares own s s') (h' : Spares own s' t) : Spares own s t where
  next := Nat.le_trans h.next h'.next
  objs := fun o ho => (h'.objs o (h.owned ho)).trans (h.objs o ho)
  fresh := fun o ho => h.fresh o (h'.fresh o ho)
  calls := h'.calls.trans h.calls
  waits := by
    intro o ho hlive hw
    apply h'.waits o (h.owned ho) _ (h.waits o ho hlive hw)
    rw [h.objs o ho]
    exact hlive

/-- Only other fields change. -/
theorem spares_of_eq (hobjs : s'.objs = s.objs) (hnext : s'.next = s.next)
    (hp : s'.pendings = s.pendings) (hq : s'.scheduled = s.scheduled) : Spares own s s' where
  next := Nat.le_of_eq hnext.symm
  objs := fun o _ => by rw [hobjs]
  fresh := by
    intro o ho
    unfold Owned at ho
    rwa [hobjs, hnext] at ho
  calls := by
    unfold calls
    rw [hobjs, hp]
  waits := by
    intro o _ _ hw
    unfold Waiting
    rwa [hp, hq]

theorem Spares.refl (s : St κ) : Spares own s s := spares_of_eq rfl rfl rfl rfl

theorem Tidy.congr (h : Tidy own s) (hobjs : s'.objs = s.objs) (hnext : s'.next = s.next)
    (hp : s'.pendings = s.pendings) (hq : s'.scheduled = s.scheduled) : Tidy own s' where
  toSized := h.toSized.congr hp hq
  heap := by
    rw [hobjs, hnext, hq]
    exact h.heap
  queue := by
    rw [hnext, hp]
    exact h.queue
  blank := by
    rw [hnext, hobjs]
    exact h.blank
  plain := by
    unfold Owned
    rw [hobjs, hnext]
    exact h.plain

theorem Same.spares (h : Same s s') : Spares own s s' :=
  spares_of_eq h.objs h.next h.pendings h.scheduled

theorem Same.tidy (h : Same s s') (ht : Tidy own s) : Tidy own s' :=
  ht.congr h.objs h.next h.pendings h.scheduled

theorem ownCall_none {o : Hid} (hlt : o < s.next) (ho : ¬ Owned own s o) :
    ownCall own (s.objs o) = none := by
  unfold ownCall
  split
  · cases hcb : (s.objs o).callback with
    | none => rfl
    | some k =>
      rw [Option.filter_eq_none_iff]
      intro a ha hown
      cases ha
      exact ho ⟨hlt, k, hcb, hown⟩
  · rfl

/-! ## Objects of other code -/

/-- An object of other code changes, but not its type and its callback. -/
theorem set_obj_spares (hd : Tidy own s) {o : Hid} (hlt : o < s.next) (ho : ¬ Owned own s o)
    (obj : TimerObject κ) (htype : obj.type = (s.objs o).type)
    (hcb : obj.callback = (s.objs o).callback) :
    Spares own s (s.set_obj o obj) ∧ Tidy own (s.set_obj o obj) := by
  have htypes : ∀ x, ((s.set_obj o obj).objs x).type = (s.objs x).type := by
    intro x
    by_cases hx : x = o
    · rw [hx, St.set_obj_objs, Function.update_self, htype]
    · rw [St.set_obj_objs, Function.update_of_ne hx]
  have hcbs : ∀ x, ((s.set_obj o obj).objs x).callback = (s.objs x).callback := by
    intro x
    by_cases hx : x = o
    · rw [hx, St.set_obj_objs, Function.update_self, hcb]
    · rw [St.set_obj_objs, Function.update_of_ne hx]
  -- who owns what is told from the callbacks
  have hown : ∀ x, Owned own (s.set_obj o obj) x ↔ Owned own s x := by
    intro x
    unfold Owned
    rw [hcbs x]
    exact Iff.rfl
  have hkeep : ∀ x, Owned own s x → (s.set_obj o obj).objs x = s.objs x := by
    intro x hx
    have hne : x ≠ o := by
      rintro rfl
      exact ho hx
    rw [St.set_obj_objs, Function.update_of_ne hne]
  constructor
  · constructor
    · exact Nat.le.refl
    · exact hkeep
    · exact fun x hx => (hown x).1 hx
    · unfold calls ownCall
      simp only [htypes, hcbs]
      rfl
    · exact fun _ _ _ hw => hw
  · refine ⟨hd.toSized.congr rfl rfl, ?_, hd.queue, ?_, ?_⟩
    · intro x hx
      rw [htypes x]
      exact hd.heap x hx
    · intro x hx
      have hne : x ≠ o := Nat.ne_of_gt (Nat.lt_of_lt_of_le hlt hx)
      rw [St.set_obj_objs, Function.update_of_ne hne]
      exact hd.blank x hx
    · intro x hx
      have hx : Owned own s x := (hown x).1 hx
      rw [hkeep x hx]
      exact hd.plain x hx

theorem make_handle_old {x : Hid} (hx : x < s.next) (seconds : Int) (cb : Option κ)
    (greenlet : Option Gid) : (make_handle s seconds cb greenlet).1.objs x = s.objs x := by
  simp [make_handle, Function.update_of_ne (Nat.ne_of_lt hx)]

/-- A new object is not in the queue or in the heap. -/
theorem make_handle_tidy (hd : Tidy own s) (seconds : Int) (cb : Option κ)
    (greenlet : Option Gid) (hplain : ∀ k, cb = some k → own k = true → greenlet = none) :
    Tidy own (make_handle s seconds cb greenlet).1 := by
  refine ⟨hd.toSized.congr rfl rfl, ?_, ?_, ?_, ?_⟩
  · intro x hx
    obtain ⟨hlt, htype⟩ := hd.heap x hx
    rw [make_handle_old hlt]
    exact ⟨Nat.lt_succ_of_lt hlt, htype⟩
  · intro x hx
    exact Nat.lt_succ_of_lt (hd.queue x hx)
  · intro x hx
    have hx : s.next + 1 ≤ x := hx
    simp only [make_handle, St.set_obj_objs, Function.update_of_ne (Nat.ne_of_gt hx)]
    exact hd.blank x (Nat.le_of_succ_le hx)
  · rintro x ⟨hlt, k, hk, hown⟩
    rcases Nat.lt_succ_iff_lt_or_eq.1 hlt with hlt | rfl
    · rw [make_handle_old hlt] at hk ⊢
      exact hd.plain x ⟨hlt, k, hk, hown⟩
    · simp only [make_handle, St.set_obj_objs, Function.update_self] at hk ⊢
      split at hk
      · rename_i hsec
        rw [if_pos hsec]
        exact ⟨hplain k hk hown, rfl⟩
      · rename_i hsec
        rw [if_neg hsec]
        exact ⟨hplain k hk hown, rfl⟩

theorem make_handle_spares (hd : Tidy own s) (seconds : Int) {cb : Option κ}
    (greenlet : Option Gid) (hcb : ∀ k, cb = some k → own k = false) :
    Spares own s (make_handle s seconds cb greenlet).1 := by
  constructor
  · exact Nat.le_succ _
  · exact fun x hx => make_handle_old hx.1 seconds cb greenlet
  · rintro x ⟨hlt, k, hk, hown⟩
    rcases Nat.lt_succ_iff_lt_or_eq.1 hlt with hlt | rfl
    · rw [make_handle_old hlt] at hk
      exact ⟨hlt, k, hk, hown⟩
    · have hk : cb = some k := by
        simp only [make_handle, St.set_obj_objs, Function.update_self] at hk
        split at hk
        · exact hk
        · exact hk
      rw [hcb k hk] at hown
      cases hown
  · unfold calls
    apply List.filterMap_congr
    intro x hx
    rw [make_handle_old (hd.queue x hx)]
  · exact fun _ _ _ hw => hw

/-! ## Scheduling -/

/-- `schedule_timer` puts an entry into the queue or into the heap. -/
theorem schedule_timer_tidy (hd : Tidy own s) {o : Hid} (hlt : o < s.next)
    (h : schedule_timer s o = some s') : Tidy own s' := by
  have hsized := schedule_timer_sized h hd.toSized
  rcases schedule_timer_cases h with ⟨_, r, hr, rfl⟩ | ⟨htype, r, hr, rfl⟩
  · -- Case: a handle
    refine ⟨hsized, hd.heap, ?_, hd.blank, hd.plain⟩
    intro x hx
    rw [St.incr_pendings, St.note_pendings,
      (queue_push_cases hd.pendings hd.pendings_dvd hr).2.1] at hx
    rcases List.mem_append.1 hx with hx | hx
    · exact hd.queue x hx
    · rw [List.mem_singleton.1 hx]
      exact hlt
  · -- Case: a timer
    refine ⟨hsized, ?_, hd.queue, hd.blank, hd.plain⟩
    intro x hx
    rw [St.incr_scheduled, heappush_contents hr] at hx
    rcases Multiset.mem_cons.1 hx with rfl | hx
    · exact ⟨hlt, htype⟩
    · exact hd.heap x hx

theorem schedule_timer_spares (hd : Tidy own s) {o : Hid} (hlt : o < s.next)
    (ho : ¬ Owned own s o) (h : schedule_timer s o = some s') : Spares own s s' := by
  rcases schedule_timer_cases h with ⟨_, r, hr, rfl⟩ | ⟨_, r, hr, rfl⟩
  · -- Case: a handle, which is no call of the component
    have hentries := (queue_push_cases hd.pendings hd.pendings_dvd hr).2.1
    constructor
    · exact Nat.le.refl
    · exact fun _ _ => rfl
    · exact fun _ hx => hx
    · unfold calls
      rw [St.incr_pendings, St.note_pendings, hentries, List.filterMap_append]
      have hnone : ownCall own (s.objs o) = none := ownCall_none hlt ho
      simp [hnone]
    · rintro x _ _ (hx | hx)
      · exact Or.inl hx
      · apply Or.inr
        rw [St.incr_pendings, St.note_pendings, hentries]
        exact List.mem_append_left _ hx
  · -- Case: a timer
    constructor
    · exact Nat.le.refl
    · exact fun _ _ => rfl
    · exact fun _ hx => hx
    · rfl
    · rintro x _ _ (hx | hx)
      · apply Or.inl
        rw [St.incr_scheduled, heappush_contents hr]
        exact Multiset.mem_cons_of_mem hx
      · exact Or.inr hx

/-- Other code schedules a call or a switch. -/
theorem call_spares (hd : Tidy own s) {seconds : Int} {cb : Option κ} {greenlet : Option Gid}
    (hcb : ∀ k, cb = some k → own k = false)
    (h : internal_loop_schedule_call s seconds cb greenlet = some s') :
    Spares own s s' ∧ Tidy own s' ∧ s.next < s'.next ∧ ¬ Owned own s' s.next := by
  have hmake := make_handle_spares hd seconds greenlet hcb
  have htidy := make_handle_tidy hd seconds cb greenlet fun k hk hown => by
    rw [hcb k hk] at hown
    cases hown
  have hnot : ¬ Owned own (make_handle s seconds cb greenlet).1 s.next :=
    fun hown => absurd (hmake.fresh _ hown).1 (Nat.lt_irrefl _)
  have hlt : s.next < (make_handle s seconds cb greenlet).1.next := Nat.lt_succ_self _
  have hsched : schedule_timer (make_handle s seconds cb greenlet).1 s.next = some s' := h
  have hspares := schedule_timer_spares htidy hlt hnot hsched
  exact ⟨hmake.trans hspares, schedule_timer_tidy htidy hlt hsched,
    Nat.lt_of_lt_of_le hlt hspares.next, fun hown => hnot (hspares.fresh _ hown)⟩

/-! ## Timers -/

/-- A cancelled timer is dropped. -/
theorem drop_spares (hd : Tidy own s) (hpos : 0 < s.scheduled.size)
    (hcancelled : (s.objs (s.scheduled.heap 0)).cancelled = true) :
    let s' := ({ s with scheduled := (heappop s.seconds s.scheduled).2 }.decr).note
      (.drop (s.scheduled.heap 0))
    Spares own s s' ∧ Tidy own s' := by
  have hcontents := heappop_contents s.seconds hpos
  constructor
  · constructor
    · exact Nat.le.refl
    · exact fun _ _ => rfl
    · exact fun _ hx => hx
    · rfl
    · -- what is dropped was not live
      rintro x _ hlive (hx | hx)
      · rw [hcontents] at hx
        rcases Multiset.mem_cons.1 hx with rfl | hx
        · rw [hcancelled] at hlive
          cases hlive
        · exact Or.inl hx
      · exact Or.inr hx
  · refine ⟨hd.drop, ?_, hd.queue, hd.blank, hd.plain⟩
    intro x hx
    apply hd.heap x
    rw [hcontents]
    exact Multiset.mem_cons_of_mem hx

/-- A timer that is due moves to the queue, where it is no call of its own. -/
theorem expire_spares (hd : Tidy own s) (hpos : 0 < s.scheduled.size) {q : queue_t Hid × Int}
    (hq : queue_push none true s.pendings (s.scheduled.heap 0) = some q) :
    let s' := { s with scheduled := (heappop s.seconds s.scheduled).2, pendings := q.1 }.note
      (.expire (s.scheduled.heap 0))
    Spares own s s' ∧ Tidy own s' := by
  have hcontents := heappop_contents s.seconds hpos
  have hentries := (queue_push_cases hd.pendings hd.pendings_dvd hq).2.1
  have hfirst := hd.heap (s.scheduled.heap 0) (hcontents ▸ Multiset.mem_cons_self _ _)
  constructor
  · constructor
    · exact Nat.le.refl
    · exact fun _ _ => rfl
    · exact fun _ hx => hx
    · unfold calls
      rw [St.note_pendings, hentries, List.filterMap_append]
      have hnone : ownCall own (s.objs (s.scheduled.heap 0)) = none := by
        unfold ownCall
        rw [hfirst.2]
        rfl
      simp [hnone]
    · rintro x _ _ (hx | hx)
      · rw [hcontents] at hx
        rcases Multiset.mem_cons.1 hx with rfl | hx
        · apply Or.inr
          rw [St.note_pendings, hentries]
          exact List.mem_append_right _ (List.mem_singleton_self _)
        · exact Or.inl hx
      · apply Or.inr
        rw [St.note_pendings, hentries]
        exact List.mem_append_left _ hx
  · refine ⟨hd.expire hq, ?_, ?_, hd.blank, hd.plain⟩
    · intro x hx
      apply hd.heap x
      rw [hcontents]
      exact Multiset.mem_cons_of_mem hx
    · intro x hx
      rw [St.note_pendings, hentries] at hx
      rcases List.mem_append.1 hx with hx | hx
      · exact hd.queue x hx
      · rw [List.mem_singleton.1 hx]
        exact hfirst.1

theorem fire_timers_spares (hd : Tidy own s) (h : fire_timers none s = some s') :
    Spares own s s' ∧ Tidy own s' := by
  refine fire_timers_loop_invariant (P := fun r => Spares own s r ∧ Tidy own r) ?_ ?_ h
    ⟨Spares.refl s, hd⟩
  · intro r hpos hcancelled ⟨hr, hdr⟩
    obtain ⟨hspares, htidy⟩ := drop_spares hdr hpos hcancelled
    exact ⟨hr.trans hspares, htidy⟩
  · intro r q hpos _ _ hq ⟨hr, hdr⟩
    obtain ⟨hspares, htidy⟩ := expire_spares hdr hpos hq
    exact ⟨hr.trans hspares, htidy⟩

/-! ## Rounds -/

/-- An entry of other code is armed again. -/
theorem fire_returned_spares (hd : Tidy own s) {item : Hid}
    (h : fire_returned s item = some s') : Spares own s s' ∧ Tidy own s' := by
  rcases fire_returned_cases h with ⟨_, rfl⟩ | ⟨hre, hsched⟩
  · exact ⟨Spares.refl _, hd⟩
  · -- only what repeats is armed again, and nothing of the component repeats
    have hlt : item < s.next := by
      by_contra hge
      exact hd.blank item (Nat.not_lt.1 hge) hre
    have hnot : ¬ Owned own s item := by
      intro hown
      rw [Rearms, (hd.plain item hown).2] at hre
      cases hre.2
    generalize hobj : { s.objs item with
      called := false, cancelled := false, seconds := s.clock + (s.objs item).interval } = obj
      at hsched
    obtain ⟨hset, hdset⟩ : Spares own s (s.set_obj item obj) ∧ Tidy own (s.set_obj item obj) :=
      set_obj_spares hd hlt hnot obj (by rw [← hobj]) (by rw [← hobj])
    have hnote : Tidy own ((s.set_obj item obj).note (.rearm item)) := hdset.congr rfl rfl rfl rfl
    have hspares : Spares own s ((s.set_obj item obj).note (.rearm item)) :=
      hset.trans (spares_of_eq rfl rfl rfl rfl)
    have hnot' : ¬ Owned own ((s.set_obj item obj).note (.rearm item)) item :=
      fun hown => hnot (hspares.fresh _ hown)
    have hlt' : item < ((s.set_obj item obj).note (.rearm item)).next := hlt
    exact ⟨hspares.trans (schedule_timer_spares hnote hlt' hnot' hsched),
      schedule_timer_tidy hnote hlt' hsched⟩

theorem round_ended_spares {p : Pass} (hd : Tidy own s) (hp : s.passes[i]? = some p)
    (caller : Caller) (exc : Bool) :
    Spares own s (round_ended s i caller exc) ∧ Tidy own (round_ended s i caller exc) := by
  have hsame := (round_ended_same hp caller exc).1
  exact ⟨spares_of_eq hsame.objs hsame.next hsame.pendings hsame.scheduled,
    hd.congr hsame.objs hsame.next hsame.pendings hsame.scheduled⟩

/-- An entry leaves the queue. -/
theorem shift_tidy (hd : Tidy own s) {item : Hid} {q : queue_t Hid}
    (hshift : queue_shift s.pendings = (some item, q)) :
    s.pendings.entries = item :: q.entries ∧ item < s.next ∧ Tidy own { s with pendings := q } := by
  obtain ⟨hentries, hwf, hmax⟩ := queue_shift_some hd.pendings hshift
  have hdvd : q.max ∣ 2 ^ 31 := hmax ▸ hd.pendings_dvd
  refine ⟨hentries, hd.queue item (hentries ▸ List.mem_cons_self), ?_⟩
  refine ⟨⟨hwf, hdvd, hd.scheduled⟩, hd.heap, ?_, hd.blank, hd.plain⟩
  intro x hx
  apply hd.queue x
  rw [hentries]
  exact List.mem_cons_of_mem _ hx

/-- A round takes an entry of other code. -/
theorem fire_item_spares (hd : Tidy own s) {caller : Caller} {item : Hid} {q : queue_t Hid}
    {dead : Bool} (hp : s.passes[i]? = some ⟨caller, .firing⟩)
    (hshift : queue_shift s.pendings = (some item, q)) (hnot : ¬ Owned own s item)
    (h : FireItem { s with pendings := q } i caller item dead s') :
    Spares own s s' ∧ Tidy own s' := by
  obtain ⟨hentries, hlt, hdq⟩ := shift_tidy hd hshift
  -- the queue loses an entry that is not of the component
  have hout : Spares own s { s with pendings := q } := by
    constructor
    · exact Nat.le.refl
    · exact fun _ _ => rfl
    · exact fun _ hx => hx
    · unfold calls
      rw [hentries, List.filterMap_cons_none]
      exact ownCall_none hlt hnot
    · rintro x hx _ (hw | hw)
      · exact Or.inl hw
      · rw [hentries] at hw
        rcases List.mem_cons.1 hw with rfl | hw
        · exact absurd hx hnot
        · exact Or.inr hw
  have hset : ∀ (obj : TimerObject κ) (d : Shift κ), obj.type = (s.objs item).type →
      obj.callback = (s.objs item).callback →
      Spares own s (({ s with pendings := q }.set_obj item obj).note (.shift d)) ∧
        Tidy own (({ s with pendings := q }.set_obj item obj).note (.shift d)) := by
    intro obj d htype hcb
    obtain ⟨hspares, htidy⟩ := set_obj_spares hdq hlt hnot obj htype hcb
    exact ⟨(hout.trans hspares).trans (spares_of_eq rfl rfl rfl rfl), htidy.congr rfl rfl rfl rfl⟩
  cases h with
  | skipped _ _ =>
    obtain ⟨hspares, htidy⟩ := hset (s.objs item)
      ⟨item, s.objs item, dead, .nothing, s.clock⟩ rfl rfl
    obtain ⟨hend, hdend⟩ :=
      round_ended_spares htidy (i := i) (p := ⟨caller, .firing⟩) hp caller false
    exact ⟨hspares.trans hend, hdend⟩
  | lost _ _ _ hreturned =>
    obtain ⟨hspares, htidy⟩ := hset (s.objs item).marked
      ⟨item, s.objs item, dead, .nothing, s.clock⟩ rfl rfl
    obtain ⟨hret, hdret⟩ := fire_returned_spares htidy hreturned
    obtain ⟨hend, hdend⟩ :=
      round_ended_spares hdret (fire_returned_passes hreturned ▸ hp) caller false
    exact ⟨(hspares.trans hret).trans hend, hdend⟩
  | fired _ _ _ =>
    obtain ⟨hspares, htidy⟩ := hset (s.objs item).marked
      ⟨item, s.objs item, dead, (s.objs item).invoke (fun _ => dead), s.clock⟩ rfl rfl
    exact ⟨hspares.trans (spares_of_eq rfl rfl rfl rfl), htidy.congr rfl rfl rfl rfl⟩

/-- A round has taken `item` off the queue and fired it, and nothing else. -/
structure Took (s s' : St κ) (item : Hid) (dead : Bool) : Prop where
  objs : s'.objs = Function.update s.objs item (fire dead (s.objs item)).1
  next : s'.next = s.next
  queue : s.pendings.entries = item :: s'.pendings.entries
  heap : s'.scheduled = s.scheduled

/-- Who does not leave the queue waits on. -/
theorem Took.waiting {item x : Hid} {dead : Bool} (h : Took s s' item dead) (hx : x ≠ item)
    (hw : Waiting s x) : Waiting s' x := by
  rcases hw with hw | hw
  · exact Or.inl (h.heap ▸ hw)
  · rw [h.queue] at hw
    rcases List.mem_cons.1 hw with rfl | hw
    · exact absurd rfl hx
    · exact Or.inr hw

/-- A round takes an entry of the component off the queue and fires it. -/
theorem fire_item_owned (hd : Tidy own s) {caller : Caller} {item : Hid} {q : queue_t Hid}
    {dead : Bool} (hp : s.passes[i]? = some ⟨caller, .firing⟩)
    (hshift : queue_shift s.pendings = (some item, q)) (hown : Owned own s item)
    (h : FireItem { s with pendings := q } i caller item dead s') : Took s s' item dead := by
  have hentries := (shift_tidy hd hshift).1
  cases h with
  | skipped hflag _ =>
    have hfire : fire dead (s.objs item) = (s.objs item, .nothing) := fire_flags hflag
    generalize hr : ({ s with pendings := q }.set_obj item (s.objs item)).note
      (.shift ⟨item, s.objs item, dead, .nothing, s.clock⟩) = r
    have hpr : r.passes[i]? = some ⟨caller, .firing⟩ := by
      rw [← hr]
      exact hp
    have hsame := (round_ended_same hpr caller false).1
    constructor
    · rw [hfire, hsame.objs, ← hr]
      rfl
    · rw [hsame.next, ← hr]
      rfl
    · rw [hsame.pendings, ← hr]
      exact hentries
    · rw [hsame.scheduled, ← hr]
      rfl
  | lost _ _ hnothing _ =>
    -- an entry of the component has a callback and no greenlet
    have hgreenlet : (s.objs item).greenlet = none := (hd.plain item hown).1
    obtain ⟨_, k, hk, _⟩ := hown
    exfalso
    have hcall : (s.objs item).invoke (fun _ => dead) = .call k := by
      unfold HandleObject.invoke
      rw [hgreenlet, hk]
    rw [hcall] at hnothing
    cases hnothing
  | fired hcancelled hcalled _ =>
    have hfire : fire dead (s.objs item) = ((s.objs item).marked, _) :=
      fire_live hcancelled hcalled
    constructor
    · rw [hfire]
      rfl
    · rfl
    · exact hentries
    · rfl

/-! ## Steps -/

/-- Whatever other code does spares the component, unless a round takes one of
its entries. -/
theorem foreign_spares {a : Act κ} (hd : Tidy own s) (ha : a.Foreign own s)
    (hnext : ∀ j dead, a = .next j dead → s.state ≠ .L_STOP → ∀ item,
      (queue_shift s.pendings).1 = some item → ¬ Owned own s item)
    (h : step s a = some s') : Spares own s s' ∧ Tidy own s' := by
  have hsome : ∀ {k : κ}, own k = false → ∀ k', some k = some k' → own k' = false := by
    intro k hk k' heq
    cases heq
    exact hk
  cases step_cases h with
  | quiet _ hquiet => exact ⟨hquiet.toSame.spares, hquiet.toSame.tidy hd⟩
  | @call _ seconds cb greenlet _ hcalls hr =>
    cases a with
    | call_soon k =>
      obtain ⟨hspares, htidy, _⟩ := call_spares hd (hsome ha) h
      exact ⟨hspares, htidy⟩
    | call_later sec k =>
      simp only [step, call_later] at h
      rw [if_neg (Int.not_lt.2 hcalls)] at h
      obtain ⟨hspares, htidy, _⟩ := call_spares hd (hsome ha) h
      exact ⟨hspares, htidy⟩
    | sleep sec g =>
      have hnone : ∀ k', none = some k' → own k' = false := by simp
      obtain ⟨hspares, htidy, _⟩ := call_spares hd hnone h
      exact ⟨hspares, htidy⟩
    | _ => exact hcalls.elim
  | @call_repeatedly seconds cb r _ hr =>
    obtain ⟨hspares, htidy, hlt, hnot⟩ := call_spares hd (hsome ha) hr
    obtain ⟨hset, hdset⟩ := set_obj_spares htidy hlt hnot
      { r.objs s.next with repeats := true } rfl rfl
    exact ⟨hspares.trans hset, hdset⟩
  | @set_timeout seconds throw r hr =>
    obtain ⟨hspares, htidy, hlt, hnot⟩ := call_spares hd (hsome ha) hr
    split
    · obtain ⟨hset, hdset⟩ := set_obj_spares htidy hlt hnot
        { r.objs s.next with cancelled := true } rfl rfl
      exact ⟨(hspares.trans hset).trans (spares_of_eq rfl rfl rfl rfl),
        hdset.congr rfl rfl rfl rfl⟩
    · exact ⟨hspares, htidy⟩
  | @make_handle cb =>
    refine ⟨make_handle_spares hd 0 none (hsome ha), make_handle_tidy hd 0 (some cb) none ?_⟩
    exact fun _ _ _ => rfl
  | add_callback hlt hsched =>
    exact ⟨schedule_timer_spares hd hlt ha hsched, schedule_timer_tidy hd hlt hsched⟩
  | @cancel timer hlt =>
    obtain ⟨hset, hdset⟩ := set_obj_spares hd hlt ha
      { s.objs timer with cancelled := true } rfl rfl
    exact ⟨hset.trans (spares_of_eq rfl rfl rfl rfl), hdset.congr rfl rfl rfl rfl⟩
  | time => exact ⟨spares_of_eq rfl rfl rfl rfl, hd.congr rfl rfl rfl rfl⟩
  | entered htimers hquiet =>
    obtain ⟨hspares, htidy⟩ := fire_timers_spares hd htimers
    exact ⟨hspares.trans hquiet.toSame.spares, hquiet.toSame.tidy htidy⟩
  | @next j caller item q dead _ hp hgo hshift hfire =>
    have hnot := hnext j dead rfl hgo item (by rw [hshift])
    exact fire_item_spares hd hp hshift hnot hfire
  | @returned j caller item exc r hp hreturned =>
    have hpr : r.passes[j]? = some ⟨caller, .fired item⟩ := fire_returned_passes hreturned ▸ hp
    obtain ⟨hret, hdret⟩ := fire_returned_spares hd hreturned
    obtain ⟨hend, hdend⟩ := round_ended_spares hdret hpr caller exc
    exact ⟨hret.trans hend, hdend⟩

/-- A round that finds the loop running takes the head of the queue; what it does
with an entry of the component. -/
theorem next_owned {dead : Bool} {item : Hid} (hd : Tidy own s) (hgo : s.state ≠ .L_STOP)
    (hhead : (queue_shift s.pendings).1 = some item) (hown : Owned own s item)
    (h : step s (.next i dead) = some s') :
    Took s s' item dead ∧ fires s dead = (fire dead (s.objs item)).2 := by
  cases step_cases h with
  | quiet hidle _ =>
    rcases hidle with hstop | hnone
    · exact absurd hstop hgo
    · rw [hnone] at hhead
      cases hhead
  | call hcalls _ => exact hcalls.elim
  | @next _ caller item' q _ _ hp _ hshift hfire =>
    have heq : item' = item := by
      rw [hshift, Option.some.injEq] at hhead
      exact hhead
    subst heq
    refine ⟨fire_item_owned hd hp hshift hown hfire, ?_⟩
    unfold fires
    rw [if_neg hgo, hshift]

/-- Firing marks a timer as called, and changes nothing else. -/
theorem fire_cases (dead : Bool) (o : TimerObject κ) :
    (fire dead o).1 = o ∨ (fire dead o).1 = o.marked := by
  by_cases hflag : o.cancelled = true ∨ o.called = true
  · rw [fire_flags hflag]
    exact Or.inl rfl
  · have hcancelled : o.cancelled = false := by simpa using fun h => hflag (Or.inl h)
    have hcalled : o.called = false := by simpa using fun h => hflag (Or.inr h)
    rw [fire_live hcancelled hcalled]
    exact Or.inr rfl

/-- Only the callback of an entry is called. -/
theorem fire_call {dead : Bool} {o : TimerObject κ} {k : κ} (h : (fire dead o).2 = .call k) :
    o.callback = some k := by
  by_cases hflag : o.cancelled = true ∨ o.called = true
  · rw [fire_flags hflag] at h
    cases h
  · have hcancelled : o.cancelled = false := by simpa using fun h => hflag (Or.inl h)
    have hcalled : o.called = false := by simpa using fun h => hflag (Or.inr h)
    rw [fire_live hcancelled hcalled] at h
    simp only [HandleObject.invoke] at h
    split at h
    · split at h
      · cases h
      · cases h
    · rename_i k' _ hcb
      cases h
      exact hcb
    · cases h

/-- The objects keep what matters of them, and no entry comes. -/
theorem Tidy.objects (hd : Tidy own s) (hs : Sized s')
    (hfields : ∀ o, (s'.objs o).type = (s.objs o).type ∧
      (s'.objs o).callback = (s.objs o).callback ∧ (s'.objs o).greenlet = (s.objs o).greenlet ∧
      (s'.objs o).repeats = (s.objs o).repeats)
    (hnext : s'.next = s.next) (hqueue : ∀ o ∈ s'.pendings.entries, o ∈ s.pendings.entries)
    (hheap : s'.scheduled = s.scheduled) : Tidy own s' := by
  refine ⟨hs, ?_, ?_, ?_, ?_⟩
  · intro o ho
    rw [hnext, (hfields o).1]
    exact hd.heap o (hheap ▸ ho)
  · intro o ho
    rw [hnext]
    exact hd.queue o (hqueue o ho)
  · intro o ho
    rw [Rearms, (hfields o).1, (hfields o).2.2.2]
    exact hd.blank o (hnext ▸ ho)
  · rintro o ⟨hlt, k, hk, hown⟩
    rw [(hfields o).2.1] at hk
    rw [(hfields o).2.2.1, (hfields o).2.2.2]
    exact hd.plain o ⟨hnext ▸ hlt, k, hk, hown⟩

theorem cancel_tidy (hd : Tidy own s) (o : Hid) : Tidy own (cancel s o) := by
  have hsized : Sized (cancel s o) := hd.toSized.congr rfl rfl
  refine hd.objects hsized (fun x => ?_) rfl (fun _ hx => hx) rfl
  by_cases hx : x = o
  · rw [hx]
    simp [cancel]
  · rw [show (cancel s o).objs x = s.objs x from Function.update_of_ne hx _ _]
    exact ⟨rfl, rfl, rfl, rfl⟩

theorem Took.tidy {dead : Bool} {item : Hid} (h : Took s s' item dead) (hd : Tidy own s)
    (hs : Sized s') : Tidy own s' := by
  refine hd.objects hs (fun o => ?_) h.next (fun o ho => ?_) h.heap
  · rw [h.objs]
    by_cases ho : o = item
    · rw [ho, Function.update_self]
      rcases fire_cases dead (s.objs item) with hfire | hfire
      · rw [hfire]
        exact ⟨rfl, rfl, rfl, rfl⟩
      · rw [hfire]
        exact ⟨rfl, rfl, rfl, rfl⟩
    · rw [Function.update_of_ne ho]
      exact ⟨rfl, rfl, rfl, rfl⟩
  · rw [h.queue]
    exact List.mem_cons_of_mem _ ho

/-- What waits is counted. -/
theorem Waiting.load_pos {o : Hid} (h : Waiting s o) : 0 < load s := by
  unfold load
  rcases h with h | h
  · have hpos : 0 < s.scheduled.size := by
      rw [← card_contents]
      exact Multiset.card_pos_iff_exists_mem.2 ⟨o, h⟩
    omega
  · have hpos : 0 < s.pendings.size := by
      rw [← length_entries]
      exact List.length_pos_of_mem h
    omega

end Jega.Loop
