import Jega.Loop.Steps
import Jega.Trace.History

/-!
# Jega.Loop.Repeating — a repeating timer stays armed

`call_repeatedly` sets the repeat flag on what `make_handle` gave it. That is a
timer if the interval is positive, and then it goes round: from the heap to the
queue, from there into a pass, and back to the heap when the pass is through
with it, whatever its callback does. For an interval of 0 it is a handle.

The history is the list of the timers that `call_repeatedly` has returned and
that have not been cancelled.
-/

namespace Jega.Loop

open Trace

variable {κ : Type}

/-! ## The statement -/

/-- What `call_repeatedly` has returned, less what was cancelled. -/
def repeating (s : St κ) (a : Act κ) (_ : St κ) (timers : List Hid) : List Hid :=
  match a with
  | .call_repeatedly seconds _ => if seconds < 0 then timers else s.next :: timers
  | .cancel timer => timers.filter (· ≠ timer)
  | _ => timers

/-- A timer with the repeat flag that is in the heap, in the queue or in a pass,
and only once. -/
structure Repeating (s : St κ) (o : Hid) : Prop where
  type : (s.objs o).type = .Timer
  repeats : (s.objs o).repeats = true
  once : s.scheduled.contents.count o + s.pendings.entries.count o + (inflight s).count o = 1

def StaysArmed (t : Watched (St κ) (List Hid)) : Prop := ∀ o ∈ t.hist, Repeating t.st o

/-- The interval is not 0, and no repeating timer is passed to `_add_callback`. -/
def Lasting (t : Watched (St κ) (List Hid)) : Act κ → Prop
  | .call_repeatedly seconds _ => seconds ≠ 0
  | .add_callback o => o ∉ t.hist
  | _ => True

/-! ## The entries -/

/-- The entries of the loop, with `F` in flight. -/
def held (s : St κ) (F : Multiset Hid) : Multiset Hid :=
  s.scheduled.contents + (s.pendings.entries : Multiset Hid) + F

/-- Every entry is an object. -/
structure Holding (s : St κ) (F : Multiset Hid) : Prop where
  sized : Sized s
  held_lt : ∀ o ∈ held s F, o < s.next

/-- A repeating timer that has not been cancelled. It is marked as called only
while a pass is in it. -/
structure Armed (s : St κ) (F : Multiset Hid) (o : Hid) : Prop where
  type : (s.objs o).type = .Timer
  repeats : (s.objs o).repeats = true
  live : (s.objs o).cancelled = false
  ready : o ∉ F → (s.objs o).called = false
  once : (held s F).count o = 1

/-- The timers armed before are armed after. -/
structure Keeps (s : St κ) (F : Multiset Hid) (s' : St κ) (F' : Multiset Hid) : Prop where
  holding : Holding s' F'
  armed : ∀ o, Armed s F o → Armed s' F' o

variable {s s' t : St κ} {F F' : Multiset Hid} {i : Nat} {o item : Hid}

theorem count_held (s : St κ) (F : Multiset Hid) (o : Hid) :
    (held s F).count o =
      s.scheduled.contents.count o + s.pendings.entries.count o + F.count o := by
  rw [held, Multiset.count_add, Multiset.count_add, Multiset.coe_count]

theorem init_holding (block : Nat → Hid) (now : Int) : Holding (init κ block now) 0 where
  sized := init_sized block now
  held_lt := by
    intro o ho
    exact absurd ho (Multiset.notMem_zero o)

theorem Armed.lt (ha : Armed s F o) (hh : Holding s F) : o < s.next := by
  refine hh.held_lt o (Multiset.count_pos.1 ?_)
  rw [ha.once]
  exact Nat.one_pos

theorem Armed.repeating (ha : Armed s (inflight s) o) : Repeating s o :=
  ⟨ha.type, ha.repeats, count_held s _ o ▸ ha.once⟩

/-- A step that leaves the timer where it is, or moves it into a pass. -/
theorem Armed.move (ha : Armed s F o) (hobj : s'.objs o = s.objs o)
    (hcount : (held s' F').count o = (held s F).count o) (hin : o ∈ F → o ∈ F') :
    Armed s' F' o where
  type := by rw [hobj, ha.type]
  repeats := by rw [hobj, ha.repeats]
  live := by rw [hobj, ha.live]
  ready := by
    intro hout
    rw [hobj]
    exact ha.ready fun hF => hout (hin hF)
  once := hcount.trans ha.once

theorem Keeps.trans {F'' : Multiset Hid} (h : Keeps s F s' F') (h' : Keeps s' F' t F'') :
    Keeps s F t F'' :=
  ⟨h'.holding, fun o ha => h'.armed o (h.armed o ha)⟩

/-- The same objects, heap and queue. -/
theorem keeps_of_eq (hh : Holding s F) (hobjs : s'.objs = s.objs) (hnext : s'.next = s.next)
    (hheap : s'.scheduled = s.scheduled) (hqueue : s'.pendings = s.pendings) : Keeps s F s' F := by
  have hheld : held s' F = held s F := by rw [held, held, hheap, hqueue]
  refine ⟨⟨hh.sized.congr hqueue hheap, ?_⟩, fun o ha => ?_⟩
  · rw [hheld, hnext]
    exact hh.held_lt
  · exact ha.move (by rw [hobjs]) (by rw [hheld]) id

theorem Same.keeps (h : Same s s') (hh : Holding s F) : Keeps s F s' F :=
  keeps_of_eq hh h.objs h.next h.scheduled h.pendings

/-! ## Scheduling -/

theorem schedule_timer_objs (h : schedule_timer s o = some s') :
    s'.objs = s.objs ∧ s'.next = s.next := by
  rcases schedule_timer_cases h with ⟨_, r, _, rfl⟩ | ⟨_, r, _, rfl⟩
  · exact ⟨rfl, rfl⟩
  · exact ⟨rfl, rfl⟩

theorem schedule_timer_held (h : schedule_timer s o = some s') (hs : Sized s) (F : Multiset Hid) :
    held s' F = o ::ₘ held s F := by
  rcases schedule_timer_cases h with ⟨_, r, hr, rfl⟩ | ⟨_, r, hr, rfl⟩
  · -- Case: a handle
    obtain ⟨_, hentries, _⟩ := queue_push_cases hs.pendings hs.pendings_dvd hr
    have hqueue : (r.1.entries : Multiset Hid) = o ::ₘ (s.pendings.entries : Multiset Hid) := by
      rw [hentries, ← Multiset.coe_add, Multiset.add_comm]
      exact Multiset.singleton_add o _
    simp only [held, St.incr_scheduled, St.note_scheduled, St.incr_pendings, St.note_pendings,
      hqueue]
    rw [Multiset.add_cons, Multiset.cons_add]
  · -- Case: a timer
    simp only [held, St.incr_scheduled, St.incr_pendings, heappush_contents hr]
    rw [Multiset.cons_add, Multiset.cons_add]

theorem schedule_timer_keeps (h : schedule_timer s o = some s') (hh : Holding s F)
    (hlt : o < s.next) :
    Holding s' F ∧ ∀ x, x ≠ o → Armed s F x → Armed s' F x := by
  obtain ⟨hobjs, hnext⟩ := schedule_timer_objs h
  have hheld := schedule_timer_held h hh.sized F
  refine ⟨⟨schedule_timer_sized h hh.sized, fun x hx => ?_⟩, fun x hne ha => ?_⟩
  · rw [hheld] at hx
    rw [hnext]
    rcases Multiset.mem_cons.1 hx with rfl | hx
    · exact hlt
    · exact hh.held_lt x hx
  · refine ha.move (by rw [hobjs]) ?_ id
    rw [hheld, Multiset.count_cons_of_ne hne]

theorem make_handle_keeps (hh : Holding s F) (seconds : Int) (cb : Option κ)
    (greenlet : Option Gid) : Keeps s F (make_handle s seconds cb greenlet).1 F := by
  refine ⟨⟨hh.sized.congr rfl rfl, fun o ho => ?_⟩, fun o ha => ?_⟩
  · exact Nat.lt_succ_of_lt (hh.held_lt o ho)
  · refine ha.move ?_ rfl id
    have hne : o ≠ s.next := (ha.lt hh).ne
    simp [make_handle, hne]

theorem call_keeps {seconds : Int} {cb : Option κ} {greenlet : Option Gid}
    (h : internal_loop_schedule_call s seconds cb greenlet = some s') (hh : Holding s F) :
    Keeps s F s' F := by
  have hmade := make_handle_keeps hh seconds cb greenlet
  obtain ⟨hh', hkeep⟩ := schedule_timer_keeps h hmade.holding (Nat.lt_succ_self _)
  refine ⟨hh', fun o ha => hkeep o ?_ (hmade.armed o ha)⟩
  exact (ha.lt hh).ne

/-- The object that a call schedules, and that it is scheduled once. -/
theorem call_new {seconds : Int} {cb : Option κ}
    (h : internal_loop_schedule_call s seconds cb none = some s') (hh : Holding s F) :
    s'.objs s.next = (if seconds > 0 then TimerObject_new s.clock seconds cb none
      else HandleObject_new cb none) ∧ (held s' F).count s.next = 1 := by
  have hmade := make_handle_keeps hh seconds cb none
  constructor
  · rw [(schedule_timer_objs h).1]
    simp [make_handle]
  · have hout : s.next ∉ held (make_handle s seconds cb none).1 F := by
      intro hin
      exact Nat.lt_irrefl _ (hh.held_lt _ hin)
    have hheld := schedule_timer_held h hmade.holding.sized F
    rw [hheld]
    exact (Multiset.count_cons_self _ _).trans (by rw [Multiset.count_eq_zero_of_notMem hout])

/-- A change of an object that is not armed. -/
theorem set_obj_keeps (hh : Holding s F) (o : Hid) (obj : TimerObject κ) :
    Holding (s.set_obj o obj) F ∧ ∀ x, x ≠ o → Armed s F x → Armed (s.set_obj o obj) F x := by
  refine ⟨⟨hh.sized.congr rfl rfl, hh.held_lt⟩, fun x hne ha => ?_⟩
  exact ha.move (by simp [hne]) rfl id

/-! ## Firing -/

/-- `fire_timers` drops only cancelled timers. -/
theorem fire_timers_keeps (h : fire_timers none s = some s') (hh : Holding s F) : Keeps s F s' F := by
  refine fire_timers_loop_invariant (P := fun r => Keeps s F r F) ?_ ?_ h
    ⟨hh, fun _ ha => ha⟩
  · -- Case: dropped
    intro r hpos hcancelled hr
    have hheld : held r F = r.scheduled.heap 0 ::ₘ
        held (({ r with scheduled := (heappop r.seconds r.scheduled).2 }.decr).note
          (.drop (r.scheduled.heap 0))) F := by
      simp only [held, St.note_scheduled, St.decr_scheduled, St.note_pendings, St.decr_pendings]
      rw [heappop_contents r.seconds hpos, Multiset.cons_add, Multiset.cons_add]
    refine hr.trans ⟨⟨hr.holding.sized.drop, fun o ho => ?_⟩, fun o ha => ?_⟩
    · refine hr.holding.held_lt o ?_
      rw [hheld]
      exact Multiset.mem_cons_of_mem ho
    · refine ha.move rfl ?_ id
      have hne : o ≠ r.scheduled.heap 0 := by
        rintro rfl
        rw [ha.live] at hcancelled
        cases hcancelled
      rw [hheld, Multiset.count_cons_of_ne hne]
  · -- Case: expired
    intro r q hpos _ _ hq hr
    have hheld : held ({ r with
        scheduled := (heappop r.seconds r.scheduled).2, pendings := q.1 }.note
          (.expire (r.scheduled.heap 0))) F = held r F := by
      obtain ⟨_, hentries, _⟩ :=
        queue_push_cases hr.holding.sized.pendings hr.holding.sized.pendings_dvd hq
      simp only [held, St.note_scheduled, St.note_pendings]
      rw [heappop_contents r.seconds hpos, hentries, ← Multiset.coe_add, Multiset.coe_singleton,
        ← Multiset.singleton_add]
      congr 1
      rw [← Multiset.add_assoc, Multiset.add_comm, ← Multiset.add_assoc]
    refine hr.trans ⟨⟨hr.holding.sized.expire hq, fun o ho => ?_⟩, fun o ha => ?_⟩
    · rw [hheld] at ho
      exact hr.holding.held_lt o ho
    · exact ha.move rfl (by rw [hheld]) id

/-- The pass is through with an entry: a repeating timer is back in the heap. -/
theorem fire_returned_keeps (h : fire_returned s item = some s') (hh : Holding s (item ::ₘ F)) :
    Keeps s (item ::ₘ F) s' F := by
  have hheld : held s (item ::ₘ F) = item ::ₘ held s F := Multiset.add_cons item _ F
  have hland : Holding s F := by
    refine ⟨hh.sized, fun o ho => hh.held_lt o ?_⟩
    rw [hheld]
    exact Multiset.mem_cons_of_mem ho
  have hother : ∀ x, x ≠ item → Armed s (item ::ₘ F) x → Armed s F x := by
    intro x hne ha
    refine ⟨ha.type, ha.repeats, ha.live, fun hF => ha.ready fun hin => ?_, ?_⟩
    · rcases Multiset.mem_cons.1 hin with heq | hin
      · exact hne heq
      · exact hF hin
    · rw [← ha.once, hheld, Multiset.count_cons_of_ne hne]
  rcases fire_returned_cases h with ⟨hnot, rfl⟩ | ⟨hre, hsched⟩
  · refine ⟨hland, fun x ha => hother x ?_ ha⟩
    rintro rfl
    exact hnot ⟨ha.type, ha.repeats⟩
  · obtain ⟨hset, hsetArmed⟩ := set_obj_keeps hland item { s.objs item with
      called := false, cancelled := false, seconds := s.clock + (s.objs item).interval }
    have hnote : Keeps _ F ((s.set_obj item { s.objs item with
      called := false, cancelled := false, seconds := s.clock + (s.objs item).interval }).note
        (.rearm item)) F := keeps_of_eq hset rfl rfl rfl rfl
    have hlt : item < s.next := by
      refine hh.held_lt item ?_
      rw [hheld]
      exact Multiset.mem_cons_self item _
    obtain ⟨hholding, hkeep⟩ := schedule_timer_keeps hsched hnote.holding hlt
    refine ⟨hholding, fun x ha => ?_⟩
    by_cases hne : x = item
    · -- the timer itself is what was scheduled
      subst hne
      have hobj : s'.objs x = { s.objs x with
          called := false, cancelled := false, seconds := s.clock + (s.objs x).interval } := by
        rw [(schedule_timer_objs hsched).1]
        simp
      refine ⟨by rw [hobj]; exact ha.type, by rw [hobj]; exact ha.repeats, by rw [hobj],
        fun _ => by rw [hobj], ?_⟩
      have hback := schedule_timer_held hsched hnote.holding.sized F
      rw [hback, ← ha.once, hheld]
      rfl
    · exact hkeep x hne (hnote.armed x (hsetArmed x hne (hother x hne ha)))

/-- The end of a round leaves the entry that the pass was in. -/
theorem round_ended_keeps {p : Pass} (hpass : s.passes[i]? = some p) (caller : Caller) (exc : Bool)
    (hh : Holding s F) (hF : inflight s = (p.item.toList : Multiset Hid) + F) :
    Keeps s F (round_ended s i caller exc) (inflight (round_ended s i caller exc)) := by
  obtain ⟨hsame, hinflight⟩ := round_ended_same hpass caller exc
  have hflight : inflight (round_ended s i caller exc) = F :=
    Multiset.add_right_inj.1 (hinflight.trans hF)
  rw [hflight]
  have hdecr : Keeps s F s.decr F := keeps_of_eq hh rfl rfl rfl rfl
  exact hdecr.trans (hsame.keeps hdecr.holding)

/-- The head of the queue is taken, and nothing of it that matters here is changed. -/
theorem take_keeps {q : queue_t Hid} (hh : Holding s F)
    (hshift : queue_shift s.pendings = (some item, q)) (e : Event κ) :
    Keeps s F (({ s with pendings := q }.set_obj item (s.objs item).marked).note e)
      (item ::ₘ F) := by
  have hentries := (queue_shift_some hh.sized.pendings hshift).1
  have hheld : held (({ s with pendings := q }.set_obj item (s.objs item).marked).note e)
      (item ::ₘ F) = held s F := by
    simp only [held, St.note_scheduled, St.set_obj_scheduled, St.note_pendings,
      St.set_obj_pendings]
    rw [hentries, ← Multiset.cons_coe, Multiset.add_cons, Multiset.add_cons, Multiset.cons_add]
  have hout := hh.sized.shift hshift
  refine ⟨⟨⟨hout.1.1, hout.1.2, hh.sized.scheduled⟩, fun o ho => ?_⟩, fun o ha => ?_⟩
  · rw [hheld] at ho
    exact hh.held_lt o ho
  · by_cases hne : o = item
    · -- a timer is marked as called while the pass is in it
      subst hne
      refine ⟨?_, ?_, ?_, fun hnot => absurd (Multiset.mem_cons_self o F) hnot, ?_⟩
      · simpa [TimerObject.marked] using ha.type
      · simpa [TimerObject.marked] using ha.repeats
      · simpa [TimerObject.marked] using ha.live
      · rw [hheld, ha.once]
    · exact ha.move (by simp [hne]) (by rw [hheld]) fun hF => Multiset.mem_cons_of_mem hF

/-- A timer that is armed is not skipped. -/
theorem skip_keeps {q : queue_t Hid} (hh : Holding s F)
    (hshift : queue_shift s.pendings = (some item, q))
    (hflag : (s.objs item).cancelled = true ∨ (s.objs item).called = true) (e : Event κ) :
    Keeps s F (({ s with pendings := q }.set_obj item (s.objs item)).note e) F := by
  have hentries := (queue_shift_some hh.sized.pendings hshift).1
  have hheld : held s F =
      item ::ₘ held (({ s with pendings := q }.set_obj item (s.objs item)).note e) F := by
    simp only [held, St.note_scheduled, St.set_obj_scheduled, St.note_pendings,
      St.set_obj_pendings]
    rw [hentries, ← Multiset.cons_coe, Multiset.add_cons, Multiset.cons_add]
  have hout := hh.sized.shift hshift
  refine ⟨⟨⟨hout.1.1, hout.1.2, hh.sized.scheduled⟩, fun o ho => ?_⟩, fun o ha => ?_⟩
  · refine hh.held_lt o ?_
    rw [hheld]
    exact Multiset.mem_cons_of_mem ho
  · -- it is in the queue once, so no pass is in it and its flags are clear
    have hne : o ≠ item := by
      rintro rfl
      have hnot : o ∉ F := by
        intro hF
        have hpos := Multiset.count_pos.2 hF
        have hone := ha.once
        rw [count_held, hentries, List.count_cons_self] at hone
        omega
      rw [ha.live, ha.ready hnot] at hflag
      simp at hflag
    refine ha.move (by simp [hne]) ?_ id
    rw [hheld, Multiset.count_cons_of_ne hne]

theorem fire_item_keeps {caller : Caller} {q : queue_t Hid} {dead : Bool}
    (hh : Holding s (inflight s)) (hpass : s.passes[i]? = some ⟨caller, .firing⟩)
    (hshift : queue_shift s.pendings = (some item, q))
    (h : FireItem { s with pendings := q } i caller item dead s') :
    Keeps s (inflight s) s' (inflight s') := by
  cases h with
  | skipped hflag _ =>
    have hskip := skip_keeps hh hshift hflag (.shift ⟨item, s.objs item, dead, .nothing, s.clock⟩)
    refine hskip.trans (round_ended_keeps (p := ⟨caller, .firing⟩) ?_ caller false hskip.holding ?_)
    · exact hpass
    · exact (Multiset.zero_add _).symm
  | lost _ _ _ hreturned =>
    have htake := take_keeps hh hshift (.shift ⟨item, s.objs item, dead, .nothing, s.clock⟩)
    have hback := htake.trans (fire_returned_keeps hreturned htake.holding)
    have hpasses := fire_returned_passes hreturned
    refine hback.trans (round_ended_keeps (hpasses ▸ hpass) caller false hback.holding ?_)
    rw [inflight_congr hpasses]
    exact (Multiset.zero_add _).symm
  | fired _ _ _ =>
    have htake := take_keeps hh hshift (.shift ⟨item, s.objs item, dead,
      (s.objs item).invoke fun _ => dead, s.clock⟩)
    have hflight : ∀ r : St κ, r.passes = s.passes → Keeps s (inflight s) r (item ::ₘ inflight s) →
        Keeps s (inflight s) (r.goto i caller (.fired item))
          (inflight (r.goto i caller (.fired item))) := by
      intro r hr hkeep
      rw [inflight_fired hpass hr item]
      exact hkeep.trans ((same_goto r i caller _).keeps hkeep.holding)
    exact hflight _ rfl htake

/-! ## Steps -/

/-- A step keeps every timer armed that it does not cancel or schedule itself. -/
theorem step_keeps {a : Act κ} (h : step s a = some s') (hh : Holding s (inflight s)) :
    Holding s' (inflight s') ∧ ∀ o, a ≠ .add_callback o → a ≠ .cancel o →
      Armed s (inflight s) o → Armed s' (inflight s') o := by
  have hdone : Keeps s (inflight s) s' (inflight s') →
      Holding s' (inflight s') ∧ ∀ o, a ≠ .add_callback o → a ≠ .cancel o →
        Armed s (inflight s) o → Armed s' (inflight s') o :=
    fun hk => ⟨hk.holding, fun o _ _ => hk.armed o⟩
  cases step_cases h with
  | quiet _ hquiet =>
    apply hdone
    rw [hquiet.inflight]
    exact hquiet.toSame.keeps hh
  | call _ hcall =>
    apply hdone
    have hpasses := schedule_timer_passes hcall
    rw [inflight_congr hpasses]
    exact call_keeps hcall hh
  | @call_repeatedly seconds cb t _ hcall =>
    -- the flag goes to the new object, which nobody had armed
    apply hdone
    have hpasses := schedule_timer_passes hcall
    have hk := call_keeps hcall hh
    obtain ⟨hset, hkeep⟩ := set_obj_keeps hk.holding s.next { t.objs s.next with repeats := true }
    have hflight : inflight (t.set_obj s.next { t.objs s.next with repeats := true }) =
        inflight s := inflight_congr hpasses
    rw [hflight]
    exact ⟨hset, fun o ha => hkeep o (ha.lt hh).ne (hk.armed o ha)⟩
  | @set_timeout seconds throw t hcall =>
    apply hdone
    have hpasses := schedule_timer_passes hcall
    have hk := call_keeps hcall hh
    split
    · -- a timeout of 0 is cancelled behind its call
      obtain ⟨hset, hkeep⟩ := set_obj_keeps hk.holding s.next { t.objs s.next with cancelled := true }
      have hflight : inflight (cancel t s.next) = inflight s := inflight_congr hpasses
      rw [hflight]
      refine Keeps.trans ⟨hset, fun o ha => hkeep o (ha.lt hh).ne (hk.armed o ha)⟩ ?_
      exact keeps_of_eq hset rfl rfl rfl rfl
    · rw [inflight_congr hpasses]
      exact hk
  | make_handle => exact hdone (make_handle_keeps hh 0 _ none)
  | @add_callback o _ hlt hsched =>
    rw [inflight_congr (schedule_timer_passes hsched)]
    obtain ⟨hholding, hkeep⟩ := schedule_timer_keeps hsched hh hlt
    refine ⟨hholding, fun x hne _ ha => hkeep x ?_ ha⟩
    rintro rfl
    exact hne rfl
  | @cancel timer hlt =>
    obtain ⟨hset, hkeep⟩ := set_obj_keeps hh timer { s.objs timer with cancelled := true }
    have hnote : Keeps (s.set_obj timer { s.objs timer with cancelled := true }) (inflight s)
        (cancel s timer) (inflight s) := keeps_of_eq hset rfl rfl rfl rfl
    refine ⟨hnote.holding, fun x _ hne ha => hnote.armed x (hkeep x ?_ ha)⟩
    rintro rfl
    exact hne rfl
  | time => exact hdone (keeps_of_eq hh rfl rfl rfl rfl)
  | @entered i t _ htimers hquiet =>
    apply hdone
    have hk := fire_timers_keeps htimers hh
    rw [hquiet.inflight, inflight_congr (fire_timers_passes htimers)]
    exact hk.trans (hquiet.toSame.keeps hk.holding)
  | next hpass _ hshift hfire => exact hdone (fire_item_keeps hh hpass hshift hfire)
  | @returned i caller item exc t hpass hreturned =>
    -- the entry was in flight, and it is so no more
    apply hdone
    have hpasses := fire_returned_passes hreturned
    rw [inflight_item hpass] at hh ⊢
    have hk := fire_returned_keeps hreturned hh
    refine hk.trans (round_ended_keeps (hpasses ▸ hpass) caller exc hk.holding ?_)
    rw [inflight_congr hpasses, inflight_item hpass]
    rfl

/-- The new timer is armed, if it is one. -/
theorem call_repeatedly_armed {seconds : Int} {cb : κ}
    (h : step s (.call_repeatedly seconds cb) = some s') (hh : Holding s (inflight s))
    (hpos : 0 ≤ seconds) :
    (seconds ≠ 0 → Armed s' (inflight s') s.next) ∧ (seconds = 0 → ¬ Repeating s' s.next) := by
  simp only [step, call_repeatedly] at h
  rw [if_neg (not_lt.2 hpos)] at h
  obtain ⟨t, ht, rfl⟩ := Option.map_eq_some_iff.1 h
  obtain ⟨hobj, honce⟩ := call_new ht hh
  have hpasses := schedule_timer_passes ht
  have hflight : inflight (t.set_obj s.next { t.objs s.next with repeats := true }) =
      inflight s := by
    rw [inflight, St.set_obj_passes, hpasses]
    rfl
  constructor
  · intro hne
    rw [if_pos (by omega)] at hobj
    rw [hflight]
    refine ⟨?_, ?_, ?_, fun _ => ?_, honce⟩
    all_goals simp [hobj, TimerObject_new]
  · -- for 0 seconds `make_handle` made a handle, which has no flag
    intro hzero hrep
    rw [if_neg (by omega)] at hobj
    have htype := hrep.type
    rw [St.set_obj_objs, Function.update_self, hobj] at htype
    cases htype

/-- What holds between two steps. -/
structure Kept (t : Watched (St κ) (List Hid)) : Prop where
  holding : Holding t.st (inflight t.st)
  armed : ∀ o ∈ t.hist, Armed t.st (inflight t.st) o

theorem Kept.staysArmed {t : Watched (St κ) (List Hid)} (hk : Kept t) : StaysArmed t :=
  fun o ho => (hk.armed o ho).repeating

theorem step_kept {t t' : Watched (St κ) (List Hid)} {a : Act κ}
    (h : watch step repeating t a = some t') (hok : Lasting t a) (hk : Kept t) : Kept t' := by
  obtain ⟨hstep, hhist⟩ := watch_eq_some.1 h
  obtain ⟨hholding, harmed⟩ := step_keeps hstep hk.holding
  refine ⟨hholding, fun o ho => ?_⟩
  rw [hhist] at ho
  unfold repeating at ho
  split at ho
  next seconds cb =>
    split at ho
    next hneg => exact harmed o (by simp) (by simp) (hk.armed o ho)
    next hpos =>
      rcases List.mem_cons.1 ho with rfl | ho
      · exact (call_repeatedly_armed hstep hk.holding (not_lt.1 hpos)).1 hok
      · exact harmed o (by simp) (by simp) (hk.armed o ho)
  next timer =>
    obtain ⟨ho, hne⟩ := List.mem_filter.1 ho
    refine harmed o (by simp) ?_ (hk.armed o ho)
    rintro heq
    cases heq
    simp at hne
  next _ _ hcancel =>
    refine harmed o ?_ (hcancel o) (hk.armed o ho)
    rintro rfl
    exact hok ho

/-- Any other step loses a timer or arms one twice. -/
theorem step_unkept {t t' : Watched (St κ) (List Hid)} {a : Act κ}
    (h : watch step repeating t a = some t') (hk : Kept t) (hnot : ¬ Lasting t a) :
    ¬ StaysArmed t' := by
  obtain ⟨hstep, hhist⟩ := watch_eq_some.1 h
  intro hall
  cases a with
  | call_repeatedly seconds cb =>
    have hzero : seconds = 0 := not_not.1 hnot
    have hin : t.st.next ∈ t'.hist := by
      rw [hhist]
      simp [repeating, hzero]
    exact (call_repeatedly_armed hstep hk.holding hzero.ge).2 hzero (hall _ hin)
  | add_callback o =>
    have ho : o ∈ t.hist := not_not.1 hnot
    obtain ⟨hlt, hsched⟩ := Option.ite_none_right_eq_some.1 hstep
    have honce := (hall o (hhist ▸ ho)).once
    have hflight : inflight t'.st = inflight t.st := by
      rw [inflight, schedule_timer_passes hsched]
      rfl
    have hheld := schedule_timer_held hsched hk.holding.sized (inflight t.st)
    rw [hflight, ← count_held, hheld, Multiset.count_cons_self, (hk.armed o ho).once] at honce
    cases honce
  | _ => exact hnot trivial

/-- Along every run of the loop every timer that `call_repeatedly` has returned
is a timer with the repeat flag and in one place until it is cancelled, exactly
as long as no interval is 0 and code does not schedule such a timer itself. -/
theorem stays_armed_iff {block : Nat → Hid} {now : Int} {as : List (Act κ)}
    (h : run step (init κ block now) as = some t) :
    Always (watch step repeating) StaysArmed ⟨init κ block now, []⟩ as ↔
      Steps (watch step repeating) Lasting ⟨init κ block now, []⟩ as := by
  have hwatch : ∃ hist, run (watch step repeating) ⟨init κ block now, []⟩ as = some ⟨t, hist⟩ :=
    run_watch_iff.2 h
  obtain ⟨hist, hrun⟩ := hwatch
  have hinit : Kept (⟨init κ block now, []⟩ : Watched (St κ) (List Hid)) :=
    ⟨init_holding block now, by simp⟩
  have hstep : ∀ (t : Watched (St κ) (List Hid)) a t', watch step repeating t a = some t' →
      Kept t → (StaysArmed t' ↔ Lasting t a) := by
    intro t a t' ht hk
    constructor
    · intro hall
      by_contra hnot
      exact step_unkept ht hk hnot hall
    · intro hok
      exact (step_kept ht hok hk).staysArmed
  exact always_iff_steps (fun t a t' ht hok hk _ => step_kept ht hok hk)
    (fun t a t' ht hk _ => hstep t a t' ht hk) hinit hinit.staysArmed hrun

/-- A timer whose callback raises and that is cancelled, and one whose callback
stops the loop. -/
def timersArmed : List (Act Nat) :=
  [.call_repeatedly 2 0, .call_repeatedly 3 1, .run false, .test 0, .time 7, .entered 0 true,
    .next 0 false, .returned 0 true, .cancel 0, .run false, .test 0, .time 9, .entered 0 true,
    .next 0 false, .stop, .returned 0 false]

theorem stays_armed_iff_raised :
    Always (watch step repeating) StaysArmed ⟨init Nat (fun _ => 0) 5, []⟩ timersArmed ↔
      Steps (watch step repeating) Lasting ⟨init Nat (fun _ => 0) 5, []⟩ timersArmed := by
  obtain ⟨t, ht, _⟩ := run_any (p := fun t : St Nat => decide (t.next = 2))
    (by decide +kernel : (run step (init Nat (fun _ => 0) 5) timersArmed).any _ = true)
  exact stays_armed_iff ht

/-- An interval of 0 is accepted, and what it gives is a handle. -/
theorem repeating_handle : ∃ t,
    run step (init Nat (fun _ => 0) 5) [.call_repeatedly 0 7] = some t ∧
    ¬ Always (watch step repeating) StaysArmed ⟨init Nat (fun _ => 0) 5, []⟩
      [.call_repeatedly 0 7] := by
  obtain ⟨t, ht, hcheck⟩ := run_any
    (p := fun t : Watched (St Nat) (List Hid) =>
      decide (0 ∈ t.hist) && decide ((t.st.objs 0).type = .Handle))
    (by decide : (run (watch step repeating) ⟨init Nat (fun _ => 0) 5, []⟩
      [.call_repeatedly 0 7]).any _ = true)
  obtain ⟨hin, htype⟩ := Bool.and_eq_true_iff.1 hcheck
  refine ⟨t.st, run_watch ht, fun hall => ?_⟩
  have hrep := (hall.last ht 0 (of_decide_eq_true hin)).type
  rw [of_decide_eq_true htype] at hrep
  cases hrep

end Jega.Loop
