import Jega.Loop.Timetable

/-!
# Jega.Loop.Deadlines — no timer is early, and none overtakes another

The timers of the loop follow the table: each function of the scheduler is one
of its moves, or a few of them. So the runs of the callbacks are in the order
of their deadlines, however passes end and whatever callbacks do, as long as
the clock does not go back and the timers are left to the loop.

`LoopObject_add_callback` takes a timer as well as a handle and schedules it as it
is, also one that waits or runs already. A repeating timer that is scheduled
twice is fired by the second entry right after the first one has armed it again.
-/

namespace Jega.Loop

open Trace

variable {κ : Type}

/-! ## The statement -/

/-- The calls of timer callbacks so far. -/
def timerRuns (s : St κ) : List (Shift κ) := (shifts s).filter Shift.runs

/-- No timer is early, none overtakes another, and a timer runs again only if it
repeats and its interval is over. -/
structure InOrder (s : St κ) : Prop where
  in_time : ∀ d ∈ timerRuns s, d.object.seconds ≤ d.time
  ordered : (timerRuns s).Pairwise fun d d' => d.object.seconds ≤ d'.object.seconds
  spaced : (timerRuns s).Pairwise fun d d' => d.item = d'.item →
    d'.object.repeats = true ∧ d.time + d'.object.interval ≤ d'.time

/-- The clock does not go back. -/
def Steady (s : St κ) : Act κ → Prop
  | .time now => s.clock ≤ now
  | _ => True

/-- What code passes to `_add_callback` is a handle, as `_add_callback_signalsafe`
does. -/
def HandlesOnly (s : St κ) : Act κ → Prop
  | .add_callback o => (s.objs o).type = .Handle
  | _ => True

instance (s : St κ) : DecidablePred (Steady s)
  | .time now => inferInstanceAs (Decidable (s.clock ≤ now))
  | .call_soon _ | .call_later _ _ | .call_repeatedly _ _ | .set_timeout _ _ | .sleep _ _
  | .make_handle _ | .add_callback _ | .cancel _ | .stop | .running | .signal _ | .io _ | .run _
  | .run_once _ | .started _ _ | .test _ | .entered _ _ | .next _ _ | .returned _ _
  | .polled _ _ _ => isTrue trivial

instance (s : St κ) : DecidablePred (HandlesOnly s)
  | .add_callback o => inferInstanceAs (Decidable ((s.objs o).type = .Handle))
  | .call_soon _ | .call_later _ _ | .call_repeatedly _ _ | .set_timeout _ _ | .sleep _ _
  | .make_handle _ | .cancel _ | .time _ | .stop | .running | .signal _ | .io _ | .run _
  | .run_once _ | .started _ _ | .test _ | .entered _ _ | .next _ _ | .returned _ _
  | .polled _ _ _ => isTrue trivial

/-! ## The table of a state -/

/-- The timers of the loop, with `F` in flight. -/
def St.table (s : St κ) (F : Multiset Hid) : Table κ where
  objs := s.objs
  next := s.next
  heap := s.scheduled.contents
  queue := s.pendings.entries
  flight := F
  clock := s.clock
  runs := timerRuns s

structure Punctual (s : St κ) (F : Multiset Hid) : Prop where
  sized : Sized s
  heap : s.scheduled.WF s.seconds
  timely : (s.table F).Timely

variable {s s' t : St κ} {F : Multiset Hid} {i : Nat} {o : Hid}

theorem init_punctual (block : Nat → Hid) (now : Int) : Punctual (init κ block now) 0 where
  sized := init_sized block now
  heap := init_heapqueue_wf _ block
  timely := by
    refine ⟨?_, ?_, ?_, ?_, ?_, ?_, ?_, ?_, List.Pairwise.nil, ?_, ?_, ?_, ?_, List.Pairwise.nil⟩
    · exact fun o ho => absurd ho (Multiset.notMem_zero o)
    · exact fun o ho => absurd ho (Multiset.notMem_zero o)
    · exact fun o ho => nomatch ho
    · exact fun o ho => absurd ho (Multiset.notMem_zero o)
    · exact fun d hd => nomatch hd
    · exact fun d hd => nomatch hd
    · exact fun o ho => nomatch ho
    · exact fun o ho => nomatch ho
    · exact fun x hx => nomatch hx
    · exact fun x hx => nomatch hx
    · exact fun d hd => nomatch hd
    · exact fun d hd => nomatch hd

theorem timerRuns_note {e : Event κ} (he : e.shifted = none) : timerRuns (s.note e) = timerRuns s := by
  rw [timerRuns, shifts_note, he, Option.toList_none, List.append_nil]
  rfl

theorem timerRuns_shift (s : St κ) (d : Shift κ) :
    timerRuns (s.note (.shift d)) = timerRuns s ++ if d.runs then [d] else [] := by
  rw [timerRuns, shifts_note, List.filter_append]
  simp only [Event.shifted, Option.toList_some, List.filter_singleton, Bool.cond_eq_ite]
  rfl

/-- Nothing the table shows has changed. -/
theorem Punctual.congr (hp : Punctual s F) (hobjs : s'.objs = s.objs) (hnext : s'.next = s.next)
    (hscheduled : s'.scheduled = s.scheduled) (hpendings : s'.pendings = s.pendings)
    (hclock : s'.clock = s.clock) (hruns : timerRuns s' = timerRuns s) : Punctual s' F := by
  have htable : s'.table F = s.table F := by
    simp only [St.table, hobjs, hnext, hscheduled, hpendings, hclock, hruns]
  have hseconds : s'.seconds = s.seconds := funext fun o => by rw [St.seconds, hobjs, St.seconds]
  refine ⟨hp.sized.congr hpendings hscheduled, ?_, htable ▸ hp.timely⟩
  rw [hscheduled, hseconds]
  exact hp.heap

theorem Punctual.same (hp : Punctual s F) (h : Same s s') : Punctual s' F :=
  hp.congr h.objs h.next h.scheduled h.pendings h.clock (by rw [timerRuns, shifts, h.log]; rfl)

theorem Punctual.note (hp : Punctual s F) {e : Event κ} (he : e.shifted = none) :
    Punctual (s.note e) F :=
  hp.congr rfl rfl rfl rfl rfl (timerRuns_note he)

/-- The timers in the heap keep their keys, so it stays a heap. -/
theorem Punctual.heap_congr (hp : Punctual s F) (objs : Hid → TimerObject κ)
    (hsame : ∀ x ∈ s.scheduled.contents, (objs x).seconds = (s.objs x).seconds) :
    s.scheduled.WF fun x => (objs x).seconds := by
  refine ⟨hp.heap.ordered.congr_key fun i hi => ?_, hp.heap.size_le, hp.heap.max_pos⟩
  exact hsame _ (Heap.mem_contents.2 ⟨i, hi, rfl⟩)

/-! ## Moves -/

theorem Punctual.land (hp : Punctual s (o ::ₘ F)) : Punctual s F :=
  ⟨hp.sized, hp.heap, hp.timely.land rfl⟩

/-- `fire_timers` drops a cancelled timer. -/
theorem Punctual.drop (hp : Punctual s F) (hpos : 0 < s.scheduled.size) :
    Punctual (({ s with scheduled := (heappop s.seconds s.scheduled).2 }.decr).note
      (.drop (s.scheduled.heap 0))) F := by
  obtain ⟨_, hwf, hcontents, _, _⟩ := heappop_spec hp.heap hpos
  have hdrop : Punctual { s with scheduled := (heappop s.seconds s.scheduled).2 } F :=
    ⟨hp.sized.drop.congr rfl rfl, hwf, hp.timely.drop hcontents⟩
  have hnote := hdrop.note (e := .drop (s.scheduled.heap 0)) rfl
  exact hnote.congr rfl rfl rfl rfl rfl rfl

/-- `fire_timers` moves a timer that is due to the queue. -/
theorem Punctual.expire (hp : Punctual s F) (hpos : 0 < s.scheduled.size)
    (hdue : (s.objs (s.scheduled.heap 0)).seconds ≤ s.clock) {r : queue_t Hid × Int}
    (hr : queue_push none true s.pendings (s.scheduled.heap 0) = some r) :
    Punctual ({ s with scheduled := (heappop s.seconds s.scheduled).2, pendings := r.1 }.note
      (.expire (s.scheduled.heap 0))) F := by
  obtain ⟨_, hwf, hcontents, _, _⟩ := heappop_spec hp.heap hpos
  obtain ⟨_, hentries, _⟩ := queue_push_cases hp.sized.pendings hp.sized.pendings_dvd hr
  -- the root of the heap is before all the others
  have hleast : ∀ x ∈ (heappop s.seconds s.scheduled).2.contents,
      (s.objs (s.scheduled.heap 0)).seconds ≤ (s.objs x).seconds := by
    intro x hx
    have hmem : x ∈ s.scheduled.contents := hcontents ▸ Multiset.mem_cons_of_mem hx
    exact hp.heap.ordered.root_le_of_mem hmem
  have hmoved := hp.timely.expire hcontents hleast hdue
  have hexpire : Punctual
      { s with scheduled := (heappop s.seconds s.scheduled).2, pendings := r.1 } F := by
    refine ⟨(hp.sized.expire hr).congr rfl rfl, hwf, ?_⟩
    rw [St.table]
    simp only
    rw [hentries]
    exact hmoved
  exact hexpire.note rfl

/-- `schedule_timer` queues a handle, or arms a timer for a time to come. -/
theorem schedule_timer_punctual (h : schedule_timer s o = some s') (hp : Punctual s F)
    (hlt : o < s.next)
    (hfree : (s.objs o).type = .Timer → s.clock < (s.objs o).seconds ∧
      s.scheduled.contents.count o + s.pendings.entries.count o + F.count o = 0) :
    Punctual s' F ∧ timerRuns s' = timerRuns s := by
  have hsized := schedule_timer_sized h hp.sized
  rcases schedule_timer_cases h with ⟨htype, r, hr, rfl⟩ | ⟨htype, r, hr, rfl⟩
  · -- Case: a handle
    obtain ⟨_, hentries, _⟩ := queue_push_cases hp.sized.pendings hp.sized.pendings_dvd hr
    have hqueued : Punctual { s with pendings := r.1 } F := by
      refine ⟨hsized.congr rfl rfl, hp.heap, ?_⟩
      rw [St.table]
      simp only
      rw [hentries]
      exact hp.timely.enqueue hlt htype
    refine ⟨(hqueued.note (e := .push o) rfl).congr rfl rfl rfl rfl rfl rfl, ?_⟩
    exact timerRuns_note (s := { s with pendings := r.1 }) (e := .push o) rfl
  · -- Case: a timer
    obtain ⟨hwf, hcontents⟩ := heappush_some hp.heap hp.sized.scheduled hr
    obtain ⟨hlate, hnone⟩ := hfree htype
    have harmed : Punctual { s with scheduled := r.1 } F := by
      refine ⟨hsized.congr rfl rfl, hwf, ?_⟩
      rw [St.table]
      simp only
      rw [hcontents]
      exact hp.timely.arm hlt htype hlate hnone
    exact ⟨harmed.congr rfl rfl rfl rfl rfl rfl, rfl⟩

/-- `make_handle` makes a timer that is in no place yet. -/
theorem make_handle_punctual (hp : Punctual s F) (seconds : Int) (cb : Option κ)
    (greenlet : Option Gid) : Punctual (make_handle s seconds cb greenlet).1 F := by
  have hobj : ∀ obj : TimerObject κ, (obj.type = .Timer → 0 < obj.interval) →
      Punctual { s.set_obj s.next obj with next := s.next + 1 } F := by
    intro obj hpos
    refine ⟨hp.sized.congr rfl rfl, ?_, hp.timely.create obj hpos⟩
    refine hp.heap_congr (Function.update s.objs s.next obj) fun x hx => ?_
    have hne : x ≠ s.next := Nat.ne_of_lt (hp.timely.heap_lt x hx)
    rw [Function.update_of_ne hne]
  unfold make_handle
  simp only
  apply hobj
  split
  next hpos => exact fun _ => hpos
  next => exact fun htype => nomatch htype

/-- A new handle or timer is scheduled; it has not run. -/
theorem call_punctual {seconds : Int} {cb : Option κ} {greenlet : Option Gid}
    (h : internal_loop_schedule_call s seconds cb greenlet = some s') (hp : Punctual s F) :
    Punctual s' F ∧ ∀ d ∈ timerRuns s', d.item ≠ s.next := by
  have hmake := make_handle_punctual hp seconds cb greenlet
  have hheap : s.next ∉ s.scheduled.contents :=
    fun hm => absurd (hp.timely.heap_lt _ hm) (Nat.lt_irrefl _)
  have hqueue : s.next ∉ s.pendings.entries :=
    fun hm => absurd (hp.timely.queue_lt _ hm) (Nat.lt_irrefl _)
  have hflight : s.next ∉ F := fun hm => absurd (hp.timely.flight_lt _ hm) (Nat.lt_irrefl _)
  obtain ⟨hsched, hruns⟩ := schedule_timer_punctual h hmake (Nat.lt_succ_self s.next) (by
    intro htype
    constructor
    · -- the deadline is the time of the call and the seconds
      simp only [make_handle, St.set_obj_objs, Function.update_self] at htype ⊢
      split at htype
      next hpos =>
        rw [if_pos hpos]
        simp only [TimerObject_new, if_pos hpos, St.set_obj_clock]
        omega
      next => cases htype
    · have hzero := Multiset.count_eq_zero_of_notMem hheap
      have hzero' := List.count_eq_zero_of_not_mem hqueue
      have hzero'' := Multiset.count_eq_zero_of_notMem hflight
      exact (congrArg₂ _ (congrArg₂ _ hzero hzero') hzero''))
  refine ⟨hsched, fun d hd => ?_⟩
  rw [hruns] at hd
  exact Nat.ne_of_lt (hp.timely.runs_lt d hd)

/-- An object keeps its kind and its times, and its marks if it has run. -/
theorem Punctual.change (hp : Punctual s F) (o : Hid) (obj : TimerObject κ)
    (htype : obj.type = (s.objs o).type) (hseconds : obj.seconds = (s.objs o).seconds)
    (hinterval : obj.interval = (s.objs o).interval)
    (hflags : ∀ d ∈ timerRuns s, d.item = o →
      obj.called = true ∨ obj.called = (s.objs o).called ∧ obj.repeats = (s.objs o).repeats) :
    Punctual (s.set_obj o obj) F := by
  refine ⟨hp.sized.congr rfl rfl, ?_, hp.timely.change o obj htype hseconds hinterval hflags⟩
  refine hp.heap_congr (Function.update s.objs o obj) fun x _ => ?_
  rcases eq_or_ne x o with rfl | hne
  · rw [Function.update_self, hseconds]
  · rw [Function.update_of_ne hne]

theorem cancel_punctual (hp : Punctual s F) (timer : Hid) : Punctual (cancel s timer) F := by
  have hobj := hp.change timer { s.objs timer with cancelled := true } rfl rfl rfl
    fun _ _ _ => Or.inr ⟨rfl, rfl⟩
  exact hobj.note rfl

theorem fire_timers_punctual (h : fire_timers none s = some s') (hp : Punctual s F) :
    Punctual s' F := by
  refine (fire_timers_loop_invariant (P := fun r => Punctual r F ∧ r.clock = s.clock)
    ?_ ?_ h ⟨hp, rfl⟩).1
  · intro r hpos _ ⟨hr, hclock⟩
    exact ⟨hr.drop hpos, hclock⟩
  · intro r q hpos _ hdue hq ⟨hr, hclock⟩
    exact ⟨hr.expire hpos (hclock ▸ hdue) hq, hclock⟩

/-- The callback of an entry in flight has returned; a repeating timer is armed
for its interval later. -/
theorem fire_returned_punctual (h : fire_returned s o = some s') (hp : Punctual s (o ::ₘ F)) :
    Punctual s' F := by
  rcases fire_returned_cases h with ⟨_, rfl⟩ | ⟨hre, hsched⟩
  · exact hp.land
  · -- it is nowhere else
    have hnone : s.scheduled.contents.count o + s.pendings.entries.count o + F.count o = 0 := by
      have hone := hp.timely.unique o hre.1
      simp only [St.table, Multiset.count_cons_self] at hone
      omega
    have hlt : o < s.next := hp.timely.flight_lt o (Multiset.mem_cons_self o F)
    have hland := hp.land
    have hreset := hland.timely.reset (o := o)
      { s.objs o with called := false, cancelled := false,
                      seconds := s.clock + (s.objs o).interval }
      hre.1 (by simp only [St.table]; omega) hre.1 rfl hre.2 rfl
    have hlate : s.clock < s.clock + (s.objs o).interval := by
      have hpos := hp.timely.interval_pos o hre.1
      simp only [St.table] at hpos
      omega
    have hset : Punctual (s.set_obj o { s.objs o with
        called := false, cancelled := false, seconds := s.clock + (s.objs o).interval }) F := by
      refine ⟨hland.sized.congr rfl rfl, ?_, hreset⟩
      refine hland.heap_congr (Function.update s.objs o { s.objs o with
        called := false, cancelled := false, seconds := s.clock + (s.objs o).interval })
        fun x hx => ?_
      have hne : x ≠ o := by
        rintro rfl
        have hcount := Multiset.count_pos.2 hx
        omega
      rw [Function.update_of_ne hne]
    refine (schedule_timer_punctual hsched (hset.note rfl) hlt fun _ => ⟨?_, hnone⟩).1
    simp only [St.note_objs, St.set_obj_objs, Function.update_self]
    exact hlate

/-! ## Steps -/

theorem round_ended_punctual {p : Pass} (hpass : s.passes[i]? = some p) (caller : Caller)
    (exc : Bool) (hp : Punctual s F) (hF : inflight s = (p.item.toList : Multiset Hid) + F) :
    Punctual (round_ended s i caller exc) (inflight (round_ended s i caller exc)) := by
  obtain ⟨hsame, hinflight⟩ := round_ended_same hpass caller exc
  have hflight : inflight (round_ended s i caller exc) = F :=
    Multiset.add_right_inj.1 (hinflight.trans hF)
  rw [hflight]
  have hdecr : Punctual s.decr F := hp.congr rfl rfl rfl rfl rfl rfl
  exact hdecr.same hsame

/-- The head of the queue is shifted, and its callback is not called. -/
theorem Punctual.take (hp : Punctual s F) {item : Hid} {q : queue_t Hid}
    (hshift : queue_shift s.pendings = (some item, q)) {d : Shift κ} (hruns : d.runs = false) :
    Punctual ({ s with pendings := q }.note (.shift d)) (item ::ₘ F) := by
  have hentries := (queue_shift_some hp.sized.pendings hshift).1
  have htaken : Punctual { s with pendings := q } (item ::ₘ F) :=
    ⟨⟨(hp.sized.shift hshift).1.1, (hp.sized.shift hshift).1.2, hp.sized.scheduled⟩, hp.heap,
      hp.timely.take hentries⟩
  refine htaken.congr rfl rfl rfl rfl rfl ?_
  rw [timerRuns_shift, hruns]
  exact List.append_nil _

/-- An entry is marked; a timer that has run stays marked. -/
theorem Punctual.marked (hp : Punctual s F) (o : Hid) :
    Punctual (s.set_obj o (s.objs o).marked) F := by
  refine hp.change o _ rfl rfl rfl fun d hd hitem => Or.inl ?_
  have htimer := hp.timely.runs_timer d hd
  rw [hitem] at htimer
  exact decide_eq_true htimer

/-- The head of the queue is a timer whose callback is called. -/
theorem Punctual.run (hp : Punctual s F) {item : Hid} {q : queue_t Hid} {d : Shift κ}
    (hshift : queue_shift s.pendings = (some item, q)) (hitem : d.item = item)
    (hobject : d.object = s.objs item) (htime : d.time = s.clock)
    (htimer : (s.objs item).type = .Timer) (hcalled : (s.objs item).called = false)
    (hruns : d.runs = true) :
    Punctual (({ s with pendings := q }.set_obj item (s.objs item).marked).note (.shift d))
      (item ::ₘ F) := by
  have hentries := (queue_shift_some hp.sized.pendings hshift).1
  have hmoved := hp.timely.run hentries hitem hobject htime htimer hcalled
  have hmarked := hp.marked item
  refine ⟨⟨(hp.sized.shift hshift).1.1, (hp.sized.shift hshift).1.2, hp.sized.scheduled⟩,
    hmarked.heap, ?_⟩
  rw [St.table, timerRuns_shift, hruns]
  exact hmoved

theorem fire_item_punctual {caller : Caller} {item : Hid} {q : queue_t Hid} {dead : Bool}
    (hp : Punctual s (inflight s)) (hpass : s.passes[i]? = some ⟨caller, .firing⟩)
    (hshift : queue_shift s.pendings = (some item, q))
    (h : FireItem { s with pendings := q } i caller item dead s') : Punctual s' (inflight s') := by
  have hnothing : ∀ object : TimerObject κ,
      Shift.runs ⟨item, object, dead, .nothing, s.clock⟩ = false := fun object => Bool.and_false _
  cases h with
  | skipped _ _ =>
    have hland := (hp.take hshift (hnothing (s.objs item))).land
    have hset := hland.change item (s.objs item) rfl rfl rfl fun _ _ _ => Or.inr ⟨rfl, rfl⟩
    refine round_ended_punctual (p := ⟨caller, .firing⟩) ?_ caller false
      (hset.congr rfl rfl rfl rfl rfl rfl) ?_
    · exact hpass
    · exact (Multiset.zero_add _).symm
  | lost _ _ _ hreturned =>
    have hmarked := (hp.take hshift (hnothing (s.objs item))).marked item
    have hpasses := fire_returned_passes hreturned
    refine round_ended_punctual (hpasses ▸ hpass) caller false
      (fire_returned_punctual hreturned (hmarked.congr rfl rfl rfl rfl rfl rfl)) ?_
    rw [inflight_congr hpasses]
    exact (Multiset.zero_add _).symm
  | fired _ hcalled hfired =>
    have hflight : ∀ r : St κ, r.passes = s.passes → Punctual r (item ::ₘ inflight s) →
        Punctual (r.goto i caller (.fired item)) (inflight (r.goto i caller (.fired item))) := by
      intro r hr hrp
      rw [inflight_fired hpass hr item]
      exact hrp.same (same_goto r i caller _)
    refine hflight _ rfl ?_
    rcases htype : (s.objs item).type with _ | _
    · -- Case: a handle
      have hruns : Shift.runs ⟨item, s.objs item, dead,
          (s.objs item).invoke fun _ => dead, s.clock⟩ = false := by
        rw [Shift.runs, htype]
        rfl
      exact ((hp.take hshift hruns).marked item).congr rfl rfl rfl rfl rfl rfl
    · -- Case: a timer
      exact hp.run hshift rfl rfl rfl htype hcalled (runs_iff.2 ⟨htype, hfired⟩)

theorem step_punctual {a : Act κ} (h : step s a = some s') (hsteady : Steady s a)
    (hok : HandlesOnly s a) (hp : Punctual s (inflight s)) : Punctual s' (inflight s') := by
  have hkeep : s'.passes = s.passes → Punctual s' (inflight s) → Punctual s' (inflight s') := by
    intro hpasses hp'
    rw [inflight_congr hpasses]
    exact hp'
  cases step_cases h with
  | quiet _ hquiet =>
    rw [hquiet.inflight]
    exact hp.same hquiet.toSame
  | call _ hcall =>
    have hpasses := schedule_timer_passes hcall
    exact hkeep hpasses (call_punctual hcall hp).1
  | @call_repeatedly seconds cb t _ hcall =>
    -- the new timer is marked as repeating before it runs
    obtain ⟨hr, hnew⟩ := call_punctual hcall hp
    have hpasses := schedule_timer_passes hcall
    refine hkeep hpasses (hr.change s.next _ rfl rfl rfl fun d hd hitem => ?_)
    exact absurd hitem (hnew d hd)
  | set_timeout hcall =>
    have hr := (call_punctual hcall hp).1
    have hpasses := schedule_timer_passes hcall
    split
    next hzero =>
      rw [if_pos hzero] at hkeep
      exact hkeep hpasses (cancel_punctual hr s.next)
    next hpos =>
      rw [if_neg hpos] at hkeep
      exact hkeep hpasses hr
  | make_handle => exact make_handle_punctual hp 0 _ none
  | add_callback hlt hsched =>
    refine hkeep (schedule_timer_passes hsched) (schedule_timer_punctual hsched hp hlt ?_).1
    intro htimer
    rw [hok] at htimer
    cases htimer
  | cancel _ => exact cancel_punctual hp _
  | time => exact ⟨hp.sized.congr rfl rfl, hp.heap, hp.timely.tick hsteady⟩
  | @entered i t _ htimers hquiet =>
    rw [hquiet.inflight, inflight_congr (fire_timers_passes htimers)]
    exact (fire_timers_punctual htimers hp).same hquiet.toSame
  | next hpass _ hshift hfire => exact fire_item_punctual hp hpass hshift hfire
  | @returned i caller item exc t hpass hreturned =>
    -- the entry was in flight, and it is so no more
    have hpasses := fire_returned_passes hreturned
    rw [inflight_item hpass] at hp
    refine round_ended_punctual (hpasses ▸ hpass) caller exc
      (fire_returned_punctual hreturned hp) ?_
    rw [inflight_congr hpasses, inflight_item hpass]
    rfl

theorem Punctual.inOrder (hp : Punctual s F) : InOrder s where
  in_time := fun d hd => (hp.timely.in_time d hd).1
  ordered := by
    have hsorted := (List.pairwise_append.1 hp.timely.sorted).1
    exact List.pairwise_map.1 hsorted
  spaced := hp.timely.spaced

/-- Over every run in which the clock does not go back and no timer is passed to
`_add_callback`, no timer runs before its deadline, timers run in the order of
their deadlines, and a timer runs again only if it repeats and its interval is
over. -/
theorem timers_in_order {block : Nat → Hid} {now : Int} {as : List (Act κ)}
    (hsteady : Steps step Steady (init κ block now) as)
    (hok : Steps step HandlesOnly (init κ block now) as) :
    Always step InOrder (init κ block now) as := by
  have hstep : ∀ (s : St κ) a s', step s a = some s' → Steady s a ∧ HandlesOnly s a →
      Punctual s (inflight s) → Punctual s' (inflight s') :=
    fun s a s' hs hok hp => step_punctual hs hok.1 hok.2 hp
  exact always_of_steps hstep (fun s hp => hp.inOrder) (init_punctual block now)
    (steps_and.2 ⟨hsteady, hok⟩)

/-- A one-shot timer, a repeating timer, and a callback that arms a third one
and raises. -/
def timersRun : List (Act Nat) :=
  [.call_later 3 0, .call_repeatedly 2 1, .run false, .test 0, .time 8, .entered 0 true,
    .next 0 false, .call_later 1 2, .time 9, .returned 0 true, .run false, .test 0, .time 12,
    .entered 0 true, .next 0 false, .returned 0 false, .next 0 false, .returned 0 false,
    .next 0 false]

theorem timers_in_order_interrupted :
    ∃ t, run step (init Nat (fun _ => 0) 5) timersRun = some t ∧ (timerRuns t).length = 4 ∧
      InOrder t := by
  obtain ⟨t, ht, hlength⟩ := run_any (p := fun t : St Nat => (timerRuns t).length == 4)
    (by decide +kernel : (run step (init Nat (fun _ => 0) 5) timersRun).any _ = true)
  have halways : Always step InOrder (init Nat (fun _ => 0) 5) timersRun :=
    timers_in_order (by decide +kernel) (by decide +kernel)
  exact ⟨t, ht, eq_of_beq hlength, halways.last ht⟩

/-- A repeating timer of two seconds is passed to `_add_callback`. -/
def twiceScheduled : List (Act Nat) :=
  [.call_repeatedly 2 0, .add_callback 0, .run false, .test 0, .time 2, .entered 0 true,
    .next 0 false, .returned 0 false, .next 0 false]

/-- It runs twice at its first deadline, the second time two seconds early. -/
theorem timers_out_of_order :
    ∃ t, run step (init Nat (fun _ => 0) 0) twiceScheduled = some t ∧
      Steps step Steady (init Nat (fun _ => 0) 0) twiceScheduled ∧ ¬ InOrder t := by
  obtain ⟨t, ht, hearly⟩ := run_any
    (p := fun t : St Nat => (timerRuns t).any fun d => d.time < d.object.seconds)
    (by decide +kernel : (run step (init Nat (fun _ => 0) 0) twiceScheduled).any _ = true)
  refine ⟨t, ht, by decide +kernel, fun hin => ?_⟩
  obtain ⟨d, hd, hlate⟩ := List.any_eq_true.1 hearly
  have hdue := hin.in_time d hd
  have hbefore : d.time < d.object.seconds := of_decide_eq_true hlate
  omega

end Jega.Loop
