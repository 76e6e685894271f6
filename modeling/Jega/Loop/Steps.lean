import Jega.Loop.Scheduler
import Mathlib.Data.Multiset.AddSub

/-!
# Jega.Loop.Steps — what a step of the loop does

One inversion lemma for each function of the scheduler, and `step_cases` for
the system. `Same` is all a step leaves alone when it only moves passes, and
`inflight` are the entries that have been shifted and are still being fired.
-/

namespace Jega.Loop

variable {κ : Type}

/-! ## Entries in flight -/

/-- The entries the passes have shifted and not finished firing. -/
def inflight (s : St κ) : Multiset Hid := s.passes.filterMap Pass.item

theorem filterMap_item_cons (p : Pass) (l : List Pass) :
    (p :: l).filterMap Pass.item = p.item.toList ++ l.filterMap Pass.item := by
  cases h : p.item with
  | none => simp [h]
  | some item => simp [h]

theorem filterMap_set_perm {l : List Pass} {i : Nat} {p p' : Pass} (h : l[i]? = some p) :
    (p.item.toList ++ (l.set i p').filterMap Pass.item).Perm
      (p'.item.toList ++ l.filterMap Pass.item) := by
  induction l generalizing i with
  | nil => simp at h
  | cons a l ih =>
    cases i with
    | zero =>
      simp only [List.getElem?_cons_zero, Option.some.injEq] at h
      rw [List.set_cons_zero, filterMap_item_cons, filterMap_item_cons, h, ← List.append_assoc,
        ← List.append_assoc]
      exact List.perm_append_comm.append_right _
    | succ i =>
      simp only [List.getElem?_cons_succ] at h
      rw [List.set_cons_succ, filterMap_item_cons, filterMap_item_cons]
      refine (List.perm_append_comm_assoc _ _ _).trans ?_
      exact ((ih h).append_left _).trans (List.perm_append_comm_assoc _ _ _)

theorem filterMap_eraseIdx_perm {l : List Pass} {i : Nat} {p : Pass} (h : l[i]? = some p) :
    (p.item.toList ++ (l.eraseIdx i).filterMap Pass.item).Perm (l.filterMap Pass.item) := by
  induction l generalizing i with
  | nil => simp at h
  | cons a l ih =>
    cases i with
    | zero =>
      simp only [List.getElem?_cons_zero, Option.some.injEq] at h
      rw [List.eraseIdx_cons_zero, filterMap_item_cons, h]
    | succ i =>
      simp only [List.getElem?_cons_succ] at h
      rw [List.eraseIdx_cons_succ, filterMap_item_cons, filterMap_item_cons]
      exact (List.perm_append_comm_assoc _ _ _).trans ((ih h).append_left _)

variable {s s' t : St κ} {i : Nat} {p : Pass}

theorem inflight_congr (h : s'.passes = s.passes) : inflight s' = inflight s := by
  rw [inflight, h]
  rfl

theorem inflight_goto (hp : s.passes[i]? = some p) (caller : Caller) (pc : Pc) :
    (p.item.toList : Multiset Hid) + inflight (s.goto i caller pc) =
      (Pass.item ⟨caller, pc⟩).toList + inflight s :=
  Multiset.coe_eq_coe.2 (filterMap_set_perm hp)

theorem inflight_leave (hp : s.passes[i]? = some p) :
    (p.item.toList : Multiset Hid) + inflight (s.leave i) = inflight s :=
  Multiset.coe_eq_coe.2 (filterMap_eraseIdx_perm hp)

/-- A pass goes into the entry that it took. -/
theorem inflight_fired {caller : Caller} (hp : s.passes[i]? = some ⟨caller, .firing⟩)
    (h : s'.passes = s.passes) (item : Hid) :
    inflight (s'.goto i caller (.fired item)) = item ::ₘ inflight s := by
  have hgoto := inflight_goto (s := s') (h ▸ hp) caller (.fired item)
  rw [inflight_congr h] at hgoto
  exact (Multiset.zero_add _).symm.trans hgoto

/-- The entry that a pass is in is in flight. -/
theorem inflight_item {caller : Caller} {item : Hid}
    (hp : s.passes[i]? = some ⟨caller, .fired item⟩) :
    inflight s = item ::ₘ inflight (s.goto i caller .polling) := by
  have hgoto := inflight_goto hp caller .polling
  exact (hgoto.trans (Multiset.zero_add _)).symm

/-! ## Steps that only move passes -/

/-- Nothing but passes, states and the I/O count has changed. -/
structure Same (s s' : St κ) : Prop where
  objs : s'.objs = s.objs
  next : s'.next = s.next
  scheduled : s'.scheduled = s.scheduled
  pendings : s'.pendings = s.pendings
  activecnt : s'.activecnt = s.activecnt
  clock : s'.clock = s.clock
  log : s'.log = s.log
  wrapped : s'.wrapped = s.wrapped

theorem Same.refl (s : St κ) : Same s s := ⟨rfl, rfl, rfl, rfl, rfl, rfl, rfl, rfl⟩

theorem Same.trans (h : Same s s') (h' : Same s' t) : Same s t :=
  ⟨h'.objs.trans h.objs, h'.next.trans h.next, h'.scheduled.trans h.scheduled,
    h'.pendings.trans h.pendings, h'.activecnt.trans h.activecnt, h'.clock.trans h.clock,
    h'.log.trans h.log, h'.wrapped.trans h.wrapped⟩

theorem same_goto (s : St κ) (i : Nat) (caller : Caller) (pc : Pc) : Same s (s.goto i caller pc) :=
  ⟨rfl, rfl, rfl, rfl, rfl, rfl, rfl, rfl⟩

theorem same_leave (s : St κ) (i : Nat) : Same s (s.leave i) :=
  ⟨rfl, rfl, rfl, rfl, rfl, rfl, rfl, rfl⟩

/-- A pass that is in no entry moves on. -/
structure Quiet (s s' : St κ) : Prop extends Same s s' where
  inflight : inflight s' = inflight s

theorem quiet_goto (hp : s.passes[i]? = some p) (hitem : p.item = none) (caller : Caller) {pc : Pc}
    (hpc : Pass.item ⟨caller, pc⟩ = none) : Quiet s (s.goto i caller pc) where
  toSame := same_goto s i caller pc
  inflight := by
    have h := inflight_goto hp caller pc
    rwa [hitem, hpc, Option.toList_none, Multiset.coe_nil, Multiset.zero_add, Multiset.zero_add] at h

theorem quiet_leave (hp : s.passes[i]? = some p) (hitem : p.item = none) :
    Quiet s (s.leave i) where
  toSame := same_leave s i
  inflight := by
    have h := inflight_leave hp
    rwa [hitem, Option.toList_none, Multiset.coe_nil, Multiset.zero_add] at h

theorem check_stop_signal_same (s : St κ) :
    Same s (check_stop_signal s).1 ∧ (check_stop_signal s).1.passes = s.passes := by
  unfold check_stop_signal
  split
  · exact ⟨Same.refl s, rfl⟩
  · split
    · exact ⟨⟨rfl, rfl, rfl, rfl, rfl, rfl, rfl, rfl⟩, rfl⟩
    · exact ⟨Same.refl s, rfl⟩

theorem run_failed_same (s : St κ) (i : Nat) (caller : Caller) :
    Same s (run_failed s i caller) ∧ (run_failed s i caller).passes = s.passes.eraseIdx i := by
  cases caller with
  | run => exact ⟨⟨rfl, rfl, rfl, rfl, rfl, rfl, rfl, rfl⟩, rfl⟩
  | run_once => exact ⟨same_leave s i, rfl⟩

theorem quiet_run_failed (hp : s.passes[i]? = some p) (hitem : p.item = none) (caller : Caller) :
    Quiet s (run_failed s i caller) where
  toSame := (run_failed_same s i caller).1
  inflight := by
    have h := inflight_leave hp
    rw [hitem, Option.toList_none, Multiset.coe_nil, Multiset.zero_add] at h
    rw [inflight, (run_failed_same s i caller).2]
    exact h

/-- The end of a round counts one entry off, and the pass is in it no more. -/
theorem round_ended_same (hp : s.passes[i]? = some p) (caller : Caller) (exc : Bool) :
    Same s.decr (round_ended s i caller exc) ∧
      (p.item.toList : Multiset Hid) + inflight (round_ended s i caller exc) = inflight s := by
  have hfail : ∀ r : St κ, Same s.decr r → r.passes = s.passes →
      Same s.decr (run_failed r i caller) ∧
        (p.item.toList : Multiset Hid) + inflight (run_failed r i caller) = inflight s := by
    intro r hr hpasses
    refine ⟨hr.trans (run_failed_same r i caller).1, ?_⟩
    rw [inflight, (run_failed_same r i caller).2, hpasses]
    exact inflight_leave hp
  have hcheck := check_stop_signal_same s.decr
  unfold round_ended
  simp only
  split
  · -- Case: the callback raised
    exact hfail s.decr (Same.refl _) rfl
  · split
    · -- Case: stopped
      exact hfail _ hcheck.1 hcheck.2
    · -- Case: the next round
      refine ⟨hcheck.1.trans (same_goto _ _ _ _), ?_⟩
      have h := inflight_goto (s := (check_stop_signal s.decr).1) (hcheck.2 ▸ hp) caller .firing
      rw [h, inflight, hcheck.2]
      exact Multiset.zero_add _

/-! ## Scheduling -/

/-- A handle goes to the queue, a timer to the heap. -/
theorem schedule_timer_cases {o : Hid} (h : schedule_timer s o = some s') :
    ((s.objs o).type = .Handle ∧ ∃ r, queue_push none true s.pendings o = some r ∧
        s' = ({ s with pendings := r.1 }.note (.push o)).incr) ∨
      ((s.objs o).type = .Timer ∧ ∃ r, heappush true s.seconds s.scheduled o = some r ∧
        s' = { s with scheduled := r.1 }.incr) := by
  unfold schedule_timer at h
  split at h
  next htype =>
    rcases Option.map_eq_some_iff.1 h with ⟨r, hr, rfl⟩
    exact Or.inl ⟨htype, r, hr, rfl⟩
  next htype =>
    rcases Option.map_eq_some_iff.1 h with ⟨r, hr, rfl⟩
    exact Or.inr ⟨htype, r, hr, rfl⟩

theorem schedule_timer_passes {o : Hid} (h : schedule_timer s o = some s') :
    s'.passes = s.passes := by
  rcases schedule_timer_cases h with ⟨_, r, _, rfl⟩ | ⟨_, r, _, rfl⟩
  · rfl
  · rfl

/-- Firing this entry ends with arming it again. -/
def Rearms (o : TimerObject κ) : Prop := o.type = .Timer ∧ o.repeats = true

/-- What is left of an entry after its switch or call. -/
theorem fire_returned_cases {item : Hid} (h : fire_returned s item = some s') :
    (¬ Rearms (s.objs item) ∧ s' = s) ∨
      (Rearms (s.objs item) ∧
        schedule_timer ((s.set_obj item { s.objs item with
          called := false, cancelled := false, seconds := s.clock + (s.objs item).interval }).note
            (.rearm item)) item = some s') := by
  unfold fire_returned at h
  simp only at h
  split at h
  next hr => exact Or.inr ⟨hr, h⟩
  next hr =>
    rw [Option.some.injEq] at h
    exact Or.inl ⟨hr, h.symm⟩

theorem fire_returned_passes {item : Hid} (h : fire_returned s item = some s') :
    s'.passes = s.passes := by
  rcases fire_returned_cases h with ⟨_, rfl⟩ | ⟨_, hsched⟩
  · rfl
  · have hkeep := schedule_timer_passes hsched
    exact hkeep

/-- A timer is marked as called when it is fired, a handle is not. -/
def TimerObject.marked (o : TimerObject κ) : TimerObject κ :=
  { o with called := decide (o.type = .Timer) }

/-- An entry is skipped because of its flags, or it is fired: then its greenlet
is dead or the pass is in it. -/
inductive FireItem (s : St κ) (i : Nat) (caller : Caller) (item : Hid) (dead : Bool) :
    St κ → Prop where
  | skipped (hflag : (s.objs item).cancelled = true ∨ (s.objs item).called = true)
    (hnothing : (fire dead (s.objs item)).2 = .nothing) :
    FireItem s i caller item dead
      (round_ended
        ((s.set_obj item (s.objs item)).note
          (.shift ⟨item, s.objs item, dead, .nothing, s.clock⟩)) i caller false)
  | lost {t : St κ} (hcancelled : (s.objs item).cancelled = false) (hcalled : (s.objs item).called = false)
    (hnothing : (s.objs item).invoke (fun _ => dead) = .nothing)
    (hreturned : fire_returned
      ((s.set_obj item (s.objs item).marked).note
        (.shift ⟨item, s.objs item, dead, .nothing, s.clock⟩)) item = some t) :
    FireItem s i caller item dead (round_ended t i caller false)
  | fired (hcancelled : (s.objs item).cancelled = false) (hcalled : (s.objs item).called = false)
    (hfired : (s.objs item).invoke (fun _ => dead) ≠ .nothing) :
    FireItem s i caller item dead
      (((s.set_obj item (s.objs item).marked).note
        (.shift ⟨item, s.objs item, dead, (s.objs item).invoke (fun _ => dead), s.clock⟩)).goto i
          caller (.fired item))

theorem fire_flags {o : TimerObject κ} {dead : Bool} (h : o.cancelled = true ∨ o.called = true) :
    fire dead o = (o, .nothing) := by
  unfold fire fire_handle fire_timer
  cases htype : o.type <;> rcases h with h | h <;> simp [h]

theorem fire_live {o : TimerObject κ} {dead : Bool} (hcancelled : o.cancelled = false)
    (hcalled : o.called = false) :
    fire dead o = (o.marked, o.invoke fun _ => dead) := by
  rcases o with ⟨⟨type, callback, greenlet, called, cancelled⟩, seconds, interval, repeats⟩
  simp only at hcancelled hcalled
  subst hcancelled hcalled
  cases type with
  | Handle => rfl
  | Timer => rfl

theorem fire_item_cases {caller : Caller} {item : Hid} {dead : Bool}
    (h : fire_item s i caller item dead = some s') : FireItem s i caller item dead s' := by
  unfold fire_item at h
  simp only at h
  by_cases hflag : (s.objs item).cancelled = true ∨ (s.objs item).called = true
  · have hor : ((s.objs item).cancelled || (s.objs item).called) = true := by simpa using hflag
    rw [fire_flags hflag, if_pos hor, Option.some.injEq] at h
    rw [← h]
    exact .skipped hflag (by rw [fire_flags hflag])
  · have hcancelled : (s.objs item).cancelled = false := by simpa using fun h => hflag (Or.inl h)
    have hcalled : (s.objs item).called = false := by simpa using fun h => hflag (Or.inr h)
    rw [fire_live hcancelled hcalled] at h
    by_cases hnothing : (s.objs item).invoke (fun _ => dead) = .nothing
    · simp only [hnothing, hcancelled, hcalled, Bool.or_self, Bool.false_eq_true, if_false] at h
      rcases Option.map_eq_some_iff.1 h with ⟨t, ht, rfl⟩
      exact .lost hcancelled hcalled hnothing ht
    · have hfired : FireItem s i caller item dead _ := .fired hcancelled hcalled hnothing
      simp only at h
      rw [Option.some.injEq] at h
      exact h ▸ hfired

/-! ## The system -/

/-- What every round of `fire_timers` keeps, `fire_timers` keeps. -/
theorem fire_timers_loop_invariant {P : St κ → Prop} {now : Int}
    (hdrop : ∀ s : St κ, 0 < s.scheduled.size → (s.objs (s.scheduled.heap 0)).cancelled = true →
      P s → P (({ s with scheduled := (heappop s.seconds s.scheduled).2 }.decr).note
        (.drop (s.scheduled.heap 0))))
    (hexpire : ∀ (s : St κ) r, 0 < s.scheduled.size →
      (s.objs (s.scheduled.heap 0)).cancelled = false →
      (s.objs (s.scheduled.heap 0)).seconds ≤ now →
      queue_push none true s.pendings (s.scheduled.heap 0) = some r →
      P s → P ({ s with scheduled := (heappop s.seconds s.scheduled).2, pendings := r.1 }.note
        (.expire (s.scheduled.heap 0)))) :
    ∀ {fuel : Nat} {s s' : St κ}, fire_timers_loop none now fuel s = some s' → P s → P s' := by
  intro fuel
  induction fuel with
  | zero =>
    intro s s' h hP
    rw [fire_timers_loop, Option.some.injEq] at h
    exact h ▸ hP
  | succ fuel ih =>
    intro s s' h hP
    rw [fire_timers_loop] at h
    simp only at h
    split at h
    next hgo =>
      split at h
      next hcancelled => exact ih h (hdrop s hgo.1 hcancelled hP)
      next hlive =>
        have hlive : (s.objs (s.scheduled.heap 0)).cancelled = false := by simpa using hlive
        split at h
        next hdue =>
          rcases Option.bind_eq_some_iff.1 h with ⟨r, hr, hrest⟩
          exact ih hrest (hexpire s r hgo.1 hlive hdue hr hP)
        next =>
          rw [Option.some.injEq] at h
          exact h ▸ hP
    next =>
      rw [Option.some.injEq] at h
      exact h ▸ hP

theorem fire_timers_passes (h : fire_timers none s = some s') : s'.passes = s.passes :=
  fire_timers_loop_invariant (P := fun r => r.passes = s.passes)
    (fun _ _ _ hr => hr) (fun _ _ _ _ _ _ hr => hr) h rfl

/-- The labels that make a new handle or timer and schedule it as it is. -/
def Act.Calls : Act κ → Prop
  | .call_soon _ | .sleep _ _ => True
  | .call_later seconds _ => 0 ≤ seconds
  | _ => False

/-- The labels that touch no entry. -/
def Act.Idle (s : St κ) : Act κ → Prop
  | .call_later seconds _ | .call_repeatedly seconds _ => seconds < 0
  | .stop | .running | .signal _ | .io _ | .run _ | .run_once _ | .started _ _ | .test _
  | .polled _ _ _ => True
  | .entered _ ok => ok = false
  | .next _ _ => s.state = .L_STOP ∨ (queue_shift s.pendings).1 = none
  | _ => False

/-- What a step does, one case for each thing that can happen. -/
inductive Step (s : St κ) : Act κ → St κ → Prop where
  | quiet {a : Act κ} {s' : St κ} (hidle : a.Idle s) (hquiet : Quiet s s') : Step s a s'
  | call {a : Act κ} {seconds cb greenlet} {s' : St κ} (hcalls : a.Calls)
    (hcall : internal_loop_schedule_call s seconds cb greenlet = some s') : Step s a s'
  | call_repeatedly {seconds cb} {t : St κ} (hsec : 0 ≤ seconds)
    (hcall : internal_loop_schedule_call s seconds (some cb) none = some t) :
    Step s (.call_repeatedly seconds cb) (t.set_obj s.next { t.objs s.next with repeats := true })
  | set_timeout {seconds throw} {t : St κ}
    (hcall : internal_loop_schedule_call s seconds (some throw) none = some t) :
    Step s (.set_timeout seconds throw) (if seconds = 0 then cancel t s.next else t)
  | make_handle {cb} : Step s (.make_handle cb) (make_handle s 0 (some cb) none).1
  | add_callback {o} {s' : St κ} (hlt : o < s.next) (hsched : schedule_timer s o = some s') :
    Step s (.add_callback o) s'
  | cancel {timer} (hlt : timer < s.next) : Step s (.cancel timer) (cancel s timer)
  | time {now} : Step s (.time now) { s with clock := now }
  | entered {i : Nat} {t s' : St κ} (htimers : fire_timers none s = some t) (hquiet : Quiet t s') :
    Step s (.entered i true) s'
  | next {i : Nat} {caller item q dead} {s' : St κ} (hp : s.passes[i]? = some ⟨caller, .firing⟩)
    (hgo : s.state ≠ .L_STOP) (hshift : queue_shift s.pendings = (some item, q))
    (hfire : FireItem { s with pendings := q } i caller item dead s') :
    Step s (.next i dead) s'
  | returned {i : Nat} {caller item exc} {t : St κ} (hp : s.passes[i]? = some ⟨caller, .fired item⟩)
    (hreturned : fire_returned s item = some t) :
    Step s (.returned i exc) (round_ended t i caller exc)

theorem start_quiet (s : St κ) (caller : Caller) (suspended : Bool) :
    Quiet s (start s caller suspended) := by
  have hitem : Pass.item ⟨caller, if suspended then .starting else
      if caller = .run then .testing else .entering⟩ = none := by
    cases suspended <;> cases caller <;> rfl
  cases caller with
  | run => exact ⟨⟨rfl, rfl, rfl, rfl, rfl, rfl, rfl, rfl⟩, by simp_all [inflight, start]⟩
  | run_once => exact ⟨⟨rfl, rfl, rfl, rfl, rfl, rfl, rfl, rfl⟩, by simp_all [inflight, start]⟩

theorem run_test_quiet (hp : s.passes[i]? = some ⟨.run, .testing⟩) : Quiet s (run_test s i) := by
  unfold run_test
  split
  · exact quiet_goto hp rfl _ rfl
  · exact quiet_run_failed hp rfl .run

theorem run_once_ended_quiet {caller : Caller} (hp : s.passes[i]? = some ⟨caller, .polling⟩)
    (exc : Bool) : Quiet s (run_once_ended s i caller exc) := by
  have hcheck := check_stop_signal_same s
  have hp' : (check_stop_signal s).1.passes[i]? = some ⟨caller, .polling⟩ := by rwa [hcheck.2]
  have hinflight : inflight (check_stop_signal s).1 = inflight s := inflight_congr hcheck.2
  cases caller with
  | run_once => exact quiet_leave hp rfl
  | run =>
    simp only [run_once_ended]
    split
    · have hfail := quiet_run_failed hp' rfl .run
      exact ⟨hcheck.1.trans hfail.toSame, hfail.inflight.trans hinflight⟩
    · have hgo : Quiet _ ((check_stop_signal s).1.goto i .run .testing) :=
        quiet_goto hp' rfl .run rfl
      exact ⟨hcheck.1.trans hgo.toSame, hgo.inflight.trans hinflight⟩

theorem step_cases {a : Act κ} (h : step s a = some s') : Step s a s' := by
  have hquiet : Quiet s s := ⟨Same.refl s, rfl⟩
  cases a with
  | call_soon cb => exact .call trivial h
  | call_later seconds cb =>
    simp only [step, call_later] at h
    split at h
    next hneg =>
      cases h
      exact .quiet hneg hquiet
    next hpos => exact .call (not_lt.1 hpos) h
  | call_repeatedly seconds cb =>
    simp only [step, call_repeatedly] at h
    split at h
    next hneg =>
      cases h
      exact .quiet hneg hquiet
    next hpos =>
      rcases Option.map_eq_some_iff.1 h with ⟨t, ht, rfl⟩
      exact .call_repeatedly (not_lt.1 hpos) ht
  | set_timeout seconds throw =>
    rcases Option.map_eq_some_iff.1 h with ⟨t, ht, rfl⟩
    exact .set_timeout ht
  | sleep seconds g => exact .call trivial h
  | make_handle cb =>
    cases h
    exact .make_handle
  | add_callback o =>
    rcases Option.ite_none_right_eq_some.1 h with ⟨hlt, hsched⟩
    exact .add_callback hlt hsched
  | cancel timer =>
    rcases Option.ite_none_right_eq_some.1 h with ⟨hlt, heq⟩
    cases heq
    exact .cancel hlt
  | time now =>
    cases h
    exact .time
  | stop | running | signal _ | io _ =>
    cases h
    exact .quiet trivial ⟨⟨rfl, rfl, rfl, rfl, rfl, rfl, rfl, rfl⟩, rfl⟩
  | run suspended | run_once suspended =>
    cases h
    exact .quiet trivial (start_quiet s _ suspended)
  | started i exc =>
    simp only [step] at h
    split at h
    next hp =>
      cases h
      split
      · exact .quiet trivial (quiet_leave hp rfl)
      · exact .quiet trivial (quiet_goto hp rfl _ rfl)
    next hp =>
      cases h
      exact .quiet trivial (quiet_goto hp rfl _ rfl)
    · cases h
  | test i =>
    simp only [step] at h
    split at h
    next hp =>
      cases h
      exact .quiet trivial (run_test_quiet hp)
    · cases h
  | entered i ok =>
    simp only [step] at h
    split at h
    next caller hp =>
      split at h
      next hok =>
        subst hok
        rcases Option.map_eq_some_iff.1 h with ⟨t, ht, heq⟩
        have hp' : t.passes[i]? = some ⟨caller, .entering⟩ := by
          rw [fire_timers_passes ht]
          exact hp
        refine .entered ht ?_
        rw [← heq]
        split
        · exact quiet_goto hp' rfl _ rfl
        · exact quiet_goto hp' rfl _ rfl
      next hfail =>
        cases h
        exact .quiet (by simpa [Act.Idle] using hfail) (quiet_run_failed hp rfl caller)
    · cases h
  | next i dead =>
    simp only [step] at h
    split at h
    next caller hp =>
      unfold fire_pendings_next at h
      split at h
      next hstop =>
        cases h
        exact .quiet (Or.inl hstop) (quiet_goto hp rfl _ rfl)
      next hgo =>
        split at h
        next q hshift =>
          cases h
          exact .quiet (Or.inr (by rw [hshift])) (quiet_goto hp rfl _ rfl)
        next item q hshift => exact .next hp hgo hshift (fire_item_cases h)
    · cases h
  | returned i exc =>
    simp only [step] at h
    split at h
    next caller item hp =>
      rcases Option.map_eq_some_iff.1 h with ⟨t, ht, rfl⟩
      exact .returned hp ht
    · cases h
  | polled i ok exc =>
    simp only [step] at h
    split at h
    next caller hp =>
      cases h
      split
      · exact .quiet trivial (run_once_ended_quiet hp exc)
      · exact .quiet trivial (quiet_run_failed hp rfl caller)
    · cases h

/-! ## Sizes -/

/-- The ring and the array are well formed; this needs no condition. -/
structure Sized (s : St κ) : Prop where
  pendings : s.pendings.WF
  pendings_dvd : s.pendings.max ∣ 2 ^ 31
  scheduled : s.scheduled.Sized

theorem init_sized (block : Nat → Hid) (now : Int) : Sized (init κ block now) where
  pendings := init_queue_wf block (by omega) (by omega)
  pendings_dvd := by
    simp only [init, init_queue]
    omega
  scheduled := init_heapqueue_sized block

theorem Sized.congr (hs : Sized s) (hp : s'.pendings = s.pendings)
    (hq : s'.scheduled = s.scheduled) : Sized s' :=
  ⟨hp ▸ hs.pendings, hp ▸ hs.pendings_dvd, hq ▸ hs.scheduled⟩

theorem Sized.push (hs : Sized s) {stack : Stack} {o : Hid} {r : queue_t Hid × Int}
    (h : queue_push stack true s.pendings o = some r) :
    (r.1.WF ∧ r.1.max ∣ 2 ^ 31) ∧ r.1.size = s.pendings.size + 1 := by
  obtain ⟨hwf, hentries, hdvd⟩ := queue_push_cases hs.pendings hs.pendings_dvd h
  refine ⟨⟨hwf, hdvd⟩, ?_⟩
  rw [← length_entries, hentries, List.length_append, length_entries]
  rfl

theorem Sized.shift (hs : Sized s) {item : Hid} {q : queue_t Hid}
    (h : queue_shift s.pendings = (some item, q)) :
    (q.WF ∧ q.max ∣ 2 ^ 31) ∧ s.pendings.size = q.size + 1 := by
  obtain ⟨hcons, hwf, hmax⟩ := queue_shift_some hs.pendings h
  refine ⟨⟨hwf, hmax ▸ hs.pendings_dvd⟩, ?_⟩
  rw [← length_entries, hcons, List.length_cons, length_entries]

theorem Sized.drop (hs : Sized s) :
    Sized (({ s with scheduled := (heappop s.seconds s.scheduled).2 }.decr).note
      (.drop (s.scheduled.heap 0))) :=
  ⟨hs.pendings, hs.pendings_dvd, hs.scheduled.heappop _⟩

theorem Sized.expire (hs : Sized s) {r : queue_t Hid × Int}
    (h : queue_push none true s.pendings (s.scheduled.heap 0) = some r) :
    Sized ({ s with scheduled := (heappop s.seconds s.scheduled).2, pendings := r.1 }.note
      (.expire (s.scheduled.heap 0))) :=
  ⟨(hs.push h).1.1, (hs.push h).1.2, hs.scheduled.heappop _⟩

theorem schedule_timer_sized {o : Hid} (h : schedule_timer s o = some s') (hs : Sized s) :
    Sized s' := by
  rcases schedule_timer_cases h with ⟨_, r, hr, rfl⟩ | ⟨_, r, hr, rfl⟩
  · exact ⟨(hs.push hr).1.1, (hs.push hr).1.2, hs.scheduled⟩
  · exact ⟨hs.pendings, hs.pendings_dvd, (heappush_sized hs.scheduled hr).1⟩

theorem fire_returned_sized {item : Hid} (h : fire_returned s item = some s') (hs : Sized s) :
    Sized s' := by
  rcases fire_returned_cases h with ⟨_, rfl⟩ | ⟨_, hsched⟩
  · exact hs
  · exact schedule_timer_sized hsched (hs.congr rfl rfl)

theorem round_ended_sized (hs : Sized s) (hp : s.passes[i]? = some p) (caller : Caller)
    (exc : Bool) : Sized (round_ended s i caller exc) :=
  hs.congr (round_ended_same hp caller exc).1.pendings (round_ended_same hp caller exc).1.scheduled

theorem step_sized {a : Act κ} (h : step s a = some s') (hs : Sized s) : Sized s' := by
  have hcall : ∀ {seconds cb greenlet} {r : St κ},
      internal_loop_schedule_call s seconds cb greenlet = some r → Sized r :=
    fun hr => schedule_timer_sized hr (hs.congr rfl rfl)
  cases step_cases h with
  | quiet _ hquiet => exact hs.congr hquiet.pendings hquiet.scheduled
  | call _ hr => exact hcall hr
  | call_repeatedly _ hr => exact (hcall hr).congr rfl rfl
  | set_timeout hr =>
    split
    · exact (hcall hr).congr rfl rfl
    · exact hcall hr
  | make_handle | cancel _ | time => exact hs.congr rfl rfl
  | add_callback _ hsched => exact schedule_timer_sized hsched hs
  | entered htimers hquiet =>
    have hr := fire_timers_loop_invariant (P := Sized) (fun r _ _ hr => hr.drop)
      (fun r q _ _ _ hq hr => hr.expire hq) htimers hs
    exact hr.congr hquiet.pendings hquiet.scheduled
  | @next i caller item q dead _ hp _ hshift hfire =>
    have hout : Sized { s with pendings := q } :=
      ⟨(hs.shift hshift).1.1, (hs.shift hshift).1.2, hs.scheduled⟩
    cases hfire with
    | skipped _ _ =>
      apply round_ended_sized
      · exact hout.congr rfl rfl
      · exact hp
    | lost _ _ _ hreturned =>
      have hpasses := fire_returned_passes hreturned
      refine round_ended_sized (fire_returned_sized hreturned ?_) (hpasses ▸ hp) caller false
      exact hout.congr rfl rfl
    | fired _ _ _ => exact hout.congr rfl rfl
  | @returned i caller item exc r hp hreturned =>
    have hpasses := fire_returned_passes hreturned
    exact round_ended_sized (fire_returned_sized hreturned hs) (hpasses ▸ hp) caller exc

end Jega.Loop
