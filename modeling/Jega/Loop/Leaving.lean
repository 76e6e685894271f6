import Jega.Loop.Accounting

/-!
# Jega.Loop.Leaving — when `LoopObject_run` leaves its loop

`activecnt` is the number of entries in the queue, in the heap and in flight
modulo 2^32, whatever is scheduled (`step_counted`). A call of `LoopObject_run`
leaves its loop at its `while`, at the end of a round that finds the loop
stopped, and when something fails (`left_iff`).
-/

namespace Jega.Loop

variable {κ : Type} {s s' t : St κ} {i : Nat}

/-! ## The count, modulo 2^32 -/

/-- The count is `n`, wrapped. -/
def Wraps (s : St κ) (n : Nat) : Prop := s.activecnt = UInt32.ofNat n

/-- `activecnt` counts the entries, wrapped. -/
def Counted (s : St κ) : Prop := Wraps s (load s)

theorem init_counted (block : Nat → Hid) (now : Int) : Counted (init κ block now) := rfl

theorem Wraps.incr {n : Nat} (h : Wraps s n) : Wraps s.incr (n + 1) := by
  show s.activecnt + 1 = UInt32.ofNat (n + 1)
  rw [h, UInt32.ofNat_add]
  rfl

theorem Wraps.decr {n : Nat} (h : Wraps s (n + 1)) : Wraps s.decr n := by
  show s.activecnt - 1 = UInt32.ofNat n
  rw [h, UInt32.ofNat_add]
  exact UInt32.add_sub_cancel _ _

theorem Wraps.congr {n : Nat} (h : Wraps s n) (hcount : s'.activecnt = s.activecnt) : Wraps s' n :=
  hcount.trans h

theorem SameWork.counted (h : SameWork s s') (hc : Counted s) : Counted s' := by
  have hw : Wraps s' (Loop.load s) := Wraps.congr hc h.activecnt
  rwa [← h.load] at hw

theorem schedule_wraps (hs : Sized s) {o : Hid} {n : Nat} (h : schedule_timer s o = some s')
    (hw : Wraps s n) : Wraps s' (n + 1) := by
  obtain ⟨_, hcount, _⟩ := schedule_timer_tallied hs h
  exact hw.incr.congr hcount

theorem schedule_counted (hs : Sized s) (hc : Counted s) {o : Hid}
    (h : schedule_timer s o = some s') : Counted s' := by
  have hw := schedule_wraps hs h hc
  rwa [← (schedule_timer_tallied hs h).1] at hw

theorem call_counted (hs : Sized s) (hc : Counted s) {seconds : Int} {cb : Option κ}
    {greenlet : Option Gid} (h : internal_loop_schedule_call s seconds cb greenlet = some s') :
    Counted s' := by
  have hs' : Sized (make_handle s seconds cb greenlet).1 := hs.congr rfl rfl
  exact schedule_counted hs' ((make_handle_same s seconds cb greenlet).counted hc) h

theorem fire_timers_counted (hs : Sized s) (hc : Counted s) (h : fire_timers none s = some s') :
    Counted s' := by
  refine (fire_timers_loop_invariant (P := fun r => Sized r ∧ Counted r) ?_ ?_ h ⟨hs, hc⟩).2
  · -- Case: a cancelled timer is dropped
    intro r hpos _ ⟨hr, hcr⟩
    have hw : Wraps r (load r) := hcr
    rw [load_drop hpos] at hw
    exact ⟨hr.drop, hw.decr⟩
  · -- Case: a timer that is due moves to the queue
    intro r q hpos _ _ hq ⟨hr, hcr⟩
    have hw : Wraps r (load r) := hcr
    rw [← load_expire hr hpos hq] at hw
    exact ⟨hr.expire hq, hw.congr rfl⟩

theorem returned_wraps {item : Hid} {n : Nat} (hs : Sized s) (hw : Wraps s n)
    (h : fire_returned s item = some s') : ∃ k, load s' = load s + k ∧ Wraps s' (n + k) := by
  rcases returned_cases hs h with ⟨_, rfl⟩ | ⟨r, o, _, hr, hsame, hsched⟩
  · exact ⟨0, rfl, hw⟩
  · refine ⟨1, ?_, schedule_wraps hr hsched (hw.congr hsame.activecnt)⟩
    rw [(schedule_timer_tallied hr hsched).1, hsame.load]

/-- A round that ends after the switch or call of its entry. -/
theorem returned_counted {p : Pass} {caller : Caller} {item : Hid} {exc : Bool} {n : Nat}
    (hs : Sized s) (hp : s.passes[i]? = some p) (hw : Wraps s (n + 1))
    (hload : load s = n + p.item.toList.length) (h : fire_returned s item = some t) :
    Counted (round_ended t i caller exc) := by
  obtain ⟨k, hk, hwt⟩ := returned_wraps hs hw h
  have hpt : t.passes[i]? = some p := fire_returned_passes h ▸ hp
  have hended := (round_ended_tallied hpt caller exc).1
  have hn : load (round_ended t i caller exc) = n + k := by omega
  have hwt : Wraps t (n + k + 1) := by
    rwa [Nat.add_right_comm] at hwt
  have hw' := hwt.decr.congr (round_ended_same hpt caller exc).1.activecnt
  rwa [← hn] at hw'

theorem fire_item_counted {caller : Caller} {item : Hid} {q : queue_t Hid} {dead : Bool}
    (hs : Sized s) (hc : Counted s) (hp : s.passes[i]? = some ⟨caller, .firing⟩)
    (hshift : queue_shift s.pendings = (some item, q))
    (h : FireItem { s with pendings := q } i caller item dead s') : Counted s' := by
  -- the entry is out of the queue and not counted off
  have hout : ∀ r : St κ, r.pendings = q → r.scheduled = s.scheduled → r.activecnt = s.activecnt →
      r.passes = s.passes → Sized r ∧ Wraps r (load r + 1) := by
    intro r hpq hsc hact hpass
    obtain ⟨hr, hload⟩ := load_shift hs hshift hpq hsc hpass
    have hw : Wraps r (load s) := Wraps.congr hc hact
    exact ⟨hr, hload ▸ hw⟩
  cases h with
  | skipped _ _ =>
    -- Case: a flag stops it
    generalize hr : ({ s with pendings := q }.set_obj item (s.objs item)).note
      (.shift ⟨item, s.objs item, dead, .nothing, s.clock⟩) = r
    obtain ⟨_, hw⟩ := hout r (by rw [← hr]; rfl) (by rw [← hr]; rfl) (by rw [← hr]; rfl)
      (by rw [← hr]; rfl)
    have hpr : r.passes[i]? = some ⟨caller, .firing⟩ := by
      rw [← hr]
      exact hp
    have hended : load (round_ended r i caller false) = load r :=
      (round_ended_tallied hpr caller false).1
    have hw' := hw.decr.congr (round_ended_same hpr caller false).1.activecnt
    rw [← hended] at hw'
    exact hr ▸ hw'
  | lost _ _ _ hreturned =>
    -- Case: its greenlet is dead
    obtain ⟨hr, hw⟩ := hout (({ s with pendings := q }.set_obj item (s.objs item).marked).note
      (.shift ⟨item, s.objs item, dead, .nothing, s.clock⟩)) rfl rfl rfl rfl
    exact returned_counted hr hp hw rfl hreturned
  | fired _ _ _ =>
    -- Case: the pass is in it
    generalize hr : ({ s with pendings := q }.set_obj item (s.objs item).marked).note
      (.shift ⟨item, s.objs item, dead, (s.objs item).invoke (fun _ => dead), s.clock⟩) = r
    obtain ⟨_, hw⟩ := hout r (by rw [← hr]; rfl) (by rw [← hr]; rfl) (by rw [← hr]; rfl)
      (by rw [← hr]; rfl)
    have hpr : r.passes[i]? = some ⟨caller, .firing⟩ := by
      rw [← hr]
      exact hp
    have hw' : Wraps (r.goto i caller (.fired item)) (load r + 1) := hw.congr rfl
    rw [← load_fired hpr item] at hw'
    exact hr ▸ hw'

/-- Every step counts. -/
theorem step_counted {a : Act κ} (h : step s a = some s') (hs : Sized s) (hc : Counted s) :
    Counted s' := by
  cases step_cases h with
  | quiet _ hquiet => exact hquiet.sameWork.counted hc
  | call _ hcall => exact call_counted hs hc hcall
  | @call_repeatedly seconds cb r _ hcall =>
    exact (repeats_same r s.next).counted (call_counted hs hc hcall)
  | @set_timeout seconds throw r hcall =>
    exact (set_timeout_same r seconds s.next).counted (call_counted hs hc hcall)
  | make_handle | cancel _ | time =>
    refine SameWork.counted (s := s) ?_ hc
    exact ⟨rfl, rfl, rfl, rfl, rfl⟩
  | add_callback _ hsched => exact schedule_counted hs hc hsched
  | entered htimers hquiet => exact hquiet.sameWork.counted (fire_timers_counted hs hc htimers)
  | @next i caller item q dead _ hp _ hshift hfire => exact fire_item_counted hs hc hp hshift hfire
  | @returned i caller item exc r hp hreturned =>
    have hload := load_flying hp
    have hw : Wraps s (load s) := hc
    rw [hload] at hw
    exact returned_counted hs hp hw hload hreturned

/-- A count of 0 is a load of a multiple of 2^32. -/
theorem Counted.zero_iff (hc : Counted s) : s.activecnt = 0 ↔ 2 ^ 32 ∣ load s := by
  rw [hc, ← UInt32.toNat_inj, UInt32.toNat_ofNat', Nat.dvd_iff_mod_eq_zero]
  rfl

theorem sub_add_one (a b : UInt32) : a - 1 - b = a - (1 + b) := by
  rw [UInt32.sub_eq_add_neg, UInt32.sub_eq_add_neg, UInt32.sub_eq_add_neg, UInt32.neg_add,
    UInt32.sub_eq_add_neg, UInt32.add_assoc]

/-- A heap of cancelled timers is emptied, and they are not counted any more. -/
theorem fire_timers_drained (hcancelled : ∀ o ∈ s.scheduled.contents, (s.objs o).cancelled = true)
    (hstate : s.state = .L_RUNNING) :
    ∃ s', fire_timers none s = some s' ∧ s'.scheduled.size = 0 ∧ s'.pendings = s.pendings ∧
      s'.activecnt = s.activecnt - UInt32.ofNat s.scheduled.size := by
  have hloop : ∀ (n : Nat) (r : St κ) (now : Int), r.scheduled.size = n → r.state = .L_RUNNING →
      (∀ o ∈ r.scheduled.contents, (r.objs o).cancelled = true) →
      ∃ s', fire_timers_loop none now n r = some s' ∧ s'.scheduled.size = 0 ∧
        s'.pendings = r.pendings ∧ s'.activecnt = r.activecnt - UInt32.ofNat n := by
    intro n
    induction n with
    | zero =>
      intro r now hsize _ _
      refine ⟨r, rfl, hsize, rfl, ?_⟩
      exact (UInt32.sub_zero r.activecnt).symm
    | succ n ih =>
      intro r now hsize hrun hall
      have hpos : 0 < r.scheduled.size := by omega
      have hcontents := heappop_contents r.seconds hpos
      have hfirst : (r.objs (r.scheduled.heap 0)).cancelled = true :=
        hall _ (hcontents ▸ Multiset.mem_cons_self _ _)
      generalize hd : ({ r with scheduled := (heappop r.seconds r.scheduled).2 }.decr).note
        (.drop (r.scheduled.heap 0)) = d
      have hsized : d.scheduled.size = n := by
        rw [← hd]
        show (heappop r.seconds r.scheduled).2.size = n
        rw [heappop_size]
        omega
      have halld : ∀ o ∈ d.scheduled.contents, (d.objs o).cancelled = true := by
        rw [← hd]
        intro o ho
        exact hall o (hcontents ▸ Multiset.mem_cons_of_mem ho)
      obtain ⟨s', hs', hzero, hpend, hcount⟩ := ih d now hsized (by rw [← hd]; exact hrun) halld
      refine ⟨s', ?_, hzero, ?_, ?_⟩
      · rw [fire_timers_loop]
        simp only
        rw [if_pos ⟨hpos, hrun⟩, if_pos hfirst, hd]
        exact hs'
      · rw [hpend, ← hd]
        rfl
      · have hone : d.activecnt = r.activecnt - 1 := by
          rw [← hd]
          rfl
        have hsucc : UInt32.ofNat (n + 1) = 1 + UInt32.ofNat n := by
          rw [Nat.add_comm, UInt32.ofNat_add]
          rfl
        rw [hcount, hone, hsucc, sub_add_one]
  exact hloop s.scheduled.size s s.clock rfl hstate hcancelled

/-! ## Leaving the loop -/

/-- A call of `LoopObject_run` that is in its loop. -/
def Pass.inLoop (p : Pass) : Bool := p.caller = .run ∧ p.pc ≠ .starting

/-- The calls of `LoopObject_run` that are in their loops. -/
def looping (s : St κ) : Nat := s.passes.countP Pass.inLoop

/-- No stop, no signal and no exception. -/
def Act.Calm : Act κ → Prop
  | .stop | .signal _ => False
  | .started _ exc | .returned _ exc | .polled _ _ exc => exc = false
  | _ => True

/-- A call of `LoopObject_run` leaves its loop, given when it sees no work. -/
def Quits (idle : Prop) (s : St κ) : Act κ → Prop
  | .test i => s.passes[i]? = some ⟨.run, .testing⟩ ∧ (s.state = .L_STOP ∨ idle)
  | .entered i ok => s.passes[i]? = some ⟨.run, .entering⟩ ∧ ok = false
  | .returned i _ => (∃ item, s.passes[i]? = some ⟨.run, .fired item⟩) ∧ s.state = .L_STOP
  | .polled i ok _ => s.passes[i]? = some ⟨.run, .polling⟩ ∧ ok = false
  | _ => False

/-- The counts of `LoopObject_run` show no work. -/
def Idle (s : St κ) : Prop := s.activecnt = 0 ∧ s.ioactivecnt ≤ 1

theorem quits_congr {p q : Prop} (h : p ↔ q) {a : Act κ} : Quits p s a ↔ Quits q s a := by
  cases a with
  | test i =>
    unfold Quits
    rw [h]
  | _ => exact Iff.rfl

theorem countP_set {l : List Pass} {p p' : Pass} (h : l[i]? = some p)
    (hp : p'.inLoop = p.inLoop) : (l.set i p').countP Pass.inLoop = l.countP Pass.inLoop := by
  induction l generalizing i with
  | nil => simp at h
  | cons a l ih =>
    cases i with
    | zero =>
      rw [List.getElem?_cons_zero, Option.some.injEq] at h
      rw [List.set_cons_zero, List.countP_cons, List.countP_cons, hp, h]
    | succ i =>
      rw [List.getElem?_cons_succ] at h
      rw [List.set_cons_succ, List.countP_cons, List.countP_cons, ih h]

/-- A pass that was not in its loop goes on. -/
theorem countP_set_le {l : List Pass} {p p' : Pass} (h : l[i]? = some p)
    (hp : p.inLoop = false) : l.countP Pass.inLoop ≤ (l.set i p').countP Pass.inLoop := by
  induction l generalizing i with
  | nil => simp at h
  | cons a l ih =>
    cases i with
    | zero =>
      rw [List.getElem?_cons_zero, Option.some.injEq] at h
      rw [List.set_cons_zero, List.countP_cons, List.countP_cons, h, hp]
      exact Nat.le_add_right _ _
    | succ i =>
      rw [List.getElem?_cons_succ] at h
      rw [List.set_cons_succ, List.countP_cons, List.countP_cons]
      exact Nat.add_le_add_right (ih h) _

theorem countP_eraseIdx {l : List Pass} {p : Pass} (h : l[i]? = some p) :
    (l.eraseIdx i).countP Pass.inLoop + p.inLoop.toNat = l.countP Pass.inLoop := by
  induction l generalizing i with
  | nil => simp at h
  | cons a l ih =>
    cases i with
    | zero =>
      rw [List.getElem?_cons_zero, Option.some.injEq] at h
      rw [List.eraseIdx_cons_zero, List.countP_cons, h]
      cases p.inLoop <;> rfl
    | succ i =>
      rw [List.getElem?_cons_succ] at h
      rw [List.eraseIdx_cons_succ, List.countP_cons, List.countP_cons, ← ih h]
      omega

theorem looping_goto {p : Pass} (hp : s.passes[i]? = some p) {caller : Caller} {pc : Pc}
    (hpc : Pass.inLoop ⟨caller, pc⟩ = p.inLoop) : looping (s.goto i caller pc) = looping s :=
  countP_set hp hpc

theorem looping_leave {p : Pass} (hp : s.passes[i]? = some p) :
    looping (s.leave i) < looping s ↔ p.inLoop = true := by
  have h : looping (s.leave i) + p.inLoop.toNat = looping s := countP_eraseIdx hp
  cases hin : p.inLoop with
  | true =>
    rw [hin, Bool.toNat_true] at h
    exact iff_of_true (by omega) rfl
  | false =>
    rw [hin, Bool.toNat_false] at h
    exact iff_of_false (by omega) nofun

/-! ## What the other functions leave alone -/

/-- The passes, the state and the signal stay. -/
structure Apart (s s' : St κ) : Prop where
  passes : s'.passes = s.passes
  state : s'.state = s.state
  catch_signal : s'.catch_signal = s.catch_signal

theorem Apart.refl (s : St κ) : Apart s s := ⟨rfl, rfl, rfl⟩

theorem Apart.trans (h : Apart s s') (h' : Apart s' t) : Apart s t :=
  ⟨h'.passes.trans h.passes, h'.state.trans h.state, h'.catch_signal.trans h.catch_signal⟩

theorem Apart.looping (h : Apart s s') : looping s' = looping s := by
  unfold Loop.looping
  rw [h.passes]

theorem schedule_timer_apart {o : Hid} (h : schedule_timer s o = some s') : Apart s s' := by
  rcases schedule_timer_cases h with ⟨_, r, _, rfl⟩ | ⟨_, r, _, rfl⟩
  · exact ⟨rfl, rfl, rfl⟩
  · exact ⟨rfl, rfl, rfl⟩

theorem call_apart {seconds : Int} {cb : Option κ} {greenlet : Option Gid}
    (h : internal_loop_schedule_call s seconds cb greenlet = some s') : Apart s s' := by
  have hmake : Apart s (make_handle s seconds cb greenlet).1 := ⟨rfl, rfl, rfl⟩
  exact hmake.trans (schedule_timer_apart h)

theorem fire_returned_apart {item : Hid} (h : fire_returned s item = some s') : Apart s s' := by
  rcases fire_returned_cases h with ⟨_, rfl⟩ | ⟨_, hsched⟩
  · exact Apart.refl _
  · have harm : Apart s ((s.set_obj item { s.objs item with
        called := false, cancelled := false, seconds := s.clock + (s.objs item).interval }).note
          (.rearm item)) := ⟨rfl, rfl, rfl⟩
    exact harm.trans (schedule_timer_apart hsched)

theorem fire_timers_apart (h : fire_timers none s = some s') : Apart s s' := by
  refine fire_timers_loop_invariant (P := Apart s) ?_ ?_ h (Apart.refl s)
  · intro r _ _ hr
    exact hr.trans ⟨rfl, rfl, rfl⟩
  · intro r q _ _ _ _ hr
    exact hr.trans ⟨rfl, rfl, rfl⟩

/-! ## Rounds -/

/-- The end of a round, without a signal or an exception. -/
theorem round_ended_calm (hsig : s.catch_signal = 0) (caller : Caller) :
    round_ended s i caller false =
      if s.state = .L_STOP then run_failed s.decr i caller else s.decr.goto i caller .firing := by
  unfold round_ended check_stop_signal
  by_cases hstop : s.state = .L_STOP
  · simp [hstop]
  · simp [hstop, hsig, SIGINT]

theorem looping_run_failed {p : Pass} {caller : Caller} {pc : Pc}
    (hp : s.passes[i]? = some p) (hpc : p = ⟨caller, pc⟩) (hin : pc ≠ .starting) :
    looping (run_failed s i caller) < looping s ↔ caller = .run := by
  have hleave : looping (run_failed s i caller) = looping (s.leave i) := by
    cases caller with
    | run => rfl
    | run_once => rfl
  rw [hleave, looping_leave hp, hpc]
  simp [Pass.inLoop, hin]

/-- A round leaves the loop if it finds it stopped. -/
theorem round_ended_left_iff {caller : Caller} {pc : Pc} (hsig : s.catch_signal = 0)
    (hp : s.passes[i]? = some ⟨caller, pc⟩) (hin : pc ≠ .starting) :
    looping (round_ended s i caller false) < looping s ↔
      caller = .run ∧ s.state = .L_STOP := by
  rw [round_ended_calm hsig]
  split
  · rename_i hstop
    have hfail : looping (run_failed s.decr i caller) < looping s ↔ caller = .run :=
      looping_run_failed (s := s.decr) hp rfl hin
    rw [hfail]
    exact ⟨fun h => ⟨h, hstop⟩, fun h => h.1⟩
  · rename_i hgo
    have hsame : looping (s.decr.goto i caller .firing) = looping s.decr := by
      apply looping_goto (p := ⟨caller, pc⟩)
      · exact hp
      · simp [Pass.inLoop, hin]
    rw [hsame]
    exact iff_of_false (lt_irrefl _) fun h => hgo h.2

theorem round_ended_signal (hsig : s.catch_signal = 0) (caller : Caller) :
    (round_ended s i caller false).catch_signal = 0 := by
  rw [round_ended_calm hsig]
  split
  · cases caller with
    | run => exact hsig
    | run_once => exact hsig
  · exact hsig

/-! ## Steps -/

/-- What one step does to the calls of `LoopObject_run`. -/
structure Turn (s : St κ) (a : Act κ) (s' : St κ) : Prop where
  left : looping s' < looping s ↔ Quits (Idle s) s a
  signal : s'.catch_signal = 0

theorem Apart.turn {a : Act κ} (h : Apart s s') (hsig : s.catch_signal = 0)
    (hq : ¬ Quits (Idle s) s a) : Turn s a s' where
  left := by
    rw [h.looping]
    exact iff_of_false (lt_irrefl _) hq
  signal := h.catch_signal.trans hsig

/-- A pass goes on where it counts as it did. -/
theorem turn_goto {a : Act κ} {p : Pass} (hsig : s.catch_signal = 0) (hp : s.passes[i]? = some p)
    {caller : Caller} {pc : Pc} (hpc : Pass.inLoop ⟨caller, pc⟩ = p.inLoop)
    (hq : ¬ Quits (Idle s) s a) : Turn s a (s.goto i caller pc) where
  left := by
    rw [looping_goto hp hpc]
    exact iff_of_false (lt_irrefl _) hq
  signal := hsig

theorem turn_run_failed {a : Act κ} {caller : Caller} {pc : Pc} (hsig : s.catch_signal = 0)
    (hp : s.passes[i]? = some ⟨caller, pc⟩) (hin : pc ≠ .starting)
    (hq : Quits (Idle s) s a ↔ caller = .run) : Turn s a (run_failed s i caller) where
  left := by
    rw [looping_run_failed hp rfl hin, hq]
  signal := by
    cases caller with
    | run => exact hsig
    | run_once => exact hsig

theorem turn_start {a : Act κ} (hsig : s.catch_signal = 0) (caller : Caller) (suspended : Bool)
    (hq : ¬ Quits (Idle s) s a) : Turn s a (start s caller suspended) where
  left := by
    apply iff_of_false _ hq
    have hmore : looping s ≤ looping (start s caller suspended) := by
      cases caller with
      | run =>
        show _ ≤ (s.passes ++ [_]).countP Pass.inLoop
        rw [List.countP_append]
        exact Nat.le_add_right _ _
      | run_once =>
        show _ ≤ (s.passes ++ [_]).countP Pass.inLoop
        rw [List.countP_append]
        exact Nat.le_add_right _ _
    exact Nat.not_lt.2 hmore
  signal := by
    unfold start
    simp only
    split
    · exact hsig
    · exact hsig

theorem turn_test (hsig : s.catch_signal = 0) (hp : s.passes[i]? = some ⟨.run, .testing⟩) :
    Turn s (.test i) (run_test s i) := by
  have hcount : ¬ (s.activecnt > 0 ∨ s.ioactivecnt > 1) ↔ Idle s := by
    rw [Idle, not_or, UInt32.not_lt, UInt32.not_lt, UInt32.le_zero_iff]
  unfold run_test
  split
  · rename_i hgo
    apply turn_goto hsig hp (by simp [Pass.inLoop])
    rintro ⟨_, hstop | hzero⟩
    · exact hgo.1 hstop
    · exact hcount.2 hzero hgo.2
  · rename_i hleave
    apply turn_run_failed (s := s) hsig hp nofun
    refine iff_of_true ⟨hp, ?_⟩ rfl
    by_cases hstop : s.state = .L_STOP
    · exact Or.inl hstop
    · exact Or.inr (hcount.1 fun hcnt => hleave ⟨hstop, hcnt⟩)

theorem turn_next {dead : Bool} {caller : Caller} (hsig : s.catch_signal = 0)
    (hp : s.passes[i]? = some ⟨caller, .firing⟩) (h : fire_pendings_next s i caller dead = some s') :
    Turn s (.next i dead) s' := by
  unfold fire_pendings_next at h
  split at h
  · cases h
    exact turn_goto hsig hp (by simp [Pass.inLoop]) id
  · rename_i hgo
    split at h
    · cases h
      exact turn_goto hsig hp (by simp [Pass.inLoop]) id
    · rename_i item q _
      -- a round that ends here has not found the loop stopped
      have hended : ∀ t : St κ, Apart { s with pendings := q } t →
          Turn s (.next i dead) (round_ended t i caller false) := by
        intro t ht
        have htsig : t.catch_signal = 0 := ht.catch_signal.trans hsig
        have htp : t.passes[i]? = some ⟨caller, .firing⟩ := by
          rw [ht.passes]
          exact hp
        have htl : looping t = looping s := ht.looping
        refine ⟨?_, round_ended_signal htsig caller⟩
        rw [← htl, round_ended_left_iff htsig htp nofun]
        exact iff_of_false (fun hstop => hgo (ht.state.symm.trans hstop.2)) id
      cases fire_item_cases h with
      | skipped _ _ => exact hended _ ⟨rfl, rfl, rfl⟩
      | lost _ _ _ hreturned =>
        have hmark : Apart { s with pendings := q }
            (({ s with pendings := q }.set_obj item (s.objs item).marked).note
              (.shift ⟨item, s.objs item, dead, .nothing, s.clock⟩)) := ⟨rfl, rfl, rfl⟩
        exact hended _ (hmark.trans (fire_returned_apart hreturned))
      | fired _ _ _ =>
        refine ⟨?_, hsig⟩
        apply iff_of_false _ id
        have hsame : looping (s.goto i caller (.fired item)) = looping s :=
          looping_goto hp (by simp [Pass.inLoop])
        exact fun hlt => (lt_irrefl _) (hsame ▸ hlt)

theorem turn_returned {caller : Caller} {item : Hid} (hsig : s.catch_signal = 0)
    (hp : s.passes[i]? = some ⟨caller, .fired item⟩) (h : fire_returned s item = some t) :
    Turn s (.returned i false) (round_ended t i caller false) := by
  have ht := fire_returned_apart h
  have htsig : t.catch_signal = 0 := ht.catch_signal.trans hsig
  refine ⟨?_, round_ended_signal htsig caller⟩
  have htp : t.passes[i]? = some ⟨caller, .fired item⟩ := ht.passes ▸ hp
  rw [← ht.looping, round_ended_left_iff htsig htp nofun, ht.state]
  constructor
  · rintro ⟨rfl, hstop⟩
    exact ⟨⟨item, hp⟩, hstop⟩
  · rintro ⟨⟨item', hp'⟩, hstop⟩
    rw [hp] at hp'
    cases hp'
    exact ⟨rfl, hstop⟩

theorem turn_polled {caller : Caller} {ok : Bool} (hsig : s.catch_signal = 0)
    (hp : s.passes[i]? = some ⟨caller, .polling⟩) :
    Turn s (.polled i ok false)
      (if ok then run_once_ended s i caller false else run_failed s i caller) := by
  split
  · rename_i hok
    have hq : ¬ Quits (Idle s) s (.polled i ok false) := by
      rintro ⟨_, hno⟩
      rw [hok] at hno
      cases hno
    cases caller with
    | run =>
      have hcheck : (check_stop_signal s).1 = s := by
        unfold check_stop_signal
        split
        · rfl
        · rw [if_neg (by simp [hsig, SIGINT])]
      simp only [run_once_ended, hcheck, Bool.false_eq_true, if_false]
      exact turn_goto hsig hp (by simp [Pass.inLoop]) hq
    | run_once =>
      refine ⟨?_, hsig⟩
      rw [run_once_ended, looping_leave hp]
      exact iff_of_false (by simp [Pass.inLoop]) hq
  · rename_i hok
    have hno : ok = false := by simpa using hok
    apply turn_run_failed hsig hp (by simp)
    constructor
    · rintro ⟨hp', _⟩
      rw [hp] at hp'
      cases hp'
      rfl
    · rintro rfl
      exact ⟨hp, hno⟩

theorem turn_entered {caller : Caller} {ok : Bool} (hsig : s.catch_signal = 0)
    (hp : s.passes[i]? = some ⟨caller, .entering⟩)
    (h : (if ok then run_once_entered s i caller else some (run_failed s i caller)) = some s') :
    Turn s (.entered i ok) s' := by
  split at h
  · rename_i hok
    have hq : ¬ Quits (Idle s) s (.entered i ok) := by
      rintro ⟨_, hno⟩
      rw [hok] at hno
      cases hno
    obtain ⟨r, hr, rfl⟩ := Option.map_eq_some_iff.1 h
    have hapart := fire_timers_apart hr
    have hpr : r.passes[i]? = some ⟨caller, .entering⟩ := hapart.passes ▸ hp
    have hrsig : r.catch_signal = 0 := hapart.catch_signal.trans hsig
    have hgoto : ∀ pc, pc ≠ .starting → Turn s (.entered i ok) (r.goto i caller pc) := by
      intro pc hpc
      refine ⟨?_, hrsig⟩
      rw [looping_goto hpr (by simp [Pass.inLoop, hpc]), hapart.looping]
      exact iff_of_false (lt_irrefl _) hq
    split
    · exact hgoto .firing nofun
    · exact hgoto .polling nofun
  · rename_i hok
    have hno : ok = false := by simpa using hok
    cases h
    apply turn_run_failed hsig hp nofun
    constructor
    · rintro ⟨hp', _⟩
      rw [hp] at hp'
      cases hp'
      rfl
    · rintro rfl
      exact ⟨hp, hno⟩

theorem turn_started {exc : Bool} (hsig : s.catch_signal = 0) (hexc : exc = false)
    (h : step s (.started i exc) = some s') : Turn s (.started i exc) s' := by
  subst hexc
  simp only [step] at h
  split at h
  · rename_i hp
    cases h
    refine ⟨?_, hsig⟩
    apply iff_of_false _ id
    have hset : looping s ≤ looping (s.goto i .run .testing) := by
      unfold looping
      exact countP_set_le hp rfl
    exact Nat.not_lt.2 hset
  · rename_i hp
    cases h
    exact turn_goto hsig hp (by simp [Pass.inLoop]) id
  · cases h

theorem step_turn {a : Act κ} (h : step s a = some s') (hcalm : a.Calm)
    (hsig : s.catch_signal = 0) : Turn s a s' := by
  cases a with
  | call_soon cb => exact (call_apart h).turn hsig id
  | call_later seconds cb =>
    simp only [step, call_later] at h
    split at h
    · cases h
      exact (Apart.refl s).turn hsig id
    · exact (call_apart h).turn hsig id
  | call_repeatedly seconds cb =>
    simp only [step, call_repeatedly] at h
    split at h
    · cases h
      exact (Apart.refl s).turn hsig id
    · obtain ⟨r, hr, rfl⟩ := Option.map_eq_some_iff.1 h
      have hset : Apart r (r.set_obj s.next { r.objs s.next with repeats := true }) :=
        ⟨rfl, rfl, rfl⟩
      exact ((call_apart hr).trans hset).turn hsig id
  | set_timeout seconds throw =>
    obtain ⟨r, hr, rfl⟩ := Option.map_eq_some_iff.1 h
    have hcancel : Apart r (if seconds = 0 then cancel r s.next else r) := by
      split
      · exact ⟨rfl, rfl, rfl⟩
      · exact Apart.refl r
    exact ((call_apart hr).trans hcancel).turn hsig id
  | sleep seconds g => exact (call_apart h).turn hsig id
  | make_handle cb =>
    cases h
    exact Apart.turn ⟨rfl, rfl, rfl⟩ hsig id
  | add_callback o =>
    obtain ⟨_, hsched⟩ := Option.ite_none_right_eq_some.1 h
    exact (schedule_timer_apart hsched).turn hsig id
  | cancel timer =>
    obtain ⟨_, heq⟩ := Option.ite_none_right_eq_some.1 h
    cases heq
    exact Apart.turn ⟨rfl, rfl, rfl⟩ hsig id
  | stop => exact hcalm.elim
  | signal signum => exact hcalm.elim
  | running =>
    cases h
    exact ⟨iff_of_false (lt_irrefl _) id, hsig⟩
  | time now =>
    cases h
    exact Apart.turn ⟨rfl, rfl, rfl⟩ hsig id
  | io ioactivecnt =>
    cases h
    exact Apart.turn ⟨rfl, rfl, rfl⟩ hsig id
  | run suspended =>
    cases h
    exact turn_start hsig .run suspended id
  | run_once suspended =>
    cases h
    exact turn_start hsig .run_once suspended id
  | started i exc => exact turn_started hsig hcalm h
  | test i =>
    simp only [step] at h
    split at h
    · rename_i hp
      cases h
      exact turn_test hsig hp
    · cases h
  | entered i ok =>
    simp only [step] at h
    split at h
    · rename_i hp
      exact turn_entered hsig hp h
    · cases h
  | next i dead =>
    simp only [step] at h
    split at h
    · rename_i hp
      exact turn_next hsig hp h
    · cases h
  | returned i exc =>
    have hexc : exc = false := hcalm
    subst hexc
    simp only [step] at h
    split at h
    · rename_i hp
      obtain ⟨r, hr, rfl⟩ := Option.map_eq_some_iff.1 h
      exact turn_returned hsig hp hr
    · cases h
  | polled i ok exc =>
    have hexc : exc = false := hcalm
    subst hexc
    simp only [step] at h
    split at h
    · rename_i hp
      cases h
      exact turn_polled hsig hp
    · cases h

end Jega.Loop
