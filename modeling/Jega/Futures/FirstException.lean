import Jega.Futures.Wakeup

/-!
# Jega.Futures.FirstException — `wait` until a future has failed

The waiter of such a call counts the futures that end without an exception, and
its event is set by the first one that fails (`Stops`). That is what the call is
to wait for. But the test it makes of the futures that are done already calls
`cancelled`, which is a property, and the call raises whatever it finds there.

## Main result

* `first_exception_iff`: when every such call of a run is right.
-/

namespace Jega.Futures.Waiting

open Locks Trace

variable {α ε : Type}

/-! ## The statement -/

/-- The future finished with an exception. -/
def Failed (f : Future α ε) : Prop := f._state = .FINISHED ∧ f._exception.isSome = true

/-- Some future failed, or all are done. -/
def Over (t : Table α ε) (fs : List Fid) : Prop :=
  (∃ f ∈ fs, Failed (t.futs f)) ∨ ∀ f ∈ fs, (t.futs f)._state.settled = true

/-- A call for the first exception, without a timeout, on different futures. -/
def Stopping (r : Return) : Prop :=
  r.return_when = .FIRST_EXCEPTION ∧ r.timeout = none ∧ r.fs ≠ [] ∧ r.fs.Nodup

/-- The call has returned what it is to return. -/
structure Stopped (t : Table α ε) (r : Return) : Prop where
  sets : ∃ done not_done, r.result = .ok (done, not_done) ∧
    (∀ f, f ∈ done ↔ f ∈ r.fs ∧ (t.futs f)._state.settled = true) ∧
      ∀ f, f ∈ not_done ↔ f ∈ r.fs ∧ (t.futs f)._state.settled = false
  met : Over t r.fs

/-- What others throw into a call is all that it may raise. -/
def Thrown (r : Return) : Prop := ∃ n, r.result = .error (.thrown (some (.other n)))

/-- The step ends no such call, or one that is right, and a call that finds a
failed future does not suspend. -/
def Meets (s : St α ε) (a : Act α ε) : Prop :=
  ∀ s', step s a = some s' →
    (∀ r, s'.returned = s.returned ++ [r] → Stopping r → Thrown r ∨ Stopped s'.toTable r) ∧
      ∀ g fs, a = .wait g fs none .FIRST_EXCEPTION → fs ≠ [] → fs.Nodup →
        (∃ f ∈ fs, Failed (s.futs f)) →
          s'.calls g = none ∧ ∃ r, s'.returned = s.returned ++ [r] ∧ r.fs = fs ∧ Stopping r

/-- The step is no such call, or one on futures that are not done. -/
def Fresh (s : St α ε) (a : Act α ε) : Prop :=
  ∀ g fs, a = .wait g fs none .FIRST_EXCEPTION → fs ≠ [] → fs.Nodup →
    ∀ f ∈ fs, (s.futs f)._state.settled = false

/-! ## What a waiter is told -/

section Told

variable {future : Fid} {current : Gid} {w : Waiter} {n : Int}

theorem stop_result (h : w.cls = ._AllCompletedWaiter n true) :
    (w.add_result future current).cls = ._AllCompletedWaiter (n - 1) true ∧
      (w.add_result future current).event =
        if n - 1 = 0 then Event.event_set w.event current else w.event := by
  obtain ⟨cls, event, finished⟩ := w
  cases h
  simp only [Waiter.add_result, Waiter.append, decrement_eq]
  exact ⟨trivial, trivial⟩

theorem stop_exception (future : Fid) (current : Gid) (h : w.cls = ._AllCompletedWaiter n true) :
    (w.add_exception future current).cls = ._AllCompletedWaiter n true ∧
      (w.add_exception future current).event = Event.event_set w.event current := by
  obtain ⟨cls, event, finished⟩ := w
  cases h
  exact ⟨rfl, rfl⟩

theorem iterate_stop_exception (hs : Event.Steady w.event) (hpc : w.event.pc current = .free)
    (h : w.cls = ._AllCompletedWaiter n true) (k : Nat) :
    ((fun w => w.add_exception future current)^[k] w).cls = ._AllCompletedWaiter n true ∧
      (((fun w => w.add_exception future current)^[k] w).event.flag = true ↔
        w.event.flag = true ∨ 0 < k) := by
  have ha := adds_exception future current
  induction k with
  | zero => exact ⟨h, by simp⟩
  | succ k ih =>
    obtain ⟨hm, _⟩ := ha.iterate hs hpc k
    obtain ⟨hcls, hevent⟩ := stop_exception future current ih.1
    have hflag := (Event.event_set_steady hm.steady (hm.pc ▸ hpc)).2.2.1
    rw [Function.iterate_succ_apply']
    refine ⟨hcls, ?_⟩
    rw [hevent, hflag]
    exact iff_of_true rfl (Or.inr (Nat.succ_pos k))

end Told

/-! ## The invariant -/

/-- The waiter of such a call counts no less than what is pending, and its event
is not set too early. -/
structure Stops (t : Table α ε) (c : Call) (w : Waiter) : Prop where
  counts : ∃ n : Nat, w.cls = ._AllCompletedWaiter n true ∧ t.pending_count c.fs ≤ n
  timely : w.event.flag = true → Over t c.fs

def AllStop (s : St α ε) : Prop :=
  ∀ g c, s.calls g = some c → c.return_when = .FIRST_EXCEPTION →
    ∃ w, s.waiters c.waiter = some w ∧ Stops s.toTable c w

section Table

variable {t t' : Table α ε} {future : Fid} {current : Gid} {c : Call} {w : Waiter}

theorem failed_settled {f : Future α ε} (h : Failed f) : f._state.settled = true := by
  rw [h.1]
  rfl

theorem Over.mono {fs : List Fid} (ho : Over t fs)
    (hfailed : ∀ f, Failed (t.futs f) → Failed (t'.futs f))
    (hsettled : ∀ f, (t.futs f)._state.settled = true → (t'.futs f)._state.settled = true) :
    Over t' fs := by
  rcases ho with ⟨f, hf, h⟩ | hall
  · exact Or.inl ⟨f, hf, hfailed f h⟩
  · exact Or.inr fun f hf => hsettled f (hall f hf)

theorem failed_settles (hs : Settles t t' future current) (f : Fid) (h : Failed (t.futs f)) :
    Failed (t'.futs f) := by
  have hne : f ≠ future := by
    rintro rfl
    have hsettled := failed_settled h
    rw [hs.before] at hsettled
    cases hsettled
  rw [hs.others f hne]
  exact h

/-- A waiter that counts is told of a future. -/
theorem Stops.counted (hst : Stops t c w) (hs : Settles t t' future current)
    {add : Waiter → Waiter}
    (hcounts : ∀ w n, w.cls = ._AllCompletedWaiter n true →
      (add w).cls = ._AllCompletedWaiter (n - 1) true ∧
        (add w).event = if n - 1 = 0 then Event.event_set w.event current else w.event)
    (he : Event.Steady w.event) (hpc : w.event.pc current = .free) :
    Stops t' c (add^[c.fs.count future] w) := by
  obtain ⟨n, hcls, hle⟩ := hst.counts
  have hpending := pending_settles hs c.fs
  obtain ⟨m, rfl⟩ := Nat.exists_eq_add_of_le' (show c.fs.count future ≤ n by omega)
  obtain ⟨hcls', hflag⟩ := iterate_counts he hpc hcounts (c.fs.count future) hcls
  refine ⟨⟨m, hcls', by omega⟩, fun hset => ?_⟩
  rcases hflag.1 hset with hold | ⟨_, hzero⟩
  · exact (hst.timely hold).mono (failed_settles hs) fun f hf => (settled_settles hs f).2 (Or.inr hf)
  · exact Or.inr (pending_zero.1 (by omega))

/-- A waiter is told of a future that failed. -/
theorem Stops.failed (hst : Stops t c w) (hs : Settles t t' future current)
    (hf : Failed (t'.futs future)) (he : Event.Steady w.event)
    (hpc : w.event.pc current = .free) :
    Stops t' c ((fun w => w.add_exception future current)^[c.fs.count future] w) := by
  obtain ⟨n, hcls, hle⟩ := hst.counts
  have hpending := pending_settles hs c.fs
  obtain ⟨hcls', hflag⟩ := iterate_stop_exception he hpc hcls (c.fs.count future)
  refine ⟨⟨n, hcls', by omega⟩, fun hset => ?_⟩
  rcases hflag.1 hset with hold | hpos
  · exact (hst.timely hold).mono (failed_settles hs) fun f hf => (settled_settles hs f).2 (Or.inr hf)
  · exact Or.inl ⟨future, List.count_pos_iff.1 hpos, hf⟩

/-- Nothing that matters to the waiter has changed. -/
theorem Stops.congr {w' : Waiter} (hst : Stops t c w)
    (hsettled : ∀ f, (t'.futs f)._state.settled = (t.futs f)._state.settled)
    (hfailed : ∀ f, Failed (t.futs f) → Failed (t'.futs f)) (hcls : w'.cls = w.cls)
    (hflag : w'.event.flag = w.event.flag) : Stops t' c w' := by
  obtain ⟨n, hn, hle⟩ := hst.counts
  refine ⟨⟨n, hcls.trans hn, ?_⟩, fun hset => ?_⟩
  · rwa [pending_congr hsettled]
  · rw [hflag] at hset
    exact (hst.timely hset).mono hfailed fun f hf => (hsettled f).trans hf

end Table

section Keep

variable {s s' : St α ε} {t : Table α ε} {future : Fid} {g : Gid}

theorem AllStop.congr (hst : AllStop s) (hi : Inv s none)
    (hcalls : ∀ g c, s'.calls g = some c → s.calls g = some c)
    (hwaiters : ∀ w W, w < s.next → s.waiters w = some W →
      ∃ W', s'.waiters w = some W' ∧ W'.cls = W.cls ∧ W'.event.flag = W.event.flag)
    (hsettled : ∀ f, (s'.futs f)._state.settled = (s.futs f)._state.settled)
    (hfailed : ∀ f, Failed (s.futs f) → Failed (s'.futs f)) : AllStop s' := by
  intro g c hc hwhen
  obtain ⟨w, hw, hstops⟩ := hst g c (hcalls g c hc) hwhen
  have hlt := (hi.calls g c nofun (hcalls g c hc)).2
  obtain ⟨w', hw', hcls, hflag⟩ := hwaiters c.waiter w hlt hw
  exact ⟨w', hw', hstops.congr hsettled hfailed hcls hflag⟩

/-- A worker tells the waiters of its future. -/
theorem AllStop.told (hst : AllStop s) (hi : Inv s none) (hg : s.calls g = none) {add : Waiter → Waiter}
    (htell : t.waiters = tell add (s.futs future)._waiters s.waiters)
    (hadd : ∀ c w, Stops s.toTable c w → Event.Steady w.event → w.event.pc g = .free →
      Stops t c (add^[c.fs.count future] w)) : AllStop (s.completed future t) := by
  intro g' c hc hwhen
  obtain ⟨w, hw, hstops⟩ := hst g' c hc hwhen
  obtain ⟨⟨w₀, hw₀, ht, _⟩, _⟩ := hi.calls g' c nofun hc
  refine ⟨add^[c.fs.count future] w, ?_, ?_⟩
  · show t.waiters c.waiter = _
    rw [htell, tell_eq, hw, ht.installed future]
    rfl
  · exact hadd c w hstops (hi.steady c.waiter w hw) ((hi.enter hg).outside hw)

/-- A future is unchanged, but for the waiters in its list. -/
theorem failed_congr {f f' : Future α ε} (hstate : f'._state = f._state)
    (hexc : f'._exception = f._exception) : Failed f ↔ Failed f' := by
  unfold Failed
  rw [hstate, hexc]

theorem cancel_failed (t : Table α ε) (future f : Fid) (h : Failed (t.futs f)) :
    Failed ((t.cancel future).futs f) := by
  unfold Table.cancel Table.put
  rcases eq_or_ne f future with rfl | hne
  · show Failed (Function.update t.futs f _ f)
    rw [Function.update_self]
    unfold Future.cancel
    rw [h.1]
    exact h
  · show Failed (Function.update t.futs future _ f)
    rw [Function.update_of_ne hne]
    exact h

theorem AllStop.began (hst : AllStop s) (hi : Inv s none) (hg : s.calls g = none) (future : Fid) :
    AllStop (s.began future (s.toTable.set_running_or_notify_cancel future g)) := by
  rcases set_running_cases s.toTable future g with
    ⟨hpending, t, ht, _, hothers, hq⟩ | ⟨hcancelled, t, ht, hs⟩ | ⟨e, he⟩
  · rw [ht]
    refine hst.congr hi (fun _ _ hc => hc) (fun w W _ hW => ⟨W, ?_, rfl, rfl⟩) hq.settled
      fun f hf => ?_
    · exact (congrFun hq.waiters w).trans hW
    · have hne : f ≠ future := by
        rintro rfl
        rw [Failed, hpending] at hf
        cases hf.1
      show Failed (t.futs f)
      rw [hothers f hne]
      exact hf
  · rw [ht]
    have htell : t.waiters =
        tell (fun w => w.add_cancelled future g) (s.futs future)._waiters s.waiters := by
      unfold Table.set_running_or_notify_cancel Future.set_running_or_notify_cancel at ht
      rw [hcancelled] at ht
      cases ht
      rfl
    exact hst.told hi hg htell fun c w hstops he hpc =>
      hstops.counted hs (fun _ _ => stop_result) he hpc
  · rw [he]
    exact hst.congr hi (fun _ _ hc => hc) (fun w W _ hW => ⟨W, hW, rfl, rfl⟩) (fun _ => rfl)
      fun _ hf => hf

theorem AllStop.set_result (hst : AllStop s) (hi : Inv s none) (hg : s.calls g = none)
    (hworker : s.workers future = .running) (result : Option α) :
    AllStop (s.completed future (s.toTable.set_result future result g)) := by
  have hs : Settles s.toTable (s.toTable.set_result future result g) future g :=
    set_result_settles (hi.unsettled hworker) result
  exact hst.told hi hg rfl fun c w hstops he hpc =>
    hstops.counted hs (fun _ _ => stop_result) he hpc

theorem AllStop.set_exception (hst : AllStop s) (hi : Inv s none) (hg : s.calls g = none)
    (hworker : s.workers future = .running) (exception : ε) :
    AllStop (s.completed future (s.toTable.set_exception future exception g)) := by
  have hs : Settles s.toTable (s.toTable.set_exception future exception g) future g :=
    set_exception_settles (hi.unsettled hworker) exception
  have hfailed : Failed ((s.toTable.set_exception future exception g).futs future) := by
    show Failed (Function.update s.futs future _ future)
    rw [Function.update_self]
    exact ⟨rfl, rfl⟩
  exact hst.told hi hg rfl fun c w hstops he hpc => hstops.failed hs hfailed he hpc

/-! ## The steps of `wait` -/

/-- A return that a call for the first exception is right to make. -/
def Fair (s : St α ε) (r : Return) : Prop :=
  r.return_when = .FIRST_EXCEPTION → r.timeout = none →
    Thrown r ∨ (∃ sets, r.result = .ok sets) ∧ Over s.toTable r.fs

/-- The step ends no call, or one that is fair. -/
def Ends (s s' : St α ε) : Prop :=
  s'.returned = s.returned ∨ ∃ r, s'.returned = s.returned ++ [r] ∧ Fair s' r

theorem uninstall_exception (waiter : Wid) (fs : List Fid) (futs : Fid → Future α ε) (f : Fid) :
    ((uninstall waiter fs futs).1 f)._exception = (futs f)._exception := by
  induction fs generalizing futs with
  | nil => rfl
  | cons f' fs ih =>
    rw [uninstall]
    split
    · rw [ih]
      rcases eq_or_ne f f' with rfl | hne
      · rw [Function.update_self]
      · rw [Function.update_of_ne hne]
    · rfl

/-- The call of `g` is over, and others have kept their waiters. -/
theorem AllStop.finish (hst : AllStop s) (hi : Inv s none) {t : Table α ε}
    (hwaiters : ∀ w W, w < s.next → s.waiters w = some W →
      ∃ W', t.waiters w = some W' ∧ W'.cls = W.cls ∧ W'.event.flag = W.event.flag)
    (hsame : ∀ f, (t.futs f)._state = (s.futs f)._state ∧
      (t.futs f)._exception = (s.futs f)._exception) (fs : List Fid) (timeout : Option Int)
    (return_when : ReturnWhen) (result : Except Error (Finset Fid × Finset Fid)) :
    AllStop (St.finish { s with toTable := t } g fs timeout return_when result) := by
  refine hst.congr hi (fun g' c hc => ?_) hwaiters (fun f => congrArg State.settled (hsame f).1)
    fun f hf => (failed_congr (hsame f).1 (hsame f).2).1 hf
  rcases eq_or_ne g' g with rfl | hne
  · rw [show (St.finish { s with toTable := t } g' fs timeout return_when result).calls g' = none
      from Function.update_self _ _ _] at hc
    cases hc
  · rwa [show (St.finish { s with toTable := t } g fs timeout return_when result).calls g' =
      s.calls g' from Function.update_of_ne hne _ _] at hc

/-- An event has moved, and its flag has not. -/
theorem moved_waiters {waiter : Wid} {w : Waiter} {e : Event.St} (hw : s.waiters waiter = some w)
    (hflag : e.flag = w.event.flag) (v : Wid) (W : Waiter) (hW : s.waiters v = some W) :
    ∃ W', Function.update s.waiters waiter (some { w with event := e }) v = some W' ∧
      W'.cls = W.cls ∧ W'.event.flag = W.event.flag := by
  rcases eq_or_ne v waiter with rfl | hne
  · rw [hw, Option.some.injEq] at hW
    subst hW
    exact ⟨_, Function.update_self _ _ _, rfl, hflag⟩
  · exact ⟨W, by rw [Function.update_of_ne hne, hW], rfl, rfl⟩

theorem AllStop.settle (hst : AllStop s) (hi : Inv s none) {waiter : Wid} {w : Waiter}
    {e : Event.St} (hw : s.waiters waiter = some w) (hflag : e.flag = w.event.flag)
    (hturned : Event.Turned w.event e) :
    AllStop (s.settle waiter w e) ∧ Ends s (s.settle waiter w e) := by
  have hmoved := moved_waiters hw hflag
  rcases settle_cases hi hw hturned with
    ⟨_, heq⟩ | ⟨g, c, _, res, hc, rfl, _, _, hres, heq⟩
  · rw [heq]
    exact ⟨hst.congr hi (fun _ _ h => h) (fun v W _ => hmoved v W) (fun _ => rfl) fun _ h => h,
      Or.inl rfl⟩
  · obtain ⟨⟨w', hw', ht, _, hmuted⟩, _⟩ := hi.calls g c nofun hc
    rw [hw, Option.some.injEq] at hw'
    subst hw'
    let s₁ : St α ε :=
      { s with waiters := Function.update s.waiters c.waiter (some { w with event := e }) }
    rw [heq]
    by_cases hthrown : ∃ n, res = .NULL (some (.other n))
    · -- Case: something was thrown into the wait
      obtain ⟨n, rfl⟩ := hthrown
      have hfinish := hst.finish (g := g) (t := s₁.toTable) hi (fun v W _ => hmoved v W)
        (fun _ => ⟨rfl, rfl⟩) c.fs c.timeout c.return_when (.error (.thrown (some (.other n))))
      exact ⟨hfinish, Or.inr ⟨_, rfl, fun _ _ => Or.inl ⟨n, rfl⟩⟩⟩
    · -- Case: the wait ended by itself, and the call builds its sets
      have hnull : ∀ e, res ≠ .NULL e := by
        rintro e' rfl
        cases hres with
        | thrown n => exact hthrown ⟨n, rfl⟩
      have hw₁ : s₁.waiters c.waiter = some { w with event := e } := Function.update_self _ _ _
      have ht₁ : Tracks s₁.toTable c { w with event := e } :=
        (ht.event hflag).congr (fun _ => rfl) fun _ => rfl
      obtain ⟨hwaited, hrest⟩ := waited_eq (g := g) hw₁ ht₁ hnull
      rw [hwaited]
      have hexc := uninstall_exception c.waiter c.fs s.futs
      have hfinish := hst.finish (g := g)
        (t := { s₁.toTable with futs := (uninstall c.waiter c.fs s.futs).1 }) hi
        (fun v W _ => hmoved v W) (fun f => ⟨(hrest f).1, hexc f⟩) c.fs c.timeout c.return_when
        (.ok (c.done ∪ w.finished_futures.toFinset,
          c.fs.toFinset \ (c.done ∪ w.finished_futures.toFinset)))
      refine ⟨hfinish, Or.inr ⟨_, rfl, fun hwhen hnone => Or.inr ⟨⟨_, rfl⟩, ?_⟩⟩⟩
      -- without a timeout the event was set
      have hset : w.event.flag = true := by
        cases hres with
        | set hset => exact hset
        | expired hm => exact absurd (hmuted hnone) hm
        | thrown n => exact absurd rfl (hnull _)
      obtain ⟨w', hw', hstops⟩ := hst g c hc hwhen
      rw [hw, Option.some.injEq] at hw'
      subst hw'
      exact (hstops.timely hset).mono (fun f hf => (failed_congr (hrest f).1 (hexc f)).1 hf)
        fun f hf => (congrArg State.settled (hrest f).1).trans hf

/-- `install` appends to the lists and does nothing else. -/
theorem add_waiter_same (t : Table α ε) (fs : List Fid) (cls : WaiterClass) (f : Fid) :
    ((t.add_waiter fs cls).futs f)._state = (t.futs f)._state ∧
      ((t.add_waiter fs cls).futs f)._exception = (t.futs f)._exception := by
  rw [add_waiter_futs]
  exact ⟨rfl, rfl⟩

/-- A call waits for the first exception with this waiter. -/
theorem create_stop {t : Table α ε} {fs : List Fid} {return_when : ReturnWhen}
    {r : Table α ε × Wid} (h : t._create_and_install_waiters fs return_when = .ok r) :
    ∃ cls, r = (t.add_waiter fs cls, t.next) ∧
      (return_when = .FIRST_EXCEPTION → cls = ._AllCompletedWaiter (t.pending_count fs) true) := by
  cases return_when with
  | FIRST_EXCEPTION =>
    cases h
    exact ⟨_, rfl, fun _ => rfl⟩
  | FIRST_COMPLETED | ALL_COMPLETED | _AS_COMPLETED =>
    cases h
    exact ⟨_, rfl, nofun⟩
  | other repr => cases h

/-- Any other call is fair if it ends at once. -/
theorem AllStop.wait (hst : AllStop s) (hi : Inv s none) (fs : List Fid) (timeout : Option Int)
    (return_when : ReturnWhen)
    (hnone : ¬ (return_when = .FIRST_EXCEPTION ∧ (s.done fs).Nonempty)) :
    AllStop (s.wait g fs timeout return_when) ∧ Ends s (s.wait g fs timeout return_when) := by
  have hkeep : ∀ result, AllStop (s.finish g fs timeout return_when result) := fun result =>
    hst.finish (t := s.toTable) hi (fun _ W _ hW => ⟨W, hW, rfl, rfl⟩) (fun _ => ⟨rfl, rfl⟩) fs
      timeout return_when result
  by_cases hfirst : return_when = .FIRST_COMPLETED ∧ (s.done fs).Nonempty
  · rw [wait_now hnone (Or.inl hfirst)]
    refine ⟨hkeep _, Or.inr ⟨_, rfl, fun hwhen => ?_⟩⟩
    rw [show return_when = .FIRST_EXCEPTION from hwhen] at hfirst
    exact nomatch hfirst.1
  by_cases hcard : (s.done fs).card = fs.length
  · -- Case: all futures are done
    rw [wait_now hnone (Or.inr hcard)]
    refine ⟨hkeep _, Or.inr ⟨_, rfl, fun _ _ => Or.inr ⟨⟨_, rfl⟩, Or.inr fun f hf => ?_⟩⟩⟩
    have hmem : f ∈ s.done fs := done_full hcard ▸ List.mem_toFinset.2 hf
    exact (mem_done.1 hmem).2
  cases hcreate : s._create_and_install_waiters fs return_when with
  | error e =>
    rw [wait_unknown hfirst hnone hcard hcreate]
    refine ⟨hkeep _, Or.inr ⟨_, rfl, fun hwhen => ?_⟩⟩
    rw [show return_when = .FIRST_EXCEPTION from hwhen] at hcreate
    cases hcreate
  | ok r =>
    obtain ⟨cls, rfl, hcls⟩ := create_stop hcreate
    have hold : ∀ w, w < s.next → (s.toTable.add_waiter fs cls).waiters w = s.waiters w :=
      fun w hlt => Function.update_of_ne (Nat.ne_of_lt hlt) _ _
    have hsame := add_waiter_same s.toTable fs cls
    cases hseconds : event_seconds timeout with
    | error e =>
      have hfinish := hst.finish (g := g) (t := s.toTable.add_waiter fs cls) hi
        (fun w W hlt hW => ⟨W, (hold w hlt).trans hW, rfl, rfl⟩) hsame fs timeout return_when
        (.error e)
      rw [wait_refused hfirst hnone hcard hcreate g hseconds]
      refine ⟨hfinish, Or.inr ⟨_, rfl, fun _ htimeout => ?_⟩⟩
      rw [show timeout = none from htimeout] at hseconds
      cases hseconds
    | ok seconds =>
      have hflag := (Event.event_wait_steady Event.init_steady (g := g) rfl rfl seconds).2.1
      rw [wait_suspends hfirst hnone hcard hcreate g hseconds]
      refine ⟨fun g' c hc hwhen => ?_, Or.inl rfl⟩
      rcases update_some_cases hc with ⟨rfl, rfl⟩ | ⟨_, hc₀⟩
      · -- Case: the new call
        refine ⟨_, Function.update_self _ _ _, ⟨s.pending_count fs, hcls hwhen, ?_⟩, fun hset => ?_⟩
        · exact Nat.le_of_eq (pending_congr (fun f => congrArg State.settled (hsame f).1) fs)
        · exact absurd (hflag.symm.trans hset) Bool.false_ne_true
      · obtain ⟨w, hw, hstops⟩ := hst g' c hc₀ hwhen
        have hlt := (hi.calls g' c nofun hc₀).2
        refine ⟨w, ?_, hstops.congr (fun f => congrArg State.settled (hsame f).1)
          (fun f => (failed_congr (hsame f).1 (hsame f).2).1) rfl rfl⟩
        exact (Function.update_of_ne (Nat.ne_of_lt hlt) _ _).trans ((hold _ hlt).trans hw)

/-- What every step does to the calls for a first exception. -/
theorem step_stops {a : Act α ε} (h : step s a = some s') (hi : Inv s none) (hst : AllStop s) :
    AllStop s' ∧ (Ends s s' ∨ ∃ g fs timeout, a = .wait g fs timeout .FIRST_EXCEPTION ∧
      (s.done fs).Nonempty) := by
  cases a with
  | cancel g future =>
    obtain ⟨_, heq⟩ := Option.ite_none_right_eq_some.1 h
    cases heq
    refine ⟨?_, Or.inl (Or.inl rfl)⟩
    exact hst.congr hi (fun _ _ hc => hc) (fun w W _ hW => ⟨W, hW, rfl, rfl⟩)
      (cancel_quiet s.toTable future).settled (cancel_failed s.toTable future)
  | set_running_or_notify_cancel g future =>
    obtain ⟨⟨hg, _⟩, heq⟩ := Option.ite_none_right_eq_some.1 h
    cases heq
    refine ⟨hst.began hi hg future, Or.inl (Or.inl ?_)⟩
    unfold St.began
    split <;> rfl
  | set_result g future result =>
    obtain ⟨⟨hg, hworker⟩, heq⟩ := Option.ite_none_right_eq_some.1 h
    cases heq
    exact ⟨hst.set_result hi hg hworker result, Or.inl (Or.inl rfl)⟩
  | set_exception g future exception =>
    obtain ⟨⟨hg, hworker⟩, heq⟩ := Option.ite_none_right_eq_some.1 h
    cases heq
    exact ⟨hst.set_exception hi hg hworker exception, Or.inl (Or.inl rfl)⟩
  | wait g fs timeout return_when =>
    obtain ⟨_, heq⟩ := Option.ite_none_right_eq_some.1 h
    cases heq
    by_cases hraises : return_when = .FIRST_EXCEPTION ∧ (s.done fs).Nonempty
    · obtain ⟨rfl, hdone⟩ := hraises
      refine ⟨?_, Or.inr ⟨g, fs, timeout, rfl, hdone⟩⟩
      rw [wait_raises hdone]
      exact hst.finish (t := s.toTable) hi (fun _ W _ hW => ⟨W, hW, rfl, rfl⟩)
        (fun _ => ⟨rfl, rfl⟩) _ _ _ _
    · obtain ⟨hst', hends⟩ := hst.wait (g := g) hi fs timeout return_when hraises
      exact ⟨hst', Or.inl hends⟩
  | turn waiter a =>
    obtain ⟨w, e, hw, hpassive, he, rfl⟩ := turn_cases h
    obtain ⟨_, _, hflag, hturned⟩ := Event.passive_steady (hi.steady waiter w hw) hpassive he
    obtain ⟨hst', hends⟩ := hst.settle hi hw hflag hturned
    exact ⟨hst', Or.inl hends⟩

end Keep

/-! ## Main result -/

/-- What holds between two steps. -/
def Counted (s : St α ε) : Prop := Inv s none ∧ AllStop s

theorem init_counted (futs : Fid → Future α ε) : Counted (St.init futs) :=
  ⟨init_inv futs, nofun⟩

theorem step_counted (s : St α ε) (a : Act α ε) (s' : St α ε) (h : step s a = some s')
    (hs : Counted s) : Counted s' :=
  ⟨(step_inv s a s' h hs.1).1, (step_stops h hs.1 hs.2).1⟩

/-- A step that is allowed does what it is to do. -/
theorem Fresh.meets {s : St α ε} {a : Act α ε} (hs : Counted s) (hfresh : Fresh s a) :
    Meets s a := by
  intro s' h
  constructor
  · intro r hr hstop
    obtain ⟨hwhen, hnone, hne, hnodup⟩ := hstop
    -- the sets of whatever is returned are right
    have hright : Right r ∧ r.moment = fun f => (s'.futs f)._state := by
      rcases (step_inv s a s' h hs.1).2 with heq | ⟨r', heq, hright, hmoment⟩
      · rw [heq, List.self_eq_append_right] at hr
        cases hr
      · rw [heq, List.append_cancel_left_eq, List.singleton_inj] at hr
        exact hr ▸ ⟨hright, hmoment⟩
    rcases (step_stops h hs.1 hs.2).2 with (heq | ⟨r', heq, hfair⟩) | ⟨g, fs, timeout, rfl, hdone⟩
    · rw [heq, List.self_eq_append_right] at hr
      cases hr
    · rw [heq, List.append_cancel_left_eq, List.singleton_inj] at hr
      subst hr
      rcases hfair hwhen hnone with hthrown | ⟨⟨⟨done, not_done⟩, hok⟩, hover⟩
      · exact Or.inl hthrown
      · refine Or.inr ⟨⟨done, not_done, hok, ?_⟩, hover⟩
        have hsets := hright.1.sets done not_done hok
        rwa [hright.2] at hsets
    · -- Case: the call has found a future done
      obtain ⟨_, heq⟩ := Option.ite_none_right_eq_some.1 h
      cases heq
      rw [wait_raises hdone, show (s.finish g fs timeout .FIRST_EXCEPTION _).returned =
        s.returned ++ [_] from rfl, List.append_cancel_left_eq, List.singleton_inj] at hr
      subst hr
      obtain ⟨f, hf⟩ := hdone
      rw [mem_done] at hf
      have hsettled := hfresh g fs (by rw [show timeout = none from hnone]) hne hnodup f hf.1
      rw [hf.2] at hsettled
      cases hsettled
  · rintro g fs rfl hne hnodup ⟨f, hf, hfailed⟩
    have hsettled := hfresh g fs rfl hne hnodup f hf
    rw [failed_settled hfailed] at hsettled
    cases hsettled

/-- In every run, from futures in any states, every call of `wait` for a first
exception is right exactly when all these calls are over futures of which none is
done. -/
theorem first_exception_iff (futs : Fid → Future α ε) (as : List (Act α ε)) (t : St α ε)
    (hrun : run step (St.init futs) as = some t) :
    Steps step Meets (St.init futs) as ↔ Steps step Fresh (St.init futs) as := by
  refine steps_iff (fun s a s' h _ hs => step_counted s a s' h hs) (fun s a s' h hs => ?_)
    (init_counted futs) hrun
  constructor
  · intro hmeets
    rintro g fs rfl hne hnodup f hf
    by_contra hsettled
    rw [Bool.not_eq_false] at hsettled
    have hdone : (s.done fs).Nonempty := ⟨f, mem_done.2 ⟨hf, hsettled⟩⟩
    have hstep := h
    obtain ⟨_, heq⟩ := Option.ite_none_right_eq_some.1 h
    cases heq
    rcases (hmeets _ hstep).1 _ (by rw [wait_raises hdone]; rfl) ⟨rfl, rfl, hne, hnodup⟩ with
      ⟨n, hthrown⟩ | hstopped
    · cases hthrown
    · obtain ⟨_, _, hok, _⟩ := hstopped.sets
      cases hok
  · exact fun hfresh => hfresh.meets hs

/-- A cancelled future, a running one and a pending one. -/
def running_futures (f : Fid) : Future Nat Nat :=
  { Future.new with
    _state := if f = 0 then .CANCELLED else if f = 1 then .RUNNING else .PENDING }

/-- One call is told of a cancelled future, and then that another has failed. -/
theorem first_exception_iff_failed : ∃ t,
    run step (St.init running_futures) [.wait 7 [0, 1, 2] none .FIRST_EXCEPTION,
      .set_running_or_notify_cancel 9 0, .set_exception 9 1 3, .turn 0 (.fire 7),
      .turn 0 (.fire 7)] = some t ∧
    t.returned.map (fun r => r.result.toOption) = [some ({0, 1}, {2})] ∧
    (Steps step Meets (St.init running_futures) [.wait 7 [0, 1, 2] none .FIRST_EXCEPTION,
        .set_running_or_notify_cancel 9 0, .set_exception 9 1 3, .turn 0 (.fire 7),
        .turn 0 (.fire 7)] ↔
      Steps step Fresh (St.init running_futures) [.wait 7 [0, 1, 2] none .FIRST_EXCEPTION,
        .set_running_or_notify_cancel 9 0, .set_exception 9 1 3, .turn 0 (.fire 7),
        .turn 0 (.fire 7)]) := by
  have h : (run step (St.init running_futures) [.wait 7 [0, 1, 2] none .FIRST_EXCEPTION,
      .set_running_or_notify_cancel 9 0, .set_exception 9 1 3, .turn 0 (.fire 7),
      .turn 0 (.fire 7)]).any (fun t =>
        decide (t.returned.map (fun r => r.result.toOption) = [some ({0, 1}, {2})])) = true := by
    decide
  obtain ⟨t, ht, hresults⟩ := run_any h
  rw [decide_eq_true_eq] at hresults
  exact ⟨t, ht, hresults, first_exception_iff running_futures _ t ht⟩

/-- A future that has failed. -/
def failed_future (_ : Fid) : Future Nat Nat :=
  ⟨.FINISHED, false, none, some 3, [], []⟩

/-- A call over a future that has failed raises. -/
theorem failed_future_raises :
    Failed (failed_future 0) ∧
      (run step (St.init failed_future) [.wait 7 [0] none .FIRST_EXCEPTION]).map
          (fun t => t.returned.map fun r => r.result) =
        some [.error (.type_error "'bool' object is not callable")] ∧
      ¬ Steps step Meets (St.init failed_future) [.wait 7 [0] none .FIRST_EXCEPTION] := by
  have hdone : ((St.init failed_future).done [0]).Nonempty := ⟨0, by decide⟩
  refine ⟨⟨rfl, rfl⟩, ?_, fun hmeets => ?_⟩
  · show some ((St.wait (St.init failed_future) 7 [0] none .FIRST_EXCEPTION).returned.map _) = _
    rw [wait_raises hdone]
    rfl
  · have hreturned : (St.wait (St.init failed_future) 7 [0] none .FIRST_EXCEPTION).returned =
        [] ++ [⟨[0], none, .FIRST_EXCEPTION,
          .error (.type_error "'bool' object is not callable"), fun _ => .FINISHED⟩] := by
      rw [wait_raises hdone]
      rfl
    rcases (hmeets.1 _ rfl).1 _ hreturned ⟨rfl, rfl, by decide, by decide⟩ with
      ⟨n, hthrown⟩ | hstopped
    · cases hthrown
    · obtain ⟨_, _, hok, _⟩ := hstopped.sets
      cases hok

end Jega.Futures.Waiting
