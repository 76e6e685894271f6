import Jega.Event.History
import Jega.Futures.Wakeup

/-!
# Jega.Futures.Repeated — `wait` on a list that repeats its futures

A run in which a call has a list with repetitions is followed next to the one in
which it has each future once. The waiter of the call is told of a future as often
as its list names it, and counts as much; so its event is set at the same moments
(`Kin`), and nobody can tell the two runs apart (`Twins`).

But `wait` takes the number of futures that are done for that of the list when it
looks whether all of them are. If they are, and the list repeats one, the waiter
counts nothing and nobody tells it.

The condition of a future is an `RLock`, and a list that repeats the future takes
it as often.

## Main result

* `wait_repeated_iff`: when a call does not block on work that is done, and gives
  what it gives without repetitions.
-/

namespace Jega.Futures.Waiting

open Locks Trace

variable {α ε : Type}

/-! ## The statement -/

/-- What a finished call gave, whatever the list was. -/
def Return.answer (r : Return) :
    Option Int × ReturnWhen × Except Error (Finset Fid × Finset Fid) × (Fid → State) :=
  (r.timeout, r.return_when, r.result, r.moment)

/-- Who is suspended in a call, and what the finished ones gave. -/
def St.seen (s : St α ε) :=
  ((fun g => (s.calls g).isSome : Gid → Bool), s.returned.map Return.answer)

/-- The call does not block on work that is done, and gives what it gives on a list
of the same futures without repetitions, whatever happens after. -/
structure IgnoresRepetitions (s : St α ε) (g : Gid) (fs : List Fid) (timeout : Option Int)
    (return_when : ReturnWhen) : Prop where
  at_once : (∀ f ∈ fs, (s.futs f)._state.settled = true) →
    step s (.wait g fs timeout return_when) =
      some (s.finish g fs timeout return_when (.ok (fs.toFinset, ∅)))
  same : ∀ fs', fs'.Nodup → (∀ f, f ∈ fs' ↔ f ∈ fs) → ∀ as : List (Act α ε),
    (run step s (.wait g fs timeout return_when :: as)).map St.seen =
      (run step s (.wait g fs' timeout return_when :: as)).map St.seen

/-! ## Two runs -/

/-- The calls differ in how often their lists name a future. -/
structure Call.Twin (c c' : Call) : Prop where
  fs : ∀ f, f ∈ c'.fs ↔ f ∈ c.fs
  timeout : c'.timeout = c.timeout
  return_when : c'.return_when = c.return_when
  done : c'.done = c.done
  waiter : c'.waiter = c.waiter

/-- The waiters of two lists of the same futures. -/
inductive Classes (t : Table α ε) (fs fs' : List Fid) : WaiterClass → WaiterClass → Prop where
  | first : Classes t fs fs' ._FirstCompletedWaiter ._FirstCompletedWaiter
  | all : Classes t fs fs' (._AllCompletedWaiter (t.pending_count fs) false)
      (._AllCompletedWaiter (t.pending_count fs') false)

/-- What the waiters know and do is the same. -/
structure Waiter.Twin (v v' : Waiter) : Prop where
  event : Event.Same v.event v'.event
  finished : ∀ f, f ∈ v'.finished_futures ↔ f ∈ v.finished_futures

/-- A waiter in two runs: the same, that of a call with two lists, or that of such
a call which is over. -/
inductive Kin (t t' : Table α ε) (w : Wid) : Prop where
  | same (hw : t'.waiters w = t.waiters w)
    (hcount : ∀ f, (t'.futs f)._waiters.count w = (t.futs f)._waiters.count w)
  | asked {v v' : Waiter} {fs fs' : List Fid} (hw : t.waiters w = some v)
    (hw' : t'.waiters w = some v') (hv : v.Twin v') (hmem : ∀ f, f ∈ fs' ↔ f ∈ fs)
    (hcount : ∀ f, (t.futs f)._waiters.count w = fs.count f)
    (hcount' : ∀ f, (t'.futs f)._waiters.count w = fs'.count f)
    (hcls : Classes t fs fs' v.cls v'.cls)
  | left {v v' : Waiter} (hw : t.waiters w = some v) (hw' : t'.waiters w = some v')
    (hv : v.Twin v') (hcount : ∀ f, (t.futs f)._waiters.count w = 0)
    (hcount' : ∀ f, (t'.futs f)._waiters.count w = 0)

/-- The tables of two runs. -/
structure Paired (t t' : Table α ε) : Prop where
  next : t'.next = t.next
  state : ∀ f, (t'.futs f)._state = (t.futs f)._state
  kin : ∀ w, Kin t t' w

/-- Two runs that nobody can tell apart. -/
structure Twins (s s' : St α ε) : Prop where
  table : Paired s.toTable s'.toTable
  workers : s'.workers = s.workers
  calls : ∀ g, Option.Rel Call.Twin (s.calls g) (s'.calls g)
  returned : s'.returned.map Return.answer = s.returned.map Return.answer

theorem Call.Twin.refl (c : Call) : c.Twin c := ⟨fun _ => Iff.rfl, rfl, rfl, rfl, rfl⟩

theorem Twins.refl (s : St α ε) : Twins s s := by
  refine ⟨⟨rfl, fun _ => rfl, fun w => .same rfl fun _ => rfl⟩, rfl, fun g => ?_, rfl⟩
  cases s.calls g with
  | none => exact .none
  | some c => exact .some (.refl c)

theorem Twins.seen {s s' : St α ε} (h : Twins s s') : s.seen = s'.seen := by
  unfold St.seen
  rw [h.returned]
  congr 1
  funext g
  exact (rel_isSome (h.calls g)).symm

section Table

variable {t t' t₁ t₁' : Table α ε} {w : Wid} {future : Fid} {g : Gid} {add : Waiter → Waiter}

theorem Classes.congr {fs fs' : List Fid} {cls cls' : WaiterClass} (h : Classes t fs fs' cls cls')
    (hsettled : ∀ f, (t₁.futs f)._state.settled = (t.futs f)._state.settled) :
    Classes t₁ fs fs' cls cls' := by
  cases h with
  | first => exact .first
  | all =>
    rw [← pending_congr hsettled fs, ← pending_congr hsettled fs']
    exact .all

/-- Nothing that matters to the waiter has changed. -/
theorem Kin.congr (hk : Kin t t' w) (hw : t₁.waiters w = t.waiters w)
    (hw' : t₁'.waiters w = t'.waiters w)
    (hcount : ∀ f, (t₁.futs f)._waiters.count w = (t.futs f)._waiters.count w)
    (hcount' : ∀ f, (t₁'.futs f)._waiters.count w = (t'.futs f)._waiters.count w)
    (hsettled : ∀ f, (t₁.futs f)._state.settled = (t.futs f)._state.settled) : Kin t₁ t₁' w := by
  cases hk with
  | same hsame hc =>
    refine .same ?_ fun f => ?_
    · rw [hw, hw', hsame]
    · rw [hcount f, hcount' f, hc f]
  | asked hv hv' htwin hmem hc hc' hcls =>
    exact .asked (hw.trans hv) (hw'.trans hv') htwin hmem (fun f => (hcount f).trans (hc f))
      (fun f => (hcount' f).trans (hc' f)) (hcls.congr hsettled)
  | left hv hv' htwin hc hc' =>
    exact .left (hw.trans hv) (hw'.trans hv') htwin (fun f => (hcount f).trans (hc f))
      fun f => (hcount' f).trans (hc' f)

theorem Paired.quiet (hp : Paired t t') (hq : Quiet t t₁) (hq' : Quiet t' t₁')
    (hstate : ∀ f, (t₁'.futs f)._state = (t₁.futs f)._state) : Paired t₁ t₁' := by
  refine ⟨?_, hstate, fun w => (hp.kin w).congr ?_ ?_ (fun f => ?_) (fun f => ?_) hq.settled⟩
  · rw [hq.next, hq'.next, hp.next]
  · rw [hq.waiters]
  · rw [hq'.waiters]
  · rw [hq.lists f]
  · rw [hq'.lists f]

/-- A waiter for the first future is set again each time it is told. -/
theorem Adds.iterate_set (ha : Adds future g add) {v : Waiter} (hs : Event.Steady v.event)
    (hpc : v.event.pc g = .free) (hcls : v.cls = ._FirstCompletedWaiter) (k : Nat) :
    Event.Same (Event.event_set v.event g) (add^[k + 1] v).event := by
  induction k with
  | zero =>
    rw [Function.iterate_one, (ha.first v hcls).2]
    exact .refl _
  | succ k ih =>
    obtain ⟨hm, _⟩ := ha.iterate hs hpc (k + 1)
    obtain ⟨hcls', hflag⟩ := ha.iterate_first hs hpc hcls (k + 1)
    rw [Function.iterate_succ_apply' add (k + 1), (ha.first _ hcls').2]
    refine ih.trans (Event.event_set_again hm.steady ?_ (hflag.2 (Or.inr (Nat.succ_pos k))))
    rw [hm.pc]
    exact hpc

/-- Two waiters of the same futures are told of one of them. -/
theorem Classes.told {v v' : Waiter} {fs fs' : List Fid} (hv : v.Twin v')
    (hmem : ∀ f, f ∈ fs' ↔ f ∈ fs) (hcls : Classes t fs fs' v.cls v'.cls)
    (hs : Settles t t₁ future g) (ha : Adds future g add) (hsteady : Event.Steady v.event)
    (hpc : v.event.pc g = .free) (hsteady' : Event.Steady v'.event)
    (hpc' : v'.event.pc g = .free) :
    (add^[fs.count future] v).Twin (add^[fs'.count future] v') ∧
      Classes t₁ fs fs' (add^[fs.count future] v).cls (add^[fs'.count future] v').cls := by
  have hpos : 0 < fs'.count future ↔ 0 < fs.count future := by
    rw [List.count_pos_iff, List.count_pos_iff, hmem]
  have hfinished := (ha.iterate hsteady hpc (fs.count future)).2
  have hfinished' := (ha.iterate hsteady' hpc' (fs'.count future)).2
  have hknown : ∀ f, f ∈ (add^[fs'.count future] v').finished_futures ↔
      f ∈ (add^[fs.count future] v).finished_futures := by
    intro f
    rw [hfinished, hfinished', List.mem_append, List.mem_append, hv.finished f,
      List.mem_replicate, List.mem_replicate, ← Nat.pos_iff_ne_zero, ← Nat.pos_iff_ne_zero, hpos]
  generalize hc : v.cls = cls, hc' : v'.cls = cls' at hcls
  cases hcls with
  | first =>
    rw [(ha.iterate_first hsteady hpc hc _).1, (ha.iterate_first hsteady' hpc' hc' _).1]
    refine ⟨⟨?_, hknown⟩, .first⟩
    rcases Nat.eq_zero_or_pos (fs.count future) with hzero | hp
    · -- Case: the future is not in the lists
      have hzero' : fs'.count future = 0 := by
        rw [List.count_eq_zero] at hzero ⊢
        rwa [hmem]
      rw [hzero, hzero']
      exact hv.event
    · obtain ⟨k, hk⟩ := Nat.exists_eq_add_one_of_ne_zero hp.ne'
      obtain ⟨k', hk'⟩ := Nat.exists_eq_add_one_of_ne_zero (hpos.2 hp).ne'
      rw [hk, hk']
      exact ((ha.iterate_set hsteady hpc hc k).symm.trans (hv.event.event_set g)).trans
        (ha.iterate_set hsteady' hpc' hc' k')
  | all =>
    rw [pending_settles hs fs] at hc
    rw [pending_settles hs fs'] at hc'
    obtain ⟨hcls, hevent⟩ := iterate_counted ha.all _ hc
    obtain ⟨hcls', hevent'⟩ := iterate_counted ha.all _ hc'
    have hzero : t₁.pending_count fs' = 0 ↔ t₁.pending_count fs = 0 := by
      rw [pending_zero, pending_zero]
      simp only [hmem]
    rw [hcls, hcls']
    refine ⟨⟨?_, hknown⟩, .all⟩
    -- the last future that is settled sets both, once
    rw [hevent, hevent']
    simp only [hpos, hzero]
    split
    · exact hv.event.event_set g
    · exact hv.event

/-- Whoever tells the waiters of a future is outside their events. -/
def Outside (t : Table α ε) (g : Gid) : Prop :=
  ∀ w v, t.waiters w = some v → Event.Steady v.event ∧ v.event.pc g = .free

/-- A future has been settled in both runs, and its waiters were told. -/
theorem Paired.settles (hp : Paired t t') (ha : Adds future g add) (hs : Settles t t₁ future g)
    (hs' : Settles t' t₁' future g)
    (htold : t₁.waiters = tell add (t.futs future)._waiters t.waiters)
    (htold' : t₁'.waiters = tell add (t'.futs future)._waiters t'.waiters)
    (ho : Outside t g) (ho' : Outside t' g)
    (hstate : ∀ f, (t₁'.futs f)._state = (t₁.futs f)._state) : Paired t₁ t₁' := by
  refine ⟨by rw [hs.next, hs'.next, hp.next], hstate, fun w => ?_⟩
  have hw : t₁.waiters w = (t.waiters w).map add^[(t.futs future)._waiters.count w] := by
    rw [htold, tell_eq]
  have hw' : t₁'.waiters w = (t'.waiters w).map add^[(t'.futs future)._waiters.count w] := by
    rw [htold', tell_eq]
  cases hp.kin w with
  | same hsame hc =>
    refine .same ?_ fun f => ?_
    · rw [hw, hw', hsame, hc future]
    · rw [hs.lists f, hs'.lists f, hc f]
  | @asked v v' fs fs' hv hv' htwin hmem hc hc' hcls =>
    obtain ⟨hsteady, hpc⟩ := ho w v hv
    obtain ⟨hsteady', hpc'⟩ := ho' w v' hv'
    obtain ⟨htwin₁, hcls₁⟩ := hcls.told htwin hmem hs ha hsteady hpc hsteady' hpc'
    rw [hv, hc future] at hw
    rw [hv', hc' future] at hw'
    refine .asked hw hw' htwin₁ hmem (fun f => ?_) (fun f => ?_) hcls₁
    · rw [hs.lists f, hc f]
    · rw [hs'.lists f, hc' f]
  | left hv hv' htwin hc hc' =>
    rw [hv, hc future] at hw
    rw [hv', hc' future] at hw'
    refine .left hw hw' htwin (fun f => ?_) fun f => ?_
    · rw [hs.lists f, hc f]
    · rw [hs'.lists f, hc' f]

/-- The futures differ in their lists of waiters, and one of them is changed. -/
theorem Paired.update_state (hp : Paired t t') {f₁ f₁' : Future α ε}
    (h : f₁'._state = f₁._state) (f : Fid) :
    (Function.update t'.futs future f₁' f)._state = (Function.update t.futs future f₁ f)._state := by
  rcases eq_or_ne f future with rfl | hne
  · rw [Function.update_self, Function.update_self]
    exact h
  · rw [Function.update_of_ne hne, Function.update_of_ne hne]
    exact hp.state f

theorem Paired.cancel (hp : Paired t t') (future : Fid) :
    Paired (t.cancel future) (t'.cancel future) := by
  refine hp.quiet (cancel_quiet t future) (cancel_quiet t' future) (hp.update_state ?_)
  have hstate := hp.state future
  unfold Future.cancel
  rw [hstate]
  split
  · exact hstate
  · exact hstate
  · exact hstate
  · exact hstate
  · rfl

theorem Paired.set_result (hp : Paired t t') (ho : Outside t g) (ho' : Outside t' g)
    (hb : (t.futs future)._state.settled = false) (result : Option α) :
    Paired (t.set_result future result g) (t'.set_result future result g) :=
  hp.settles (adds_result future g) (set_result_settles hb result)
    (set_result_settles (by rw [hp.state future, hb]) result) rfl rfl ho ho'
    (hp.update_state rfl)

theorem Paired.set_exception (hp : Paired t t') (ho : Outside t g) (ho' : Outside t' g)
    (hb : (t.futs future)._state.settled = false) (exception : ε) :
    Paired (t.set_exception future exception g) (t'.set_exception future exception g) :=
  hp.settles (adds_exception future g) (set_exception_settles hb exception)
    (set_exception_settles (by rw [hp.state future, hb]) exception) rfl rfl ho ho'
    (hp.update_state rfl)

/-- The waiter of a call leaves the lists of both. -/
theorem Paired.uninstall (hp : Paired t t') {fs fs' : List Fid}
    (hcount : ∀ f, (t.futs f)._waiters.count w = fs.count f)
    (hcount' : ∀ f, (t'.futs f)._waiters.count w = fs'.count f) :
    (uninstall w fs t.futs).2 = true ∧ (uninstall w fs' t'.futs).2 = true ∧
      Paired { t with futs := (uninstall w fs t.futs).1 }
        { t' with futs := (uninstall w fs' t'.futs).1 } := by
  obtain ⟨hall, hrest⟩ := uninstall_eq fun f => (hcount f).ge
  obtain ⟨hall', hrest'⟩ := uninstall_eq fun f => (hcount' f).ge
  have hzero : ∀ f, ((Waiting.uninstall w fs t.futs).1 f)._waiters.count w = 0 := by
    intro f
    have hleft := uninstall_count hall f
    rw [hcount f] at hleft
    omega
  have hzero' : ∀ f, ((Waiting.uninstall w fs' t'.futs).1 f)._waiters.count w = 0 := by
    intro f
    have hleft := uninstall_count hall' f
    rw [hcount' f] at hleft
    omega
  refine ⟨hall, hall', hp.next, fun f => ?_, fun v => ?_⟩
  · rw [(hrest f).1, (hrest' f).1]
    exact hp.state f
  · rcases eq_or_ne v w with rfl | hne
    · cases hp.kin v with
      | same hsame _ => exact .same hsame fun f => (hzero' f).trans (hzero f).symm
      | asked hv hv' htwin _ _ _ _ => exact .left hv hv' htwin hzero hzero'
      | left hv hv' htwin _ _ => exact .left hv hv' htwin hzero hzero'
    · refine (hp.kin v).congr rfl rfl (fun f => (hrest f).2 v hne) (fun f => (hrest' f).2 v hne) ?_
      exact fun f => congrArg State.settled (hrest f).1

theorem Kin.finished (hk : Kin t t' w) : finished_of (t'.waiters w) = finished_of (t.waiters w) := by
  cases hk with
  | same hw _ => rw [hw]
  | asked hw hw' hv _ _ _ _ =>
    rw [hw, hw']
    ext f
    simpa [finished_of] using hv.finished f
  | left hw hw' hv _ _ =>
    rw [hw, hw']
    ext f
    simpa [finished_of] using hv.finished f

/-- A waiter is there in both, and so is its event. -/
theorem Kin.event (hk : Kin t t' w) :
    Option.Rel (fun v v' => Event.Same v.event v'.event) (t.waiters w) (t'.waiters w) := by
  cases hk with
  | same hw _ =>
    rw [hw]
    cases t.waiters w with
    | none => exact .none
    | some v => exact .some (.refl _)
  | asked hw hw' hv _ _ _ _ =>
    rw [hw, hw']
    exact .some hv.event
  | left hw hw' hv _ _ =>
    rw [hw, hw']
    exact .some hv.event

/-- The event of a waiter has moved in both. -/
theorem Paired.moved (hp : Paired t t') {v v' : Waiter} (hv : t.waiters w = some v)
    (hv' : t'.waiters w = some v') {e e' : Event.St} (he : Event.Same e e')
    (hsame : v' = v → e' = e) :
    Paired { t with waiters := Function.update t.waiters w (some { v with event := e }) }
      { t' with waiters := Function.update t'.waiters w (some { v' with event := e' }) } := by
  refine ⟨hp.next, hp.state, fun w' => ?_⟩
  rcases eq_or_ne w' w with rfl | hne
  · cases hp.kin w' with
    | same hw hc =>
      have hvv : v' = v := by
        rw [hv, hv', Option.some.injEq] at hw
        exact hw
      refine .same ?_ hc
      show Function.update t'.waiters w' _ w' = Function.update t.waiters w' _ w'
      rw [Function.update_self, Function.update_self, hsame hvv, hvv]
    | asked hw hw' htwin hmem hc hc' hcls =>
      rw [hv, Option.some.injEq] at hw
      rw [hv', Option.some.injEq] at hw'
      subst hw hw'
      exact .asked (Function.update_self _ _ _) (Function.update_self _ _ _)
        ⟨he, htwin.finished⟩ hmem hc hc' (hcls.congr fun _ => rfl)
    | left hw hw' htwin hc hc' =>
      rw [hv, Option.some.injEq] at hw
      rw [hv', Option.some.injEq] at hw'
      subst hw hw'
      exact .left (Function.update_self _ _ _) (Function.update_self _ _ _)
        ⟨he, htwin.finished⟩ hc hc'
  · exact (hp.kin w').congr (Function.update_of_ne hne _ _) (Function.update_of_ne hne _ _)
      (fun _ => rfl) (fun _ => rfl) fun _ => rfl

/-- Two lists of the same futures, and the waiters of their calls. -/
def Asking (t : Table α ε) (fs fs' : List Fid) (cls cls' : WaiterClass) : Prop :=
  (fs' = fs ∧ cls' = cls) ∨ ((∀ f, f ∈ fs' ↔ f ∈ fs) ∧ Classes t fs fs' cls cls')

theorem add_waiter_count (t : Table α ε) (fs : List Fid) (cls : WaiterClass) (f : Fid) (w : Wid) :
    ((t.add_waiter fs cls).futs f)._waiters.count w =
      (t.futs f)._waiters.count w + if w = t.next then fs.count f else 0 := by
  rw [add_waiter_futs, List.count_append]
  congr 1
  rcases eq_or_ne w t.next with rfl | hne
  · rw [List.count_replicate_self, if_pos rfl]
  · rw [if_neg hne, List.count_eq_zero]
    intro hmem
    exact hne (List.eq_of_mem_replicate hmem)

theorem Paired.add_waiter (hp : Paired t t') (hnew : ∀ f, (t.futs f)._waiters.count t.next = 0)
    (hnew' : ∀ f, (t'.futs f)._waiters.count t'.next = 0) {fs fs' : List Fid}
    {cls cls' : WaiterClass} (h : Asking t fs fs' cls cls') :
    Paired (t.add_waiter fs cls) (t'.add_waiter fs' cls') := by
  have hstate : ∀ f, ((t.add_waiter fs cls).futs f)._state.settled = (t.futs f)._state.settled :=
    fun f => congrArg State.settled (add_waiter_state t fs cls f)
  refine ⟨congrArg (· + 1) hp.next, fun f => ?_, fun w => ?_⟩
  · rw [add_waiter_state, add_waiter_state, hp.state]
  have hcount := fun f => add_waiter_count t fs cls f w
  have hcount' := fun f => add_waiter_count t' fs' cls' f w
  rcases eq_or_ne w t.next with rfl | hne
  · -- Case: the new waiter
    have hw : (t.add_waiter fs cls).waiters t.next = some (.new cls) := Function.update_self _ _ _
    have hw' : (t'.add_waiter fs' cls').waiters t.next = some (.new cls') := by
      rw [← hp.next]
      exact Function.update_self _ _ _
    rw [← hp.next] at hcount'
    simp only [if_true, hnew', Nat.zero_add] at hcount'
    simp only [if_true, hnew, Nat.zero_add] at hcount
    rcases h with ⟨rfl, rfl⟩ | ⟨hmem, hcls⟩
    · refine .same (hw'.trans hw.symm) fun f => ?_
      rw [hcount f, ← hp.next, hcount' f]
    · refine .asked hw hw' ⟨.refl _, fun _ => Iff.rfl⟩ hmem hcount (fun f => ?_)
        (hcls.congr hstate)
      rw [← hp.next, hcount' f]
  · have hne' : w ≠ t'.next := by
      rw [hp.next]
      exact hne
    simp only [if_neg hne, Nat.add_zero] at hcount
    simp only [if_neg hne', Nat.add_zero] at hcount'
    exact (hp.kin w).congr (Function.update_of_ne hne _ _) (Function.update_of_ne hne' _ _) hcount
      hcount' hstate

/-- The waiters that two calls create, if their condition is one. -/
theorem Paired.create (hp : Paired t t') {fs fs' : List Fid} (hmem : ∀ f, f ∈ fs' ↔ f ∈ fs)
    {return_when : ReturnWhen}
    (h : fs' = fs ∨ return_when = .ALL_COMPLETED ∨ return_when = .FIRST_COMPLETED) :
    (∃ e, t._create_and_install_waiters fs return_when = .error e ∧
        t'._create_and_install_waiters fs' return_when = .error e) ∨
      ∃ cls cls', t._create_and_install_waiters fs return_when = .ok (t.add_waiter fs cls, t.next) ∧
        t'._create_and_install_waiters fs' return_when =
          .ok (t'.add_waiter fs' cls', t'.next) ∧ Asking t fs fs' cls cls' := by
  have hpending : ∀ fs, t'.pending_count fs = t.pending_count fs :=
    pending_congr fun f => congrArg State.settled (hp.state f)
  cases return_when with
  | ALL_COMPLETED =>
    refine Or.inr ⟨_, _, rfl, rfl, Or.inr ⟨hmem, ?_⟩⟩
    rw [hpending]
    exact .all
  | FIRST_COMPLETED => exact Or.inr ⟨_, _, rfl, rfl, Or.inr ⟨hmem, .first⟩⟩
  | FIRST_EXCEPTION =>
    rcases h with rfl | h | h
    · refine Or.inr ⟨_, _, rfl, rfl, Or.inl ⟨rfl, ?_⟩⟩
      rw [hpending]
    · cases h
    · cases h
  | _AS_COMPLETED =>
    rcases h with rfl | h | h
    · exact Or.inr ⟨_, _, rfl, rfl, Or.inl ⟨rfl, rfl⟩⟩
    · cases h
    · cases h
  | other repr => exact Or.inl ⟨_, rfl, rfl⟩

theorem Paired.done (hp : Paired t t') {fs fs' : List Fid} (hmem : ∀ f, f ∈ fs' ↔ f ∈ fs) :
    t'.done fs' = t.done fs := by
  ext f
  rw [mem_done, mem_done, hmem f, hp.state f]

end Table

/-! ## The steps of both -/

section Steps

variable {s s' : St α ε} {g : Gid}

theorem Inv.outside_all (hi : Inv s none) (hg : s.calls g = none) : Outside s.toTable g :=
  fun w v hv => ⟨hi.steady w v hv, (hi.enter hg).outside hv⟩

theorem Twins.began (ht : Twins s s') (ho : Outside s.toTable g) (ho' : Outside s'.toTable g)
    (future : Fid) :
    Twins (s.began future (s.toTable.set_running_or_notify_cancel future g))
      (s'.began future (s'.toTable.set_running_or_notify_cancel future g)) := by
  have hstate := ht.table.state future
  have hworkers : ∀ worker, Function.update s'.workers future worker =
      Function.update s.workers future worker := fun worker => by rw [ht.workers]
  unfold Table.set_running_or_notify_cancel Future.set_running_or_notify_cancel
  rw [hstate]
  cases hold : (s.futs future)._state with
  | PENDING =>
    refine ⟨ht.table.quiet ?_ ?_ (ht.table.update_state rfl), hworkers _, ht.calls, ht.returned⟩
    · exact quiet_put (congrArg State.settled hold).symm rfl
    · exact quiet_put (congrArg State.settled (hstate.trans hold)).symm rfl
  | CANCELLED =>
    refine ⟨?_, hworkers _, ht.calls, ht.returned⟩
    refine ht.table.settles (adds_cancelled future g) ?_ ?_ rfl rfl ho ho'
      (ht.table.update_state rfl)
    · exact settles_put (adds_cancelled future g) (congrArg State.settled hold) rfl rfl
    · exact settles_put (adds_cancelled future g) (congrArg State.settled (hstate.trans hold)) rfl
        rfl
  | RUNNING => exact ⟨ht.table, hworkers _, ht.calls, ht.returned⟩
  | CANCELLED_AND_NOTIFIED => exact ⟨ht.table, hworkers _, ht.calls, ht.returned⟩
  | FINISHED => exact ⟨ht.table, hworkers _, ht.calls, ht.returned⟩

/-- A call ends in both runs. -/
theorem Twins.finish (ht : Twins s s') (g : Gid) (fs fs' : List Fid) (timeout : Option Int)
    (return_when : ReturnWhen) (result : Except Error (Finset Fid × Finset Fid)) :
    Twins (s.finish g fs timeout return_when result)
      (s'.finish g fs' timeout return_when result) := by
  have hmoment : (fun f => (s'.futs f)._state) = fun f => (s.futs f)._state :=
    funext ht.table.state
  refine ⟨ht.table, ht.workers, fun g' => ?_, ?_⟩
  · show Option.Rel Call.Twin (Function.update s.calls g none g') (Function.update s'.calls g none g')
    rcases eq_or_ne g' g with rfl | hne
    · rw [Function.update_self, Function.update_self]
      exact .none
    · rw [Function.update_of_ne hne, Function.update_of_ne hne]
      exact ht.calls g'
  · simp only [St.finish, List.map_append, ht.returned, hmoment]
    rfl

/-- The calls go on, and leave the lists. -/
theorem Twins.waited (ht : Twins s s') {c c' : Call} (hc : c.Twin c')
    (hcount : ∀ f, (s.futs f)._waiters.count c.waiter = c.fs.count f)
    (hcount' : ∀ f, (s'.futs f)._waiters.count c'.waiter = c'.fs.count f) (g : Gid)
    (res : Event.Result) : Twins (s.waited g c res) (s'.waited g c' res) := by
  by_cases hnull : ∃ e, res = .outcome (.NULL e)
  · obtain ⟨e, rfl⟩ := hnull
    show Twins (s.finish g c.fs c.timeout c.return_when (.error (.thrown e)))
      (s'.finish g c'.fs c'.timeout c'.return_when (.error (.thrown e)))
    rw [hc.timeout, hc.return_when]
    exact ht.finish g _ _ _ _ _
  · rw [hc.waiter] at hcount'
    obtain ⟨hall, hall', hp⟩ := ht.table.uninstall hcount hcount'
    have hall'' : (uninstall c'.waiter c'.fs s'.futs).2 = true := by
      rw [hc.waiter]
      exact hall'
    have hres : ∀ e, res ≠ .outcome (.NULL e) := fun e he => hnull ⟨e, he⟩
    have hfs : c'.fs.toFinset = c.fs.toFinset := by
      ext f
      rw [List.mem_toFinset, List.mem_toFinset, hc.fs f]
    have hnow : Twins { s with futs := (uninstall c.waiter c.fs s.futs).1 }
        { s' with futs := (uninstall c.waiter c'.fs s'.futs).1 } :=
      ⟨hp, ht.workers, ht.calls, ht.returned⟩
    rw [waited_uninstalls hall hres, waited_uninstalls hall'' hres, hc.waiter, hc.done, hc.timeout,
      hc.return_when, hfs, (ht.table.kin c.waiter).finished]
    exact hnow.finish g _ _ _ _ _

theorem Inv.installed (hi : Inv s none) {c : Call} (hc : s.calls g = some c) (f : Fid) :
    (s.futs f)._waiters.count c.waiter = c.fs.count f := by
  obtain ⟨⟨_, _, htracks, _⟩, _⟩ := hi.calls g c nofun hc
  exact htracks.installed f

/-- The loop turns in both. -/
theorem Twins.settle (ht : Twins s s') (hi : Inv s none) (hi' : Inv s' none) {w : Wid}
    {v v' : Waiter} (hv : s.waiters w = some v) (hv' : s'.waiters w = some v')
    (hevent : Event.Same v.event v'.event) {e e' : Event.St} (he : Event.Same e e')
    (hsame : v' = v → e' = e) : Twins (s.settle w v e) (s'.settle w v' e') := by
  have hmoved : Twins
      { s with waiters := Function.update s.waiters w (some { v with event := e }) }
      { s' with waiters := Function.update s'.waiters w (some { v' with event := e' }) } :=
    ⟨ht.table.moved hv hv' he hsame, ht.workers, ht.calls, ht.returned⟩
  unfold St.settle
  dsimp only
  rw [he.ended, hevent.ended]
  split
  · exact hmoved
  next g res _ _ =>
    rcases rel_cases (ht.calls g) with ⟨hnone, hnone'⟩ | ⟨c, c', hc, hc', htwin⟩
    · rw [hnone, hnone']
      exact hmoved
    · rw [hc, hc']
      exact hmoved.waited htwin (hi.installed hc) (hi'.installed hc') g res

/-- No list has the next waiter yet. -/
theorem Inv.new (hi : Inv s none) (f : Fid) : (s.futs f)._waiters.count s.next = 0 := by
  rw [List.count_eq_zero]
  intro hmem
  exact absurd (hi.lists f _ hmem) (Nat.lt_irrefl _)

/-- A greenlet suspends in both. -/
theorem Twins.park (ht : Twins s s') {t t' : Table α ε} (hp : Paired t t') {w : Wid}
    {v v' : Waiter} (hv : t.waiters w = some v) (hv' : t'.waiters w = some v') (e : Event.St)
    {c c' : Call} (hc : c.Twin c') (g : Gid) :
    Twins
      { s with
        toTable := { t with waiters := Function.update t.waiters w (some { v with event := e }) }
        calls := Function.update s.calls g (some c) }
      { s' with
        toTable := { t' with waiters := Function.update t'.waiters w (some { v' with event := e }) }
        calls := Function.update s'.calls g (some c') } := by
  refine ⟨hp.moved hv hv' (.refl e) fun _ => rfl, ht.workers, fun g' => ?_, ht.returned⟩
  show Option.Rel Call.Twin (Function.update s.calls g _ g') (Function.update s'.calls g _ g')
  rcases eq_or_ne g' g with rfl | hne
  · rw [Function.update_self, Function.update_self]
    exact .some hc
  · rw [Function.update_of_ne hne, Function.update_of_ne hne]
    exact ht.calls g'

/-- Two calls on the same futures, if both or none of them find all done. -/
theorem Twins.wait (ht : Twins s s') (hi : Inv s none) (hi' : Inv s' none) {fs fs' : List Fid}
    (hmem : ∀ f, f ∈ fs' ↔ f ∈ fs) {return_when : ReturnWhen}
    (hwhen : fs' = fs ∨ return_when = .ALL_COMPLETED ∨ return_when = .FIRST_COMPLETED)
    (hcard : (return_when = .FIRST_COMPLETED ∧ (s.done fs).Nonempty) ∨
      ((s.done fs).card = fs'.length ↔ (s.done fs).card = fs.length))
    (g : Gid) (timeout : Option Int) :
    Twins (s.wait g fs timeout return_when) (s'.wait g fs' timeout return_when) := by
  have hdone : s'.done fs' = s.done fs := ht.table.done hmem
  have hfs : fs'.toFinset = fs.toFinset := by
    ext f
    rw [List.mem_toFinset, List.mem_toFinset, hmem f]
  by_cases hexc : return_when = .FIRST_EXCEPTION ∧ (s.done fs).Nonempty
  · obtain ⟨rfl, hsome⟩ := hexc
    have hsome' : (s'.done fs').Nonempty := by rwa [hdone]
    rw [wait_raises hsome, wait_raises hsome']
    exact ht.finish g _ _ _ _ _
  have hexc' : ¬ (return_when = .FIRST_EXCEPTION ∧ (s'.done fs').Nonempty) := by rwa [hdone]
  by_cases hnow : (return_when = .FIRST_COMPLETED ∧ (s.done fs).Nonempty) ∨
      (s.done fs).card = fs.length
  · -- Case: neither suspends
    have hnow' : (return_when = .FIRST_COMPLETED ∧ (s'.done fs').Nonempty) ∨
        (s'.done fs').card = fs'.length := by
      rw [hdone]
      rcases hcard with hfirst | hiff
      · exact Or.inl hfirst
      · exact hnow.imp_right hiff.2
    rw [wait_now hexc hnow, wait_now hexc' hnow', hdone, hfs]
    exact ht.finish g _ _ _ _ _
  · obtain ⟨hfirst, hless⟩ := not_or.1 hnow
    have hfirst' : ¬ (return_when = .FIRST_COMPLETED ∧ (s'.done fs').Nonempty) := by rwa [hdone]
    have hless' : (s'.done fs').card ≠ fs'.length := by
      rw [hdone]
      exact fun h => hless ((hcard.resolve_left hfirst).1 h)
    rcases ht.table.create hmem hwhen with
      ⟨e, hcreate, hcreate'⟩ | ⟨cls, cls', hcreate, hcreate', hasking⟩
    · rw [wait_unknown hfirst hexc hless hcreate, wait_unknown hfirst' hexc' hless' hcreate']
      exact ht.finish g _ _ _ _ _
    · have hp := ht.table.add_waiter hi.new hi'.new hasking
      have hnext := ht.table.next
      cases hseconds : event_seconds timeout with
      | error e =>
        have hboth : Twins { s with toTable := s.toTable.add_waiter fs cls }
            { s' with toTable := s'.toTable.add_waiter fs' cls' } :=
          ⟨hp, ht.workers, ht.calls, ht.returned⟩
        rw [wait_refused hfirst hexc hless hcreate g hseconds,
          wait_refused hfirst' hexc' hless' hcreate' g hseconds]
        exact hboth.finish g _ _ _ _ _
      | ok seconds =>
        have hnew : (s.toTable.add_waiter fs cls).waiters s.next = some (.new cls) :=
          Function.update_self _ _ _
        have hnew' : (s'.toTable.add_waiter fs' cls').waiters s.next = some (.new cls') := by
          rw [← hnext]
          exact Function.update_self _ _ _
        have htwin : Call.Twin ⟨fs, timeout, return_when, s.done fs, s.next⟩
            ⟨fs', timeout, return_when, s.done fs, s.next⟩ := ⟨hmem, rfl, rfl, rfl, rfl⟩
        have hwait' := wait_suspends hfirst' hexc' hless' hcreate' g hseconds
        rw [hnext, hdone] at hwait'
        rw [wait_suspends hfirst hexc hless hcreate g hseconds, hwait']
        exact ht.park hp hnew hnew' _ htwin g

theorem Twins.idle (ht : Twins s s') (g : Gid) : s'.calls g = none ↔ s.calls g = none := by
  rw [← Option.isNone_iff_eq_none, ← Option.isNone_iff_eq_none, ← Option.not_isSome,
    ← Option.not_isSome, rel_isSome (ht.calls g)]

theorem Twins.step (ht : Twins s s') (hi : Inv s none) (hi' : Inv s' none) (a : Act α ε) :
    Option.Rel Twins (step s a) (step s' a) := by
  have houtside : ∀ {g}, s.calls g = none → Outside s.toTable g ∧ Outside s'.toTable g :=
    fun hg => ⟨hi.outside_all hg, hi'.outside_all ((ht.idle _).2 hg)⟩
  cases a with
  | cancel g future =>
    simp only [Waiting.step, ht.idle g]
    split
    · exact .some ⟨ht.table.cancel future, ht.workers, ht.calls, ht.returned⟩
    · exact .none
  | set_running_or_notify_cancel g future =>
    simp only [Waiting.step, ht.idle g, ht.workers]
    split
    next hg =>
      obtain ⟨ho, ho'⟩ := houtside hg.1
      exact .some (ht.began ho ho' future)
    · exact .none
  | set_result g future result =>
    simp only [Waiting.step, ht.idle g, ht.workers]
    split
    next hg =>
      obtain ⟨ho, ho'⟩ := houtside hg.1
      refine .some ⟨ht.table.set_result ho ho' (hi.unsettled hg.2) result, ?_, ht.calls,
        ht.returned⟩
      exact congrArg (Function.update · future Worker.ended) ht.workers
    · exact .none
  | set_exception g future exception =>
    simp only [Waiting.step, ht.idle g, ht.workers]
    split
    next hg =>
      obtain ⟨ho, ho'⟩ := houtside hg.1
      refine .some ⟨ht.table.set_exception ho ho' (hi.unsettled hg.2) exception, ?_, ht.calls,
        ht.returned⟩
      exact congrArg (Function.update · future Worker.ended) ht.workers
    · exact .none
  | wait g fs timeout return_when =>
    simp only [Waiting.step, ht.idle g]
    split
    · exact .some (ht.wait hi hi' (fun _ => Iff.rfl) (Or.inl rfl) (Or.inr Iff.rfl) g timeout)
    · exact .none
  | turn waiter a =>
    simp only [Waiting.step]
    rcases rel_cases (ht.table.kin waiter).event with ⟨hv, hv'⟩ | ⟨v, v', hv, hv', hevent⟩
    · rw [hv, hv']
      exact .none
    · rw [hv, hv']
      dsimp only
      split
      · rcases rel_cases (hevent.step a) with ⟨he, he'⟩ | ⟨e, e', he, he', hsame⟩
        · rw [he, he']
          exact .none
        · rw [he, he']
          refine .some (ht.settle hi hi' hv hv' hevent hsame fun hvv => ?_)
          rw [hvv, he, Option.some.injEq] at he'
          exact he'.symm
      · exact .none

end Steps

/-! ## Runs -/

/-- Two runs between two steps. -/
def Together (s s' : St α ε) : Prop := Twins s s' ∧ Inv s none ∧ Inv s' none

theorem step_together (s s' : St α ε) (a : Act α ε) (h : Together s s') :
    Option.Rel Together (step s a) (step s' a) := by
  obtain ⟨ht, hi, hi'⟩ := h
  rcases rel_cases (ht.step hi hi' a) with ⟨hn, hn'⟩ | ⟨t, t', hs, hs', htwins⟩
  · rw [hn, hn']
    exact .none
  · rw [hs, hs']
    exact .some ⟨htwins, (step_inv s a t hs hi).1, (step_inv s' a t' hs' hi').1⟩

/-- Nobody can tell the runs apart. -/
theorem Together.seen {s s' : St α ε} (h : Together s s') (as : List (Act α ε)) :
    (run step s as).map St.seen = (run step s' as).map St.seen := by
  rcases rel_cases (run_lockstep step_together h as) with ⟨hn, hn'⟩ | ⟨t, t', ht, ht', htwins⟩
  · rw [hn, hn']
  · rw [ht, ht']
    exact congrArg some htwins.1.seen

section Lists

variable {t : Table α ε} {fs fs' : List Fid}

theorem done_all (h : ∀ f ∈ fs, (t.futs f)._state.settled = true) : t.done fs = fs.toFinset := by
  ext f
  rw [mem_done, List.mem_toFinset, and_iff_left_of_imp (h f)]

/-- Some future is not done, and the number of those that are tells. -/
theorem done_card_lt {f : Fid} (hf : f ∈ fs) (h : (t.futs f)._state.settled = false) :
    (t.done fs).card < fs.toFinset.card := by
  refine Finset.card_lt_card ⟨done_subset t fs, fun hsub => ?_⟩
  have hdone := (mem_done.1 (hsub (List.mem_toFinset.2 hf))).2
  rw [h] at hdone
  cases hdone

/-- The tests of both calls whether all futures are done. -/
theorem card_iff (hnodup : fs'.Nodup) (hmem : ∀ f, f ∈ fs' ↔ f ∈ fs)
    (h : t.done fs = ∅ ∨ fs.Nodup ∨ ∃ f ∈ fs, (t.futs f)._state.settled = false) :
    (t.done fs).card = fs'.length ↔ (t.done fs).card = fs.length := by
  have hfs : fs'.length = fs.toFinset.card := by
    rw [← List.toFinset_card_of_nodup hnodup]
    congr 1
    ext f
    rw [List.mem_toFinset, List.mem_toFinset, hmem f]
  rcases h with hempty | hfs' | ⟨f, hf, hunsettled⟩
  · rw [hfs, hempty, Finset.card_empty, eq_comm, Finset.card_eq_zero, List.toFinset_eq_empty_iff,
      ← List.length_eq_zero_iff]
    exact eq_comm
  · rw [hfs, List.toFinset_card_of_nodup hfs']
  · have hlt := done_card_lt hf hunsettled
    have hle := fs.toFinset_card_le
    constructor
    · omega
    · omega

end Lists

section Calls

variable {s : St α ε} {g : Gid} {fs : List Fid} {return_when : ReturnWhen}

theorem no_exception (t : Table α ε) (fs : List Fid)
    (hwhen : return_when = .ALL_COMPLETED ∨ return_when = .FIRST_COMPLETED) :
    ¬ (return_when = .FIRST_EXCEPTION ∧ (t.done fs).Nonempty) := by
  rintro ⟨rfl, _⟩
  rcases hwhen with h | h
  · cases h
  · cases h

/-- A call that finds all futures done, on a list that does not repeat any or for
the first of them. -/
theorem wait_at_once (hwhen : return_when = .ALL_COMPLETED ∨ return_when = .FIRST_COMPLETED)
    (hok : return_when = .FIRST_COMPLETED ∨ fs.Nodup)
    (hsettled : ∀ f ∈ fs, (s.futs f)._state.settled = true) (timeout : Option Int) :
    s.wait g fs timeout return_when =
      s.finish g fs timeout return_when (.ok (fs.toFinset, ∅)) := by
  have hdone : s.done fs = fs.toFinset := done_all hsettled
  have hnow : (return_when = .FIRST_COMPLETED ∧ (s.done fs).Nonempty) ∨
      (s.done fs).card = fs.length := by
    rcases hok with hfirst | hnodup
    · rcases (s.done fs).eq_empty_or_nonempty with hempty | hsome
      · -- Case: there is no future in the list
        rw [hdone, List.toFinset_eq_empty_iff] at hempty
        subst hempty
        exact Or.inr rfl
      · exact Or.inl ⟨hfirst, hsome⟩
    · right
      rw [hdone, List.toFinset_card_of_nodup hnodup]
  rw [wait_now (no_exception s.toTable fs hwhen) hnow, hdone, Finset.sdiff_self]

/-- The waiter of a list that repeats a future counts nothing, and the call does
not return what it found. -/
theorem wait_stuck (hrepeats : ¬ fs.Nodup)
    (hsettled : ∀ f ∈ fs, (s.futs f)._state.settled = true) (timeout : Option Int)
    (r : Finset Fid × Finset Fid) :
    s.wait g fs timeout .ALL_COMPLETED ≠ s.finish g fs timeout .ALL_COMPLETED (.ok r) := by
  intro heq
  have hreturned := congrArg St.returned heq
  have hcard : (s.done fs).card ≠ fs.length := by
    rw [done_all hsettled]
    intro hlength
    exact hrepeats (Multiset.toFinset_card_eq_card_iff_nodup.1 hlength)
  have hfirst : ¬ (ReturnWhen.ALL_COMPLETED = .FIRST_COMPLETED ∧ (s.done fs).Nonempty) :=
    fun h => nomatch h.1
  have hexc := no_exception s.toTable fs (Or.inl (rfl : ReturnWhen.ALL_COMPLETED = _))
  cases hseconds : event_seconds timeout with
  | error e =>
    rw [wait_refused hfirst hexc hcard rfl g hseconds] at hreturned
    have hlast := List.append_cancel_left hreturned
    cases hlast
  | ok seconds =>
    rw [wait_suspends hfirst hexc hcard rfl g hseconds] at hreturned
    have hlength := congrArg List.length hreturned
    simp [St.finish] at hlength

/-- Repetitions make no difference to a call that waits, or for the first future. -/
theorem wait_same (hi : Inv s none) {fs' : List Fid} (hnodup : fs'.Nodup)
    (hmem : ∀ f, f ∈ fs' ↔ f ∈ fs)
    (hwhen : return_when = .ALL_COMPLETED ∨ return_when = .FIRST_COMPLETED)
    (hok : return_when = .FIRST_COMPLETED ∨ fs.Nodup ∨
      ∃ f ∈ fs, (s.futs f)._state.settled = false) (g : Gid) (timeout : Option Int) :
    Twins (s.wait g fs timeout return_when) (s.wait g fs' timeout return_when) := by
  refine (Twins.refl s).wait hi hi hmem (Or.inr hwhen) ?_ g timeout
  rcases hok with hfirst | hok
  · rcases (s.done fs).eq_empty_or_nonempty with hempty | hsome
    · exact Or.inr (card_iff hnodup hmem (Or.inl hempty))
    · exact Or.inl ⟨hfirst, hsome⟩
  · exact Or.inr (card_iff hnodup hmem (Or.inr hok))

end Calls

/-- When a call does not block on work that is done, and gives what it gives
without repetitions: always if it is for the first future, and for all of them if
the list has no repetitions or some future is not done. -/
theorem wait_repeated_iff (futs : Fid → Future α ε) (as : List (Act α ε)) (s : St α ε)
    (h : run step (St.init futs) as = some s) (g : Gid) (hg : s.calls g = none) (fs : List Fid)
    (timeout : Option Int) (return_when : ReturnWhen)
    (hwhen : return_when = .ALL_COMPLETED ∨ return_when = .FIRST_COMPLETED) :
    IgnoresRepetitions s g fs timeout return_when ↔
      return_when = .FIRST_COMPLETED ∨ fs.Nodup ∨
        ∃ f ∈ fs, (s.futs f)._state.settled = false := by
  have hi : Inv s none := (Trace.run_invariant step_sound (init_sound futs) h).1
  have hstep : ∀ fs, step s (.wait g fs timeout return_when) =
      some (s.wait g fs timeout return_when) := fun fs => if_pos hg
  constructor
  · intro hignores
    by_contra hnot
    obtain ⟨hfirst, hnot⟩ := not_or.1 hnot
    obtain ⟨hrepeats, hsettled⟩ := not_or.1 hnot
    have hsettled : ∀ f ∈ fs, (s.futs f)._state.settled = true := by
      intro f hf
      rw [← Bool.not_eq_false]
      exact fun hfalse => hsettled ⟨f, hf, hfalse⟩
    have honce := hignores.at_once hsettled
    rw [hstep, Option.some.injEq, hwhen.resolve_right hfirst] at honce
    exact wait_stuck hrepeats hsettled timeout _ honce
  · intro hok
    refine ⟨fun hsettled => ?_, fun fs' hnodup hmem as' => ?_⟩
    · rw [hstep, Option.some.injEq]
      refine wait_at_once hwhen ?_ hsettled timeout
      rcases hok with hfirst | hnodup | ⟨f, hf, hunsettled⟩
      · exact Or.inl hfirst
      · exact Or.inr hnodup
      · rw [hsettled f hf] at hunsettled
        cases hunsettled
    · have htwins := wait_same hi hnodup hmem hwhen hok g timeout
      have htogether : Together (s.wait g fs timeout return_when)
          (s.wait g fs' timeout return_when) :=
        ⟨htwins, (wait_inv hi hg fs timeout return_when).1,
          (wait_inv hi hg fs' timeout return_when).1⟩
      show ((step s _).bind fun s' => run step s' as').map St.seen =
        ((step s _).bind fun s' => run step s' as').map St.seen
      rw [hstep, hstep]
      exact htogether.seen as'

/-- The first of two futures completes. -/
def completes : List (Act Nat Nat) :=
  [.set_running_or_notify_cancel 9 0, .set_result 9 0 (some 4)]

theorem wait_repeated_iff_waits : ∃ s, run step (St.init fun _ => Future.new) completes = some s ∧
    (s.futs 0)._state = .FINISHED ∧ IgnoresRepetitions s 7 [0, 1, 0] none .ALL_COMPLETED := by
  have h : (run step (St.init fun _ => Future.new) completes).any (fun s =>
      decide ((s.futs 0)._state = .FINISHED ∧ (s.futs 1)._state.settled = false ∧
        s.calls 7 = none)) = true := by
    decide
  obtain ⟨s, hs, htest⟩ := run_any h
  obtain ⟨hdone, hpending, hfree⟩ := of_decide_eq_true htest
  refine ⟨s, hs, hdone, ?_⟩
  exact (wait_repeated_iff _ completes s hs 7 hfree [0, 1, 0] none .ALL_COMPLETED (Or.inl rfl)).2
    (Or.inr (Or.inr ⟨1, by decide, hpending⟩))

/-- A future that has completed. -/
def done_future (_ : Fid) : Future Nat Nat := Future.new.set_result (some 4)

/-- A call on the list that names it twice suspends, and one on the list that names
it once returns. -/
theorem done_future_blocks :
    ((run step (St.init done_future) [.wait 7 [0, 0] none .ALL_COMPLETED]).map fun s =>
        ((s.calls 7).isSome, s.returned.map fun r => r.result.toOption)) = some (true, []) ∧
      ((run step (St.init done_future) [.wait 7 [0] none .ALL_COMPLETED]).map fun s =>
        ((s.calls 7).isSome, s.returned.map fun r => r.result.toOption)) =
          some (false, [some ({0}, ∅)]) ∧
      ¬ IgnoresRepetitions (St.init done_future) 7 [0, 0] none .ALL_COMPLETED := by
  refine ⟨by decide, by decide, fun hignores => ?_⟩
  have honce := hignores.at_once (by decide)
  have hreturned := congrArg (Option.map fun s => s.returned.length) honce
  revert hreturned
  decide

end Jega.Futures.Waiting
