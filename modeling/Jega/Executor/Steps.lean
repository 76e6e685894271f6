import Jega.Executor.Model
import Jega.Loop.Queued
import Mathlib.Data.Finset.Card

/-!
# Jega.Executor.Steps — what the functions of the executor change

Most calls only add entries to the loop, and do not touch what the proofs about
workers look at (`Calm`). Each of the others has a lemma here that lists what it
can do, and so has a step (`step_cases`, `user_step_cases`).
-/

namespace Jega.Executor

open Trace LoopObject

/-! ## Calm changes -/

/-- A change that only adds to the loop, and leaves greenlets, jobs, waiters and
handles as they are; a future may stop being pending. -/
structure Calm (s s' : St) : Prop where
  loop : s.loop.Grows s'.loop
  state : ∀ f, (s.futures f).state ≠ .F_PENDING → (s'.futures f).state ≠ .F_PENDING
  waiters : ∀ f, (s'.futures f).waiters = (s.futures f).waiters
  fhandle : ∀ f, (s'.futures f).handle = (s.futures f).handle
  next : s.next ≤ s'.next
  executor : s'.executor = s.executor
  current : s'.current = s.current
  loc : s'.loc = s.loc
  handle : s'.handle = s.handle
  job : s'.job = s.job
  completion : s'.completion = s.completion
  resumed : s'.resumed = s.resumed
  workers : s'.workers = s.workers

theorem Calm.refl (s : St) : Calm s s :=
  ⟨Grows.refl _, fun _ h => h, fun _ => rfl, fun _ => rfl, Nat.le_refl _, rfl, rfl, rfl, rfl, rfl,
    rfl, rfl, rfl⟩

theorem Calm.trans {s₁ s₂ s₃ : St} (h₁ : Calm s₁ s₂) (h₂ : Calm s₂ s₃) : Calm s₁ s₃ where
  loop := h₁.loop.trans h₂.loop
  state := fun f h => h₂.state f (h₁.state f h)
  waiters := fun f => (h₂.waiters f).trans (h₁.waiters f)
  fhandle := fun f => (h₂.fhandle f).trans (h₁.fhandle f)
  next := Nat.le_trans h₁.next h₂.next
  executor := h₂.executor.trans h₁.executor
  current := h₂.current.trans h₁.current
  loc := h₂.loc.trans h₁.loc
  handle := h₂.handle.trans h₁.handle
  job := h₂.job.trans h₁.job
  completion := h₂.completion.trans h₁.completion
  resumed := h₂.resumed.trans h₁.resumed
  workers := h₂.workers.trans h₁.workers

theorem calm_loop {s : St} {l : LoopObject Callable} (h : s.loop.Grows l) :
    Calm s { s with loop := l } :=
  { Calm.refl s with loop := h }

/-- What an update of one future leaves as it is. -/
theorem update_field {α : Type} {futures : Fid → FutureObject} {f : Fid} {fut : FutureObject}
    (field : FutureObject → α) (h : field fut = field (futures f)) (f' : Fid) :
    field (Function.update futures f fut f') = field (futures f') := by
  by_cases hf : f' = f
  · subst hf
    rw [Function.update_self, h]
  · rw [Function.update_of_ne hf]

/-- What is looked up after one entry was updated. -/
theorem update_cases {α : Type} {m : Gid → α} {g w : Gid} {l x : α}
    (h : Function.update m g l w = x) : (w = g ∧ l = x) ∨ (w ≠ g ∧ m w = x) := by
  by_cases hw : w = g
  · subst hw
    rw [Function.update_self] at h
    exact .inl ⟨rfl, h⟩
  · rw [Function.update_of_ne hw] at h
    exact .inr ⟨hw, h⟩

/-- One future gets another value, with the same waiters and handle. -/
theorem calm_future {s : St} {f : Fid} {fut : FutureObject}
    (hs : (s.futures f).state ≠ .F_PENDING → fut.state ≠ .F_PENDING)
    (hw : fut.waiters = (s.futures f).waiters) (hh : fut.handle = (s.futures f).handle) :
    Calm s { s with futures := Function.update s.futures f fut } :=
  { Calm.refl s with
    state := by
      intro f' h
      by_cases hf : f' = f
      · subst hf
        simpa using hs h
      · simpa [Function.update_of_ne hf] using h
    waiters := update_field FutureObject.waiters hw
    fhandle := update_field FutureObject.handle hh }

theorem grows_callbacks (callbacks : List Callable) (l : LoopObject Callable) :
    l.Grows (callbacks.foldl (fun l cb => (l.loop_schedule_call 0 (some cb) none).1) l) := by
  induction callbacks generalizing l with
  | nil => exact Grows.refl l
  | cons cb callbacks ih => exact (grows_loop_schedule_call l 0 (some cb) none).trans (ih _)

theorem calm_call_callbacks (s : St) (f : Fid) : Calm s (s.call_callbacks f) := by
  have hloop := calm_loop (s := s) (grows_callbacks (s.futures f).callbacks s.loop)
  exact hloop.trans (calm_future (f := f) id rfl rfl)

theorem calm_cancel (s : St) (f : Fid) : Calm s (s.cancel f) := by
  have hstate : Calm s { s with
      futures := Function.update s.futures f { s.futures f with state := .F_CANCELLED } } :=
    calm_future (fun _ => by simp) rfl rfl
  exact hstate.trans (calm_call_callbacks _ f)

theorem calm_add_done_callback (s : St) (f : Fid) (callable : Callable) :
    Calm s (s.add_done_callback f callable) := by
  unfold St.add_done_callback
  split
  · exact calm_future id rfl rfl
  · exact calm_loop (grows_loop_schedule_call s.loop 0 (some callable) none)

theorem calm_remove_done_callback (s : St) (f : Fid) (callable : Callable) :
    Calm s (s.remove_done_callback f callable) :=
  calm_future id rfl rfl

theorem calm_make_future (s : St) : Calm s s.make_future :=
  { Calm.refl s with next := Nat.le_succ _ }

/-- A worker's handle was never called, so it is queued once more as it is. -/
theorem reschedule_eq {s : St} {h : Hid} {w : Gid} (ht : s.loop.target h = .switch w) :
    s.reschedule h = { s with loop := s.loop.schedule_timer h } := by
  have hcalled : (s.loop.handles h).called = false := by
    apply called_of_target
    rw [ht]
    simp
  have hsame : ({ s.loop.handles h with called := false } : HandleObject Callable) =
      s.loop.handles h := by
    rw [← hcalled]
  unfold St.reschedule
  rw [hsame, Function.update_eq_self]

theorem calm_reschedule {s : St} {h : Hid} {w : Gid} (hlt : h < s.loop.next)
    (ht : s.loop.target h = .switch w) : Calm s (s.reschedule h) := by
  rw [reschedule_eq ht]
  exact calm_loop (grows_schedule_timer hlt ht (by simp))

/-- The worker of a handle that is queued once more has one more entry. -/
theorem queued_reschedule {s : St} {h : Hid} {w : Gid} (hlt : h < s.loop.next)
    (ht : s.loop.target h = .switch w) :
    (s.reschedule h).loop.queued (.switch w) = s.loop.queued (.switch w) + 1 := by
  have htype : (s.loop.handles h).type = .Handle := by
    apply target_handle
    rw [ht]
    simp
  rw [reschedule_eq ht]
  have hq := queued_schedule_timer hlt htype (.switch w)
  rwa [if_pos ht] at hq

/-! ## `back_waiter` and completions -/

/-- The handle of the future, if it has one, is a worker's. -/
def Aimed (s : St) (f : Fid) : Prop :=
  ∀ h, (s.futures f).handle = some h → h < s.loop.next ∧ ∃ w, s.loop.target h = .switch w

theorem Aimed.calm {s s' : St} {f : Fid} (ha : Aimed s f) (hc : Calm s s') : Aimed s' f := by
  intro h hf
  rw [hc.fhandle] at hf
  obtain ⟨hlt, w, ht⟩ := ha h hf
  exact ⟨Nat.lt_of_lt_of_le hlt hc.loop.next_le, w, (hc.loop.target h hlt).trans ht⟩

/-- A calm change can be made after the running greenlet got somewhere else. -/
theorem Calm.enter {s s' : St} (hc : Calm s s') (l : Where) :
    Calm { s with loc := Function.update s.loc s.current l }
      { s' with loc := Function.update s'.loc s'.current l } :=
  { hc with
    loc := by
      show Function.update s'.loc s'.current l = Function.update s.loc s.current l
      rw [hc.loc, hc.current] }

theorem calm_back_waiter {s : St} {f : Fid} (ha : Aimed s f) :
    Calm { s with loc := Function.update s.loc s.current (.back_waiter f) } (s.back_waiter f) := by
  unfold St.back_waiter
  by_cases hw : (s.futures f).waiters = ∅
  · -- Case: nobody waits, so the handle is left alone
    simp only [if_pos hw]
    exact Calm.refl _
  · -- Case: the handle of the worker is queued once more
    simp only [if_neg hw]
    cases hh : (s.futures f).handle with
    | none => exact Calm.refl _
    | some h =>
      obtain ⟨hlt, w, ht⟩ := ha h hh
      exact (calm_reschedule hlt ht).enter _

/-- `set_result` sets the result, queues the callbacks and enters `back_waiter`. -/
theorem calm_set_result {s : St} {f : Fid} (ha : Aimed s f) (v : Pointer) :
    Calm { s with loc := Function.update s.loc s.current (.back_waiter f) } (s.set_result f v) := by
  have hfut : Calm s { s with
      futures := Function.update s.futures f { s.futures f with result := some v } } :=
    calm_future id rfl rfl
  have hcalls := hfut.trans (calm_call_callbacks _ f)
  exact (hcalls.enter _).trans (calm_back_waiter (ha.calm hcalls))

theorem calm_set_exception {s : St} {f : Fid} (ha : Aimed s f) (e : Exc) :
    Calm { s with loc := Function.update s.loc s.current (.back_waiter f) }
      (s.set_exception f e) := by
  have hfut : Calm s { s with
      futures := Function.update s.futures f { s.futures f with exc_info := some e } } :=
    calm_future id rfl rfl
  have hcalls := hfut.trans (calm_call_callbacks _ f)
  exact (hcalls.enter _).trans (calm_back_waiter (ha.calm hcalls))

/-- The state in which a worker that finished its item enters `back_waiter`,
but for the loop and the result. -/
def completed (s : St) (f : Fid) : St :=
  { s with
    futures := Function.update s.futures f { s.futures f with state := .F_FINISHED }
    loc := Function.update s.loc s.current (.back_waiter f)
    job := Function.update s.job s.current none
    completion := Function.update s.completion f (some (s.current, s.waits f)) }

theorem calm_finished (s : St) (f : Fid) :
    Calm s { s with
      futures := Function.update s.futures f { s.futures f with state := .F_FINISHED } } :=
  calm_future (fun _ => by simp) rfl rfl

theorem calm_run_worker_finish {s : St} {f : Fid} (ha : Aimed s f) (res : Except Exc Returned) :
    Calm (completed s f) (s.run_worker_finish f res) := by
  have ha' : Aimed { s with
      futures := Function.update s.futures f { s.futures f with state := .F_FINISHED }
      job := Function.update s.job s.current none
      completion := Function.update s.completion f (some (s.current, s.waits f)) }
      f := by
    have hfin := ha.calm (calm_finished s f)
    exact hfin
  cases res with
  | error e => exact calm_set_exception ha' e
  | ok v => exact calm_set_result ha' v.released

/-! ## Workers -/

/-- After an item the worker exits, or queues its handle and goes on. -/
theorem item_done_cases (s : St) :
    (s.item_done = s.worker_exit ∧ (s.loop.state = .L_STOP ∨ s.executor.max_workers = 0)) ∨
    (∃ h, s.handle s.current = some h ∧ s.loop.state ≠ .L_STOP ∧ s.executor.max_workers ≠ 0 ∧
      s.item_done =
        { s.reschedule h with loc := Function.update s.loc s.current .worker_loop }) ∨
    (s.handle s.current = none ∧
      s.item_done = { s with loc := Function.update s.loc s.current .worker_loop }) := by
  unfold St.item_done St.check_interrupted
  by_cases hs : s.loop.state = .L_STOP
  · exact .inl ⟨by simp [hs], .inl hs⟩
  · by_cases hm : s.executor.max_workers = 0
    · exact .inl ⟨by simp [hm], .inr hm⟩
    · cases hh : s.handle s.current with
      | none => exact .inr (.inr ⟨rfl, by simp [hs, hm]⟩)
      | some h => exact .inr (.inl ⟨h, rfl, hs, hm, by simp [hs, hm]; rfl⟩)

/-- The state in which the worker that runs has taken the item `f`. -/
def taken (s : St) (f : Fid) (rest : List Fid) : St :=
  { s with
    executor := { s.executor with pendings := rest }
    futures := Function.update s.futures f { s.futures f with handle := s.handle s.current } }

/-- A round of the loop of `_worker`: it exits, parks, drops an item that is
not pending, drops one that has a result, or starts one. -/
theorem worker_loop_cases (s : St) :
    (s.loop.state = .L_STOP ∧ s.worker_loop = s.worker_exit) ∨
    (s.executor.pendings = [] ∧
      s.worker_loop = { s with loc := Function.update s.loc s.current .parked }.loop_switch) ∨
    (∃ f rest, s.executor.pendings = f :: rest ∧ s.loop.state ≠ .L_STOP ∧
      (s.worker_loop = { s with executor := { s.executor with pendings := rest } } ∨
        s.worker_loop = (taken s f rest).item_done ∨
        s.worker_loop =
          { taken s f rest with
            loc := Function.update s.loc s.current .user
            job := Function.update s.job s.current (some f) })) := by
  unfold St.worker_loop St.check_interrupted
  by_cases hs : s.loop.state = .L_STOP
  · -- Case: the loop was stopped
    exact .inl ⟨hs, by simp [hs]⟩
  · cases hp : s.executor.pendings with
    | nil => exact .inr (.inl ⟨rfl, by simp [hs]⟩)
    | cons f rest =>
      refine .inr (.inr ⟨f, rest, rfl, hs, ?_⟩)
      by_cases hst : (s.futures f).state = .F_PENDING
      · have hpend : ¬ (s.futures f).state ≠ .F_PENDING := not_not.2 hst
        simp only [hs, decide_false, Bool.false_eq_true, if_false, if_neg hpend, St.run_worker]
        split
        · exact .inr (.inl rfl)
        · exact .inr (.inr rfl)
      · exact .inl (by simp [hs, hst])

/-! ## Switches -/

theorem own_iff {s : St} {g : Gid} : s.own g = true ↔ s.handle g ≠ none ∧ s.job g = none := by
  simp [St.own, Option.isSome_iff_ne_none]

theorem started_eq (s : St) (g : Gid) (f : Fid) :
    ∃ l c, s.started g f = { s with current := c, loc := Function.update s.loc g l } := by
  unfold St.started
  split
  · exact ⟨.wait_future f, loop_greenlet, rfl⟩
  · exact ⟨.user, g, rfl⟩

/-- A switch into `o` changes who runs, and where `o` is. -/
theorem greenlet_switch_eq (s : St) (o : Gid) :
    ∃ l c, s.greenlet_switch o = { s with current := c, loc := Function.update s.loc o l } := by
  have hstay : ∀ c, { s with current := c } =
      { s with current := c, loc := Function.update s.loc o (s.loc o) } := by
    intro c
    rw [Function.update_eq_self]
  unfold St.greenlet_switch
  split
  · exact ⟨s.loc o, loop_greenlet, hstay loop_greenlet⟩
  · exact ⟨.worker_loop, o, rfl⟩
  · exact ⟨.worker_loop, o, rfl⟩
  · exact started_eq s o _
  · exact ⟨.user, o, rfl⟩
  · exact ⟨s.loc o, o, hstay o⟩

theorem greenlet_switch_futures (s : St) (o : Gid) :
    (s.greenlet_switch o).futures = s.futures := by
  rcases greenlet_switch_eq s o with ⟨l, c, h⟩
  rw [h]

theorem greenlet_switch_resumed (s : St) (o : Gid) :
    (s.greenlet_switch o).resumed = s.resumed := by
  rcases greenlet_switch_eq s o with ⟨l, c, h⟩
  rw [h]

/-- A switch looks at the places of the greenlets and at the states of the futures
only. -/
theorem greenlet_switch_with (s : St) (o : Gid) {futures : Fid → FutureObject}
    (hstate : ∀ f, (futures f).state = (s.futures f).state) (resumed : Fid → List Gid) :
    St.greenlet_switch { s with futures := futures, resumed := resumed } o =
      { s.greenlet_switch o with futures := futures, resumed := resumed } := by
  unfold St.greenlet_switch
  cases s.loc o with
  | start f =>
    simp only [St.started, hstate f]
    split
    · rfl
    · rfl
  | unborn | user | unstarted | worker_loop | parked | wait_future f | back_waiter f | dead => rfl

/-- A throw is like a switch, but for `start_loop`. -/
theorem greenlet_throw_cases (s : St) (o : Gid) :
    s.greenlet_throw o = s.greenlet_switch o ∨
      ∃ f, s.loc o = .start f ∧
        s.greenlet_throw o = { s with current := o, loc := Function.update s.loc o .user } := by
  unfold St.greenlet_throw
  cases hl : s.loc o with
  | start f => exact .inr ⟨f, rfl, rfl⟩
  | unborn | user | unstarted | worker_loop | parked | wait_future f | back_waiter f | dead =>
    exact .inl rfl

theorem greenlet_throw_eq (s : St) (o : Gid) :
    ∃ l c, s.greenlet_throw o = { s with current := c, loc := Function.update s.loc o l } := by
  rcases greenlet_throw_cases s o with h | ⟨f, -, h⟩
  · rw [h]
    exact greenlet_switch_eq s o
  · exact ⟨.user, o, h⟩

theorem greenlet_throw_futures (s : St) (o : Gid) : (s.greenlet_throw o).futures = s.futures := by
  rcases greenlet_throw_eq s o with ⟨l, c, h⟩
  rw [h]

/-- The greenlet that runs is on the set of the future's waiters. -/
def added (s : St) (f : Fid) : St :=
  { s with
    futures := Function.update s.futures f
      { s.futures f with waiters := insert s.current (s.futures f).waiters } }

/-- A call of `result` goes on at once, fails in `start_loop`, or is suspended in one of
the switches of `wait_future`. -/
theorem result_cases (s : St) (f : Fid) :
    ((s.futures f).state ≠ .F_PENDING ∧ s.result f = s) ∨
    ((s.futures f).state = .F_PENDING ∧
      ((s.current = loop_greenlet ∧ s.result f = added s f) ∨
        ∃ l, (l = .start f ∨ l = .wait_future f) ∧
          s.result f =
            { added s f with
              loop := { s.loop with state := .L_RUNNING }
              current := loop_greenlet
              loc := Function.update s.loc s.current l })) := by
  unfold St.result
  split
  next hp =>
    refine .inr ⟨hp, ?_⟩
    unfold St.wait_future
    simp only
    split
    next hc =>
      -- Case: "Cannot switch to MAINLOOP from MAINLOOP"
      exact .inl ⟨hc, rfl⟩
    · right
      split
      · -- Case: `start_loop` runs the loop
        exact ⟨.start f, .inl rfl, rfl⟩
      · -- Case: the loop runs, and the future is still pending
        refine ⟨.wait_future f, .inr rfl, ?_⟩
        unfold St.started
        rw [if_pos (by simpa using hp)]
        rfl
  next hp => exact .inl ⟨hp, rfl⟩

/-- The two outcomes of a round of the loop of `back_waiter`. -/
theorem back_waiter_next_cases {s s' : St} {f : Fid} {pop : Option Gid}
    (h : s.back_waiter_next f pop = some s') :
    (pop = none ∧ (s.futures f).waiters = ∅ ∧
      ((s.own s.current = true ∧ s' = s.item_done) ∨
        (s.own s.current = false ∧
          s' = { s with loc := Function.update s.loc s.current .user }))) ∨
    (∃ o, pop = some o ∧ o ∈ (s.futures f).waiters ∧
      s' = { s.greenlet_switch o with
        futures := Function.update s.futures f
          { s.futures f with waiters := (s.futures f).waiters.erase o }
        resumed :=
          if s.own s.current then Function.update s.resumed f (s.resumed f ++ [o])
          else s.resumed }) := by
  cases pop with
  | none =>
    simp only [St.back_waiter_next] at h
    split at h
    next he =>
      refine .inl ⟨rfl, he, ?_⟩
      cases ho : s.own s.current with
      | true =>
        simp only [ho, if_true, Option.some.injEq] at h
        exact .inl ⟨rfl, h.symm⟩
      | false =>
        simp only [ho, Bool.false_eq_true, if_false, Option.some.injEq] at h
        exact .inr ⟨rfl, h.symm⟩
    · cases h
  | some o =>
    simp only [St.back_waiter_next] at h
    split at h
    next hmem =>
      refine .inr ⟨o, rfl, hmem, ?_⟩
      rw [Option.some.injEq] at h
      rw [← h]
      apply greenlet_switch_with s o
      exact update_field FutureObject.state rfl
    · cases h

/-! ## Submitting -/

/-- The state with one more item. -/
def pushed (s : St) : St :=
  { s with
    next := s.next + 1
    executor := { s.executor with pendings := s.executor.pendings ++ [s.next] } }

/-- The state with one more worker, which is queued. -/
def hired (s : St) (w : Gid) : St :=
  { s with
    loop := (s.loop.loop_schedule_call 0 none (some w)).1
    handle := Function.update s.handle w (some (s.loop.loop_schedule_call 0 none (some w)).2)
    loc := Function.update s.loc w .unstarted
    executor := { s.executor with run_workers := s.executor.run_workers + 1 }
    workers := s.workers ++ [w] }

/-- `submit` starts a worker, unless there are enough. -/
theorem internal_submit_cases (s : St) (w : Gid) :
    ((s.executor.max_workers = 0 ∨ s.executor.run_workers < s.executor.max_workers) ∧
      s.internal_submit w = hired (pushed s) w) ∨
    (¬ (s.executor.max_workers = 0 ∨ s.executor.run_workers < s.executor.max_workers) ∧
      s.internal_submit w = pushed s) := by
  unfold St.internal_submit St.adjust_thread_count
  by_cases h : s.executor.max_workers = 0 ∨ s.executor.run_workers < s.executor.max_workers
  · exact .inl ⟨h, if_pos h⟩
  · exact .inr ⟨h, if_neg h⟩

theorem hired_own {s : St} {w w' : Gid} (hne : w' ≠ w) : (hired s w).own w' = s.own w' := by
  simp [St.own, hired, Function.update_of_ne hne]

/-! ## Firing -/

/-- What a round of `fire_pendings` does: the head of the queue is gone, and if
it is a switch it is made. -/
theorem fire_pendings_cases {s s' : St} (h : s.fire_pendings = some s') :
    ∃ (item : Hid) (l : LoopObject Callable) (eff : Fired Callable),
      s.loop.pendings = item :: l.pendings ∧ s.loop.state ≠ .L_STOP ∧
      l.state = s.loop.state ∧ l.next = s.loop.next ∧ l.scheduled = s.loop.scheduled ∧
      (∀ h', l.target h' = s.loop.target h') ∧
      (∀ t, s.loop.queued t = l.queued t + if s.loop.target item = t then 1 else 0) ∧
      (∀ g, s.loop.target item = .switch g →
        eff = if s.loc g = .dead then .nothing else .switch g) ∧
      s' = match eff with
        | .switch g => St.greenlet_switch { s with loop := l } g
        | _ => { s with loop := l } := by
  unfold St.fire_pendings at h
  cases hf : s.loop.fire_pendings_next (fun g => s.loc g = .dead) with
  | none => simp [hf] at h
  | some r =>
    obtain ⟨l, eff⟩ := r
    obtain ⟨item, hp, hrun, hst, hn, hsch, ht, hq, -, hsw⟩ := fire_pendings_next_spec hf
    refine ⟨item, l, eff, hp, hrun, hst, hn, hsch, ht, hq, ?_, ?_⟩
    · simpa using hsw
    · rw [hf] at h
      cases eff with
      | nothing => exact (Option.some.inj h).symm
      | switch g => exact (Option.some.inj h).symm
      | call k => exact (Option.some.inj h).symm

/-! ## Steps -/

/-- Who runs is in Python code, at the top of the loop of `_worker`, or in the
loop of `back_waiter`. -/
theorem step_cases {s s' : St} {a : Act} (h : step s a = some s') :
    (s.loc s.current = .user ∧ user_step s a = some s') ∨
    (s.loc s.current = .worker_loop ∧ a = .worker_loop ∧ s' = s.worker_loop) ∨
    (∃ f pop, s.loc s.current = .back_waiter f ∧ a = .back_waiter pop ∧
      s.back_waiter_next f pop = some s') := by
  unfold step at h
  cases hl : s.loc s.current <;> rw [hl] at h <;> try cases h
  case user => exact .inl ⟨rfl, h⟩
  case worker_loop =>
    cases a <;> cases h
    exact .inr (.inl ⟨rfl, rfl, rfl⟩)
  case back_waiter f =>
    cases a <;> try cases h
    exact .inr (.inr ⟨f, _, rfl, rfl, h⟩)

/-- What a call made by Python code can be: an addition to the loop or a change
to a future that leaves its waiters alone, or one of the calls that have a
lemma of their own. -/
inductive UserStep (s : St) : Act → St → Prop where
  | calm {a : Act} {s' : St} : Calm s s' → UserStep s a s'
  | submit {w : Gid} : s.loc w = .unborn → UserStep s (.submit w) (s.internal_submit w)
  | greenlet_new {g : Gid} : s.loc g = .unborn →
      UserStep s (.greenlet_new g) { s with loc := Function.update s.loc g .user }
  | result {f : Fid} : UserStep s (.result f) (s.result f)
  | enter {a : Act} {s' : St} (f : Fid) :
      (Aimed s f → Calm { s with loc := Function.update s.loc s.current (.back_waiter f) } s') →
      UserStep s a s'
  | sleep {a : Act} {l : LoopObject Callable} : s.loop.Grows l →
      UserStep s a (St.loop_switch { s with loop := l })
  | switch {a : Act} {o : Gid} : s.loc o ≠ .unborn → s.loc o ≠ .unstarted →
      UserStep s a (s.greenlet_switch o)
  | throw {a : Act} {o : Gid} {f : Fid} : s.loc o = .start f →
      UserStep s a { s with current := o, loc := Function.update s.loc o .user }
  | finish {res : Except Exc Returned} {f : Fid} : s.job s.current = some f →
      UserStep s (.finish res) (s.run_worker_finish f res)
  | fire {a : Act} {s' : St} : s.current = loop_greenlet → s.fire_pendings = some s' →
      UserStep s a s'

theorem user_step_cases {s s' : St} {a : Act} (h : user_step s a = some s') : UserStep s a s' := by
  cases a with
  | submit w =>
    obtain ⟨hw, ⟨⟩⟩ := Option.ite_none_right_eq_some.1 h
    exact .submit hw
  | make_future =>
    injection h with h
    exact .calm (h ▸ calm_make_future s)
  | greenlet_new g =>
    obtain ⟨hg, ⟨⟩⟩ := Option.ite_none_right_eq_some.1 h
    exact .greenlet_new hg
  | result f =>
    obtain ⟨-, ⟨⟩⟩ := Option.ite_none_right_eq_some.1 h
    exact .result
  | cancel f =>
    obtain ⟨-, ⟨⟩⟩ := Option.ite_none_right_eq_some.1 h
    exact .calm (calm_cancel s f)
  | add_done_callback f callable =>
    obtain ⟨-, ⟨⟩⟩ := Option.ite_none_right_eq_some.1 h
    exact .calm (calm_add_done_callback s f callable)
  | remove_done_callback f callable =>
    obtain ⟨-, ⟨⟩⟩ := Option.ite_none_right_eq_some.1 h
    exact .calm (calm_remove_done_callback s f callable)
  | set_result f v =>
    obtain ⟨-, ⟨⟩⟩ := Option.ite_none_right_eq_some.1 h
    exact .enter f fun ha => calm_set_result ha (.object v)
  | set_exception f e =>
    obtain ⟨-, ⟨⟩⟩ := Option.ite_none_right_eq_some.1 h
    exact .enter f fun ha => calm_set_exception ha e
  | call_later seconds cb =>
    injection h with h
    exact .calm (h ▸ calm_loop (grows_loop_schedule_call s.loop seconds (some cb) none))
  | sleep seconds =>
    obtain ⟨-, ⟨⟩⟩ := Option.ite_none_right_eq_some.1 h
    exact .sleep (grows_loop_schedule_call s.loop seconds none (some s.current))
  | switch o =>
    obtain ⟨ho, ⟨⟩⟩ := Option.ite_none_right_eq_some.1 h
    exact .switch ho.1 ho.2
  | throw o e =>
    obtain ⟨ho, ⟨⟩⟩ := Option.ite_none_right_eq_some.1 h
    rcases greenlet_throw_cases s o with heq | ⟨f, hl, heq⟩
    · rw [heq]
      exact .switch ho.1 ho.2.1
    · rw [heq]
      exact .throw hl
  | finish res =>
    simp only [user_step] at h
    cases hj : s.job s.current with
    | none => simp [hj] at h
    | some f =>
      simp only [hj, Option.some.injEq] at h
      exact h ▸ .finish hj
  | fire =>
    obtain ⟨hg, hf⟩ := Option.ite_none_right_eq_some.1 h
    exact .fire hg hf
  | due timer =>
    obtain ⟨-, hd⟩ := Option.ite_none_right_eq_some.1 h
    obtain ⟨l, hl, rfl⟩ := Option.map_eq_some_iff.1 hd
    exact .calm (calm_loop (grows_fire_timers_next hl))
  | stop =>
    injection h with h
    exact .calm (h ▸ calm_loop (grows_state s.loop .L_STOP))
  | run =>
    injection h with h
    exact .calm (h ▸ calm_loop (grows_state s.loop .L_RUNNING))
  | worker_loop => cases h
  | back_waiter pop => cases h

end Jega.Executor
