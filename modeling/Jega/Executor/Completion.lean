import Jega.Executor.Live

/-!
# Jega.Executor.Completion — completing a future wakes everybody

`back_waiter` queues its worker once and then hands control to one waiter after
another. Each switch back into the worker costs one entry of the queue, and the
last one only finds out that nobody waits: with `n` waiters the worker needs
`n` entries, and there is one more than were queued already. The worker of a
second waiter is stuck, and the third waiter is never resumed.

A waiter that `start_loop` has suspended looks at the state again when it is
resumed. If `set_result` was called by hand on the pending future, it goes on to
the switch of `wait_future`, and is not on the set of the waiters any more.

## Main result

* `completion_wakes`: in every run whose completions have at most one waiter
  more than there are switches into the worker in the queue already, and which
  takes no such waiter off the set, every state reached has woken the waiters of
  every completed future once, or has something left to do.
-/

namespace Jega.Executor

open Trace LoopObject

/-- Nothing is queued, and neither the worker nor anybody it resumed runs. -/
def Quiet (s : St) (w : Gid) (ws : Gid → Bool) : Prop :=
  s.loop.pendings = [] ∧ s.loop.scheduled = [] ∧ s.current ≠ w ∧ ws s.current = false

/-- Of the greenlets that waited for a future when `run_worker` completed it,
none is resumed twice for that, and when nothing is left to do none of them
still waits and the worker is not in that `back_waiter` any more. -/
def WakesAll (s : St) : Prop :=
  ∀ f w ws, s.completion f = some (w, ws) →
    (∀ g, ws g = true → (s.resumed f).count g ≤ 1) ∧
    (Quiet s w ws → (∀ g, ws g = true → s.waits f g = false) ∧
      ¬ (s.loc w = .back_waiter f ∧ s.own w = true))

/-- The greenlet `o`, popped by a `back_waiter` at `l`, is not in `start_loop` for the
same future while that is pending. -/
def Reaches (s : St) (o : Gid) : Where → Prop
  | .back_waiter f => s.loc o = .start f → (s.futures f).state ≠ .F_PENDING
  | _ => True

instance (s : St) (o : Gid) : ∀ l, Decidable (Reaches s o l)
  | .back_waiter f =>
    inferInstanceAs (Decidable (s.loc o = .start f → (s.futures f).state ≠ .F_PENDING))
  | .unborn | .user | .unstarted | .worker_loop | .parked | .start _ | .wait_future _ | .dead =>
    inferInstanceAs (Decidable True)

/-- Whom the step takes off a set of waiters it resumes for good. -/
def Heard (s : St) : Act → Prop
  | .back_waiter (some o) => Reaches s o (s.loc s.current)
  | _ => True

instance (s : St) : ∀ a, Decidable (Heard s a)
  | .back_waiter (some o) => inferInstanceAs (Decidable (Reaches s o (s.loc s.current)))
  | .submit .. | .make_future | .greenlet_new .. | .result .. | .cancel .. | .add_done_callback ..
  | .remove_done_callback .. | .set_result .. | .set_exception .. | .call_later .. | .sleep ..
  | .switch .. | .throw .. | .finish .. | .fire | .due .. | .stop | .run | .worker_loop
  | .back_waiter none => inferInstanceAs (Decidable True)

/-! ## The waiters are on the set -/

/-- Whoever waits for a future is on the set of its waiters. -/
def Listed (s : St) : Prop := ∀ f g, s.waits f g = true → g ∈ (s.futures f).waiters

theorem waits_iff {s : St} {f : Fid} {g : Gid} :
    s.waits f g = true ↔ s.loc g = .start f ∨ s.loc g = .wait_future f := by
  simp [St.waits]

/-- Nobody begins to wait, and nobody leaves the set. -/
theorem Listed.mono {s s' : St} (h : Listed s) (hloc : s'.loc = s.loc)
    (hw : ∀ f, (s.futures f).waiters ⊆ (s'.futures f).waiters) : Listed s' := by
  intro f g hg
  rw [St.waits, hloc] at hg
  exact hw f (h f g hg)

/-- One greenlet gets somewhere else, and does not wait there. -/
theorem Listed.move {s s' : St} (h : Listed s) {o : Gid} {l : Where}
    (hloc : s'.loc = Function.update s.loc o l) (hl : ∀ f, l ≠ .start f ∧ l ≠ .wait_future f)
    (hw : ∀ f, (s'.futures f).waiters = (s.futures f).waiters) : Listed s' := by
  intro f g hg
  rw [waits_iff, hloc] at hg
  rw [hw]
  rcases hg with hg | hg
  · rcases update_cases hg with ⟨-, hc⟩ | ⟨-, hg⟩
    · exact absurd hc (hl f).1
    · exact h f g (waits_iff.2 (.inl hg))
  · rcases update_cases hg with ⟨-, hc⟩ | ⟨-, hg⟩
    · exact absurd hc (hl f).2
    · exact h f g (waits_iff.2 (.inr hg))

/-- A switch makes nobody wait who did not, and the greenlet that is resumed still
waits only if `start_loop` had suspended it and its future is pending. -/
theorem greenlet_switch_waits {s : St} {o g : Gid} {f : Fid}
    (h : (s.greenlet_switch o).waits f g = true) :
    s.waits f g = true ∧ (g = o → s.loc o = .start f ∧ (s.futures f).state = .F_PENDING) := by
  by_cases hg : g = o
  · subst hg
    rw [waits_iff] at h
    unfold St.greenlet_switch St.started St.loop_switch at h
    cases hl : s.loc g with
    | start f' =>
      simp only [hl] at h
      split at h
      next hp =>
        simp only [Function.update_self, reduceCtorEq, Where.wait_future.injEq, false_or] at h
        subst h
        exact ⟨waits_iff.2 (.inl hl), fun _ => ⟨rfl, hp⟩⟩
      · simp at h
    | unborn | user | unstarted | worker_loop | parked | wait_future f' | back_waiter f' | dead =>
      simp [hl] at h
  · have hloc := (greenlet_switch_spec s o).2.2.2.2.2 g hg
    rw [St.waits, hloc] at h
    exact ⟨h, fun hc => absurd hc hg⟩

theorem Listed.greenlet_switch {s : St} (h : Listed s) (o : Gid) :
    Listed (s.greenlet_switch o) := by
  intro f g hg
  rw [greenlet_switch_futures]
  exact h f g (greenlet_switch_waits hg).1

theorem Listed.result {s : St} (h : Listed s) (f : Fid) : Listed (s.result f) := by
  have hgrow : ∀ f', (s.futures f').waiters ⊆ ((added s f).futures f').waiters := by
    intro f'
    by_cases hf : f' = f
    · subst hf
      simp [added]
    · simp [added, Function.update_of_ne hf]
  rcases result_cases s f with ⟨-, heq⟩ | ⟨-, ⟨-, heq⟩ | ⟨l, hwait, heq⟩⟩
  · rw [heq]
    exact h
  · rw [heq]
    exact h.mono rfl hgrow
  · rw [heq]
    intro f' g hg
    rw [waits_iff] at hg
    by_cases hc : g = s.current
    · -- the caller waits for `f`, and has been added
      have hf : f' = f := by
        subst hc
        simp only [Function.update_self] at hg
        rcases hwait with rfl | rfl <;> simpa [eq_comm] using hg
      subst hf hc
      simp [added]
    · simp only [Function.update_of_ne hc] at hg
      exact hgrow f' (h f' g (waits_iff.2 hg))

theorem Listed.item_done {s : St} (h : Listed s) : Listed s.item_done := by
  rcases item_done_cases s with ⟨heq, -⟩ | ⟨h', -, -, -, heq⟩ | ⟨-, heq⟩
  · rw [heq]
    exact h.move rfl (by simp) fun _ => rfl
  · rw [heq]
    exact h.move rfl (by simp) fun _ => rfl
  · rw [heq]
    exact h.move rfl (by simp) fun _ => rfl

theorem Listed.taken {s : St} (h : Listed s) (f : Fid) (rest : List Fid) :
    Listed (taken s f rest) := by
  refine h.mono rfl fun f' => ?_
  have hw : ∀ f', (Function.update s.futures f
      { s.futures f with handle := s.handle s.current } f').waiters = (s.futures f').waiters :=
    update_field FutureObject.waiters rfl
  exact (hw f').ge

theorem Listed.worker_loop {s : St} (h : Listed s) : Listed s.worker_loop := by
  rcases worker_loop_cases s with ⟨-, heq⟩ | ⟨-, heq⟩ | ⟨f, rest, -, -, heq | heq | heq⟩
  · rw [heq]
    exact h.move rfl (by simp) fun _ => rfl
  · rw [heq]
    exact h.move rfl (by simp) fun _ => rfl
  · rw [heq]
    exact h.mono rfl fun _ => Finset.Subset.refl _
  · rw [heq]
    exact (h.taken f rest).item_done
  · rw [heq]
    exact (h.taken f rest).move rfl (by simp) fun _ => rfl

/-- Who is popped does not wait for the future any more. -/
theorem Listed.back_waiter_next {s s' : St} (h : Listed s) {f : Fid} {pop : Option Gid}
    (hl : s.loc s.current = .back_waiter f) (hheard : Heard s (.back_waiter pop))
    (hs : s.back_waiter_next f pop = some s') : Listed s' := by
  rcases back_waiter_next_cases hs with ⟨-, -, ⟨-, rfl⟩ | ⟨-, rfl⟩⟩ | ⟨o, rfl, hmem, rfl⟩
  · exact h.item_done
  · exact h.move rfl (by simp) fun _ => rfl
  · have hreaches : Reaches s o (.back_waiter f) := hl ▸ hheard
    intro f' g hg
    have hwaits : (s.greenlet_switch o).waits f' g = true := hg
    rcases greenlet_switch_waits hwaits with ⟨hold, hstart⟩
    have hin := h f' g hold
    by_cases hf : f' = f
    · subst hf
      have hne : g ≠ o := by
        intro hc
        exact hreaches (hstart hc).1 (hstart hc).2
      simpa using ⟨hne, hin⟩
    · simpa [Function.update_of_ne hf] using hin

theorem Listed.fire_pendings {s s' : St} (h : Listed s) (hs : s.fire_pendings = some s') :
    Listed s' := by
  obtain ⟨item, l, eff, -, -, -, -, -, -, -, -, rfl⟩ := fire_pendings_cases hs
  have hl : Listed { s with loop := l } := h.mono rfl fun _ => Finset.Subset.refl _
  cases eff with
  | nothing => exact hl
  | switch g => exact hl.greenlet_switch g
  | call k => exact hl

theorem listed_init (max_workers : Nat) : Listed (init max_workers) := by
  intro f g h
  rw [waits_iff] at h
  rcases init_loc max_workers g with hl | hl <;> simp [hl] at h

theorem listed_step {s s' : St} {a : Act} (hs : step s a = some s') (hheard : Heard s a)
    (hi : Inv s) (h : Listed s) : Listed s' := by
  rcases step_cases hs with ⟨hloc, hu⟩ | ⟨-, -, rfl⟩ | ⟨f, pop, hloc, rfl, hb⟩
  · -- Case: Python code
    cases user_step_cases hu with
    | calm hc => exact h.mono hc.loc fun f => (hc.waiters f).ge
    | submit hw =>
      rename_i w
      rcases internal_submit_cases s w with ⟨-, heq⟩ | ⟨-, heq⟩
      · rw [heq]
        exact h.move rfl (by simp) fun _ => rfl
      · rw [heq]
        exact h.mono rfl fun _ => Finset.Subset.refl _
    | greenlet_new _ => exact h.move rfl (by simp) fun _ => rfl
    | result => exact h.result _
    | enter f hc =>
      have hcalm := hc (hi.aimed f)
      exact h.move hcalm.loc (by simp) hcalm.waiters
    | sleep _ => exact h.mono rfl fun _ => Finset.Subset.refl _
    | switch _ _ => exact h.greenlet_switch _
    | throw _ => exact h.move rfl (by simp) fun _ => rfl
    | @finish res f hj =>
      have hcalm := calm_run_worker_finish (hi.aimed f) res
      refine h.move hcalm.loc (by simp) fun f' => ?_
      rw [hcalm.waiters, completed_waiters]
    | fire _ hf => exact h.fire_pendings hf
  · -- Case: the loop of `_worker`
    exact h.worker_loop
  · -- Case: the loop of `back_waiter`
    exact h.back_waiter_next hloc hheard hb

/-! ## The worker comes to the end -/

/-- Every worker that wakes waiters has the switches it needs. -/
def Served (s : St) : Prop :=
  ∀ w f, s.loc w = .back_waiter f → s.own w = true → Live s w

theorem served_init (max_workers : Nat) : Served (init max_workers) := by
  intro w f h
  rcases init_loc max_workers w with hl | hl <;> simp [hl] at h

theorem served_step {s s' : St} {a : Act} (h : step s a = some s') (hok : Covered s a)
    (hi : Inv s) (hs : Served s) : Served s' := by
  intro w f hl' ho'
  have hlive : Live s w := by
    rcases own_back_waiter_step h hi hl' ho' with ⟨hl, ho⟩ | ⟨-, hjob⟩
    · -- it was suspended there already
      exact hs w f hl ho
    · -- it has just completed its item
      obtain ⟨f₀, hf₀⟩ := Option.ne_none_iff_exists'.1 hjob
      exact ⟨(hi.job_handle w f₀ hf₀).1, .inl hjob⟩
  rcases live_step h hi hlive (fun _ => hok) with hl | ⟨⟨-, ⟨hp, -⟩ | ⟨hd, -⟩⟩, -⟩
  · exact hl
  · rw [hl'] at hp
    cases hp
  · rw [hl'] at hd
    cases hd

/-- In a served state a suspended worker has a switch in the queue. -/
theorem Served.wakesAll {s : St} (hs : Served s) (hl : Listed s) (hi : Inv s) : WakesAll s := by
  intro f w ws hc
  refine ⟨fun g _ => List.nodup_iff_count_le_one.1 (hi.resumed f).1 g, ?_⟩
  rintro ⟨hp, -, hw, -⟩
  have hgone : ¬ (s.loc w = .back_waiter f ∧ s.own w = true) := by
    rintro ⟨hl, ho⟩
    have hdue := (hs w f hl ho).due (own_iff.1 ho).2
    rw [hl] at hdue
    have hq : s.loop.queued (.switch w) = 0 := by
      simp [queued, hp]
    simp only [Due, if_neg (Ne.symm hw), hq] at hdue
    omega
  refine ⟨fun g _ => ?_, hgone⟩
  have hempty := (hi.completion f w ws hc).resolve_left hgone
  rw [Bool.eq_false_iff]
  intro hg
  have hmem := hl f g hg
  rw [hempty] at hmem
  exact Finset.notMem_empty g hmem

/-- What a covered run keeps: the bookkeeping is right and every waiter of a
settled future is accounted for. -/
def Safe (s : St) : Prop :=
  Inv s ∧ Served s ∧ Listed s

theorem safe_step {s s' : St} {a : Act} (h : step s a = some s') (hok : Covered s a ∧ Heard s a)
    (hi : Safe s) : Safe s' :=
  ⟨inv_step h hi.1, served_step h hok.1 hi.1 hi.2.1, listed_step h hok.2 hi.1 hi.2.2⟩

/-- In every run whose completions are covered and which loses no waiter, completing a
future wakes everybody who waits for it. -/
theorem completion_wakes {max_workers : Nat} {s : St} {as : List Act}
    (hrun : run step (init max_workers) as = some s)
    (hok : Steps step (fun s a => Covered s a ∧ Heard s a) (init max_workers) as) :
    WakesAll s := by
  have hsafe : Safe s :=
    run_invariant_steps (fun _ _ _ h ha hs => safe_step h ha hs)
      ⟨inv_init max_workers, served_init max_workers, listed_init max_workers⟩ hok hrun
  exact hsafe.2.1.wakesAll hsafe.2.2 hsafe.1

/-- A future with a callback and one waiter: the worker wakes it, is switched
into by its handle, and returns. -/
theorem completion_wakes_one :
    ∃ s, run step (init 0) [.submit 2, .add_done_callback 0 7, .greenlet_new 3, .switch 3,
      .result 0, .fire, .worker_loop, .finish (.ok ⟨.obj 5, true⟩), .back_waiter (some 3),
      .switch 0, .fire, .fire, .back_waiter none] = some s ∧ s.loc 2 = .dead ∧
      (s.completion 0).isSome ∧ WakesAll s := by
  have hrun : (run step (init 0) [.submit 2, .add_done_callback 0 7, .greenlet_new 3, .switch 3,
      .result 0, .fire, .worker_loop, .finish (.ok ⟨.obj 5, true⟩), .back_waiter (some 3),
      .switch 0, .fire, .fire, .back_waiter none]).any
        (fun s => decide (s.loc 2 = .dead) && (s.completion 0).isSome) = true := by
    decide
  have hok : Steps step (fun s a => Covered s a ∧ Heard s a) (init 0)
      [.submit 2, .add_done_callback 0 7, .greenlet_new 3, .switch 3, .result 0, .fire,
        .worker_loop, .finish (.ok ⟨.obj 5, true⟩), .back_waiter (some 3), .switch 0, .fire, .fire,
        .back_waiter none] := by
    decide
  obtain ⟨s, hs, hend⟩ := run_any hrun
  rw [Bool.and_eq_true, decide_eq_true_eq] at hend
  exact ⟨s, hs, hend.1, hend.2, completion_wakes hs hok⟩

/-- Two waiters: both are resumed, and nothing is left to do, but the worker is
suspended in its `back_waiter`. -/
theorem second_waiter_strands_worker :
    ∃ s, run step (init 0) [.submit 2, .greenlet_new 3, .greenlet_new 4, .switch 3, .result 0,
      .switch 4, .result 0, .fire, .worker_loop, .finish (.ok ⟨.obj 5, true⟩),
      .back_waiter (some 3), .switch 0, .fire, .back_waiter (some 4), .switch 0] = some s ∧
      ¬ WakesAll s := by
  refine ⟨_, rfl, fun h => ?_⟩
  obtain ⟨-, hquiet⟩ := h 0 2 _ rfl
  obtain ⟨-, hgone⟩ := hquiet ⟨rfl, rfl, by decide, by decide⟩
  exact hgone ⟨rfl, rfl⟩

/-- `set_result` is called by hand on the future of a running item, for which a
greenlet waits that `start_loop` has suspended. That waits on, and the worker does not
find it on the set. -/
theorem started_waiter_stays :
    ∃ s, run step (init 0) [.submit 2, .greenlet_new 3, .switch 0, .fire, .worker_loop, .stop,
      .switch 3, .result 0, .switch 1, .set_result 0 (.obj 7), .back_waiter (some 3), .switch 2,
      .finish (.ok ⟨.obj 5, true⟩), .back_waiter none, .fire] = some s ∧ ¬ WakesAll s := by
  refine ⟨_, rfl, fun h => ?_⟩
  obtain ⟨-, hquiet⟩ := h 0 2 _ rfl
  obtain ⟨hwoken, -⟩ := hquiet ⟨rfl, rfl, by decide, by decide⟩
  exact absurd (hwoken 3 (by decide)) (by decide)

end Jega.Executor
