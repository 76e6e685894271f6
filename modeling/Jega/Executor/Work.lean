import Jega.Executor.Live

/-!
# Jega.Executor.Work — no item is left behind

`submit` starts a worker while there are fewer than `max_workers`, and counts on
the workers that exist otherwise. But a parked worker stays parked: its handle
is queued once after each item, fires while the queue of items is empty, and
nobody queues it again. A worker that is stuck in its `back_waiter`, and one
that returned because the loop was stopped, are counted as well.

## Main result

* `nothing_stranded`: without a bound on the workers, or if some worker is live
  whenever a step relies on one, an idle loop leaves no item in the queue.
-/

namespace Jega.Executor

open Trace LoopObject

/-- Nothing is queued, and no worker runs or is in a submitted function. -/
def Idle (s : St) : Prop :=
  s.loop.pendings = [] ∧ s.loop.scheduled = [] ∧ (∀ w, s.job w = none) ∧
    s.handle s.current = none

/-- An accepted item is not left queued with nothing that would run it. -/
def NothingStranded (s : St) : Prop := Idle s → s.executor.pendings = []

/-- No item is queued, or a worker other than the one that runs is live. -/
def Relieved (s : St) : Prop :=
  s.executor.pendings = [] ∨ ∃ w ∈ s.workers, w ≠ s.current ∧ Live s w

instance (s : St) : Decidable (Relieved s) :=
  inferInstanceAs (Decidable (_ ∨ ∃ w ∈ s.workers, w ≠ s.current ∧ Live s w))

/-- A bounded executor has a live worker where a step relies on one: when
`submit` starts none, when an item is completed that has too many waiters, and
when a worker comes back to its loop while the loop is stopped. -/
def Staffed (s : St) : Act → Prop
  | .submit _ =>
    s.executor.max_workers = 0 ∨ s.executor.run_workers < s.executor.max_workers ∨
      ∃ w ∈ s.workers, Live s w
  | a =>
    s.executor.max_workers = 0 ∨
      (Covered s a ∧ (Returning s a → s.loop.state ≠ .L_STOP)) ∨ Relieved s

instance (s : St) : ∀ a, Decidable (Staffed s a)
  | .submit _ =>
    inferInstanceAs (Decidable (_ ∨ _ ∨ ∃ w ∈ s.workers, Live s w))
  | .make_future | .greenlet_new .. | .result .. | .cancel .. | .add_done_callback ..
  | .remove_done_callback .. | .set_result .. | .set_exception .. | .call_later .. | .sleep ..
  | .switch .. | .throw .. | .finish .. | .fire | .due .. | .stop | .run | .worker_loop
  | .back_waiter .. =>
    inferInstanceAs (Decidable (_ ∨ (Covered s _ ∧ (Returning s _ → _)) ∨ Relieved s))

/-! ## The queue of items -/

theorem greenlet_switch_executor (s : St) (o : Gid) :
    (s.greenlet_switch o).executor = s.executor ∧ (s.greenlet_switch o).workers = s.workers := by
  rcases greenlet_switch_eq s o with ⟨l, c, h⟩
  rw [h]
  exact ⟨rfl, rfl⟩

theorem item_done_executor (s : St) :
    s.item_done.executor = s.executor ∧ s.item_done.workers = s.workers := by
  rcases item_done_cases s with ⟨heq, -⟩ | ⟨h, -, -, -, heq⟩ | ⟨-, heq⟩
  · rw [heq]
    exact ⟨rfl, rfl⟩
  · rw [heq]
    exact ⟨rfl, rfl⟩
  · rw [heq]
    exact ⟨rfl, rfl⟩

/-- What a step other than a `submit` does to the executor: a worker may take
the head of the queue. -/
theorem executor_step {s s' : St} {a : Act} (h : step s a = some s') (hi : Inv s) :
    (∃ w, a = .submit w ∧ s.loc w = .unborn ∧ s' = s.internal_submit w) ∨
    (s'.workers = s.workers ∧
      (s'.executor = s.executor ∨
        (s.loc s.current = .worker_loop ∧ ∃ f rest, s.executor.pendings = f :: rest ∧
          s'.executor = { s.executor with pendings := rest }))) := by
  rcases step_cases h with ⟨hloc, hu⟩ | ⟨hloc, rfl, rfl⟩ | ⟨f, pop, hloc, rfl, hb⟩
  · -- Case: Python code
    cases user_step_cases hu with
    | calm hc => exact .inr ⟨hc.workers, .inl hc.executor⟩
    | submit hw => exact .inl ⟨_, rfl, hw, rfl⟩
    | greenlet_new _ => exact .inr ⟨rfl, .inl rfl⟩
    | @result f =>
      right
      rcases result_cases s f with ⟨-, heq⟩ | ⟨-, ⟨-, heq⟩ | ⟨l, -, heq⟩⟩
      · rw [heq]
        exact ⟨rfl, .inl rfl⟩
      · rw [heq]
        exact ⟨rfl, .inl rfl⟩
      · rw [heq]
        exact ⟨rfl, .inl rfl⟩
    | enter f hc =>
      have hcalm := hc (hi.aimed f)
      exact .inr ⟨hcalm.workers, .inl hcalm.executor⟩
    | sleep _ => exact .inr ⟨rfl, .inl rfl⟩
    | switch _ _ =>
      obtain ⟨he, hw⟩ := greenlet_switch_executor s _
      exact .inr ⟨hw, .inl he⟩
    | throw _ => exact .inr ⟨rfl, .inl rfl⟩
    | @finish res f hj =>
      have hcalm := calm_run_worker_finish (hi.aimed f) res
      exact .inr ⟨hcalm.workers, .inl hcalm.executor⟩
    | fire _ hf =>
      obtain ⟨item, l, eff, -, -, -, -, -, -, -, -, rfl⟩ := fire_pendings_cases hf
      cases eff with
      | nothing => exact .inr ⟨rfl, .inl rfl⟩
      | switch g =>
        obtain ⟨he, hw⟩ := greenlet_switch_executor { s with loop := l } g
        exact .inr ⟨hw, .inl he⟩
      | call k => exact .inr ⟨rfl, .inl rfl⟩
  · -- Case: the loop of `_worker`, which may take the head of the queue
    right
    rcases worker_loop_cases s with ⟨-, heq⟩ | ⟨-, heq⟩ | ⟨f, rest, hp, -, heq | heq | heq⟩
    · rw [heq]
      exact ⟨rfl, .inl rfl⟩
    · rw [heq]
      exact ⟨rfl, .inl rfl⟩
    · rw [heq]
      exact ⟨rfl, .inr ⟨hloc, f, rest, hp, rfl⟩⟩
    · rw [heq]
      obtain ⟨he, hw⟩ := item_done_executor (taken s f rest)
      exact ⟨hw, .inr ⟨hloc, f, rest, hp, he⟩⟩
    · rw [heq]
      exact ⟨rfl, .inr ⟨hloc, f, rest, hp, rfl⟩⟩
  · -- Case: the loop of `back_waiter`
    right
    rcases back_waiter_next_cases hb with ⟨-, -, ⟨-, rfl⟩ | ⟨-, rfl⟩⟩ | ⟨o, -, -, rfl⟩
    · obtain ⟨he, hw⟩ := item_done_executor s
      exact ⟨hw, .inl he⟩
    · exact ⟨rfl, .inl rfl⟩
    · obtain ⟨he, hw⟩ := greenlet_switch_executor s o
      exact ⟨hw, .inl he⟩

theorem max_workers_step {s s' : St} {a : Act} (h : step s a = some s') (hi : Inv s) :
    s'.executor.max_workers = s.executor.max_workers := by
  rcases executor_step h hi with ⟨w, -, -, rfl⟩ | ⟨-, he | ⟨-, f, rest, -, he⟩⟩
  · rcases internal_submit_cases s w with ⟨-, heq⟩ | ⟨-, heq⟩ <;> rw [heq] <;> rfl
  · rw [he]
  · rw [he]

/-! ## Bounded executors -/

/-- As long as an item is queued, some worker is live. -/
def Manned (s : St) : Prop :=
  s.executor.pendings ≠ [] → ∃ w ∈ s.workers, Live s w

/-- The worker that `submit` starts is queued. -/
theorem live_hired {s : St} {w : Gid} (hi : Inv s) (hw : s.loc w = .unborn) :
    Live (hired s w) w := by
  have hinv := hi.hire hw
  have hloc : (hired s w).loc w = .unstarted := Function.update_self _ _ _
  refine ⟨(hinv.worker w (.inl hloc)).1, .inr ?_⟩
  rw [hloc]
  show 0 < (s.loop.loop_schedule_call 0 none (some w)).1.queued (.switch w)
  rw [queued_loop_schedule_call, aim_switch, if_pos rfl]
  omega

/-- One live worker is enough, and it stays so where a step does not rely on
it. -/
theorem manned_step {s s' : St} {a : Act} (h : step s a = some s') (hok : Staffed s a)
    (hi : Inv s) (hm : s.executor.max_workers ≠ 0) (hs : Manned s) : Manned s' := by
  intro hp'
  rcases executor_step h hi with ⟨w, rfl, hw, rfl⟩ | ⟨hworkers, he⟩
  · rcases internal_submit_cases s w with ⟨-, heq⟩ | ⟨hfull, heq⟩
    · -- a worker was started, and it is queued
      rw [heq]
      exact ⟨w, List.mem_append_right _ (List.mem_singleton_self w), live_hired hi.push hw⟩
    · -- no worker was started, so a live one is there
      rcases hok with h0 | hless | ⟨w₁, hmem, hl⟩
      · exact absurd h0 hm
      · exact absurd (.inr hless) hfull
      · have hl' := hl.submit hi hw
        rw [heq] at hl' ⊢
        exact ⟨w₁, hmem, hl'⟩
  · -- Case: any other step
    have hp : s.executor.pendings ≠ [] := by
      rcases he with he | ⟨-, f, rest, hp, -⟩
      · rwa [he] at hp'
      · rw [hp]
        exact List.cons_ne_nil f rest
    rw [hworkers]
    -- a live worker that the step is no danger to
    have hkeep : ∀ w ∈ s.workers, Live s w → (w = s.current → Covered s a) →
        (w = s.current → Returning s a → s.loop.state ≠ .L_STOP) →
          ∃ w ∈ s.workers, Live s' w := by
      intro w hmem hl hcov hstop
      rcases live_step h hi hl hcov with hl' | ⟨⟨hw, ⟨-, hnil⟩ | ⟨-, hwhy⟩⟩, hret⟩
      · exact ⟨w, hmem, hl'⟩
      · exact absurd hnil hp'
      · rcases hwhy with hwhy | hwhy
        · exact absurd hwhy (hstop hw hret)
        · exact absurd hwhy hm
    have hcase : s.executor.max_workers = 0 ∨
        (Covered s a ∧ (Returning s a → s.loop.state ≠ .L_STOP)) ∨ Relieved s := by
      cases a with
      | submit w => exact .inr (.inl ⟨trivial, fun hr => hr.elim⟩)
      | _ => exact hok
    rcases hcase with h0 | ⟨hcov, hstop⟩ | hnil | ⟨w, hmem, hne, hl⟩
    · exact absurd h0 hm
    · obtain ⟨w, hmem, hl⟩ := hs hp
      exact hkeep w hmem hl (fun _ => hcov) (fun _ => hstop)
    · exact absurd hnil hp
    · exact hkeep w hmem hl (fun hc => absurd hc hne) (fun hc => absurd hc hne)

/-- In an idle state nobody is live. -/
theorem Idle.not_live {s : St} (hidle : Idle s) (w : Gid) : ¬ Live s w := by
  intro hl
  obtain ⟨hp, -, hj, hc⟩ := hidle
  have hne : w ≠ s.current := by
    rintro rfl
    exact hl.1 hc
  have hq : s.loop.queued (.switch w) = 0 := by
    simp [queued, hp]
  rcases (hl.due (hj w)).cases with ⟨-, hcur⟩ | ⟨-, hpos⟩ | ⟨f, -, hcount⟩
  · exact hne hcur
  · omega
  · rw [if_neg hne] at hcount
    omega

/-! ## Unbounded executors -/

/-- One item more can be served while a worker is about to take one. -/
def taking (s : St) : Nat :=
  if s.loc s.current = .worker_loop ∧ s.loop.state ≠ .L_STOP then 1 else 0

theorem taking_elsewhere {s : St} (hloc : s.loc s.current ≠ .worker_loop) : taking s = 0 :=
  if_neg fun hc => hloc hc.1

/-- There are as many queued workers as items. -/
def Reserved (s : St) : Prop :=
  ∃ ws : Finset Gid, s.executor.pendings.length ≤ ws.card + taking s ∧
    ∀ w ∈ ws, s.loc w = .unstarted ∧ 0 < s.loop.queued (.switch w)

theorem greenlet_switch_loc_of_ne {s : St} {o w : Gid} (hw : w ≠ o) :
    (s.greenlet_switch o).loc w = s.loc w :=
  (greenlet_switch_spec s o).2.2.2.2.2 w hw

theorem item_done_loc_of_ne {s : St} {w : Gid} (hw : w ≠ s.current) :
    s.item_done.loc w = s.loc w := by
  rcases item_done_cases s with ⟨heq, -⟩ | ⟨h, -, -, -, heq⟩ | ⟨-, heq⟩
  · rw [heq]
    exact Function.update_of_ne hw _ _
  · rw [heq]
    exact Function.update_of_ne hw _ _
  · rw [heq]
    exact Function.update_of_ne hw _ _

theorem worker_loop_loc_of_ne {s : St} {w : Gid} (hw : w ≠ s.current) :
    s.worker_loop.loc w = s.loc w := by
  rcases worker_loop_cases s with ⟨-, heq⟩ | ⟨-, heq⟩ | ⟨f, rest, -, -, heq | heq | heq⟩
  · rw [heq]
    exact Function.update_of_ne hw _ _
  · rw [heq]
    exact Function.update_of_ne hw _ _
  · rw [heq]
  · rw [heq]
    exact item_done_loc_of_ne (s := taken s f rest) hw
  · rw [heq]
    exact Function.update_of_ne hw _ _

theorem unstarted_elsewhere {s : St} {w g : Gid} (hw : s.loc w = .unstarted)
    (hg : s.loc g ≠ .unstarted) : w ≠ g := by
  rintro rfl
  exact hg hw

/-- An unstarted worker stays where it is until it is switched into, which a
stopped loop does not do. -/
theorem unstarted_step {s s' : St} {a : Act} {w : Gid} (h : step s a = some s') (hi : Inv s)
    (hw : s.loc w = .unstarted) :
    s'.loc w = .unstarted ∨
      (w = s'.current ∧ s'.loc w = .worker_loop ∧ s'.loop.state ≠ .L_STOP) := by
  rcases step_cases h with ⟨hloc, hu⟩ | ⟨hloc, rfl, rfl⟩ | ⟨f, pop, hloc, rfl, hb⟩
  · -- Case: Python code; only the loop switches into an unstarted worker
    have hne : w ≠ s.current := unstarted_elsewhere hw (by simp [hloc])
    cases user_step_cases hu with
    | calm hc => exact .inl (by rw [hc.loc, hw])
    | @submit w' hw' =>
      have hww : w ≠ w' := unstarted_elsewhere hw (by simp [hw'])
      rcases internal_submit_cases s w' with ⟨-, heq⟩ | ⟨-, heq⟩
      · rw [heq]
        exact .inl ((Function.update_of_ne hww _ _).trans hw)
      · rw [heq]
        exact .inl hw
    | @greenlet_new g hg =>
      have hwg : w ≠ g := unstarted_elsewhere hw (by simp [hg])
      exact .inl ((Function.update_of_ne hwg _ _).trans hw)
    | @result f =>
      left
      rcases result_cases s f with ⟨-, heq⟩ | ⟨-, ⟨-, heq⟩ | ⟨l, -, heq⟩⟩
      · rw [heq]
        exact hw
      · rw [heq]
        exact hw
      · rw [heq]
        exact (Function.update_of_ne hne _ _).trans hw
    | enter f hc =>
      left
      rw [(hc (hi.aimed f)).loc]
      exact (Function.update_of_ne hne _ _).trans hw
    | sleep _ => exact .inl hw
    | @switch _ o _ ho =>
      have hwo : w ≠ o := unstarted_elsewhere hw ho
      exact .inl ((greenlet_switch_loc_of_ne hwo).trans hw)
    | @throw _ o f ho =>
      have hwo : w ≠ o := unstarted_elsewhere hw (by simp [ho])
      exact .inl ((Function.update_of_ne hwo _ _).trans hw)
    | @finish res f hj =>
      left
      rw [(calm_run_worker_finish (hi.aimed f) res).loc]
      exact (Function.update_of_ne hne _ _).trans hw
    | fire _ hf =>
      obtain ⟨item, l, eff, -, hrun, hst, -, -, -, -, -, rfl⟩ := fire_pendings_cases hf
      cases eff with
      | nothing => exact .inl hw
      | switch g =>
        by_cases hwg : w = g
        · subst hwg
          right
          simp only [St.greenlet_switch, hw, Function.update_self]
          exact ⟨trivial, trivial, hst ▸ hrun⟩
        · left
          exact (greenlet_switch_loc_of_ne (s := { s with loop := l }) hwg).trans hw
      | call k => exact .inl hw
  · -- Case: the loop of `_worker` moves the worker that runs
    have hne : w ≠ s.current := unstarted_elsewhere hw (by simp [hloc])
    exact .inl ((worker_loop_loc_of_ne hne).trans hw)
  · -- Case: the loop of `back_waiter` switches into waiters
    have hne : w ≠ s.current := unstarted_elsewhere hw (by simp [hloc])
    rcases back_waiter_next_cases hb with ⟨-, -, ⟨-, rfl⟩ | ⟨-, rfl⟩⟩ | ⟨o, -, hmem, rfl⟩
    · exact .inl ((item_done_loc_of_ne hne).trans hw)
    · exact .inl ((Function.update_of_ne hne _ _).trans hw)
    · -- a waiter was started
      have hwo : w ≠ o := unstarted_elsewhere hw (hi.started f o hmem).2
      exact .inl ((greenlet_switch_loc_of_ne hwo).trans hw)

/-- Elsewhere than at the worker loop no item is taken, and none is queued
unless by `submit`. -/
theorem items_elsewhere {s s' : St} {a : Act} (h : step s a = some s') (hi : Inv s)
    (hne : ∀ w, a ≠ .submit w) (hloc : s.loc s.current ≠ .worker_loop) :
    s'.executor.pendings.length ≤ s.executor.pendings.length - taking s := by
  rw [taking_elsewhere hloc]
  rcases executor_step h hi with ⟨w, ha, -⟩ | ⟨-, he | ⟨hl, -⟩⟩
  · exact absurd ha (hne w)
  · rw [he]
    exact Nat.le_refl _
  · exact absurd hl hloc

/-- A worker that is about to take an item takes one, unless there is none. -/
theorem items_step {s s' : St} {a : Act} (h : step s a = some s') (hi : Inv s)
    (hne : ∀ w, a ≠ .submit w) :
    s'.executor.pendings.length ≤ s.executor.pendings.length - taking s := by
  rcases step_cases h with ⟨hloc, -⟩ | ⟨-, -, rfl⟩ | ⟨f, pop, hloc, -, -⟩
  · -- Case: Python code
    exact items_elsewhere h hi hne (by simp [hloc])
  · -- Case: the loop of `_worker`
    rcases worker_loop_cases s with ⟨hs, heq⟩ | ⟨hp, heq⟩ | ⟨f, rest, hp, -, heq⟩
    · -- the loop was stopped, so no item was about to be taken
      have htake : taking s = 0 := if_neg (fun hc => hc.2 hs)
      rw [heq, htake]
      exact Nat.le_refl _
    · -- there was no item to take
      rw [heq]
      show s.executor.pendings.length ≤ _
      rw [hp]
      exact Nat.zero_le _
    · -- the head of the queue is taken
      have htake : taking s ≤ 1 := by
        unfold taking
        split <;> omega
      have hrest : s.worker_loop.executor.pendings = rest := by
        rcases heq with heq | heq | heq
        · rw [heq]
        · rw [heq]
          exact congrArg ExecutorObject.pendings (item_done_executor (taken s f rest)).1
        · rw [heq]
          rfl
      rw [hrest, hp, List.length_cons]
      omega
  · -- Case: the loop of `back_waiter`
    exact items_elsewhere h hi hne (by simp [hloc])

theorem reserved_submit {s : St} {w : Gid} (hi : Inv s) (hw : s.loc w = .unborn)
    (hloc : s.loc s.current = .user) (hm : s.executor.max_workers = 0) (hr : Reserved s) :
    Reserved (s.internal_submit w) := by
  obtain ⟨ws, hlen, hws⟩ := hr
  rcases internal_submit_cases s w with ⟨-, heq⟩ | ⟨hfull, -⟩
  · rw [heq]
    have hnew : w ∉ ws := by
      intro hmem
      have hl := (hws w hmem).1
      rw [hw] at hl
      cases hl
    refine ⟨insert w ws, ?_, ?_⟩
    · rw [Finset.card_insert_of_notMem hnew]
      show (s.executor.pendings ++ [s.next]).length ≤ _
      rw [List.length_append, List.length_singleton]
      rw [taking_elsewhere (by simp [hloc])] at hlen
      omega
    · intro w' hmem'
      rcases Finset.mem_insert.1 hmem' with rfl | hmem
      · have hlive := live_hired hi.push hw
        have hl : (hired (pushed s) w').loc w' = .unstarted := Function.update_self _ _ _
        refine ⟨hl, ?_⟩
        have hjob := ((hi.push.hire hw).worker w' (.inl hl)).2
        have hdue := hlive.due hjob
        rw [hl] at hdue
        exact hdue
      · have hne : w' ≠ w := by
          rintro rfl
          exact hnew hmem
        obtain ⟨hl, hq⟩ := hws w' hmem
        refine ⟨(Function.update_of_ne hne _ _).trans hl, ?_⟩
        exact Nat.lt_of_lt_of_le hq
          ((grows_loop_schedule_call s.loop 0 none (some w)).queued (.switch w'))
  · exact absurd (.inl hm) hfull

/-- The queued workers stay so, but for one that is switched into and is about
to take an item. -/
theorem reserved_step {s s' : St} {a : Act} (h : step s a = some s') (hi : Inv s)
    (hm : s.executor.max_workers = 0) (hr : Reserved s) : Reserved s' := by
  by_cases hsub : ∃ w, a = .submit w
  · -- Case: a submit starts a worker for its item
    obtain ⟨w, rfl⟩ := hsub
    rcases step_cases h with ⟨hloc, hu⟩ | ⟨-, ha, -⟩ | ⟨f, pop, -, ha, -⟩
    · obtain ⟨hw, ⟨⟩⟩ := Option.ite_none_right_eq_some.1 hu
      exact reserved_submit hi hw hloc hm hr
    · cases ha
    · cases ha
  · -- Case: any other step; the workers that are still unstarted stay queued
    have hitems := items_step h hi (fun w ha => hsub ⟨w, ha⟩)
    obtain ⟨ws, hlen, hws⟩ := hr
    refine ⟨ws.filter fun w => s'.loc w = Where.unstarted, ?_, ?_⟩
    · have hcard : ws.card ≤ (ws.filter fun w => s'.loc w = Where.unstarted).card + taking s' := by
        by_cases hall : ∀ w ∈ ws, s'.loc w = .unstarted
        · rw [Finset.filter_true_of_mem hall]
          omega
        · -- the one that was switched into is about to take an item
          obtain ⟨w, hmem, hmoved⟩ : ∃ w ∈ ws, s'.loc w ≠ .unstarted := by
            simpa using hall
          obtain ⟨hw, hl, hrun⟩ := (unstarted_step h hi (hws w hmem).1).resolve_left hmoved
          have htake : taking s' = 1 := if_pos ⟨hw ▸ hl, hrun⟩
          have hsub : ws.erase w ⊆ ws.filter fun w => s'.loc w = Where.unstarted := by
            intro w' hw'
            obtain ⟨hne, hmem'⟩ := Finset.mem_erase.1 hw'
            rw [Finset.mem_filter]
            refine ⟨hmem', (unstarted_step h hi (hws w' hmem').1).resolve_right ?_⟩
            rintro ⟨hw', -⟩
            exact hne (hw'.trans hw.symm)
          have hle := Finset.card_le_card hsub
          have herase := Finset.card_erase_add_one hmem
          omega
      omega
    · intro w hmem
      obtain ⟨hmem, hl'⟩ := Finset.mem_filter.1 hmem
      obtain ⟨hl, hq⟩ := hws w hmem
      have hworker := hi.worker w (.inl hl)
      have hlive : Live s w := by
        refine ⟨hworker.1, .inr ?_⟩
        rw [hl]
        exact hq
      have hne : w ≠ s.current := by
        rcases step_cases h with ⟨hloc, -⟩ | ⟨hloc, -, -⟩ | ⟨f, pop, hloc, -, -⟩ <;>
          exact unstarted_elsewhere hl (by simp [hloc])
      have hlive' := (live_step h hi hlive (fun hc => absurd hc hne)).resolve_right
        (fun hret => hne hret.1.1)
      have hjob := ((inv_step h hi).worker w (.inl hl')).2
      have hdue := hlive'.due hjob
      rw [hl'] at hdue
      exact ⟨hl', hdue⟩

/-! ## Runs -/

/-- What provides for the queued items: queued workers if there is no bound on
them, a live one otherwise. -/
structure Provided (s : St) : Prop where
  inv : Inv s
  unbounded : s.executor.max_workers = 0 → Reserved s
  bounded : s.executor.max_workers ≠ 0 → Manned s

theorem provided_init (max_workers : Nat) : Provided (init max_workers) where
  inv := inv_init max_workers
  unbounded := fun _ => ⟨∅, Nat.zero_le _, fun _ h => absurd h (Finset.notMem_empty _)⟩
  bounded := fun _ h => absurd rfl h

theorem provided_step {s s' : St} {a : Act} (h : step s a = some s') (hok : Staffed s a)
    (hp : Provided s) : Provided s' where
  inv := inv_step h hp.inv
  unbounded := by
    intro hm
    rw [max_workers_step h hp.inv] at hm
    exact reserved_step h hp.inv hm (hp.unbounded hm)
  bounded := by
    intro hm
    rw [max_workers_step h hp.inv] at hm
    exact manned_step h hok hp.inv hm (hp.bounded hm)

theorem Provided.nothingStranded {s : St} (hp : Provided s) : NothingStranded s := by
  intro hidle
  by_cases hm : s.executor.max_workers = 0
  · -- Case: no bound; a queued worker would be in the queue of the loop
    obtain ⟨ws, hlen, hws⟩ := hp.unbounded hm
    have hempty : ws = ∅ := by
      apply Finset.eq_empty_of_forall_notMem
      intro w hmem
      have hq := (hws w hmem).2
      simp [queued, hidle.1] at hq
    have htake : taking s = 0 :=
      taking_elsewhere fun hl => (hp.inv.worker _ (.inr (.inl hl))).1 hidle.2.2.2
    rw [hempty, htake] at hlen
    exact List.eq_nil_of_length_eq_zero (Nat.le_zero.1 hlen)
  · -- Case: a bound; a live worker would have something left to do
    by_contra hne
    obtain ⟨w, -, hl⟩ := hp.bounded hm hne
    exact hidle.not_live w hl

/-- In every run whose steps find a live worker where they rely on one, an idle
loop leaves no item in the queue. Without a bound on the workers that is every
run. -/
theorem nothing_stranded {max_workers : Nat} {s : St} {as : List Act}
    (hrun : run step (init max_workers) as = some s)
    (hok : Steps step Staffed (init max_workers) as) : NothingStranded s :=
  (run_invariant_steps (fun _ _ _ h ha hp => provided_step h ha hp) (provided_init max_workers)
    hok hrun).nothingStranded

/-- One worker, and two items submitted before it starts. -/
theorem nothing_stranded_early :
    ∃ s, run step (init 1) [.submit 2, .submit 3, .switch 0, .fire, .worker_loop,
      .finish (.ok ⟨.obj 5, true⟩), .back_waiter none, .worker_loop, .finish (.ok ⟨.obj 6, true⟩),
      .back_waiter none, .worker_loop, .fire, .worker_loop, .fire, .worker_loop] = some s ∧
      s.loop.pendings = [] ∧ NothingStranded s := by
  have hrun : (run step (init 1) [.submit 2, .submit 3, .switch 0, .fire, .worker_loop,
      .finish (.ok ⟨.obj 5, true⟩), .back_waiter none, .worker_loop, .finish (.ok ⟨.obj 6, true⟩),
      .back_waiter none, .worker_loop, .fire, .worker_loop, .fire, .worker_loop]).any
        (fun s => decide (s.loop.pendings = [])) = true := by
    decide
  have hok : Steps step Staffed (init 1) [.submit 2, .submit 3, .switch 0, .fire, .worker_loop,
      .finish (.ok ⟨.obj 5, true⟩), .back_waiter none, .worker_loop, .finish (.ok ⟨.obj 6, true⟩),
      .back_waiter none, .worker_loop, .fire, .worker_loop, .fire, .worker_loop] := by
    decide
  obtain ⟨s, hs, hp⟩ := run_any hrun
  exact ⟨s, hs, of_decide_eq_true hp, nothing_stranded hs hok⟩

/-- One worker, which has parked when the second item is submitted. -/
theorem parked_worker_strands_item :
    ∃ s, run step (init 1) [.submit 2, .switch 0, .fire, .worker_loop, .finish (.ok ⟨.obj 5, true⟩),
      .back_waiter none, .worker_loop, .fire, .worker_loop, .switch 1, .submit 3, .switch 0] =
        some s ∧ ¬ NothingStranded s := by
  refine ⟨_, rfl, fun h => ?_⟩
  have hidle := h ⟨rfl, rfl, fun w => ?_, rfl⟩
  · cases hidle
  · show Function.update (Function.update (fun _ => none) 2 (some 0)) 2 none w = none
    rw [Function.update_idem]
    exact congrFun (Function.update_eq_self (2 : Gid) (fun _ => none)) w

end Jega.Executor
