import Jega.Executor.Invariant
import Jega.Executor.Outcome

/-!
# Jega.Executor.Agreement — `done` and `result` of a future

`done` looks at the result and the exception, `result` at the state. A worker
writes both, `set_result` and `set_exception` leave the state as it is, and
`cancel` writes the state and wakes nobody.

## Main results

* `agreement_iff`: the exact condition for the two to agree, along every run.
* `completion_observed`: `set_result` and `set_exception` do resume the one
  greenlet that waits in the switch of `wait_future`, and it observes the outcome.
-/

namespace Jega.Executor

open Trace

/-- A call of `result` or `exception`, by whomever, goes on in its caller. -/
def Immediate (s : St) (f : Fid) : Prop :=
  ∀ g, (St.result { s with current := g } f).current = g

/-- A future that is done makes no call wait. -/
def Agree (s : St) : Prop :=
  ∀ f, FutureObject_done (s.futures f) = true → Immediate s f

/-- The next thing to happen is that `o` goes on in its `result`, and it gets what
a new call would. -/
def Observes (s : St) (f : Fid) (o : Gid) : Prop :=
  (∃ b r, step s b = some r) ∧
    ∀ b r, step s b = some r → r.current = o ∧ r.loc o = .user ∧
      result_waited (r.futures f) = FutureObject_result (r.futures f)

/-- The public ways to complete a future. -/
inductive Completes (f : Fid) : Act → Prop where
  | cancel : Completes f (.cancel f)
  | set_result {v : PyObj} : Completes f (.set_result f v)
  | set_exception {exc_info : Exc} : Completes f (.set_exception f exc_info)

/-- `o` is the one greenlet suspended in `result`. -/
def Waits (s : St) (f : Fid) (o : Gid) : Prop := ∀ g, s.waits f g = true ↔ g = o

/-- If a future becomes done by the call while one greenlet waits for it, that
greenlet observes the outcome. -/
def Wakes (s : St) (a : Act) : Prop :=
  ∀ f o s', step s a = some s' → Completes f a → FutureObject_done (s.futures f) = false →
    FutureObject_done (s'.futures f) = true → Waits s f o → Observes s' f o

/-- `set_result` and `set_exception` are not called on a pending future. -/
def Settles (s : St) : Act → Prop
  | .set_result f _ => (s.futures f).state ≠ .F_PENDING
  | .set_exception f _ => (s.futures f).state ≠ .F_PENDING
  | _ => True

/-- A pending future is not cancelled while exactly one greenlet waits for it. -/
def Unheard (s : St) : Act → Prop
  | .cancel f => (s.futures f).state = .F_PENDING → ∀ o, ¬ Waits s f o
  | _ => True

/-! ## `done` and the state -/

/-- Only a pending future makes a call wait. -/
theorem immediate_iff (s : St) (f : Fid) : Immediate s f ↔ (s.futures f).state ≠ .F_PENDING := by
  constructor
  · intro h hp
    -- a call in the main greenlet switches to the loop
    have hmain := h main_greenlet
    rcases result_cases { s with current := main_greenlet } f with
      ⟨hnot, -⟩ | ⟨-, ⟨hc, -⟩ | ⟨l, -, heq⟩⟩
    · exact hnot hp
    · cases hc
    · rw [heq] at hmain
      cases hmain
  · intro h g
    simp [St.result, h]

/-- Done, and no call waits. -/
def Ready (fut : FutureObject) : Prop :=
  FutureObject_done fut = true → fut.state ≠ .F_PENDING

theorem agree_iff (s : St) : Agree s ↔ ∀ f, Ready (s.futures f) :=
  forall_congr' fun f => imp_congr_right fun _ => immediate_iff s f

theorem ready_congr {fut fut' : FutureObject} (h : fut.outcome = fut'.outcome) :
    Ready fut ↔ Ready fut' := by
  obtain ⟨hd, hs, _⟩ := outcome_congr h
  unfold Ready
  rw [hd, hs]

/-- A worker settles the future it finishes, and `cancel` settles any. -/
theorem ready_of_state {fut : FutureObject} (h : fut.state ≠ .F_PENDING) : Ready fut := fun _ => h

theorem ready_done_iff {fut : FutureObject} (h : FutureObject_done fut = true) :
    Ready fut ↔ fut.state ≠ .F_PENDING :=
  imp_iff_right h

/-- One future is written, and the others are ready. -/
theorem ready_all_iff {s : St} (ha : ∀ f, Ready (s.futures f)) (f : Fid)
    (write : FutureObject → FutureObject) :
    (∀ f', Ready (if f' = f then write (s.futures f') else s.futures f')) ↔
      Ready (write (s.futures f)) := by
  constructor
  · intro hall
    have hf := hall f
    rwa [if_pos rfl] at hf
  · intro hone f'
    by_cases hf : f' = f
    · rw [if_pos hf, hf]
      exact hone
    · rw [if_neg hf]
      exact ha f'

/-- Only `set_result` and `set_exception` may make a pending future done. -/
theorem step_agree_iff (s : St) (a : Act) (s' : St) (h : step s a = some s') (ha : Agree s) :
    Agree s' ↔ Settles s a := by
  have hready := (agree_iff s).1 ha
  have hwritten : Agree s' ↔ ∀ f, Ready (written s f a) :=
    (agree_iff s').trans (forall_congr' fun f => ready_congr (step_outcome h f))
  rw [hwritten]
  cases a with
  | set_result f v =>
    refine (ready_all_iff hready f fun fut => { fut with result := some (.object v) }).trans ?_
    exact ready_done_iff (by simp [FutureObject_done])
  | set_exception f exc_info =>
    refine (ready_all_iff hready f fun fut => { fut with exc_info := some exc_info }).trans ?_
    exact ready_done_iff (by simp [FutureObject_done])
  | cancel f =>
    refine iff_of_true ?_ trivial
    refine (ready_all_iff hready f fun fut => { fut with state := .F_CANCELLED }).2 ?_
    exact ready_of_state (by simp)
  | finish res =>
    refine iff_of_true (fun f => ?_) trivial
    cases res with
    | ok v | error exc_info =>
      simp only [written]
      split
      · exact ready_of_state (by simp)
      · exact hready f
  | _ => exact iff_of_true hready trivial

theorem init_agree (max_workers : Nat) : Agree (init max_workers) := by
  intro f hdone
  exact absurd hdone (by simp [init, FutureObject_init, FutureObject_done])

/-! ## Who observes the outcome -/

/-- A future that its worker finished has an outcome. -/
def Finished (s : St) : Prop :=
  ∀ f, (s.futures f).state = .F_FINISHED → FutureObject_done (s.futures f) = true

theorem init_finished (max_workers : Nat) : Finished (init max_workers) := by
  intro f hstate
  cases hstate

theorem step_finished (s : St) (a : Act) (s' : St) (h : step s a = some s') (hf : Finished s) :
    Finished s' := by
  intro f
  obtain ⟨hd, hs, _⟩ := outcome_congr (step_outcome h f)
  rw [hd, hs]
  have hold := hf f
  cases a with
  | set_result f' v | set_exception f' exc_info | cancel f' =>
    simp only [written]
    split
    · simp [FutureObject_done]
    · exact hold
  | finish res =>
    cases res with
    | ok v | error exc_info =>
      simp only [written]
      split
      · simp [FutureObject_done]
      · exact hold
  | _ => exact hold

/-- A future that is not done is pending. -/
theorem pending_of_not_done {s : St} (hf : Finished s) {f : Fid}
    (hd : FutureObject_done (s.futures f) = false) : (s.futures f).state = .F_PENDING := by
  cases hs : (s.futures f).state with
  | F_PENDING => rfl
  | F_CANCELLED => simp [FutureObject_done, hs] at hd
  | F_FINISHED =>
    rw [hf f hs] at hd
    cases hd

/-- Whoever cancels goes on, and the greenlet that waits is not resumed. -/
theorem cancel_unobserved {s s' : St} {f : Fid} {o : Gid} (h : step s (.cancel f) = some s')
    (ho : Waits s f o) : ¬ Observes s' f o := by
  rintro ⟨_, hall⟩
  have huser : s.loc s.current = .user := by
    rcases step_cases h with ⟨huser, _⟩ | ⟨_, ha, _⟩ | ⟨_, _, _, ha, _⟩
    · exact huser
    · cases ha
    · cases ha
  -- `cancel` wakes nobody: the caller is current as before
  have heq : s' = s.cancel f := by
    simp only [step, huser, user_step] at h
    obtain ⟨_, heq⟩ := Option.ite_none_right_eq_some.1 h
    cases heq
    rfl
  have hcalm := calm_cancel s f
  rw [← heq] at hcalm
  -- it can stop the loop, for one
  have hstop : step s' .stop = some { s' with loop := { s'.loop with state := .L_STOP } } := by
    simp only [step, hcalm.loc, hcalm.current, huser, user_step]
  have hcurrent : s.current = o := by
    have hnext := (hall .stop _ hstop).1
    exact hcalm.current.symm.trans hnext
  have hwait := (ho o).2 rfl
  rw [St.waits, ← hcurrent, huser] at hwait
  simp at hwait

theorem wakes_of_unheard {s : St} {a : Act} (ha : Finished s) (hset : Settles s a)
    (hun : Unheard s a) : Wakes s a := by
  intro f o s' _ hc hnot _ ho
  have hp := pending_of_not_done ha hnot
  cases hc with
  | cancel => exact absurd ho (hun hp o)
  | set_result => exact absurd hp hset
  | set_exception => exact absurd hp hset

theorem unheard_of_wakes {s s' : St} {a : Act} (h : step s a = some s') (ha : Agree s)
    (hw : Wakes s a) : Unheard s a := by
  cases a with
  | cancel f =>
    intro hp o ho
    have hnot : FutureObject_done (s.futures f) = false := by
      rw [Bool.eq_false_iff]
      intro hd
      exact (agree_iff s).1 ha f hd hp
    have hdone : FutureObject_done (s'.futures f) = true := by
      rw [(outcome_congr (step_outcome h f)).1]
      simp [written, FutureObject_done]
    exact cancel_unobserved h ho (hw f o s' h .cancel hnot hdone ho)
  | _ => trivial

/-- In `back_waiter` with one waiter left, the waiter is next. -/
theorem back_waiter_observes {s : St} {f : Fid} {o : Gid} (hl : s.loc s.current = .back_waiter f)
    (hw : (s.futures f).waiters = {o}) (ho : s.loc o = .wait_future f)
    (hs : (s.futures f).state ≠ .F_CANCELLED) : Observes s f o := by
  have hnext : step s (.back_waiter (some o)) = s.back_waiter_next f (some o) := by
    simp only [step, hl]
  constructor
  · refine ⟨.back_waiter (some o), ?_⟩
    rw [hnext]
    simp [St.back_waiter_next, hw]
  · intro b r hr
    rcases step_cases hr with ⟨huser, _⟩ | ⟨hloop, _⟩ | ⟨f', pop, hf', _, hpop⟩
    · rw [hl] at huser
      cases huser
    · rw [hl] at hloop
      cases hloop
    · have hf : f' = f := by
        rw [hl] at hf'
        exact (Where.back_waiter.inj hf').symm
      subst hf
      obtain ⟨_, _, hres, hrep⟩ := outcome_congr (back_waiter_next_outcome hpop f')
      have hreport : result_waited (r.futures f') = FutureObject_result (r.futures f') := by
        rw [hres, hrep, FutureObject_result, if_neg hs]
      -- the set has one element, so whichever is popped is `o`
      rcases back_waiter_next_cases hpop with ⟨_, hempty, _⟩ | ⟨o', _, hmem, heq⟩
      · rw [hw] at hempty
        exact absurd hempty (Finset.singleton_ne_empty o)
      · rw [hw, Finset.mem_singleton] at hmem
        subst hmem
        refine ⟨?_, ?_, hreport⟩
        · rw [heq]
          simp [St.greenlet_switch, ho]
        · rw [heq]
          simp [St.greenlet_switch, ho]

/-- The call enters `back_waiter`, and changes neither the waiters nor where they
are. -/
theorem entered_observes {s s' : St} {f : Fid} {o : Gid} (huser : s.loc s.current = .user)
    (hc : Calm { s with loc := Function.update s.loc s.current (.back_waiter f) } s')
    (hw : (s.futures f).waiters = {o}) (ho : s.loc o = .wait_future f)
    (hs : (s'.futures f).state ≠ .F_CANCELLED) : Observes s' f o := by
  have hne : o ≠ s.current := by
    rintro rfl
    rw [huser] at ho
    cases ho
  refine back_waiter_observes ?_ ((hc.waiters f).trans hw) ?_ hs
  · rw [hc.loc, hc.current]
    exact Function.update_self _ _ _
  · rw [hc.loc]
    exact (Function.update_of_ne hne _ _).trans ho

/-- A pending future that gets its result or its exception resumes the one
greenlet that waits for it in its own switch. -/
theorem completion_observed {max_workers : Nat} {s s' : St} {as : List Act} {a : Act} {f : Fid}
    {o : Gid} (hrun : run step (init max_workers) as = some s) (h : step s a = some s')
    (ha : (∃ v, a = .set_result f v) ∨ ∃ exc_info, a = .set_exception f exc_info)
    (hw : (s.futures f).waiters = {o}) (ho : s.loc o = .wait_future f)
    (hp : (s.futures f).state = .F_PENDING) : Observes s' f o := by
  have hi : Inv s := run_invariant (fun _ _ _ h hi => inv_step h hi) (inv_init max_workers) hrun
  have hstate : (s'.futures f).state ≠ .F_CANCELLED := by
    rw [(outcome_congr (step_outcome h f)).2.1]
    rcases ha with ⟨v, rfl⟩ | ⟨exc_info, rfl⟩
    · simp [written, hp]
    · simp [written, hp]
  rcases step_cases h with ⟨huser, hu⟩ | ⟨_, hloop, _⟩ | ⟨_, _, _, hpop, _⟩
  · refine entered_observes huser ?_ hw ho hstate
    rcases ha with ⟨v, rfl⟩ | ⟨exc_info, rfl⟩
    · obtain ⟨_, heq⟩ := Option.ite_none_right_eq_some.1 hu
      cases heq
      exact calm_set_result (hi.aimed f) (.object v)
    · obtain ⟨_, heq⟩ := Option.ite_none_right_eq_some.1 hu
      cases heq
      exact calm_set_exception (hi.aimed f) exc_info
  · rcases ha with ⟨v, rfl⟩ | ⟨exc_info, rfl⟩ <;> cases hloop
  · rcases ha with ⟨v, rfl⟩ | ⟨exc_info, rfl⟩ <;> cases hpop

/-! ## Runs -/

/-- Along a run `done` and `result` agree, and whoever waits alone observes the
outcome, exactly when no pending future is given a result or an exception by hand
and none is cancelled while exactly one greenlet waits for it. -/
theorem agreement_iff (max_workers : Nat) (as : List Act) (t : St)
    (h : run step (init max_workers) as = some t) :
    (Always step Agree (init max_workers) as ∧ Steps step Wakes (init max_workers) as) ↔
      Steps step (fun s a => Settles s a ∧ Unheard s a) (init max_workers) as := by
  have hkeep : ∀ s a s', step s a = some s' → Settles s a → Agree s → Agree s' :=
    fun s a s' hs hset ha => (step_agree_iff s a s' hs ha).2 hset
  have hagree : Always step Agree (init max_workers) as ↔
      Steps step Settles (init max_workers) as := by
    have hiff : ∀ s a s', step s a = some s' → Agree s → Agree s → (Agree s' ↔ Settles s a) :=
      fun s a s' hs _ ha => step_agree_iff s a s' hs ha
    exact always_iff_steps (fun s a s' hs hset _ ha => hkeep s a s' hs hset ha) hiff
      (init_agree max_workers) (init_agree max_workers) h
  -- the second half is needed in runs of the first half only: there `done` is not
  -- true of a pending future
  rw [hagree, steps_and]
  refine and_congr_right fun hset => ?_
  constructor
  · intro hwakes
    have hboth := steps_and.2 ⟨hset, hwakes⟩
    exact hboth.imp (fun s a s' hs hok ha => hkeep s a s' hs hok.1 ha)
      (fun s a s' hs hok ha => unheard_of_wakes hs ha hok.2) (init_agree max_workers) h
  · intro hun
    have hboth := steps_and.2 ⟨hset, hun⟩
    exact hboth.imp (fun s a s' hs _ hf => step_finished s a s' hs hf)
      (fun s a s' _ hok hf => wakes_of_unheard hf hok.1 hok.2) (init_finished max_workers) h

/-- A worker finishes one future, and another is cancelled while nobody waits. -/
theorem agreement_iff_cancelled : ∃ t, run step (init 0)
    [.submit 2, .greenlet_new 3, .switch 3, .result 0, .fire, .worker_loop,
      .finish (.ok ⟨.obj 5, true⟩), .back_waiter (some 3), .make_future, .cancel 1,
      .result 1] = some t ∧
    ((Always step Agree (init 0)
          [.submit 2, .greenlet_new 3, .switch 3, .result 0, .fire, .worker_loop,
            .finish (.ok ⟨.obj 5, true⟩), .back_waiter (some 3), .make_future, .cancel 1,
            .result 1] ∧
        Steps step Wakes (init 0)
          [.submit 2, .greenlet_new 3, .switch 3, .result 0, .fire, .worker_loop,
            .finish (.ok ⟨.obj 5, true⟩), .back_waiter (some 3), .make_future, .cancel 1,
            .result 1]) ↔
      Steps step (fun s a => Settles s a ∧ Unheard s a) (init 0)
        [.submit 2, .greenlet_new 3, .switch 3, .result 0, .fire, .worker_loop,
          .finish (.ok ⟨.obj 5, true⟩), .back_waiter (some 3), .make_future, .cancel 1,
          .result 1]) := by
  have h : (run step (init 0)
      [.submit 2, .greenlet_new 3, .switch 3, .result 0, .fire, .worker_loop,
        .finish (.ok ⟨.obj 5, true⟩), .back_waiter (some 3), .make_future, .cancel 1,
        .result 1]).any
        (fun t => FutureObject_done (t.futures 0) = true ∧
          FutureObject_done (t.futures 1) = true) = true := by
    decide
  rcases run_any h with ⟨t, ht, _⟩
  exact ⟨t, ht, agreement_iff 0 _ t ht⟩

/-- A future that is given its result by hand is done, and a call of `result`
waits for ever. -/
theorem set_result_pending :
    ¬ ∀ max_workers as t, run step (init max_workers) as = some t →
      Always step Agree (init max_workers) as ∧ Steps step Wakes (init max_workers) as := by
  intro hall
  have h : (run step (init 0) [.make_future, .set_result 0 (.obj 5), .back_waiter none]).any
      (fun t => FutureObject_done (t.futures 0) = true ∧
        (t.futures 0).state = .F_PENDING) = true := by
    decide
  rcases run_any h with ⟨t, ht, hp⟩
  obtain ⟨hdone, hstate⟩ := of_decide_eq_true hp
  have hagree := (hall 0 _ t ht).1.last ht
  exact (agree_iff t).1 hagree 0 hdone hstate

end Jega.Executor
