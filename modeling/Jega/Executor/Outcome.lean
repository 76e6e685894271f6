import Jega.Executor.Steps

/-!
# Jega.Executor.Outcome — what a future tells of its outcome

`done`, `cancelled`, `result` and `exception` read three fields of a future, and
four operations write them, none of which looks at what is there. A worker looks
before it calls the submitted function, not after.

## Main results

* `step_outcome`: what each step writes.
* `outcome_final_iff`: the exact condition for the outcome of a future that is
  done to stay as it is, along every run, and for its result to be an object.
-/

namespace Jega.Executor

open Trace

/-- What `result` returns or raises. -/
inductive Report where
  | CancelledError
  | raises (exc_info : Exc)
  | returns (v : PyObj)
  /-- Whatever is in that memory by then. -/
  | dangling
  /-- "must be set result or exception" -/
  | ValueError
deriving DecidableEq, Repr

/-- What a result pointer is read as. -/
def Pointer.read : Pointer → Report
  | .object v => .returns v
  | .dangling => .dangling

/-- `FutureObject_done`. -/
def FutureObject_done (self : FutureObject) : Bool :=
  self.state = .F_CANCELLED || self.result.isSome || self.exc_info.isSome

/-- `FutureObject_cancelled`. -/
def FutureObject_cancelled (self : FutureObject) : Bool := self.state = .F_CANCELLED

/-- `FutureObject_result` after its `wait_future`. -/
def result_waited (self : FutureObject) : Report :=
  match self.exc_info, self.result with
  | some exc_info, _ => .raises exc_info
  | none, some result => result.read
  | none, none => .ValueError

/-- `FutureObject_result`, once it need not wait. -/
def FutureObject_result (self : FutureObject) : Report :=
  if self.state = .F_CANCELLED then .CancelledError else result_waited self

/-- `FutureObject_exception`, once it need not wait; `none` stands for the
`CancelledError` it raises. -/
def FutureObject_exception (self : FutureObject) : Option (Option Exc) :=
  if self.state = .F_CANCELLED then none else some self.exc_info

/-- A future that is done stays done, with the same outcome. -/
def Lasts (fut fut' : FutureObject) : Prop :=
  FutureObject_done fut = true →
    FutureObject_done fut' = true ∧ FutureObject_cancelled fut' = FutureObject_cancelled fut ∧
      FutureObject_result fut' = FutureObject_result fut ∧
      FutureObject_exception fut' = FutureObject_exception fut

/-- No `result` reads memory that was given back, which anything may change. -/
def Told (s : St) : Prop := ∀ f, FutureObject_result (s.futures f) ≠ .dangling

/-- The step writes nothing else to a future that is done than what it tells
already. -/
def Respects (s : St) : Act → Prop
  | .cancel f =>
    FutureObject_done (s.futures f) = true → (s.futures f).state = .F_CANCELLED
  | .set_result f v =>
    FutureObject_done (s.futures f) = true → (s.futures f).state = .F_CANCELLED ∨
      (s.futures f).exc_info.isSome = true ∨ (s.futures f).result = some (.object v)
  | .set_exception f exc_info =>
    FutureObject_done (s.futures f) = true →
      (s.futures f).state = .F_CANCELLED ∨ (s.futures f).exc_info = some exc_info
  | .finish (.ok v) => ∀ f, s.job s.current = some f →
    FutureObject_done (s.futures f) = true → (s.futures f).state ≠ .F_CANCELLED ∧
      ((s.futures f).exc_info.isSome = true ∨ (s.futures f).result = some v.released)
  | .finish (.error exc_info) => ∀ f, s.job s.current = some f →
    FutureObject_done (s.futures f) = true →
      (s.futures f).state ≠ .F_CANCELLED ∧ (s.futures f).exc_info = some exc_info
  | _ => True

/-- The three fields. -/
def FutureObject.outcome (fut : FutureObject) : future_state × Option Pointer × Option Exc :=
  (fut.state, fut.result, fut.exc_info)

/-- The future after what the step writes. -/
def written (s : St) (f : Fid) : Act → FutureObject
  | .cancel f' => if f = f' then { s.futures f with state := .F_CANCELLED } else s.futures f
  | .set_result f' v =>
    if f = f' then { s.futures f with result := some (.object v) } else s.futures f
  | .set_exception f' exc_info =>
    if f = f' then { s.futures f with exc_info := some exc_info } else s.futures f
  | .finish (.ok v) =>
    if s.job s.current = some f then
      { s.futures f with state := .F_FINISHED, result := some v.released }
    else s.futures f
  | .finish (.error exc_info) =>
    if s.job s.current = some f then
      { s.futures f with state := .F_FINISHED, exc_info := some exc_info }
    else s.futures f
  | _ => s.futures f

/-- Only the three fields are told. -/
theorem outcome_congr {fut fut' : FutureObject} (h : fut.outcome = fut'.outcome) :
    FutureObject_done fut = FutureObject_done fut' ∧ fut.state = fut'.state ∧
      result_waited fut = result_waited fut' ∧
      FutureObject_result fut = FutureObject_result fut' := by
  obtain ⟨state, result, exc_info, _, _, _⟩ := fut
  obtain ⟨state', result', exc_info', _, _, _⟩ := fut'
  simp only [FutureObject.outcome, Prod.mk.injEq] at h
  obtain ⟨hs, hr, he⟩ := h
  subst hs hr he
  exact ⟨rfl, rfl, rfl, rfl⟩

/-- A future that is updated in its other fields keeps the three. -/
theorem outcome_update {futures : Fid → FutureObject} {f : Fid} {fut : FutureObject}
    (h : fut.outcome = (futures f).outcome) (f' : Fid) :
    (Function.update futures f fut f').outcome = (futures f').outcome :=
  update_field FutureObject.outcome h f'

theorem call_callbacks_outcome (s : St) (f f' : Fid) :
    ((s.call_callbacks f).futures f').outcome = (s.futures f').outcome :=
  outcome_update (by rfl) f'

theorem back_waiter_futures (s : St) (f : Fid) : (s.back_waiter f).futures = s.futures := by
  unfold St.back_waiter
  by_cases hw : (s.futures f).waiters = ∅
  · simp only [if_pos hw]
  · simp only [if_neg hw]
    cases (s.futures f).handle with
    | none => rfl
    | some h => rfl

theorem item_done_futures (s : St) : s.item_done.futures = s.futures := by
  rcases item_done_cases s with ⟨heq, _⟩ | ⟨h, _, _, _, heq⟩ | ⟨_, heq⟩
  · rw [heq]
    rfl
  · rw [heq]
    rfl
  · rw [heq]

/-- One future is written, and its callbacks are called. -/
theorem update_outcome (s : St) (f f' : Fid) (fut : FutureObject) :
    ((St.call_callbacks { s with futures := Function.update s.futures f fut } f).futures f').outcome
      = if f' = f then fut.outcome else (s.futures f').outcome := by
  rw [call_callbacks_outcome]
  by_cases hf : f' = f
  · rw [if_pos hf, hf]
    simp only [Function.update_self]
  · rw [if_neg hf]
    simp only [Function.update_of_ne hf]

theorem set_result_outcome (s : St) (f f' : Fid) (v : Pointer) :
    ((s.set_result f v).futures f').outcome =
      if f' = f then ((s.futures f).state, some v, (s.futures f).exc_info)
      else (s.futures f').outcome := by
  unfold St.set_result
  rw [back_waiter_futures]
  exact update_outcome s f f' { s.futures f with result := some v }

theorem set_exception_outcome (s : St) (f f' : Fid) (exc_info : Exc) :
    ((s.set_exception f exc_info).futures f').outcome =
      if f' = f then ((s.futures f).state, (s.futures f).result, some exc_info)
      else (s.futures f').outcome := by
  unfold St.set_exception
  rw [back_waiter_futures]
  exact update_outcome s f f' { s.futures f with exc_info := some exc_info }

/-- A finished item writes its future. -/
theorem finish_outcome (s : St) (f f' : Fid) (res : Except Exc Returned) :
    ((s.run_worker_finish f res).futures f').outcome =
      if f' = f then
        match res with
        | .ok v => (.F_FINISHED, some v.released, (s.futures f).exc_info)
        | .error exc_info => (.F_FINISHED, (s.futures f).result, some exc_info)
      else (s.futures f').outcome := by
  unfold St.run_worker_finish
  cases res with
  | ok v =>
    simp only
    rw [set_result_outcome]
    by_cases hf : f' = f
    · simp [hf]
    · simp [hf]
  | error exc_info =>
    simp only
    rw [set_exception_outcome]
    by_cases hf : f' = f
    · simp [hf]
    · simp [hf]

theorem worker_loop_outcome (s : St) (f : Fid) :
    (s.worker_loop.futures f).outcome = (s.futures f).outcome := by
  have htaken : ∀ f' rest, ((taken s f' rest).futures f).outcome = (s.futures f).outcome :=
    fun f' rest => outcome_update (by rfl) f
  rcases worker_loop_cases s with ⟨_, heq⟩ | ⟨_, heq⟩ | ⟨f', rest, _, _, heq | heq | heq⟩
  · rw [heq]
    rfl
  · rw [heq]
    rfl
  · rw [heq]
  · rw [heq, item_done_futures]
    exact htaken f' rest
  · rw [heq]
    exact htaken f' rest

theorem back_waiter_next_outcome {s s' : St} {f : Fid} {pop : Option Gid}
    (h : s.back_waiter_next f pop = some s') (f' : Fid) :
    (s'.futures f').outcome = (s.futures f').outcome := by
  rcases back_waiter_next_cases h with ⟨_, _, ⟨_, heq⟩ | ⟨_, heq⟩⟩ | ⟨o, _, _, heq⟩
  · rw [heq, item_done_futures]
  · rw [heq]
  · rw [heq]
    exact outcome_update (by rfl) f'

theorem result_outcome (s : St) (f f' : Fid) :
    ((s.result f).futures f').outcome = (s.futures f').outcome := by
  rcases result_cases s f with ⟨-, heq⟩ | ⟨-, ⟨-, heq⟩ | ⟨l, -, heq⟩⟩
  · rw [heq]
  · rw [heq]
    exact outcome_update (by rfl) f'
  · rw [heq]
    exact outcome_update (by rfl) f'

theorem internal_submit_futures (s : St) (w : Gid) : (s.internal_submit w).futures = s.futures := by
  rcases internal_submit_cases s w with ⟨_, heq⟩ | ⟨_, heq⟩
  · rw [heq]
    rfl
  · rw [heq]
    rfl

theorem fire_pendings_futures {s s' : St} (h : s.fire_pendings = some s') :
    s'.futures = s.futures := by
  obtain ⟨_, l, eff, _, _, _, _, _, _, _, _, heq⟩ := fire_pendings_cases h
  rw [heq]
  cases eff with
  | switch g => exact greenlet_switch_futures _ g
  | nothing => rfl
  | call k => rfl

theorem cancel_written (s : St) (f' f : Fid) :
    ((s.cancel f').futures f).outcome = (written s f (.cancel f')).outcome := by
  refine (update_outcome s f' f { s.futures f' with state := .F_CANCELLED }).trans ?_
  by_cases hf : f = f'
  · simp [written, hf]
  · simp [written, hf]

theorem set_result_written (s : St) (f' f : Fid) (v : PyObj) :
    ((s.set_result f' (.object v)).futures f).outcome =
      (written s f (.set_result f' v)).outcome := by
  rw [set_result_outcome]
  by_cases hf : f = f'
  · simp [written, hf, FutureObject.outcome]
  · simp [written, hf]

theorem set_exception_written (s : St) (f' f : Fid) (exc_info : Exc) :
    ((s.set_exception f' exc_info).futures f).outcome =
      (written s f (.set_exception f' exc_info)).outcome := by
  rw [set_exception_outcome]
  by_cases hf : f = f'
  · simp [written, hf, FutureObject.outcome]
  · simp [written, hf]

/-- The item of a worker writes the future of the worker's job. -/
theorem finish_written {s : St} {f' : Fid} (hj : s.job s.current = some f') (f : Fid)
    (res : Except Exc Returned) :
    ((s.run_worker_finish f' res).futures f).outcome = (written s f (.finish res)).outcome := by
  rw [finish_outcome]
  by_cases hf : f = f'
  · subst hf
    cases res with
    | ok v => simp [written, hj, FutureObject.outcome]
    | error exc_info => simp [written, hj, FutureObject.outcome]
  · have hf' : ¬ f' = f := fun heq => hf heq.symm
    cases res with
    | ok v => simp [written, hj, hf, hf']
    | error exc_info => simp [written, hj, hf, hf']

theorem user_step_outcome {s s' : St} {a : Act} (hu : user_step s a = some s') (f : Fid) :
    (s'.futures f).outcome = (written s f a).outcome := by
  cases a with
  | submit w =>
    obtain ⟨_, heq⟩ := Option.ite_none_right_eq_some.1 hu
    cases heq
    rw [internal_submit_futures]
    rfl
  | result f' =>
    obtain ⟨_, heq⟩ := Option.ite_none_right_eq_some.1 hu
    cases heq
    exact result_outcome s f' f
  | cancel f' =>
    obtain ⟨_, heq⟩ := Option.ite_none_right_eq_some.1 hu
    cases heq
    exact cancel_written s f' f
  | set_result f' v =>
    obtain ⟨_, heq⟩ := Option.ite_none_right_eq_some.1 hu
    cases heq
    exact set_result_written s f' f v
  | set_exception f' exc_info =>
    obtain ⟨_, heq⟩ := Option.ite_none_right_eq_some.1 hu
    cases heq
    exact set_exception_written s f' f exc_info
  | finish res =>
    simp only [user_step] at hu
    cases hj : s.job s.current with
    | none => simp [hj] at hu
    | some f' =>
      simp only [hj, Option.some.injEq] at hu
      rw [← hu]
      exact finish_written hj f res
  | add_done_callback f' callable =>
    obtain ⟨_, heq⟩ := Option.ite_none_right_eq_some.1 hu
    cases heq
    unfold St.add_done_callback
    split
    · exact outcome_update (by rfl) f
    · rfl
  | remove_done_callback f' callable =>
    obtain ⟨_, heq⟩ := Option.ite_none_right_eq_some.1 hu
    cases heq
    exact outcome_update (by rfl) f
  | switch o =>
    obtain ⟨_, heq⟩ := Option.ite_none_right_eq_some.1 hu
    cases heq
    rw [greenlet_switch_futures]
    rfl
  | throw o e =>
    obtain ⟨_, heq⟩ := Option.ite_none_right_eq_some.1 hu
    cases heq
    rw [greenlet_throw_futures]
    rfl
  | fire =>
    obtain ⟨_, hf⟩ := Option.ite_none_right_eq_some.1 hu
    rw [fire_pendings_futures hf]
    rfl
  | due timer =>
    obtain ⟨_, hd⟩ := Option.ite_none_right_eq_some.1 hu
    obtain ⟨l, _, heq⟩ := Option.map_eq_some_iff.1 hd
    rw [← heq]
    rfl
  | greenlet_new g | sleep seconds =>
    obtain ⟨_, heq⟩ := Option.ite_none_right_eq_some.1 hu
    cases heq
    rfl
  | make_future | call_later seconds cb | stop | run =>
    cases hu
    rfl
  | worker_loop | back_waiter pop => cases hu

/-- What each step writes to the three fields of each future. -/
theorem step_outcome {s s' : St} {a : Act} (h : step s a = some s') (f : Fid) :
    (s'.futures f).outcome = (written s f a).outcome := by
  rcases step_cases h with ⟨_, hu⟩ | ⟨_, ha, heq⟩ | ⟨f', pop, _, ha, hnext⟩
  · exact user_step_outcome hu f
  · rw [ha, heq]
    exact worker_loop_outcome s f
  · rw [ha]
    exact back_waiter_next_outcome hnext f

/-! ## One step -/

section Lasts

variable {fut fut' : FutureObject}

@[simp] theorem read_eq_read_iff (p q : Pointer) : p.read = q.read ↔ p = q := by
  cases p <;> cases q <;> simp [Pointer.read]

theorem Lasts.refl (fut : FutureObject) : Lasts fut fut := fun hd => ⟨hd, rfl, rfl, rfl⟩

theorem Lasts.trans {fut'' : FutureObject} (h : Lasts fut fut') (h' : Lasts fut' fut'') :
    Lasts fut fut'' := by
  intro hd
  obtain ⟨hd', hc, hr, he⟩ := h hd
  obtain ⟨hd'', hc', hr', he'⟩ := h' hd'
  exact ⟨hd'', hc'.trans hc, hr'.trans hr, he'.trans he⟩

end Lasts

theorem released_ne_dangling_iff (v : Returned) : v.released ≠ .dangling ↔ v.held = true := by
  unfold Returned.released
  cases v.held <;> simp

end Jega.Executor
