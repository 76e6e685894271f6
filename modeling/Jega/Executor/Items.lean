import Jega.Executor.Agreement
import Jega.Executor.Invariant
import Jega.Trace.History

/-!
# Jega.Executor.Items — the order of the calls and what they leave behind

Several workers shift items off one queue and each may be suspended in the
function it calls. `run_worker` gives up its reference to what the function
returned before it hands the object to `set_result`, so an object that nothing
else refers to is deallocated, and the future is left with a dangling pointer.

The record of a run is history and no function reads it.

## Main results

* `step_items`: what each step does to the queue of items and to the jobs.
* `items_iff`: the exact condition for every item to be treated as its
  submitter may expect, along every run.
-/

namespace Jega.Executor

open Trace

/-! ## Runs and their record -/

/-- The step is a call on `f` that completes or cancels it from outside of its
worker. -/
def Touches (f : Fid) : Act → Prop
  | .cancel f' => f' = f
  | .set_result f' _ => f' = f
  | .set_exception f' _ => f' = f
  | _ => False

instance (f : Fid) : DecidablePred (Touches f) := fun a => by
  unfold Touches
  split <;> infer_instance

structure Record where
  submitted : List Fid
  /-- The items whose functions were called, in the order of the calls. -/
  started : List Fid
  /-- The items that were seen in the queue with a future that was done. -/
  barred : Fid → Bool
  /-- The futures that were completed or cancelled by somebody else. -/
  touched : Fid → Bool
  /-- What a submitted function returned or raised. -/
  outcome : Fid → Option (Except Exc Returned)

namespace Record

def empty : Record := ⟨[], [], fun _ => false, fun _ => false, fun _ => none⟩

def submit (s : St) (submitted : List Fid) : Act → List Fid
  | .submit _ => submitted ++ [s.next]
  | _ => submitted

/-- A round of the loop of `_worker` that ends in Python code has called the
function of its job. -/
def start (s s' : St) (started : List Fid) : Act → List Fid
  | .worker_loop =>
    match s'.loc s.current, s'.job s.current with
    | .user, some f => started ++ [f]
    | _, _ => started
  | _ => started

def finish (s : St) (outcome : Fid → Option (Except Exc Returned)) :
    Act → Fid → Option (Except Exc Returned)
  | .finish res => fun f => if s.job s.current = some f then some res else outcome f
  | _ => outcome

/-- The record after a step. -/
def note (s : St) (a : Act) (s' : St) (r : Record) : Record where
  submitted := submit s r.submitted a
  started := start s s' r.started a
  barred := fun f => r.barred f || (f ∈ s.executor.pendings && FutureObject_done (s.futures f))
  touched := fun f => r.touched f || decide (Touches f a)
  outcome := finish s r.outcome a

end Record

abbrev recorded := watch step Record.note

def recorded_init (max_workers : Nat) : Watched St Record := ⟨init max_workers, .empty⟩

/-- The future holds what its function returned or raised, and nothing else. -/
def Holds (t : Watched St Record) (f : Fid) : Except Exc Returned → Prop
  | .ok v => (t.st.futures f).outcome = (.F_FINISHED, some (.object v.v), none)
  | .error exc_info => (t.st.futures f).outcome = (.F_FINISHED, none, some exc_info)

/-- What a submitter may expect: functions are called at most once and in the
order they came, none whose future was done while it was in the queue, and an
untouched future holds what its own function left. -/
structure Faithful (t : Watched St Record) : Prop where
  distinct : t.hist.submitted.Nodup
  order : t.hist.started.Sublist t.hist.submitted
  barred : ∀ f, t.hist.barred f = true → f ∉ t.hist.started
  holds : ∀ f res, t.hist.touched f = false → t.hist.outcome f = some res → Holds t f res

/-- The object that a submitted function returns has another reference, or
somebody else has settled its future. -/
def Referenced (t : Watched St Record) : Act → Prop
  | .finish (.ok v) =>
    ∀ f, t.st.job t.st.current = some f → t.hist.touched f = false → v.held = true
  | _ => True

/-! ## What a step does to the items -/

/-- What the proofs about items look at. -/
def items (s : St) : List Fid × (Gid → Option Fid) × Fid := (s.executor.pendings, s.job, s.next)

/-- A submission adds an item, a returning function ends a job, a round of the
loop of `_worker` starts one or does not, and nothing else touches them. -/
inductive ItemStep (s : St) : Act → St → Prop where
  | submit {w : Gid} {s' : St} : items s' = (s.executor.pendings ++ [s.next], s.job, s.next + 1) →
      ItemStep s (.submit w) s'
  | finish {res : Except Exc Returned} {f : Fid} {s' : St} : s.job s.current = some f →
      items s' = (s.executor.pendings, Function.update s.job s.current none, s.next) →
      ItemStep s (.finish res) s'
  | call {f : Fid} {rest : List Fid} {s' : St} : s.executor.pendings = f :: rest →
      FutureObject_done (s.futures f) = false → s'.loc s.current = .user →
      items s' = (rest, Function.update s.job s.current (some f), s.next) →
      ItemStep s .worker_loop s'
  | drop {s' : St} : s'.loc s.current ≠ .user → s'.executor.pendings <:+ s.executor.pendings →
      s'.job = s.job → s'.next = s.next → ItemStep s .worker_loop s'
  | other {a : Act} {s' : St} : (∀ w, a ≠ .submit w) → (∀ res, a ≠ .finish res) →
      a ≠ .worker_loop → s'.executor.pendings = s.executor.pendings → s'.job = s.job →
      s.next ≤ s'.next → ItemStep s a s'

theorem greenlet_switch_items (s : St) (o : Gid) : items (s.greenlet_switch o) = items s := by
  rcases greenlet_switch_eq s o with ⟨l, c, h⟩
  rw [h]
  rfl

theorem greenlet_throw_items (s : St) (o : Gid) : items (s.greenlet_throw o) = items s := by
  rcases greenlet_throw_eq s o with ⟨l, c, h⟩
  rw [h]
  rfl

theorem back_waiter_items (s : St) (f : Fid) : items (s.back_waiter f) = items s := by
  unfold St.back_waiter
  by_cases hw : (s.futures f).waiters = ∅
  · simp only [if_pos hw]
    rfl
  · simp only [if_neg hw]
    cases (s.futures f).handle with
    | none => rfl
    | some handle => rfl

theorem set_result_items (s : St) (f : Fid) (v : Pointer) : items (s.set_result f v) = items s := by
  unfold St.set_result
  rw [back_waiter_items]
  rfl

theorem set_exception_items (s : St) (f : Fid) (exc_info : Exc) :
    items (s.set_exception f exc_info) = items s := by
  unfold St.set_exception
  rw [back_waiter_items]
  rfl

theorem finish_items (s : St) (f : Fid) (res : Except Exc Returned) :
    items (s.run_worker_finish f res) =
      (s.executor.pendings, Function.update s.job s.current none, s.next) := by
  unfold St.run_worker_finish
  cases res with
  | ok v =>
    simp only
    rw [set_result_items]
    rfl
  | error exc_info =>
    simp only
    rw [set_exception_items]
    rfl

theorem result_items (s : St) (f : Fid) : items (s.result f) = items s := by
  rcases result_cases s f with ⟨-, heq⟩ | ⟨-, ⟨-, heq⟩ | ⟨l, -, heq⟩⟩
  · rw [heq]
  · rw [heq]
    rfl
  · rw [heq]
    rfl

theorem item_done_items (s : St) : items s.item_done = items s := by
  rcases item_done_cases s with ⟨heq, _⟩ | ⟨h, _, _, _, heq⟩ | ⟨_, heq⟩
  · rw [heq]
    rfl
  · rw [heq]
    rfl
  · rw [heq]
    rfl

/-- After an item the worker is not in Python code. -/
theorem item_done_user (s : St) : s.item_done.loc s.current ≠ .user := by
  rcases item_done_cases s with ⟨heq, _⟩ | ⟨handle, _, _, _, heq⟩ | ⟨_, heq⟩
  · rw [heq]
    simp [St.worker_exit, St.loop_switch]
  · rw [heq]
    simp
  · rw [heq]
    simp

/-- A round of the loop of `_worker` tests the future of the item twice before it
calls the function. -/
theorem worker_loop_items {s : St} (hloc : s.loc s.current = .worker_loop) :
    ItemStep s .worker_loop s.worker_loop := by
  unfold St.worker_loop St.check_interrupted
  by_cases hs : s.loop.state = .L_STOP
  · -- Case: the loop was stopped
    simp only [hs, decide_true, if_true]
    exact .drop (by simp [St.worker_exit, St.loop_switch]) List.suffix_rfl rfl rfl
  simp only [hs, decide_false, Bool.false_eq_true, if_false]
  cases hp : s.executor.pendings with
  | nil =>
    -- Case: the worker parks
    refine .drop (by simp [St.loop_switch]) ?_ rfl rfl
    show s.executor.pendings <:+ s.executor.pendings
    exact List.suffix_rfl
  | cons f rest =>
    simp only
    have hsuffix : rest <:+ s.executor.pendings := hp ▸ List.suffix_cons f rest
    by_cases hst : (s.futures f).state = .F_PENDING
    · rw [if_neg (not_not.2 hst), St.run_worker]
      simp only [Function.update_self]
      split
      · -- Case: the future has a result or an exception
        refine .drop (item_done_user _) ?_ ?_ ?_
        · rw [show ∀ r : St, r.executor.pendings = (items r).1 from fun _ => rfl, item_done_items]
          exact hsuffix
        · rw [show ∀ r : St, r.job = (items r).2.1 from fun _ => rfl, item_done_items]
          rfl
        · rw [show ∀ r : St, r.next = (items r).2.2 from fun _ => rfl, item_done_items]
          rfl
      · -- Case: the function is called
        next hnone =>
          refine .call hp ?_ (by simp) rfl
          simpa [FutureObject_done, hst] using hnone
    · -- Case: the future was cancelled
      rw [if_pos hst]
      refine .drop ?_ hsuffix rfl rfl
      show s.loc s.current ≠ .user
      rw [hloc]
      simp

theorem internal_submit_items (s : St) (w : Gid) :
    items (s.internal_submit w) = (s.executor.pendings ++ [s.next], s.job, s.next + 1) := by
  rcases internal_submit_cases s w with ⟨_, heq⟩ | ⟨_, heq⟩
  · rw [heq]
    rfl
  · rw [heq]
    rfl

/-- A step that leaves the items alone. -/
theorem ItemStep.of_items {s s' : St} {a : Act} (hsubmit : ∀ w, a ≠ .submit w)
    (hfinish : ∀ res, a ≠ .finish res) (hloop : a ≠ .worker_loop) (h : items s' = items s) :
    ItemStep s a s' := by
  simp only [items, Prod.mk.injEq] at h
  exact .other hsubmit hfinish hloop h.1 h.2.1 (Nat.le_of_eq h.2.2.symm)

theorem user_step_items {s s' : St} {a : Act} (hu : user_step s a = some s') : ItemStep s a s' := by
  cases a with
  | submit w =>
    obtain ⟨_, heq⟩ := Option.ite_none_right_eq_some.1 hu
    cases heq
    exact .submit (internal_submit_items s w)
  | finish res =>
    simp only [user_step] at hu
    cases hj : s.job s.current with
    | none => simp [hj] at hu
    | some f =>
      simp only [hj, Option.some.injEq] at hu
      exact .finish hj (hu ▸ finish_items s f res)
  | make_future =>
    cases hu
    exact .other (by simp) (by simp) (by simp) rfl rfl (Nat.le_succ _)
  | result f =>
    obtain ⟨_, heq⟩ := Option.ite_none_right_eq_some.1 hu
    cases heq
    exact .of_items (by simp) (by simp) (by simp) (result_items s f)
  | set_result f v =>
    obtain ⟨_, heq⟩ := Option.ite_none_right_eq_some.1 hu
    cases heq
    exact .of_items (by simp) (by simp) (by simp) (set_result_items s f (.object v))
  | set_exception f exc_info =>
    obtain ⟨_, heq⟩ := Option.ite_none_right_eq_some.1 hu
    cases heq
    exact .of_items (by simp) (by simp) (by simp) (set_exception_items s f exc_info)
  | add_done_callback f callable =>
    obtain ⟨_, heq⟩ := Option.ite_none_right_eq_some.1 hu
    cases heq
    refine .of_items (by simp) (by simp) (by simp) ?_
    unfold St.add_done_callback
    split
    · rfl
    · rfl
  | switch o =>
    obtain ⟨_, heq⟩ := Option.ite_none_right_eq_some.1 hu
    cases heq
    exact .of_items (by simp) (by simp) (by simp) (greenlet_switch_items s o)
  | throw o e =>
    obtain ⟨_, heq⟩ := Option.ite_none_right_eq_some.1 hu
    cases heq
    exact .of_items (by simp) (by simp) (by simp) (greenlet_throw_items s o)
  | fire =>
    obtain ⟨_, hf⟩ := Option.ite_none_right_eq_some.1 hu
    obtain ⟨_, l, eff, _, _, _, _, _, _, _, _, heq⟩ := fire_pendings_cases hf
    refine .of_items (by simp) (by simp) (by simp) ?_
    rw [heq]
    cases eff with
    | switch g => exact greenlet_switch_items _ g
    | nothing => rfl
    | call k => rfl
  | due timer =>
    obtain ⟨_, hd⟩ := Option.ite_none_right_eq_some.1 hu
    obtain ⟨l, _, heq⟩ := Option.map_eq_some_iff.1 hd
    exact .of_items (by simp) (by simp) (by simp) (heq ▸ rfl)
  | cancel f | remove_done_callback f callable | greenlet_new g | sleep seconds =>
    obtain ⟨_, heq⟩ := Option.ite_none_right_eq_some.1 hu
    cases heq
    exact .of_items (by simp) (by simp) (by simp) rfl
  | call_later seconds cb | stop | run =>
    cases hu
    exact .of_items (by simp) (by simp) (by simp) rfl
  | worker_loop | back_waiter pop => cases hu

theorem back_waiter_next_items {s s' : St} {f : Fid} {pop : Option Gid}
    (h : s.back_waiter_next f pop = some s') : items s' = items s := by
  rcases back_waiter_next_cases h with ⟨_, _, ⟨_, heq⟩ | ⟨_, heq⟩⟩ | ⟨o, _, _, heq⟩
  · rw [heq, item_done_items]
  · rw [heq]
    rfl
  · rw [heq]
    exact greenlet_switch_items s o

/-- What each step does to the queue of items and to the jobs. -/
theorem step_items {s s' : St} {a : Act} (h : step s a = some s') : ItemStep s a s' := by
  rcases step_cases h with ⟨_, hu⟩ | ⟨hloc, ha, heq⟩ | ⟨f', pop, _, ha, hnext⟩
  · exact user_step_items hu
  · rw [ha, heq]
    exact worker_loop_items hloc
  · rw [ha]
    exact .of_items nofun nofun nofun (back_waiter_next_items hnext)

/-- A future that is done stays done. -/
theorem done_step {s s' : St} {a : Act} {f : Fid} (h : step s a = some s')
    (hd : FutureObject_done (s.futures f) = true) : FutureObject_done (s'.futures f) = true := by
  rw [(outcome_congr (step_outcome h f)).1]
  unfold written
  split
  · split
    · simp [FutureObject_done]
    · exact hd
  · split
    · simp [FutureObject_done]
    · exact hd
  · split
    · simp [FutureObject_done]
    · exact hd
  · split
    · simp [FutureObject_done]
    · exact hd
  · split
    · simp [FutureObject_done]
    · exact hd
  · exact hd

/-! ## The record after a step -/

namespace Record

variable {s s' : St} {a : Act}

theorem submit_other {submitted : List Fid} (h : ∀ w, a ≠ .submit w) :
    submit s submitted a = submitted := by
  cases a with
  | submit w => exact absurd rfl (h w)
  | _ => rfl

theorem start_other {started : List Fid} (h : a ≠ .worker_loop) :
    start s s' started a = started := by
  cases a with
  | worker_loop => exact absurd rfl h
  | _ => rfl

theorem start_call {started : List Fid} {f : Fid} (hl : s'.loc s.current = .user)
    (hj : s'.job s.current = some f) : start s s' started .worker_loop = started ++ [f] := by
  simp [start, hl, hj]

theorem start_drop {started : List Fid} (hl : s'.loc s.current ≠ .user) :
    start s s' started .worker_loop = started := by
  simp only [start]
  split
  · next hloc _ => exact absurd hloc hl
  · rfl

theorem finish_other {outcome : Fid → Option (Except Exc Returned)} (h : ∀ res, a ≠ .finish res) :
    finish s outcome a = outcome := by
  cases a with
  | finish res => exact absurd rfl (h res)
  | _ => rfl

end Record

/-! ## The invariant -/

/-- What the three fields are once `res` is stored in a new future. -/
def stored : Except Exc Returned → future_state × Option Pointer × Option Exc
  | .ok v => (.F_FINISHED, some v.released, none)
  | .error exc_info => (.F_FINISHED, none, some exc_info)

/-- The queue holds the items that came last, and every job is the one of a
called function that has not returned. -/
structure Tallied (t : Watched St Record) : Prop where
  inv : Inv t.st
  distinct : t.hist.submitted.Nodup
  lt : ∀ f ∈ t.hist.submitted, f < t.st.next
  queue : ∃ shifted, t.hist.submitted = shifted ++ t.st.executor.pendings ∧
    t.hist.started.Sublist shifted
  job : ∀ w f, t.st.job w = some f → f ∈ t.hist.started ∧ t.hist.outcome f = none
  returned : ∀ f, t.hist.outcome f ≠ none → f ∈ t.hist.started
  barred : ∀ f, t.hist.barred f = true →
    FutureObject_done (t.st.futures f) = true ∧ f ∉ t.hist.started
  pending : ∀ f, t.hist.touched f = false → t.hist.outcome f = none →
    (t.st.futures f).outcome = (.F_PENDING, none, none)
  stored : ∀ f res, t.hist.touched f = false → t.hist.outcome f = some res →
    (t.st.futures f).outcome = stored res

theorem tallied_init (max_workers : Nat) : Tallied (recorded_init max_workers) where
  inv := inv_init max_workers
  distinct := List.nodup_nil
  lt := nofun
  queue := ⟨[], rfl, List.Sublist.refl _⟩
  job := nofun
  returned := fun _ h => absurd rfl h
  barred := nofun
  pending := fun _ _ _ => rfl
  stored := nofun

/-- No two workers are in the function of one item. -/
theorem job_unique {s : St} (hi : Inv s) {w w' : Gid} {f : Fid} (hw : s.job w = some f)
    (hw' : s.job w' = some f) : w = w' := by
  obtain ⟨hh, hf⟩ := hi.job_handle w f hw
  obtain ⟨_, hf'⟩ := hi.job_handle w' f hw'
  obtain ⟨h, hsome⟩ := Option.ne_none_iff_exists'.1 hh
  have hsome' : s.handle w' = some h := by
    rw [← hf', hf, hsome]
  -- the handle of the future leads to one worker
  have ht := (hi.handle w h hsome).2
  have ht' := (hi.handle w' h hsome').2
  rw [ht] at ht'
  injection ht'

/-- An item that is still in the queue was not started. -/
theorem Tallied.not_started {t : Watched St Record} (ht : Tallied t) {f : Fid}
    (hf : f ∈ t.st.executor.pendings) : f ∉ t.hist.started := by
  obtain ⟨shifted, hq, hsub⟩ := ht.queue
  intro hs
  have hnodup := ht.distinct
  rw [hq] at hnodup
  exact List.disjoint_of_nodup_append hnodup (hsub.subset hs) hf

/-! ## How the invariant is kept -/

section Step

variable {t : Watched St Record} {a : Act} {s' : St}

/-- Items join the queue at the back with new futures, and leave it in front. -/
theorem submitted_step (ht : Tallied t) (h : ItemStep t.st a s') :
    (Record.submit t.st t.hist.submitted a).Nodup ∧
      (∀ f ∈ Record.submit t.st t.hist.submitted a, f < s'.next) ∧
      ∃ shifted, Record.submit t.st t.hist.submitted a = shifted ++ s'.executor.pendings ∧
        (Record.start t.st s' t.hist.started a).Sublist shifted := by
  obtain ⟨shifted, hq, hsub⟩ := ht.queue
  cases h with
  | submit hitems =>
    simp only [items, Prod.mk.injEq] at hitems
    obtain ⟨hp, _, hn⟩ := hitems
    rw [hp, hn]
    refine ⟨?_, ?_, shifted, ?_, hsub⟩
    · have hnew : t.st.next ∉ t.hist.submitted := fun hmem => Nat.lt_irrefl _ (ht.lt _ hmem)
      exact List.nodup_append.2 ⟨ht.distinct, List.nodup_singleton _, fun f hf f' hf' heq => by
        rw [List.mem_singleton] at hf'
        exact hnew (hf' ▸ heq ▸ hf)⟩
    · intro f hf
      rcases List.mem_append.1 hf with hf | hf
      · exact Nat.lt_succ_of_lt (ht.lt f hf)
      · rw [List.mem_singleton] at hf
        exact hf ▸ Nat.lt_succ_self _
    · show t.hist.submitted ++ [t.st.next] = _
      rw [hq, List.append_assoc]
  | finish hj hitems =>
    simp only [items, Prod.mk.injEq] at hitems
    obtain ⟨hp, _, hn⟩ := hitems
    rw [hp, hn]
    exact ⟨ht.distinct, ht.lt, shifted, hq, hsub⟩
  | call hpend _ hl hitems =>
    simp only [items, Prod.mk.injEq] at hitems
    obtain ⟨hp, hj, hn⟩ := hitems
    rw [Record.start_call hl (by rw [hj, Function.update_self]), hp, hn]
    refine ⟨ht.distinct, ht.lt, shifted ++ [_], ?_, hsub.append_right _⟩
    show t.hist.submitted = _
    rw [hq, hpend, List.append_assoc]
    rfl
  | drop hl hsuffix hj hn =>
    rw [Record.start_drop hl, hn]
    obtain ⟨dropped, hd⟩ := hsuffix
    refine ⟨ht.distinct, ht.lt, shifted ++ dropped, ?_, ?_⟩
    · show t.hist.submitted = _
      rw [hq, ← hd, List.append_assoc]
    · exact hsub.trans (List.sublist_append_left _ _)
  | other hsubmit _ hloop hp _ hn =>
    rw [Record.submit_other hsubmit, Record.start_other hloop, hp]
    exact ⟨ht.distinct, fun f hf => Nat.lt_of_lt_of_le (ht.lt f hf) hn, shifted, hq, hsub⟩

/-- Calls are only added to the record. -/
theorem started_mono {s s' : St} {started : List Fid} {a : Act} {f : Fid} (hf : f ∈ started) :
    f ∈ Record.start s s' started a := by
  unfold Record.start
  split
  · split
    · exact List.mem_append_left _ hf
    · exact hf
  · exact hf

/-- A job is the one of a called function that has not returned. -/
theorem job_step (ht : Tallied t) (h : ItemStep t.st a s') {w : Gid} {f : Fid}
    (hw : s'.job w = some f) :
    f ∈ Record.start t.st s' t.hist.started a ∧ Record.finish t.st t.hist.outcome a f = none := by
  cases h with
  | submit hitems =>
    simp only [items, Prod.mk.injEq] at hitems
    rw [hitems.2.1] at hw
    exact ht.job w f hw
  | finish hj hitems =>
    simp only [items, Prod.mk.injEq] at hitems
    rw [hitems.2.1] at hw
    rcases update_cases hw with ⟨_, hnone⟩ | ⟨hne, hw⟩
    · cases hnone
    · -- another worker is in another function
      obtain ⟨hs, ho⟩ := ht.job w f hw
      refine ⟨hs, ?_⟩
      have hother : t.st.job t.st.current ≠ some f := fun hc => hne (job_unique ht.inv hw hc)
      simp only [Record.finish, if_neg hother, ho]
  | call hpend _ hl hitems =>
    simp only [items, Prod.mk.injEq] at hitems
    obtain ⟨_, hj, _⟩ := hitems
    rw [Record.start_call hl (by rw [hj, Function.update_self])]
    rw [hj] at hw
    rcases update_cases hw with ⟨_, hf⟩ | ⟨_, hw⟩
    · -- Case: the item that was just shifted
      cases hf
      refine ⟨List.mem_append_right _ (List.mem_singleton_self f), ?_⟩
      by_contra ho
      refine ht.not_started ?_ (ht.returned f ho)
      rw [hpend]
      exact List.mem_cons_self
    · exact ⟨List.mem_append_left _ (ht.job w f hw).1, (ht.job w f hw).2⟩
  | drop hl _ hj _ =>
    rw [Record.start_drop hl]
    exact ht.job w f (hj ▸ hw)
  | other _ hfinish hloop _ hj _ =>
    rw [Record.start_other hloop, Record.finish_other hfinish]
    exact ht.job w f (hj ▸ hw)

/-- Only called functions return. -/
theorem returned_step (ht : Tallied t) {f : Fid}
    (ho : Record.finish t.st t.hist.outcome a f ≠ none) :
    f ∈ Record.start t.st s' t.hist.started a := by
  apply started_mono
  unfold Record.finish at ho
  split at ho
  · split at ho
    next hj => exact (ht.job _ f hj).1
    next => exact ht.returned f ho
  · exact ht.returned f ho

/-- An item whose future was done is not started. -/
theorem not_started_step (h : ItemStep t.st a s') {f : Fid}
    (hd : FutureObject_done (t.st.futures f) = true) (hs : f ∉ t.hist.started) :
    f ∉ Record.start t.st s' t.hist.started a := by
  cases h with
  | call _ hnot hl hitems =>
    simp only [items, Prod.mk.injEq] at hitems
    rw [Record.start_call hl (by rw [hitems.2.1, Function.update_self])]
    intro hmem
    rcases List.mem_append.1 hmem with hmem | hmem
    · exact hs hmem
    · rw [List.mem_singleton] at hmem
      subst hmem
      rw [hd] at hnot
      cases hnot
  | drop hl _ _ _ =>
    rw [Record.start_drop hl]
    exact hs
  | submit _ => exact hs
  | finish _ _ => exact hs
  | other _ _ hloop _ _ _ =>
    rw [Record.start_other hloop]
    exact hs

/-- Nothing but the return of its own function is written to an untouched
future. -/
theorem untouched_written {s : St} {f : Fid} (ht : ¬ Touches f a)
    (hf : ∀ res, a = .finish res → s.job s.current ≠ some f) : written s f a = s.futures f := by
  cases a with
  | cancel f' | set_result f' v | set_exception f' e =>
    have hne : ¬ f = f' := fun heq => ht heq.symm
    exact if_neg hne
  | finish res =>
    have hj := hf res rfl
    cases res with
    | ok v => exact if_neg hj
    | error e => exact if_neg hj
  | _ => rfl

/-- The return of the function of a new future stores what it returned. -/
theorem written_stored {s : St} {f : Fid} {res : Except Exc Returned} (hj : s.job s.current = some f)
    (hp : (s.futures f).outcome = (.F_PENDING, none, none)) :
    (written s f (.finish res)).outcome = stored res := by
  simp only [FutureObject.outcome, Prod.mk.injEq] at hp
  obtain ⟨_, hr, he⟩ := hp
  cases res with
  | ok v => simp [written, hj, FutureObject.outcome, stored, he]
  | error e => simp [written, hj, FutureObject.outcome, stored, hr]

/-- A future of which no outcome is recorded after the step has none before it,
and its function does not return now. -/
theorem finish_eq_none {s : St} {outcome : Fid → Option (Except Exc Returned)} {f : Fid}
    (h : Record.finish s outcome a f = none) :
    outcome f = none ∧ ∀ res, a = .finish res → s.job s.current ≠ some f := by
  cases a with
  | finish res =>
    simp only [Record.finish] at h
    split at h
    · cases h
    next hj =>
      refine ⟨h, fun res' _ => hj⟩
  | _ => exact ⟨h, nofun⟩

/-- An outcome that is recorded after the step was recorded, or it is the one the
function of a job returns now. -/
theorem finish_eq_some {s : St} {outcome : Fid → Option (Except Exc Returned)} {f : Fid}
    {res : Except Exc Returned} (h : Record.finish s outcome a f = some res) :
    (a = .finish res ∧ s.job s.current = some f) ∨
    (outcome f = some res ∧ ∀ res', a = .finish res' → s.job s.current ≠ some f) := by
  cases a with
  | finish res' =>
    simp only [Record.finish] at h
    split at h
    next hj =>
      cases h
      exact .inl ⟨rfl, hj⟩
    next hj =>
      exact .inr ⟨h, fun _ _ => hj⟩
  | _ => exact .inr ⟨h, nofun⟩

end Step

theorem tallied_step {t t' : Watched St Record} {a : Act} (h : recorded t a = some t')
    (ht : Tallied t) : Tallied t' := by
  obtain ⟨hstep, hhist⟩ := watch_eq_some.1 h
  have hitems := step_items hstep
  obtain ⟨hdistinct, hlt, hqueue⟩ := submitted_step ht hitems
  -- what the record says of the touched futures
  have htouched : ∀ f, t'.hist.touched f = false →
      t.hist.touched f = false ∧ ¬ Touches f a := by
    intro f hf
    rw [hhist] at hf
    simpa [Record.note] using hf
  have hout := fun f => step_outcome hstep f
  constructor
  · exact inv_step hstep ht.inv
  · rw [hhist]
    exact hdistinct
  · rw [hhist]
    exact hlt
  · rw [hhist]
    exact hqueue
  · intro w f hw
    rw [hhist]
    exact job_step ht hitems hw
  · intro f hf
    rw [hhist] at hf ⊢
    exact returned_step ht hf
  · intro f hb
    rw [hhist] at hb ⊢
    have hold : FutureObject_done (t.st.futures f) = true ∧ f ∉ t.hist.started := by
      simp only [Record.note, Bool.or_eq_true, Bool.and_eq_true, decide_eq_true_eq] at hb
      rcases hb with hb | ⟨hmem, hd⟩
      · exact ht.barred f hb
      · exact ⟨hd, ht.not_started hmem⟩
    exact ⟨done_step hstep hold.1, not_started_step hitems hold.1 hold.2⟩
  · intro f hf ho
    rw [hhist] at ho
    obtain ⟨hnot, htouch⟩ := htouched f hf
    obtain ⟨hnone, hfin⟩ := finish_eq_none ho
    rw [hout f, untouched_written htouch hfin]
    exact ht.pending f hnot hnone
  · intro f res hf ho
    rw [hhist] at ho
    obtain ⟨hnot, htouch⟩ := htouched f hf
    rcases finish_eq_some ho with ⟨ha, hj⟩ | ⟨hsome, hfin⟩
    · -- Case: the function of `f` returns now, and nothing was stored before
      rw [hout f, ha]
      exact written_stored hj (ht.pending f hnot (ht.job _ f hj).2)
    · rw [hout f, untouched_written htouch hfin]
      exact ht.stored f res hnot hsome

/-! ## Main result -/

/-- All that can fail is the reference to a returned object. -/
theorem Tallied.faithful_iff {t : Watched St Record} (ht : Tallied t) :
    Faithful t ↔ ∀ f v, t.hist.touched f = false → t.hist.outcome f = some (.ok v) →
      v.held = true := by
  constructor
  · intro hf f v hnot ho
    have hholds : (t.st.futures f).outcome = _ := hf.holds f _ hnot ho
    rw [ht.stored f _ hnot ho] at hholds
    have hreleased : v.released = .object v.v := by
      injection hholds with _ hrest
      injection hrest with hresult
      injection hresult
    rw [← released_ne_dangling_iff, hreleased]
    nofun
  · intro hlive
    obtain ⟨shifted, hq, hsub⟩ := ht.queue
    refine ⟨ht.distinct, ?_, fun f hb => (ht.barred f hb).2, ?_⟩
    · rw [hq]
      exact hsub.trans (List.sublist_append_left _ _)
    · intro f res hnot ho
      have hstored := ht.stored f res hnot ho
      cases res with
      | ok v =>
        have hreleased : v.released = .object v.v := if_pos (hlive f v hnot ho)
        rw [Holds, ← hreleased]
        exact hstored
      | error e => exact hstored

theorem step_faithful_iff {t t' : Watched St Record} {a : Act} (h : recorded t a = some t')
    (ht : Tallied t) (hf : Faithful t) : Faithful t' ↔ Referenced t a := by
  rw [(tallied_step h ht).faithful_iff]
  rw [ht.faithful_iff] at hf
  obtain ⟨_, hhist⟩ := watch_eq_some.1 h
  rw [hhist]
  constructor
  · intro hlive
    unfold Referenced
    split
    · next v _ =>
      intro f hj hnot
      have htouch : decide (Touches f (.finish (.ok v))) = false := decide_eq_false id
      apply hlive f v
      · simp only [Record.note, hnot, htouch, Bool.or_false]
      · simp only [Record.note, Record.finish, if_pos hj]
    · trivial
  · intro href f v hnot ho
    simp only [Record.note, Bool.or_eq_false_iff] at hnot
    rcases finish_eq_some ho with ⟨ha, hj⟩ | ⟨hsome, -⟩
    · -- Case: the function of `f` returns now
      subst ha
      exact href f hj hnot.1
    · -- Case: it returned before
      exact hf f v hnot.1 hsome

/-- Along a run functions are called once at most and in the order of their
submission, none whose future was done in the queue, and every untouched future
holds what its function left, exactly when each object that such a function
returns has another reference. -/
theorem items_iff (max_workers : Nat) (as : List Act) (s : St)
    (h : run step (init max_workers) as = some s) :
    Always recorded Faithful (recorded_init max_workers) as ↔
      Steps recorded Referenced (recorded_init max_workers) as := by
  have hwatched : ∃ r, run recorded (recorded_init max_workers) as = some ⟨s, r⟩ :=
    run_watch_iff.2 h
  obtain ⟨r, hrun⟩ := hwatched
  have hfaithful : Faithful (recorded_init max_workers) := by
    rw [(tallied_init max_workers).faithful_iff]
    exact nofun
  exact always_iff_steps (fun t m t' hs _ ht _ => tallied_step hs ht)
    (fun t m t' hs ht hf => step_faithful_iff hs ht hf) (tallied_init max_workers) hfaithful hrun

/-- One worker and three items: the second is cancelled in the queue, and the
first submits the third before it returns an object that is held. -/
def threeItems : List Act :=
  [.submit 2, .submit 3, .cancel 1, .greenlet_new 4, .switch 4, .result 0, .fire, .worker_loop,
    .submit 3, .finish (.ok ⟨.obj 5, true⟩), .back_waiter (some 4), .switch 2, .back_waiter none,
    .worker_loop, .worker_loop, .finish (.error (.other 1))]

theorem items_iff_three : ∃ s, run step (init 1) threeItems = some s ∧
    (s.futures 0).result = some (.object (.obj 5)) ∧
    (Always recorded Faithful (recorded_init 1) threeItems ↔
      Steps recorded Referenced (recorded_init 1) threeItems) := by
  have h : (run step (init 1) threeItems).any
      (fun s => (s.futures 0).result = some (.object (.obj 5))) = true := by
    decide
  obtain ⟨s, hs, hres⟩ := run_any h
  exact ⟨s, hs, of_decide_eq_true hres, items_iff 1 _ s hs⟩

/-- A function returns a new object, and its future is left with a pointer to
memory that was given back. -/
theorem new_object_deallocated :
    ¬ ∀ max_workers as s, run step (init max_workers) as = some s →
      Always recorded Faithful (recorded_init max_workers) as := by
  intro hall
  have h : (run recorded (recorded_init 0)
      [.submit 2, .greenlet_new 3, .switch 3, .result 0, .fire, .worker_loop,
        .finish (.ok ⟨.obj 5, false⟩)]).any
      (fun t => t.hist.touched 0 = false ∧ (t.hist.outcome 0).isSome ∧
        (t.st.futures 0).result = some .dangling) = true := by
    decide
  obtain ⟨t, ht, hend⟩ := run_any h
  obtain ⟨hnot, ho, hres⟩ := of_decide_eq_true hend
  have hfaithful := (hall 0 _ t.st (run_watch ht)).last ht
  obtain ⟨res, ho⟩ := Option.isSome_iff_exists.1 ho
  have hholds := hfaithful.holds 0 res hnot ho
  cases res with
  | ok v =>
    simp [Holds, FutureObject.outcome, hres] at hholds
  | error e =>
    simp [Holds, FutureObject.outcome, hres] at hholds

end Jega.Executor
