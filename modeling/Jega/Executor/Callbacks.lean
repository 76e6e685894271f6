import Jega.Executor.Agreement
import Jega.Trace.History

/-!
# Jega.Executor.Callbacks — the done-callbacks of a future

Two functions schedule callbacks. `call_callbacks` drains the list with the
future as the argument of each call; `add_done_callback` on a future whose state
is not pending schedules the call at once, and passes no arguments. A completion
by `set_result` or `set_exception` drains the list and leaves the state pending,
so a callback that comes later joins a list that nobody drains.

`Entitled` is what the callers of a future may expect, told from the calls alone.

## Main results

* `step_schedules`: the calls a step schedules are the handles it makes.
* `callbacks_iff`: the exact condition for the scheduled calls to be the ones
  the callers may expect, along every run.
-/

namespace Jega.Executor

open Trace LoopObject

/-! ## The calls of the source -/

/-- A `loop_schedule_call` with no delay; `args` has the futures of the tuple,
and is empty for a null pointer. -/
structure Call where
  callable : Callable
  args : List Fid
deriving DecidableEq, Repr

/-- What is done to one future's callbacks. -/
inductive Event where
  | add_done_callback (callable : Callable)
  | remove_done_callback (callable : Callable)
  | completed
deriving DecidableEq, Repr

/-- What the step does to the callbacks of `f`. -/
def event (s : St) (f : Fid) : Act → Option Event
  | .add_done_callback f' callable => if f = f' then some (.add_done_callback callable) else none
  | .remove_done_callback f' callable =>
    if f = f' then some (.remove_done_callback callable) else none
  | .cancel f' => if f = f' then some .completed else none
  | .set_result f' _ => if f = f' then some .completed else none
  | .set_exception f' _ => if f = f' then some .completed else none
  | .finish _ => if s.job s.current = some f then some .completed else none
  | _ => none

/-- The calls that `call_callbacks` and `FutureObject_add_done_callback`
schedule, with the arguments they pass. -/
def scheduled_calls (fut : FutureObject) (f : Fid) : Event → List Call
  | .completed => fut.callbacks.map fun item => ⟨item, [f]⟩
  | .add_done_callback callable => if fut.state = .F_PENDING then [] else [⟨callable, []⟩]
  | .remove_done_callback _ => []

/-- The list of callbacks after it. -/
def kept_callbacks (fut : FutureObject) : Event → List Callable
  | .completed => []
  | .add_done_callback callable =>
    if fut.state = .F_PENDING then fut.callbacks ++ [callable] else fut.callbacks
  | .remove_done_callback callable => fut.callbacks.filter (· ≠ callable)

/-! ## What the callers may expect -/

/-- The callbacks registered for a future that is not done, and the calls that
should have been scheduled. -/
structure Entitled where
  registered : List Callable
  done : Bool
  owed : List Call
deriving DecidableEq, Repr

namespace Entitled

/-- Nothing is registered yet. -/
def empty : Entitled := ⟨[], false, []⟩

/-- The first completion calls everything that is registered, and a callback
that comes later is called at once. -/
def record (e : Entitled) (f : Fid) : Event → Entitled
  | .completed =>
    if e.done then e
    else ⟨[], true, e.owed ++ e.registered.map fun callable => ⟨callable, [f]⟩⟩
  | .add_done_callback callable =>
    if e.done then { e with owed := e.owed ++ [⟨callable, [f]⟩] }
    else { e with registered := e.registered ++ [callable] }
  | .remove_done_callback callable =>
    { e with registered := e.registered.filter (· ≠ callable) }

end Entitled

/-- For each future, what is owed to its callers and what was scheduled. -/
structure Ledger where
  entitled : Fid → Entitled
  calls : Fid → List Call

def Ledger.empty : Ledger := ⟨fun _ => .empty, fun _ => []⟩

/-- The ledger after a step. -/
def Ledger.note (s : St) (a : Act) (_ : St) (l : Ledger) : Ledger where
  entitled := fun f =>
    match event s f a with
    | some e => (l.entitled f).record f e
    | none => l.entitled f
  calls := fun f =>
    match event s f a with
    | some e => l.calls f ++ scheduled_calls (s.futures f) f e
    | none => l.calls f

/-- The system with its ledger. -/
abbrev audited := watch step Ledger.note

/-- The system at the start, with nothing in the ledger. -/
def audited_init (max_workers : Nat) : Watched St Ledger := ⟨init max_workers, .empty⟩

/-- Every call that is owed was scheduled once, and no other was. -/
def Honoured (t : Watched St Ledger) : Prop :=
  ∀ f, (t.hist.calls f).Perm (t.hist.entitled f).owed

/-- A callback is added to a future that is not done. -/
def Timely (s : St) : Act → Prop
  | .add_done_callback f _ => FutureObject_done (s.futures f) = false
  | _ => True

/-! ## What a step does to the list -/

theorem call_callbacks_callbacks (s : St) (f f' : Fid) :
    ((s.call_callbacks f).futures f').callbacks = if f' = f then [] else (s.futures f').callbacks := by
  unfold St.call_callbacks
  by_cases hf : f' = f
  · subst hf
    simp
  · simp [hf]

/-- One future is written, and its callbacks are called. -/
theorem update_callbacks (s : St) (f f' : Fid) (fut : FutureObject) :
    ((St.call_callbacks { s with futures := Function.update s.futures f fut } f).futures f').callbacks
      = if f' = f then [] else (s.futures f').callbacks := by
  rw [call_callbacks_callbacks]
  by_cases hf : f' = f
  · rw [if_pos hf, if_pos hf]
  · rw [if_neg hf, if_neg hf]
    simp only [Function.update_of_ne hf]

theorem set_result_callbacks (s : St) (f f' : Fid) (v : Pointer) :
    ((s.set_result f v).futures f').callbacks = if f' = f then [] else (s.futures f').callbacks := by
  unfold St.set_result
  rw [back_waiter_futures]
  exact update_callbacks s f f' { s.futures f with result := some v }

theorem set_exception_callbacks (s : St) (f f' : Fid) (exc_info : Exc) :
    ((s.set_exception f exc_info).futures f').callbacks =
      if f' = f then [] else (s.futures f').callbacks := by
  unfold St.set_exception
  rw [back_waiter_futures]
  exact update_callbacks s f f' { s.futures f with exc_info := some exc_info }

theorem finish_callbacks (s : St) (f f' : Fid) (res : Except Exc Returned) :
    ((s.run_worker_finish f res).futures f').callbacks =
      if f' = f then [] else (s.futures f').callbacks := by
  unfold St.run_worker_finish
  have hstate : ∀ f', (Function.update s.futures f
      { s.futures f with state := .F_FINISHED } f').callbacks = (s.futures f').callbacks :=
    update_field FutureObject.callbacks (by rfl)
  cases res with
  | ok v =>
    simp only
    rw [set_result_callbacks]
    simp only [hstate]
  | error exc_info =>
    simp only
    rw [set_exception_callbacks]
    simp only [hstate]

/-- The list of `f` after what a step does to the callbacks of `f`. -/
def listed (s : St) (f : Fid) (a : Act) : List Callable :=
  match event s f a with
  | some e => kept_callbacks (s.futures f) e
  | none => (s.futures f).callbacks

theorem worker_loop_callbacks (s : St) (f : Fid) :
    (s.worker_loop.futures f).callbacks = (s.futures f).callbacks := by
  have htaken : ∀ f' rest, ((taken s f' rest).futures f).callbacks = (s.futures f).callbacks :=
    fun f' rest => update_field FutureObject.callbacks (by rfl) f
  rcases worker_loop_cases s with ⟨_, heq⟩ | ⟨_, heq⟩ | ⟨f', rest, _, _, heq | heq | heq⟩
  · rw [heq]
    rfl
  · rw [heq]
    rfl
  · rw [heq]
  · rw [heq, item_done_futures]
    exact htaken f' rest
  · rw [heq]
    exact htaken f' rest

theorem back_waiter_next_callbacks {s s' : St} {f : Fid} {pop : Option Gid}
    (h : s.back_waiter_next f pop = some s') (f' : Fid) :
    (s'.futures f').callbacks = (s.futures f').callbacks := by
  rcases back_waiter_next_cases h with ⟨_, _, ⟨_, heq⟩ | ⟨_, heq⟩⟩ | ⟨o, _, _, heq⟩
  · rw [heq, item_done_futures]
  · rw [heq]
  · rw [heq]
    exact update_field FutureObject.callbacks (by rfl) f'

theorem result_callbacks (s : St) (f f' : Fid) :
    ((s.result f).futures f').callbacks = (s.futures f').callbacks := by
  rcases result_cases s f with ⟨-, heq⟩ | ⟨-, ⟨-, heq⟩ | ⟨l, -, heq⟩⟩
  · rw [heq]
  · rw [heq]
    exact update_field FutureObject.callbacks (by rfl) f'
  · rw [heq]
    exact update_field FutureObject.callbacks (by rfl) f'

theorem user_step_callbacks {s s' : St} {a : Act} (hu : user_step s a = some s') (f : Fid) :
    (s'.futures f).callbacks = listed s f a := by
  -- a function that completes `f'` empties the list of `f'`
  have hcompleted : ∀ f' : Fid, (if f = f' then [] else (s.futures f).callbacks) =
      match if f = f' then some Event.completed else none with
      | some e => kept_callbacks (s.futures f) e
      | none => (s.futures f).callbacks := by
    intro f'
    by_cases hf : f = f'
    · rw [if_pos hf, if_pos hf]
      rfl
    · rw [if_neg hf, if_neg hf]
  cases a with
  | submit w =>
    obtain ⟨_, heq⟩ := Option.ite_none_right_eq_some.1 hu
    cases heq
    rw [internal_submit_futures]
    rfl
  | result f' =>
    obtain ⟨_, heq⟩ := Option.ite_none_right_eq_some.1 hu
    cases heq
    exact result_callbacks s f' f
  | cancel f' =>
    obtain ⟨_, heq⟩ := Option.ite_none_right_eq_some.1 hu
    cases heq
    exact (update_callbacks s f' f { s.futures f' with state := .F_CANCELLED }).trans (hcompleted f')
  | set_result f' v =>
    obtain ⟨_, heq⟩ := Option.ite_none_right_eq_some.1 hu
    cases heq
    exact (set_result_callbacks s f' f (.object v)).trans (hcompleted f')
  | set_exception f' exc_info =>
    obtain ⟨_, heq⟩ := Option.ite_none_right_eq_some.1 hu
    cases heq
    exact (set_exception_callbacks s f' f exc_info).trans (hcompleted f')
  | finish res =>
    simp only [user_step] at hu
    cases hj : s.job s.current with
    | none => simp [hj] at hu
    | some f' =>
      simp only [hj, Option.some.injEq] at hu
      rw [← hu, finish_callbacks, listed, event, hj]
      simp only [Option.some.injEq, eq_comm (a := f')]
      exact hcompleted f'
  | add_done_callback f' callable =>
    obtain ⟨_, heq⟩ := Option.ite_none_right_eq_some.1 hu
    cases heq
    unfold St.add_done_callback
    by_cases hf : f = f'
    · subst hf
      simp only [listed, event, if_true, kept_callbacks]
      split
      · simp
      · rfl
    · simp only [listed, event, if_neg hf]
      split
      · simp [hf]
      · rfl
  | remove_done_callback f' callable =>
    obtain ⟨_, heq⟩ := Option.ite_none_right_eq_some.1 hu
    cases heq
    unfold St.remove_done_callback
    by_cases hf : f = f'
    · subst hf
      simp [listed, event, kept_callbacks]
    · simp [listed, event, hf]
  | switch o =>
    obtain ⟨_, heq⟩ := Option.ite_none_right_eq_some.1 hu
    cases heq
    rw [greenlet_switch_futures]
    rfl
  | throw o e =>
    obtain ⟨_, heq⟩ := Option.ite_none_right_eq_some.1 hu
    cases heq
    rw [greenlet_throw_futures]
    rfl
  | fire =>
    obtain ⟨_, hf⟩ := Option.ite_none_right_eq_some.1 hu
    rw [fire_pendings_futures hf]
    rfl
  | due timer =>
    obtain ⟨_, hd⟩ := Option.ite_none_right_eq_some.1 hu
    obtain ⟨l, _, heq⟩ := Option.map_eq_some_iff.1 hd
    rw [← heq]
    rfl
  | greenlet_new g | sleep seconds =>
    obtain ⟨_, heq⟩ := Option.ite_none_right_eq_some.1 hu
    cases heq
    rfl
  | make_future | call_later seconds cb | stop | run =>
    cases hu
    rfl
  | worker_loop | back_waiter pop => cases hu

/-- What each step does to the list of each future. -/
theorem step_callbacks {s s' : St} {a : Act} (h : step s a = some s') (f : Fid) :
    (s'.futures f).callbacks = listed s f a := by
  rcases step_cases h with ⟨_, hu⟩ | ⟨_, ha, heq⟩ | ⟨f', pop, _, ha, hnext⟩
  · exact user_step_callbacks hu f
  · rw [ha, heq]
    exact worker_loop_callbacks s f
  · rw [ha]
    exact back_waiter_next_callbacks hnext f

/-! ## The handles of the loop -/

/-- The callbacks of the handles the loop has made so far, the oldest first. -/
def made (l : LoopObject Callable) : List (Option Callable) :=
  (List.range l.next).map fun h => (l.handles h).callback

theorem made_schedule_timer (l : LoopObject Callable) (o : Hid) :
    made (l.schedule_timer o) = made l := by
  simp [made]

theorem made_loop_schedule_call (l : LoopObject Callable) (seconds : Nat) (cb : Option Callable)
    (g : Option Gid) : made (l.loop_schedule_call seconds cb g).1 = made l ++ [cb] := by
  have hold : ∀ h ∈ List.range l.next, ((l.make_handle seconds cb g).1.handles h).callback =
      (l.handles h).callback := by
    intro h hh
    have hne : h ≠ l.next := Nat.ne_of_lt (List.mem_range.1 hh)
    simp [make_handle, Function.update_of_ne hne]
  show made ((l.make_handle seconds cb g).1.schedule_timer (l.make_handle seconds cb g).2) = _
  rw [made_schedule_timer]
  show (List.range (l.next + 1)).map
    (fun h => ((l.make_handle seconds cb g).1.handles h).callback) = _
  rw [List.range_succ, List.map_append, List.map_congr_left hold]
  simp [made, make_handle]

/-- One handle for each callback. -/
theorem made_foldl (callbacks : List Callable) (l : LoopObject Callable) :
    made (callbacks.foldl (fun l cb => (l.loop_schedule_call 0 (some cb) none).1) l) =
      made l ++ callbacks.map some := by
  induction callbacks generalizing l with
  | nil => simp
  | cons cb callbacks ih =>
    rw [List.foldl_cons, ih, made_loop_schedule_call]
    simp

/-- A handle that is queued once more has the callback it had. -/
theorem made_reschedule (s : St) (handle : Hid) : made (s.reschedule handle).loop = made s.loop := by
  show made (schedule_timer _ handle) = _
  rw [made_schedule_timer]
  refine List.map_congr_left fun h _ => ?_
  by_cases hh : h = handle
  · subst hh
    simp
  · simp [Function.update_of_ne hh]

theorem made_back_waiter (s : St) (f : Fid) : made (s.back_waiter f).loop = made s.loop := by
  unfold St.back_waiter
  by_cases hw : (s.futures f).waiters = ∅
  · simp only [if_pos hw]
  · simp only [if_neg hw]
    cases (s.futures f).handle with
    | none => rfl
    | some handle => exact made_reschedule s handle

theorem made_set_result (s : St) (f : Fid) (v : Pointer) :
    made (s.set_result f v).loop = made s.loop ++ (s.futures f).callbacks.map some := by
  unfold St.set_result
  rw [made_back_waiter]
  refine (made_foldl _ _).trans ?_
  simp

theorem made_set_exception (s : St) (f : Fid) (exc_info : Exc) :
    made (s.set_exception f exc_info).loop = made s.loop ++ (s.futures f).callbacks.map some := by
  unfold St.set_exception
  rw [made_back_waiter]
  refine (made_foldl _ _).trans ?_
  simp

theorem made_finish (s : St) (f : Fid) (res : Except Exc Returned) :
    made (s.run_worker_finish f res).loop = made s.loop ++ (s.futures f).callbacks.map some := by
  unfold St.run_worker_finish
  cases res with
  | ok v =>
    simp only
    rw [made_set_result]
    simp
  | error exc_info =>
    simp only
    rw [made_set_exception]
    simp

/-- The functions that schedule callbacks are called by Python code. -/
theorem event_user {s s' : St} {a : Act} {f : Fid} {e : Event} (h : step s a = some s')
    (he : event s f a = some e) : user_step s a = some s' := by
  rcases step_cases h with ⟨_, hu⟩ | ⟨_, ha, _⟩ | ⟨_, _, _, ha, _⟩
  · exact hu
  · rw [ha] at he
    cases he
  · rw [ha] at he
    cases he

/-- The calls a step schedules for a future are the handles that it makes. -/
theorem step_schedules {s s' : St} {a : Act} {f : Fid} {e : Event} (h : step s a = some s')
    (he : event s f a = some e) :
    made s'.loop =
      made s.loop ++ (scheduled_calls (s.futures f) f e).map fun c => some c.callable := by
  have hu := event_user h he
  -- the calls of `call_callbacks` have the callables of the list
  have hlist : ∀ fut : FutureObject, (scheduled_calls fut f .completed).map
      (fun c => some c.callable) = fut.callbacks.map some := by
    intro fut
    simp [scheduled_calls]
  cases a with
  | add_done_callback f' callable =>
    obtain ⟨hf, he⟩ := Option.ite_none_right_eq_some.1 he
    cases he
    cases hf
    obtain ⟨_, heq⟩ := Option.ite_none_right_eq_some.1 hu
    cases heq
    unfold St.add_done_callback
    by_cases hp : (s.futures f).state = .F_PENDING
    · simp [scheduled_calls, hp]
    · rw [if_neg hp]
      simp only [made_loop_schedule_call, scheduled_calls, if_neg hp]
      rfl
  | remove_done_callback f' callable =>
    obtain ⟨hf, he⟩ := Option.ite_none_right_eq_some.1 he
    cases he
    obtain ⟨_, heq⟩ := Option.ite_none_right_eq_some.1 hu
    cases heq
    simp [scheduled_calls, St.remove_done_callback]
  | cancel f' =>
    obtain ⟨hf, he⟩ := Option.ite_none_right_eq_some.1 he
    cases he
    cases hf
    obtain ⟨_, heq⟩ := Option.ite_none_right_eq_some.1 hu
    cases heq
    rw [hlist]
    refine (made_foldl _ _).trans ?_
    simp
  | set_result f' v =>
    obtain ⟨hf, he⟩ := Option.ite_none_right_eq_some.1 he
    cases he
    cases hf
    obtain ⟨_, heq⟩ := Option.ite_none_right_eq_some.1 hu
    cases heq
    rw [hlist, made_set_result]
  | set_exception f' exc_info =>
    obtain ⟨hf, he⟩ := Option.ite_none_right_eq_some.1 he
    cases he
    cases hf
    obtain ⟨_, heq⟩ := Option.ite_none_right_eq_some.1 hu
    cases heq
    rw [hlist, made_set_exception]
  | finish res =>
    obtain ⟨hj, he⟩ := Option.ite_none_right_eq_some.1 he
    cases he
    simp only [user_step, hj, Option.some.injEq] at hu
    rw [hlist, ← hu, made_finish]
  | _ => cases he

/-! ## The ledger along a run -/

/-- A future is done when it was, or when the step completes it. -/
theorem step_done {s s' : St} {a : Act} (h : step s a = some s') (f : Fid) :
    FutureObject_done (s'.futures f) =
      if event s f a = some .completed then true else FutureObject_done (s.futures f) := by
  rw [(outcome_congr (step_outcome h f)).1]
  cases a with
  | cancel f' =>
    by_cases hf : f = f'
    · simp [written, event, hf, FutureObject_done]
    · simp [written, event, hf]
  | set_result f' v =>
    by_cases hf : f = f'
    · simp [written, event, hf, FutureObject_done]
    · simp [written, event, hf]
  | set_exception f' exc_info =>
    by_cases hf : f = f'
    · simp [written, event, hf, FutureObject_done]
    · simp [written, event, hf]
  | finish res =>
    by_cases hj : s.job s.current = some f
    · cases res with
      | ok v => simp [written, event, hj, FutureObject_done]
      | error exc_info => simp [written, event, hj, FutureObject_done]
    · cases res with
      | ok v => simp [written, event, hj]
      | error exc_info => simp [written, event, hj]
  | add_done_callback f' callable =>
    by_cases hf : f = f'
    · simp [written, event, hf]
    · simp [written, event, hf]
  | remove_done_callback f' callable =>
    by_cases hf : f = f'
    · simp [written, event, hf]
    · simp [written, event, hf]
  | _ => rfl

/-- What the callers were told of one future is what it holds, and once it is
done nothing is left in its list. -/
structure InStep (e : Entitled) (fut : FutureObject) : Prop where
  done : e.done = FutureObject_done fut
  registered : e.registered = fut.callbacks
  drained : e.done = true → e.registered = []

def Known (t : Watched St Ledger) : Prop :=
  ∀ f, InStep (t.hist.entitled f) (t.st.futures f)

theorem known_init (max_workers : Nat) : Known (audited_init max_workers) := by
  intro f
  exact ⟨rfl, rfl, fun _ => rfl⟩

/-- Every event but a late registration keeps the two in step. -/
theorem InStep.record {e : Entitled} {fut fut' : FutureObject} {ev : Event} (h : InStep e fut)
    (f : Fid) (hp : FutureObject_done fut = false → fut.state = .F_PENDING)
    (ht : ∀ callable, ev = .add_done_callback callable → FutureObject_done fut = false)
    (hd : FutureObject_done fut' = if ev = .completed then true else FutureObject_done fut)
    (hc : fut'.callbacks = kept_callbacks fut ev) : InStep (e.record f ev) fut' := by
  cases ev with
  | completed =>
    have hd' : FutureObject_done fut' = true := hd
    by_cases hdone : e.done = true
    · -- Case: it was done, and nothing was left in the list
      have hrec : e.record f .completed = e := if_pos hdone
      rw [hrec]
      exact ⟨hdone.trans hd'.symm, (h.drained hdone).trans hc.symm, h.drained⟩
    · have hrec : e.record f .completed =
          ⟨[], true, e.owed ++ e.registered.map fun callable => ⟨callable, [f]⟩⟩ := if_neg hdone
      rw [hrec]
      exact ⟨hd'.symm, hc.symm, fun _ => rfl⟩
  | add_done_callback callable =>
    have hnot : FutureObject_done fut = false := ht callable rfl
    have hdone : ¬ e.done = true := by
      rw [h.done, hnot]
      simp
    have hrec : e.record f (.add_done_callback callable) =
        { e with registered := e.registered ++ [callable] } := if_neg hdone
    have hkept : kept_callbacks fut (.add_done_callback callable) = fut.callbacks ++ [callable] :=
      if_pos (hp hnot)
    rw [hrec]
    refine ⟨h.done.trans hd.symm, ?_, fun hdone' => absurd hdone' hdone⟩
    rw [hc, hkept, h.registered]
  | remove_done_callback callable =>
    refine ⟨h.done.trans hd.symm, ?_, ?_⟩
    · rw [hc, kept_callbacks, ← h.registered]
      rfl
    · intro hdone
      show e.registered.filter _ = []
      rw [h.drained hdone, List.filter_nil]

/-- The calls a future schedules are the ones it owes, unless the callback comes
too late. -/
theorem InStep.owed_iff {e : Entitled} {fut : FutureObject} {calls : List Call} {ev : Event}
    {f : Fid} (h : InStep e fut) (hp : FutureObject_done fut = false → fut.state = .F_PENDING)
    (hcalls : calls.Perm e.owed) :
    (calls ++ scheduled_calls fut f ev).Perm (e.record f ev).owed ↔
      ∀ callable, ev = .add_done_callback callable → FutureObject_done fut = false := by
  cases ev with
  | completed =>
    have hnever : ∀ callable, Event.completed = .add_done_callback callable →
        FutureObject_done fut = false := by
      intro callable hev
      cases hev
    refine iff_of_true ?_ hnever
    by_cases hdone : e.done = true
    · have hrec : e.record f .completed = e := if_pos hdone
      have hempty : scheduled_calls fut f .completed = [] := by
        simp [scheduled_calls, ← h.registered, h.drained hdone]
      rw [hrec, hempty, List.append_nil]
      exact hcalls
    · have hrec : e.record f .completed =
          ⟨[], true, e.owed ++ e.registered.map fun callable => ⟨callable, [f]⟩⟩ := if_neg hdone
      rw [hrec, h.registered]
      exact hcalls.append_right _
  | remove_done_callback callable =>
    refine iff_of_true ?_ fun _ hev => by cases hev
    rw [scheduled_calls, List.append_nil]
    exact hcalls
  | add_done_callback callable =>
    have hlate : (∀ callable', Event.add_done_callback callable = .add_done_callback callable' →
        FutureObject_done fut = false) ↔ FutureObject_done fut = false :=
      ⟨fun hall => hall callable rfl, fun hnot _ _ => hnot⟩
    rw [hlate]
    constructor
    · intro hperm
      rw [← Bool.not_eq_true]
      intro hdone
      have hrec : e.record f (.add_done_callback callable) =
          { e with owed := e.owed ++ [⟨callable, [f]⟩] } := if_pos (h.done.trans hdone)
      rw [hrec] at hperm
      -- what was added to the calls is what was added to the debts
      have hone : (scheduled_calls fut f (.add_done_callback callable)).Perm [⟨callable, [f]⟩] :=
        (List.perm_append_left_iff e.owed).1 ((hcalls.symm.append_right _).trans hperm)
      rw [List.perm_singleton, scheduled_calls] at hone
      split at hone
      · -- Case: the callback joined the list
        cases hone
      · -- Case: it is called without the future
        cases hone
    · intro hnot
      have hdone : ¬ e.done = true := by
        rw [h.done, hnot]
        simp
      have hrec : e.record f (.add_done_callback callable) =
          { e with registered := e.registered ++ [callable] } := if_neg hdone
      have hempty : scheduled_calls fut f (.add_done_callback callable) = [] := if_pos (hp hnot)
      rw [hrec, hempty, List.append_nil]
      exact hcalls

/-- A late registration is the only untimely step. -/
theorem timely_iff (s : St) (a : Act) :
    Timely s a ↔ ∀ f ev, event s f a = some ev → ∀ callable, ev = .add_done_callback callable →
      FutureObject_done (s.futures f) = false := by
  constructor
  · intro ht f ev hev callable hadd
    subst hadd
    cases a with
    | add_done_callback f' callable' =>
      obtain ⟨hf, _⟩ := Option.ite_none_right_eq_some.1 hev
      rw [hf]
      exact ht
    | remove_done_callback f' callable' | cancel f' | set_result f' v | set_exception f' e
    | finish res =>
      obtain ⟨_, hev⟩ := Option.ite_none_right_eq_some.1 hev
      cases hev
    | _ => cases hev
  · intro hall
    cases a with
    | add_done_callback f callable => exact hall f _ (if_pos rfl) callable rfl
    | _ => trivial

/-- What the proof keeps along a run. -/
def Sound (t : Watched St Ledger) : Prop := Known t ∧ Finished t.st

theorem sound_step {t t' : Watched St Ledger} {a : Act} (h : audited t a = some t')
    (ht : Timely t.st a) (hs : Sound t) : Sound t' := by
  obtain ⟨hstep, hhist⟩ := watch_eq_some.1 h
  refine ⟨fun f => ?_, step_finished _ _ _ hstep hs.2⟩
  have hdone := step_done hstep f
  have hcallbacks := step_callbacks hstep f
  rw [listed] at hcallbacks
  rw [hhist]
  simp only [Ledger.note]
  cases hev : event t.st f a with
  | none =>
    rw [hev] at hcallbacks hdone
    have hk := hs.1 f
    exact ⟨hk.done.trans hdone.symm, hk.registered.trans hcallbacks.symm, hk.drained⟩
  | some ev =>
    rw [hev] at hcallbacks hdone
    simp only [Option.some.injEq] at hdone
    exact (hs.1 f).record f (pending_of_not_done hs.2) ((timely_iff t.st a).1 ht f ev hev) hdone
      hcallbacks

theorem step_honoured_iff {t t' : Watched St Ledger} {a : Act} (h : audited t a = some t')
    (hs : Sound t) (hp : Honoured t) : Honoured t' ↔ Timely t.st a := by
  obtain ⟨_, hhist⟩ := watch_eq_some.1 h
  rw [timely_iff, Honoured, hhist]
  refine forall_congr' fun f => ?_
  simp only [Ledger.note]
  cases hev : event t.st f a with
  | none =>
    refine iff_of_true (hp f) ?_
    intro ev hnone
    cases hnone
  | some ev =>
    rw [(hs.1 f).owed_iff (pending_of_not_done hs.2) (hp f)]
    constructor
    · intro hall ev' hev'
      cases hev'
      exact hall
    · intro hall
      exact hall ev rfl

/-! ## Main result -/

/-- Along a run every call that is owed is scheduled once, with the future as its
argument, and no other is, exactly when no callback is added to a future that is
done already. -/
theorem callbacks_iff (max_workers : Nat) (as : List Act) (s : St)
    (h : run step (init max_workers) as = some s) :
    Always audited Honoured (audited_init max_workers) as ↔
      Steps step Timely (init max_workers) as := by
  have hwatched : ∃ l, run audited (audited_init max_workers) as = some ⟨s, l⟩ := run_watch_iff.2 h
  obtain ⟨l, hrun⟩ := hwatched
  have hsound : Sound (audited_init max_workers) := ⟨known_init max_workers, init_finished max_workers⟩
  have hhonoured : Honoured (audited_init max_workers) := fun _ => List.Perm.nil
  have hiff := always_iff_steps (fun t a t' hs ht hi _ => sound_step hs ht hi)
    (fun t a t' hs hi hp => step_honoured_iff hs hi hp) hsound hhonoured hrun
  exact hiff.trans steps_watch

/-- Two callbacks are registered and one is taken back before a worker completes
the future. -/
theorem callbacks_iff_one : ∃ s, run step (init 0)
    [.submit 2, .add_done_callback 0 7, .add_done_callback 0 8, .remove_done_callback 0 7,
      .greenlet_new 3, .switch 3, .result 0, .fire, .worker_loop,
      .finish (.ok ⟨.obj 5, true⟩)] = some s ∧
    made s.loop = [none, some 8] ∧
    (Always audited Honoured (audited_init 0)
        [.submit 2, .add_done_callback 0 7, .add_done_callback 0 8, .remove_done_callback 0 7,
          .greenlet_new 3, .switch 3, .result 0, .fire, .worker_loop,
          .finish (.ok ⟨.obj 5, true⟩)] ↔
      Steps step Timely (init 0)
        [.submit 2, .add_done_callback 0 7, .add_done_callback 0 8, .remove_done_callback 0 7,
          .greenlet_new 3, .switch 3, .result 0, .fire, .worker_loop,
          .finish (.ok ⟨.obj 5, true⟩)]) := by
  have h : (run step (init 0)
      [.submit 2, .add_done_callback 0 7, .add_done_callback 0 8, .remove_done_callback 0 7,
        .greenlet_new 3, .switch 3, .result 0, .fire, .worker_loop,
        .finish (.ok ⟨.obj 5, true⟩)]).any
        (fun s => made s.loop = [none, some 8]) = true := by
    decide
  obtain ⟨s, hs, hmade⟩ := run_any h
  exact ⟨s, hs, of_decide_eq_true hmade, callbacks_iff 0 _ s hs⟩

/-- A callback that is added to a cancelled future is called without it. -/
theorem late_callback_misses_future :
    ¬ ∀ max_workers as s, run step (init max_workers) as = some s →
      Always audited Honoured (audited_init max_workers) as := by
  intro hall
  have h : (run audited (audited_init 0) [.make_future, .cancel 0, .add_done_callback 0 7]).any
      (fun t => t.hist.calls 0 = [⟨7, []⟩] ∧ (t.hist.entitled 0).owed = [⟨7, [0]⟩]) = true := by
    decide
  obtain ⟨t, ht, hend⟩ := run_any h
  obtain ⟨hcalls, howed⟩ := of_decide_eq_true hend
  have hperm := (hall 0 _ t.st (run_watch ht)).last ht 0
  rw [hcalls, howed] at hperm
  exact absurd hperm (by decide)

end Jega.Executor
