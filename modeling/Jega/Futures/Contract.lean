import Jega.Futures.Condition
import Jega.Futures.Wakeup

/-!
# Jega.Futures.Contract — callbacks are called once, and waiters are told

The future is done once, so there is one loop of `_run_callbacks`, and nobody
appends to its list; what is registered later is called at once. At any time the
callbacks that were registered are those that have been called and those that the
list, or the loop, has still to call (`Tally`).

`result` and `exception` come back from the condition after the future is done,
at their deadline, or with an exception.
-/

namespace Jega.Futures.Completion

open Locks Waiting

variable {α ε : Type}

/-! ## Contract -/

/-- `_state in (CANCELLED, CANCELLED_AND_NOTIFIED, FINISHED)` -/
def Over (state : State) : Prop :=
  state = .CANCELLED ∨ state = .CANCELLED_AND_NOTIFIED ∨ state = .FINISHED

/-- `TimeoutError` -/
def Answer.TimedOut : Answer α ε → Prop
  | .result (.error .timeout_error) | .exception (.error .timeout_error) => True
  | _ => False

/-- Only a call with a timeout ends with `TimeoutError`, and not if the future is
done. -/
def Return.Right (r : Return α ε) : Prop :=
  r.answer.TimedOut → ¬ Over r.moment ∧ event_seconds r.call.timeout ≠ .ok 0

def Frame.rest : Frame → Option (List Func)
  | ._run_callbacks rest => some rest
  | .add_done_callback => none

/-- The loops that a greenlet is in. -/
def loops (frames : List Frame) : List (List Func) := frames.filterMap Frame.rest

/-- There is no loop of `_run_callbacks`, or one, with that rest of its list. -/
inductive Loop (frames : Gid → List Frame) : List Func → Prop where
  | idle (h : ∀ g, loops (frames g) = []) : Loop frames []
  | runs {rest : List Func} (g : Gid) (hg : loops (frames g) = [rest])
    (hother : ∀ g', g' ≠ g → loops (frames g') = []) : Loop frames rest

/-- The greenlet has a permit and a call of the loop that will give it. -/
def Woken (s : St α ε) (g : Gid) : Prop :=
  ∃ waiter saved, s._condition.pc g = .waiting waiter saved ∧
    counters s._condition.locks waiter > 0 ∧ 0 < notifies s._condition.locks waiter

structure Contract (s : St α ε) : Prop where
  /-- No callback is called more often than it was registered. -/
  once : ∀ func, (s.called.map Called.func).count func ≤ s.registered.count func
  after : ∀ c ∈ s.called, Over c.moment
  /-- When the future is done, all callbacks have been called but those that the
  loop has still to call. -/
  all : Over s.fut._state → ∃ rest, Loop s.frames rest ∧
    s.registered.Perm (s.called.map Called.func ++ rest)
  /-- Nobody waits for the condition itself. -/
  entered : ∀ g, s.entering g = none
  woken : Over s.fut._state → ∀ g c, s.waiting g = some c → Woken s g
  returned : ∀ r ∈ s.returned, r.Right

/-! ## The invariant -/

/-- The callbacks that were registered. -/
structure Tally (s : St α ε) : Prop where
  before : s.fut.done = false →
    s.called = [] ∧ (∀ g, s.frames g = []) ∧ s.registered = s.fut._callbacks
  done : s.fut.done = true → ∃ rest, Loop s.frames rest ∧
    s.registered.Perm (s.called.map Called.func ++ rest)
  after : ∀ c ∈ s.called, Over c.moment

/-- The invariant at a suspension point. -/
structure Inv (s : St α ε) : Prop where
  rests : Rests s._condition s.fut.done
  entering : ∀ g, s.entering g = none
  idle : ∀ g, s._condition.pc g = .free → s.waiting g = none
  busy : ∀ g, s._condition.pc g ≠ .free → ∃ c, s.waiting g = some c
  muted : ∀ g c, s.waiting g = some c → event_seconds c.timeout = .ok 0 →
    Muted s._condition.locks g
  running : s.worker = .running → s.fut._state = .RUNNING
  tally : Tally s
  returned : ∀ r ∈ s.returned, r.Right

theorem done_iff (f : Future α ε) : f.done = true ↔ Over f._state := decide_eq_true_iff

theorem not_done_iff (f : Future α ε) : f.done = false ↔ ¬ Over f._state :=
  decide_eq_false_iff_not

section Callbacks

variable {s s' : St α ε} {g : Gid}

/-! ## Callbacks -/

/-- The future and the callbacks are as before, as far as they matter. -/
theorem Tally.congr (ht : Tally s) (hdone : s'.fut.done = s.fut.done)
    (hcallbacks : s'.fut._callbacks = s.fut._callbacks) (hframes : s'.frames = s.frames)
    (hregistered : s'.registered = s.registered) (hcalled : s'.called = s.called) : Tally s' := by
  refine ⟨fun h => ?_, fun h => ?_, fun c hc => ?_⟩
  · rw [hdone] at h
    rw [hcalled, hframes, hregistered, hcallbacks]
    exact ht.before h
  · rw [hdone] at h
    rw [hcalled, hframes, hregistered]
    exact ht.done h
  · rw [hcalled] at hc
    exact ht.after c hc

/-- A future that is done has no list of callbacks any more, only a loop. -/
theorem Tally.of_done (rest : List Func) (hdone : s.fut.done = true) (hloop : Loop s.frames rest)
    (hperm : s.registered.Perm (s.called.map Called.func ++ rest))
    (hafter : ∀ c ∈ s.called, Over c.moment) : Tally s := by
  refine ⟨fun h => ?_, fun _ => ⟨rest, hloop, hperm⟩, hafter⟩
  rw [hdone] at h
  cases h

/-- One more call, after the future was done. -/
theorem after_append (hafter : ∀ c ∈ s.called, Over c.moment) (hover : Over s.fut._state)
    (func : Func) : ∀ c ∈ s.called ++ [⟨func, s.fut._state⟩], Over c.moment := by
  intro c hc
  rcases List.mem_append.1 hc with hc | hc
  · exact hafter c hc
  · rw [List.mem_singleton.1 hc]
    exact hover

theorem loops_call (func : Func) (frame : Frame) :
    loops ((s.call g func frame).frames g) = (Frame.rest frame).toList ++ loops (s.frames g) := by
  show loops (Function.update s.frames g (frame :: s.frames g) g) = _
  rw [Function.update_self]
  cases frame with
  | _run_callbacks rest => rfl
  | add_done_callback => rfl

/-- The callbacks that `g` is in have changed, and its loops have not. -/
theorem loops_update {frames : Gid → List Frame} {fs : List Frame}
    (h : loops fs = loops (frames g)) (g' : Gid) :
    loops (Function.update frames g fs g') = loops (frames g') := by
  rcases eq_or_ne g' g with rfl | hne
  · rw [Function.update_self]
    exact h
  · rw [Function.update_of_ne hne]

theorem Loop.congr {frames frames' : Gid → List Frame} {rest : List Func} (h : Loop frames rest)
    (hsame : ∀ g, loops (frames' g) = loops (frames g)) : Loop frames' rest := by
  cases h with
  | idle h => exact .idle fun g => (hsame g).trans (h g)
  | runs g hg hother =>
    exact .runs g ((hsame g).trans hg) fun g' hne => (hsame g').trans (hother g' hne)

/-- The loop goes on while there is no other. -/
theorem Tally.run (hover : Over s.fut._state) (hloops : ∀ g, loops (s.frames g) = [])
    {cbs : List Func} (hperm : s.registered.Perm (s.called.map Called.func ++ cbs))
    (hafter : ∀ c ∈ s.called, Over c.moment) (g : Gid) : Tally (s._run_callbacks g cbs) := by
  have hdone : s.fut.done = true := (done_iff s.fut).2 hover
  cases cbs with
  | nil => exact .of_done [] hdone (.idle hloops) hperm hafter
  | cons cb rest =>
    refine .of_done rest hdone (.runs g ?_ fun g' hne => ?_) ?_
      (after_append hafter hover cb)
    · refine (loops_call cb (._run_callbacks rest)).trans ?_
      rw [hloops g]
      rfl
    · show loops (Function.update s.frames g _ g') = []
      rw [Function.update_of_ne hne]
      exact hloops g'
    · -- the callback goes from the list to those that were called
      show s.registered.Perm ((s.called ++ [(⟨cb, s.fut._state⟩ : Called)]).map Called.func ++ rest)
      rw [List.map_append, List.append_assoc]
      exact hperm

/-- A callback that is registered late is called at once. -/
theorem Tally.late (ht : Tally s) (hdone : s.fut.done = true) (g : Gid) (func : Func) :
    Tally (St.call { s with registered := s.registered ++ [func] } g func
      .add_done_callback) := by
  obtain ⟨rest, hloop, hperm⟩ := ht.done hdone
  refine .of_done rest hdone ?_ ?_
    (after_append ht.after ((done_iff s.fut).1 hdone) func)
  · exact hloop.congr (loops_update rfl)
  · show (s.registered ++ [func]).Perm
      ((s.called ++ [(⟨func, s.fut._state⟩ : Called)]).map Called.func ++ rest)
    rw [List.map_append, List.append_assoc]
    refine (hperm.append_right [func]).trans ?_
    rw [List.append_assoc]
    exact List.perm_append_comm.append_left _

/-- The rest of the loop that `g` is in. -/
theorem Loop.rest_eq {frames : Gid → List Frame} {rest rest' : List Func} {fs : List Frame}
    (h : Loop frames rest) (hg : frames g = ._run_callbacks rest' :: fs) :
    rest' = rest ∧ loops fs = [] ∧ ∀ g', g' ≠ g → loops (frames g') = [] := by
  have hloops : loops (frames g) = rest' :: loops fs := by
    rw [hg]
    rfl
  cases h with
  | idle h =>
    rw [h g] at hloops
    cases hloops
  | runs g' hg' hother =>
    rcases eq_or_ne g g' with rfl | hne
    · rw [hg', List.cons.injEq] at hloops
      exact ⟨hloops.1.symm, hloops.2.symm, hother⟩
    · rw [hother g hne] at hloops
      cases hloops

/-- A callback ends the same however it ends: it was called by the loop, or late. -/
theorem callback_ended_cases {how : Ending} (h : s.callback_ended g how = some s') :
    (∃ rest frames, s.frames g = ._run_callbacks rest :: frames ∧
      s' = St._run_callbacks { s with frames := Function.update s.frames g frames } g rest) ∨
    ∃ frames, s.frames g = .add_done_callback :: frames ∧
      s' = { s with frames := Function.update s.frames g frames } := by
  unfold St.callback_ended at h
  split at h
  · cases h
  next rest frames hframes => exact Or.inl ⟨rest, frames, hframes, (Option.some.inj h).symm⟩
  next rest frames hframes => exact Or.inl ⟨rest, frames, hframes, (Option.some.inj h).symm⟩
  next frames hframes => exact Or.inr ⟨frames, hframes, (Option.some.inj h).symm⟩
  next frames hframes => exact Or.inr ⟨frames, hframes, (Option.some.inj h).symm⟩

/-- The loop goes on after a callback. -/
theorem Tally.callback_ended (ht : Tally s) {how : Ending}
    (h : s.callback_ended g how = some s') : Tally s' := by
  have hdone : s.frames g ≠ [] → s.fut.done = true := by
    intro hne
    cases hd : s.fut.done with
    | true => rfl
    | false => exact absurd ((ht.before hd).2.1 g) hne
  rcases callback_ended_cases h with ⟨rest, frames, hframes, rfl⟩ | ⟨frames, hframes, rfl⟩
  · have hdone' : s.fut.done = true := hdone (by rw [hframes]; simp)
    obtain ⟨rest', hloop, hperm⟩ := ht.done hdone'
    obtain ⟨rfl, hnone, hother⟩ := hloop.rest_eq hframes
    refine Tally.run (s := { s with frames := Function.update s.frames g frames })
      ((done_iff s.fut).1 hdone') (fun g' => ?_) hperm ht.after g
    show loops (Function.update s.frames g frames g') = []
    rcases eq_or_ne g' g with rfl | hne
    · rw [Function.update_self]
      exact hnone
    · rw [Function.update_of_ne hne]
      exact hother g' hne
  · have hdone' : s.fut.done = true := hdone (by rw [hframes]; simp)
    obtain ⟨rest, hloop, hperm⟩ := ht.done hdone'
    have hloops : loops frames = loops (s.frames g) := by
      rw [hframes]
      rfl
    exact .of_done rest hdone' (hloop.congr (loops_update hloops)) hperm ht.after

end Callbacks

/-! ## Calls -/

section Calls

variable {s s' : St α ε} {g : Gid}

theorem init_inv : Inv (St.init : St α ε) := by
  refine ⟨init_rests, fun _ => rfl, fun _ _ => rfl, ?_, ?_, ?_, ⟨fun _ => ?_, ?_, ?_⟩, ?_⟩
  · intro g hpc
    exact absurd rfl hpc
  · intro g c hc
    cases hc
  · intro hworker
    cases hworker
  · exact ⟨rfl, fun _ => rfl, rfl⟩
  · intro hdone
    cases hdone
  · intro c hc
    cases hc
  · intro r hr
    cases hr

/-- Nobody was suspended or resumed. -/
theorem Inv.same (hi : Inv s) (hrests : Rests s'._condition s'.fut.done)
    (hpc : s'._condition.pc = s._condition.pc)
    (hsh : Shrinks s._condition.locks s'._condition.locks) (hentering : s'.entering = s.entering)
    (hwaiting : s'.waiting = s.waiting) (hrunning : s'.worker = .running → s'.fut._state = .RUNNING)
    (htally : Tally s') (hreturned : ∀ r ∈ s'.returned, r.Right) : Inv s' := by
  refine ⟨hrests, ?_, fun g h => ?_, fun g h => ?_, fun g c hc h0 => ?_, hrunning, htally,
    hreturned⟩
  · rw [hentering]
    exact hi.entering
  · rw [hpc] at h
    rw [hwaiting]
    exact hi.idle g h
  · rw [hpc] at h
    rw [hwaiting]
    exact hi.busy g h
  · rw [hwaiting] at hc
    exact (hi.muted g c hc h0).shrinks hi.rests.steady.deadlines hsh

/-- A greenlet left `Condition.wait`. -/
theorem Inv.left (hi : Inv s) (hrests : Rests s'._condition s'.fut.done)
    (hpc : s'._condition.pc = Function.update s._condition.pc g .free)
    (hsh : Shrinks s._condition.locks s'._condition.locks) (hentering : s'.entering = s.entering)
    (hwaiting : s'.waiting = Function.update s.waiting g none)
    (hrunning : s'.worker = .running → s'.fut._state = .RUNNING)
    (htally : Tally s') (hreturned : ∀ r ∈ s'.returned, r.Right) : Inv s' := by
  refine ⟨hrests, ?_, fun g' h => ?_, fun g' h => ?_, fun g' c hc h0 => ?_, hrunning, htally,
    hreturned⟩
  · rw [hentering]
    exact hi.entering
  · rw [hwaiting]
    rcases eq_or_ne g' g with rfl | hne
    · exact Function.update_self _ _ _
    · rw [hpc, Function.update_of_ne hne] at h
      rw [Function.update_of_ne hne]
      exact hi.idle g' h
  · rw [hpc] at h
    rw [hwaiting]
    rcases eq_or_ne g' g with rfl | hne
    · exact absurd (Function.update_self _ _ _) h
    · rw [Function.update_of_ne hne] at h ⊢
      exact hi.busy g' h
  · rw [hwaiting] at hc
    rcases eq_or_ne g' g with rfl | hne
    · rw [Function.update_self] at hc
      cases hc
    · rw [Function.update_of_ne hne] at hc
      exact (hi.muted g' c hc h0).shrinks hi.rests.steady.deadlines hsh

/-- A method that gives the condition back, and does not finish the future. -/
theorem Inv.leave (hi : Inv s) (hpc : s._condition.pc g = .free)
    (hcondition : s'._condition = RLock.rlock_release (held s._condition g) g)
    (hdone : s'.fut.done = s.fut.done) (hentering : s'.entering = s.entering)
    (hwaiting : s'.waiting = s.waiting) (hrunning : s'.worker = .running → s'.fut._state = .RUNNING)
    (htally : Tally s') (hreturned : ∀ r ∈ s'.returned, r.Right) : Inv s' := by
  obtain ⟨hrests, hpc', hsh⟩ := hi.rests.round hpc
  rw [← hcondition] at hrests hpc' hsh
  rw [← hdone] at hrests
  exact hi.same hrests hpc' hsh hentering hwaiting hrunning htally hreturned

theorem run_callbacks_same (s : St α ε) (g : Gid) (cbs : List Func) :
    (s._run_callbacks g cbs)._condition = s._condition ∧
      (s._run_callbacks g cbs).fut._state = s.fut._state ∧
      (s._run_callbacks g cbs).worker = s.worker ∧
      (s._run_callbacks g cbs).entering = s.entering ∧
      (s._run_callbacks g cbs).waiting = s.waiting ∧
      (s._run_callbacks g cbs).returned = s.returned := by
  cases cbs with
  | nil => exact ⟨rfl, rfl, rfl, rfl, rfl, rfl⟩
  | cons cb rest => exact ⟨rfl, rfl, rfl, rfl, rfl, rfl⟩

theorem callback_ended_same {how : Ending} (h : s.callback_ended g how = some s') :
    s'._condition = s._condition ∧ s'.fut._state = s.fut._state ∧ s'.worker = s.worker ∧
      s'.entering = s.entering ∧ s'.waiting = s.waiting ∧ s'.returned = s.returned := by
  rcases callback_ended_cases h with ⟨rest, frames, _, rfl⟩ | ⟨frames, _, rfl⟩
  · exact run_callbacks_same _ g rest
  · exact ⟨rfl, rfl, rfl, rfl, rfl, rfl⟩

/-- The future is done by a method that runs. -/
theorem Inv.complete (hi : Inv s) (hpc : s._condition.pc g = .free) (hopen : s.fut.done = false)
    (fut : Future α ε) (hdone : fut.done = true) (hcallbacks : fut._callbacks = s.fut._callbacks)
    (worker : Waiting.Worker) (hworker : worker ≠ .running) :
    Inv (St.complete { s with _condition := held s._condition g, worker := worker } g fut) := by
  obtain ⟨hrests, hpc', hsh⟩ := hi.rests.complete hpc
  obtain ⟨hcalled, hframes, hregistered⟩ := hi.tally.before hopen
  unfold St.complete St.leave
  dsimp only
  generalize RLock.rlock_release (RLock.condition_notify (held s._condition g) g
    (held s._condition g).waiters.length) g = c at hrests hpc' hsh
  have hsame := run_callbacks_same
    { s with _condition := c, worker := worker, fut := fut } g fut._callbacks
  have htally : Tally (St._run_callbacks
      { s with _condition := c, worker := worker, fut := fut } g fut._callbacks) := by
    refine Tally.run ((done_iff fut).1 hdone) (fun g' => ?_) ?_ (fun c hc => ?_) g
    · rw [hframes g']
      rfl
    · show s.registered.Perm (s.called.map Called.func ++ fut._callbacks)
      rw [hcalled, hregistered, hcallbacks]
      exact .refl _
    · have hmem : c ∈ s.called := hc
      rw [hcalled] at hmem
      cases hmem
  generalize St._run_callbacks { s with _condition := c, worker := worker, fut := fut } g
    fut._callbacks = s' at hsame htally ⊢
  obtain ⟨hstate, hw, hentering, hwaiting, hreturned⟩ := hsame.2
  have hcondition : s'._condition = c := hsame.1
  -- the loop of callbacks changes neither the condition nor the state
  have hdone' : s'.fut.done = true := by
    rw [done_iff, hstate]
    exact (done_iff fut).1 hdone
  rw [← hcondition] at hrests hpc' hsh
  rw [← hdone'] at hrests
  refine hi.same hrests hpc' hsh hentering hwaiting (fun h => ?_) htally fun r hr => ?_
  · rw [hw] at h
    exact absurd h hworker
  · rw [hreturned] at hr
    exact hi.returned r hr

/-- The worker finishes the future. -/
theorem Inv.finish (hi : Inv s) (hpc : s._condition.pc g = .free) (hrunning : s.worker = .running)
    (fut : Future α ε) (hstate : fut._state = .FINISHED)
    (hcallbacks : fut._callbacks = s.fut._callbacks) :
    Inv (St.complete { s with _condition := held s._condition g, worker := .ended } g fut) := by
  have hopen : s.fut.done = false :=
    (not_done_iff s.fut).2 (by simp [Over, hi.running hrunning])
  exact hi.complete hpc hopen fut ((done_iff fut).2 (Or.inr (Or.inr hstate))) hcallbacks .ended
    (by simp)

theorem returned_append (hi : Inv s) {r : Return α ε} (hr : r.Right) :
    ∀ r' ∈ s.returned ++ [r], r'.Right := by
  intro r' hmem
  rcases List.mem_append.1 hmem with h | h
  · exact hi.returned r' h
  · rw [List.mem_singleton.1 h]
    exact hr

/-- `result` or `exception` ends without waiting. -/
theorem Inv.answer (hi : Inv s) (hpc : s._condition.pc g = .free) {fut : Future α ε}
    (hstate : fut._state = s.fut._state) (hcallbacks : fut._callbacks = s.fut._callbacks)
    (c : Call) {a : Answer α ε} (ha : ¬ a.TimedOut) :
    Inv (St.answer { s with _condition := held s._condition g, fut := fut } g c a) := by
  have hdone : fut.done = s.fut.done := by
    unfold Future.done
    rw [hstate]
  refine hi.leave hpc rfl hdone rfl rfl (fun h => hstate.trans (hi.running h)) ?_ ?_
  · exact hi.tally.congr hdone hcallbacks rfl rfl rfl
  · exact returned_append hi fun h => absurd h ha

/-- `result` or `exception` waits. -/
theorem Inv.block (hi : Inv s) (hpc : s._condition.pc g = .free) (hopen : s.fut.done = false)
    {method : Method} {timeout : Option Int} {seconds : Nat}
    (hseconds : event_seconds timeout = .ok seconds) :
    Inv { s with
      _condition := RLock.ConditionObject_wait (held s._condition g) g seconds
      waiting := Function.update s.waiting g (some ⟨method, timeout⟩) } := by
  have hrests := hi.rests
  rw [hopen] at hrests
  obtain ⟨hrests', _, hpc', hmuted, hothers⟩ := hrests.wait hpc seconds
  rw [← hopen] at hrests'
  refine ⟨hrests', hi.entering, fun g' h => ?_, fun g' h => ?_, fun g' c hc h0 => ?_, hi.running,
    hi.tally.congr rfl rfl rfl rfl rfl, hi.returned⟩
  · rcases eq_or_ne g' g with rfl | hne
    · rw [hpc', Function.update_self] at h
      cases h
    · rw [hpc', Function.update_of_ne hne] at h
      exact (Function.update_of_ne hne _ _).trans (hi.idle g' h)
  · rcases eq_or_ne g' g with rfl | hne
    · exact ⟨_, Function.update_self _ _ _⟩
    · rw [hpc', Function.update_of_ne hne] at h
      obtain ⟨c, hc⟩ := hi.busy g' h
      exact ⟨c, (Function.update_of_ne hne _ _).trans hc⟩
  · rcases update_some_cases hc with ⟨rfl, rfl⟩ | ⟨hne, hold⟩
    · -- without a timeout there is no deadline
      refine hmuted ?_
      rw [hseconds] at h0
      exact Except.ok.inj h0
    · exact hothers g' hne (hi.muted g' c hold h0)

/-- Between two steps the contract holds. -/
theorem Inv.contract (hi : Inv s) : Contract s := by
  refine ⟨fun func => ?_, hi.tally.after, fun hover => ?_, hi.entering, fun hover g c hc => ?_,
    hi.returned⟩
  · cases hdone : s.fut.done with
    | false =>
      rw [(hi.tally.before hdone).1]
      exact Nat.zero_le _
    | true =>
      obtain ⟨rest, _, hperm⟩ := hi.tally.done hdone
      rw [hperm.count_eq, List.count_append]
      exact Nat.le_add_right _ _
  · exact hi.tally.done ((done_iff s.fut).2 hover)
  · have hpc : s._condition.pc g ≠ .free := by
      intro hfree
      rw [hi.idle g hfree] at hc
      cases hc
    obtain ⟨waiter, hwaiting⟩ := (hi.rests.places g).resolve_left hpc
    have hview : (view s._condition s.fut.done).pc g = .waiting waiter := by
      show place (s._condition.pc g) = .waiting waiter
      rw [hwaiting]
      rfl
    -- the future is done, so the event is set
    obtain ⟨hpos, hdue⟩ :=
      hi.rests.steady.inv.serves.woken ((done_iff s.fut).2 hover) g waiter hview
    exact ⟨waiter, _, hwaiting, hpos, hdue⟩

variable [Truth ε]

/-- What the test finds in a future that is done. -/
theorem test_cases (s : St α ε) (method : Method) :
    (s.fut.done = false ∧ method.test s.fut = none) ∨
      s.fut.done = true ∧ ∃ fut a, method.test s.fut = some (fut, a) ∧
        fut._state = s.fut._state ∧ fut._callbacks = s.fut._callbacks ∧ ¬ a.TimedOut := by
  have hget : s.fut._get_result.1._callbacks = s.fut._callbacks ∧
      s.fut._get_result.2 ≠ .error .timeout_error := by
    unfold Future._get_result
    split
    · exact ⟨rfl, by simp⟩
    · refine ⟨rfl, ?_⟩
      dsimp only
      split
      · split <;> simp
      · simp
  have hfetched : ¬ (Answer.result s.fut._get_result.2 : Answer α ε).TimedOut := by
    unfold Answer.TimedOut
    split
    next heq => exact fun _ => hget.2 (by simpa using heq)
    next heq => cases heq
    · exact id
  unfold Method.test Future.result_test Future.exception_test
  cases hstate : s.fut._state with
  | PENDING | RUNNING =>
    left
    refine ⟨(not_done_iff s.fut).2 (by simp [Over, hstate]), ?_⟩
    cases method with
    | result => rfl
    | exception => rfl
  | CANCELLED | CANCELLED_AND_NOTIFIED =>
    right
    refine ⟨(done_iff s.fut).2 (by simp [Over, hstate]), ?_⟩
    cases method with
    | result => exact ⟨_, _, rfl, hstate, rfl, id⟩
    | exception => exact ⟨_, _, rfl, hstate, rfl, id⟩
  | FINISHED =>
    right
    refine ⟨(done_iff s.fut).2 (by simp [Over, hstate]), ?_⟩
    cases method with
    | result =>
      exact ⟨_, _, rfl, (Future.get_result_state s.fut).trans hstate, hget.1, hfetched⟩
    | exception => exact ⟨_, _, rfl, hstate, rfl, id⟩

theorem enter_eq (hi : Inv s) (hpc : s._condition.pc g = .free) (op : Op α ε) :
    s.enter g op = St.entered { s with _condition := held s._condition g } g op := by
  have hne : (held s._condition g).pc g ≠ .acquiring := by
    show s._condition.pc g ≠ .acquiring
    rw [hpc]
    simp
  unfold St.enter
  simp only [hi.rests.enter hpc, if_neg hne]

theorem Inv.cancel (hi : Inv s) (hpc : s._condition.pc g = .free) :
    Inv (St.entered { s with _condition := held s._condition g } g .cancel) := by
  simp only [St.entered]
  split
  next hstate =>
    have hopen : s.fut.done = false := (not_done_iff s.fut).2 (by simp [Over, hstate])
    refine hi.complete hpc hopen { s.fut with _state := .CANCELLED } ((done_iff _).2 (Or.inl rfl))
      rfl s.worker fun hworker => ?_
    -- a worker that runs its item has set the state
    have hrunning := hi.running hworker
    rw [hstate] at hrunning
    cases hrunning
  · exact hi.leave hpc rfl rfl rfl rfl hi.running (hi.tally.congr rfl rfl rfl rfl rfl) hi.returned

theorem Inv.add_done_callback (hi : Inv s) (hpc : s._condition.pc g = .free) (func : Func) :
    Inv (St.entered { s with _condition := held s._condition g } g (.add_done_callback func)) := by
  simp only [St.entered]
  split
  next hdone =>
    refine hi.leave hpc rfl rfl rfl rfl hi.running ?_ hi.returned
    exact (hi.tally.late hdone g func).congr rfl rfl rfl rfl rfl
  next hdone =>
    have hopen : s.fut.done = false := by simpa using hdone
    obtain ⟨hcalled, hframes, hregistered⟩ := hi.tally.before hopen
    refine hi.leave hpc rfl rfl rfl rfl hi.running ⟨fun _ => ?_, fun h => ?_, hi.tally.after⟩
      hi.returned
    · refine ⟨hcalled, hframes, ?_⟩
      show s.registered ++ [func] = s.fut._callbacks ++ [func]
      rw [hregistered]
    · exact absurd h hdone

theorem Inv.wait (hi : Inv s) (hpc : s._condition.pc g = .free) (method : Method)
    (timeout : Option Int) :
    Inv (St.entered { s with _condition := held s._condition g } g (.wait method timeout)) := by
  simp only [St.entered]
  rcases test_cases s method with ⟨hopen, htest⟩ | ⟨_, fut, a, htest, hstate, hcallbacks, ha⟩
  · rw [htest]
    dsimp only
    cases hseconds : event_seconds timeout with
    | error e => exact hi.answer hpc rfl rfl ⟨method, timeout⟩ id
    | ok seconds =>
      -- the wait blocks, so nothing is new in `ended`
      have hrests := hi.rests
      rw [hopen] at hrests
      obtain ⟨_, hended, _⟩ := hrests.wait hpc seconds
      have hdrop : (RLock.ConditionObject_wait (held s._condition g) g seconds).ended.drop
          (held s._condition g).ended.length = [] := by
        rw [hended]
        exact List.drop_length
      simp only [hdrop]
      exact hi.block hpc hopen hseconds
  · rw [htest]
    exact hi.answer hpc hstate hcallbacks ⟨method, timeout⟩ ha

theorem Inv.set_running (hi : Inv s) (hpc : s._condition.pc g = .free) :
    Inv (St.entered { s with _condition := held s._condition g } g
      .set_running_or_notify_cancel) := by
  simp only [St.entered, Future.set_running_or_notify_cancel]
  cases hstate : s.fut._state with
  | CANCELLED =>
    have hdone : s.fut.done = true := (done_iff s.fut).2 (Or.inl hstate)
    refine hi.leave hpc rfl hdone.symm rfl rfl ?_ ?_ hi.returned
    · intro hworker
      cases hworker
    · exact hi.tally.congr hdone.symm rfl rfl rfl rfl
  | PENDING =>
    have hopen : s.fut.done = false := (not_done_iff s.fut).2 (by simp [Over, hstate])
    refine hi.leave hpc rfl hopen.symm rfl rfl (fun _ => rfl) ?_ hi.returned
    exact hi.tally.congr hopen.symm rfl rfl rfl rfl
  | RUNNING | CANCELLED_AND_NOTIFIED | FINISHED =>
    refine hi.leave hpc rfl rfl rfl rfl ?_ (hi.tally.congr rfl rfl rfl rfl rfl) hi.returned
    intro hworker
    cases hworker

theorem call_inv (hi : Inv s) (hpc : s._condition.pc g = .free) {op : Op α ε}
    (hallows : s.allows op = true) : Inv (s.enter g op) := by
  rw [enter_eq hi hpc]
  cases op with
  | cancel => exact hi.cancel hpc
  | add_done_callback func => exact hi.add_done_callback hpc func
  | wait method timeout => exact hi.wait hpc method timeout
  | set_running_or_notify_cancel => exact hi.set_running hpc
  | set_result result =>
    exact hi.finish hpc (of_decide_eq_true hallows)
      { s.fut with _result := result, _state := .FINISHED } rfl rfl
  | set_exception exception =>
    exact hi.finish hpc (of_decide_eq_true hallows)
      { s.fut with _exception := some exception, _state := .FINISHED } rfl rfl

/-! ## Turns -/

/-- What a turn of the loop does: no wait ends, or one. -/
inductive Turned (s : St α ε) : St α ε → Prop where
  | quiet {l : Locks.St} (hrests : Rests { s._condition with locks := l } s.fut.done)
    (hsh : Shrinks s._condition.locks l) : Turned s { s with _condition.locks := l }
  | ended {g : Gid} {l : Locks.St} {res : Locks.Outcome} {c' : RLock.St}
    (hc' : RLock.settle s._condition (l, some (g, res)) = c') (hpc : s._condition.pc g ≠ .free)
    (hended : c'.ended = s._condition.ended ++ [⟨g, 1, res, RLock.taken g⟩])
    (hrests : Rests (RLock.rlock_release c' g) s.fut.done)
    (hpc' : (RLock.rlock_release c' g).pc = Function.update s._condition.pc g .free)
    (hsh : Shrinks s._condition.locks (RLock.rlock_release c' g).locks)
    (hends : Event.Ends (view s._condition s.fut.done) g res) :
    Turned s (s.settle (l, some (g, res)))

theorem settle_turned (hr : Rests s._condition s.fut.done) {thrown : Option (Gid × Exc)}
    {r : Locks.St × Option (Gid × Locks.Outcome)} (ht : Turn s._condition.locks thrown r)
    (hinv : Locks.Inv r.1) {e : Event.St}
    (he : Event.settle (view s._condition s.fut.done) r = e)
    (hsteady : Event.Steady e) (hsh : Shrinks s._condition.locks e.locks)
    (hturned : Event.Turned (view s._condition s.fut.done) e) : Turned s (s.settle r) := by
  obtain ⟨l, _ | ⟨g, res⟩⟩ := r
  · -- Case: no wait ended
    subst he
    exact .quiet (hr.quiet hsteady) hsh
  · -- Case: the wait of `g` ended
    subst he
    obtain ⟨hpc, hended, hrests, hpc', hlocks⟩ := hr.ended ht hinv hsteady
    have hone : (Event.settle (view s._condition s.fut.done) (l, some (g, res))).ended =
        [(g, .outcome res)] := by
      rw [Event.settle_eq hr.steady.inv ht hinv]
      rfl
    rw [← hlocks] at hsh
    refine .ended rfl hpc hended hrests hpc' hsh ?_
    cases hturned with
    | quiet _ hnone =>
      rw [hone] at hnone
      cases hnone
    | ended _ _ hsome hends =>
      rw [hone] at hsome
      cases hsome
      exact hends

theorem turn_turned (hr : Rests s._condition s.fut.done) {a : Event.Act}
    (ha : a.passive = true) (h : turn s a = some s') : Turned s s' := by
  have hpassive : ∀ {e}, Event.step (view s._condition s.fut.done) a = some e →
      Event.Steady e ∧ Shrinks s._condition.locks e.locks ∧
        e.flag = (view s._condition s.fut.done).flag ∧
        Event.Turned (view s._condition s.fut.done) e :=
    fun he => Event.passive_steady hr.steady ha he
  cases a with
  | set g => cases ha
  | clear g => cases ha
  | wait g seconds => cases ha
  | fire waiter =>
    obtain ⟨r, hfire, rfl⟩ := Option.map_eq_some_iff.1 h
    obtain ⟨hs, hsh, _, hturned⟩ := hpassive (Option.map_eq_some_iff.2 ⟨r, hfire, rfl⟩)
    exact settle_turned hr (turn_fire hfire) (fire_inv hr.steady.inv.locks hfire) rfl hs hsh
      hturned
  | due timer =>
    obtain ⟨loop, hdue, rfl⟩ := Option.map_eq_some_iff.1 h
    obtain ⟨hs, hsh, _⟩ := hpassive (Option.map_eq_some_iff.2 ⟨loop, hdue, rfl⟩)
    exact .quiet (hr.quiet hs) hsh
  | throw g e =>
    obtain ⟨hs, hsh, _, hturned⟩ := hpassive rfl
    cases h
    exact settle_turned hr (turn_throw s._condition.locks g e)
      (resume_inv hr.steady.inv.locks g _) rfl hs hsh hturned
  | switch g =>
    obtain ⟨hs, hsh, _, hturned⟩ := hpassive rfl
    cases h
    exact settle_turned hr (turn_value s._condition.locks g _ none)
      (resume_inv hr.steady.inv.locks g _) rfl hs hsh hturned
  | call_soon n =>
    obtain ⟨hs, hsh, _⟩ := hpassive rfl
    cases h
    exact .quiet (hr.quiet hs) hsh

/-- `result` or `exception` goes on after its wait. -/
theorem Inv.woken (hi : Inv s) {c : Call} {c' : RLock.St} {res : Locks.Outcome}
    (hc : s.waiting g = some c)
    (hrests : Rests (RLock.rlock_release c' g) s.fut.done)
    (hpc' : (RLock.rlock_release c' g).pc = Function.update s._condition.pc g .free)
    (hsh : Shrinks s._condition.locks (RLock.rlock_release c' g).locks)
    (hends : Event.Ends (view s._condition s.fut.done) g res) :
    Inv (St.woken { s with
      _condition := c', waiting := Function.update s.waiting g none } g c res) := by
  -- whatever it answers, it leaves
  have hanswer : ∀ (fut : Future α ε) (a : Answer α ε), fut._state = s.fut._state →
      fut._callbacks = s.fut._callbacks →
      (⟨g, c, a, fut._state⟩ : Return α ε).Right →
      Inv (St.answer { s with
        _condition := c', waiting := Function.update s.waiting g none, fut := fut } g c a) := by
    intro fut a hstate hcallbacks hright
    have hdone : fut.done = s.fut.done := by
      unfold Future.done
      rw [hstate]
    rw [← hdone] at hrests
    refine hi.left hrests hpc' hsh rfl rfl (fun h => hstate.trans (hi.running h)) ?_
      (returned_append hi hright)
    exact hi.tally.congr hdone hcallbacks rfl rfl rfl
  -- and it finds the future done, unless its deadline came before
  have htested : ∀ res', (∀ e, res' ≠ .NULL e) →
      (s.fut.done = false → event_seconds c.timeout ≠ .ok 0) →
      Inv (St.woken { s with
        _condition := c', waiting := Function.update s.waiting g none } g c res') := by
    intro res' hnull hlate
    unfold St.woken
    split
    next e => exact absurd rfl (hnull e)
    · rcases test_cases s c.method with ⟨hopen, htest⟩ | ⟨_, fut, a, htest, hstate, hcallbacks, ha⟩
      · rw [htest]
        refine hanswer s.fut _ rfl rfl fun _ => ⟨?_, hlate hopen⟩
        exact (not_done_iff s.fut).1 hopen
      · rw [htest]
        exact hanswer fut a hstate hcallbacks fun h => absurd h ha
  cases hends with
  | set hflag =>
    refine htested _ (by simp) fun hopen => ?_
    rw [show s.fut.done = true from hflag] at hopen
    cases hopen
  | expired hm => exact htested _ (by simp) fun _ h0 => hm (hi.muted g c hc h0)
  | thrown n =>
    -- it raises what was thrown, without another look
    exact hanswer s.fut (.failed (.thrown _)) rfl rfl fun h => h.elim

theorem turned_inv (hi : Inv s) (ht : Turned s s') : Inv s' := by
  cases ht with
  | quiet hrests hsh =>
    exact hi.same hrests rfl hsh rfl rfl hi.running (hi.tally.congr rfl rfl rfl rfl rfl)
      hi.returned
  | @ended g l res c' hc' hpc hended hrests hpc' hsh hends =>
    obtain ⟨c, hc⟩ := hi.busy g hpc
    have heq : s.settle (l, some (g, res)) = St.woken { s with
        _condition := c', waiting := Function.update s.waiting g none } g c res := by
      unfold St.settle
      simp only [hc', hi.entering g, hc, hended, List.drop_left]
    rw [heq]
    exact hi.woken hc hrests hpc' hsh hends

/-! ## Steps -/

theorem step_inv (s : St α ε) (a : Act α ε) (s' : St α ε) (h : step s a = some s')
    (hi : Inv s) : Inv s' := by
  cases a with
  | call g op =>
    obtain ⟨⟨hpc, hallows⟩, heq⟩ := Option.ite_none_right_eq_some.1 h
    cases heq
    exact call_inv hi hpc hallows
  | callback_ended g how =>
    obtain ⟨_, hended⟩ := Option.ite_none_right_eq_some.1 h
    have htally := hi.tally.callback_ended hended
    obtain ⟨hcondition, hstate, hworker, hentering, hwaiting, hreturned⟩ :=
      callback_ended_same hended
    have hdone : s'.fut.done = s.fut.done := by
      unfold Future.done
      rw [hstate]
    refine hi.same ?_ ?_ ?_ hentering hwaiting (fun hw => ?_) htally fun r hr => ?_
    · rw [hcondition, hdone]
      exact hi.rests
    · rw [hcondition]
    · rw [hcondition]
      exact shrinks_of_plain (Plain.refl _) rfl
    · rw [hworker] at hw
      rw [hstate]
      exact hi.running hw
    · rw [hreturned] at hr
      exact hi.returned r hr
  | turn a =>
    obtain ⟨hpassive, hturn⟩ := Option.ite_none_right_eq_some.1 h
    exact turned_inv hi (turn_turned hi.rests hpassive hturn)

end Calls

/-! ## Runs -/

variable [Truth ε]

/-- In every run, callbacks are called once, and never before the future is done;
nobody who waits for it is forgotten. -/
theorem future_contract (as : List (Act α ε)) (t : St α ε)
    (h : Trace.run step St.init as = some t) : Contract t :=
  (Trace.run_invariant step_inv init_inv h).contract

/-- Two greenlets wait; the first callback registers a third one, and raises; the
second one suspends until the greenlets have their answers. -/
def twoWaiters : List (Act Nat Nat) :=
  [.call 1 (.add_done_callback 10), .call 1 (.add_done_callback 11), .call 2 (.wait .result none),
    .call 5 (.wait .exception none), .call 3 .set_running_or_notify_cancel,
    .call 3 (.set_result (some 4)), .call 3 (.add_done_callback 12), .callback_ended 3 .returned,
    .callback_ended 3 .raised, .turn (.fire 2), .turn (.fire 5), .turn (.fire 2), .turn (.fire 5),
    .callback_ended 3 .returned]

theorem future_contract_two : ∃ t, Trace.run step St.init twoWaiters = some t ∧
    t.called.map Called.func = [10, 12, 11] ∧ t.returned.map Return.g = [2, 5] ∧
      Contract t := by
  have h : (Trace.run step St.init twoWaiters).any (fun t =>
      decide (t.called.map Called.func = [10, 12, 11] ∧ t.returned.map Return.g = [2, 5])) =
        true := by
    decide
  obtain ⟨t, ht, hresults⟩ := Trace.run_any h
  rw [decide_eq_true_eq] at hresults
  exact ⟨t, ht, hresults.1, hresults.2, future_contract twoWaiters t ht⟩

end Jega.Futures.Completion
