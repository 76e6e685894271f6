import Jega.Futures.Base
import Mathlib.Data.List.Basic

/-!
# Jega.Futures.WorkItem — `_WorkItem` of `_thread.py`

A worker thread runs an item in the steps of `run`; what it asks of the loop it
posts as messages, and the loop executes them. Clients call the methods of the
item's future between those.

`Holds` says what the messages of an item can be at each point of its way, and
what its future then is. Each party keeps it: the thread (`holds_run`), the loop
(`holds_exec`) and the clients (`holds_client`).
-/

namespace Jega.Futures

variable {α ε : Type}

/-- What a call of `fn` gives. -/
abbrev Outcome (α ε : Type) := Except ε (Option α)

/-- `calls` and the fields after it are history, and no function reads them. -/
structure WorkItem (α ε : Type) where
  future : Future α ε
  /-- `handler` and `loop` are not `None`. -/
  handler : Bool
  /-- The `InfiniteHandler` has its timer. -/
  timer : Bool
  _event : Bool
  _cancelled : Bool
  calls : Nat
  outcome : Option (Outcome α ε)
  /-- A `cancel` of the future returned `True`. -/
  cancel_true : Bool
  /-- The states of the future so far. -/
  path : List State
  /-- `_set_running` was executed. -/
  executed : Bool
  /-- It raised an exception. -/
  raised : Bool
deriving DecidableEq, Repr

/-- A callback that the thread gives to `call_soon_threadsafe`. -/
inductive Msg (α ε : Type) where
  | _set_running
  | set_result (r : Option α)
  | set_exception (e : ε)
  | handler_cancel
deriving DecidableEq, Repr

/-- Where `run` is; `posting` has the outcome of `fn`. -/
inductive Pc (α ε : Type) where
  | starting
  | waiting
  | calling
  | inside
  | posting (o : Outcome α ε)
  | cancelling
  | clearing
deriving DecidableEq, Repr

/-- Where a step of `run` leaves the thread. -/
inductive Next (α ε : Type) where
  | goes (pc : Pc α ε)
  | returns
  | raises
deriving DecidableEq, Repr

/-- A client calls a method of the future, or `wait` lists a waiter and takes it
off. The other methods only read. -/
inductive Call where
  | cancel
  | result
  | add_done_callback (func : Func)
  | install (waiter : Wid)
  | remove (waiter : Wid)
deriving DecidableEq, Repr

namespace WorkItem

/-- `__init__`, with a new future. -/
def new : WorkItem α ε where
  future := .new
  handler := true
  timer := true
  _event := false
  _cancelled := false
  calls := 0
  outcome := none
  cancel_true := false
  path := [.PENDING]
  executed := false
  raised := false

/-- The future changes, and its path may grow. -/
def put (w : WorkItem α ε) (f : Future α ε) : WorkItem α ε :=
  { w with
    future := f
    path := if f._state = w.future._state then w.path else w.path ++ [f._state] }

/-- The message that has the outcome. -/
def message : Outcome α ε → Msg α ε
  | .ok r => .set_result r
  | .error e => .set_exception e

/-- `self.loop.call_soon_threadsafe`; without the attributes an exception. -/
def post (w : WorkItem α ε) (m : Msg α ε) (pc : Pc α ε) : WorkItem α ε × List (Msg α ε) × Next α ε :=
  if w.handler then (w, [m], .goes pc) else (w, [], .raises)

/-- A step of `run`, with the messages it posts; `none` while the thread is
blocked. `o` is what `fn` gives if this step ends the call. -/
def run (w : WorkItem α ε) (o : Outcome α ε) :
    Pc α ε → Option (WorkItem α ε × List (Msg α ε) × Next α ε)
  | .starting => some (w.post ._set_running .waiting)
  | .waiting =>
    if w._event then some (w, [], if w._cancelled then .returns else .goes .calling) else none
  | .calling => some ({ w with calls := w.calls + 1 }, [], .goes .inside)
  | .inside => some ({ w with outcome := some o }, [], .goes (.posting o))
  | .posting o => some (w.post (message o) .cancelling)
  | .cancelling => some (w.post .handler_cancel .clearing)
  | .clearing => some ({ w with handler := false }, [], .returns)

/-- The loop executes a message. -/
def exec (w : WorkItem α ε) : Msg α ε → WorkItem α ε
  | ._set_running =>
    let w := { w with executed := true }
    match w.future.set_running_or_notify_cancel with
    | .error _ => { w with raised := true }
    | .ok (f, true) => { w.put f with _event := true }
    | .ok (f, false) =>
      let w := w.put f
      -- `self.handler.cancel()` where there is no handler
      if w.handler then { w with timer := false, _cancelled := true, _event := true }
      else { w with raised := true }
  | .set_result r => w.put (w.future.set_result r)
  | .set_exception e => w.put (w.future.set_exception e)
  | .handler_cancel => { w with timer := false }

def client [Truth ε] (w : WorkItem α ε) : Call → WorkItem α ε
  | .cancel => { w.put w.future.cancel.1 with cancel_true := w.cancel_true || w.future.cancel.2 }
  | .result => w.put ((w.future.result_test.map Prod.fst).getD w.future)
  | .add_done_callback func => w.put (w.future.add_done_callback func).1
  | .install waiter => w.put { w.future with _waiters := w.future._waiters ++ [waiter] }
  | .remove waiter => w.put { w.future with _waiters := w.future._waiters.erase waiter }

/-! ## The parts of an item's life -/

/-- `_set_running` is yet to come. -/
structure Early (w : WorkItem α ε) : Prop where
  state : w.future._state = .PENDING ∧ w.cancel_true = false ∧ w.path = [.PENDING] ∨
    w.future._state = .CANCELLED ∧ w.cancel_true = true
  empty : w.future.Empty
  unused : w.future._used = false
  timer : w.timer = true
  event : w._event = false
  calls : w.calls = 0
  cancelled : w._cancelled = false
  outcome : w.outcome = none
  executed : w.executed = false
  raised : w.raised = false

/-- `_set_running` has found the future cancelled. -/
structure Refused (w : WorkItem α ε) : Prop where
  state : w.future._state = .CANCELLED_AND_NOTIFIED
  cancel_true : w.cancel_true = true
  event : w._event = true
  calls : w.calls = 0
  cancelled : w._cancelled = true
  raised : w.raised = false

/-- The future runs; `n` calls were made and `o` came of them. -/
structure Running (w : WorkItem α ε) (n : Nat) (o : Option (Outcome α ε)) : Prop where
  state : w.future._state = .RUNNING
  path : w.path = [.PENDING, .RUNNING]
  cancel_true : w.cancel_true = false
  empty : w.future.Empty
  unused : w.future._used = false
  timer : w.timer = true
  event : w._event = true
  calls : w.calls = n
  cancelled : w._cancelled = false
  outcome : w.outcome = o
  raised : w.raised = false

/-- The loop has given the outcome to the future. -/
structure Finished (w : WorkItem α ε) (o : Outcome α ε) : Prop where
  state : w.future._state = .FINISHED
  path : w.path = [.PENDING, .RUNNING, .FINISHED]
  cancel_true : w.cancel_true = false
  keeps : w.future.Keeps o
  event : w._event = true
  calls : w.calls = 1
  outcome : w.outcome = some o
  raised : w.raised = false

/-- The thread that has an item is at `run pc`. -/
inductive Stage (α ε : Type) where
  | queued
  | run (pc : Pc α ε)
  | done

/-- The messages of an item that the loop has not executed, at each stage. -/
inductive Sent (w : WorkItem α ε) : Stage α ε → List (Msg α ε) → Prop where
  | queued : Early w → Sent w .queued []
  | starting : Early w → Sent w (.run .starting) []
  | asked : Early w → Sent w (.run .waiting) [._set_running]
  | refused : Refused w → Sent w (.run .waiting) []
  | accepted : Running w 0 none → Sent w (.run .waiting) []
  | calling : Running w 0 none → Sent w (.run .calling) []
  | inside : Running w 1 none → Sent w (.run .inside) []
  | posting {o} : Running w 1 (some o) → Sent w (.run (.posting o)) []
  | posted {o} : Running w 1 (some o) → Sent w (.run .cancelling) [message o]
  | given {o} : Finished w o → Sent w (.run .cancelling) []
  | ending {o} : Running w 1 (some o) → Sent w (.run .clearing) [message o, .handler_cancel]
  | ending_given {o} : Finished w o → Sent w (.run .clearing) [.handler_cancel]
  | ended {o} : Finished w o → Sent w (.run .clearing) []
  | done {o} : Running w 1 (some o) → Sent w .done [message o, .handler_cancel]
  | done_given {o} : Finished w o → Sent w .done [.handler_cancel]
  | done_ended {o} : Finished w o → Sent w .done []
  | done_refused : Refused w → Sent w .done []

structure Holds (w : WorkItem α ε) (st : Stage α ε) (ms : List (Msg α ε)) : Prop where
  handler : st ≠ .done → w.handler = true
  sent : Sent w st ms

/-- What the protocol promises of an item. -/
structure Kept (w : WorkItem α ε) : Prop where
  once : w.calls ≤ 1
  cancelled : w.cancel_true = true → w.calls = 0 ∧
    (w.future._state = .CANCELLED ∨ w.future._state = .CANCELLED_AND_NOTIFIED)
  path : w.cancel_true = false → w.path <+: [.PENDING, .RUNNING, .FINISHED] ∧
    w.path.getLast? = some w.future._state
  finished : w.future._state = .FINISHED → ∃ o, w.outcome = some o ∧ w.future.Keeps o
  never_raises : w.raised = false
  released : w.executed = true → w._event = true

theorem Early.kept {w : WorkItem α ε} (h : Early w) : Kept w where
  once := by
    rw [h.calls]
    exact Nat.zero_le 1
  cancelled := by
    intro hc
    rcases h.state with ⟨_, hno, _⟩ | ⟨hs, _⟩
    · rw [hno] at hc
      cases hc
    · exact ⟨h.calls, Or.inl hs⟩
  path := by
    intro hc
    rcases h.state with ⟨hs, _, hp⟩ | ⟨_, hyes⟩
    · rw [hp, hs]
      exact ⟨⟨[.RUNNING, .FINISHED], rfl⟩, rfl⟩
    · rw [hyes] at hc
      cases hc
  finished := by
    intro hf
    rcases h.state with ⟨hs, _⟩ | ⟨hs, _⟩
    all_goals
      rw [hs] at hf
      cases hf
  never_raises := h.raised
  released := by
    intro he
    rw [h.executed] at he
    cases he

theorem Refused.kept {w : WorkItem α ε} (h : Refused w) : Kept w where
  once := by
    rw [h.calls]
    exact Nat.zero_le 1
  cancelled := fun _ => ⟨h.calls, Or.inr h.state⟩
  path := by
    intro hc
    rw [h.cancel_true] at hc
    cases hc
  finished := by
    intro hf
    rw [h.state] at hf
    cases hf
  never_raises := h.raised
  released := fun _ => h.event

theorem Running.kept {w : WorkItem α ε} {n : Nat} {o : Option (Outcome α ε)} (h : Running w n o)
    (hn : n ≤ 1) : Kept w where
  once := by
    rw [h.calls]
    exact hn
  cancelled := by
    intro hc
    rw [h.cancel_true] at hc
    cases hc
  path := by
    intro _
    rw [h.path, h.state]
    exact ⟨⟨[.FINISHED], rfl⟩, rfl⟩
  finished := by
    intro hf
    rw [h.state] at hf
    cases hf
  never_raises := h.raised
  released := fun _ => h.event

theorem Finished.kept {w : WorkItem α ε} {o : Outcome α ε} (h : Finished w o) : Kept w where
  once := Nat.le_of_eq h.calls
  cancelled := by
    intro hc
    rw [h.cancel_true] at hc
    cases hc
  path := by
    intro _
    rw [h.path, h.state]
    exact ⟨⟨[], rfl⟩, rfl⟩
  finished := fun _ => ⟨o, h.outcome, h.keeps⟩
  never_raises := h.raised
  released := fun _ => h.event

theorem Holds.kept {w : WorkItem α ε} {st : Stage α ε} {ms : List (Msg α ε)}
    (h : Holds w st ms) : Kept w := by
  obtain ⟨_, h⟩ := h
  cases h with
  | queued h => exact h.kept
  | starting h => exact h.kept
  | asked h => exact h.kept
  | refused h => exact h.kept
  | accepted h => exact h.kept (Nat.zero_le 1)
  | calling h => exact h.kept (Nat.zero_le 1)
  | inside h => exact h.kept Nat.le.refl
  | posting h => exact h.kept Nat.le.refl
  | posted h => exact h.kept Nat.le.refl
  | given h => exact h.kept
  | ending h => exact h.kept Nat.le.refl
  | ending_given h => exact h.kept
  | ended h => exact h.kept
  | done h => exact h.kept Nat.le.refl
  | done_given h => exact h.kept
  | done_ended h => exact h.kept
  | done_refused h => exact h.kept

/-- Until the loop has notified or finished the future, the handler has its timer. -/
theorem Holds.timer {w : WorkItem α ε} {st : Stage α ε} {ms : List (Msg α ε)}
    (h : Holds w st ms) (hn : w.future._state ≠ .CANCELLED_AND_NOTIFIED)
    (hf : w.future._state ≠ .FINISHED) : w.timer = true := by
  obtain ⟨_, h⟩ := h
  cases h with
  | queued h => exact h.timer
  | starting h => exact h.timer
  | asked h => exact h.timer
  | refused h => exact absurd h.state hn
  | accepted h => exact h.timer
  | calling h => exact h.timer
  | inside h => exact h.timer
  | posting h => exact h.timer
  | posted h => exact h.timer
  | given h => exact absurd h.state hf
  | ending h => exact h.timer
  | ending_given h => exact absurd h.state hf
  | ended h => exact absurd h.state hf
  | done h => exact h.timer
  | done_given h => exact absurd h.state hf
  | done_ended h => exact absurd h.state hf
  | done_refused h => exact absurd h.state hn

theorem holds_new : Holds (new : WorkItem α ε) .queued [] where
  handler := fun _ => rfl
  sent := by
    apply Sent.queued
    constructor
    · exact Or.inl ⟨rfl, rfl, rfl⟩
    · exact ⟨rfl, rfl⟩
    all_goals rfl

/-- A thread takes the item from the queue. -/
theorem Holds.taken {w : WorkItem α ε} {ms : List (Msg α ε)} (h : Holds w .queued ms) :
    Holds w (.run .starting) ms := by
  obtain ⟨hh, hs⟩ := h
  cases hs with
  | queued h => exact ⟨fun _ => hh nofun, .starting h⟩

/-! ## The thread -/

/-- The stage that a step of `run` leads to. -/
def Next.stage : Next α ε → Stage α ε
  | .goes pc => .run pc
  | .returns => .done
  | .raises => .done

theorem post_of_handler {w : WorkItem α ε} (h : w.handler = true) (m : Msg α ε) (pc : Pc α ε) :
    w.post m pc = (w, [m], .goes pc) := by
  unfold post
  rw [if_pos h]

theorem holds_run {w w' : WorkItem α ε} {ms ms' : List (Msg α ε)} {o : Outcome α ε}
    {pc : Pc α ε} {next : Next α ε} (h : Holds w (.run pc) ms)
    (hrun : w.run o pc = some (w', ms', next)) : Holds w' (Next.stage next) (ms ++ ms') := by
  obtain ⟨hhandler, hs⟩ := h
  have hh : w.handler = true := hhandler nofun
  cases hs with
  | starting h =>
    simp only [run, post_of_handler hh] at hrun
    cases hrun
    exact ⟨fun _ => hh, .asked h⟩
  | asked h =>
    -- the thread is blocked
    simp [run, h.event] at hrun
  | refused h =>
    simp only [run, h.event, h.cancelled, if_true] at hrun
    cases hrun
    exact ⟨fun hne => absurd rfl hne, .done_refused h⟩
  | accepted h =>
    simp only [run, h.event, h.cancelled, if_true] at hrun
    cases hrun
    exact ⟨fun _ => hh, .calling h⟩
  | calling h =>
    simp only [run] at hrun
    cases hrun
    refine ⟨fun _ => hh, .inside { h with calls := ?_ }⟩
    show w.calls + 1 = 1
    rw [h.calls]
  | inside h =>
    simp only [run] at hrun
    cases hrun
    exact ⟨fun _ => hh, .posting { h with outcome := rfl }⟩
  | posting h =>
    simp only [run, post_of_handler hh] at hrun
    cases hrun
    exact ⟨fun _ => hh, .posted h⟩
  | posted h =>
    simp only [run, post_of_handler hh] at hrun
    cases hrun
    exact ⟨fun _ => hh, .ending h⟩
  | given h =>
    simp only [run, post_of_handler hh] at hrun
    cases hrun
    exact ⟨fun _ => hh, .ending_given h⟩
  | ending h =>
    simp only [run] at hrun
    cases hrun
    exact ⟨fun hne => absurd rfl hne, .done { h with }⟩
  | ending_given h =>
    simp only [run] at hrun
    cases hrun
    exact ⟨fun hne => absurd rfl hne, .done_given { h with }⟩
  | ended h =>
    simp only [run] at hrun
    cases hrun
    exact ⟨fun hne => absurd rfl hne, .done_ended { h with }⟩

theorem timer_of_run {w w' : WorkItem α ε} {ms : List (Msg α ε)} {o : Outcome α ε} {pc : Pc α ε}
    {next : Next α ε} (h : w.run o pc = some (w', ms, next)) : w'.timer = w.timer := by
  have hpost : ∀ {m : Msg α ε} {pc' : Pc α ε}, some (w.post m pc') = some (w', ms, next) →
      w'.timer = w.timer := by
    intro m pc' hp
    unfold post at hp
    split at hp
    · cases hp
      rfl
    · cases hp
      rfl
  cases pc with
  | starting => exact hpost h
  | waiting =>
    simp only [run] at h
    split at h
    · cases h
      rfl
    · cases h
  | calling =>
    cases h
    rfl
  | inside =>
    cases h
    rfl
  | posting o => exact hpost h
  | cancelling => exact hpost h
  | clearing =>
    cases h
    rfl

/-! ## The loop -/

theorem Early.exec_set_running {w : WorkItem α ε} (h : Early w) (hh : w.handler = true) :
    (Refused (w.exec ._set_running) ∨ Running (w.exec ._set_running) 0 none) ∧
      (w.exec ._set_running).handler = true := by
  rcases h.state with ⟨hs, hc, hp⟩ | ⟨hs, hc⟩
  · -- Case: the future is pending
    have hexec : w.exec ._set_running =
        { { w with executed := true }.put { w.future with _state := .RUNNING } with
          _event := true } := by
      simp [exec, Future.set_running_or_notify_cancel, hs]
    rw [hexec]
    refine ⟨Or.inr ?_, hh⟩
    exact
      { state := rfl
        path := by simp [put, hs, hp]
        cancel_true := hc
        empty := h.empty
        unused := h.unused
        timer := h.timer
        event := rfl
        calls := h.calls
        cancelled := h.cancelled
        outcome := h.outcome
        raised := h.raised }
  · -- Case: it was cancelled
    have hexec : w.exec ._set_running =
        { { w with executed := true }.put { w.future with _state := .CANCELLED_AND_NOTIFIED } with
          timer := false
          _cancelled := true
          _event := true } := by
      simp [exec, Future.set_running_or_notify_cancel, hs, put, hh]
    rw [hexec]
    refine ⟨Or.inl ?_, hh⟩
    exact
      { state := rfl
        cancel_true := hc
        event := rfl
        calls := h.calls
        cancelled := rfl
        raised := h.raised }

theorem Running.exec_message {w : WorkItem α ε} {o : Outcome α ε} (h : Running w 1 (some o)) :
    Finished (w.exec (message o)) o ∧ (w.exec (message o)).handler = w.handler := by
  cases o with
  | ok r =>
    refine ⟨?_, rfl⟩
    exact
      { state := rfl
        path := by simp [message, exec, put, Future.set_result, Future._run_callbacks, h.state, h.path]
        cancel_true := h.cancel_true
        keeps := by
          refine ⟨fun _ => Future.carries_set_result h.empty r, fun hu => ?_⟩
          rw [show (w.exec (message (.ok r))).future._used = w.future._used from rfl, h.unused] at hu
          cases hu
        event := h.event
        calls := h.calls
        outcome := h.outcome
        raised := h.raised }
  | error e =>
    refine ⟨?_, rfl⟩
    exact
      { state := rfl
        path := by
          simp [message, exec, put, Future.set_exception, Future._run_callbacks, h.state, h.path]
        cancel_true := h.cancel_true
        keeps := by
          refine ⟨fun _ => Future.carries_set_exception h.empty e, fun hu => ?_⟩
          rw [show (w.exec (message (.error e))).future._used = w.future._used from rfl,
            h.unused] at hu
          cases hu
        event := h.event
        calls := h.calls
        outcome := h.outcome
        raised := h.raised }

theorem Finished.exec_handler_cancel {w : WorkItem α ε} {o : Outcome α ε} (h : Finished w o) :
    Finished (w.exec .handler_cancel) o := { h with }

/-- No message gives a handler its timer back. -/
theorem timer_of_exec {w : WorkItem α ε} {m : Msg α ε} (h : (w.exec m).timer = true) :
    w.timer = true := by
  cases m with
  | _set_running =>
    unfold exec at h
    simp only at h
    split at h
    · exact h
    · exact h
    · split at h
      · cases h
      · exact h
  | set_result r => exact h
  | set_exception e => exact h
  | handler_cancel => cases h

theorem holds_exec {w : WorkItem α ε} {st : Stage α ε} {m : Msg α ε} {ms : List (Msg α ε)}
    (h : Holds w st (m :: ms)) : Holds (w.exec m) st ms := by
  obtain ⟨hh, hs⟩ := h
  cases hs with
  | asked h =>
    obtain ⟨hout, hh'⟩ := h.exec_set_running (hh nofun)
    rcases hout with hout | hout
    · exact ⟨fun _ => hh', .refused hout⟩
    · exact ⟨fun _ => hh', .accepted hout⟩
  | posted h =>
    obtain ⟨hout, hh'⟩ := h.exec_message
    exact ⟨fun hne => hh' ▸ hh hne, .given hout⟩
  | ending h =>
    obtain ⟨hout, hh'⟩ := h.exec_message
    exact ⟨fun hne => hh' ▸ hh hne, .ending_given hout⟩
  | ending_given h => exact ⟨hh, .ended h.exec_handler_cancel⟩
  | done h =>
    obtain ⟨hout, hh'⟩ := h.exec_message
    exact ⟨fun hne => absurd rfl hne, .done_given hout⟩
  | done_given h => exact ⟨fun hne => absurd rfl hne, .done_ended h.exec_handler_cancel⟩

/-! ## The clients -/

/-- What carries over the four parts carries over the protocol. -/
theorem Sent.imp {w w' : WorkItem α ε} (hearly : Early w → Early w')
    (hrefused : Refused w → Refused w') (hrunning : ∀ n o, Running w n o → Running w' n o)
    (hfinished : ∀ o, Finished w o → Finished w' o) {st : Stage α ε} {ms : List (Msg α ε)}
    (h : Sent w st ms) : Sent w' st ms := by
  cases h with
  | queued h => exact .queued (hearly h)
  | starting h => exact .starting (hearly h)
  | asked h => exact .asked (hearly h)
  | refused h => exact .refused (hrefused h)
  | accepted h => exact .accepted (hrunning _ _ h)
  | calling h => exact .calling (hrunning _ _ h)
  | inside h => exact .inside (hrunning _ _ h)
  | posting h => exact .posting (hrunning _ _ h)
  | posted h => exact .posted (hrunning _ _ h)
  | given h => exact .given (hfinished _ h)
  | ending h => exact .ending (hrunning _ _ h)
  | ending_given h => exact .ending_given (hfinished _ h)
  | ended h => exact .ended (hfinished _ h)
  | done h => exact .done (hrunning _ _ h)
  | done_given h => exact .done_given (hfinished _ h)
  | done_ended h => exact .done_ended (hfinished _ h)
  | done_refused h => exact .done_refused (hrefused h)

section Alike

variable {w : WorkItem α ε} {f : Future α ε} {n : Nat} {o : Option (Outcome α ε)}

theorem put_path (h : f._state = w.future._state) : (w.put f).path = w.path := by
  unfold put
  rw [if_pos h]

theorem Early.put_alike (h : Early w) (ha : w.future.Alike f) : Early (w.put f) :=
  { h with
    state := by
      rcases h.state with ⟨hs, hc, hp⟩ | ⟨hs, hc⟩
      · exact Or.inl ⟨ha.state.trans hs, hc, (put_path ha.state).trans hp⟩
      · exact Or.inr ⟨ha.state.trans hs, hc⟩
    empty := ha.empty h.empty
    unused := ha.used.trans h.unused }

theorem Refused.put_alike (h : Refused w) (ha : w.future.Alike f) : Refused (w.put f) :=
  { h with state := ha.state.trans h.state }

theorem Running.put_alike (h : Running w n o) (ha : w.future.Alike f) : Running (w.put f) n o :=
  { h with
    state := ha.state.trans h.state
    path := (put_path ha.state).trans h.path
    empty := ha.empty h.empty
    unused := ha.used.trans h.unused }

theorem Finished.put_alike {o : Outcome α ε} (h : Finished w o) (ha : w.future.Alike f) :
    Finished (w.put f) o :=
  { h with
    state := ha.state.trans h.state
    path := (put_path ha.state).trans h.path
    keeps := ha.keeps h.keeps }

theorem Sent.put_alike {st : Stage α ε} {ms : List (Msg α ε)} (h : Sent w st ms)
    (ha : w.future.Alike f) : Sent (w.put f) st ms :=
  h.imp (fun h => h.put_alike ha) (fun h => h.put_alike ha) (fun _ _ h => h.put_alike ha)
    fun _ h => h.put_alike ha

end Alike

section Clients

variable [Truth ε] {w : WorkItem α ε}

theorem Early.client_cancel (h : Early w) : Early (w.client .cancel) := by
  rcases h.state with ⟨hs, hc, _⟩ | ⟨hs, hc⟩
  · -- Case: the future is pending, and `cancel` cancels it
    have hcancel : w.future.cancel =
        (Future._run_callbacks { w.future with _state := .CANCELLED }, true) := by
      simp [Future.cancel, hs]
    exact
      { h with
        state := by
          apply Or.inr
          constructor
          · show (w.future.cancel.1)._state = .CANCELLED
            rw [hcancel]
            rfl
          · show (w.cancel_true || w.future.cancel.2) = true
            rw [hcancel, Bool.or_true]
        empty := by
          show (w.future.cancel.1).Empty
          rw [hcancel]
          exact h.empty
        unused := by
          show (w.future.cancel.1)._used = false
          rw [hcancel]
          exact h.unused }
  · -- Case: it was cancelled before
    have hcancel : w.future.cancel = (w.future, true) := by
      simp [Future.cancel, hs]
    have hput := h.put_alike (Future.Alike.refl w.future)
    unfold client
    rw [hcancel]
    exact
      { hput with
        state := Or.inr ⟨hs, Bool.or_true _⟩ }

/-- Once it has left the states it can be cancelled in, a future stays as it is. -/
theorem client_cancel_eq (hs : w.future._state ≠ .PENDING)
    (hc : w.future.cancel.2 = w.cancel_true) : w.client .cancel = w.put w.future := by
  have hcancel : w.future.cancel.1 = w.future := by
    unfold Future.cancel
    cases hst : w.future._state with
    | PENDING => exact absurd hst hs
    | RUNNING => rfl
    | CANCELLED => rfl
    | CANCELLED_AND_NOTIFIED => rfl
    | FINISHED => rfl
  unfold client
  rw [hcancel, hc, Bool.or_self]
  rfl

theorem Sent.client_cancel {st : Stage α ε} {ms : List (Msg α ε)} (h : Sent w st ms) :
    Sent (w.client .cancel) st ms := by
  apply h.imp
  · exact fun h => h.client_cancel
  · intro h
    rw [client_cancel_eq (by rw [h.state]; nofun) (by simp [Future.cancel, h.state, h.cancel_true])]
    exact h.put_alike (Future.Alike.refl _)
  · intro n o h
    rw [client_cancel_eq (by rw [h.state]; nofun) (by simp [Future.cancel, h.state, h.cancel_true])]
    exact h.put_alike (Future.Alike.refl _)
  · intro o h
    rw [client_cancel_eq (by rw [h.state]; nofun) (by simp [Future.cancel, h.state, h.cancel_true])]
    exact h.put_alike (Future.Alike.refl _)

theorem Finished.put_get_result {o : Outcome α ε} (h : Finished w o) :
    Finished (w.put w.future._get_result.1) o :=
  { h with
    state := (Future.get_result_state _).trans h.state
    path := (put_path (Future.get_result_state _)).trans h.path
    keeps := Future.get_result_keeps h.keeps }

theorem Sent.client_result {st : Stage α ε} {ms : List (Msg α ε)} (h : Sent w st ms) :
    Sent (w.client .result) st ms := by
  by_cases hf : w.future._state = .FINISHED
  · unfold client
    rw [Future.result_test_finished hf]
    apply h.imp
    · intro h
      rcases h.state with ⟨hs, _⟩ | ⟨hs, _⟩
      all_goals
        rw [hs] at hf
        cases hf
    · intro h
      rw [h.state] at hf
      cases hf
    · intro n o h
      rw [h.state] at hf
      cases hf
    · exact fun o h => h.put_get_result
  · unfold client
    rw [Future.result_test_unfinished hf]
    exact h.put_alike (Future.Alike.refl _)

theorem holds_client {st : Stage α ε} {ms : List (Msg α ε)} (h : Holds w st ms) (c : Call) :
    Holds (w.client c) st ms := by
  obtain ⟨hh, hs⟩ := h
  cases c with
  | cancel => exact ⟨hh, hs.client_cancel⟩
  | result => exact ⟨hh, hs.client_result⟩
  | add_done_callback func =>
    exact ⟨hh, hs.put_alike (Future.add_done_callback_alike w.future func)⟩
  | install waiter => exact ⟨hh, hs.put_alike ⟨rfl, rfl, rfl, rfl⟩⟩
  | remove waiter => exact ⟨hh, hs.put_alike ⟨rfl, rfl, rfl, rfl⟩⟩

end Clients

end WorkItem

end Jega.Futures
