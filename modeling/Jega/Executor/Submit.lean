import Jega.Executor.Items

/-!
# Jega.Executor.Submit — a `submit` that raises

`internal_submit` when memory runs out. The work item goes to the queue before
the worker is created, and no exit takes it out again: the item is freed and the
queue keeps its address. When the handle cannot be put into the dictionary of
the worker, the worker is in the queue of the loop as well.

An unsuccessful `PyCFunction_NewEx` is not an exit, because `get_worker_func`
dereferences its result.

## Main result

* `submit_atomic_iff`: `submit` undoes what it did exactly when the queue of the
  executor cannot grow, or does not raise.
-/

namespace Jega.Executor

open Trace

/-- The calls that may fail once the work item is built, in this order. -/
inductive Fallible where
  | queue_push
  | greenlet_new
  | get_thread_local
  | PyTuple_New
  | PyWeakref_NewRef
  | make_handle
  | schedule_timer
  | PyDict_SetItemString
deriving DecidableEq, Repr

/-- An executor with what the exits of `internal_submit` depend on. -/
structure Heap where
  st : St
  /-- The block of the executor's queue. -/
  max : Nat
  /-- The block of the loop's queue. -/
  loop_max : Nat
  activecnt : UInt32
  /-- The work items that were freed. -/
  freed : Fid → Bool

namespace Heap

/-- `queue_push`, which returns the new block; a full one has to grow. -/
def queue_push (alloc : Bool) (size max : Nat) : Option Nat :=
  if size ≥ max then
    if alloc then some (max * 2) else none
  else some max

section Submit

variable (fails : Fallible → Bool)

/-- `loop_schedule_call` of a greenlet. -/
def loop_schedule_call (s : Heap) (greenlet : Gid) : Heap × Option Hid :=
  if fails .make_handle then (s, none)
  else
    match queue_push (!fails .schedule_timer) s.st.loop.pendings.length s.loop_max with
    | none =>
      -- the handle is freed
      ({ s with st := { s.st with loop := (s.st.loop.make_handle 0 none (some greenlet)).1 } }, none)
    | some loop_max =>
      let scheduled := s.st.loop.loop_schedule_call 0 none (some greenlet)
      ({ s with
          st := { s.st with loop := scheduled.1 }
          loop_max := loop_max
          activecnt := s.activecnt + 1 },
        some scheduled.2)

/-- The end of `adjust_thread_count`: the worker is queued. -/
def set_handle (s : Heap) (greenlet : Gid) (handle : Hid) : Heap × Int :=
  let st :=
    { s.st with
      loc := Function.update s.st.loc greenlet .unstarted
      workers := s.st.workers ++ [greenlet] }
  if fails .PyDict_SetItemString then ({ s with st := st }, -1)
  else
    let executor := { st.executor with run_workers := st.executor.run_workers + 1 }
    ({ s with
        st :=
          { st with
            handle := Function.update st.handle greenlet (some handle)
            executor := executor } },
      1)

/-- `adjust_thread_count`; `greenlet_new` returns `greenlet`. -/
def adjust_thread_count (s : Heap) (greenlet : Gid) : Heap × Int :=
  if s.st.executor.max_workers = 0 ∨ s.st.executor.run_workers < s.st.executor.max_workers then
    if fails .greenlet_new then (s, -1)
    else if fails .get_thread_local then (s, -1)
    else if fails .PyTuple_New then (s, -1)
    else if fails .PyWeakref_NewRef then (s, -1)
    else
      match s.loop_schedule_call fails greenlet with
      | (s, none) => (s, -1)
      | (s, some handle) => s.set_handle fails greenlet handle
  else (s, 1)

/-- The `err` of `internal_submit`: the work item has one reference. -/
def err (s : Heap) (workeritem : Fid) : Heap :=
  { s with freed := Function.update s.freed workeritem true }

/-- `internal_submit`, and whether it raises. -/
def internal_submit (s : Heap) (greenlet : Gid) : Heap × Bool :=
  let future := s.st.next
  let s := { s with st := s.st.make_future }
  match queue_push (!fails .queue_push) s.st.executor.pendings.length s.max with
  | none => (s.err future, true)
  | some max =>
    let executor := { s.st.executor with pendings := s.st.executor.pendings ++ [future] }
    let r :=
      adjust_thread_count fails { s with max := max, st := { s.st with executor := executor } }
        greenlet
    if r.2 = -1 then (r.1.err future, true) else (r.1, false)

end Submit

end Heap

/-! ## The statement -/

/-- What others can see of an executor and its loop is as before. -/
structure Unchanged (s s' : Heap) : Prop where
  pendings : s'.st.executor.pendings = s.st.executor.pendings
  run_workers : s'.st.executor.run_workers = s.st.executor.run_workers
  loop_pendings : s'.st.loop.pendings = s.st.loop.pendings
  scheduled : s'.st.loop.scheduled = s.st.loop.scheduled
  activecnt : s'.activecnt = s.activecnt

/-- No worker is ever in the function of the item. -/
def NeverCalled (s : St) (f : Fid) : Prop :=
  ∀ as t, run step s as = some t → ∀ w, t.job w ≠ some f

/-- A `submit` that raises has not happened. -/
def Atomic (s : Heap) (r : Heap × Bool) : Prop :=
  r.2 = true → Unchanged s r.1 ∧ NeverCalled r.1.st s.st.next

/-- A worker is to be created. -/
def Hires (s : Heap) : Prop :=
  s.st.executor.max_workers = 0 ∨ s.st.executor.run_workers < s.st.executor.max_workers

/-- The call is made with too little memory: a queue needs some when it is full. -/
def Short (fails : Fallible → Bool) (s : Heap) (c : Fallible) : Prop :=
  fails c = true ∧
    match c with
    | .queue_push => s.max ≤ s.st.executor.pendings.length
    | .schedule_timer => s.loop_max ≤ s.st.loop.pendings.length
    | _ => True

/-! ## Exits -/

section Exits

variable {fails : Fallible → Bool} {s : Heap}

theorem queue_push_eq_none {alloc : Bool} {size max : Nat} :
    Heap.queue_push alloc size max = none ↔ alloc = false ∧ max ≤ size := by
  unfold Heap.queue_push
  split
  next h => cases alloc <;> simp [h]
  next h => simp [h]

theorem loop_schedule_call_none (greenlet : Gid) :
    (s.loop_schedule_call fails greenlet).2 = none ↔
      Short fails s .make_handle ∨ Short fails s .schedule_timer := by
  unfold Heap.loop_schedule_call
  split
  next h => simp [Short, h]
  next h =>
    have hpush : Heap.queue_push (!fails .schedule_timer) s.st.loop.pendings.length s.loop_max =
        none ↔ Short fails s .schedule_timer := by
      rw [queue_push_eq_none, Bool.not_eq_false']
      rfl
    have hmake : ¬ Short fails s .make_handle := fun hs => h hs.1
    rw [or_iff_right hmake, ← hpush]
    split
    next hnone => simp [hnone]
    next hsome => simp [hsome]

theorem loop_schedule_call_executor (fails : Fallible → Bool) (s : Heap) (greenlet : Gid) :
    (s.loop_schedule_call fails greenlet).1.st.executor = s.st.executor := by
  unfold Heap.loop_schedule_call
  split
  · rfl
  · split <;> rfl

/-- `adjust_thread_count` fails where one of its calls does. -/
theorem adjust_thread_count_err (greenlet : Gid) :
    (s.adjust_thread_count fails greenlet).2 = -1 ↔
      Hires s ∧ ∃ c, c ≠ .queue_push ∧ Short fails s c := by
  unfold Heap.adjust_thread_count
  split
  next hhires =>
    have hcalls : (∃ c, c ≠ .queue_push ∧ Short fails s c) ↔
        fails .greenlet_new = true ∨ fails .get_thread_local = true ∨ fails .PyTuple_New = true ∨
          fails .PyWeakref_NewRef = true ∨
          (Short fails s .make_handle ∨ Short fails s .schedule_timer) ∨
          fails .PyDict_SetItemString = true := by
      constructor
      · rintro ⟨c, hc, hs⟩
        have hfails := hs.1
        cases c with
        | queue_push => exact absurd rfl hc
        | make_handle | schedule_timer => simp [hs]
        | _ => simp [hfails]
      · rintro (h | h | h | h | (h | h) | h)
        · exact ⟨.greenlet_new, nofun, h, trivial⟩
        · exact ⟨.get_thread_local, nofun, h, trivial⟩
        · exact ⟨.PyTuple_New, nofun, h, trivial⟩
        · exact ⟨.PyWeakref_NewRef, nofun, h, trivial⟩
        · exact ⟨.make_handle, nofun, h⟩
        · exact ⟨.schedule_timer, nofun, h⟩
        · exact ⟨.PyDict_SetItemString, nofun, h, trivial⟩
    rw [hcalls, ← loop_schedule_call_none (s := s) greenlet]
    have hires : Hires s := hhires
    rw [and_iff_right hires]
    cases hnew : fails .greenlet_new with
    | true => simp
    | false =>
      cases hlocal : fails .get_thread_local with
      | true => simp
      | false =>
        cases htuple : fails .PyTuple_New with
        | true => simp
        | false =>
          cases href : fails .PyWeakref_NewRef with
          | true => simp
          | false =>
            rcases hcall : s.loop_schedule_call fails greenlet with ⟨s', _ | handle⟩
            · simp
            · cases hdict : fails .PyDict_SetItemString <;> simp [Heap.set_handle, hdict]
  next hhires =>
    refine iff_of_false ?_ fun h => hhires h.1
    show ¬ (1 : Int) = -1
    decide

theorem set_handle_pendings (s : Heap) (greenlet : Gid) (handle : Hid) :
    (s.set_handle fails greenlet handle).1.st.executor.pendings = s.st.executor.pendings := by
  unfold Heap.set_handle
  dsimp only
  split <;> rfl

/-- No exit takes the item out of the queue. -/
theorem adjust_thread_count_pendings (greenlet : Gid) :
    (s.adjust_thread_count fails greenlet).1.st.executor.pendings = s.st.executor.pendings := by
  unfold Heap.adjust_thread_count
  split
  · split
    · rfl
    · split
      · rfl
      · split
        · rfl
        · split
          · rfl
          · have hexec := loop_schedule_call_executor fails s greenlet
            rcases hcall : s.loop_schedule_call fails greenlet with ⟨s', _ | handle⟩
            · rw [hcall] at hexec
              exact congrArg ExecutorObject.pendings hexec
            · rw [hcall] at hexec
              exact (set_handle_pendings s' greenlet handle).trans
                (congrArg ExecutorObject.pendings hexec)
  · rfl

end Exits

/-- The state with the item in the queue. -/
def queued (s : Heap) (max : Nat) : Heap :=
  { s with
    max := max
    st := { s.st.make_future with
      executor := { s.st.executor with pendings := s.st.executor.pendings ++ [s.st.next] } } }

theorem heap_submit_some {fails : Fallible → Bool} {s : Heap} {max : Nat} (greenlet : Gid)
    (hq : Heap.queue_push (!fails .queue_push) s.st.executor.pendings.length s.max = some max) :
    s.internal_submit fails greenlet =
      if ((queued s max).adjust_thread_count fails greenlet).2 = -1 then
        (((queued s max).adjust_thread_count fails greenlet).1.err s.st.next, true)
      else (((queued s max).adjust_thread_count fails greenlet).1, false) := by
  unfold Heap.internal_submit
  simp only [St.make_future, hq]
  rfl

theorem heap_submit_none {fails : Fallible → Bool} {s : Heap} (greenlet : Gid)
    (hq : Heap.queue_push (!fails .queue_push) s.st.executor.pendings.length s.max = none) :
    s.internal_submit fails greenlet = ({ s with st := s.st.make_future }.err s.st.next, true) := by
  unfold Heap.internal_submit
  simp only [St.make_future, hq]

/-- The ways through `internal_submit`. -/
theorem heap_submit_cases (fails : Fallible → Bool) (s : Heap) (greenlet : Gid) :
    (Short fails s .queue_push ∧
      s.internal_submit fails greenlet = ({ s with st := s.st.make_future }.err s.st.next, true)) ∨
    (¬ Short fails s .queue_push ∧ (Hires s ∧ ∃ c, c ≠ .queue_push ∧ Short fails s c) ∧
      (s.internal_submit fails greenlet).2 = true ∧
      (s.internal_submit fails greenlet).1.st.executor.pendings =
        s.st.executor.pendings ++ [s.st.next] ∧
      (s.internal_submit fails greenlet).1.freed s.st.next = true) ∨
    (¬ Short fails s .queue_push ∧ ¬ (Hires s ∧ ∃ c, c ≠ .queue_push ∧ Short fails s c) ∧
      (s.internal_submit fails greenlet).2 = false) := by
  have hpush : Heap.queue_push (!fails .queue_push) s.st.executor.pendings.length s.max = none ↔
      Short fails s .queue_push := by
    rw [queue_push_eq_none, Bool.not_eq_false']
    rfl
  rw [← hpush]
  cases hq : Heap.queue_push (!fails .queue_push) s.st.executor.pendings.length s.max with
  | none => exact Or.inl ⟨rfl, heap_submit_none greenlet hq⟩
  | some max =>
    right
    let r := (queued s max).adjust_thread_count fails greenlet
    have heq : s.internal_submit fails greenlet =
        if r.2 = -1 then (r.1.err s.st.next, true) else (r.1, false) := heap_submit_some greenlet hq
    have herr : r.2 = -1 ↔ Hires s ∧ ∃ c, c ≠ .queue_push ∧ Short fails s c := by
      rw [adjust_thread_count_err]
      refine and_congr_right fun _ => exists_congr fun c => and_congr_right fun hc => ?_
      cases c with
      | queue_push => exact absurd rfl hc
      | _ => exact Iff.rfl
    rw [← herr, heq]
    by_cases hret : r.2 = -1
    · left
      rw [if_pos hret]
      exact ⟨nofun, hret, rfl, adjust_thread_count_pendings greenlet, Function.update_self _ _ _⟩
    · right
      rw [if_neg hret]
      exact ⟨nofun, hret, rfl⟩

theorem loop_schedule_call_some {fails : Fallible → Bool} {s s' : Heap} {greenlet : Gid} {handle : Hid}
    (h : s.loop_schedule_call fails greenlet = (s', some handle)) :
    s'.st = { s.st with loop := (s.st.loop.loop_schedule_call 0 none (some greenlet)).1 } ∧
      handle = (s.st.loop.loop_schedule_call 0 none (some greenlet)).2 := by
  unfold Heap.loop_schedule_call at h
  split at h
  · cases h
  · split at h
    · cases h
    · cases h
      exact ⟨rfl, rfl⟩

theorem adjust_thread_count_returned {fails : Fallible → Bool} {s : Heap} {greenlet : Gid}
    (h : (s.adjust_thread_count fails greenlet).2 ≠ -1) :
    (s.adjust_thread_count fails greenlet).1.st = s.st.adjust_thread_count greenlet := by
  have hcalls := (not_congr (adjust_thread_count_err greenlet)).1 h
  unfold Heap.adjust_thread_count at h ⊢
  unfold St.adjust_thread_count
  split
  next hhires =>
    have hok : ∀ c, c ≠ .queue_push → ¬ Short fails s c :=
      fun c hc hs => hcalls ⟨hhires, c, hc, hs⟩
    have hnew : fails .greenlet_new = false :=
      Bool.not_eq_true _ ▸ fun hf => hok .greenlet_new nofun ⟨hf, trivial⟩
    have hlocal : fails .get_thread_local = false :=
      Bool.not_eq_true _ ▸ fun hf => hok .get_thread_local nofun ⟨hf, trivial⟩
    have htuple : fails .PyTuple_New = false :=
      Bool.not_eq_true _ ▸ fun hf => hok .PyTuple_New nofun ⟨hf, trivial⟩
    have href : fails .PyWeakref_NewRef = false :=
      Bool.not_eq_true _ ▸ fun hf => hok .PyWeakref_NewRef nofun ⟨hf, trivial⟩
    have hdict : fails .PyDict_SetItemString = false :=
      Bool.not_eq_true _ ▸ fun hf => hok .PyDict_SetItemString nofun ⟨hf, trivial⟩
    simp only [hnew, hlocal, htuple, href, Bool.false_eq_true, if_false]
    rcases hcall : s.loop_schedule_call fails greenlet with ⟨s', _ | handle⟩
    · rcases (loop_schedule_call_none (s := s) greenlet).1 (congrArg Prod.snd hcall) with hs | hs
      · exact absurd hs (hok .make_handle nofun)
      · exact absurd hs (hok .schedule_timer nofun)
    · obtain ⟨hst, hhandle⟩ := loop_schedule_call_some hcall
      simp only [Heap.set_handle, hdict, Bool.false_eq_true, if_false, hst, hhandle]
  · rfl

/-- A `submit` that does not raise is the one of an executor that has memory. -/
theorem heap_submit_returned {fails : Fallible → Bool} {s : Heap} {greenlet : Gid}
    (h : (s.internal_submit fails greenlet).2 = false) :
    (s.internal_submit fails greenlet).1.st = s.st.internal_submit greenlet := by
  cases hq : Heap.queue_push (!fails .queue_push) s.st.executor.pendings.length s.max with
  | none =>
    rw [heap_submit_none greenlet hq] at h
    cases h
  | some max =>
    rw [heap_submit_some greenlet hq] at h ⊢
    split at h
    · cases h
    next hret =>
      rw [if_neg hret]
      exact adjust_thread_count_returned hret

/-! ## Items that are never called -/

/-- The item is in no queue, and its number is taken. -/
structure Gone (s : St) (f : Fid) : Prop where
  lt : f < s.next
  queue : f ∉ s.executor.pendings
  job : ∀ w, s.job w ≠ some f

theorem gone_step {s s' : St} {a : Act} {f : Fid} (h : step s a = some s') (hg : Gone s f) :
    Gone s' f := by
  cases step_items h with
  | submit hitems =>
    simp only [items, Prod.mk.injEq] at hitems
    obtain ⟨hqueue, hjob, hnext⟩ := hitems
    refine ⟨hnext ▸ Nat.lt_succ_of_lt hg.lt, ?_, hjob ▸ hg.job⟩
    rw [hqueue, List.mem_append, List.mem_singleton]
    exact not_or.2 ⟨hg.queue, Nat.ne_of_lt hg.lt⟩
  | finish _ hitems =>
    simp only [items, Prod.mk.injEq] at hitems
    obtain ⟨hqueue, hjob, hnext⟩ := hitems
    refine ⟨hnext ▸ hg.lt, hqueue ▸ hg.queue, fun w => ?_⟩
    rw [hjob]
    by_cases hw : w = s.current
    · rw [hw, Function.update_self]
      intro heq
      cases heq
    · rw [Function.update_of_ne hw]
      exact hg.job w
  | @call f' _ _ hpendings _ _ hitems =>
    simp only [items, Prod.mk.injEq] at hitems
    obtain ⟨hqueue, hjob, hnext⟩ := hitems
    have hqueue₀ := hg.queue
    rw [hpendings, List.mem_cons, not_or] at hqueue₀
    refine ⟨hnext ▸ hg.lt, hqueue ▸ hqueue₀.2, fun w => ?_⟩
    rw [hjob]
    by_cases hw : w = s.current
    · rw [hw, Function.update_self]
      intro heq
      exact hqueue₀.1 (Option.some.inj heq).symm
    · rw [Function.update_of_ne hw]
      exact hg.job w
  | drop _ hsuffix hjob hnext =>
    exact ⟨hnext ▸ hg.lt, fun hmem => hg.queue (hsuffix.subset hmem), hjob ▸ hg.job⟩
  | other _ _ _ hqueue hjob hnext =>
    exact ⟨Nat.lt_of_lt_of_le hg.lt hnext, hqueue ▸ hg.queue, hjob ▸ hg.job⟩

theorem never_called_of_gone {s : St} {f : Fid} (hg : Gone s f) : NeverCalled s f := by
  intro as t hrun
  have hstep : ∀ s a s', step s a = some s' → Gone s f → Gone s' f := fun _ _ _ => gone_step
  exact (run_invariant hstep hg hrun).job

/-- An item that was built and nothing else. -/
theorem gone_make_future {s : St} (hi : Inv s) : Gone s.make_future s.next where
  lt := Nat.lt_succ_self _
  queue hmem := Nat.lt_irrefl _ (hi.pendings_lt _ hmem)
  job w hjob := Nat.lt_irrefl _ (hi.job_lt w _ hjob)

/-! ## Main result -/

/-- In every reachable state of an executor, a `submit` leaves nothing behind
when it raises exactly when the item does not get into the queue, or when no
worker is needed or none of the calls for the worker fails. -/
theorem submit_atomic_iff (max_workers : Nat) (as : List Act) (s : Heap)
    (hrun : run step (init max_workers) as = some s.st) (fails : Fallible → Bool) (greenlet : Gid) :
    Atomic s (s.internal_submit fails greenlet) ↔
      Short fails s .queue_push ∨ ¬ Hires s ∨ ∀ c, c ≠ .queue_push → ¬ Short fails s c := by
  have hi : Inv s.st := run_invariant (fun _ _ _ => inv_step) (inv_init max_workers) hrun
  have hnone : ¬ (Hires s ∧ ∃ c, c ≠ .queue_push ∧ Short fails s c) ↔
      ¬ Hires s ∨ ∀ c, c ≠ .queue_push → ¬ Short fails s c := by
    rw [not_and_or]
    simp only [not_exists, not_and]
  rw [← hnone]
  rcases heap_submit_cases fails s greenlet with
    ⟨hpush, heq⟩ | ⟨hpush, hcall, hraised, hqueue, _⟩ | ⟨hpush, hcall, hret⟩
  · -- Case: the item is not in the queue
    rw [heq]
    exact iff_of_true (fun _ => ⟨⟨rfl, rfl, rfl, rfl, rfl⟩, never_called_of_gone (gone_make_future hi)⟩)
      (Or.inl hpush)
  · -- Case: it is, and stays there
    refine iff_of_false (fun hatomic => ?_) (not_or.2 ⟨hpush, not_not.2 hcall⟩)
    have hsame := (hatomic hraised).1.pendings
    rw [hqueue, List.append_right_eq_self] at hsame
    exact List.cons_ne_nil _ _ hsame
  · -- Case: nothing is raised
    refine iff_of_true (fun hraised => ?_) (Or.inr hcall)
    rw [hret] at hraised
    exact absurd hraised Bool.false_ne_true

/-- Memory runs out in the queue of a loop on which one handle waits. -/
theorem submit_atomic_iff_full : ∃ st, run step (init 1) [.call_later 0 7] = some st ∧
    (Atomic ⟨st, 32, 1, 1, fun _ => false⟩
        (Heap.internal_submit (fun c => c = .schedule_timer) ⟨st, 32, 1, 1, fun _ => false⟩ 5) ↔
      Short (fun c => c = .schedule_timer) ⟨st, 32, 1, 1, fun _ => false⟩ .queue_push ∨
        ¬ Hires ⟨st, 32, 1, 1, fun _ => false⟩ ∨
        ∀ c, c ≠ .queue_push →
          ¬ Short (fun c => c = .schedule_timer) ⟨st, 32, 1, 1, fun _ => false⟩ c) :=
  ⟨_, rfl, submit_atomic_iff 1 [.call_later 0 7] ⟨_, 32, 1, 1, fun _ => false⟩ rfl
    (fun c => c = .schedule_timer) 5⟩

/-- The first `submit` of an executor gets no weak reference: it raises, and its
work item is freed and in the queue. -/
theorem item_left_behind :
    (Heap.internal_submit (fun c => c = .PyWeakref_NewRef) ⟨init 1, 32, 32, 0, fun _ => false⟩
        5).2 = true ∧
      (Heap.internal_submit (fun c => c = .PyWeakref_NewRef) ⟨init 1, 32, 32, 0, fun _ => false⟩
        5).1.st.executor.pendings = [0] ∧
      (Heap.internal_submit (fun c => c = .PyWeakref_NewRef) ⟨init 1, 32, 32, 0, fun _ => false⟩
        5).1.freed 0 = true ∧
      ¬ Atomic ⟨init 1, 32, 32, 0, fun _ => false⟩
        (Heap.internal_submit (fun c => c = .PyWeakref_NewRef) ⟨init 1, 32, 32, 0, fun _ => false⟩
          5) := by
  refine ⟨rfl, rfl, rfl, fun hatomic => ?_⟩
  exact absurd (hatomic rfl).1.pendings (by decide)

end Jega.Executor
