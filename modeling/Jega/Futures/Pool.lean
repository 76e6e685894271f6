import Jega.Futures.WorkItem
import Mathlib.Logic.Function.Basic

/-!
# Jega.Futures.Pool — a `ThreadPoolExecutor` and its items

The queue of the executor, its threads and the items. What the items have posted
to the loop is a list of its callbacks, and the loop is left open.

Each item is in one place at a time, and there `Holds` says what its messages are
(`Placed`); every operation keeps that.
-/

namespace Jega.Futures

variable {α ε : Type}

/-- A thread of the pool. -/
abbrev Tid := Nat

/-- Where `_worker` is. -/
inductive Worker (α ε : Type) where
  /-- In `work_queue.get`. -/
  | idle
  /-- After `queue.Empty`. -/
  | empty
  | busy (i : Fid) (pc : Pc α ε)
  | exited
deriving DecidableEq, Repr

structure Pool (α ε : Type) where
  items : Fid → WorkItem α ε
  next : Fid
  work_queue : List Fid
  workers : Tid → Worker α ε
  /-- `len(self._threads)` -/
  threads : Nat
  max_workers : Nat
  _shutdown : Bool
  /-- The interpreter exits, or the executor was collected. -/
  quitting : Bool

def Next.worker (i : Fid) : Next α ε → Worker α ε
  | .goes pc => .busy i pc
  | .returns => .idle
  -- `except BaseException` is outside the loop of `_worker`
  | .raises => .exited

namespace Pool

/-- `__init__` -/
def new (max_workers : Nat) : Pool α ε where
  items := fun _ => .new
  next := 0
  work_queue := []
  workers := fun _ => .exited
  threads := 0
  max_workers := max_workers
  _shutdown := false
  quitting := false

def _adjust_thread_count (p : Pool α ε) : Pool α ε :=
  if p.threads < p.max_workers then
    { p with workers := Function.update p.workers p.threads .idle, threads := p.threads + 1 }
  else p

/-- `submit`, unless it raises an exception because of a shutdown. -/
def submit (p : Pool α ε) : Pool α ε :=
  _adjust_thread_count
    { p with
      items := Function.update p.items p.next .new
      next := p.next + 1
      work_queue := p.work_queue ++ [p.next] }

/-- A thread takes an item. -/
def get (p : Pool α ε) (t : Tid) : Option (Pool α ε) :=
  match p.workers t, p.work_queue with
  | .idle, i :: rest =>
    some
      { p with
        work_queue := rest
        workers := Function.update p.workers t (.busy i .starting) }
  | _, _ => none

/-- The queue is empty until the timeout of `get`. -/
def empty (p : Pool α ε) (t : Tid) : Option (Pool α ε) :=
  match p.workers t, p.work_queue with
  | .idle, [] => some { p with workers := Function.update p.workers t .empty }
  | _, _ => none

/-- The thread looks at the flags. Since `queue.Empty` there may be an item again. -/
def exit (p : Pool α ε) (t : Tid) : Option (Pool α ε) :=
  match p.workers t with
  | .empty =>
    some
      { p with
        workers :=
          Function.update p.workers t (if p._shutdown || p.quitting then .exited else .idle) }
  | _ => none

/-- A step of `run`, with the item and what it posts. -/
def run (p : Pool α ε) (t : Tid) (o : Outcome α ε) :
    Option (Pool α ε × Fid × List (Msg α ε)) :=
  match p.workers t with
  | .busy i pc =>
    ((p.items i).run o pc).map fun r =>
      ({ p with
          items := Function.update p.items i r.1
          workers := Function.update p.workers t (r.2.2.worker i) }, i, r.2.1)
  | _ => none

/-- The loop executes a message. -/
def exec (p : Pool α ε) (i : Fid) (m : Msg α ε) : Pool α ε :=
  { p with items := Function.update p.items i ((p.items i).exec m) }

def client [Truth ε] (p : Pool α ε) (i : Fid) (c : Call) : Option (Pool α ε) :=
  if i < p.next then some { p with items := Function.update p.items i ((p.items i).client c) }
  else none

theorem get_items {p p' : Pool α ε} {t : Tid} (h : p.get t = some p') :
    p'.next = p.next ∧ p'.items = p.items := by
  unfold get at h
  split at h
  · cases h
    exact ⟨rfl, rfl⟩
  · cases h

theorem empty_items {p p' : Pool α ε} {t : Tid} (h : p.empty t = some p') :
    p'.next = p.next ∧ p'.items = p.items := by
  unfold empty at h
  split at h
  · cases h
    exact ⟨rfl, rfl⟩
  · cases h

theorem exit_items {p p' : Pool α ε} {t : Tid} (h : p.exit t = some p') :
    p'.next = p.next ∧ p'.items = p.items := by
  unfold exit at h
  split at h
  · cases h
    exact ⟨rfl, rfl⟩
  · cases h

end Pool

/-! ## The callbacks of the loop -/

/-- A callback of the loop: of an item, or of other code. -/
inductive Entry (α ε : Type) where
  | item (i : Fid) (m : Msg α ε)
  | other (n : Nat)
deriving DecidableEq, Repr

/-- The messages of an item among the callbacks of the loop. -/
def messages (i : Fid) (es : List (Entry α ε)) : List (Msg α ε) :=
  es.filterMap fun
    | .item j m => if j = i then some m else none
    | .other _ => none

@[simp] theorem messages_nil (i : Fid) : messages i ([] : List (Entry α ε)) = [] := rfl

@[simp] theorem messages_append (i : Fid) (es es' : List (Entry α ε)) :
    messages i (es ++ es') = messages i es ++ messages i es' := List.filterMap_append

@[simp] theorem messages_other (i : Fid) (n : Nat) (es : List (Entry α ε)) :
    messages i (.other n :: es) = messages i es := by
  simp [messages]

theorem messages_own (i : Fid) (m : Msg α ε) (es : List (Entry α ε)) :
    messages i (.item i m :: es) = m :: messages i es := by
  simp [messages]

theorem messages_of_ne {i j : Fid} (h : j ≠ i) (m : Msg α ε) (es : List (Entry α ε)) :
    messages i (.item j m :: es) = messages i es := by
  simp [messages, h]

theorem messages_posted (i : Fid) (ms : List (Msg α ε)) : messages i (ms.map (.item i)) = ms := by
  induction ms with
  | nil => rfl
  | cons m ms ih => rw [List.map_cons, messages_own, ih]

theorem messages_posted_of_ne {i j : Fid} (h : j ≠ i) (ms : List (Msg α ε)) :
    messages i (ms.map (.item j)) = [] := by
  induction ms with
  | nil => rfl
  | cons m ms ih => rw [List.map_cons, messages_of_ne h, ih]

/-! ## Places -/

/-- The place of an item. -/
inductive Place (α ε : Type) where
  | queued
  | on (t : Tid) (pc : Pc α ε)
  | done

def Place.stage : Place α ε → WorkItem.Stage α ε
  | .queued => .queued
  | .on _ pc => .run pc
  | .done => .done

/-- Where a step of `run` takes an item. -/
def Next.place (t : Tid) : Next α ε → Place α ε
  | .goes pc => .on t pc
  | .returns => .done
  | .raises => .done

/-- `φ` has the places of the items, and `es` the callbacks of the loop. -/
structure Placed (p : Pool α ε) (es : List (Entry α ε)) (φ : Fid → Place α ε) : Prop where
  holds : ∀ i, i < p.next → WorkItem.Holds (p.items i) (φ i).stage (messages i es)
  queued : ∀ i ∈ p.work_queue, i < p.next ∧ φ i = .queued
  nodup : p.work_queue.Nodup
  busy : ∀ t i pc, p.workers t = .busy i pc → i < p.next ∧ φ i = .on t pc
  fresh : ∀ i, p.next ≤ i → messages i es = []
  unstarted : ∀ t, p.threads ≤ t → p.workers t = .exited

theorem placed_new (max_workers : Nat) :
    Placed (Pool.new max_workers : Pool α ε) [] fun _ => .done := by
  constructor
  · intro i hi
    cases hi
  · intro i hi
    cases hi
  · exact List.nodup_nil
  · intro t i pc ht
    cases ht
  · intro i _
    rfl
  · intro t _
    rfl

section Steps

variable {p p' : Pool α ε} {es : List (Entry α ε)} {φ : Fid → Place α ε}

/-- One item changes, with its messages, and stays where it is. -/
theorem Placed.item (h : Placed p es φ) {i : Fid} (hi : i < p.next) {w : WorkItem α ε}
    {es' : List (Entry α ε)} (hw : WorkItem.Holds w (φ i).stage (messages i es'))
    (hes : ∀ j, j ≠ i → messages j es' = messages j es) :
    Placed { p with items := Function.update p.items i w } es' φ where
  holds := by
    intro j hj
    show WorkItem.Holds (Function.update p.items i w j) (φ j).stage (messages j es')
    by_cases hij : j = i
    · subst hij
      rw [Function.update_self]
      exact hw
    · rw [Function.update_of_ne hij, hes j hij]
      exact h.holds j hj
  queued := h.queued
  nodup := h.nodup
  busy := h.busy
  fresh := by
    intro j hj
    have hij : j ≠ i := by
      rintro rfl
      exact absurd hi (Nat.not_lt.2 hj)
    exact (hes j hij).trans (h.fresh j hj)
  unstarted := h.unstarted

/-- Callbacks of other code come and go. -/
theorem Placed.others (h : Placed p es φ) {es' : List (Entry α ε)}
    (hes : ∀ j, messages j es' = messages j es) : Placed p es' φ :=
  { h with
    holds := by
      intro j hj
      rw [hes j]
      exact h.holds j hj
    fresh := fun j hj => (hes j).trans (h.fresh j hj) }

/-- A thread moves the item that it has, or a queued one, to another place. -/
theorem Placed.move (h : Placed p es φ) {t : Tid} {i : Fid} {pl : Place α ε}
    {worker : Worker α ε} {w : WorkItem α ε} {es' : List (Entry α ε)} {q : List Fid}
    (ht : t < p.threads) (hi : i < p.next) (hw : WorkItem.Holds w pl.stage (messages i es'))
    (hes : ∀ j, j ≠ i → messages j es' = messages j es)
    (hq : q.Sublist p.work_queue) (hiq : i ∉ q)
    (hfree : ∀ t' pc, t' ≠ t → p.workers t' ≠ .busy i pc)
    (hworker : ∀ j pc, worker = .busy j pc → j = i ∧ pl = .on t pc) :
    Placed
      { p with
        items := Function.update p.items i w
        work_queue := q
        workers := Function.update p.workers t worker }
      es' (Function.update φ i pl) where
  holds := by
    intro j hj
    show WorkItem.Holds (Function.update p.items i w j) _ (messages j es')
    by_cases hij : j = i
    · subst hij
      rw [Function.update_self, Function.update_self]
      exact hw
    · rw [Function.update_of_ne hij, Function.update_of_ne hij, hes j hij]
      exact h.holds j hj
  queued := by
    intro j hj
    have hij : j ≠ i := by
      rintro rfl
      exact hiq hj
    rw [Function.update_of_ne hij]
    exact h.queued j (hq.subset hj)
  nodup := h.nodup.sublist hq
  busy := by
    intro t' j pc hafter
    have hbusy : Function.update p.workers t worker t' = .busy j pc := hafter
    by_cases htt : t' = t
    · subst htt
      rw [Function.update_self] at hbusy
      obtain ⟨rfl, hp⟩ := hworker j pc hbusy
      rw [Function.update_self]
      exact ⟨hi, hp⟩
    · rw [Function.update_of_ne htt] at hbusy
      have hij : j ≠ i := by
        intro hij
        rw [hij] at hbusy
        exact hfree t' pc htt hbusy
      rw [Function.update_of_ne hij]
      exact h.busy t' j pc hbusy
  fresh := by
    intro j hj
    have hij : j ≠ i := by
      rintro rfl
      exact absurd hi (Nat.not_lt.2 hj)
    exact (hes j hij).trans (h.fresh j hj)
  unstarted := by
    intro t' ht'
    have htt : t' ≠ t := by
      rintro rfl
      exact absurd ht (Nat.not_lt.2 ht')
    show Function.update p.workers t worker t' = .exited
    rw [Function.update_of_ne htt]
    exact h.unstarted t' ht'

theorem Placed.started (h : Placed p es φ) {t : Tid} (ht : p.workers t ≠ .exited) :
    t < p.threads := by
  by_contra hlt
  exact ht (h.unstarted t (Nat.not_lt.1 hlt))

theorem Placed.adjust_thread_count (h : Placed p es φ) :
    Placed (Pool._adjust_thread_count p) es φ := by
  unfold Pool._adjust_thread_count
  split
  · refine { h with busy := ?_, unstarted := ?_ }
    · intro t i pc hafter
      have hbusy : Function.update p.workers p.threads .idle t = .busy i pc := hafter
      by_cases ht : t = p.threads
      · rw [ht, Function.update_self] at hbusy
        cases hbusy
      · rw [Function.update_of_ne ht] at hbusy
        exact h.busy t i pc hbusy
    · intro t ht
      have ht : p.threads + 1 ≤ t := ht
      show Function.update p.workers p.threads .idle t = .exited
      rw [Function.update_of_ne (Nat.ne_of_gt ht)]
      exact h.unstarted t (Nat.le_of_succ_le ht)
  · exact h

/-- The new item is queued. -/
theorem Placed.submit (h : Placed p es φ) :
    Placed p.submit es (Function.update φ p.next .queued) := by
  apply Placed.adjust_thread_count
  constructor
  · intro i hi
    show WorkItem.Holds (Function.update p.items p.next .new i) _ (messages i es)
    by_cases hij : i = p.next
    · rw [hij, Function.update_self, Function.update_self, h.fresh p.next Nat.le.refl]
      exact WorkItem.holds_new
    · have hlt : i < p.next := Nat.lt_of_le_of_ne (Nat.lt_succ_iff.1 hi) hij
      rw [Function.update_of_ne hij, Function.update_of_ne hij]
      exact h.holds i hlt
  · intro i hi
    show i < p.next + 1 ∧ _
    rcases List.mem_append.1 hi with hi | hi
    · obtain ⟨hlt, hφ⟩ := h.queued i hi
      rw [Function.update_of_ne (Nat.ne_of_lt hlt)]
      exact ⟨Nat.lt_succ_of_lt hlt, hφ⟩
    · rw [List.mem_singleton.1 hi, Function.update_self]
      exact ⟨Nat.lt_succ_self _, rfl⟩
  · apply List.nodup_append.2
    refine ⟨h.nodup, List.nodup_cons.2 ⟨List.not_mem_nil, List.nodup_nil⟩, ?_⟩
    intro i hi j hj
    rw [List.mem_singleton.1 hj]
    exact Nat.ne_of_lt (h.queued i hi).1
  · intro t i pc hbusy
    obtain ⟨hlt, hφ⟩ := h.busy t i pc hbusy
    rw [Function.update_of_ne (Nat.ne_of_lt hlt)]
    exact ⟨Nat.lt_succ_of_lt hlt, hφ⟩
  · exact fun i hi => h.fresh i (Nat.le_of_succ_le hi)
  · exact h.unstarted

theorem Placed.get (h : Placed p es φ) {t : Tid} (hget : p.get t = some p') :
    ∃ φ', Placed p' es φ' := by
  unfold Pool.get at hget
  split at hget
  · rename_i i rest ht hq
    cases hget
    obtain ⟨hi, hφ⟩ := h.queued i (hq ▸ List.mem_cons_self)
    have hw := h.holds i hi
    rw [hφ] at hw
    have hnodup := h.nodup
    rw [hq] at hnodup
    have hmove : Placed
        { p with
          items := Function.update p.items i (p.items i)
          work_queue := rest
          workers := Function.update p.workers t (.busy i .starting) }
        es (Function.update φ i (.on t .starting)) := by
      apply h.move (h.started (by rw [ht]; nofun)) hi hw.taken
      · intro j _
        rfl
      · rw [hq]
        exact List.sublist_cons_self i rest
      · exact (List.nodup_cons.1 hnodup).1
      · intro t' pc _ hbusy
        rw [(h.busy t' i pc hbusy).2] at hφ
        cases hφ
      · intro j pc hbusy
        cases hbusy
        exact ⟨rfl, rfl⟩
    rw [Function.update_eq_self] at hmove
    exact ⟨_, hmove⟩
  · cases hget

/-- A thread without an item is elsewhere in `_worker`. -/
theorem Placed.worker (h : Placed p es φ) {t : Tid} {worker : Worker α ε} (ht : t < p.threads)
    (hworker : ∀ i pc, worker ≠ .busy i pc) :
    Placed { p with workers := Function.update p.workers t worker } es φ := by
  refine { h with busy := ?_, unstarted := ?_ }
  · intro t' i pc hafter
    have hbusy : Function.update p.workers t worker t' = .busy i pc := hafter
    by_cases htt : t' = t
    · rw [htt, Function.update_self] at hbusy
      exact absurd hbusy (hworker i pc)
    · rw [Function.update_of_ne htt] at hbusy
      exact h.busy t' i pc hbusy
  · intro t' ht'
    have htt : t' ≠ t := by
      rintro rfl
      exact absurd ht (Nat.not_lt.2 ht')
    show Function.update p.workers t worker t' = .exited
    rw [Function.update_of_ne htt]
    exact h.unstarted t' ht'

theorem Placed.empty (h : Placed p es φ) {t : Tid} (hempty : p.empty t = some p') :
    Placed p' es φ := by
  unfold Pool.empty at hempty
  split at hempty
  · rename_i ht _
    cases hempty
    exact h.worker (h.started (by rw [ht]; nofun)) nofun
  · cases hempty

theorem Placed.exit (h : Placed p es φ) {t : Tid} (hexit : p.exit t = some p') :
    Placed p' es φ := by
  unfold Pool.exit at hexit
  split at hexit
  · rename_i ht
    cases hexit
    apply h.worker (h.started (by rw [ht]; nofun))
    intro i pc
    split
    · nofun
    · nofun
  · cases hexit

theorem Placed.run (h : Placed p es φ) {t : Tid} {o : Outcome α ε} {i : Fid}
    {ms : List (Msg α ε)} (hrun : p.run t o = some (p', i, ms)) :
    ∃ φ', Placed p' (es ++ ms.map (.item i)) φ' := by
  unfold Pool.run at hrun
  split at hrun
  · rename_i j pc ht
    obtain ⟨⟨w, ms', next⟩, hstep, heq⟩ := Option.map_eq_some_iff.1 hrun
    cases heq
    obtain ⟨hi, hφ⟩ := h.busy t i pc ht
    have hw := h.holds i hi
    rw [hφ] at hw
    refine ⟨Function.update φ i (next.place t), ?_⟩
    apply h.move (h.started (by rw [ht]; nofun)) hi
    · rw [messages_append, messages_posted]
      have hstage : (next.place t).stage = WorkItem.Next.stage next := by
        cases next with
        | goes pc => rfl
        | returns => rfl
        | raises => rfl
      rw [hstage]
      exact WorkItem.holds_run hw hstep
    · intro j hj
      rw [messages_append, messages_posted_of_ne (Ne.symm hj), List.append_nil]
    · exact List.Sublist.refl _
    · intro hq
      rw [(h.queued i hq).2] at hφ
      cases hφ
    · intro t' pc' hne hbusy
      rw [(h.busy t' i pc' hbusy).2, Place.on.injEq] at hφ
      exact hne hφ.1
    · intro j pc' hbusy
      cases next with
      | goes pc =>
        cases hbusy
        exact ⟨rfl, rfl⟩
      | returns => cases hbusy
      | raises => cases hbusy
  · cases hrun

/-- A message is of an item that was submitted. -/
theorem Placed.posted_lt {i : Fid} {m : Msg α ε} (h : Placed p (.item i m :: es) φ) :
    i < p.next := by
  by_contra hlt
  have hnil := h.fresh i (Nat.not_lt.1 hlt)
  rw [messages_own] at hnil
  cases hnil

theorem Placed.exec {i : Fid} {m : Msg α ε} (h : Placed p (.item i m :: es) φ) :
    Placed (p.exec i m) es φ := by
  have hi := h.posted_lt
  have hw := h.holds i hi
  rw [messages_own] at hw
  apply h.item hi (WorkItem.holds_exec hw)
  intro j hj
  rw [messages_of_ne (Ne.symm hj)]

theorem Placed.client [Truth ε] (h : Placed p es φ) {i : Fid} {c : Call}
    (hclient : p.client i c = some p') : Placed p' es φ := by
  unfold Pool.client at hclient
  split at hclient
  · rename_i hi
    cases hclient
    exact h.item hi (WorkItem.holds_client (h.holds i hi) c) fun _ _ => rfl
  · cases hclient

end Steps

end Jega.Futures
