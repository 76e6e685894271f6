import Jega.Event.Ended
import Jega.Futures.Base
import Mathlib.Data.Finset.Dedup
import Mathlib.Data.Finset.Filter
import Mathlib.Data.Finset.SDiff
import Mathlib.Logic.Function.Iterate

/-!
# Jega.Futures.Waiters — what tells `wait` about a future

The waiter classes of `_base.py`, and the futures and waiters that refer to each
other. Each waiter has an event of its own. The locks of the waiters and the
conditions of the futures are left out: nobody suspends while holding one, as
`set` does not suspend its caller.
-/

namespace Jega.Futures.Waiting

open Locks

/-- The return conditions; `other` is anything else, by its `repr`. -/
inductive ReturnWhen where
  | FIRST_COMPLETED
  | FIRST_EXCEPTION
  | ALL_COMPLETED
  | _AS_COMPLETED
  | other (repr : String)
deriving DecidableEq, Repr

/-- What `wait` may raise; `thrown` is what ended the wait of its event. -/
inductive Error where
  | value_error (message : String)
  | type_error (message : String)
  | thrown (e : Option Exc)
deriving DecidableEq, Repr

/-- The class of a waiter, with the fields that it adds. -/
inductive WaiterClass where
  | _AsCompletedWaiter
  | _FirstCompletedWaiter
  | _AllCompletedWaiter (num_pending_calls : Int) (stop_on_exception : Bool)
deriving DecidableEq, Repr

structure Waiter where
  cls : WaiterClass
  event : Event.St
  finished_futures : List Fid

namespace Waiter

/-- `_Waiter.__init__` -/
def new (cls : WaiterClass) : Waiter where
  cls := cls
  event := Event.init
  finished_futures := []

/-- `self.finished_futures.append(future)` -/
def append (w : Waiter) (future : Fid) : Waiter :=
  { w with finished_futures := w.finished_futures ++ [future] }

/-- `self.event.set()` -/
def set (w : Waiter) (current : Gid) : Waiter :=
  { w with event := Event.event_set w.event current }

/-- The arguments are the two fields of the waiter. -/
def _decrement_pending_calls (w : Waiter) (num_pending_calls : Int) (stop_on_exception : Bool)
    (current : Gid) : Waiter :=
  let w := { w with cls := ._AllCompletedWaiter (num_pending_calls - 1) stop_on_exception }
  if num_pending_calls - 1 = 0 then w.set current else w

def add_result (w : Waiter) (future : Fid) (current : Gid) : Waiter :=
  let w := w.append future
  match w.cls with
  | ._AsCompletedWaiter => w.set current
  | ._FirstCompletedWaiter => w.set current
  | ._AllCompletedWaiter n stop => w._decrement_pending_calls n stop current

def add_exception (w : Waiter) (future : Fid) (current : Gid) : Waiter :=
  let w := w.append future
  match w.cls with
  | ._AsCompletedWaiter => w.set current
  | ._FirstCompletedWaiter => w.set current
  | ._AllCompletedWaiter n stop =>
    if stop then w.set current else w._decrement_pending_calls n stop current

def add_cancelled (w : Waiter) (future : Fid) (current : Gid) : Waiter :=
  let w := w.append future
  match w.cls with
  | ._AsCompletedWaiter => w.set current
  | ._FirstCompletedWaiter => w.set current
  | ._AllCompletedWaiter n stop => w._decrement_pending_calls n stop current

end Waiter

/-- The futures and the waiters, by identity. -/
structure Table (α ε : Type) where
  futs : Fid → Future α ε
  waiters : Wid → Option Waiter
  /-- The next waiter to be allocated. -/
  next : Wid

variable {α ε : Type}

/-- `for waiter in self._waiters: waiter.add_…(self)` -/
def tell (add : Waiter → Waiter) (ws : List Wid) (waiters : Wid → Option Waiter) :
    Wid → Option Waiter :=
  ws.foldl (fun waiters w => Function.update waiters w ((waiters w).map add)) waiters

/-- `for f in fs: f._waiters.append(waiter)` -/
def install (waiter : Wid) (fs : List Fid) (futs : Fid → Future α ε) : Fid → Future α ε :=
  fs.foldl (fun futs f =>
    Function.update futs f { futs f with _waiters := (futs f)._waiters ++ [waiter] }) futs

/-- `for f in fs: f._waiters.remove(waiter)`; the second component tells whether
it came to its end. -/
def uninstall (waiter : Wid) : List Fid → (Fid → Future α ε) → (Fid → Future α ε) × Bool
  | [], futs => (futs, true)
  | f :: fs, futs =>
    if waiter ∈ (futs f)._waiters then
      uninstall waiter fs
        (Function.update futs f { futs f with _waiters := (futs f)._waiters.erase waiter })
    else (futs, false)

namespace Table

/-- Some methods change the future only. -/
def put (t : Table α ε) (future : Fid) (f : Future α ε) : Table α ε :=
  { t with futs := Function.update t.futs future f }

def cancel (t : Table α ε) (future : Fid) : Table α ε := t.put future (t.futs future).cancel.1

def set_running_or_notify_cancel (t : Table α ε) (future : Fid) (current : Gid) :
    Except (Raised ε) (Table α ε × Bool) :=
  match (t.futs future).set_running_or_notify_cancel with
  | .error e => .error e
  | .ok (f, true) => .ok (t.put future f, true)
  | .ok (f, false) =>
    .ok ({ t.put future f with
      waiters := tell (fun w => w.add_cancelled future current) f._waiters t.waiters }, false)

def set_result (t : Table α ε) (future : Fid) (result : Option α) (current : Gid) : Table α ε :=
  { t.put future ((t.futs future).set_result result) with
    waiters :=
      tell (fun w => w.add_result future current) (t.futs future)._waiters t.waiters }

def set_exception (t : Table α ε) (future : Fid) (exception : ε) (current : Gid) : Table α ε :=
  { t.put future ((t.futs future).set_exception exception) with
    waiters :=
      tell (fun w => w.add_exception future current) (t.futs future)._waiters t.waiters }

/-- `pending_count` -/
def pending_count (t : Table α ε) (fs : List Fid) : Nat :=
  fs.countP fun f => !(t.futs f)._state.settled

/-- A new waiter is appended to the lists. -/
def add_waiter (t : Table α ε) (fs : List Fid) (cls : WaiterClass) : Table α ε where
  futs := install t.next fs t.futs
  waiters := Function.update t.waiters t.next (some (.new cls))
  next := t.next + 1

def _create_and_install_waiters (t : Table α ε) (fs : List Fid) (return_when : ReturnWhen) :
    Except Error (Table α ε × Wid) :=
  match return_when with
  | ._AS_COMPLETED => .ok (t.add_waiter fs ._AsCompletedWaiter, t.next)
  | .FIRST_COMPLETED => .ok (t.add_waiter fs ._FirstCompletedWaiter, t.next)
  | .FIRST_EXCEPTION =>
    .ok (t.add_waiter fs (._AllCompletedWaiter (t.pending_count fs) true), t.next)
  | .ALL_COMPLETED =>
    .ok (t.add_waiter fs (._AllCompletedWaiter (t.pending_count fs) false), t.next)
  | .other repr => .error (.value_error ("Invalid return condition: " ++ repr))

end Table

/-! ## Lists -/

/-- A waiter is told as often as the list names it. -/
theorem tell_eq (add : Waiter → Waiter) (ws : List Wid) (waiters : Wid → Option Waiter) (w : Wid) :
    tell add ws waiters w = (waiters w).map add^[ws.count w] := by
  induction ws generalizing waiters with
  | nil =>
    show waiters w = (waiters w).map id
    rw [Option.map_id, id]
  | cons v ws ih =>
    show tell add ws (Function.update waiters v ((waiters v).map add)) w = _
    rw [ih]
    rcases eq_or_ne v w with rfl | hne
    · rw [Function.update_self, Option.map_map, List.count_cons_self]
      rfl
    · rw [Function.update_of_ne hne.symm, List.count_cons_of_ne hne]

theorem install_eq (waiter : Wid) (fs : List Fid) (futs : Fid → Future α ε) (f : Fid) :
    install waiter fs futs f =
      { futs f with
        _waiters := (futs f)._waiters ++ List.replicate (fs.count f) waiter } := by
  induction fs generalizing futs with
  | nil =>
    show futs f = _
    rw [List.count_nil, List.replicate_zero, List.append_nil]
  | cons f' fs ih =>
    show install waiter fs (Function.update futs f' _) f = _
    rw [ih]
    rcases eq_or_ne f' f with rfl | hne
    · rw [Function.update_self, List.count_cons_self, List.replicate_succ, List.append_assoc]
      rfl
    · rw [Function.update_of_ne hne.symm, List.count_cons_of_ne hne]

/-- A waiter that was installed is found again, and only it is removed. -/
theorem uninstall_eq {waiter : Wid} {fs : List Fid} {futs : Fid → Future α ε}
    (h : ∀ f, fs.count f ≤ (futs f)._waiters.count waiter) :
    (uninstall waiter fs futs).2 = true ∧
      ∀ f, ((uninstall waiter fs futs).1 f)._state = (futs f)._state ∧
        ∀ w, w ≠ waiter → ((uninstall waiter fs futs).1 f)._waiters.count w =
          (futs f)._waiters.count w := by
  induction fs generalizing futs with
  | nil => exact ⟨rfl, fun f => ⟨rfl, fun _ _ => rfl⟩⟩
  | cons f' fs ih =>
    have hmem : waiter ∈ (futs f')._waiters := by
      have hle := h f'
      rw [List.count_cons_self] at hle
      exact List.count_pos_iff.1 (Nat.lt_of_lt_of_le (Nat.succ_pos _) hle)
    rw [uninstall, if_pos hmem]
    have hle : ∀ f, fs.count f ≤ (Function.update futs f'
        { futs f' with _waiters := (futs f')._waiters.erase waiter } f)._waiters.count waiter := by
      intro f
      have hf := h f
      rcases eq_or_ne f f' with rfl | hne
      · rw [List.count_cons_self] at hf
        rw [Function.update_self, List.count_erase_self]
        omega
      · rw [List.count_cons_of_ne hne.symm] at hf
        rwa [Function.update_of_ne hne]
    obtain ⟨hall, hrest⟩ := ih hle
    refine ⟨hall, fun f => ?_⟩
    obtain ⟨hstate, hcount⟩ := hrest f
    rcases eq_or_ne f f' with rfl | hne
    · rw [Function.update_self] at hstate hcount
      refine ⟨hstate, fun w hw => ?_⟩
      rw [hcount w hw]
      exact List.count_erase_of_ne hw
    · rw [Function.update_of_ne hne] at hstate hcount
      exact ⟨hstate, hcount⟩

/-- As often as the call names a future, the waiter leaves its list. -/
theorem uninstall_count {waiter : Wid} {fs : List Fid} {futs : Fid → Future α ε}
    (h : (uninstall waiter fs futs).2 = true) (f : Fid) :
    ((uninstall waiter fs futs).1 f)._waiters.count waiter + fs.count f =
      (futs f)._waiters.count waiter := by
  induction fs generalizing futs with
  | nil => rfl
  | cons f' fs ih =>
    rw [uninstall] at h ⊢
    split at h
    next hmem =>
      rw [if_pos hmem]
      have hrest := ih h
      rcases eq_or_ne f f' with rfl | hne
      · have hpos := List.count_pos_iff.2 hmem
        rw [Function.update_self, List.count_erase_self] at hrest
        rw [List.count_cons_self]
        omega
      · rw [Function.update_of_ne hne] at hrest
        rwa [List.count_cons_of_ne hne.symm]
    · cases h

/-! ## What a waiter is told -/

/-- One of the three methods of a waiter, called by `current` on `future`. -/
structure Adds (future : Fid) (current : Gid) (add : Waiter → Waiter) : Prop where
  finished : ∀ w, (add w).finished_futures = w.finished_futures ++ [future]
  event : ∀ w, (add w).event = w.event ∨ (add w).event = Event.event_set w.event current
  first : ∀ w, w.cls = ._FirstCompletedWaiter →
    (add w).cls = ._FirstCompletedWaiter ∧ (add w).event = Event.event_set w.event current
  all : ∀ w n, w.cls = ._AllCompletedWaiter n false →
    (add w).cls = ._AllCompletedWaiter (n - 1) false ∧
      (add w).event = if n - 1 = 0 then Event.event_set w.event current else w.event

theorem decrement_eq (w : Waiter) (n : Int) (stop : Bool) (current : Gid) :
    w._decrement_pending_calls n stop current =
      { w with
        cls := ._AllCompletedWaiter (n - 1) stop
        event := if n - 1 = 0 then Event.event_set w.event current else w.event } := by
  unfold Waiter._decrement_pending_calls
  by_cases hn : n - 1 = 0
  · simp only [if_pos hn]
    rfl
  · simp only [if_neg hn]

theorem adds_result (future : Fid) (current : Gid) :
    Adds future current fun w => w.add_result future current := by
  constructor
  · rintro ⟨cls, event, finished⟩
    cases cls with
    | _AsCompletedWaiter => rfl
    | _FirstCompletedWaiter => rfl
    | _AllCompletedWaiter n stop => simp only [Waiter.add_result, Waiter.append, decrement_eq]
  · rintro ⟨cls, event, finished⟩
    cases cls with
    | _AsCompletedWaiter => exact Or.inr rfl
    | _FirstCompletedWaiter => exact Or.inr rfl
    | _AllCompletedWaiter n stop =>
      simp only [Waiter.add_result, Waiter.append, decrement_eq]
      split
      · exact Or.inr rfl
      · exact Or.inl rfl
  · rintro ⟨cls, event, finished⟩ rfl
    exact ⟨rfl, rfl⟩
  · rintro ⟨cls, event, finished⟩ n rfl
    simp only [Waiter.add_result, Waiter.append, decrement_eq]
    exact ⟨trivial, trivial⟩

/-- Only a waiter that stops on an exception tells it from a result. -/
theorem adds_exception (future : Fid) (current : Gid) :
    Adds future current fun w => w.add_exception future current := by
  have hresult := adds_result future current
  have hsame : ∀ w : Waiter, (∀ n, w.cls ≠ ._AllCompletedWaiter n true) →
      w.add_exception future current = w.add_result future current := by
    rintro ⟨cls, event, finished⟩ hstop
    cases cls with
    | _AsCompletedWaiter => rfl
    | _FirstCompletedWaiter => rfl
    | _AllCompletedWaiter n stop =>
      cases stop with
      | true => exact absurd rfl (hstop n)
      | false => rfl
  have hstops : ∀ (w : Waiter) n, w.cls = ._AllCompletedWaiter n true →
      w.add_exception future current = (w.append future).set current := by
    rintro ⟨cls, event, finished⟩ n rfl
    rfl
  constructor
  · intro w
    by_cases hstop : ∃ n, w.cls = ._AllCompletedWaiter n true
    · obtain ⟨n, hn⟩ := hstop
      rw [hstops w n hn]
      rfl
    · rw [hsame w (not_exists.1 hstop)]
      exact hresult.finished w
  · intro w
    by_cases hstop : ∃ n, w.cls = ._AllCompletedWaiter n true
    · obtain ⟨n, hn⟩ := hstop
      rw [hstops w n hn]
      exact Or.inr rfl
    · rw [hsame w (not_exists.1 hstop)]
      exact hresult.event w
  · intro w hcls
    rw [hsame w (by simp [hcls])]
    exact hresult.first w hcls
  · intro w n hcls
    rw [hsame w (by simp [hcls])]
    exact hresult.all w n hcls

theorem adds_cancelled (future : Fid) (current : Gid) :
    Adds future current fun w => w.add_cancelled future current := adds_result future current

/-! ## Told more than once -/

/-- From `e` to `e'`, the event was set, if anything. -/
structure Marked (e e' : Event.St) : Prop where
  steady : Event.Steady e'
  pc : e'.pc = e.pc
  ended : e'.ended = e.ended
  shrinks : Shrinks e.locks e'.locks
  flag : e.flag = true → e'.flag = true

theorem Marked.refl {e : Event.St} (hs : Event.Steady e) : Marked e e :=
  ⟨hs, rfl, rfl, shrinks_of_plain (Plain.refl _) rfl, fun h => h⟩

theorem Marked.trans {e e' e'' : Event.St} (h : Marked e e') (h' : Marked e' e'') :
    Marked e e'' where
  steady := h'.steady
  pc := h'.pc.trans h.pc
  ended := h'.ended.trans h.ended
  shrinks := h.shrinks.trans h'.shrinks
  flag := fun hf => h'.flag (h.flag hf)

theorem marked_set {e : Event.St} {current : Gid} (hs : Event.Steady e)
    (hpc : e.pc current = .free) : Marked e (Event.event_set e current) := by
  obtain ⟨hs', hshrinks, hflag, hpc', hended⟩ := Event.event_set_steady hs hpc
  exact ⟨hs', hpc', hended, hshrinks, fun _ => hflag⟩

section Told

variable {future : Fid} {current : Gid} {add : Waiter → Waiter} {w : Waiter}

theorem Adds.marked (ha : Adds future current add) (hs : Event.Steady w.event)
    (hpc : w.event.pc current = .free) : Marked w.event (add w).event := by
  rcases ha.event w with heq | heq
  · rw [heq]
    exact .refl hs
  · rw [heq]
    exact marked_set hs hpc

theorem Adds.iterate (ha : Adds future current add) (hs : Event.Steady w.event)
    (hpc : w.event.pc current = .free) (k : Nat) :
    Marked w.event (add^[k] w).event ∧
      (add^[k] w).finished_futures = w.finished_futures ++ List.replicate k future := by
  induction k with
  | zero => exact ⟨.refl hs, (List.append_nil _).symm⟩
  | succ k ih =>
    obtain ⟨hm, hfinished⟩ := ih
    rw [Function.iterate_succ_apply']
    constructor
    · refine hm.trans (ha.marked hm.steady ?_)
      rw [hm.pc]
      exact hpc
    · rw [ha.finished, hfinished, List.append_assoc, ← List.replicate_succ']

/-- A waiter for the first future. -/
theorem Adds.iterate_first (ha : Adds future current add) (hs : Event.Steady w.event)
    (hpc : w.event.pc current = .free) (hcls : w.cls = ._FirstCompletedWaiter) (k : Nat) :
    (add^[k] w).cls = ._FirstCompletedWaiter ∧
      ((add^[k] w).event.flag = true ↔ w.event.flag = true ∨ 0 < k) := by
  induction k with
  | zero => exact ⟨hcls, by simp⟩
  | succ k ih =>
    obtain ⟨hm, _⟩ := ha.iterate hs hpc k
    obtain ⟨hcls', hevent⟩ := ha.first _ ih.1
    have hflag := (Event.event_set_steady hm.steady (hm.pc ▸ hpc)).2.2.1
    rw [Function.iterate_succ_apply']
    refine ⟨hcls', ?_⟩
    rw [hevent, hflag]
    exact iff_of_true rfl (Or.inr (Nat.succ_pos k))

/-- A waiter that counts, while it counts `n` more than it is told. -/
theorem iterate_counted {stop : Bool}
    (hcounts : ∀ w n, w.cls = ._AllCompletedWaiter n stop →
      (add w).cls = ._AllCompletedWaiter (n - 1) stop ∧
        (add w).event = if n - 1 = 0 then Event.event_set w.event current else w.event)
    (k : Nat) {n : Nat} (hcls : w.cls = ._AllCompletedWaiter (n + k : Nat) stop) :
    (add^[k] w).cls = ._AllCompletedWaiter n stop ∧
      (add^[k] w).event =
        if 0 < k ∧ n = 0 then Event.event_set w.event current else w.event := by
  induction k generalizing n with
  | zero => exact ⟨hcls, (if_neg (by simp)).symm⟩
  | succ k ih =>
    have hcls' : w.cls = ._AllCompletedWaiter ((n + 1 + k : Nat) : Int) stop := by
      rw [hcls, Nat.add_right_comm, Nat.add_assoc]
    obtain ⟨hc, he⟩ := ih hcls'
    obtain ⟨hnext, hevent⟩ := hcounts _ _ hc
    have hpred : ((n + 1 : Nat) : Int) - 1 = n := by omega
    rw [hpred] at hnext hevent
    rw [Function.iterate_succ_apply']
    refine ⟨hnext, ?_⟩
    -- it has not been set before, as it counted more
    rw [hevent, he, if_neg (by omega : ¬ (0 < k ∧ n + 1 = 0))]
    by_cases hn : n = 0
    · rw [if_pos (by omega), if_pos ⟨Nat.succ_pos k, hn⟩]
    · rw [if_neg (by omega), if_neg fun h => hn h.2]

theorem iterate_counts (hs : Event.Steady w.event) (hpc : w.event.pc current = .free)
    {stop : Bool}
    (hcounts : ∀ w n, w.cls = ._AllCompletedWaiter n stop →
      (add w).cls = ._AllCompletedWaiter (n - 1) stop ∧
        (add w).event = if n - 1 = 0 then Event.event_set w.event current else w.event)
    (k : Nat) {n : Nat} (hcls : w.cls = ._AllCompletedWaiter (n + k : Nat) stop) :
    (add^[k] w).cls = ._AllCompletedWaiter n stop ∧
      ((add^[k] w).event.flag = true ↔ w.event.flag = true ∨ 0 < k ∧ n = 0) := by
  obtain ⟨hc, he⟩ := iterate_counted hcounts k hcls
  refine ⟨hc, ?_⟩
  rw [he]
  split
  next h => exact iff_of_true (Event.event_set_steady hs hpc).2.2.1 (Or.inr h)
  next h => exact (or_iff_left h).symm

/-- A waiter for all futures. -/
theorem Adds.iterate_all (ha : Adds future current add) (hs : Event.Steady w.event)
    (hpc : w.event.pc current = .free) (k : Nat) {n : Nat}
    (hcls : w.cls = ._AllCompletedWaiter (n + k : Nat) false) :
    (add^[k] w).cls = ._AllCompletedWaiter n false ∧
      ((add^[k] w).event.flag = true ↔ w.event.flag = true ∨ 0 < k ∧ n = 0) :=
  iterate_counts hs hpc ha.all k hcls

end Told

/-! ## What a method does to the table -/

/-- `future` has been settled by `current`, and its waiters were told. -/
structure Settles (t t' : Table α ε) (future : Fid) (current : Gid) : Prop where
  before : (t.futs future)._state.settled = false
  after : (t'.futs future)._state.settled = true
  others : ∀ f, f ≠ future → t'.futs f = t.futs f
  lists : ∀ f, (t'.futs f)._waiters = (t.futs f)._waiters
  told : ∃ add, Adds future current add ∧
    t'.waiters = tell add (t.futs future)._waiters t.waiters
  next : t'.next = t.next

/-- Nobody has been told anything. -/
structure Quiet (t t' : Table α ε) : Prop where
  settled : ∀ f, (t'.futs f)._state.settled = (t.futs f)._state.settled
  lists : ∀ f, (t'.futs f)._waiters = (t.futs f)._waiters
  waiters : t'.waiters = t.waiters
  next : t'.next = t.next

section Methods

variable {t t' : Table α ε} {future : Fid} {current : Gid}

/-- A method that changes one future, and neither its list nor whether it is settled. -/
theorem quiet_put {f : Future α ε} (hs : f._state.settled = (t.futs future)._state.settled)
    (hw : f._waiters = (t.futs future)._waiters) : Quiet t (t.put future f) := by
  have hput : ∀ f', (t.put future f).futs f' = if f' = future then f else t.futs f' :=
    fun f' => Function.update_apply t.futs future f f'
  refine ⟨fun f' => ?_, fun f' => ?_, rfl, rfl⟩
  · rw [hput]
    split
    next heq => rw [hs, heq]
    next => rfl
  · rw [hput]
    split
    next heq => rw [hw, heq]
    next => rfl

theorem cancel_quiet (t : Table α ε) (future : Fid) : Quiet t (t.cancel future) := by
  unfold Table.cancel
  apply quiet_put
  · unfold Future.cancel
    cases hstate : (t.futs future)._state with
    | PENDING => rfl
    | RUNNING => exact congrArg State.settled hstate
    | CANCELLED => exact congrArg State.settled hstate
    | CANCELLED_AND_NOTIFIED => exact congrArg State.settled hstate
    | FINISHED => exact congrArg State.settled hstate
  · unfold Future.cancel
    split <;> rfl

/-- A method that settles its future and tells its waiters. -/
theorem settles_put {f : Future α ε} {add : Waiter → Waiter} (ha : Adds future current add)
    (hb : (t.futs future)._state.settled = false) (hs : f._state.settled = true)
    (hw : f._waiters = (t.futs future)._waiters) :
    Settles t { t.put future f with waiters := tell add (t.futs future)._waiters t.waiters }
      future current := by
  refine ⟨hb, ?_, fun f' hne => Function.update_of_ne hne _ _, fun f' => ?_, ⟨add, ha, rfl⟩, rfl⟩
  · show (Function.update t.futs future f future)._state.settled = true
    rw [Function.update_self]
    exact hs
  · show (Function.update t.futs future f f')._waiters = _
    rcases eq_or_ne f' future with rfl | hne
    · rw [Function.update_self]
      exact hw
    · rw [Function.update_of_ne hne]

theorem set_result_settles (h : (t.futs future)._state.settled = false) (result : Option α) :
    Settles t (t.set_result future result current) future current :=
  settles_put (adds_result future current) h rfl rfl

theorem set_exception_settles (h : (t.futs future)._state.settled = false) (exception : ε) :
    Settles t (t.set_exception future exception current) future current :=
  settles_put (adds_exception future current) h rfl rfl

/-- A worker begins, is told that its future was cancelled, or has begun before. -/
theorem set_running_cases (t : Table α ε) (future : Fid) (current : Gid) :
    ((t.futs future)._state = .PENDING ∧ ∃ t',
        t.set_running_or_notify_cancel future current = .ok (t', true) ∧
        (t'.futs future)._state = .RUNNING ∧ (∀ f, f ≠ future → t'.futs f = t.futs f) ∧
        Quiet t t') ∨
      ((t.futs future)._state = .CANCELLED ∧ ∃ t',
        t.set_running_or_notify_cancel future current = .ok (t', false) ∧
        Settles t t' future current) ∨
      ∃ e, t.set_running_or_notify_cancel future current = .error e := by
  unfold Table.set_running_or_notify_cancel Future.set_running_or_notify_cancel
  cases hstate : (t.futs future)._state with
  | PENDING =>
    refine Or.inl ⟨rfl, _, rfl, ?_, fun f hne => ?_, ?_⟩
    · exact congrArg Future._state (Function.update_self future _ t.futs)
    · exact Function.update_of_ne hne _ t.futs
    · exact quiet_put (congrArg State.settled hstate).symm rfl
  | CANCELLED =>
    refine Or.inr (Or.inl ⟨rfl, _, rfl, ?_⟩)
    exact settles_put (adds_cancelled future current) (congrArg State.settled hstate) rfl rfl
  | RUNNING => exact Or.inr (Or.inr ⟨_, rfl⟩)
  | CANCELLED_AND_NOTIFIED => exact Or.inr (Or.inr ⟨_, rfl⟩)
  | FINISHED => exact Or.inr (Or.inr ⟨_, rfl⟩)

end Methods

end Jega.Futures.Waiting
