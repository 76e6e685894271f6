import Jega.Loop.Heapq
import Jega.Trace.Refinement

/-!
# Jega.Loop.Refinement — what the ring and the heap stand for

* `queue_refines_fifo`: the ring is a first-in first-out list with a capacity
  that doubles, exactly as long as each ring that is outgrown fits on the C
  stack;
* `heapq_refines_priority`: the heap is a bag that gives up a least entry.

Both are about every sequence of calls, with allocations that may fail, as long
as no field reaches 2^31.
-/

namespace Jega.Loop

open Trace

universe u

variable {α : Type}

/-! ## A first-in first-out list -/

/-- A list, oldest entry first, and how many entries there is room for. -/
structure Buffer (α : Type u) where
  entries : List α
  max : Nat

inductive queue_t.Call (α : Type u) where
  /-- `alloc`: `PyMem_Realloc` would succeed. -/
  | push (alloc : Bool) (o : α)
  | push_noext (o : α)
  | shift

inductive queue_t.Answer (α : Type u) where
  | code (n : Int)
  /-- A pointer; `none` is `NULL`. -/
  | entry (o : Option α)

/-- What a list does on the calls of a queue. -/
def Buffer.call (f : Buffer α) : queue_t.Call α → Buffer α × queue_t.Answer α
  | .push alloc o =>
    if f.entries.length < f.max then (⟨f.entries ++ [o], f.max⟩, .code 1)
    else if alloc then (⟨f.entries ++ [o], 2 * f.max⟩, .code 1)
    else (f, .code (-1))
  | .push_noext o =>
    if f.entries.length = f.max then (f, .code (-1)) else (⟨f.entries ++ [o], f.max⟩, .code 1)
  | .shift => (⟨f.entries.tail, f.max⟩, .entry f.entries.head?)

def queue_t.call (stack : Stack) (q : queue_t α) :
    queue_t.Call α → Option (queue_t α × queue_t.Answer α)
  | .push alloc o => (queue_push stack alloc q o).map fun r => (r.1, .code r.2)
  | .push_noext o => some ((queue_push_noext q o).1, .code (queue_push_noext q o).2)
  | .shift => some ((queue_shift q).2, .entry (queue_shift q).1)

/-- The list that a queue is. -/
def queue_t.fifo (q : queue_t α) : Buffer α := ⟨q.entries, q.max⟩

/-- A queue does as its list does, and nothing when it answers -1. -/
structure queue_t.Serves (q : queue_t α) (c : queue_t.Call α) (r : queue_t α)
    (w : queue_t.Answer α) : Prop where
  fifo : q.fifo.call c = (r.fifo, w)
  refused : w = .code (-1) → r = q

/-- The condition on a call: a push that doubles the ring finds room on the C
stack for a copy of it. -/
def queue_t.Fits (stack : Stack) (q : queue_t α) : queue_t.Call α → Prop
  | .push true _ => q.size = q.max → stack.holds q.max = true
  | _ => True

section Queue

variable {stack : Stack} {q : queue_t α}

theorem queue_push_serves (hq : q.WF) (hmax : q.max < 2 ^ 31) (alloc : Bool) (o : α)
    (hfits : q.Fits stack (.push alloc o)) :
    ∃ r w, q.call stack (.push alloc o) = some (r, w) ∧ r.WF ∧ q.Serves (.push alloc o) r w := by
  cases alloc with
  | true =>
    have hroom : q.size < q.max ∨ Growable stack q.max := by
      rcases Nat.lt_or_ge q.size q.max with hlt | hge
      · exact Or.inl hlt
      · exact Or.inr ⟨hmax, hfits (Nat.le_antisymm hq.le_max hge)⟩
    obtain ⟨r, hpush, hr, hentries, hrmax⟩ := queue_push_spec stack hq hroom o
    refine ⟨r, .code 1, by simp [queue_t.call, hpush], hr, ?_, by simp⟩
    simp only [Buffer.call, queue_t.fifo, length_entries, hentries, hrmax]
    split <;> rfl
  | false =>
    rcases Nat.lt_or_ge q.size q.max with hlt | hge
    · -- Case: there is room, and nothing is allocated
      have hsame : queue_push stack false q o = queue_push stack true q o := by
        have hroom : ¬ q.size ≥ q.max := by omega
        simp [queue_push, realloc_queue, hroom]
      obtain ⟨r, hpush, hr, hentries, hrmax⟩ := queue_push_spec stack hq (Or.inl hlt) o
      refine ⟨r, .code 1, by simp [queue_t.call, hsame, hpush], hr, ?_, by simp⟩
      simp only [Buffer.call, queue_t.fifo, length_entries, hentries, hrmax]
      rw [if_pos hlt, if_pos hlt]
    · -- Case: the ring cannot grow
      have hpush : queue_push stack false q o = some (q, -1) := by
        simp [queue_push, realloc_queue, hge]
      refine ⟨q, .code (-1), by simp [queue_t.call, hpush], hq, ?_, fun _ => rfl⟩
      have hfull : ¬ q.size < q.max := by omega
      simp [Buffer.call, queue_t.fifo, hfull]

/-- `queue_push_noext` is `queue_push` while there is room. -/
theorem queue_push_noext_room (hlt : q.size < q.max) (o : α) :
    queue_push stack true q o = some (queue_push_noext q o) := by
  have hroom : ¬ q.size ≥ q.max := by omega
  simp [queue_push, realloc_queue, queue_push_noext, hroom]

theorem queue_push_noext_serves (hq : q.WF) (o : α) :
    ∃ r w, q.call stack (.push_noext o) = some (r, w) ∧ r.WF ∧ q.Serves (.push_noext o) r w := by
  rcases Nat.lt_or_ge q.size q.max with hlt | hge
  · obtain ⟨r, hpush, hr, hentries, hrmax⟩ := queue_push_spec none hq (Or.inl hlt) o
    rw [queue_push_noext_room hlt, Option.some.injEq] at hpush
    refine ⟨r, .code 1, by simp [queue_t.call, hpush], hr, ?_, by simp⟩
    have hroom : q.size ≠ q.max := by omega
    rw [if_pos hlt] at hrmax
    simp [Buffer.call, queue_t.fifo, hroom, hentries, hrmax]
  · have hfull : q.size = q.max := Nat.le_antisymm hq.le_max hge
    have hpush : queue_push_noext q o = (q, -1) := by
      simp [queue_push_noext, hge]
    refine ⟨q, .code (-1), by simp [queue_t.call, hpush], hq, ?_, fun _ => rfl⟩
    simp [Buffer.call, queue_t.fifo, hfull]

theorem queue_shift_serves (hq : q.WF) :
    ∃ r w, q.call stack .shift = some (r, w) ∧ r.WF ∧ q.Serves .shift r w := by
  obtain ⟨hhead, htail, hr, hrmax⟩ := queue_shift_spec hq
  refine ⟨_, _, rfl, hr, ?_, by simp⟩
  simp only [Buffer.call, queue_t.fifo, hhead, htail, hrmax]

/-- A call that meets the condition returns, and does what the list does. -/
theorem queue_call_serves (hq : q.WF) (hmax : q.max < 2 ^ 31) (c : queue_t.Call α)
    (hfits : q.Fits stack c) :
    ∃ r w, q.call stack c = some (r, w) ∧ r.WF ∧ q.Serves c r w := by
  cases c with
  | push alloc o => exact queue_push_serves hq hmax alloc o hfits
  | push_noext o => exact queue_push_noext_serves hq o
  | shift => exact queue_shift_serves hq

/-- A call that does not meet it does not return. -/
theorem queue_call_stuck (hq : q.WF) (hmax : q.max < 2 ^ 31) (c : queue_t.Call α)
    (hfits : ¬ q.Fits stack c) : q.call stack c = none := by
  cases c with
  | push alloc o =>
    cases alloc with
    | true =>
      simp only [queue_t.Fits, Classical.not_imp] at hfits
      have hpush : queue_push stack true q o = none :=
        queue_push_stuck hq (Nat.le_of_lt hmax) (Nat.le_of_eq hfits.1.symm)
          (fun hgrow => hfits.2 hgrow.2) o
      rw [queue_t.call, hpush, Option.map_none]
    | false => exact absurd trivial hfits
  | push_noext o => exact absurd trivial hfits
  | shift => exact absurd trivial hfits

/-- A call that returns does what the list does. -/
theorem queue_call_returned (hq : q.WF) (hmax : q.max < 2 ^ 31) {c : queue_t.Call α}
    {r : queue_t α} {w : queue_t.Answer α} (h : q.call stack c = some (r, w)) :
    r.WF ∧ q.Serves c r w := by
  by_cases hfits : q.Fits stack c
  · obtain ⟨r', w', h', hr, hserves⟩ := queue_call_serves hq hmax c hfits
    rw [h'] at h
    cases h
    exact ⟨hr, hserves⟩
  · rw [queue_call_stuck hq hmax c hfits] at h
    cases h

end Queue

/-- A queue of any size, after any calls: they all returned, the entries read
from `first` on, around the ring, are the list that the same calls make, all
answers were those of the list, and so will be the answer of the next call that
returns. This holds exactly when each ring that was doubled fitted on the C
stack. -/
theorem queue_refines_fifo (stack : Stack) (block : Nat → α) {maxsize : Nat} (hpos : 1 ≤ maxsize)
    {cs : List (queue_t.Call α)}
    (hmax : Always (advance (queue_t.call stack)) (fun q => q.max < 2 ^ 31)
      (init_queue block maxsize) cs) :
    (∃ q ws, answers (queue_t.call stack) (init_queue block maxsize) cs = some (q, ws) ∧
      Admits (fun (f : Buffer α) c w f' => f.call c = (f', w)) ⟨[], maxsize⟩ cs ws
        ⟨Ring.window q.q q.first q.max q.size, q.max⟩ ∧
      ∀ c r w, q.call stack c = some (r, w) → q.Serves c r w) ↔
    Steps (advance (queue_t.call stack)) (queue_t.Fits stack) (init_queue block maxsize) cs := by
  have hlt : maxsize < 2 ^ 31 := hmax.head
  have hinit : (init_queue block maxsize).WF := init_queue_wf block hpos (by omega)
  constructor
  · rintro ⟨q, ws, hanswers, _⟩
    exact steps_of_answers (fun q c r w h hq hqmax => (queue_call_returned hq hqmax h).1)
      (fun q c hq hqmax hfits => queue_call_stuck hq hqmax c hfits) hinit hmax hanswers
  · intro hfits
    obtain ⟨q, ws, hanswers, hq, hqmax, hadmits⟩ :=
      answers_admitted queue_t.fifo (fun f c w f' => f.call c = (f', w))
        (fun q c hq hqmax hfits => by
          obtain ⟨r, w, hcall, hr, hserves⟩ := queue_call_serves hq hqmax c hfits
          exact ⟨r, w, hcall, hr, hserves.fifo⟩) hinit hmax hfits
    exact ⟨q, ws, hanswers, hadmits, fun c r w h => (queue_call_returned hq hqmax h).2⟩

/-- A queue of one that grows, is full again, and turns the next entry away. -/
theorem queue_refines_fifo_grown :
    (∃ q ws, answers (queue_t.call (some 1)) (init_queue (fun _ => 0) 1)
      [.push true 5, .push true 6, .shift, .push false 7, .push false 8] = some (q, ws) ∧
      Admits (fun (f : Buffer Nat) c w f' => f.call c = (f', w)) ⟨[], 1⟩
        [.push true 5, .push true 6, .shift, .push false 7, .push false 8] ws
        ⟨Ring.window q.q q.first q.max q.size, q.max⟩ ∧
      ∀ c r w, q.call (some 1) c = some (r, w) → q.Serves c r w) ↔
    Steps (advance (queue_t.call (some 1))) (queue_t.Fits (some 1)) (init_queue (fun _ => 0) 1)
      [.push true 5, .push true 6, .shift, .push false 7, .push false 8] := by
  refine queue_refines_fifo (some 1) _ (by decide) ?_
  refine Always.cons (by decide) rfl (Always.cons (by decide) rfl ?_)
  refine Always.cons (by decide) rfl (Always.cons (by decide) rfl ?_)
  refine Always.cons (by decide) rfl ?_
  change (2 : Nat) < 2 ^ 31
  decide

/-- Pushes fill a ring up to a power of two, while the copies fit. -/
theorem pushes_fill (stack : Stack) {k : Nat} (hk : 2 ^ k < 2 ^ 31)
    (hcopy : ∀ m < 2 ^ k, stack.holds m = true) (o : α) :
    ∀ {n : Nat} {q : queue_t α}, q.WF → q.max ∣ 2 ^ k → q.size + n = 2 ^ k →
      ∃ r, run (advance (queue_t.call stack)) q (List.replicate n (.push true o)) = some r ∧
        r.WF ∧ r.size = 2 ^ k ∧ r.max = 2 ^ k ∧
        ∀ c, Always (advance (queue_t.call stack)) (fun q => q.max < 2 ^ 31) q
          (List.replicate n (.push true o) ++ [c]) ↔
            ∀ r', advance (queue_t.call stack) r c = some r' → r'.max < 2 ^ 31 := by
  have hlt : ∀ {q : queue_t α}, q.max ∣ 2 ^ k → q.max < 2 ^ 31 := fun hdvd =>
    Nat.lt_of_le_of_lt (Nat.le_of_dvd (Nat.two_pow_pos k) hdvd) hk
  intro n
  induction n with
  | zero =>
    intro q hq hdvd hsize
    have hfull : q.max = 2 ^ k :=
      Nat.le_antisymm (Nat.le_of_dvd (Nat.two_pow_pos k) hdvd) (hsize ▸ hq.le_max)
    exact ⟨q, rfl, hq, hsize, hfull, fun c => ⟨fun h => h.2, fun h => ⟨hlt hdvd, h⟩⟩⟩
  | succ n ih =>
    intro q hq hdvd hsize
    have hroom : q.size < q.max ∨ Growable stack q.max := by
      rcases Nat.lt_or_ge q.size q.max with hmax | hge
      · exact Or.inl hmax
      · exact Or.inr ⟨hlt hdvd, hcopy _ (by omega)⟩
    obtain ⟨q', hpush, _⟩ := queue_push_spec stack hq hroom o
    obtain ⟨hq', hsize', hdvd'⟩ := queue_push_dvd hq hroom hdvd (by omega) hpush
    obtain ⟨r, hrun, hr, hrsize, hrmax, halways⟩ := ih hq' hdvd' (by omega)
    have hadvance : advance (queue_t.call stack) q (.push true o) = some q' := by
      simp [advance, queue_t.call, hpush]
    refine ⟨r, run_cons_iff.2 ⟨q', hadvance, hrun⟩, hr, hrsize, hrmax, fun c => ?_⟩
    rw [← halways c]
    exact ⟨fun h => h.2 q' hadvance, fun h => Always.cons (hlt hdvd) hadvance h⟩

/-- On a stack of 8 MB, less than 2^20 pointers, the push to a queue of 2^20
entries does not return. -/
theorem queue_push_overflows :
    Always (advance (queue_t.call (some (2 ^ 20 - 1)))) (fun q => q.max < 2 ^ 31)
      (init_queue (fun _ => 0) 1024) (List.replicate (2 ^ 20) (.push true 0) ++ [.push true 0]) ∧
    answers (queue_t.call (some (2 ^ 20 - 1))) (init_queue (fun _ => 0) 1024)
      (List.replicate (2 ^ 20) (.push true 0) ++ [.push true 0]) = none := by
  have hinit : (init_queue (fun _ => 0) 1024).WF := init_queue_wf _ (by omega) (by omega)
  obtain ⟨r, hrun, hr, hsize, hmax, halways⟩ :=
    pushes_fill (some (2 ^ 20 - 1)) (k := 20) (by omega)
      (fun m hm => Stack.holds_some.2 (Nat.le_pred_of_lt hm)) 0 hinit
      (Nat.pow_dvd_pow 2 (by omega : 10 ≤ 20)) (Nat.zero_add _)
  have hfits : ¬ r.Fits (some (2 ^ 20 - 1)) (.push true 0) := by
    intro hfits
    have hcopy := hfits (hsize.trans hmax.symm)
    rw [hmax, Stack.holds_some] at hcopy
    omega
  have hbound : r.max < 2 ^ 31 := by
    rw [hmax]
    omega
  have hstuck := queue_call_stuck hr hbound _ hfits
  have hall := (halways (.push true 0)).2 fun r' h => by
    rw [advance, hstuck] at h
    cases h
  refine ⟨hall, Option.eq_none_iff_forall_ne_some.2 fun ⟨q, ws⟩ hanswers => hfits ?_⟩
  have hsteps : Steps (advance (queue_t.call (some (2 ^ 20 - 1)))) (queue_t.Fits _) _ _ :=
    steps_of_answers (fun q c r w h hq hqmax => (queue_call_returned hq hqmax h).1)
      (fun q c hq hqmax hfits => queue_call_stuck hq hqmax c hfits) hinit hall hanswers
  exact hsteps.last hrun

/-! ## A bag that gives up a least entry -/

inductive heapq_t.Call (α : Type u) where
  /-- `alloc`: `realloc` would succeed. -/
  | push (alloc : Bool) (val : α)
  | pop

inductive heapq_t.Answer (α : Type u) where
  | code (n : Int)
  /-- A timer; `none` is `NULL`. -/
  | timer (o : Option α)

def heapq_t.call {κ : Type} [LinearOrder κ] (seconds : α → κ) (q : heapq_t α) :
    heapq_t.Call α → Option (heapq_t α × heapq_t.Answer α)
  | .push alloc val => (heappush alloc seconds q val).map fun r => (r.1, .code r.2)
  | .pop => some ((heappop seconds q).2, .timer (heappop seconds q).1)

/-- The loop of `destroy_heapqueue`: the timers it pops, in order. -/
def destroy_loop {κ : Type} [LinearOrder κ] (seconds : α → κ) :
    Nat → heapq_t α → List α × heapq_t α
  | 0, q => ([], q)
  | fuel + 1, q =>
    if q.size > 0 then
      let r := heappop seconds q
      let d := destroy_loop seconds fuel r.2
      (r.1.toList ++ d.1, d.2)
    else ([], q)

/-- `destroy_heapqueue`, up to the `free`. -/
def destroy_heapqueue {κ : Type} [LinearOrder κ] (seconds : α → κ) (q : heapq_t α) :
    List α × heapq_t α :=
  destroy_loop seconds q.size q

section Heap

variable {κ : Type} [LinearOrder κ] {seconds : α → κ} {q : heapq_t α}

/-- What a bag may do on the calls of a heap. -/
inductive Priority (seconds : α → κ) :
    Multiset α → heapq_t.Call α → heapq_t.Answer α → Multiset α → Prop where
  | pushed (b : Multiset α) (alloc : Bool) (val : α) :
    Priority seconds b (.push alloc val) (.code 1) (val ::ₘ b)
  | refused (b : Multiset α) (val : α) : Priority seconds b (.push false val) (.code (-1)) b
  /-- No entry is before the one that leaves. -/
  | popped (b : Multiset α) (val : α) (hleast : ∀ x ∈ b, seconds val ≤ seconds x) :
    Priority seconds (val ::ₘ b) .pop (.timer (some val)) b
  | empty : Priority seconds 0 .pop (.timer none) 0

/-- A heap does as a bag may do, and nothing when it answers -1. -/
structure heapq_t.Serves (seconds : α → κ) (q : heapq_t α) (c : heapq_t.Call α) (r : heapq_t α)
    (w : heapq_t.Answer α) : Prop where
  priority : Priority seconds q.contents c w r.contents
  refused : w = .code (-1) → r = q

theorem heappush_serves (hq : q.WF seconds) (hsize : q.size < 2 ^ 31) (alloc : Bool) (val : α) :
    ∃ r w, q.call seconds (.push alloc val) = some (r, w) ∧ r.WF seconds ∧
      q.Serves seconds (.push alloc val) r w := by
  obtain ⟨r, hpush, hr, hcontents, _⟩ := heappush_spec hq hsize val
  have hpushed : Priority seconds q.contents (.push alloc val) (.code 1) r.contents := by
    rw [hcontents]
    exact Priority.pushed _ _ _
  cases alloc with
  | true => exact ⟨r, .code 1, by simp [heapq_t.call, hpush], hr, hpushed, by simp⟩
  | false =>
    rcases Nat.lt_or_ge q.size q.max with hlt | hge
    · -- Case: there is room, and nothing is allocated
      have hsame : heappush false seconds q val = heappush true seconds q val := by
        have hroom : ¬ q.size ≥ q.max := by omega
        simp [heappush, hroom]
      exact ⟨r, .code 1, by simp [heapq_t.call, hsame, hpush], hr, hpushed, by simp⟩
    · -- Case: the array cannot grow
      have hzero : q.max * 2 % 2 ^ 32 ≠ 0 := by
        have hmax := hq.max_pos
        omega
      have hfull : heappush false seconds q val = some (q, -1) := by
        simp only [heappush]
        rw [if_pos hge, if_neg hzero]
        rfl
      exact ⟨q, .code (-1), by simp [heapq_t.call, hfull], hq, Priority.refused _ _, fun _ => rfl⟩

theorem heappop_serves (hq : q.WF seconds) :
    ∃ r w, q.call seconds .pop = some (r, w) ∧ r.WF seconds ∧ q.Serves seconds .pop r w := by
  rcases Nat.eq_zero_or_pos q.size with h0 | hpos
  · have hpop : heappop seconds q = (none, q) := by
      simp [heappop, h0]
    refine ⟨q, .timer none, by simp [heapq_t.call, hpop], hq, ?_, by simp⟩
    have hnone : q.contents = 0 := by
      simp [heapq_t.contents, h0]
    rw [hnone]
    exact Priority.empty
  · obtain ⟨hroot, hr, hcontents, _⟩ := heappop_spec hq hpos
    refine ⟨(heappop seconds q).2, .timer (some (q.heap 0)), by simp [heapq_t.call, hroot], hr, ?_,
      by simp⟩
    rw [hcontents]
    refine Priority.popped _ _ fun x hx => ?_
    have hmem : x ∈ q.contents := by
      rw [hcontents]
      exact Multiset.mem_cons_of_mem hx
    exact hq.ordered.root_le_of_mem hmem

/-- Every call of a heap returns, and does what a bag may do. -/
theorem heapq_call_serves (hq : q.WF seconds) (hsize : q.size < 2 ^ 31) (c : heapq_t.Call α) :
    ∃ r w, q.call seconds c = some (r, w) ∧ r.WF seconds ∧ q.Serves seconds c r w := by
  cases c with
  | push alloc val => exact heappush_serves hq hsize alloc val
  | pop => exact heappop_serves hq

/-- Draining a heap sorts it. -/
theorem destroy_loop_sorts :
    ∀ {n : Nat} {q : heapq_t α}, q.WF seconds → q.size = n →
      ((destroy_loop seconds n q).1 : Multiset α) = q.contents ∧
        (destroy_loop seconds n q).1.Pairwise (fun x y => seconds x ≤ seconds y) ∧
          (destroy_loop seconds n q).2.size = 0 := by
  intro n
  induction n with
  | zero =>
    intro q _ hsize
    refine ⟨?_, List.Pairwise.nil, hsize⟩
    simp [destroy_loop, heapq_t.contents, hsize]
  | succ n ih =>
    intro q hq hsize
    obtain ⟨hroot, hr, hcontents, hless, _⟩ := heappop_spec hq (by omega)
    obtain ⟨hbag, hsorted, hempty⟩ := ih hr (by omega)
    have hpos : q.size > 0 := by omega
    simp only [destroy_loop]
    rw [if_pos hpos, hroot, Option.toList_some, List.singleton_append]
    refine ⟨?_, ?_, hempty⟩
    · rw [hcontents, ← hbag, Multiset.cons_coe]
    · refine List.Pairwise.cons (fun x hx => ?_) hsorted
      have hmem : x ∈ q.contents := by
        rw [hcontents, ← hbag]
        exact Multiset.mem_cons_of_mem hx
      exact hq.ordered.root_le_of_mem hmem

end Heap

/-- A heap after any calls: the array is in order, all answers were those of a
bag that gives up a least entry, and so will be the answer to the next call;
draining gives the timers in order of their deadlines. -/
theorem heapq_refines_priority {κ : Type} [LinearOrder κ] (seconds : α → κ) (block : Nat → α)
    {cs : List (heapq_t.Call α)}
    (hsize : Always (advance (heapq_t.call seconds)) (fun q => q.size < 2 ^ 31)
      (init_heapqueue block) cs) :
    ∃ q ws, answers (heapq_t.call seconds) (init_heapqueue block) cs = some (q, ws) ∧
      Admits (Priority seconds) 0 cs ws q.contents ∧
      (∀ i, 0 < i → i < q.size → seconds (q.heap ((i - 1) / 2)) ≤ seconds (q.heap i)) ∧
      (∀ c, ∃ r w, q.call seconds c = some (r, w) ∧ q.Serves seconds c r w) ∧
      ((destroy_heapqueue seconds q).1 : Multiset α) = q.contents ∧
      (destroy_heapqueue seconds q).1.Pairwise (fun x y => seconds x ≤ seconds y) ∧
      (destroy_heapqueue seconds q).2.size = 0 := by
  obtain ⟨q, ws, hanswers, hq, hlt, hadmits⟩ :=
    answers_admitted heapq_t.contents (Priority seconds)
      (fun q c hq hlt _ => by
        obtain ⟨r, w, hcall, hr, hserves⟩ := heapq_call_serves hq hlt c
        exact ⟨r, w, hcall, hr, hserves.priority⟩) (init_heapqueue_wf seconds block) hsize
      (steps_true _ _)
  refine ⟨q, ws, hanswers, hadmits, hq.ordered, fun c => ?_, destroy_loop_sorts hq rfl⟩
  obtain ⟨r, w, hcall, _, hserves⟩ := heapq_call_serves hq hlt c
  exact ⟨r, w, hcall, hserves⟩

/-- Two timers of one deadline and an earlier one, which is popped. -/
theorem heapq_refines_priority_popped : ∃ q ws,
    answers (heapq_t.call id) (init_heapqueue fun _ => 0)
      [.push true 9, .push true 9, .push false 4, .pop] = some (q, ws) ∧
      Admits (Priority id) 0 [.push true 9, .push true 9, .push false 4, .pop] ws q.contents ∧
      (∀ i, 0 < i → i < q.size → id (q.heap ((i - 1) / 2)) ≤ id (q.heap i)) ∧
      (∀ c, ∃ r w, q.call id c = some (r, w) ∧ q.Serves id c r w) ∧
      ((destroy_heapqueue id q).1 : Multiset Nat) = q.contents ∧
      (destroy_heapqueue id q).1.Pairwise (fun x y => id x ≤ id y) ∧
      (destroy_heapqueue id q).2.size = 0 := by
  refine heapq_refines_priority id _ ?_
  refine Always.cons (by decide) rfl (Always.cons (by decide) rfl ?_)
  refine Always.cons (by decide) rfl (Always.cons (by decide) rfl ?_)
  change (2 : Nat) < 2 ^ 31
  decide

end Jega.Loop
