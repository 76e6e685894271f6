import Jega.Ring.Window
import Mathlib.Algebra.Group.Nat.Defs
import Mathlib.Data.Nat.Prime.Basic

/-!
# Jega.Loop.Queue — `queue_t`

`queue.c`: a ring of pointers that doubles when it is full. The fields are
`uint32_t`. A call that does not return, because it takes a remainder by zero
or because the copy that `reindex_queue` makes of the ring does not fit on the
C stack, is `none`. `alloc` says whether `PyMem_Realloc` succeeds.
-/

namespace Jega.Loop

variable {α : Type}

/-- How many pointers the C stack has room for; `none` is no limit. -/
abbrev Stack := Option Nat

/-- There is room for an array of `n` pointers. -/
def Stack.holds (stack : Stack) (n : Nat) : Bool := stack.all (n ≤ ·)

@[simp] theorem Stack.holds_none (n : Nat) : Stack.holds none n = true := rfl

@[simp] theorem Stack.holds_some {m n : Nat} : Stack.holds (some m) n = true ↔ n ≤ m := by
  simp [Stack.holds]

structure queue_t (α : Type) where
  q : Nat → α
  first : Nat
  last : Nat
  size : Nat
  max : Nat

/-- `init_queue`; `block` is what the fresh block happens to hold. -/
def init_queue (block : Nat → α) (maxsize : Nat) : queue_t α where
  q := block
  first := 0
  last := (maxsize + (2 ^ 32 - 1)) % 2 ^ 32
  size := 0
  max := maxsize

namespace queue_t

/-- `(i + 1) % max`. -/
def next (i max : Nat) : Nat := (i + 1) % 2 ^ 32 % max

/-- `q->last = (q->last + 1) % q->max; q->q[q->last] = x`. -/
def put (q : queue_t α) (x : α) : queue_t α :=
  let last := next q.last q.max
  { q with last := last, q := Function.update q.q last x }

/-- The queued pointers, oldest first. -/
def entries (q : queue_t α) : List α := Ring.window q.q q.first q.max q.size

end queue_t

open queue_t

/-! ## The operations -/

/-- The loop of `reindex_queue`. -/
def reindex_loop (old_heap : Nat → α) (old_last old_max : Nat) :
    Nat → Nat → queue_t α → Option (Nat × queue_t α)
  | 0, _, _ => none
  | fuel + 1, i, q =>
    if i = old_last then some (i, q)
    else reindex_loop old_heap old_last old_max fuel (next i old_max) (q.put (old_heap i))

/-- `reindex_queue`. The copy `old_heap` is an array on the C stack, of `old_size`
cells: all the old ring has, for the queue is full. -/
def reindex_queue (stack : Stack) (q : queue_t α) (old_first old_last old_max old_size : Nat) :
    Option (queue_t α) :=
  if stack.holds old_size then
    (reindex_loop q.q old_last old_max (old_max + 1) old_first q).map fun r =>
      r.2.put (q.q r.1)
  else none

/-- `realloc_queue`, with its return value. -/
def realloc_queue (stack : Stack) (alloc : Bool) (q : queue_t α) : Option (queue_t α × Int) :=
  if q.size ≥ q.max then
    let maxsize := q.max * 2 % 2 ^ 32
    if !alloc then some (q, -1) -- "size over queue"
    -- doubling has wrapped to an empty ring
    else if maxsize = 0 then none
    else
      (reindex_queue stack { q with max := maxsize, first := 0, last := maxsize - 1 }
        q.first q.last q.max q.size).map fun q => (q, 1)
  else some (q, 1)

/-- `queue_push`. -/
def queue_push (stack : Stack) (alloc : Bool) (q : queue_t α) (o : α) :
    Option (queue_t α × Int) :=
  (realloc_queue stack alloc q).map fun r =>
    if r.2 = -1 then (r.1, -1) else ({ r.1.put o with size := r.1.size + 1 }, 1)

/-- `queue_push_noext`. -/
def queue_push_noext (q : queue_t α) (o : α) : queue_t α × Int :=
  if q.size ≥ q.max then (q, -1) else ({ q.put o with size := q.size + 1 }, 1)

/-- `queue_shift`. -/
def queue_shift (q : queue_t α) : Option α × queue_t α :=
  if q.size ≤ 0 then (none, q)
  else (some (q.q q.first), { q with first := next q.first q.max, size := q.size - 1 })

/-! ## The ring behind the fields -/

/-- `n` entries are in place. -/
structure queue_t.Filled (q : queue_t α) (n : Nat) : Prop where
  first_lt : q.first < q.max
  last_eq : q.last = (q.first + n + (q.max - 1)) % q.max
  le_max : n ≤ q.max
  max_lt : q.max < 2 ^ 32

/-- A queue between two calls. -/
def queue_t.WF (q : queue_t α) : Prop := q.Filled q.size

theorem next_eq {i max : Nat} (hi : i < max) (hmax : max < 2 ^ 32) :
    next i max = (i + 1) % max := by
  rw [next, Nat.mod_eq_of_lt (a := i + 1) (by omega)]

theorem next_lt {i max : Nat} (hi : i < max) : next i max < max :=
  Nat.mod_lt _ (Nat.zero_lt_of_lt hi)

variable {stack : Stack} {q q' : queue_t α} {n : Nat}

theorem queue_t.Filled.max_pos (hq : q.Filled n) : 0 < q.max := Nat.zero_lt_of_lt hq.first_lt

theorem queue_t.Filled.last_lt (hq : q.Filled n) : q.last < q.max := by
  rw [hq.last_eq]
  exact Nat.mod_lt _ hq.max_pos

/-- The place behind the last entry. -/
theorem queue_t.Filled.next_last (hq : q.Filled n) : next q.last q.max = (q.first + n) % q.max := by
  have hpos := hq.max_pos
  rw [next_eq hq.last_lt hq.max_lt, hq.last_eq, Nat.mod_add_mod]
  have hturn : q.first + n + (q.max - 1) + 1 = q.first + n + q.max := by omega
  rw [hturn, Nat.add_mod_right]

/-- `put` adds one entry behind the others. -/
theorem queue_t.Filled.put (hq : q.Filled n) (hn : n < q.max) (x : α) :
    (q.put x).Filled (n + 1) ∧
      Ring.window (q.put x).q (q.put x).first (q.put x).max (n + 1) =
        Ring.window q.q q.first q.max n ++ [x] := by
  have hplace := hq.next_last
  have hpos := hq.max_pos
  constructor
  · refine ⟨hq.first_lt, ?_, hn, hq.max_lt⟩
    simp only [queue_t.put]
    have hturn : q.first + (n + 1) + (q.max - 1) = q.first + n + q.max := by omega
    rw [hplace, hturn, Nat.add_mod_right]
  · simp only [queue_t.put]
    rw [hplace]
    exact Ring.window_push q.q hn x

@[simp] theorem put_first (q : queue_t α) (x : α) : (q.put x).first = q.first := rfl

@[simp] theorem put_max (q : queue_t α) (x : α) : (q.put x).max = q.max := rfl

@[simp] theorem put_size (q : queue_t α) (x : α) : (q.put x).size = q.size := rfl

theorem init_queue_wf (block : Nat → α) {maxsize : Nat} (hpos : 0 < maxsize)
    (hlt : maxsize < 2 ^ 32) : (init_queue block maxsize).WF := by
  refine ⟨hpos, ?_, Nat.zero_le _, hlt⟩
  simp only [init_queue]
  have hwrap : maxsize + (2 ^ 32 - 1) = maxsize - 1 + 2 ^ 32 := by omega
  rw [hwrap, Nat.add_mod_right, Nat.mod_eq_of_lt (by omega), Nat.add_zero, Nat.zero_add,
    Nat.mod_eq_of_lt (by omega)]

@[simp] theorem entries_init_queue (block : Nat → α) (maxsize : Nat) :
    (init_queue block maxsize).entries = [] := rfl

@[simp] theorem length_entries (q : queue_t α) : q.entries.length = q.size := by
  simp [queue_t.entries]

/-! ## Shift -/

/-- `queue_shift` takes the oldest entry, or gives `NULL` when there is none. -/
theorem queue_shift_spec (hq : q.WF) :
    (queue_shift q).1 = q.entries.head? ∧ (queue_shift q).2.entries = q.entries.tail ∧
      (queue_shift q).2.WF ∧ (queue_shift q).2.max = q.max := by
  unfold queue_shift
  rcases Nat.eq_zero_or_pos q.size with h0 | hpos
  · -- Case: empty
    have hnil : q.entries = [] := List.eq_nil_of_length_eq_zero (by simpa using h0)
    rw [if_pos (Nat.le_of_eq h0), hnil]
    exact ⟨rfl, rfl, hq, rfl⟩
  · -- Case: the entry at `first`
    rw [if_neg (by omega)]
    have hsize : q.size = q.size - 1 + 1 := by omega
    have hnext : next q.first q.max = (q.first + 1) % q.max := next_eq hq.first_lt hq.max_lt
    have hcons : q.entries =
        q.q q.first :: Ring.window q.q ((q.first + 1) % q.max) q.max (q.size - 1) := by
      rw [queue_t.entries, hsize]
      exact Ring.window_shift q.q hq.first_lt _
    refine ⟨by rw [hcons]; rfl, ?_, ⟨next_lt hq.first_lt, ?_, ?_, hq.max_lt⟩, rfl⟩
    · rw [hcons]
      simp only [queue_t.entries]
      rw [hnext]
      rfl
    · simp only
      rw [hnext, hq.last_eq, Nat.add_assoc ((q.first + 1) % q.max), Nat.mod_add_mod]
      congr 1
      omega
    · exact (Nat.sub_le _ _).trans hq.le_max

theorem queue_shift_some (hq : q.WF) {o : α} (h : queue_shift q = (some o, q')) :
    q.entries = o :: q'.entries ∧ q'.WF ∧ q'.max = q.max := by
  obtain ⟨hhead, htail, hwf, hmax⟩ := queue_shift_spec hq
  rw [h] at hhead htail hwf hmax
  refine ⟨?_, hwf, hmax⟩
  rw [htail]
  exact List.eq_cons_of_mem_head? hhead.symm

/-! ## Push -/

/-- The loop of `reindex_queue` puts the entries it passes, in order. -/
theorem reindex_loop_spec (old_heap : Nat → α) {old_max : Nat} (hold : old_max < 2 ^ 32) :
    ∀ (r fuel : Nat) {i : Nat} {q : queue_t α}, r < fuel → i < old_max → r < old_max →
      q.Filled n → n + r ≤ q.max →
      ∃ q', reindex_loop old_heap ((i + r) % old_max) old_max fuel i q =
          some ((i + r) % old_max, q') ∧ q'.Filled (n + r) ∧ q'.first = q.first ∧
        q'.max = q.max ∧ q'.size = q.size ∧
        Ring.window q'.q q'.first q'.max (n + r) =
          Ring.window q.q q.first q.max n ++ Ring.window old_heap i old_max r := by
  intro r
  induction r generalizing n with
  | zero =>
    intro fuel i q hfuel hi hr hq _
    obtain ⟨fuel, rfl⟩ := Nat.exists_eq_succ_of_ne_zero (by omega : fuel ≠ 0)
    rw [Nat.add_zero, Nat.mod_eq_of_lt hi, reindex_loop, if_pos rfl]
    exact ⟨q, rfl, hq, rfl, rfl, rfl, by simp⟩
  | succ r ih =>
    intro fuel i q hfuel hi hr hq hroom
    obtain ⟨fuel, rfl⟩ := Nat.exists_eq_succ_of_ne_zero (by omega : fuel ≠ 0)
    -- the last entry is still ahead
    have hne : i ≠ (i + (r + 1)) % old_max := by
      have hplace := Ring.place_ne i (Nat.succ_pos r) hr
      rwa [Nat.add_zero, Nat.mod_eq_of_lt hi] at hplace
    have hnext : next i old_max = (i + 1) % old_max := next_eq hi hold
    obtain ⟨hput, hwin⟩ := hq.put (by omega) (old_heap i)
    have hlast : (i + (r + 1)) % old_max = ((i + 1) % old_max + r) % old_max := by
      rw [Nat.mod_add_mod, Nat.add_assoc, Nat.add_comm 1 r]
    have hlt : (i + 1) % old_max < old_max := Nat.mod_lt _ (by omega)
    obtain ⟨q', hloop, hfilled, hfirst, hmax, hsize, hwindow⟩ :=
      ih fuel (q := q.put (old_heap i)) (by omega) hlt (by omega) hput
        (by rw [put_max]; omega)
    have hsum : n + (r + 1) = n + 1 + r := by omega
    rw [reindex_loop, if_neg hne, hnext, hlast, hsum]
    refine ⟨q', hloop, hfilled, hfirst, hmax, hsize, ?_⟩
    rw [hwindow, hwin, Ring.window_shift old_heap hi]
    simp

/-- Growing a full queue keeps its entries and their order. -/
theorem realloc_queue_full (hq : q.WF) (hfull : q.size = q.max) (hmax : q.max < 2 ^ 31)
    (hcopy : stack.holds q.max = true) : ∃ q', realloc_queue stack true q = some (q', 1) ∧ q'.WF ∧
      q'.entries = q.entries ∧ q'.size = q.size ∧ q'.max = 2 * q.max := by
  have hpos := hq.max_pos
  have hdouble : q.max * 2 % 2 ^ 32 = 2 * q.max := by
    rw [Nat.mod_eq_of_lt (by omega), Nat.mul_comm]
  have hlast : q.last = (q.first + (q.size - 1)) % q.max := by
    rw [hq.last_eq]
    have hturn : q.first + q.size + (q.max - 1) = q.first + (q.size - 1) + q.max := by omega
    rw [hturn, Nat.add_mod_right]
  let grown : queue_t α := { q with max := 2 * q.max, first := 0, last := 2 * q.max - 1 }
  have hgrown : grown.Filled 0 := by
    refine ⟨by simp [grown]; omega, ?_, Nat.zero_le _, by simp [grown]; omega⟩
    simp only [grown, Nat.zero_add]
    rw [Nat.mod_eq_of_lt (by omega)]
  obtain ⟨q', hloop, hfilled, hfirst, hmax', hsize', hwindow⟩ :=
    reindex_loop_spec q.q hq.max_lt (q.size - 1) (q.max + 1) (by omega) hq.first_lt
      (by omega) hgrown (by simp [grown]; omega)
  rw [← hlast] at hloop
  rw [Nat.zero_add] at hfilled hwindow
  obtain ⟨hput, hwin⟩ := hfilled.put (by rw [hmax']; simp [grown]; omega) (q.q q.last)
  have hn : q.size - 1 + 1 = q.size := by omega
  rw [hn] at hput hwin
  refine ⟨q'.put (q.q q.last), ?_, ?_, ?_, hsize', hmax'⟩
  · rw [← hfull] at hcopy
    simp only [realloc_queue, reindex_queue, hdouble]
    rw [if_pos (Nat.le_of_eq hfull.symm), if_neg (by simp), if_neg (by omega), if_pos hcopy]
    change ((reindex_loop q.q q.last q.max (q.max + 1) q.first grown).map _).map _ = _
    rw [hloop]
    rfl
  · rw [queue_t.WF, put_size, hsize']
    exact hput
  · rw [queue_t.entries, put_size, hsize']
    refine hwin.trans ?_
    rw [hwindow, Ring.window_zero, List.nil_append, queue_t.entries]
    conv_rhs => rw [← hn, Ring.window_succ, ← hlast]

/-- A ring of `max` cells can be doubled. -/
def Growable (stack : Stack) (max : Nat) : Prop := max < 2 ^ 31 ∧ stack.holds max = true

/-- `queue_push` appends, and doubles the ring when it is full. -/
theorem queue_push_spec (stack : Stack) {q : queue_t α} (hq : q.WF) (hmax : q.size < q.max ∨ Growable stack q.max) (o : α) :
    ∃ q', queue_push stack true q o = some (q', 1) ∧ q'.WF ∧ q'.entries = q.entries ++ [o] ∧
      q'.max = if q.size < q.max then q.max else 2 * q.max := by
  have hroom : ∀ r : queue_t α, r.WF → r.size < r.max →
      ({ r.put o with size := r.size + 1 } : queue_t α).WF ∧
        ({ r.put o with size := r.size + 1 } : queue_t α).entries = r.entries ++ [o] := by
    intro r hr hlt
    obtain ⟨hput, hwin⟩ := hr.put hlt o
    exact ⟨⟨hput.first_lt, hput.last_eq, hput.le_max, hput.max_lt⟩, hwin⟩
  rcases Nat.lt_or_ge q.size q.max with hlt | hge
  · -- Case: there is room
    have hsome : realloc_queue stack true q = some (q, 1) := by
      rw [realloc_queue, if_neg (by omega)]
    refine ⟨_, by rw [queue_push, hsome]; rfl, (hroom q hq hlt).1, (hroom q hq hlt).2, ?_⟩
    rw [if_pos hlt]
    rfl
  · -- Case: the ring is full
    have hfull : q.size = q.max := Nat.le_antisymm hq.le_max hge
    obtain ⟨hsmall, hcopy⟩ := hmax.resolve_left (Nat.not_lt.2 hge)
    obtain ⟨q', hsome, hq', hentries, hsize, hmax'⟩ := realloc_queue_full hq hfull hsmall hcopy
    have hlt : q'.size < q'.max := by
      have := hq.max_pos
      omega
    refine ⟨_, by rw [queue_push, hsome]; rfl, (hroom q' hq' hlt).1, ?_, ?_⟩
    · rw [(hroom q' hq' hlt).2, hentries]
    · rw [if_neg (by omega)]
      exact hmax'

/-- A power of two doubles up to the next ones. -/
theorem double_dvd {m k : Nat} (hm : m ∣ 2 ^ k) (hlt : m < 2 ^ k) : 2 * m ∣ 2 ^ k := by
  obtain ⟨j, hj, rfl⟩ := (Nat.dvd_prime_pow Nat.prime_two).1 hm
  have hj' : j < k := (Nat.pow_lt_pow_iff_right (by omega)).1 hlt
  rw [← Nat.pow_succ']
  exact Nat.pow_dvd_pow 2 hj'

/-- A push to a full ring that cannot be doubled does not return. -/
theorem queue_push_stuck (hq : q.WF) (hle : q.max ≤ 2 ^ 31) (hfull : q.max ≤ q.size)
    (hgrow : ¬ Growable stack q.max) (o : α) : queue_push stack true q o = none := by
  have hsize : q.size = q.max := Nat.le_antisymm hq.le_max hfull
  simp only [queue_push, realloc_queue]
  rw [if_pos hfull, if_neg (by simp)]
  rcases Nat.lt_or_ge q.max (2 ^ 31) with hlt | hge
  · -- Case: the copy does not fit
    have hzero : q.max * 2 % 2 ^ 32 ≠ 0 := by
      have hpos := hq.max_pos
      omega
    have hcopy : ¬ stack.holds q.size = true := fun hcopy => hgrow ⟨hlt, hsize ▸ hcopy⟩
    rw [if_neg hzero, reindex_queue, if_neg hcopy]
    rfl
  · -- Case: the size wraps
    have hzero : q.max * 2 % 2 ^ 32 = 0 := by omega
    rw [if_pos hzero]
    rfl

/-- A push that returns has appended: a ring that cannot be doubled has room. -/
theorem queue_push_cases {o : α} {r : queue_t α × Int} (hq : q.WF) (hdvd : q.max ∣ 2 ^ 31)
    (h : queue_push stack true q o = some r) :
    r.1.WF ∧ r.1.entries = q.entries ++ [o] ∧ r.1.max ∣ 2 ^ 31 := by
  have hle : q.max ≤ 2 ^ 31 := Nat.le_of_dvd (by omega) hdvd
  by_cases hmax : q.size < q.max ∨ Growable stack q.max
  · obtain ⟨q', hpush, hq', hentries, hmax'⟩ := queue_push_spec stack hq hmax o
    rw [hpush, Option.some.injEq] at h
    subst h
    refine ⟨hq', hentries, ?_⟩
    rw [hmax']
    split
    · exact hdvd
    next hfull => exact double_dvd hdvd (hmax.resolve_left hfull).1
  · rw [not_or, Nat.not_lt] at hmax
    rw [queue_push_stuck hq hle hmax.1 hmax.2] at h
    cases h

/-- The ring is no larger than the next power of two. -/
theorem queue_push_dvd {o : α} {r : queue_t α × Int} {k : Nat} (hq : q.WF)
    (hmax : q.size < q.max ∨ Growable stack q.max) (hdvd : q.max ∣ 2 ^ k) (hsize : q.size < 2 ^ k)
    (h : queue_push stack true q o = some r) :
    r.1.WF ∧ r.1.size = q.size + 1 ∧ r.1.max ∣ 2 ^ k := by
  obtain ⟨q', hpush, hq', hentries, hmax'⟩ := queue_push_spec stack hq hmax o
  rw [hpush, Option.some.injEq] at h
  subst h
  refine ⟨hq', ?_, ?_⟩
  · rw [← length_entries, hentries, List.length_append, length_entries]
    rfl
  · rw [hmax']
    split
    · exact hdvd
    · exact double_dvd hdvd (by omega)

/-- There is room below 2^31 entries, on a stack without a limit. -/
theorem queue_push_room {o : α} (hq : q.WF) (hdvd : q.max ∣ 2 ^ 31) (hsize : q.size < 2 ^ 31) :
    ∃ r, queue_push none true q o = some r := by
  have hle : q.max ≤ 2 ^ 31 := Nat.le_of_dvd (by omega) hdvd
  have hmax : q.size < q.max ∨ Growable none q.max := by
    rcases Nat.lt_or_ge q.size q.max with hlt | hge
    · exact Or.inl hlt
    · exact Or.inr ⟨by omega, rfl⟩
  obtain ⟨q', hpush, _⟩ := queue_push_spec none hq hmax o
  exact ⟨_, hpush⟩

end Jega.Loop
