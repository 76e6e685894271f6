import Jega.Heap.Sift
import Jega.Loop.Queue
import Mathlib.Algebra.Group.Nat.Defs
import Mathlib.Order.Lattice

/-!
# Jega.Loop.Heapq — `heapq_t`

`heapq.c`: an array of timers kept as a binary heap by `seconds`. A timer that
is popped is taken from the root; the last timer goes down to a leaf in its
place and from there up again.

The fields are `uint32_t`; no position reaches 2^31, so a left shift never
wraps. A call that leaves the array freed is `none`, and `alloc` says whether
`realloc` succeeds. The store of `NULL` into the cell that falls free is left
out: no cell from `size` on is read.
-/

namespace Jega.Loop

variable {α κ : Type} [LinearOrder κ]

structure heapq_t (α : Type) where
  heap : Nat → α
  size : Nat
  max : Nat

/-- `init_heapqueue`; `block` is what the fresh block happens to hold. -/
def init_heapqueue (block : Nat → α) : heapq_t α := ⟨block, 0, 1024⟩

/-- The stored timers. -/
def heapq_t.contents (q : heapq_t α) : Multiset α := Heap.contents q.heap q.size

/-! ## The operations -/

/-- The loop of `_siftdown` and the store behind it. -/
def siftdown_loop (seconds : α → κ) (newitem : α) (startpos : Nat) :
    Nat → Nat → (Nat → α) → (Nat → α)
  | 0, pos, p => Function.update p pos newitem
  | fuel + 1, pos, p =>
    if pos > startpos then
      let parentpos := (pos - 1) / 2
      if seconds newitem < seconds (p parentpos) then
        siftdown_loop seconds newitem startpos fuel parentpos (Function.update p pos (p parentpos))
      else Function.update p pos newitem
    else Function.update p pos newitem

/-- `_siftdown`. -/
def siftdown (seconds : α → κ) (q : heapq_t α) (startpos pos : Nat) : heapq_t α :=
  { q with heap := siftdown_loop seconds (q.heap pos) startpos pos pos q.heap }

/-- The loop of `_siftup`: where the hole ends, and the array. -/
def siftup_loop (seconds : α → κ) (size : Nat) : Nat → Nat → (Nat → α) → Nat × (Nat → α)
  | 0, pos, p => (pos, p)
  | fuel + 1, pos, p =>
    let childpos := 2 * pos + 1
    if childpos < size then
      let rightpos := childpos + 1
      let childpos :=
        if rightpos < size ∧ seconds (p childpos) > seconds (p rightpos) then rightpos
        else childpos
      siftup_loop seconds size fuel childpos (Function.update p pos (p childpos))
    else (pos, p)

/-- `_siftup`. -/
def siftup (seconds : α → κ) (q : heapq_t α) (pos : Nat) : heapq_t α :=
  let r := siftup_loop seconds q.size q.size pos q.heap
  siftdown seconds { q with heap := Function.update r.2 r.1 (q.heap pos) } pos r.1

/-- `heappop`. -/
def heappop (seconds : α → κ) (q : heapq_t α) : Option α × heapq_t α :=
  if q.size = 0 then (none, q)
  else
    let size := q.size - 1
    let last := q.heap size
    if size > 0 then
      (some (q.heap 0),
        siftup seconds { q with size := size, heap := Function.update q.heap 0 last } 0)
    else (some last, { q with size := size })

/-- `heappush`, with its return value. -/
def heappush (alloc : Bool) (seconds : α → κ) (q : heapq_t α) (val : α) :
    Option (heapq_t α × Int) :=
  let push (q : heapq_t α) : heapq_t α :=
    siftdown seconds { q with heap := Function.update q.heap q.size val, size := q.size + 1 }
      0 q.size
  if q.size ≥ q.max then
    let max := q.max * 2 % 2 ^ 32
    -- doubling has wrapped: the array is freed
    if max = 0 then none
    else if !alloc then some (q, -1) -- "size over timer queue"
    else some (push { q with max := max }, 1)
  else some (push q, 1)

/-! ## The heap behind the fields -/

/-- A heap between two calls. -/
structure heapq_t.WF (seconds : α → κ) (q : heapq_t α) : Prop where
  ordered : Heap.Ordered seconds q.heap q.size
  size_le : q.size ≤ q.max
  max_pos : 0 < q.max

theorem init_heapqueue_wf (seconds : α → κ) (block : Nat → α) :
    (init_heapqueue block).WF seconds where
  ordered := fun _ _ hi => absurd hi (Nat.not_lt_zero _)
  size_le := Nat.zero_le _
  max_pos := Nat.succ_pos 1023

@[simp] theorem card_contents (q : heapq_t α) : q.contents.card = q.size := by
  simp [heapq_t.contents]

variable {seconds : α → κ}

/-- `_siftdown` puts the item where it keeps the order. -/
theorem siftdown_loop_spec (newitem : α) {n : Nat} :
    ∀ {fuel pos : Nat} {p : Nat → α}, pos ≤ fuel → pos < n → Heap.Hole seconds p n pos →
      Heap.Below seconds p n pos newitem →
      Heap.Ordered seconds (siftdown_loop seconds newitem 0 fuel pos p) n ∧
        Heap.contents (siftdown_loop seconds newitem 0 fuel pos p) n =
          Heap.contents (Function.update p pos newitem) n := by
  intro fuel
  induction fuel with
  | zero =>
    intro pos p hfuel _ hhole hbelow
    rw [siftdown_loop]
    exact ⟨hhole.fill hbelow fun h0 => by omega, rfl⟩
  | succ fuel ih =>
    intro pos p hfuel hlt hhole hbelow
    rw [siftdown_loop]
    rcases Nat.eq_zero_or_pos pos with rfl | h0
    · -- Case: at the root
      rw [if_neg (Nat.lt_irrefl 0)]
      exact ⟨hhole.fill hbelow fun h0 => absurd h0 (Nat.lt_irrefl 0), rfl⟩
    rw [if_pos h0]
    simp only
    by_cases hx : seconds newitem < seconds (p ((pos - 1) / 2))
    · -- Case: the parent comes down
      rw [if_pos hx]
      obtain ⟨hhole', hbelow'⟩ := hhole.up h0 hlt hx
      obtain ⟨hord, hcont⟩ := ih (by omega) (by omega) hhole' hbelow'
      exact ⟨hord, hcont.trans (Heap.contents_move p hlt (by omega) newitem)⟩
    · -- Case: the item stays
      rw [if_neg hx]
      exact ⟨hhole.fill hbelow fun _ => not_lt.1 hx, rfl⟩

/-- `_siftup` brings the hole down to a leaf. -/
theorem siftup_loop_spec {n : Nat} :
    ∀ (fuel : Nat) {pos : Nat} {p : Nat → α}, n ≤ pos + fuel → pos < n → Heap.Hole seconds p n pos →
      ∃ pos' p', siftup_loop seconds n fuel pos p = (pos', p') ∧ pos' < n ∧ n ≤ 2 * pos' + 1 ∧
        Heap.Hole seconds p' n pos' ∧
        ∀ x, Heap.contents (Function.update p' pos' x) n =
          Heap.contents (Function.update p pos x) n := by
  intro fuel
  induction fuel with
  | zero =>
    intro pos p hfuel hlt _
    omega
  | succ fuel ih =>
    intro pos p hfuel hlt hhole
    by_cases hchild : 2 * pos + 1 < n
    · let c := if 2 * pos + 1 + 1 < n ∧ seconds (p (2 * pos + 1)) > seconds (p (2 * pos + 1 + 1))
        then 2 * pos + 1 + 1 else 2 * pos + 1
      have hcase : (c = 2 * pos + 1 + 1 ∧ 2 * pos + 1 + 1 < n ∧
          seconds (p (2 * pos + 1)) > seconds (p (2 * pos + 1 + 1))) ∨
          (c = 2 * pos + 1 ∧ (2 * pos + 1 + 1 < n →
            seconds (p (2 * pos + 1)) ≤ seconds (p (2 * pos + 1 + 1)))) := by
        by_cases hright :
            2 * pos + 1 + 1 < n ∧ seconds (p (2 * pos + 1)) > seconds (p (2 * pos + 1 + 1))
        · exact Or.inl ⟨if_pos hright, hright⟩
        · exact Or.inr ⟨if_neg hright, fun hlt => not_lt.1 fun hgt => hright ⟨hlt, hgt⟩⟩
      have hc : c < n ∧ 0 < c ∧ (c - 1) / 2 = pos ∧ pos < c := by omega
      have hleast : ∀ d, 0 < d → d < n → (d - 1) / 2 = pos → seconds (p c) ≤ seconds (p d) := by
        intro d hd0 hd hpar
        have hd' : d = 2 * pos + 1 ∨ d = 2 * pos + 1 + 1 := by omega
        rcases hcase with ⟨hc, _, hgt⟩ | ⟨hc, hle⟩ <;> rcases hd' with rfl | rfl <;> rw [hc]
        · exact hgt.le
        · exact hle hd
      obtain ⟨pos', p', hloop, hlt', hleaf, hhole', hcont⟩ :=
        ih (by omega) hc.1 (hhole.down hc.2.1 hc.1 hc.2.2.1 hleast)
      refine ⟨pos', p', ?_, hlt', hleaf, hhole', fun x => ?_⟩
      · rw [siftup_loop]
        simp only
        rw [if_pos hchild]
        exact hloop
      · exact (hcont x).trans (Heap.contents_move p hlt hc.1 x)
    · refine ⟨pos, p, ?_, hlt, by omega, hhole, fun _ => rfl⟩
      rw [siftup_loop]
      simp only
      rw [if_neg hchild]

/-- `heappop` takes a timer that no other is before. -/
theorem heappop_spec {q : heapq_t α} (hq : q.WF seconds) (hpos : 0 < q.size) :
    (heappop seconds q).1 = some (q.heap 0) ∧ (heappop seconds q).2.WF seconds ∧
      q.contents = q.heap 0 ::ₘ (heappop seconds q).2.contents ∧
      (heappop seconds q).2.size = q.size - 1 ∧ (heappop seconds q).2.max = q.max := by
  have hsize : q.size - 1 + 1 = q.size := by omega
  unfold heappop
  simp only
  rw [if_neg (by omega)]
  rcases Nat.eq_zero_or_pos (q.size - 1) with h0 | hmany
  · -- Case: the only timer
    rw [if_neg (by omega), h0]
    refine ⟨rfl, ⟨fun _ _ hi => absurd hi (Nat.not_lt_zero _), Nat.zero_le _, hq.max_pos⟩, ?_,
      rfl, rfl⟩
    simp only [heapq_t.contents]
    rw [← hsize, h0, Heap.contents_succ]
  · -- Case: the last timer takes the place of the first
    rw [if_pos hmany]
    have hord : Heap.Ordered seconds q.heap (q.size - 1) := hq.ordered.mono (Nat.sub_le _ _)
    have hroot : Heap.Hole seconds (Function.update q.heap 0 (q.heap (q.size - 1)))
        (q.size - 1) 0 := by
      refine ⟨fun i hi0 hi hne hp => ?_, fun h0 => absurd h0 (Nat.lt_irrefl 0)⟩
      rw [Function.update_of_ne hne, Function.update_of_ne hp]
      exact hord i hi0 hi
    obtain ⟨pos', p', hloop, hlt', hleaf, hhole', hcont⟩ :=
      siftup_loop_spec (q.size - 1) (by omega) hmany hroot
    have hfilled : Heap.Hole seconds (Function.update p' pos' (q.heap (q.size - 1)))
        (q.size - 1) pos' := by
      refine ⟨fun i hi0 hi hne hp => ?_, fun h0 c hc0 hc hpar => by omega⟩
      rw [Function.update_of_ne hne, Function.update_of_ne hp]
      exact hhole'.off i hi0 hi hne hp
    obtain ⟨hordered, hcontents⟩ :=
      siftdown_loop_spec (q.heap (q.size - 1)) (Nat.le_refl pos') hlt' hfilled
        (fun c hc0 hc hpar => by omega)
    have hres : (siftup seconds
        { q with size := q.size - 1, heap := Function.update q.heap 0 (q.heap (q.size - 1)) } 0) =
        { q with
          size := q.size - 1
          heap := siftdown_loop seconds (q.heap (q.size - 1)) 0 pos' pos'
            (Function.update p' pos' (q.heap (q.size - 1))) } := by
      simp [siftup, siftdown, hloop]
    rw [hres]
    refine ⟨rfl, ⟨hordered, (Nat.sub_le _ _).trans hq.size_le, hq.max_pos⟩, ?_, rfl, rfl⟩
    simp only [heapq_t.contents]
    rw [hcontents, Function.update_idem, hcont, Function.update_idem, Heap.contents_cut, hsize]

/-- `heappush` adds its timer. -/
theorem heappush_spec {q : heapq_t α} (hq : q.WF seconds) (hmax : q.size < 2 ^ 31) (val : α) :
    ∃ q', heappush true seconds q val = some (q', 1) ∧ q'.WF seconds ∧
      q'.contents = val ::ₘ q.contents ∧ q'.size = q.size + 1 := by
  -- the new timer comes to the end of the array, where it has no children
  have hpush : ∀ r : heapq_t α, r.WF seconds → r.size < r.max →
      let r' := siftdown seconds
        { r with heap := Function.update r.heap r.size val, size := r.size + 1 } 0 r.size
      r'.WF seconds ∧ r'.contents = val ::ₘ r.contents ∧ r'.size = r.size + 1 := by
    intro r hr hroom
    have hhole : Heap.Hole seconds (Function.update r.heap r.size val) (r.size + 1) r.size := by
      refine ⟨fun i hi0 hi hne hp => ?_, fun h0 c hc0 hc hpar => by omega⟩
      rw [Function.update_of_ne hne, Function.update_of_ne hp]
      exact hr.ordered i hi0 (by omega)
    obtain ⟨hordered, hcontents⟩ :=
      siftdown_loop_spec val (Nat.le_refl r.size) (Nat.lt_succ_self _) hhole
        (fun c hc0 hc hpar => by omega)
    have hkeep : Heap.contents (Function.update r.heap r.size val) r.size =
        Heap.contents r.heap r.size := by
      apply Heap.contents_congr
      intro i hi
      rw [Function.update_of_ne (Nat.ne_of_lt hi)]
    refine ⟨⟨?_, hroom, hr.max_pos⟩, ?_, rfl⟩
    · simpa [siftdown] using hordered
    · simp only [heapq_t.contents, siftdown, Function.update_self]
      rw [hcontents, Function.update_idem, Heap.contents_succ, Function.update_self, hkeep]
  unfold heappush
  simp only
  rcases Nat.lt_or_ge q.size q.max with hlt | hge
  · -- Case: there is room
    rw [if_neg (by omega)]
    exact ⟨_, rfl, hpush q hq hlt⟩
  · -- Case: the array grows
    have hpos := hq.max_pos
    have hle := hq.size_le
    have hdouble : q.max * 2 % 2 ^ 32 = 2 * q.max := by
      rw [Nat.mod_eq_of_lt (by omega), Nat.mul_comm]
    rw [if_pos hge, hdouble, if_neg (by omega), if_neg (by simp)]
    refine ⟨_, rfl, hpush { q with max := 2 * q.max } ⟨hq.ordered, ?_, ?_⟩ ?_⟩
    · simp only
      omega
    · simp only
      omega
    · simp only
      omega

/-! ## Sizes, whatever the order -/

/-- The array has room for its timers, and doubling it ends at 2^31. -/
structure heapq_t.Sized (q : heapq_t α) : Prop where
  size_le : q.size ≤ q.max
  max_dvd : q.max ∣ 2 ^ 31

theorem init_heapqueue_sized (block : Nat → α) : (init_heapqueue block).Sized where
  size_le := Nat.zero_le _
  max_dvd := by
    simp only [init_heapqueue]
    omega

@[simp] theorem heappop_size (seconds : α → κ) (q : heapq_t α) :
    (heappop seconds q).2.size = q.size - 1 := by
  unfold heappop
  simp only
  split
  next h0 =>
    simp only
    omega
  · split <;> rfl

@[simp] theorem heappop_max (seconds : α → κ) (q : heapq_t α) :
    (heappop seconds q).2.max = q.max := by
  unfold heappop
  simp only
  split
  · rfl
  · split <;> rfl

theorem heapq_t.Sized.heappop {q : heapq_t α} (hq : q.Sized) (seconds : α → κ) :
    (heappop seconds q).2.Sized := by
  refine ⟨?_, ?_⟩
  · rw [heappop_size, heappop_max]
    exact (Nat.sub_le _ _).trans hq.size_le
  · rw [heappop_max]
    exact hq.max_dvd

/-- A push that returns has added a timer. -/
theorem heappush_sized {q : heapq_t α} (hq : q.Sized) {val : α} {r : heapq_t α × Int}
    (h : heappush true seconds q val = some r) : r.1.Sized ∧ r.1.size = q.size + 1 := by
  have hle := hq.size_le
  have hmax : q.max ≤ 2 ^ 31 := Nat.le_of_dvd (by omega) hq.max_dvd
  unfold heappush at h
  simp only at h
  split at h
  next hfull =>
    split at h
    · cases h
    next hzero =>
      have hlt : q.max < 2 ^ 31 := by omega
      have hpos : 0 < q.max := Nat.pos_of_dvd_of_pos hq.max_dvd (by omega)
      have hdouble : q.max * 2 % 2 ^ 32 = 2 * q.max := by
        rw [Nat.mod_eq_of_lt (by omega), Nat.mul_comm]
      rw [if_neg (by simp), Option.some.injEq] at h
      subst h
      refine ⟨⟨?_, ?_⟩, rfl⟩
      · simp only [siftdown, hdouble]
        omega
      · simp only [siftdown, hdouble]
        exact double_dvd hq.max_dvd hlt
  next hroom =>
    rw [Option.some.injEq] at h
    subst h
    refine ⟨⟨?_, hq.max_dvd⟩, rfl⟩
    simp only [siftdown]
    omega

/-- A push that returns has added its timer: at 2^31 timers it does not return. -/
theorem heappush_some {q : heapq_t α} (hq : q.WF seconds) (hs : q.Sized) {val : α}
    {r : heapq_t α × Int} (h : heappush true seconds q val = some r) :
    r.1.WF seconds ∧ r.1.contents = val ::ₘ q.contents := by
  have hle := hs.size_le
  have hmax : q.max ≤ 2 ^ 31 := Nat.le_of_dvd (by omega) hs.max_dvd
  rcases Nat.lt_or_ge q.size (2 ^ 31) with hlt | hge
  · obtain ⟨q', hpush, hwf, hcontents, _⟩ := heappush_spec hq hlt val
    rw [hpush, Option.some.injEq] at h
    subst h
    exact ⟨hwf, hcontents⟩
  · have hzero : q.max * 2 % 2 ^ 32 = 0 := by omega
    unfold heappush at h
    simp only at h
    rw [if_pos (by omega), if_pos hzero] at h
    cases h

/-- There is room below 2^31 timers. -/
theorem heappush_room (seconds : α → κ) {q : heapq_t α} (hq : q.Sized) (hsize : q.size < 2 ^ 31) (val : α) :
    ∃ r, heappush true seconds q val = some r := by
  have hle := hq.size_le
  have hmax : q.max ≤ 2 ^ 31 := Nat.le_of_dvd (by omega) hq.max_dvd
  have hpos : 0 < q.max := Nat.pos_of_dvd_of_pos hq.max_dvd (by omega)
  unfold heappush
  simp only
  split
  · rw [if_neg (by omega), if_neg (by simp)]
    exact ⟨_, rfl⟩
  · exact ⟨_, rfl⟩

/-! ## Contents, whatever the order -/

theorem siftdown_loop_contents (newitem : α) {n : Nat} :
    ∀ (fuel : Nat) {pos : Nat} {p : Nat → α}, pos < n →
      Heap.contents (siftdown_loop seconds newitem 0 fuel pos p) n =
        Heap.contents (Function.update p pos newitem) n := by
  intro fuel
  induction fuel with
  | zero =>
    intro pos p _
    rfl
  | succ fuel ih =>
    intro pos p hlt
    rw [siftdown_loop]
    simp only
    split
    · split
      · -- Case: the parent comes down
        have hparent : (pos - 1) / 2 < n := by omega
        rw [ih hparent]
        exact Heap.contents_move p hlt hparent newitem
      · rfl
    · rfl

theorem siftup_loop_contents {n : Nat} :
    ∀ (fuel : Nat) {pos : Nat} {p : Nat → α}, pos < n →
      (siftup_loop seconds n fuel pos p).1 < n ∧
        ∀ x, Heap.contents (Function.update (siftup_loop seconds n fuel pos p).2
          (siftup_loop seconds n fuel pos p).1 x) n = Heap.contents (Function.update p pos x) n := by
  intro fuel
  induction fuel with
  | zero =>
    intro pos p hlt
    exact ⟨hlt, fun _ => rfl⟩
  | succ fuel ih =>
    intro pos p hlt
    rw [siftup_loop]
    simp only
    split
    · -- Case: a child comes up
      rename_i hchild
      generalize hc : (if 2 * pos + 1 + 1 < n ∧
        seconds (p (2 * pos + 1)) > seconds (p (2 * pos + 1 + 1)) then 2 * pos + 1 + 1
        else 2 * pos + 1) = c
      have hcn : c < n := by
        rw [← hc]
        split
        · rename_i hright
          exact hright.1
        · exact hchild
      obtain ⟨hend, hcont⟩ := @ih c (Function.update p pos (p c)) hcn
      refine ⟨hend, fun x => ?_⟩
      rw [hcont x]
      exact Heap.contents_move p hlt hcn x
    · exact ⟨hlt, fun _ => rfl⟩

/-- `heappop` takes the first timer. -/
theorem heappop_contents (seconds : α → κ) {q : heapq_t α} (hpos : 0 < q.size) :
    q.contents = q.heap 0 ::ₘ (heappop seconds q).2.contents := by
  have hsize : q.size - 1 + 1 = q.size := by omega
  unfold heappop
  simp only
  rw [if_neg (by omega)]
  rcases Nat.eq_zero_or_pos (q.size - 1) with h0 | hmany
  · rw [if_neg (by omega), h0]
    simp only [heapq_t.contents]
    rw [← hsize, h0, Heap.contents_succ]
  · rw [if_pos hmany]
    obtain ⟨hend, hcont⟩ := @siftup_loop_contents α _ _ seconds (q.size - 1) (q.size - 1) 0
      (Function.update q.heap 0 (q.heap (q.size - 1))) hmany
    simp only [heapq_t.contents, siftup, siftdown, Function.update_self]
    rw [siftdown_loop_contents _ _ hend, Function.update_idem, hcont, Function.update_idem,
      Heap.contents_cut, hsize]

/-- `heappush` adds its timer. -/
theorem heappush_contents {q : heapq_t α} {val : α} {r : heapq_t α × Int}
    (h : heappush true seconds q val = some r) : r.1.contents = val ::ₘ q.contents := by
  have hpush : ∀ q' : heapq_t α, q'.heap = q.heap → q'.size = q.size →
      (siftdown seconds
        { q' with heap := Function.update q'.heap q'.size val, size := q'.size + 1 } 0
        q'.size).contents = val ::ₘ q.contents := by
    intro q' hheap hsize
    have hkeep : Heap.contents (Function.update q.heap q.size val) q.size =
        Heap.contents q.heap q.size := by
      apply Heap.contents_congr
      intro i hi
      rw [Function.update_of_ne (Nat.ne_of_lt hi)]
    simp only [heapq_t.contents, siftdown, Function.update_self]
    rw [siftdown_loop_contents _ _ (Nat.lt_succ_self _), Function.update_idem, hheap, hsize,
      Heap.contents_succ, Function.update_self, hkeep]
  unfold heappush at h
  simp only at h
  split at h
  · split at h
    · cases h
    · rw [if_neg (by simp), Option.some.injEq] at h
      subst h
      exact hpush { q with max := q.max * 2 % 2 ^ 32 } rfl rfl
  · rw [Option.some.injEq] at h
    subst h
    exact hpush q rfl rfl

end Jega.Loop
