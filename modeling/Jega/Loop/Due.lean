import Jega.Loop.Leaving

/-!
# Jega.Loop.Due — what `fire_timers` moves

One call of `fire_timers` takes the cancelled timers off the top of the heap
and moves the due ones to the queue, in order of their deadlines. A full queue
is doubled, and its entries are copied over the C stack: where the stack has no
room for them, or doubling wraps, the call does not return.
-/

namespace Jega.Loop

open Trace

variable {κ : Type}

/-! ## The statement -/

/-- The timers of the heap that are due, the cancelled ones left out. -/
def St.due (s : St κ) (now : Int) : Multiset Hid :=
  s.scheduled.contents.filter fun o => (s.objs o).cancelled = false ∧ s.seconds o ≤ now

/-- `s'` is `s` with its timers moved. -/
structure Moves (now : Int) (s s' : St κ) : Prop where
  objs : s'.objs = s.objs
  /-- Some cancelled timers are gone, and counted off. -/
  dropped : ∃ gone : Multiset Hid, (∀ o ∈ gone, (s.objs o).cancelled = true) ∧
    s.scheduled.contents = s.due now + gone + s'.scheduled.contents ∧
      s'.activecnt = s.activecnt - UInt32.ofNat gone.card
  /-- The due ones are queued, the earliest deadline first. -/
  queued : ∃ fired : List Hid, s'.pendings.entries = s.pendings.entries ++ fired ∧
    (fired : Multiset Hid) = s.due now ∧ fired.Pairwise fun x y => s.seconds x ≤ s.seconds y
  heap : s'.scheduled.WF s'.seconds
  least : 0 < s'.scheduled.size →
    (s'.objs (s'.scheduled.heap 0)).cancelled = false ∧ now < s'.seconds (s'.scheduled.heap 0)

/-- What that means for the other timers. -/
structure Moved (now : Int) (s s' : St κ) : Prop extends Moves now s s' where
  stays : ∀ o, (s.objs o).cancelled = false → now < s.seconds o →
    s'.scheduled.contents.count o = s.scheduled.contents.count o
  emptied : (∀ o ∈ s.scheduled.contents, (s.objs o).cancelled = true) → s'.scheduled.size = 0

/-- A queue of `max` cells can come to hold `n` entries: each ring that is
outgrown on the way can be doubled. -/
def CanHold (stack : Stack) (max n : Nat) : Prop :=
  ∀ j, max * 2 ^ j < n → Growable stack (max * 2 ^ j)

variable {stack : Stack} {now : Int} {s r s' : St κ} {o : Hid}

theorem mem_due : o ∈ s.due now ↔
    o ∈ s.scheduled.contents ∧ (s.objs o).cancelled = false ∧ s.seconds o ≤ now :=
  Multiset.mem_filter

theorem Moves.moved (h : Moves now s s') : Moved now s s' := by
  obtain ⟨gone, hgone, hcontents, _⟩ := h.dropped
  refine ⟨h, fun o hlive hlater => ?_, fun hall => ?_⟩
  · -- neither due nor cancelled
    have hdue : (s.due now).count o = 0 := by
      refine Multiset.count_eq_zero_of_notMem fun hmem => ?_
      have hle := (mem_due.1 hmem).2.2
      omega
    have hkept : gone.count o = 0 := by
      refine Multiset.count_eq_zero_of_notMem fun hmem => ?_
      rw [hgone o hmem] at hlive
      cases hlive
    rw [hcontents, Multiset.count_add, Multiset.count_add, hdue, hkept, Nat.zero_add]
  · by_contra hne
    have hpos : 0 < s'.scheduled.size := Nat.pos_of_ne_zero hne
    have htop : s'.scheduled.heap 0 ∈ s'.scheduled.contents := Heap.mem_contents.2 ⟨0, hpos, rfl⟩
    have hmem : s'.scheduled.heap 0 ∈ s.scheduled.contents := by
      rw [hcontents]
      exact Multiset.mem_add.2 (Or.inr htop)
    have hlive := (h.least hpos).1
    rw [h.objs, hall _ hmem] at hlive
    cases hlive

/-! ## One round -/

/-- The loop ends at a timer that is neither cancelled nor due: no later one is due. -/
theorem Moves.rest (hq : s.scheduled.WF s.seconds)
    (hleast : 0 < s.scheduled.size →
      (s.objs (s.scheduled.heap 0)).cancelled = false ∧ now < s.seconds (s.scheduled.heap 0)) :
    Moves now s s ∧ s.due now = 0 := by
  have hnone : s.due now = 0 := by
    refine Multiset.filter_eq_nil.2 fun o ho => ?_
    rintro ⟨_, hle⟩
    obtain ⟨i, hi, _⟩ := Heap.mem_contents.1 ho
    have hroot := hq.ordered.root_le_of_mem ho
    have hlater := (hleast (Nat.zero_lt_of_lt hi)).2
    omega
  refine ⟨⟨rfl, ⟨0, by simp, by simp [hnone], (UInt32.sub_zero _).symm⟩, ?_, hq, hleast⟩, hnone⟩
  exact ⟨[], (List.append_nil _).symm, by simp [hnone], List.Pairwise.nil⟩

/-- `r` is `s` without the first timer of its heap. -/
structure Popped (s r : St κ) : Prop where
  pos : 0 < s.scheduled.size
  objs : r.objs = s.objs
  state : r.state = s.state
  scheduled : r.scheduled = (heappop s.seconds s.scheduled).2

theorem Popped.seconds (hp : Popped s r) : r.seconds = s.seconds := by
  unfold St.seconds
  rw [hp.objs]

theorem Popped.contents (hp : Popped s r) :
    s.scheduled.contents = s.scheduled.heap 0 ::ₘ r.scheduled.contents := by
  rw [hp.scheduled]
  exact heappop_contents s.seconds hp.pos

theorem Popped.size (hp : Popped s r) : r.scheduled.size = s.scheduled.size - 1 := by
  rw [hp.scheduled, heappop_size]

theorem Popped.wf (hp : Popped s r) (hq : s.scheduled.WF s.seconds) :
    r.scheduled.WF r.seconds := by
  rw [hp.scheduled, hp.seconds]
  exact (heappop_spec hq hp.pos).2.1

theorem Popped.sized (hp : Popped s r) (hs : Sized s)
    (hpend : r.pendings.WF ∧ r.pendings.max ∣ 2 ^ 31) : Sized r := by
  refine ⟨hpend.1, hpend.2, ?_⟩
  rw [hp.scheduled]
  exact hs.scheduled.heappop s.seconds

/-- The first timer was cancelled. -/
theorem Popped.due_drop (hp : Popped s r)
    (hcancelled : (s.objs (s.scheduled.heap 0)).cancelled = true) : s.due now = r.due now := by
  unfold St.due
  rw [hp.contents, hp.objs, hp.seconds, Multiset.filter_cons_of_neg]
  simp [hcancelled]

/-- The first timer was due. -/
theorem Popped.due_expire (hp : Popped s r)
    (hlive : (s.objs (s.scheduled.heap 0)).cancelled = false)
    (hdue : s.seconds (s.scheduled.heap 0) ≤ now) :
    s.due now = s.scheduled.heap 0 ::ₘ r.due now := by
  unfold St.due
  rw [hp.contents, hp.objs, hp.seconds, Multiset.filter_cons_of_pos]
  exact ⟨hlive, hdue⟩

/-- A round that drops a cancelled timer. -/
theorem Moves.drop (hp : Popped s r) (hpend : r.pendings = s.pendings)
    (hcount : r.activecnt = s.activecnt - 1)
    (hcancelled : (s.objs (s.scheduled.heap 0)).cancelled = true) (h : Moves now r s') :
    Moves now s s' := by
  have hdue : s.due now = r.due now := hp.due_drop hcancelled
  obtain ⟨gone, hgone, hrest, hactivecnt⟩ := h.dropped
  obtain ⟨fired, hqueue, hfired, hsorted⟩ := h.queued
  rw [hp.objs] at hgone
  rw [hp.seconds] at hsorted
  refine ⟨h.objs.trans hp.objs, ⟨s.scheduled.heap 0 ::ₘ gone, ?_, ?_, ?_⟩,
    ⟨fired, ?_, ?_, hsorted⟩, h.heap, h.least⟩
  · intro x hx
    rcases Multiset.mem_cons.1 hx with rfl | hx
    · exact hcancelled
    · exact hgone x hx
  · rw [hp.contents, hrest, hdue, Multiset.add_cons, Multiset.cons_add]
  · have hsucc : UInt32.ofNat (gone.card + 1) = 1 + UInt32.ofNat gone.card := by
      rw [Nat.add_comm, UInt32.ofNat_add]
      rfl
    rw [hactivecnt, hcount, Multiset.card_cons, hsucc, sub_add_one]
  · rw [hqueue, hpend]
  · rw [hfired, hdue]

/-- A round that queues a due timer. -/
theorem Moves.expire (hp : Popped s r) (hq : s.scheduled.WF s.seconds)
    (hentries : r.pendings.entries = s.pendings.entries ++ [s.scheduled.heap 0])
    (hcount : r.activecnt = s.activecnt)
    (hlive : (s.objs (s.scheduled.heap 0)).cancelled = false)
    (hdue : s.seconds (s.scheduled.heap 0) ≤ now) (h : Moves now r s') : Moves now s s' := by
  have hcons := hp.due_expire hlive hdue
  obtain ⟨gone, hgone, hrest, hactivecnt⟩ := h.dropped
  obtain ⟨fired, hqueue, hfired, hsorted⟩ := h.queued
  rw [hp.objs] at hgone
  rw [hp.seconds] at hsorted
  refine ⟨h.objs.trans hp.objs, ⟨gone, hgone, ?_, ?_⟩, ⟨s.scheduled.heap 0 :: fired, ?_, ?_, ?_⟩,
    h.heap, h.least⟩
  · rw [hp.contents, hrest, hcons, Multiset.cons_add, Multiset.cons_add]
  · rw [hactivecnt, hcount]
  · rw [hqueue, hentries, List.append_assoc, List.singleton_append]
  · rw [hcons, ← hfired, Multiset.cons_coe]
  · -- the heap gives up its timers in order
    refine List.Pairwise.cons (fun x hx => ?_) hsorted
    have hmem : x ∈ r.due now := by
      rw [← hfired]
      exact hx
    have hin : x ∈ s.scheduled.contents := by
      rw [hp.contents]
      exact Multiset.mem_cons_of_mem (mem_due.1 hmem).1
    exact hq.ordered.root_le_of_mem hin

/-! ## The loop -/

/-- The first ring, and the rest. -/
theorem canHold_iff {max n : Nat} :
    CanHold stack max n ↔ (max < n → Growable stack max) ∧ CanHold stack (2 * max) n := by
  constructor
  · intro h
    refine ⟨fun hlt => ?_, fun j hj => ?_⟩
    · have hzero := h 0
      rw [Nat.pow_zero, Nat.mul_one] at hzero
      exact hzero hlt
    · have hsucc := h (j + 1)
      rw [Nat.pow_succ', ← Nat.mul_assoc, Nat.mul_comm max 2] at hsucc
      exact hsucc hj
  · rintro ⟨hfirst, hrest⟩ j hj
    cases j with
    | zero =>
      rw [Nat.pow_zero, Nat.mul_one] at hj ⊢
      exact hfirst hj
    | succ j =>
      rw [Nat.pow_succ', ← Nat.mul_assoc, Nat.mul_comm max 2] at hj ⊢
      exact hrest j hj

/-- What the queue holds, it can hold. -/
theorem Sized.canHold (hs : Sized s) : CanHold stack s.pendings.max s.pendings.size := by
  intro j hj
  have hle := hs.pendings.le_max
  have hgrown := Nat.le_mul_of_pos_right s.pendings.max (Nat.two_pow_pos j)
  omega

theorem Sized.max_le (hs : Sized s) : s.pendings.max ≤ 2 ^ 31 :=
  Nat.le_of_dvd (by omega) hs.pendings_dvd

/-- The first timer is cancelled. -/
theorem round_drop (now : Int) (n : Nat) (hpos : 0 < s.scheduled.size)
    (hrun : s.state = .L_RUNNING) (hcancelled : (s.objs (s.scheduled.heap 0)).cancelled = true) :
    ∃ r, fire_timers_loop stack now (n + 1) s = fire_timers_loop stack now n r ∧ Popped s r ∧
      r.pendings = s.pendings ∧ r.activecnt = s.activecnt - 1 := by
  refine ⟨{ s with scheduled := (heappop s.seconds s.scheduled).2 }.decr.note
    (.drop (s.scheduled.heap 0)), ?_, ⟨hpos, rfl, rfl, rfl⟩, rfl, rfl⟩
  rw [fire_timers_loop]
  simp only
  rw [if_pos ⟨hpos, hrun⟩, if_pos hcancelled]

/-- The first timer is due, and there is room for it. -/
theorem round_expire (now : Int) (n : Nat) (hs : Sized s) (hpos : 0 < s.scheduled.size)
    (hrun : s.state = .L_RUNNING) (hlive : (s.objs (s.scheduled.heap 0)).cancelled = false)
    (hdue : (s.objs (s.scheduled.heap 0)).seconds ≤ now)
    (hroom : s.pendings.size < s.pendings.max ∨ Growable stack s.pendings.max) :
    ∃ r, fire_timers_loop stack now (n + 1) s = fire_timers_loop stack now n r ∧ Popped s r ∧ Sized r ∧
      r.pendings.size = s.pendings.size + 1 ∧
      r.pendings.entries = s.pendings.entries ++ [s.scheduled.heap 0] ∧
      (r.pendings.max = if s.pendings.size < s.pendings.max then s.pendings.max
        else 2 * s.pendings.max) ∧ r.activecnt = s.activecnt := by
  obtain ⟨q, hpush, _, _, hmax⟩ := queue_push_spec stack hs.pendings hroom (s.scheduled.heap 0)
  obtain ⟨hqwf, hqsize⟩ := hs.push hpush
  obtain ⟨_, hentries, _⟩ := queue_push_cases hs.pendings hs.pendings_dvd hpush
  have hp : Popped s ({ s with
      scheduled := (heappop s.seconds s.scheduled).2, pendings := q }.note
        (.expire (s.scheduled.heap 0))) := ⟨hpos, rfl, rfl, rfl⟩
  refine ⟨_, ?_, hp, hp.sized hs hqwf, hqsize, hentries, hmax, rfl⟩
  rw [fire_timers_loop]
  simp only
  rw [if_pos ⟨hpos, hrun⟩, hlive, if_neg Bool.false_ne_true, if_pos hdue, hpush, Option.bind_some]

/-- The first timer is due, and the queue is full and cannot be doubled. -/
theorem round_full (now : Int) (n : Nat) (hs : Sized s) (hpos : 0 < s.scheduled.size)
    (hrun : s.state = .L_RUNNING) (hlive : (s.objs (s.scheduled.heap 0)).cancelled = false)
    (hdue : (s.objs (s.scheduled.heap 0)).seconds ≤ now)
    (hfull : s.pendings.max ≤ s.pendings.size) (hgrow : ¬ Growable stack s.pendings.max) :
    fire_timers_loop stack now (n + 1) s = none := by
  rw [fire_timers_loop]
  simp only
  rw [if_pos ⟨hpos, hrun⟩, hlive, if_neg Bool.false_ne_true, if_pos hdue,
    queue_push_stuck hs.pendings hs.max_le hfull hgrow, Option.bind_none]

/-- The first timer is later. -/
theorem round_later (now : Int) (n : Nat) (hpos : 0 < s.scheduled.size)
    (hrun : s.state = .L_RUNNING) (hlive : (s.objs (s.scheduled.heap 0)).cancelled = false)
    (hlater : now < (s.objs (s.scheduled.heap 0)).seconds) :
    fire_timers_loop stack now (n + 1) s = some s := by
  rw [fire_timers_loop]
  simp only
  rw [if_pos ⟨hpos, hrun⟩, hlive, if_neg Bool.false_ne_true, if_neg (Int.not_le.2 hlater)]

/-- The loop of `fire_timers` moves the timers, or ends up pushing to a full queue
that cannot be doubled. -/
theorem fire_timers_loop_moves (stack : Stack) (now : Int) (n : Nat) :
    ∀ {s : St κ}, Sized s → s.scheduled.WF s.seconds → s.state = .L_RUNNING →
      s.scheduled.size = n →
      (∃ s', fire_timers_loop stack now n s = some s' ∧ Moves now s s' ∧
        CanHold stack s.pendings.max (s.pendings.size + (s.due now).card)) ∨
      (fire_timers_loop stack now n s = none ∧
        ¬ CanHold stack s.pendings.max (s.pendings.size + (s.due now).card)) := by
  -- by induction on the number of timers: each round but the last takes one off the heap
  induction n with
  | zero =>
    intro s hs hq _ hsize
    obtain ⟨hrest, hnone⟩ : Moves now s s ∧ s.due now = 0 := Moves.rest hq (by omega)
    refine Or.inl ⟨s, rfl, hrest, ?_⟩
    rw [hnone, Multiset.card_zero]
    exact hs.canHold
  | succ n ih =>
    intro s hs hq hrun hsize
    have hpos : 0 < s.scheduled.size := by omega
    cases hcancelled : (s.objs (s.scheduled.heap 0)).cancelled with
    | true =>
      obtain ⟨r, hround, hp, hpend, hcount⟩ := round_drop now n hpos hrun hcancelled
      have hsr : Sized r := hp.sized hs (hpend ▸ ⟨hs.pendings, hs.pendings_dvd⟩)
      have hrn : r.scheduled.size = n := by
        rw [hp.size]
        omega
      rw [hround, hp.due_drop hcancelled, ← hpend]
      rcases ih hsr (hp.wf hq) (hp.state.trans hrun) hrn with ⟨s', hs', hm, hroom⟩ | hfull
      · exact Or.inl ⟨s', hs', hm.drop hp hpend hcount hcancelled, hroom⟩
      · exact Or.inr hfull
    | false =>
      rcases lt_or_ge now (s.objs (s.scheduled.heap 0)).seconds with hlater | hdue
      · -- Case: no timer is due any more
        obtain ⟨hrest, hnone⟩ := Moves.rest hq fun _ => ⟨hcancelled, hlater⟩
        refine Or.inl ⟨s, round_later now n hpos hrun hcancelled hlater, hrest, ?_⟩
        rw [hnone, Multiset.card_zero]
        exact hs.canHold
      · have hmem : s.scheduled.heap 0 ∈ s.due now :=
          mem_due.2 ⟨Heap.mem_contents.2 ⟨0, hpos, rfl⟩, hcancelled, hdue⟩
        have hsome := Multiset.card_pos_iff_exists_mem.2 ⟨_, hmem⟩
        by_cases hroom : s.pendings.size < s.pendings.max ∨ Growable stack s.pendings.max
        · -- Case: there is room for it
          obtain ⟨r, hround, hp, hsr, hrsize, hadded, hrmax, hcount⟩ :=
            round_expire now n hs hpos hrun hcancelled hdue hroom
          have hrn : r.scheduled.size = n := by
            rw [hp.size]
            omega
          have hcard : s.pendings.size + (s.due now).card =
              r.pendings.size + (r.due now).card := by
            rw [hp.due_expire hcancelled hdue, Multiset.card_cons, hrsize]
            omega
          have hhold : CanHold stack s.pendings.max (r.pendings.size + (r.due now).card) ↔
              CanHold stack r.pendings.max (r.pendings.size + (r.due now).card) := by
            rw [hrmax]
            split
            · exact Iff.rfl
            next hfull =>
              rw [canHold_iff, and_iff_right]
              exact fun _ => hroom.resolve_left hfull
          rw [hround, hcard, hhold]
          rcases ih hsr (hp.wf hq) (hp.state.trans hrun) hrn with ⟨s', hs', hm, hheld⟩ | hstuck
          · exact Or.inl ⟨s', hs', hm.expire hp hq hadded hcount hcancelled hdue, hheld⟩
          · exact Or.inr hstuck
        · -- Case: the queue is full and cannot be doubled
          rw [not_or, Nat.not_lt] at hroom
          refine Or.inr ⟨round_full now n hs hpos hrun hcancelled hdue hroom.1 hroom.2, fun hheld => ?_⟩
          exact hroom.2 ((canHold_iff.1 hheld).1 (by omega))

/-! ## Main result -/

/-- `fire_timers` moves exactly the due timers, if the queue can hold them. -/
theorem fire_timers_iff (stack : Stack) (hs : Sized s) (hq : s.scheduled.WF s.seconds)
    (hrun : s.state = .L_RUNNING) :
    (∃ s', fire_timers stack s = some s' ∧ Moved s.clock s s') ↔
      CanHold stack s.pendings.max (s.pendings.size + (s.due s.clock).card) := by
  unfold fire_timers
  rcases fire_timers_loop_moves stack s.clock s.scheduled.size hs hq hrun rfl with
    ⟨s', hs', hm, hheld⟩ | ⟨hnone, hover⟩
  · exact ⟨fun _ => hheld, fun _ => ⟨s', hs', hm.moved⟩⟩
  · constructor
    · rintro ⟨s', hs', _⟩
      rw [hnone] at hs'
      cases hs'
    · intro hheld
      exact absurd hheld hover

/-- A heap of one timer is in order. -/
theorem one_wf {q : heapq_t Hid} (seconds : Hid → Int) (hs : q.Sized) (hone : q.size = 1) :
    q.WF seconds := by
  have hle := hs.size_le
  exact ⟨fun i hi0 hi => by omega, hle, by omega⟩

/-- A timer that is due. -/
theorem fire_timers_iff_due : ∃ s,
    run step (init Nat (fun _ => 0) 0) [.run false, .call_later 1 0, .time 1] = some s ∧
      ((∃ s', fire_timers (some 1024) s = some s' ∧ Moved s.clock s s') ↔
        CanHold (some 1024) s.pendings.max (s.pendings.size + (s.due s.clock).card)) := by
  obtain ⟨s, hs, hcheck⟩ := run_any
    (p := fun s : St Nat => s.scheduled.size == 1 && s.state == .L_RUNNING)
    (by decide : (run step (init Nat (fun _ => 0) 0)
      [.run false, .call_later 1 0, .time 1]).any _ = true)
  rw [Bool.and_eq_true, beq_iff_eq, beq_iff_eq] at hcheck
  have hsized : Sized s := run_invariant (fun s a s' hs => step_sized hs) (init_sized _ _) hs
  exact ⟨s, hs, fire_timers_iff _ hsized (one_wf _ hsized.scheduled hcheck.1) hcheck.2⟩

/-- The start of a run that fills the queue: a handle, and a timer of one second. -/
def fillStart : List (Act Nat) := [.run false, .call_soon 0, .call_later 1 0]

/-- A handle that is scheduled leaves the heap alone. -/
theorem add_callbacks_scheduled {n : Nat} (hhandle : (s.objs o).type = .Handle)
    (hrun : run step s (List.replicate n (.add_callback o)) = some s') :
    s'.objs = s.objs ∧ s'.scheduled = s.scheduled := by
  have hlabels : Steps step (fun _ a => a = .add_callback o) s (List.replicate n (.add_callback o)) :=
    steps_of_labels (fun a ha => List.eq_of_mem_replicate ha) s
  have hone : ∀ (r : St κ) (a : Act κ) (r' : St κ), step r a = some r' → a = .add_callback o →
      (r.objs = s.objs ∧ r.scheduled = s.scheduled) →
        (r'.objs = s.objs ∧ r'.scheduled = s.scheduled) := by
    rintro r _ r' hstep rfl ⟨hobjs, hsched⟩
    obtain ⟨_, hadd⟩ := Option.ite_none_right_eq_some.1 hstep
    rcases schedule_timer_cases hadd with ⟨_, q, _, rfl⟩ | ⟨htimer, _⟩
    · exact ⟨hobjs, hsched⟩
    · rw [hobjs, hhandle] at htimer
      cases htimer
  exact run_invariant_steps hone ⟨rfl, rfl⟩ hlabels hrun

/-- Pushes of a handle fill the ring up to a power of two. -/
theorem add_callbacks_dvd {k : Nat} (hk : 2 ^ k ≤ 2 ^ 31) :
    ∀ {n : Nat} {s : St κ}, Sized s → (s.objs o).type = .Handle → s.pendings.max ∣ 2 ^ k →
      s.pendings.size + n ≤ 2 ^ k →
      run step s (List.replicate n (.add_callback o)) = some s' → s'.pendings.max ∣ 2 ^ k := by
  intro n
  induction n with
  | zero =>
    intro s _ _ hdvd _ hrun
    cases hrun
    exact hdvd
  | succ n ih =>
    intro s hs hhandle hdvd hsize hrun
    obtain ⟨r, hstep, hrest⟩ := run_cons_iff.1 hrun
    have hsr : Sized r := step_sized hstep hs
    obtain ⟨_, hadd⟩ := Option.ite_none_right_eq_some.1 hstep
    rcases schedule_timer_cases hadd with ⟨_, q, hpush, rfl⟩ | ⟨htimer, _⟩
    · have hle : s.pendings.max ≤ 2 ^ k := Nat.le_of_dvd (Nat.two_pow_pos k) hdvd
      have hroom : s.pendings.size < s.pendings.max ∨ Growable none s.pendings.max := by
        rcases Nat.lt_or_ge s.pendings.size s.pendings.max with hlt | hge
        · exact Or.inl hlt
        · exact Or.inr ⟨by omega, rfl⟩
      obtain ⟨_, hqsize, hqdvd⟩ := queue_push_dvd hs.pendings hroom hdvd (by omega) hpush
      refine ih hsr hhandle hqdvd ?_ hrest
      change q.1.size + n ≤ 2 ^ k
      omega
    · rw [hhandle] at htimer
      cases htimer

/-- The handle is scheduled 2^20 times, and the timer comes due: on a stack of
8 MB, which is less than 2^20 pointers, the call that would move it does not
return. -/
theorem fire_timers_overflows :
    ∃ (as : List (Act Nat)) (s : St Nat), run step (init Nat (fun _ => 0) 0) as = some s ∧
      Sized s ∧ s.scheduled.WF s.seconds ∧ s.state = .L_RUNNING ∧ s.pendings.size = 2 ^ 20 ∧
      (s.due s.clock).card = 1 ∧
      ¬ ∃ s', fire_timers (some (2 ^ 20 - 1)) s = some s' ∧ Moved s.clock s s' := by
  obtain ⟨r, hr, hcheck⟩ := run_any
    (p := fun r : St Nat => r.next == 2 && (r.objs 0).type == .Handle && r.pendings.size == 1 &&
      r.pendings.max == 1024 && r.scheduled.size == 1 && r.state == .L_RUNNING &&
      !(r.objs (r.scheduled.heap 0)).cancelled && r.seconds (r.scheduled.heap 0) == 1)
    (by decide : (run step (init Nat (fun _ => 0) 0) fillStart).any _ = true)
  simp only [Bool.and_eq_true, beq_iff_eq] at hcheck
  obtain ⟨⟨⟨⟨⟨⟨⟨hnext, hhandle⟩, hpend⟩, hmax⟩, hsched⟩, hstate⟩, hlive⟩, hseconds⟩ := hcheck
  have hsized : Sized r := by
    exact run_invariant (fun s a s' hs => step_sized hs) (init_sized _ _) hr
  obtain ⟨u, hu, hsu, hau⟩ := add_callbacks_added (o := 0) (2 ^ 20 - 1) hsized
    (hnext ▸ Nat.zero_lt_two) (by simp [Room, hhandle, hpend])
  obtain ⟨hobjs, hheap⟩ := add_callbacks_scheduled hhandle hu
  have hdvd : u.pendings.max ∣ 2 ^ 20 := by
    refine add_callbacks_dvd (by omega) hsized hhandle ?_ (by omega) hu
    rw [hmax]
    exact Nat.pow_dvd_pow 2 (by omega : 10 ≤ 20)
  let s : St Nat := { u with clock := 1 }
  have hs : Sized s := ⟨hsu.pendings, hsu.pendings_dvd, hsu.scheduled⟩
  have hone : s.scheduled.size = 1 := by
    change u.scheduled.size = 1
    rw [hheap, hsched]
  have hq : s.scheduled.WF s.seconds := one_wf s.seconds hs.scheduled hone
  have hrun : s.state = .L_RUNNING := by
    change u.state = .L_RUNNING
    rw [hau.state, hstate]
  have hsize : s.pendings.size = 2 ^ 20 := by
    change u.pendings.size = 2 ^ 20
    rw [hau.pendings, hhandle, hpend]
    rfl
  have hfull : s.pendings.max = 2 ^ 20 := by
    refine Nat.le_antisymm (Nat.le_of_dvd (Nat.two_pow_pos 20) hdvd) ?_
    rw [← hsize]
    exact hs.pendings.le_max
  have hdue : s.due 1 = {s.scheduled.heap 0} := by
    have hcontents : s.scheduled.contents = {s.scheduled.heap 0} := by
      rw [heapq_t.contents, hone]
      rfl
    rw [St.due, hcontents, Multiset.filter_singleton, if_pos]
    change (u.objs (u.scheduled.heap 0)).cancelled = false ∧ (u.objs (u.scheduled.heap 0)).seconds ≤ 1
    rw [hheap, hobjs]
    exact ⟨by simpa using hlive, Int.le_of_eq hseconds⟩
  have hcard : (s.due 1).card = 1 := by
    rw [hdue, Multiset.card_singleton]
  have htime : run step u [.time 1] = some s := rfl
  refine ⟨_, s, run_append.2 ⟨r, hr, run_append.2 ⟨u, hu, htime⟩⟩, hs, hq, hrun, hsize, hcard, ?_⟩
  rintro ⟨s', hs', _⟩
  rcases fire_timers_loop_moves (some (2 ^ 20 - 1)) 1 1 hs hq hrun hone with
    ⟨_, _, _, hheld⟩ | ⟨hnone, _⟩
  · have hgrow := ((canHold_iff.1 hheld).1 (by omega)).2
    rw [hfull, Stack.holds_some] at hgrow
    omega
  · rw [fire_timers, hone] at hs'
    change fire_timers_loop _ 1 1 s = some s' at hs'
    rw [hnone] at hs'
    cases hs'

end Jega.Loop
