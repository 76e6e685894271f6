import Jega.Loop.Fifo
import Mathlib.Data.Multiset.Count

/-!
# Jega.Loop.Timetable — the order of the timers

The timers of a loop without its data structures: a multiset of armed timers, a
list of queued entries, a multiset of entries in flight, and the runs so far.
`Timely` is the invariant: the deadlines of the runs and of the queued timers
form one sorted line, and no armed timer is due before the end of it.
-/

namespace Jega.Loop

variable {κ : Type}

/-! ## Tables -/

/-- A timer's callback was called. -/
def Shift.runs (d : Shift κ) : Bool :=
  d.object.type == .Timer &&
    match d.fired with
    | .nothing => false
    | _ => true

theorem runs_iff {d : Shift κ} :
    d.runs = true ↔ d.object.type = .Timer ∧ d.fired ≠ .nothing := by
  rw [Shift.runs, Bool.and_eq_true, beq_iff_eq]
  refine and_congr_right fun _ => ?_
  cases d.fired with
  | nothing => simp
  | _ => simp

structure Table (κ : Type) where
  objs : Hid → TimerObject κ
  next : Hid
  heap : Multiset Hid
  queue : List Hid
  flight : Multiset Hid
  clock : Int
  runs : List (Shift κ)

namespace Table

def isTimer (T : Table κ) (o : Hid) : Bool := (T.objs o).type == .Timer

/-- The deadlines of the runs so far, and of the timers that are queued. -/
def line (T : Table κ) : List Int :=
  T.runs.map (fun d => d.object.seconds) ++
    (T.queue.filter T.isTimer).map fun o => (T.objs o).seconds

/-- A timer runs again only if it repeats, and not before its interval is over. -/
def Spaced (d d' : Shift κ) : Prop :=
  d.item = d'.item → d'.object.repeats = true ∧ d.time + d'.object.interval ≤ d'.time

structure Timely (T : Table κ) : Prop where
  heap_lt : ∀ o ∈ T.heap, o < T.next
  heap_timer : ∀ o ∈ T.heap, (T.objs o).type = .Timer
  queue_lt : ∀ o ∈ T.queue, o < T.next
  flight_lt : ∀ o ∈ T.flight, o < T.next
  runs_lt : ∀ d ∈ T.runs, d.item < T.next
  runs_timer : ∀ d ∈ T.runs, (T.objs d.item).type = .Timer
  interval_pos : ∀ o, (T.objs o).type = .Timer → 0 < (T.objs o).interval
  /-- A timer is in one place only. -/
  unique : ∀ o, (T.objs o).type = .Timer →
    T.heap.count o + T.queue.count o + T.flight.count o ≤ 1
  sorted : T.line.Pairwise (· ≤ ·)
  line_heap : ∀ x ∈ T.line, ∀ o ∈ T.heap, x ≤ (T.objs o).seconds
  line_clock : ∀ x ∈ T.line, x ≤ T.clock
  in_time : ∀ d ∈ T.runs, d.object.seconds ≤ d.time ∧ d.time ≤ T.clock
  /-- A timer that has run is marked, or armed for a time its interval later. -/
  again : ∀ d ∈ T.runs, (T.objs d.item).called = true ∨ ((T.objs d.item).repeats = true ∧
    d.time + (T.objs d.item).interval ≤ (T.objs d.item).seconds)
  spaced : T.runs.Pairwise Spaced

variable {T : Table κ} {o : Hid}

/-! ## Moves -/

/-- A timer leaves the heap. -/
theorem Timely.drop (h : T.Timely) {H : Multiset Hid} (hH : T.heap = o ::ₘ H) :
    Timely { T with heap := H } := by
  have hsub : ∀ x ∈ H, x ∈ T.heap := fun x hx => hH ▸ Multiset.mem_cons_of_mem hx
  refine { h with
    heap_lt := fun x hx => h.heap_lt x (hsub x hx)
    heap_timer := fun x hx => h.heap_timer x (hsub x hx)
    unique := fun x hx => ?_
    line_heap := fun y hy x hx => h.line_heap y hy x (hsub x hx) }
  have hone := h.unique x hx
  rw [hH, Multiset.count_cons] at hone
  simp only
  omega

/-- A timer that is due, and that no armed timer is before, moves to the queue. -/
theorem Timely.expire (h : T.Timely) {H : Multiset Hid} (hH : T.heap = o ::ₘ H)
    (hleast : ∀ x ∈ H, (T.objs o).seconds ≤ (T.objs x).seconds)
    (hdue : (T.objs o).seconds ≤ T.clock) :
    Timely { T with heap := H, queue := T.queue ++ [o] } := by
  have hsub : ∀ x ∈ H, x ∈ T.heap := fun x hx => hH ▸ Multiset.mem_cons_of_mem hx
  have hmem : o ∈ T.heap := hH ▸ Multiset.mem_cons_self o H
  have htimer := h.heap_timer o hmem
  have hline : Table.line { T with heap := H, queue := T.queue ++ [o] } =
      T.line ++ [(T.objs o).seconds] := by
    have hfilter : (T.queue ++ [o]).filter T.isTimer = T.queue.filter T.isTimer ++ [o] := by
      simp [List.filter_append, isTimer, htimer]
    have hsame : Table.isTimer { T with heap := H, queue := T.queue ++ [o] } = T.isTimer := rfl
    simp only [line, hsame, hfilter, List.map_append, List.append_assoc]
    rfl
  refine { h with
    heap_lt := fun x hx => h.heap_lt x (hsub x hx)
    heap_timer := fun x hx => h.heap_timer x (hsub x hx)
    queue_lt := fun x hx => ?_
    unique := fun x hx => ?_
    sorted := ?_
    line_heap := fun y hy x hx => ?_
    line_clock := fun y hy => ?_ }
  · rcases List.mem_append.1 hx with hx | hx
    · exact h.queue_lt x hx
    · rw [List.mem_singleton.1 hx]
      exact h.heap_lt o hmem
  · have hone := h.unique x hx
    rw [hH, Multiset.count_cons] at hone
    simp only [List.count_append, List.count_singleton]
    grind
  -- by `line_heap` the deadline of an armed timer can only be the last of the line
  · rw [hline, List.pairwise_append]
    refine ⟨h.sorted, List.pairwise_singleton _ _, fun y hy z hz => ?_⟩
    rw [List.mem_singleton.1 hz]
    exact h.line_heap y hy o hmem
  · rw [hline] at hy
    rcases List.mem_append.1 hy with hy | hy
    · exact h.line_heap y hy x (hsub x hx)
    · rw [List.mem_singleton.1 hy]
      exact hleast x hx
  · rw [hline] at hy
    rcases List.mem_append.1 hy with hy | hy
    · exact h.line_clock y hy
    · rw [List.mem_singleton.1 hy]
      exact hdue

/-- A handle goes to the queue. -/
theorem Timely.enqueue (h : T.Timely) (hlt : o < T.next) (hhandle : (T.objs o).type = .Handle) :
    Timely { T with queue := T.queue ++ [o] } := by
  have hline : Table.line { T with queue := T.queue ++ [o] } = T.line := by
    have hfilter : (T.queue ++ [o]).filter T.isTimer = T.queue.filter T.isTimer := by
      simp [List.filter_append, isTimer, hhandle]
    have hsame : Table.isTimer { T with queue := T.queue ++ [o] } = T.isTimer := rfl
    simp only [line, hsame, hfilter]
  refine { h with
    queue_lt := fun x hx => ?_
    unique := fun x hx => ?_
    sorted := hline ▸ h.sorted
    line_heap := hline ▸ h.line_heap
    line_clock := hline ▸ h.line_clock }
  · rcases List.mem_append.1 hx with hx | hx
    · exact h.queue_lt x hx
    · rw [List.mem_singleton.1 hx]
      exact hlt
  · have hne : x ≠ o := by
      rintro rfl
      rw [hhandle] at hx
      cases hx
    have hone := h.unique x hx
    simp only [List.count_append, List.count_singleton]
    grind

/-- A timer that is nowhere is armed for a time to come. -/
theorem Timely.arm (h : T.Timely) (hlt : o < T.next) (htimer : (T.objs o).type = .Timer)
    (hlate : T.clock < (T.objs o).seconds)
    (hfree : T.heap.count o + T.queue.count o + T.flight.count o = 0) :
    Timely { T with heap := o ::ₘ T.heap } := by
  refine { h with
    heap_lt := fun x hx => ?_
    heap_timer := fun x hx => ?_
    unique := fun x hx => ?_
    line_heap := fun y hy x hx => ?_ }
  · rcases Multiset.mem_cons.1 hx with rfl | hx
    · exact hlt
    · exact h.heap_lt x hx
  · rcases Multiset.mem_cons.1 hx with rfl | hx
    · exact htimer
    · exact h.heap_timer x hx
  · have hone := h.unique x hx
    simp only [Multiset.count_cons]
    grind
  -- what is on the line was due by now, and the new deadline is later than now
  · rcases Multiset.mem_cons.1 hx with rfl | hx
    · exact (h.line_clock y hy).trans hlate.le
    · exact h.line_heap y hy x hx

/-- An entry in flight is done. -/
theorem Timely.land (h : T.Timely) {F : Multiset Hid} (hF : T.flight = o ::ₘ F) :
    Timely { T with flight := F } := by
  refine { h with
    flight_lt := fun x hx => h.flight_lt x (hF ▸ Multiset.mem_cons_of_mem hx)
    unique := fun x hx => ?_ }
  have hone := h.unique x hx
  rw [hF, Multiset.count_cons] at hone
  simp only
  omega

/-- The clock goes on. -/
theorem Timely.tick (h : T.Timely) {now : Int} (hnow : T.clock ≤ now) :
    Timely { T with clock := now } :=
  { h with
    line_clock := fun y hy => (h.line_clock y hy).trans hnow
    in_time := fun d hd => ⟨(h.in_time d hd).1, (h.in_time d hd).2.trans hnow⟩ }

/-! ## Objects -/

/-- The objects change, and not in what the line and the places are made of. -/
theorem line_congr (T : Table κ) (objs : Hid → TimerObject κ) (next : Hid)
    (hsame : ∀ o ∈ T.queue, (objs o).type = (T.objs o).type ∧
      (objs o).seconds = (T.objs o).seconds) :
    Table.line { T with objs := objs, next := next } = T.line := by
  have hfilter : T.queue.filter (Table.isTimer { T with objs := objs, next := next }) =
      T.queue.filter T.isTimer := by
    apply List.filter_congr
    intro o ho
    simp only [isTimer]
    rw [(hsame o ho).1]
  unfold line
  simp only
  rw [hfilter]
  congr 1
  apply List.map_congr_left
  intro o ho
  exact (hsame o (List.mem_of_mem_filter ho)).2

/-- A timer that is marked as called keeps its place and its deadline. -/
theorem line_marked (T : Table κ) (o : Hid) :
    Table.line { T with objs := Function.update T.objs o (T.objs o).marked } = T.line := by
  refine line_congr T _ T.next fun x _ => ?_
  rcases eq_or_ne x o with rfl | hne
  · rw [Function.update_self]
    exact ⟨rfl, rfl⟩
  · rw [Function.update_of_ne hne]
    exact ⟨rfl, rfl⟩

/-- A new object at the next address. -/
theorem Timely.create (h : T.Timely) (obj : TimerObject κ)
    (hobj : obj.type = .Timer → 0 < obj.interval) :
    Timely { T with objs := Function.update T.objs T.next obj, next := T.next + 1 } := by
  have hold : ∀ o, o < T.next → Function.update T.objs T.next obj o = T.objs o :=
    fun o ho => Function.update_of_ne (Nat.ne_of_lt ho) _ _
  have hline := T.line_congr (Function.update T.objs T.next obj) (T.next + 1)
    (fun o ho => by rw [hold o (h.queue_lt o ho)]; exact ⟨rfl, rfl⟩)
  refine ⟨fun o ho => Nat.lt_succ_of_lt (h.heap_lt o ho), ?_,
    fun o ho => Nat.lt_succ_of_lt (h.queue_lt o ho),
    fun o ho => Nat.lt_succ_of_lt (h.flight_lt o ho),
    fun d hd => Nat.lt_succ_of_lt (h.runs_lt d hd), ?_, ?_, ?_, hline ▸ h.sorted, ?_,
    hline ▸ h.line_clock, h.in_time, ?_, h.spaced⟩
  · intro o ho
    simp only
    rw [hold _ (h.heap_lt o ho)]
    exact h.heap_timer o ho
  · intro d hd
    simp only
    rw [hold _ (h.runs_lt d hd)]
    exact h.runs_timer d hd
  · intro o htype
    simp only at htype ⊢
    rcases eq_or_ne o T.next with rfl | hne
    · rw [Function.update_self] at htype ⊢
      exact hobj htype
    · rw [Function.update_of_ne hne] at htype ⊢
      exact h.interval_pos o htype
  · intro o htype
    rcases eq_or_ne o T.next with rfl | hne
    · -- the address is in no place yet
      have hheap : T.next ∉ T.heap := fun hm => absurd (h.heap_lt _ hm) (Nat.lt_irrefl _)
      have hqueue : T.next ∉ T.queue := fun hm => absurd (h.queue_lt _ hm) (Nat.lt_irrefl _)
      have hflight : T.next ∉ T.flight := fun hm => absurd (h.flight_lt _ hm) (Nat.lt_irrefl _)
      simp [Multiset.count_eq_zero_of_notMem, List.count_eq_zero_of_not_mem, hheap, hqueue, hflight]
    · simp only [Function.update_of_ne hne] at htype
      exact h.unique o htype
  · intro y hy o ho
    simp only
    rw [hold _ (h.heap_lt o ho)]
    exact h.line_heap y (hline ▸ hy) o ho
  · intro d hd
    simp only
    rw [hold _ (h.runs_lt d hd)]
    exact h.again d hd

/-- The objects keep their kinds, and the ones in the heap and in the queue keep
their deadlines. -/
theorem Timely.objects (h : T.Timely) {objs : Hid → TimerObject κ}
    (hkind : ∀ x, (objs x).type = (T.objs x).type ∧ (objs x).interval = (T.objs x).interval)
    (hqueue : ∀ x ∈ T.queue, (objs x).seconds = (T.objs x).seconds)
    (hheap : ∀ x ∈ T.heap, (objs x).seconds = (T.objs x).seconds)
    (hagain : ∀ d ∈ T.runs, (objs d.item).called = true ∨ ((objs d.item).repeats = true ∧
      d.time + (objs d.item).interval ≤ (objs d.item).seconds)) :
    Timely { T with objs := objs } := by
  have hline := T.line_congr objs T.next (fun x hx => ⟨(hkind x).1, hqueue x hx⟩)
  refine ⟨h.heap_lt, ?_, h.queue_lt, h.flight_lt, h.runs_lt, ?_, ?_, ?_, hline ▸ h.sorted, ?_,
    hline ▸ h.line_clock, h.in_time, hagain, h.spaced⟩
  · intro x hx
    rw [(hkind x).1]
    exact h.heap_timer x hx
  · intro d hd
    rw [(hkind d.item).1]
    exact h.runs_timer d hd
  · intro x hx
    rw [(hkind x).1] at hx
    rw [(hkind x).2]
    exact h.interval_pos x hx
  · intro x hx
    rw [(hkind x).1] at hx
    exact h.unique x hx
  · intro y hy x hx
    rw [hheap x hx]
    exact h.line_heap y (hline ▸ hy) x hx

/-- An object keeps its kind and its times; if it has run, it keeps its flags as
well, or it is marked. -/
theorem Timely.change (h : T.Timely) (o : Hid) (obj : TimerObject κ)
    (htype : obj.type = (T.objs o).type) (hseconds : obj.seconds = (T.objs o).seconds)
    (hinterval : obj.interval = (T.objs o).interval)
    (hflags : ∀ d ∈ T.runs, d.item = o →
      obj.called = true ∨ obj.called = (T.objs o).called ∧ obj.repeats = (T.objs o).repeats) :
    Timely { T with objs := Function.update T.objs o obj } := by
  have hsame : ∀ x, (Function.update T.objs o obj x).type = (T.objs x).type ∧
      (Function.update T.objs o obj x).seconds = (T.objs x).seconds ∧
      (Function.update T.objs o obj x).interval = (T.objs x).interval := by
    intro x
    rcases eq_or_ne x o with rfl | hne
    · rw [Function.update_self]
      exact ⟨htype, hseconds, hinterval⟩
    · rw [Function.update_of_ne hne]
      exact ⟨rfl, rfl, rfl⟩
  refine h.objects (fun x => ⟨(hsame x).1, (hsame x).2.2⟩) (fun x _ => (hsame x).2.1)
    (fun x _ => (hsame x).2.1) ?_
  intro d hd
  rcases eq_or_ne d.item o with hitem | hne
  · rw [hitem, Function.update_self, hinterval, hseconds]
    have hagain := h.again d hd
    rw [hitem] at hagain
    rcases hflags d hd hitem with hcalled | ⟨hcalled, hrepeats⟩
    · exact Or.inl hcalled
    · rw [hcalled, hrepeats]
      exact hagain
  · rw [Function.update_of_ne hne]
    exact h.again d hd

/-- A timer that is neither armed nor queued gets a new deadline and is no
longer marked. -/
theorem Timely.reset (h : T.Timely) (obj : TimerObject κ) (htimer : (T.objs o).type = .Timer)
    (hfree : T.heap.count o + T.queue.count o = 0) (htype : obj.type = .Timer)
    (hinterval : obj.interval = (T.objs o).interval) (hrepeats : obj.repeats = true)
    (hseconds : obj.seconds = T.clock + (T.objs o).interval) :
    Timely { T with objs := Function.update T.objs o obj } := by
  have hheap : ∀ x ∈ T.heap, x ≠ o := by
    rintro x hx rfl
    have hpos := Multiset.count_pos.2 hx
    omega
  have hqueue : ∀ x ∈ T.queue, x ≠ o := by
    rintro x hx rfl
    have hpos := List.count_pos_iff.2 hx
    omega
  refine h.objects (fun x => ?_) (fun x hx => ?_) (fun x hx => ?_) (fun d hd => ?_)
  · rcases eq_or_ne x o with rfl | hne
    · rw [Function.update_self, htype, htimer]
      exact ⟨rfl, hinterval⟩
    · rw [Function.update_of_ne hne]
      exact ⟨rfl, rfl⟩
  · rw [Function.update_of_ne (hqueue x hx)]
  · rw [Function.update_of_ne (hheap x hx)]
  · rcases eq_or_ne d.item o with hitem | hne
    · -- its last run is not later than now, and the deadline an interval from now
      rw [hitem, Function.update_self, hinterval, hseconds]
      have htime := (h.in_time d hd).2
      exact Or.inr ⟨hrepeats, by omega⟩
    · rw [Function.update_of_ne hne]
      exact h.again d hd

/-! ## Runs -/

/-- The head of the queue goes into flight, and it is no run. -/
theorem Timely.take (h : T.Timely) {Q : List Hid} (hQ : T.queue = o :: Q) :
    Timely { T with queue := Q, flight := o ::ₘ T.flight } := by
  have hsub : ∀ x ∈ Q, x ∈ T.queue := fun x hx => hQ ▸ List.mem_cons_of_mem o hx
  have hline : (Table.line { T with queue := Q, flight := o ::ₘ T.flight }).Sublist T.line := by
    -- a handle is not on the line, and a timer is its first deadline after the runs
    have hsame : Table.isTimer { T with queue := Q, flight := o ::ₘ T.flight } = T.isTimer := rfl
    simp only [line, hsame]
    rw [hQ]
    exact (((List.sublist_cons_self o Q).filter _).map _).append_left _
  refine { h with
    queue_lt := fun x hx => h.queue_lt x (hsub x hx)
    flight_lt := fun x hx => ?_
    unique := fun x hx => ?_
    sorted := h.sorted.sublist hline
    line_heap := fun y hy => h.line_heap y (hline.subset hy)
    line_clock := fun y hy => h.line_clock y (hline.subset hy) }
  · rcases Multiset.mem_cons.1 hx with rfl | hx
    · exact h.queue_lt x (hQ ▸ List.mem_cons_self)
    · exact h.flight_lt x hx
  · have hone := h.unique x hx
    rw [hQ, List.count_cons] at hone
    simp only [Multiset.count_cons]
    grind

/-- The head of the queue goes into flight as a run: its deadline is the next of
the line, and if it has run before, its interval is over. -/
theorem Timely.run (h : T.Timely) {Q : List Hid} (hQ : T.queue = o :: Q) {d : Shift κ}
    (hitem : d.item = o) (hobject : d.object = T.objs o) (htime : d.time = T.clock)
    (htimer : (T.objs o).type = .Timer) (hcalled : (T.objs o).called = false) :
    Timely { T with
      objs := Function.update T.objs o (T.objs o).marked
      queue := Q
      flight := o ::ₘ T.flight
      runs := T.runs ++ [d] } := by
  have hmem : o ∈ T.queue := hQ ▸ List.mem_cons_self
  have hmarked := h.change o (T.objs o).marked rfl rfl rfl fun _ _ _ =>
    Or.inl (decide_eq_true htimer)
  have htaken := hmarked.take hQ
  have hsplit : T.line = T.runs.map (fun d => d.object.seconds) ++
      ((T.objs o).seconds :: (Q.filter T.isTimer).map fun o => (T.objs o).seconds) := by
    have hfilter : T.queue.filter T.isTimer = o :: Q.filter T.isTimer := by
      rw [hQ, List.filter_cons_of_pos]
      simp [isTimer, htimer]
    rw [line, hfilter, List.map_cons]
  -- the deadline passes from the queued timers to the runs, and stays in its place
  have hline : Table.line { T with
      objs := Function.update T.objs o (T.objs o).marked
      queue := Q
      flight := o ::ₘ T.flight
      runs := T.runs ++ [d] } = T.line := by
    refine (line_marked { T with queue := Q, runs := T.runs ++ [d] } o).trans ?_
    rw [hsplit, line, List.map_append, List.map_singleton, hobject, List.append_assoc]
    rfl
  have hdue : (T.objs o).seconds ≤ T.clock := by
    refine h.line_clock _ ?_
    rw [hsplit]
    exact List.mem_append_right _ List.mem_cons_self
  -- the runs before this one, and this one
  have hruns : ∀ d' ∈ T.runs ++ [d], d' ∈ T.runs ∨ d' = d := fun d' hd' =>
    (List.mem_append.1 hd').imp_right List.mem_singleton.1
  refine { htaken with
    runs_lt := fun d' hd' => ?_
    runs_timer := fun d' hd' => ?_
    sorted := hline ▸ h.sorted
    line_heap := fun y hy => hmarked.line_heap y ?_
    line_clock := hline ▸ h.line_clock
    in_time := fun d' hd' => ?_
    again := fun d' hd' => ?_
    spaced := ?_ }
  · rcases hruns d' hd' with hd' | rfl
    · exact h.runs_lt d' hd'
    · exact hitem ▸ h.queue_lt o hmem
  · rcases hruns d' hd' with hd' | rfl
    · exact hmarked.runs_timer d' hd'
    · simp only [hitem, Function.update_self]
      exact htimer
  · rw [line_marked]
    exact hline ▸ hy
  · rcases hruns d' hd' with hd' | rfl
    · exact h.in_time d' hd'
    · rw [hobject, htime]
      exact ⟨hdue, le_refl _⟩
  · rcases hruns d' hd' with hd' | rfl
    · exact hmarked.again d' hd'
    · left
      simp only [hitem, Function.update_self]
      exact decide_eq_true htimer
  -- the entry is not marked, so a run before this one armed it an interval later
  · rw [List.pairwise_append]
    refine ⟨h.spaced, List.pairwise_singleton _ _, ?_⟩
    intro d' hd' d'' hd'' hsame
    rw [List.mem_singleton.1 hd''] at hsame ⊢
    rw [hobject, htime]
    have hitem' : d'.item = o := hsame.trans hitem
    have hagain := h.again d' hd'
    rw [hitem', hcalled] at hagain
    rcases hagain with hmark | ⟨hrepeats, hlater⟩
    · exact absurd hmark Bool.false_ne_true
    · exact ⟨hrepeats, hlater.trans hdue⟩

end Table

end Jega.Loop
