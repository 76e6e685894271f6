import Jega.Futures.Waiting

/-!
# Jega.Futures.Wakeup — what `wait` returns, and when

The count of an `_AllCompletedWaiter` is the number of futures that are not
settled yet, and `finished_futures` are those settled since the call began: the
list of each future names a waiter as often as the call names the future
(`Tracks`). So the event is set when the condition of the call is met, and not
before.

A wait without a timeout ends after the event was set, and no other code runs
before the result is built.
-/

namespace Jega.Futures.Waiting

open Locks

variable {α ε : Type}

/-! ## Contract -/

/-- What a call waits for. -/
def Met (t : Table α ε) (c : Call) : Prop :=
  (c.return_when = .ALL_COMPLETED ∧ ∀ f ∈ c.fs, (t.futs f)._state.settled = true) ∨
    (c.return_when = .FIRST_COMPLETED ∧ ∃ f ∈ c.fs, (t.futs f)._state.settled = true)

/-- The event of the call is set, and its greenlet has a permit and a call of the
loop that will give it. -/
def Woken (t : Table α ε) (g : Gid) (c : Call) : Prop :=
  ∃ w sem, t.waiters c.waiter = some w ∧ w.event.flag = true ∧ w.event.pc g = .waiting sem ∧
    counters w.event.locks sem > 0 ∧ 0 < notifies w.event.locks sem

/-- A finished call. -/
structure Right (r : Return) : Prop where
  /-- `done` and `not_done` are what they are called. -/
  sets : ∀ done not_done, r.result = .ok (done, not_done) →
    (∀ f, f ∈ done ↔ f ∈ r.fs ∧ (r.moment f).settled = true) ∧
      ∀ f, f ∈ not_done ↔ f ∈ r.fs ∧ (r.moment f).settled = false
  all : r.timeout = none → r.return_when = .ALL_COMPLETED →
    ∀ done not_done, r.result = .ok (done, not_done) → not_done = ∅
  first : r.timeout = none → r.return_when = .FIRST_COMPLETED → r.fs ≠ [] →
    ∀ done not_done, r.result = .ok (done, not_done) → done.Nonempty
  /-- It raises for its timeout, or what was thrown into it. -/
  raises : r.return_when = .ALL_COMPLETED ∨ r.return_when = .FIRST_COMPLETED →
    ∀ e, r.result = .error e →
      event_seconds r.timeout = .error e ∨ ∃ n, e = .thrown (some (.other n))

/-! ## The invariant -/

/-- The waiter of a call knows what happened since the call began. -/
structure Tracks (t : Table α ε) (c : Call) (w : Waiter) : Prop where
  installed : ∀ f, (t.futs f)._waiters.count c.waiter = c.fs.count f
  done : ∀ f ∈ c.done, f ∈ c.fs ∧ (t.futs f)._state.settled = true
  finished : ∀ f, f ∈ w.finished_futures ↔
    f ∈ c.fs ∧ f ∉ c.done ∧ (t.futs f)._state.settled = true
  all : c.return_when = .ALL_COMPLETED →
    w.cls = ._AllCompletedWaiter (t.pending_count c.fs) false ∧
      (w.event.flag = true → t.pending_count c.fs = 0) ∧
      (c.fs.Nodup → t.pending_count c.fs = 0 → w.event.flag = true)
  first : c.return_when = .FIRST_COMPLETED →
    w.cls = ._FirstCompletedWaiter ∧
      (w.event.flag = true ↔ ∃ f ∈ c.fs, (t.futs f)._state.settled = true)

/-- `g` is suspended in the call. -/
def Holds (t : Table α ε) (g : Gid) (c : Call) : Prop :=
  ∃ w, t.waiters c.waiter = some w ∧ Tracks t c w ∧ (∃ sem, w.event.pc g = .waiting sem) ∧
    (c.timeout = none → Muted w.event.locks g)

/-- The invariant while `r` runs in a method, or at a suspension point. -/
structure Inv (s : St α ε) (r : Option Gid) : Prop where
  running : ∀ f, s.workers f = .running → (s.futs f)._state = .RUNNING
  lists : ∀ f w, w ∈ (s.futs f)._waiters → w < s.next
  steady : ∀ w W, s.waiters w = some W → Event.Steady W.event
  inside : ∀ w W g, s.waiters w = some W → W.event.pc g ≠ .free →
    r ≠ some g ∧ ∃ c, s.calls g = some c ∧ c.waiter = w
  calls : ∀ g c, r ≠ some g → s.calls g = some c → Holds s.toTable g c ∧ c.waiter < s.next
  distinct : ∀ g g' c c', r ≠ some g → r ≠ some g' → s.calls g = some c → s.calls g' = some c' →
    c.waiter = c'.waiter → g = g'

section Table

variable {t t' : Table α ε} {future : Fid} {current g : Gid} {c : Call} {w : Waiter}

theorem pending_zero {fs : List Fid} :
    t.pending_count fs = 0 ↔ ∀ f ∈ fs, (t.futs f)._state.settled = true := by
  unfold Table.pending_count
  simp

theorem pending_congr (h : ∀ f, (t'.futs f)._state.settled = (t.futs f)._state.settled)
    (fs : List Fid) : t'.pending_count fs = t.pending_count fs := by
  unfold Table.pending_count
  exact List.countP_congr fun f _ => by rw [h f]

/-- A future that is settled is pending no more. -/
theorem pending_settles (hs : Settles t t' future current) (fs : List Fid) :
    t.pending_count fs = t'.pending_count fs + fs.count future := by
  unfold Table.pending_count
  induction fs with
  | nil => rfl
  | cons f fs ih =>
    rw [List.countP_cons, List.countP_cons, ih]
    rcases eq_or_ne f future with rfl | hne
    · rw [List.count_cons_self, hs.before, hs.after]
      simp only [Bool.not_false, Bool.not_true, if_true, Bool.false_eq_true, if_false]
      omega
    · rw [List.count_cons_of_ne hne, hs.others f hne]
      omega

theorem settled_settles (hs : Settles t t' future current) (f : Fid) :
    (t'.futs f)._state.settled = true ↔ f = future ∨ (t.futs f)._state.settled = true := by
  rcases eq_or_ne f future with rfl | hne
  · exact iff_of_true hs.after (Or.inl rfl)
  · rw [hs.others f hne, or_iff_right hne]

/-- The lists have changed, and not for this waiter. -/
theorem Tracks.congr (ht : Tracks t c w)
    (hsettled : ∀ f, (t'.futs f)._state.settled = (t.futs f)._state.settled)
    (hcount : ∀ f, (t'.futs f)._waiters.count c.waiter = (t.futs f)._waiters.count c.waiter) :
    Tracks t' c w := by
  refine ⟨fun f => ?_, fun f hf => ?_, fun f => ?_, fun hw => ?_, fun hw => ?_⟩
  · rw [hcount f]
    exact ht.installed f
  · rw [hsettled f]
    exact ht.done f hf
  · rw [hsettled f]
    exact ht.finished f
  · rw [pending_congr hsettled]
    exact ht.all hw
  · simp only [hsettled]
    exact ht.first hw

theorem Tracks.quiet (ht : Tracks t c w) (hq : Quiet t t') : Tracks t' c w := by
  refine ht.congr hq.settled fun f => ?_
  rw [hq.lists f]

/-- The event of the waiter has moved, and its flag has not. -/
theorem Tracks.event (ht : Tracks t c w) {e : Event.St} (he : e.flag = w.event.flag) :
    Tracks t c { w with event := e } := by
  refine ⟨ht.installed, ht.done, ht.finished, fun hw => ?_, fun hw => ?_⟩
  · simp only [he]
    exact ht.all hw
  · simp only [he]
    exact ht.first hw

/-- The waiter is told of a future as often as the call names it. -/
theorem Tracks.settles (ht : Tracks t c w) (hs : Settles t t' future current)
    {add : Waiter → Waiter} (ha : Adds future current add) (he : Event.Steady w.event)
    (hpc : w.event.pc current = .free) : Tracks t' c (add^[c.fs.count future] w) := by
  have hpending := pending_settles hs c.fs
  have hsettled := settled_settles hs
  obtain ⟨_, hfinished⟩ := ha.iterate he hpc (c.fs.count future)
  have hmem : 0 < c.fs.count future ↔ future ∈ c.fs := List.count_pos_iff
  -- the future was not settled when the call began
  have hnew : future ∉ c.done := by
    intro hd
    have h := (ht.done future hd).2
    rw [hs.before] at h
    cases h
  refine ⟨fun f => ?_, fun f hf => ?_, fun f => ?_, fun hw => ?_, fun hw => ?_⟩
  · rw [hs.lists f]
    exact ht.installed f
  · exact ⟨(ht.done f hf).1, (hsettled f).2 (Or.inr (ht.done f hf).2)⟩
  · rw [hfinished, List.mem_append, ht.finished f, List.mem_replicate, hsettled f]
    constructor
    · rintro (⟨hf, hd, h⟩ | ⟨hk, rfl⟩)
      · exact ⟨hf, hd, Or.inr h⟩
      · exact ⟨hmem.1 (Nat.pos_of_ne_zero hk), hnew, Or.inl rfl⟩
    · rintro ⟨hf, hd, rfl | h⟩
      · exact Or.inr ⟨Nat.ne_of_gt (hmem.2 hf), rfl⟩
      · exact Or.inl ⟨hf, hd, h⟩
  · obtain ⟨hcls, htold, htells⟩ := ht.all hw
    rw [hpending] at hcls htold htells
    obtain ⟨hcls', hflag⟩ := ha.iterate_all he hpc (c.fs.count future) hcls
    rw [hflag]
    refine ⟨hcls', ?_, fun hnodup hzero => ?_⟩
    · rintro (h | ⟨_, hzero⟩)
      · have := htold h
        omega
      · exact hzero
    · rcases Nat.eq_zero_or_pos (c.fs.count future) with hk | hk
      · exact Or.inl (htells hnodup (by omega))
      · exact Or.inr ⟨hk, hzero⟩
  · obtain ⟨hcls, hiff⟩ := ht.first hw
    obtain ⟨hcls', hflag⟩ := ha.iterate_first he hpc hcls (c.fs.count future)
    refine ⟨hcls', ?_⟩
    rw [hflag, hiff, hmem]
    constructor
    · rintro (⟨f, hf, h⟩ | hf)
      · exact ⟨f, hf, (hsettled f).2 (Or.inr h)⟩
      · exact ⟨future, hf, hs.after⟩
    · rintro ⟨f, hf, h⟩
      rcases (hsettled f).1 h with rfl | h
      · exact Or.inr hf
      · exact Or.inl ⟨f, hf, h⟩

end Table

/-! ## Running -/

section Running

variable {s : St α ε} {t : Table α ε} {r : Option Gid} {g : Gid}

theorem init_inv (futs : Fid → Future α ε) : Inv (St.init futs) none := by
  refine ⟨fun f hf => ?_, ?_, ?_, ?_, ?_, ?_⟩
  · show (futs f)._state = .RUNNING
    have hof : Worker.of (futs f)._state = .running := hf
    cases hstate : (futs f)._state with
    | RUNNING => rfl
    | PENDING | CANCELLED | CANCELLED_AND_NOTIFIED | FINISHED =>
      rw [hstate] at hof
      cases hof
  · intro f w hw
    cases hw
  · intro w W hW
    cases hW
  · intro w W g hW
    cases hW
  · intro g c _ hc
    cases hc
  · intro g g' c c' _ _ hc
    cases hc

/-- What an updated map holds. -/
theorem update_some_cases {β : Type} {m : Nat → Option β} {i j : Nat} {x y : β}
    (h : Function.update m i (some x) j = some y) : (j = i ∧ y = x) ∨ (j ≠ i ∧ m j = some y) := by
  rcases eq_or_ne j i with rfl | hne
  · rw [Function.update_self, Option.some.injEq] at h
    exact Or.inl ⟨rfl, h.symm⟩
  · rw [Function.update_of_ne hne] at h
    exact Or.inr ⟨hne, h⟩

/-- A greenlet that is in no call runs. -/
theorem Inv.enter (hi : Inv s none) (hg : s.calls g = none) : Inv s (some g) := by
  refine ⟨hi.running, hi.lists, hi.steady, fun w W g' hW hpc => ?_, fun g' c _ hc => ?_,
    fun g' g'' c c' _ _ => ?_⟩
  · obtain ⟨_, c, hc, hw⟩ := hi.inside w W g' hW hpc
    refine ⟨?_, c, hc, hw⟩
    rintro ⟨⟩
    rw [hg] at hc
    cases hc
  · exact hi.calls g' c (by simp) hc
  · exact hi.distinct g' g'' c c' (by simp) (by simp)

theorem Inv.leave (hi : Inv s (some g)) (hg : s.calls g = none) : Inv s none := by
  have hne : ∀ g' c, s.calls g' = some c → some g ≠ some g' := by
    rintro g' c hc ⟨⟩
    rw [hg] at hc
    cases hc
  refine ⟨hi.running, hi.lists, hi.steady, fun w W g' hW hpc => ?_, fun g' c _ hc => ?_,
    fun g' g'' c c' _ _ hc hc' => ?_⟩
  · exact ⟨by simp, (hi.inside w W g' hW hpc).2⟩
  · exact hi.calls g' c (hne g' c hc) hc
  · exact hi.distinct g' g'' c c' (hne g' c hc) (hne g'' c' hc') hc hc'

/-- Whoever runs is outside all events. -/
theorem Inv.outside (hi : Inv s (some g)) {w : Wid} {W : Waiter} (hW : s.waiters w = some W) :
    W.event.pc g = .free := by
  by_contra hpc
  exact (hi.inside w W g hW hpc).1 rfl

theorem Inv.quiet (hi : Inv s r) (hq : Quiet s.toTable t) {ws : Fid → Worker}
    (hrunning : ∀ f, ws f = .running → (t.futs f)._state = .RUNNING) :
    Inv { s with toTable := t, workers := ws } r := by
  refine ⟨hrunning, fun f w hw => ?_, fun w W hW => ?_, fun w W g hW => ?_, fun g c hr hc => ?_,
    hi.distinct⟩
  · rw [hq.lists f] at hw
    show w < t.next
    rw [hq.next]
    exact hi.lists f w hw
  · rw [hq.waiters] at hW
    exact hi.steady w W hW
  · rw [hq.waiters] at hW
    exact hi.inside w W g hW
  · obtain ⟨⟨w, hW, ht, hrest⟩, hlt⟩ := hi.calls g c hr hc
    rw [← hq.next] at hlt
    rw [← hq.waiters] at hW
    exact ⟨⟨w, hW, ht.quiet hq, hrest⟩, hlt⟩

/-- The waiters of a table after some of them were told. -/
theorem Settles.waiter {t' : Table α ε} {future : Fid} (hs : Settles t t' future g) :
    ∃ add, Adds future g add ∧ ∀ w, t'.waiters w =
      (t.waiters w).map add^[(t.futs future)._waiters.count w] := by
  obtain ⟨add, ha, htell⟩ := hs.told
  refine ⟨add, ha, fun w => ?_⟩
  rw [htell, tell_eq]

theorem Inv.settles (hi : Inv s (some g)) {future : Fid} (hs : Settles s.toTable t future g)
    {ws : Fid → Worker} (hrunning : ∀ f, ws f = .running → (t.futs f)._state = .RUNNING) :
    Inv { s with toTable := t, workers := ws } (some g) := by
  obtain ⟨add, ha, hwaiter⟩ := hs.waiter
  have hold : ∀ w W, t.waiters w = some W → ∃ W₀, s.waiters w = some W₀ ∧
      Marked W₀.event W.event := by
    intro w W hW
    rw [hwaiter] at hW
    obtain ⟨W₀, hW₀, rfl⟩ := Option.map_eq_some_iff.1 hW
    exact ⟨W₀, hW₀, (ha.iterate (hi.steady w W₀ hW₀) (hi.outside hW₀) _).1⟩
  refine ⟨hrunning, fun f w hw => ?_, fun w W hW => ?_, fun w W g' hW hpc => ?_,
    fun g' c hr hc => ?_, hi.distinct⟩
  · rw [hs.lists f] at hw
    show w < t.next
    rw [hs.next]
    exact hi.lists f w hw
  · obtain ⟨_, _, hm⟩ := hold w W hW
    exact hm.steady
  · obtain ⟨W₀, hW₀, hm⟩ := hold w W hW
    rw [hm.pc] at hpc
    exact hi.inside w W₀ g' hW₀ hpc
  · -- the list names the waiter as often as the call names the future
    obtain ⟨⟨w, hW, ht, ⟨sem, hsem⟩, hmuted⟩, hlt⟩ := hi.calls g' c hr hc
    have hsteady := hi.steady _ w hW
    have hk : (s.futs future)._waiters.count c.waiter = c.fs.count future := ht.installed future
    have hm := (ha.iterate hsteady (hi.outside hW) (c.fs.count future)).1
    rw [← hs.next] at hlt
    refine ⟨⟨add^[c.fs.count future] w, ?_, ht.settles hs ha hsteady (hi.outside hW), ⟨sem, ?_⟩,
      fun hnone => ?_⟩, hlt⟩
    · rw [← hk]
      show t.waiters c.waiter = _
      rw [hwaiter, hW]
      rfl
    · rw [hm.pc]
      exact hsem
    · exact (hmuted hnone).shrinks hsteady.deadlines hm.shrinks

/-- The lists have changed, and a new waiter may be there. -/
theorem Inv.relist (hi : Inv s (some g)) (hnext : s.next ≤ t.next)
    (hstate : ∀ f, (t.futs f)._state = (s.futs f)._state)
    (hlists : ∀ f w, w ∈ (t.futs f)._waiters → w < t.next)
    (hcount : ∀ g' c, g' ≠ g → s.calls g' = some c → ∀ f,
      (t.futs f)._waiters.count c.waiter = (s.futs f)._waiters.count c.waiter)
    (hold : ∀ w, w < s.next → t.waiters w = s.waiters w)
    (hnew : ∀ w W, t.waiters w = some W →
      s.waiters w = some W ∨ (Event.Steady W.event ∧ ∀ g', W.event.pc g' = .free)) :
    Inv { s with toTable := t } (some g) := by
  refine ⟨fun f hf => ?_, hlists, fun w W hW => ?_, fun w W g' hW hpc => ?_, fun g' c hr hc => ?_,
    hi.distinct⟩
  · exact (hstate f).trans (hi.running f hf)
  · rcases hnew w W hW with hW' | ⟨hs, _⟩
    · exact hi.steady w W hW'
    · exact hs
  · rcases hnew w W hW with hW' | ⟨_, hfree⟩
    · exact hi.inside w W g' hW' hpc
    · exact absurd (hfree g') hpc
  · obtain ⟨⟨w, hW, ht, hrest⟩, hlt⟩ := hi.calls g' c hr hc
    have hne : g' ≠ g := by
      rintro rfl
      exact hr rfl
    rw [← hold c.waiter hlt] at hW
    have hsettled : ∀ f, (t.futs f)._state.settled = (s.futs f)._state.settled := by
      intro f
      rw [hstate f]
    exact ⟨⟨w, hW, ht.congr hsettled (hcount g' c hne hc), hrest⟩, Nat.lt_of_lt_of_le hlt hnext⟩

/-- The call of `g` is over. -/
theorem Inv.finish (hi : Inv s (some g)) (fs : List Fid) (timeout : Option Int)
    (return_when : ReturnWhen) (result : Except Error (Finset Fid × Finset Fid)) :
    Inv (s.finish g fs timeout return_when result) none := by
  have hcalls : ∀ g', g' ≠ g →
      (s.finish g fs timeout return_when result).calls g' = s.calls g' :=
    fun g' hg => Function.update_of_ne hg _ _
  have hne : ∀ {g'}, some g ≠ some g' → g' ≠ g := by
    rintro g' hr rfl
    exact hr rfl
  have hrun : Inv (s.finish g fs timeout return_when result) (some g) := by
    refine ⟨hi.running, hi.lists, hi.steady, fun w W g' hW hpc => ?_, fun g' c hr hc => ?_,
      fun g' g'' c c' hr hr' hc hc' => ?_⟩
    · obtain ⟨hr, c, hc, hw⟩ := hi.inside w W g' hW hpc
      refine ⟨hr, c, ?_, hw⟩
      rw [hcalls g' (hne hr)]
      exact hc
    · rw [hcalls g' (hne hr)] at hc
      exact hi.calls g' c hr hc
    · rw [hcalls g' (hne hr)] at hc
      rw [hcalls g'' (hne hr')] at hc'
      exact hi.distinct g' g'' c c' hr hr' hc hc'
  exact hrun.leave (Function.update_self _ _ _)

/-- `g` suspends in a new call, whose waiter nobody else has. -/
theorem Inv.park (hi : Inv s (some g)) {c : Call} {W : Waiter} {e : Event.St} {sem : Sid}
    (hW : s.waiters c.waiter = some W) (hlt : c.waiter < s.next)
    (hnobody : ∀ g' c', g' ≠ g → s.calls g' = some c' → c'.waiter ≠ c.waiter)
    (hs : Event.Steady e) (hpc : e.pc = Function.update W.event.pc g (.waiting sem))
    (ht : Tracks s.toTable c { W with event := e })
    (hm : c.timeout = none → Muted e.locks g) :
    Inv { s with
      waiters := Function.update s.waiters c.waiter (some { W with event := e })
      calls := Function.update s.calls g (some c) } none := by
  have hne : ∀ {g'}, g' ≠ g → some g ≠ some g' := by
    rintro g' hg ⟨⟩
    exact hg rfl
  refine ⟨hi.running, hi.lists, fun w W' hW' => ?_, fun w W' g' hW' hpc' => ⟨by simp, ?_⟩,
    fun g' c' _ hc' => ?_, fun g' g'' c' c'' _ _ hc' hc'' heq => ?_⟩
  · rcases update_some_cases hW' with ⟨_, rfl⟩ | ⟨_, hold⟩
    · exact hs
    · exact hi.steady w W' hold
  · -- `g` is in this event only, and the others are where they were
    show ∃ c', Function.update s.calls g (some c) g' = some c' ∧ c'.waiter = w
    rcases eq_or_ne g' g with rfl | hg
    · refine ⟨c, Function.update_self _ _ _, ?_⟩
      rcases update_some_cases hW' with ⟨hw, _⟩ | ⟨_, hold⟩
      · exact hw.symm
      · exact absurd (hi.outside hold) hpc'
    · rw [Function.update_of_ne hg]
      rcases update_some_cases hW' with ⟨rfl, rfl⟩ | ⟨_, hold⟩
      · refine (hi.inside c.waiter W g' hW ?_).2
        rw [hpc, Function.update_of_ne hg] at hpc'
        exact hpc'
      · exact (hi.inside w W' g' hold hpc').2
  · rcases update_some_cases hc' with ⟨rfl, rfl⟩ | ⟨hg, hold⟩
    · refine ⟨⟨_, Function.update_self _ _ _, ht.congr (fun _ => rfl) fun _ => rfl, ⟨sem, ?_⟩, hm⟩,
        hlt⟩
      rw [hpc]
      exact Function.update_self _ _ _
    · obtain ⟨⟨w, hw, ht', hrest⟩, hlt'⟩ := hi.calls g' c' (hne hg) hold
      refine ⟨⟨w, ?_, ht'.congr (fun _ => rfl) fun _ => rfl, hrest⟩, hlt'⟩
      rw [← hw]
      exact Function.update_of_ne (hnobody g' c' hg hold) _ _
  · rcases update_some_cases hc' with ⟨rfl, rfl⟩ | ⟨hg, hold⟩
    · rcases update_some_cases hc'' with ⟨rfl, _⟩ | ⟨hg', hold'⟩
      · rfl
      · exact absurd heq.symm (hnobody g'' c'' hg' hold')
    · rcases update_some_cases hc'' with ⟨rfl, rfl⟩ | ⟨hg', hold'⟩
      · exact absurd heq (hnobody g' c' hg hold)
      · exact hi.distinct g' g'' c' c'' (hne hg) (hne hg') hold hold' heq

/-- The event of a waiter has moved; the greenlet that left it runs. -/
theorem Inv.turned (hi : Inv s none) {w : Wid} {W : Waiter} (hW : s.waiters w = some W)
    {e : Event.St} (hs : Event.Steady e) (hsh : Shrinks W.event.locks e.locks)
    (hflag : e.flag = W.event.flag) (hpc : ∀ g, r ≠ some g → e.pc g = W.event.pc g)
    (hleft : ∀ g, r = some g → e.pc g = .free ∧ W.event.pc g ≠ .free) :
    Inv { s with waiters := Function.update s.waiters w (some { W with event := e }) } r := by
  refine ⟨hi.running, hi.lists, fun w' W' hW' => ?_, fun w' W' g' hW' hpc' => ?_,
    fun g' c' hr hc' => ?_, fun g' g'' c' c'' _ _ => hi.distinct g' g'' c' c'' (by simp) (by simp)⟩
  · rcases update_some_cases hW' with ⟨_, rfl⟩ | ⟨_, hold⟩
    · exact hs
    · exact hi.steady w' W' hold
  · rcases update_some_cases hW' with ⟨rfl, rfl⟩ | ⟨hw, hold⟩
    · have hr : r ≠ some g' := fun hr => hpc' (hleft g' hr).1
      refine ⟨hr, (hi.inside w' W g' hW ?_).2⟩
      rw [← hpc g' hr]
      exact hpc'
    · obtain ⟨_, c, hc, hcw⟩ := hi.inside w' W' g' hold hpc'
      refine ⟨fun hr => ?_, c, hc, hcw⟩
      -- whoever left this event was in no other
      obtain ⟨_, c', hc', hcw'⟩ := hi.inside w W g' hW (hleft g' hr).2
      rw [hc, Option.some.injEq] at hc'
      rw [hc', hcw'] at hcw
      exact hw hcw.symm
  · obtain ⟨⟨w', hw', ht, ⟨sem, hsem⟩, hmuted⟩, hlt⟩ := hi.calls g' c' (by simp) hc'
    refine ⟨?_, hlt⟩
    rcases eq_or_ne c'.waiter w with heq | hne
    · rw [heq, hW, Option.some.injEq] at hw'
      subst hw'
      refine ⟨{ W with event := e }, ?_, (ht.event hflag).congr (fun _ => rfl) fun _ => rfl,
        ⟨sem, ?_⟩, fun hnone => ?_⟩
      · rw [heq]
        exact Function.update_self _ _ _
      · exact (hpc g' hr).trans hsem
      · exact (hmuted hnone).shrinks (hi.steady w W hW).deadlines hsh
    · refine ⟨w', ?_, ht.congr (fun _ => rfl) fun _ => rfl, ⟨sem, hsem⟩, hmuted⟩
      rw [← hw']
      exact Function.update_of_ne hne _ _

end Running

/-! ## The steps of `wait` -/

section Wait

variable {s s' : St α ε} {g : Gid}

/-- A step finishes no call, or one that is right. -/
def Returns (s s' : St α ε) : Prop :=
  s'.returned = s.returned ∨
    ∃ r, s'.returned = s.returned ++ [r] ∧ Right r ∧ r.moment = fun f => (s'.futs f)._state

theorem mem_done {t : Table α ε} {fs : List Fid} {f : Fid} :
    f ∈ t.done fs ↔ f ∈ fs ∧ (t.futs f)._state.settled = true := by
  unfold Table.done
  rw [List.mem_toFinset, List.mem_filter]

theorem done_subset (t : Table α ε) (fs : List Fid) : t.done fs ⊆ fs.toFinset := by
  intro f hf
  exact List.mem_toFinset.2 (mem_done.1 hf).1

/-- As many futures are done as there are in the list. -/
theorem done_full {t : Table α ε} {fs : List Fid} (h : (t.done fs).card = fs.length) :
    t.done fs = fs.toFinset :=
  Finset.eq_of_subset_of_card_le (done_subset t fs) (h ▸ fs.toFinset_card_le)

/-- The sets that a call builds, if its `done` is right. -/
theorem sets_right {t : Table α ε} {fs : List Fid} {done : Finset Fid}
    (h : ∀ f, f ∈ done ↔ f ∈ fs ∧ (t.futs f)._state.settled = true) :
    ∀ f, f ∈ fs.toFinset \ done ↔ f ∈ fs ∧ (t.futs f)._state.settled = false := by
  intro f
  rw [Finset.mem_sdiff, List.mem_toFinset, h f]
  constructor
  · rintro ⟨hf, hd⟩
    refine ⟨hf, ?_⟩
    rw [← Bool.not_eq_true]
    exact fun hs => hd ⟨hf, hs⟩
  · rintro ⟨hf, hs⟩
    refine ⟨hf, fun hd => ?_⟩
    rw [hd.2] at hs
    cases hs

/-- A call that finds its condition met. -/
theorem returns_now (s : St α ε) (g : Gid) (fs : List Fid) (timeout : Option Int)
    (return_when : ReturnWhen)
    (h : (return_when = .FIRST_COMPLETED ∧ (s.done fs).Nonempty) ∨ (s.done fs).card = fs.length) :
    Returns s (s.finish g fs timeout return_when (.ok (s.done fs, fs.toFinset \ s.done fs))) := by
  refine Or.inr ⟨_, rfl, ?_, rfl⟩
  refine ⟨?_, ?_, ?_, ?_⟩
  · rintro done not_done ⟨⟩
    exact ⟨fun f => mem_done, sets_right fun f => mem_done⟩
  · rintro _ hall done not_done ⟨⟩
    rcases h with ⟨hfirst, _⟩ | hcard
    · rw [show return_when = .ALL_COMPLETED from hall] at hfirst
      cases hfirst
    · rw [done_full hcard, Finset.sdiff_self]
  · rintro _ _ hne done not_done ⟨⟩
    rcases h with ⟨_, hnonempty⟩ | hcard
    · exact hnonempty
    · rw [← Finset.card_pos, hcard]
      exact List.length_pos_iff.2 hne
  · rintro _ e ⟨⟩

/-- A call that raises for its timeout, for what was thrown into it, or with
another condition. -/
theorem returns_error (s : St α ε) (g : Gid) (fs : List Fid) (timeout : Option Int)
    (return_when : ReturnWhen) (e : Error)
    (h : return_when = .ALL_COMPLETED ∨ return_when = .FIRST_COMPLETED →
      event_seconds timeout = .error e ∨ ∃ n, e = .thrown (some (.other n))) :
    Returns s (s.finish g fs timeout return_when (.error e)) := by
  refine Or.inr ⟨_, rfl, ?_, rfl⟩
  refine ⟨?_, ?_, ?_, ?_⟩
  · rintro done not_done ⟨⟩
  · rintro _ _ done not_done ⟨⟩
  · rintro _ _ _ done not_done ⟨⟩
  · rintro hwhen e' ⟨⟩
    exact h hwhen

/-- The sets of a call whose waiter has tracked the futures. -/
theorem Tracks.union {t : Table α ε} {c : Call} {w : Waiter} (ht : Tracks t c w) (f : Fid) :
    f ∈ c.done ∪ w.finished_futures.toFinset ↔ f ∈ c.fs ∧ (t.futs f)._state.settled = true := by
  rw [Finset.mem_union, List.mem_toFinset, ht.finished f]
  constructor
  · rintro (hd | ⟨hf, _, hs⟩)
    · exact ht.done f hd
    · exact ⟨hf, hs⟩
  · rintro ⟨hf, hs⟩
    by_cases hd : f ∈ c.done
    · exact Or.inl hd
    · exact Or.inr ⟨hf, hd, hs⟩

/-- What a waiter was told. -/
def finished_of (v : Option Waiter) : Finset Fid :=
  ((v.map Waiter.finished_futures).getD []).toFinset

/-- `wait` goes on after its event, and its waiter leaves the lists. -/
theorem waited_uninstalls {c : Call} (hall : (uninstall c.waiter c.fs s.futs).2 = true)
    {res : Event.Result} (hres : ∀ e, res ≠ .outcome (.NULL e)) (g : Gid) :
    s.waited g c res =
      St.finish { s with futs := (uninstall c.waiter c.fs s.futs).1 } g c.fs c.timeout
        c.return_when (.ok (c.done ∪ finished_of (s.waiters c.waiter),
          c.fs.toFinset \ (c.done ∪ finished_of (s.waiters c.waiter)))) := by
  cases res with
  | Py_None => simp [St.waited, hall, finished_of]
  | outcome res =>
    cases res with
    | NULL e => exact absurd rfl (hres e)
    | Py_True => simp [St.waited, hall, finished_of]
    | Py_False => simp [St.waited, hall, finished_of]

/-- `wait` goes on after its event: it finds its waiter in each list. -/
theorem waited_eq {c : Call} {w : Waiter} (hw : s.waiters c.waiter = some w)
    (ht : Tracks s.toTable c w) {res : Locks.Outcome} (hres : ∀ e, res ≠ .NULL e) :
    s.waited g c (.outcome res) =
        St.finish { s with futs := (uninstall c.waiter c.fs s.futs).1 } g c.fs c.timeout
          c.return_when (.ok (c.done ∪ w.finished_futures.toFinset,
            c.fs.toFinset \ (c.done ∪ w.finished_futures.toFinset))) ∧
      ∀ f, ((uninstall c.waiter c.fs s.futs).1 f)._state = (s.futs f)._state ∧
        ∀ w, w ≠ c.waiter → ((uninstall c.waiter c.fs s.futs).1 f)._waiters.count w =
          (s.futs f)._waiters.count w := by
  have hle : ∀ f, c.fs.count f ≤ (s.futs f)._waiters.count c.waiter :=
    fun f => (ht.installed f).ge
  obtain ⟨hall, hrest⟩ := uninstall_eq hle
  refine ⟨?_, hrest⟩
  have hend : ∀ e, Event.Result.outcome res ≠ .outcome (.NULL e) :=
    fun e he => hres e (Event.Result.outcome.inj he)
  rw [waited_uninstalls hall hend, hw]
  rfl

/-- What is returned after the event is right. -/
theorem waited_returns {c : Call} {w : Waiter} (hi : Inv s (some g))
    (hw : s.waiters c.waiter = some w) (hlt : c.waiter < s.next) (ht : Tracks s.toTable c w)
    (hnobody : ∀ g' c', g' ≠ g → s.calls g' = some c' → c'.waiter ≠ c.waiter) {res : Locks.Outcome}
    (hset : c.timeout = none → w.event.flag = true) (hres : ∀ e, res ≠ .NULL e) :
    Inv (s.waited g c (.outcome res)) none ∧ Returns s (s.waited g c (.outcome res)) := by
  obtain ⟨heq, hrest⟩ := waited_eq (g := g) hw ht hres
  rw [heq]
  generalize huninstall : (uninstall c.waiter c.fs s.futs).1 = futs at hrest
  have hstate : ∀ f, (futs f)._state = (s.futs f)._state := fun f => (hrest f).1
  constructor
  · have hrun : Inv { s with toTable := { s.toTable with futs := futs } } (some g) := by
      refine hi.relist (Nat.le_refl _) hstate (fun f w' hw' => ?_) (fun g' c' hg hc' f => ?_)
        (fun _ _ => rfl) (fun _ _ hW => Or.inl hW)
      · rcases eq_or_ne w' c.waiter with rfl | hne
        · exact hlt
        · rw [← List.count_pos_iff, (hrest f).2 w' hne, List.count_pos_iff] at hw'
          exact hi.lists f w' hw'
      · -- the other calls keep their waiters
        exact (hrest f).2 c'.waiter (hnobody g' c' hg hc')
    exact hrun.finish _ _ _ _
  · refine Or.inr ⟨_, rfl, ?_, rfl⟩
    have hsets : ∀ f, f ∈ c.done ∪ w.finished_futures.toFinset ↔
        f ∈ c.fs ∧ (futs f)._state.settled = true := by
      intro f
      rw [hstate f]
      exact ht.union f
    refine ⟨?_, ?_, ?_, ?_⟩
    · rintro done not_done ⟨⟩
      exact ⟨hsets, sets_right (t := { s.toTable with futs := futs }) hsets⟩
    · rintro hnone hwhen done not_done ⟨⟩
      have hzero := (ht.all hwhen).2.1 (hset hnone)
      rw [Finset.sdiff_eq_empty_iff_subset]
      intro f hf
      rw [List.mem_toFinset] at hf
      exact (ht.union f).2 ⟨hf, pending_zero.1 hzero f hf⟩
    · rintro hnone hwhen _ done not_done ⟨⟩
      obtain ⟨f, hf, hs⟩ := (ht.first hwhen).2.1 (hset hnone)
      exact ⟨f, (ht.union f).2 ⟨hf, hs⟩⟩
    · rintro _ e ⟨⟩

/-- No wait of the event has ended. -/
theorem settle_quiet {waiter : Wid} {w : Waiter} {e : Event.St}
    (hended : e.ended = w.event.ended) :
    s.settle waiter w e =
      { s with
        waiters := Function.update s.waiters waiter (some { w with event := e }) } := by
  simp [St.settle, hended]

/-- A turn of the loop ends no wait, or one, whose call goes on. -/
theorem settle_cases {waiter : Wid} {w : Waiter} {e : Event.St} (hi : Inv s none)
    (hw : s.waiters waiter = some w) (hturned : Event.Turned w.event e) :
    (e.pc = w.event.pc ∧ s.settle waiter w e =
        { s with
          waiters := Function.update s.waiters waiter (some { w with event := e }) }) ∨
      ∃ g c sem res, s.calls g = some c ∧ c.waiter = waiter ∧ w.event.pc g = .waiting sem ∧
        e.pc = Function.update w.event.pc g .free ∧ Event.Ends w.event g res ∧
        s.settle waiter w e =
          St.waited { s with
            waiters := Function.update s.waiters waiter (some { w with event := e }) } g c
              (.outcome res) := by
  cases hturned with
  | quiet hpc hended => exact Or.inl ⟨hpc, settle_quiet hended⟩
  | @ended g sem res hwaiting hpc hended hres =>
    have hbusy : w.event.pc g ≠ .free := by
      rw [hwaiting]
      simp
    obtain ⟨_, c, hc, hcw⟩ := hi.inside waiter w g hw hbusy
    refine Or.inr ⟨g, c, sem, res, hc, hcw, hwaiting, hpc, hres, ?_⟩
    simp [St.settle, hended, hc]

/-- What a turn of the loop does to the event of a waiter. -/
theorem settle_inv {waiter : Wid} {w : Waiter} {e : Event.St} (hi : Inv s none)
    (hw : s.waiters waiter = some w) (hs : Event.Steady e)
    (hsh : Shrinks w.event.locks e.locks) (hflag : e.flag = w.event.flag)
    (hturned : Event.Turned w.event e) :
    Inv (s.settle waiter w e) none ∧ Returns s (s.settle waiter w e) := by
  rcases settle_cases hi hw hturned with
    ⟨hpc, heq⟩ | ⟨g, c, sem, res, hc, hcw, hwaiting, hpc, hres, heq⟩
  · rw [heq]
    refine ⟨hi.turned hw hs hsh hflag (fun g _ => congrFun hpc g) ?_, Or.inl rfl⟩
    rintro g ⟨⟩
  · subst hcw
    have hrun : Inv { s with
        waiters := Function.update s.waiters c.waiter (some { w with event := e }) } (some g) := by
      refine hi.turned hw hs hsh hflag (fun g' hr => ?_) ?_
      · rw [hpc, Function.update_of_ne]
        rintro rfl
        exact hr rfl
      · rintro g' ⟨⟩
        rw [hpc, Function.update_self, hwaiting]
        exact ⟨rfl, nofun⟩
    obtain ⟨⟨w', hw', ht, _, hmuted⟩, hlt⟩ := hi.calls g c (by simp) hc
    rw [hw, Option.some.injEq] at hw'
    subst hw'
    have ht' : Tracks s.toTable c { w with event := e } := ht.event hflag
    have hnobody : ∀ g' c', g' ≠ g → s.calls g' = some c' → c'.waiter ≠ c.waiter := by
      intro g' c' hg hc' heq'
      exact hg (hi.distinct g' g c' c (by simp) (by simp) hc' hc heq')
    rw [heq]
    -- without a timeout nothing but the event ends the wait
    cases hres with
    | set hset =>
      exact waited_returns hrun (Function.update_self _ _ _) hlt
        (ht'.congr (fun _ => rfl) fun _ => rfl) hnobody (fun _ => hflag.trans hset) (by simp)
    | expired hm =>
      refine waited_returns hrun (Function.update_self _ _ _) hlt
        (ht'.congr (fun _ => rfl) fun _ => rfl) hnobody (fun hnone => ?_) (by simp)
      exact absurd (hmuted hnone) hm
    | thrown n =>
      refine ⟨hrun.finish _ _ _ _, returns_error _ g _ _ _ _ fun _ => Or.inr ⟨n, rfl⟩⟩

/-- The new waiter of a call is of the class that its condition asks for. -/
theorem create_cases (t : Table α ε) (fs : List Fid) (return_when : ReturnWhen) :
    (∃ repr e, return_when = .other repr ∧
        t._create_and_install_waiters fs return_when = .error e) ∨
      ∃ cls, t._create_and_install_waiters fs return_when =
          .ok (t.add_waiter fs cls, t.next) ∧
        (return_when = .ALL_COMPLETED →
          cls = ._AllCompletedWaiter (t.pending_count fs) false) ∧
        (return_when = .FIRST_COMPLETED → cls = ._FirstCompletedWaiter) := by
  cases return_when with
  | FIRST_COMPLETED => exact Or.inr ⟨_, rfl, nofun, fun _ => rfl⟩
  | FIRST_EXCEPTION => exact Or.inr ⟨_, rfl, nofun, nofun⟩
  | ALL_COMPLETED => exact Or.inr ⟨_, rfl, fun _ => rfl, nofun⟩
  | _AS_COMPLETED => exact Or.inr ⟨_, rfl, nofun, nofun⟩
  | other repr => exact Or.inl ⟨repr, _, rfl, rfl⟩

/-- A call that finds what it is to wait for. -/
theorem wait_now {fs : List Fid} {return_when : ReturnWhen}
    (hexc : ¬ (return_when = .FIRST_EXCEPTION ∧ (s.done fs).Nonempty))
    (h : (return_when = .FIRST_COMPLETED ∧ (s.done fs).Nonempty) ∨
      (s.done fs).card = fs.length) (g : Gid) (timeout : Option Int) :
    s.wait g fs timeout return_when =
      s.finish g fs timeout return_when (.ok (s.done fs, fs.toFinset \ s.done fs)) := by
  unfold St.wait
  dsimp only
  by_cases hfirst : return_when = .FIRST_COMPLETED ∧ (s.done fs).Nonempty
  · rw [if_pos hfirst]
  · rw [if_neg hfirst, if_neg hexc, if_pos (h.resolve_left hfirst)]

/-- A call that finds a future done raises. -/
theorem wait_raises {fs : List Fid} (h : (s.done fs).Nonempty) (g : Gid) (timeout : Option Int) :
    s.wait g fs timeout .FIRST_EXCEPTION =
      s.finish g fs timeout .FIRST_EXCEPTION
        (.error (.type_error "'bool' object is not callable")) := by
  unfold St.wait
  dsimp only
  rw [if_neg (fun hfirst => nomatch hfirst.1), if_pos ⟨rfl, h⟩]

/-- A call with another condition. -/
theorem wait_unknown {fs : List Fid} {return_when : ReturnWhen} {e : Error}
    (hfirst : ¬ (return_when = .FIRST_COMPLETED ∧ (s.done fs).Nonempty))
    (hexc : ¬ (return_when = .FIRST_EXCEPTION ∧ (s.done fs).Nonempty))
    (hcard : (s.done fs).card ≠ fs.length)
    (hcreate : s._create_and_install_waiters fs return_when = .error e) (g : Gid)
    (timeout : Option Int) :
    s.wait g fs timeout return_when = s.finish g fs timeout return_when (.error e) := by
  unfold St.wait
  dsimp only
  rw [if_neg hfirst, if_neg hexc, if_neg hcard, hcreate]

/-- A call that has installed its waiter raises for its timeout. -/
theorem wait_refused {fs : List Fid} {return_when : ReturnWhen} {cls : WaiterClass}
    (hfirst : ¬ (return_when = .FIRST_COMPLETED ∧ (s.done fs).Nonempty))
    (hexc : ¬ (return_when = .FIRST_EXCEPTION ∧ (s.done fs).Nonempty))
    (hcard : (s.done fs).card ≠ fs.length)
    (hcreate : s._create_and_install_waiters fs return_when =
      .ok (s.toTable.add_waiter fs cls, s.next)) (g : Gid) {timeout : Option Int} {e : Error}
    (hseconds : event_seconds timeout = .error e) :
    s.wait g fs timeout return_when =
      St.finish { s with toTable := s.toTable.add_waiter fs cls } g fs timeout return_when
        (.error e) := by
  unfold St.wait
  dsimp only
  rw [if_neg hfirst, if_neg hexc, if_neg hcard, hcreate, hseconds]

/-- Or it suspends. -/
theorem wait_suspends {fs : List Fid} {return_when : ReturnWhen} {cls : WaiterClass}
    (hfirst : ¬ (return_when = .FIRST_COMPLETED ∧ (s.done fs).Nonempty))
    (hexc : ¬ (return_when = .FIRST_EXCEPTION ∧ (s.done fs).Nonempty))
    (hcard : (s.done fs).card ≠ fs.length)
    (hcreate : s._create_and_install_waiters fs return_when =
      .ok (s.toTable.add_waiter fs cls, s.next)) (g : Gid) {timeout : Option Int} {seconds : Nat}
    (hseconds : event_seconds timeout = .ok seconds) :
    s.wait g fs timeout return_when =
      { s with
        futs := (s.toTable.add_waiter fs cls).futs
        waiters := Function.update (s.toTable.add_waiter fs cls).waiters s.next
          (some { Waiter.new cls with event := Event.event_wait Event.init g seconds })
        next := (s.toTable.add_waiter fs cls).next
        calls := Function.update s.calls g
          (some ⟨fs, timeout, return_when, s.done fs, s.next⟩) } := by
  have hnew : (s.toTable.add_waiter fs cls).waiters s.next = some (.new cls) :=
    Function.update_self _ _ _
  have hended := (Event.event_wait_steady Event.init_steady (g := g) rfl rfl seconds).2.2.1
  have hquiet : (Event.event_wait (Waiter.new cls).event g seconds).ended =
      (Waiter.new cls).event.ended := hended
  unfold St.wait
  dsimp only
  rw [if_neg hfirst, if_neg hexc, if_neg hcard, hcreate, hseconds]
  simp only [hnew]
  rw [settle_quiet hquiet]
  rfl

theorem add_waiter_futs (t : Table α ε) (fs : List Fid) (cls : WaiterClass) (f : Fid) :
    (t.add_waiter fs cls).futs f =
      { t.futs f with
        _waiters := (t.futs f)._waiters ++ List.replicate (fs.count f) t.next } :=
  install_eq t.next fs t.futs f

theorem add_waiter_state (t : Table α ε) (fs : List Fid) (cls : WaiterClass) (f : Fid) :
    ((t.add_waiter fs cls).futs f)._state = (t.futs f)._state := by
  rw [add_waiter_futs]

theorem Inv.add_waiter (hi : Inv s (some g)) (fs : List Fid) (cls : WaiterClass) :
    Inv { s with toTable := s.toTable.add_waiter fs cls } (some g) := by
  refine hi.relist (Nat.le_succ _) (add_waiter_state s.toTable fs cls) (fun f w hw => ?_)
    (fun g' c hg hc f => ?_) (fun w hlt => ?_) (fun w W hW => ?_)
  · simp only [add_waiter_futs, List.mem_append, List.mem_replicate] at hw
    rcases hw with hw | ⟨_, rfl⟩
    · exact Nat.lt_succ_of_lt (hi.lists f w hw)
    · exact Nat.lt_succ_self _
  · -- the waiters of the other calls are old
    have hlt : c.waiter < s.next := (hi.calls g' c (by simpa using hg.symm) hc).2
    simp only [add_waiter_futs, List.count_append, List.count_replicate]
    rw [if_neg (by simpa using Nat.ne_of_gt hlt), Nat.add_zero]
  · exact Function.update_of_ne (Nat.ne_of_lt hlt) _ _
  · rcases update_some_cases hW with ⟨rfl, rfl⟩ | ⟨_, hold⟩
    · exact Or.inr ⟨Event.init_steady, fun _ => rfl⟩
    · exact Or.inl hold

/-- A call that did not return at once waits for something. -/
theorem Inv.tracks (hi : Inv s (some g)) {c : Call} {cls : WaiterClass}
    (hwaiter : c.waiter = s.next) (hdone : c.done = s.done c.fs)
    (hfirst : ¬ (c.return_when = .FIRST_COMPLETED ∧ (s.done c.fs).Nonempty))
    (hcard : (s.done c.fs).card ≠ c.fs.length)
    (hall : c.return_when = .ALL_COMPLETED →
      cls = ._AllCompletedWaiter (s.pending_count c.fs) false)
    (hcls : c.return_when = .FIRST_COMPLETED → cls = ._FirstCompletedWaiter) {e : Event.St}
    (hflag : e.flag = false) :
    Tracks (s.toTable.add_waiter c.fs cls) c { Waiter.new cls with event := e } := by
  have hstate := add_waiter_state s.toTable c.fs cls
  have hpending : (s.toTable.add_waiter c.fs cls).pending_count c.fs =
      s.pending_count c.fs := pending_congr (fun f => by rw [hstate f]) c.fs
  refine ⟨fun f => ?_, fun f hf => ?_, fun f => ?_, fun hw => ?_, fun hw => ?_⟩
  · -- no list has the new waiter yet
    have hnew : (s.futs f)._waiters.count s.next = 0 := by
      rw [List.count_eq_zero]
      exact fun hmem => absurd (hi.lists f _ hmem) (Nat.lt_irrefl _)
    rw [hwaiter]
    simp only [add_waiter_futs, List.count_append, List.count_replicate_self, hnew,
      Nat.zero_add]
  · rw [hdone] at hf
    rw [hstate f]
    exact mem_done.1 hf
  · rw [hstate f, hdone]
    constructor
    · intro hf
      cases hf
    · rintro ⟨hf, hd, hs⟩
      exact absurd (mem_done.2 ⟨hf, hs⟩) hd
  · rw [hpending]
    refine ⟨hall hw, fun hset => ?_, fun hnodup hzero => ?_⟩
    · rw [show e.flag = true from hset] at hflag
      cases hflag
    · -- some future was not settled
      refine absurd ?_ hcard
      rw [← List.toFinset_card_of_nodup hnodup]
      congr 1
      ext f
      rw [mem_done, List.mem_toFinset]
      exact and_iff_left_of_imp (pending_zero.1 hzero f)
  · refine ⟨hcls hw, iff_of_false ?_ ?_⟩
    · show ¬ e.flag = true
      rw [hflag]
      simp
    · rintro ⟨f, hf, hs⟩
      rw [hstate f] at hs
      exact hfirst ⟨hw, f, mem_done.2 ⟨hf, hs⟩⟩

theorem wait_inv (hi : Inv s none) (hg : s.calls g = none) (fs : List Fid) (timeout : Option Int)
    (return_when : ReturnWhen) :
    Inv (s.wait g fs timeout return_when) none ∧
      Returns s (s.wait g fs timeout return_when) := by
  have hrun : Inv s (some g) := hi.enter hg
  by_cases hfirst : return_when = .FIRST_COMPLETED ∧ (s.done fs).Nonempty
  · rw [wait_now (fun hexc => nomatch hfirst.1.symm.trans hexc.1) (Or.inl hfirst)]
    exact ⟨hrun.finish _ _ _ _, returns_now s g fs timeout _ (Or.inl hfirst)⟩
  by_cases hexc : return_when = .FIRST_EXCEPTION ∧ (s.done fs).Nonempty
  · rw [hexc.1, wait_raises hexc.2]
    refine ⟨hrun.finish _ _ _ _, returns_error s g fs timeout _ _ fun hwhen => ?_⟩
    rcases hwhen with h | h
    · cases h
    · cases h
  by_cases hcard : (s.done fs).card = fs.length
  · rw [wait_now hexc (Or.inr hcard)]
    exact ⟨hrun.finish _ _ _ _, returns_now s g fs timeout _ (Or.inr hcard)⟩
  rcases create_cases s.toTable fs return_when with
    ⟨repr, e, hother, hcreate⟩ | ⟨cls, hcreate, hall, hcls⟩
  · rw [wait_unknown hfirst hexc hcard hcreate]
    refine ⟨hrun.finish _ _ _ _, returns_error s g fs timeout _ _ fun hwhen => ?_⟩
    rw [hother] at hwhen
    rcases hwhen with h | h
    · cases h
    · cases h
  · have hinstalled := hrun.add_waiter fs cls
    have hnew : (s.toTable.add_waiter fs cls).waiters s.next = some (.new cls) :=
      Function.update_self _ _ _
    cases hseconds : event_seconds timeout with
    | error e =>
      rw [wait_refused hfirst hexc hcard hcreate g hseconds]
      exact ⟨hinstalled.finish _ _ _ _,
        returns_error _ g fs timeout _ _ fun _ => Or.inl hseconds⟩
    | ok seconds =>
      obtain ⟨hsteady, hflag, _, hpc, hmuted⟩ :=
        Event.event_wait_steady Event.init_steady (g := g) rfl rfl seconds
      have htracks := hrun.tracks (c := ⟨fs, timeout, return_when, s.done fs, s.next⟩) rfl rfl
        hfirst hcard hall hcls hflag
      rw [wait_suspends hfirst hexc hcard hcreate g hseconds]
      refine ⟨hinstalled.park (c := ⟨fs, timeout, return_when, s.done fs, s.next⟩) hnew
        (Nat.lt_succ_self _) (fun g' c' hg' hc' => ?_) hsteady hpc htracks fun hnone => ?_,
        Or.inl rfl⟩
      · exact Nat.ne_of_lt (hi.calls g' c' (by simp) hc').2
      · refine hmuted ?_
        rw [show timeout = none from hnone] at hseconds
        cases hseconds
        rfl

/-! ## Steps -/

/-- A future that runs cannot be cancelled. -/
theorem cancel_running (t : Table α ε) (future f : Fid)
    (h : (t.futs f)._state = .RUNNING) : ((t.cancel future).futs f)._state = .RUNNING := by
  unfold Table.cancel Table.put
  rcases eq_or_ne f future with rfl | hne
  · show (Function.update t.futs f _ f)._state = _
    rw [Function.update_self]
    unfold Future.cancel
    rw [h]
    exact h
  · show (Function.update t.futs future _ f)._state = _
    rw [Function.update_of_ne hne]
    exact h

/-- One worker goes on, and the futures of the others are as they were. -/
theorem running_update {workers : Fid → Worker} {futs futs' : Fid → Future α ε} {future : Fid}
    {worker : Worker} (hrunning : ∀ f, workers f = .running → (futs f)._state = .RUNNING)
    (hothers : ∀ f, f ≠ future → futs' f = futs f)
    (hfuture : worker = .running → (futs' future)._state = .RUNNING) (f : Fid)
    (hf : Function.update workers future worker f = .running) :
    (futs' f)._state = .RUNNING := by
  rcases eq_or_ne f future with rfl | hne
  · rw [Function.update_self] at hf
    exact hfuture hf
  · rw [Function.update_of_ne hne] at hf
    rw [hothers f hne]
    exact hrunning f hf

theorem Inv.completed (hi : Inv s none) (hg : s.calls g = none) {t : Table α ε} {future : Fid}
    (hs : Settles s.toTable t future g) : Inv (s.completed future t) none :=
  ((hi.enter hg).settles hs (running_update hi.running hs.others fun h => by cases h)).leave hg

theorem Inv.began (hi : Inv s none) (hg : s.calls g = none) (future : Fid) :
    Inv (s.began future (s.toTable.set_running_or_notify_cancel future g)) none := by
  rcases set_running_cases s.toTable future g with
    ⟨_, t, ht, hstate, hothers, hq⟩ | ⟨_, t, ht, hs⟩ | ⟨e, he⟩
  · rw [ht]
    exact hi.quiet hq (running_update hi.running hothers fun _ => hstate)
  · rw [ht]
    exact hi.completed hg hs
  · rw [he]
    have hq : Quiet s.toTable s.toTable := ⟨fun _ => rfl, fun _ => rfl, rfl, rfl⟩
    exact hi.quiet hq (running_update hi.running (fun _ _ => rfl) fun h => by cases h)

/-- The future of a worker that runs is not settled. -/
theorem Inv.unsettled (hi : Inv s none) {future : Fid} (h : s.workers future = .running) :
    (s.futs future)._state.settled = false := by
  rw [hi.running future h]
  rfl

/-- What a turn does to the event of a waiter is settled. -/
theorem turn_cases {s s' : St α ε} {waiter : Wid} {a : Event.Act}
    (h : step s (.turn waiter a) = some s') :
    ∃ w e, s.waiters waiter = some w ∧ a.passive = true ∧ Event.step w.event a = some e ∧
      s' = s.settle waiter w e := by
  simp only [step] at h
  split at h
  · cases h
  next w hw =>
    obtain ⟨hpassive, hmap⟩ := Option.ite_none_right_eq_some.1 h
    obtain ⟨e, he, heq⟩ := Option.map_eq_some_iff.1 hmap
    exact ⟨w, e, hw, hpassive, he, heq.symm⟩

theorem step_inv (s : St α ε) (a : Act α ε) (s' : St α ε) (h : step s a = some s')
    (hi : Inv s none) : Inv s' none ∧ Returns s s' := by
  cases a with
  | cancel g future =>
    obtain ⟨_, heq⟩ := Option.ite_none_right_eq_some.1 h
    cases heq
    refine ⟨hi.quiet (cancel_quiet s.toTable future) fun f hf => ?_, Or.inl rfl⟩
    exact cancel_running s.toTable future f (hi.running f hf)
  | set_running_or_notify_cancel g future =>
    obtain ⟨⟨hg, _⟩, heq⟩ := Option.ite_none_right_eq_some.1 h
    cases heq
    refine ⟨hi.began hg future, Or.inl ?_⟩
    unfold St.began
    split <;> rfl
  | set_result g future result =>
    obtain ⟨⟨hg, hworker⟩, heq⟩ := Option.ite_none_right_eq_some.1 h
    cases heq
    exact ⟨hi.completed hg (set_result_settles (hi.unsettled hworker) result), Or.inl rfl⟩
  | set_exception g future exception =>
    obtain ⟨⟨hg, hworker⟩, heq⟩ := Option.ite_none_right_eq_some.1 h
    cases heq
    exact ⟨hi.completed hg (set_exception_settles (hi.unsettled hworker) exception), Or.inl rfl⟩
  | wait g fs timeout return_when =>
    obtain ⟨hg, heq⟩ := Option.ite_none_right_eq_some.1 h
    cases heq
    exact wait_inv hi hg fs timeout return_when
  | turn waiter a =>
    obtain ⟨w, e, hw, hpassive, he, rfl⟩ := turn_cases h
    obtain ⟨hs, hsh, hflag, hturned⟩ := Event.passive_steady (hi.steady waiter w hw) hpassive he
    exact settle_inv hi hw hs hsh hflag hturned

/-- A suspended call whose condition is met has been told. -/
theorem Inv.woken (hi : Inv s none) {c : Call} (hc : s.calls g = some c) (hnodup : c.fs.Nodup)
    (hmet : Met s.toTable c) : Woken s.toTable g c := by
  obtain ⟨⟨w, hw, ht, ⟨sem, hsem⟩, _⟩, _⟩ := hi.calls g c (by simp) hc
  have hflag : w.event.flag = true := by
    rcases hmet with ⟨hwhen, hall⟩ | ⟨hwhen, hsome⟩
    · exact (ht.all hwhen).2.2 hnodup (pending_zero.2 hall)
    · exact (ht.first hwhen).2.2 hsome
  obtain ⟨hpos, hdue⟩ := (hi.steady _ w hw).inv.serves.woken hflag g sem hsem
  exact ⟨w, sem, hw, hflag, hsem, hpos, hdue⟩

end Wait

/-! ## Runs -/

/-- What holds between two steps. -/
def Sound (s : St α ε) : Prop := Inv s none ∧ ∀ r ∈ s.returned, Right r

theorem init_sound (futs : Fid → Future α ε) : Sound (St.init futs) := by
  refine ⟨init_inv futs, ?_⟩
  intro r hr
  cases hr

theorem step_sound (s : St α ε) (a : Act α ε) (s' : St α ε) (h : step s a = some s')
    (hs : Sound s) : Sound s' := by
  obtain ⟨hi, hreturns⟩ := step_inv s a s' h hs.1
  refine ⟨hi, fun r hr => ?_⟩
  rcases hreturns with heq | ⟨r', heq, hr', _⟩
  · rw [heq] at hr
    exact hs.2 r hr
  · rw [heq, List.mem_append, List.mem_singleton] at hr
    rcases hr with hr | rfl
    · exact hs.2 r hr
    · exact hr'

/-- In every run, what `wait` returns is right when it returns, and no wake-up is
lost. -/
theorem wait_right (futs : Fid → Future α ε) (as : List (Act α ε)) (t : St α ε)
    (h : Trace.run step (St.init futs) as = some t) :
    (∀ r ∈ t.returned, Right r) ∧
      (∀ g c, t.calls g = some c → c.fs.Nodup → Met t.toTable c → Woken t.toTable g c) ∧
      ∀ a t', step t a = some t' → Returns t t' := by
  obtain ⟨hi, hright⟩ := Trace.run_invariant step_sound (init_sound futs) h
  refine ⟨hright, fun g c hc hnodup hmet => ?_, fun a t' hstep => ?_⟩
  · exact hi.woken hc hnodup hmet
  · exact (step_inv t a t' hstep hi).2

/-- A pending future, a running one and a cancelled one. -/
def threeFutures (f : Fid) : Future Nat Nat :=
  { Future.new with
    _state := if f = 0 then .PENDING else if f = 1 then .RUNNING else .CANCELLED }

/-- One greenlet waits for all three, and another for the first of two of them;
the last future completes after the other greenlet was told, and before it runs. -/
def threeRun : List (Act Nat Nat) :=
  [.wait 7 [0, 1, 2] none .ALL_COMPLETED, .wait 8 [2, 0] (some 5) .FIRST_COMPLETED,
    .set_running_or_notify_cancel 9 0, .set_result 9 1 (some 4), .set_running_or_notify_cancel 9 2,
    .set_exception 9 0 3, .turn 1 (.fire 8), .turn 0 (.fire 7), .turn 0 (.fire 7)]

theorem wait_right_three : ∃ t, Trace.run step (St.init threeFutures) threeRun = some t ∧
    t.returned.map (fun r => r.result.toOption) = [some ({0, 2}, ∅), some ({0, 1, 2}, ∅)] ∧
      ∀ r ∈ t.returned, Right r := by
  have h : (Trace.run step (St.init threeFutures) threeRun).any (fun t =>
      decide (t.returned.map (fun r => r.result.toOption) =
        [some ({0, 2}, ∅), some ({0, 1, 2}, ∅)])) = true := by
    decide
  obtain ⟨t, ht, hresults⟩ := Trace.run_any h
  rw [decide_eq_true_eq] at hresults
  exact ⟨t, ht, hresults, (wait_right threeFutures threeRun t ht).1⟩

end Jega.Futures.Waiting
