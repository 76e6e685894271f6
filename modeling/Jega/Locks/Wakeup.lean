import Jega.Locks.Semaphore
import Jega.Loop.Queued

/-!
# Jega.Locks.Wakeup — permits, blocked greenlets and `_notify_waiter`

Every release made while somebody waits queues one `_notify_waiter`, and a
permit is gone or a waiter is gone for each of them that runs. The counting
invariant `Inv.due` says so: the permits that could be taken by waiters are
covered by queued calls.
-/

namespace Jega.Locks

/-- `g` is suspended inside `semaphore_acquire` on `sem`. -/
def Blocked (s : St) (sem : Sid) (g : Gid) : Prop :=
  ∃ timer, s.frames g = some ⟨sem, timer⟩

/-- The `_notify_waiter` calls of `sem` in the loop's queue. -/
def notifies (s : St) (sem : Sid) : Nat := s.loop.queued (.call (.notify_waiter sem))

/-- What no schedule may break. -/
structure NoLostWakeup (s : St) : Prop where
  /-- The waiters are the greenlets suspended inside `semaphore_acquire`. -/
  waiting : ∀ sem g, g ∈ (s.sems sem).waiters ↔ Blocked s sem g
  /-- Permits that waiters could take are covered by queued calls. -/
  due : ∀ sem, min (s.sems sem).counter.toNat (s.sems sem).waiters.card ≤ notifies s sem
  /-- With an empty queue nobody is blocked on a semaphore that has permits. -/
  served : s.loop.pendings = [] → ∀ sem g, Blocked s sem g → (s.sems sem).counter = 0

/-- The timer of a blocked greenlet is allocated and aimed at no call of its
own. -/
def Timers (s : St) : Prop :=
  ∀ g f, s.frames g = some f → f.timer < s.loop.next ∧ s.loop.target f.timer = .nothing

/-- The invariant. -/
structure Inv (s : St) : Prop where
  waiting : ∀ sem g, g ∈ (s.sems sem).waiters ↔ Blocked s sem g
  timers : Timers s
  due : ∀ sem, min (s.sems sem).counter.toNat (s.sems sem).waiters.card ≤ notifies s sem

theorem Inv.noLostWakeup {s : St} (hi : Inv s) : NoLostWakeup s := by
  refine ⟨hi.waiting, hi.due, fun hempty sem g hb => ?_⟩
  have hdue := hi.due sem
  have hcard : 0 < (s.sems sem).waiters.card :=
    Finset.card_pos.2 ⟨g, (hi.waiting sem g).2 hb⟩
  have hq : notifies s sem = 0 := by
    simp [notifies, LoopObject.queued, hempty]
  have hzero : (s.sems sem).counter.toNat = 0 := by
    omega
  exact UInt32.toNat_inj.1 hzero

theorem init_inv (value : Sid → Int) : Inv (init value) := by
  refine ⟨fun sem g => ?_, fun g f hf => ?_, fun sem => ?_⟩
  · simp [init, SemaphoreObject.init, Blocked]
  · simp [init] at hf
  · simp [init, SemaphoreObject.init]

/-! ## The counter -/

theorem counter_pos_iff (c : UInt32) : c > 0 ↔ 0 < c.toNat := by
  simp [UInt32.lt_iff_toNat_lt]

theorem counter_pred {c : UInt32} (h : c > 0) : (c - 1).toNat + 1 = c.toNat := by
  have hpos := (counter_pos_iff c).1 h
  have hle : (1 : UInt32) ≤ c := by
    rw [UInt32.le_iff_toNat_le]
    exact hpos
  rw [UInt32.toNat_sub_of_le _ _ hle]
  have hone : (1 : UInt32).toNat = 1 := rfl
  omega

theorem counter_succ_le (c : UInt32) : (c + 1).toNat ≤ c.toNat + 1 := by
  rw [UInt32.toNat_add]
  exact Nat.mod_le _ _

/-! ## Leaving the wait -/

/-- `Inv` at a moment when `g`, about to run, may have been popped already. -/
structure Resuming (s : St) (g : Gid) : Prop where
  blocked : ∀ sem g', g' ∈ (s.sems sem).waiters → Blocked s sem g'
  waiting : ∀ sem g', g' ≠ g → Blocked s sem g' → g' ∈ (s.sems sem).waiters
  timers : Timers s

theorem Inv.resuming {s : St} (hi : Inv s) (g : Gid) : Resuming s g :=
  ⟨fun sem g' h => (hi.waiting sem g').1 h, fun sem g' _ h => (hi.waiting sem g').2 h, hi.timers⟩

theorem fin_notifies {s : St} {g : Gid} {f : Frame} {res : Outcome}
    (ht : s.loop.target f.timer = .nothing) (sem : Sid) :
    notifies (fin s g f res) sem = notifies s sem := by
  show (s.loop.cancel f.timer).queued _ = s.loop.queued _
  refine LoopObject.queued_cancel ?_ ?_
  · rw [ht]
    simp
  · simp

/-- Leaving through `fin` restores the invariant, provided the calls cover the
waiters that remain. -/
theorem fin_inv {s : St} {g : Gid} {f : Frame} (res : Outcome) (hr : Resuming s g)
    (hf : s.frames g = some f)
    (hother : ∀ sem, sem ≠ f.self →
      min (s.sems sem).counter.toNat (s.sems sem).waiters.card ≤ notifies s sem)
    (hself : min (s.sems f.self).counter.toNat ((s.sems f.self).waiters.erase g).card ≤
      notifies s f.self) : Inv (fin s g f res) := by
  have hframes : (fin s g f res).frames = Function.update s.frames g none := rfl
  have hsems : (fin s g f res).sems = Function.update s.sems f.self
      { s.sems f.self with waiters := (s.sems f.self).waiters.erase g } := rfl
  refine ⟨fun sem g' => ?_, fun g' f' hf' => ?_, fun sem => ?_⟩
  · by_cases hg : g' = g
    · -- Case: the greenlet that leaves is in no set
      subst hg
      have hnot : g' ∉ ((fin s g' f res).sems sem).waiters := by
        rw [hsems]
        by_cases hsem : sem = f.self
        · subst hsem
          simp
        · rw [Function.update_of_ne hsem]
          intro hmem
          rcases hr.blocked sem g' hmem with ⟨timer, hb⟩
          rw [hf, Option.some.injEq] at hb
          rw [hb] at hsem
          exact hsem rfl
      have hnone : ¬ Blocked (fin s g' f res) sem g' := by
        simp [Blocked, hframes]
      exact iff_of_false hnot hnone
    · -- Case: the others stay as they are
      have hb : Blocked (fin s g f res) sem g' ↔ Blocked s sem g' := by
        simp [Blocked, hframes, Function.update_of_ne hg]
      have hmem : g' ∈ ((fin s g f res).sems sem).waiters ↔ g' ∈ (s.sems sem).waiters := by
        rw [hsems]
        by_cases hsem : sem = f.self
        · subst hsem
          simp [hg]
        · rw [Function.update_of_ne hsem]
      rw [hb, hmem]
      exact ⟨hr.blocked sem g', hr.waiting sem g' hg⟩
  · rw [hframes] at hf'
    by_cases hg : g' = g
    · subst hg
      simp at hf'
    · rw [Function.update_of_ne hg] at hf'
      have hold := hr.timers g' f' hf'
      refine ⟨hold.1, ?_⟩
      show (s.loop.cancel f.timer).target f'.timer = .nothing
      by_cases ht : f'.timer = f.timer
      · rw [ht]
        exact LoopObject.target_cancel_self _ _
      · rw [LoopObject.target_cancel_of_ne ht]
        exact hold.2
  · rw [fin_notifies (hr.timers g f hf).2, hsems]
    by_cases hsem : sem = f.self
    · subst hsem
      simpa using hself
    · rw [Function.update_of_ne hsem]
      exact hother sem hsem

/-- A resumed waiter that takes a permit. -/
theorem fin_take_inv {s : St} {g : Gid} {f : Frame} (hr : Resuming s g)
    (hf : s.frames g = some f) (hc : (s.sems f.self).counter > 0)
    (hother : ∀ sem, sem ≠ f.self →
      min (s.sems sem).counter.toNat (s.sems sem).waiters.card ≤ notifies s sem)
    (hself : min (s.sems f.self).counter.toNat (((s.sems f.self).waiters.erase g).card + 1) ≤
      notifies s f.self + 1) : Inv (fin (take s f.self) g f .Py_True) := by
  have hsems : (take s f.self).sems = Function.update s.sems f.self
      { s.sems f.self with counter := (s.sems f.self).counter - 1 } := rfl
  have hwaiters : ∀ sem, ((take s f.self).sems sem).waiters = (s.sems sem).waiters := by
    intro sem
    rw [hsems]
    by_cases hsem : sem = f.self
    · subst hsem
      simp
    · rw [Function.update_of_ne hsem]
  have hr' : Resuming (take s f.self) g := by
    refine ⟨fun sem g' hm => ?_, fun sem g' hg hb => ?_, hr.timers⟩
    · rw [hwaiters] at hm
      exact hr.blocked sem g' hm
    · rw [hwaiters]
      exact hr.waiting sem g' hg hb
  refine fin_inv .Py_True hr' hf (fun sem hsem => ?_) ?_
  · rw [hwaiters, hsems, Function.update_of_ne hsem]
    exact hother sem hsem
  · have hpred := counter_pred hc
    rw [hwaiters, hsems, Function.update_self]
    show min _ _ ≤ notifies s f.self
    simp only
    omega

/-- Resuming a blocked greenlet from outside `_notify_waiter`. -/
theorem resume_inv {s : St} (hi : Inv s) (g : Gid) (r : Resumption) : Inv (resume s g r).1 := by
  unfold resume
  cases hf : s.frames g with
  | none => exact hi
  | some f =>
    have hmem : g ∈ (s.sems f.self).waiters := (hi.waiting f.self g).2 ⟨f.timer, hf⟩
    have hcard := Finset.card_erase_of_mem hmem
    have hpos : 0 < (s.sems f.self).waiters.card := Finset.card_pos.2 ⟨g, hmem⟩
    have hdue := hi.due f.self
    cases r with
    | value v =>
      simp only [acquire_resumed]
      split
      next hc =>
        refine fin_take_inv (hi.resuming g) hf hc (fun sem _ => hi.due sem) ?_
        omega
      · exact hi
    | throw e =>
      simp only [acquire_resumed]
      refine fin_inv _ (hi.resuming g) hf (fun sem _ => hi.due sem) ?_
      omega

/-! ## The steps -/

/-- A step that moves no greenlet keeps the invariant while the calls cover the
permits. -/
theorem Inv.congr {s s' : St} (hi : Inv s)
    (hw : ∀ sem, (s'.sems sem).waiters = (s.sems sem).waiters) (hf : s'.frames = s.frames)
    (hn : s.loop.next ≤ s'.loop.next)
    (ht : ∀ h, h < s.loop.next → s'.loop.target h = s.loop.target h)
    (hdue : ∀ sem, min (s'.sems sem).counter.toNat (s.sems sem).waiters.card ≤ notifies s' sem) :
    Inv s' := by
  refine ⟨fun sem g => ?_, fun g f hg => ?_, fun sem => ?_⟩
  · rw [hw]
    unfold Blocked
    rw [hf]
    exact hi.waiting sem g
  · rw [hf] at hg
    rcases hi.timers g f hg with ⟨hlt, htarget⟩
    refine ⟨Nat.lt_of_lt_of_le hlt hn, ?_⟩
    rw [ht _ hlt]
    exact htarget
  · rw [hw]
    exact hdue sem

/-- A loop that loses nothing. -/
theorem loop_inv {s : St} (hi : Inv s) {loop : LoopObject Callback} (hl : s.loop.Grows loop) :
    Inv { s with loop := loop } :=
  hi.congr (fun _ => rfl) rfl hl.next_le hl.target
    fun sem => (hi.due sem).trans (hl.queued (.call (.notify_waiter sem)))

/-- A greenlet that blocks finds no permit. -/
theorem block_inv {s : St} (hi : Inv s) {g : Gid} (hfree : s.frames g = none) (sem : Sid)
    (timeout : Nat) (hc : ¬ (s.sems sem).counter > 0) :
    Inv { s with
      loop := (s.loop.loop_set_timeout timeout (.throw g)).1
      sems := Function.update s.sems sem
        { s.sems sem with waiters := insert g (s.sems sem).waiters }
      frames := Function.update s.frames g (some ⟨sem, s.loop.next⟩) } := by
  have hnot : ∀ sem', g ∉ (s.sems sem').waiters := by
    intro sem' hmem
    rcases (hi.waiting sem' g).1 hmem with ⟨timer, hb⟩
    rw [hfree] at hb
    cases hb
  refine ⟨fun sem' g' => ?_, fun g' f hf => ?_, fun sem' => ?_⟩
  · -- Waiting: the caller is in the set and blocked
    by_cases hg : g' = g
    · subst hg
      by_cases hsem : sem' = sem
      · subst hsem
        simp [Blocked]
      · simp [Blocked, Function.update_of_ne hsem, hnot, Ne.symm hsem]
    · have hold := hi.waiting sem' g'
      by_cases hsem : sem' = sem
      · subst hsem
        simpa [Blocked, hg] using hold
      · simpa [Blocked, hg, Function.update_of_ne hsem] using hold
  · -- Timers: the new one is aimed at nothing that counts
    by_cases hg : g' = g
    · subst hg
      simp only [Function.update_self, Option.some.injEq] at hf
      subst hf
      refine ⟨?_, LoopObject.target_loop_set_timeout_self _ _ _⟩
      rw [LoopObject.loop_set_timeout_next]
      exact Nat.lt_succ_self _
    · simp only [Function.update_of_ne hg] at hf
      rcases hi.timers g' f hf with ⟨hlt, htarget⟩
      refine ⟨?_, ?_⟩
      · rw [LoopObject.loop_set_timeout_next]
        exact Nat.lt_succ_of_lt hlt
      · rw [LoopObject.target_loop_set_timeout_lt hlt]
        exact htarget
  · -- Due: without a permit no call is needed
    have hq : (s.loop.loop_set_timeout timeout (.throw g)).1.queued (.call (.notify_waiter sem')) =
        s.loop.queued (.call (.notify_waiter sem')) :=
      LoopObject.queued_loop_set_timeout _ _ (by simp) (by simp)
    show min _ _ ≤ (s.loop.loop_set_timeout timeout (.throw g)).1.queued _
    rw [hq]
    by_cases hsem : sem' = sem
    · subst hsem
      have hzero : (s.sems sem').counter.toNat = 0 := by
        rw [counter_pos_iff] at hc
        omega
      simp [hzero]
    · simp only [Function.update_of_ne hsem]
      exact hi.due sem'

theorem acquire_inv {s : St} (hi : Inv s) {g : Gid} (hfree : s.frames g = none) (sem : Sid)
    (blocking : Bool) (timeout : Nat) : Inv (semaphore_acquire s sem g blocking timeout).1 := by
  unfold semaphore_acquire
  split
  next hc =>
    -- Case: a permit is taken on the fast path
    refine hi.congr (fun sem' => ?_) rfl (le_refl _) (fun _ _ => rfl) (fun sem' => ?_)
    · by_cases hsem : sem' = sem
      · subst hsem
        simp [note, take]
      · simp [note, take, Function.update_of_ne hsem]
    · have hdue := hi.due sem'
      by_cases hsem : sem' = sem
      · subst hsem
        have hpred := counter_pred hc
        have hcounter : ((note (take s sem') sem' (.acquire g .Py_True)).sems sem').counter =
            (s.sems sem').counter - 1 := by
          simp [note, take]
        rw [hcounter]
        show _ ≤ notifies s sem'
        omega
      · have hcounter : ((note (take s sem) sem (.acquire g .Py_True)).sems sem').counter =
            (s.sems sem').counter := by
          simp [note, take, Function.update_of_ne hsem]
        rw [hcounter]
        exact hdue
  next hc =>
    split
    · -- Case: non-blocking
      exact hi.congr (fun _ => rfl) rfl (le_refl _) (fun _ _ => rfl) hi.due
    · exact block_inv hi hfree sem timeout hc

/-- A release queues a call for its semaphore when somebody waits. -/
theorem release_notifies (s : St) (sem sem' : Sid) (g : Gid) :
    notifies (semaphore_release s sem g) sem' = notifies s sem' +
      if sem = sem' ∧ (s.sems sem).waiters.card > 0 then 1 else 0 := by
  rw [semaphore_release_eq]
  by_cases hw : (s.sems sem).waiters.card > 0
  · simp [hw, LoopObject.queued_loop_schedule_call, notifies, note]
  · simp [hw, notifies, note]

/-- A release adds at most one permit, and a call when somebody waits. -/
theorem release_inv {s : St} (hi : Inv s) (g : Gid) (sem : Sid) :
    Inv (semaphore_release s sem g) := by
  have hqueued := release_notifies s sem (g := g)
  rw [semaphore_release_eq] at hqueued ⊢
  generalize hloop : (if (s.sems sem).waiters.card > 0
    then (s.loop.loop_schedule_call 0 (some (.notify_waiter sem)) none).1 else s.loop) = loop
    at hqueued ⊢
  have hgrows : s.loop.Grows loop := by
    rw [← hloop]
    split
    · exact LoopObject.grows_loop_schedule_call _ _ _ _
    · exact LoopObject.Grows.refl _
  refine hi.congr (fun sem' => ?_) rfl hgrows.next_le hgrows.target (fun sem' => ?_)
  · by_cases hsem : sem' = sem
    · subst hsem
      simp [note]
    · simp [note, Function.update_of_ne hsem]
  · have hdue := hi.due sem'
    rw [hqueued]
    by_cases hsem : sem' = sem
    · subst hsem
      have hsucc := counter_succ_le (s.sems sem').counter
      simp only [note, Function.update_self, true_and]
      split <;> omega
    · simp only [note, Function.update_of_ne hsem]
      omega

/-- Firing an entry of the queue takes one call away, and a `_notify_waiter`
that runs takes a permit or a waiter with it. -/
theorem fire_inv {s : St} (hi : Inv s) {waiter : Gid} {r : St × Option (Gid × Outcome)}
    (h : fire s waiter = some r) : Inv r.1 := by
  rcases fire_cases h with ⟨loop, eff, hfire, hcase⟩
  rcases LoopObject.fire_pendings_next_spec hfire with
    ⟨item, _, _, _, hnext, _, htarget, hcount, hcall, _⟩
  have hkeep : ∀ sem, eff ≠ .call (.notify_waiter sem) →
      loop.queued (.call (.notify_waiter sem)) = notifies s sem := by
    intro sem hne
    have hitem : s.loop.target item ≠ .call (.notify_waiter sem) := fun ht => hne (hcall _ ht)
    have hc := hcount (.call (.notify_waiter sem))
    rw [if_neg hitem] at hc
    exact hc.symm
  have hloop : (∀ sem, eff ≠ .call (.notify_waiter sem)) → Inv { s with loop := loop } := by
    intro hne
    refine hi.congr (fun _ => rfl) rfl (le_of_eq hnext.symm) (fun h _ => htarget h)
      (fun sem => ?_)
    show _ ≤ loop.queued _
    rw [hkeep sem (hne sem)]
    exact hi.due sem
  rcases hcase with ⟨sem, r', heff, _, hnotify, rfl⟩ | ⟨g, timer, rfl, _, hr, _⟩ | ⟨hne, _, rfl⟩
  · -- Case: `_notify_waiter`
    have hothers : ∀ sem', sem' ≠ sem →
        min (s.sems sem').counter.toNat (s.sems sem').waiters.card ≤
          loop.queued (.call (.notify_waiter sem')) := by
      intro sem' hsem
      rw [hkeep sem' (by rw [heff]; simp [Ne.symm hsem])]
      exact hi.due sem'
    have htimers : Timers { s with loop := loop } := by
      intro g f hf
      rcases hi.timers g f hf with ⟨hlt, ht⟩
      exact ⟨lt_of_lt_of_eq hlt hnext.symm, (htarget _).trans ht⟩
    rcases notify_waiter_cases hnotify with ⟨hzero, rfl⟩ | ⟨hc, hmem, rfl⟩
    · refine ⟨hi.waiting, htimers, fun sem' => ?_⟩
      by_cases hsem : sem' = sem
      · subst hsem
        exact le_of_eq_of_le hzero (Nat.zero_le _)
      · exact hothers sem' hsem
    · rcases (hi.waiting sem waiter).1 hmem with ⟨timer, hb⟩
      have hc' : ((pop { s with loop := loop } sem waiter).sems sem).counter > 0 := by
        simpa [pop] using hc
      have hwaiters : ∀ sem' g, g ∈ ((pop { s with loop := loop } sem waiter).sems sem').waiters ↔
          g ∈ (s.sems sem').waiters ∧ ¬ (sem' = sem ∧ g = waiter) := by
        intro sem' g
        by_cases hsem : sem' = sem
        · subst hsem
          simp [pop, and_comm]
        · simp [pop, hsem]
      have hr : Resuming (pop { s with loop := loop } sem waiter) waiter := by
        refine ⟨fun sem' g hm => ?_, fun sem' g hg hb' => ?_, htimers⟩
        · exact (hi.waiting sem' g).1 ((hwaiters sem' g).1 hm).1
        · exact (hwaiters sem' g).2 ⟨(hi.waiting sem' g).2 hb', fun h => hg h.2⟩
      have hq : s.loop.queued (.call (.notify_waiter sem)) ≤
          loop.queued (.call (.notify_waiter sem)) + 1 := by
        rw [hcount]
        split <;> omega
      have hdue : min (s.sems sem).counter.toNat (s.sems sem).waiters.card ≤
          s.loop.queued (.call (.notify_waiter sem)) := hi.due sem
      have hcard := Finset.card_erase_add_one hmem
      have hb' : (pop { s with loop := loop } sem waiter).frames waiter = some ⟨sem, timer⟩ := hb
      rw [resume_take hb' hc']
      refine fin_take_inv hr hb hc' (fun sem' hsem => ?_) ?_
      · have hsame : (pop { s with loop := loop } sem waiter).sems sem' = s.sems sem' := by
          simp [pop, Function.update_of_ne hsem]
        rw [hsame]
        exact hothers sem' hsem
      · have hsame : (pop { s with loop := loop } sem waiter).sems sem =
            { s.sems sem with waiters := (s.sems sem).waiters.erase waiter } := by
          simp [pop]
        rw [hsame]
        show min _ _ ≤ loop.queued _ + 1
        simp only [Finset.erase_idem]
        rw [hcard]
        exact hdue.trans hq
  · -- Case: a deadline
    rw [hr]
    exact resume_inv (hloop (by simp)) g _
  · -- Case: any other entry
    exact hloop hne

theorem step_inv (s : St) (a : Act) (s' : St) (h : step s a = some s') (hi : Inv s) : Inv s' := by
  cases step_cases h with
  | acquire hfree => exact acquire_inv hi hfree _ _ _
  | release _ => exact release_inv hi _ _
  | fire hfire => exact fire_inv hi hfire
  | due hloop => exact loop_inv hi (LoopObject.grows_fire_timers_next hloop)
  | throw => exact resume_inv hi _ _
  | switch => exact resume_inv hi _ _
  | call_soon => exact loop_inv hi (LoopObject.grows_loop_schedule_call _ _ _ _)

/-! ## Runs -/

/-- No schedule loses a wake-up. -/
theorem no_lost_wakeup (value : Sid → Int) (as : List Act) (t : St)
    (h : Trace.run step (init value) as = some t) : NoLostWakeup t :=
  (Trace.run_invariant step_inv (init_inv value) h).noLostWakeup

/-- A notified waiter that timed out first, a permit taken by another greenlet,
and a release to the waiter that is left. -/
theorem no_lost_wakeup_barging : ∃ t, Trace.run step (init fun _ => 0)
    [.acquire 1 0 true 5, .acquire 2 0 true 0, .release 3 0, .due 0, .acquire 4 0 false 0,
      .fire 2, .fire 2, .fire 0, .release 4 0] = some t ∧ NoLostWakeup t := by
  have h : (Trace.run step (init fun _ => 0)
      [.acquire 1 0 true 5, .acquire 2 0 true 0, .release 3 0, .due 0, .acquire 4 0 false 0,
        .fire 2, .fire 2, .fire 0, .release 4 0]).any (fun _ => true) = true := by
    decide
  rcases Trace.run_any h with ⟨t, ht, _⟩
  exact ⟨t, ht, no_lost_wakeup _ _ t ht⟩

end Jega.Locks
