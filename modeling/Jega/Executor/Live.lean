import Jega.Executor.Invariant

/-!
# Jega.Executor.Live — workers that will run again

A worker is *live* when it is inside a submitted function, or when it runs, or
when the queue of the loop holds enough switches into it: one for an unstarted
or parked worker, and more than there are waiters left for a worker that is
suspended in its `back_waiter`.

## Main results

* `live_step`: a step that completes no item with too many waiters keeps a live
  worker live, until it parks with nothing to do or returns.
* `own_back_waiter_step`: the only way into an own `back_waiter` is the
  completion of an item.
-/

namespace Jega.Executor

open Trace LoopObject

/-- What keeps a worker outside submitted functions going, by its place. -/
def Due (s : St) (w : Gid) : Where → Prop
  | .worker_loop => w = s.current
  | .unstarted | .parked => 0 < s.loop.queued (.switch w)
  | .back_waiter f =>
    (s.futures f).waiters.card + (if w = s.current then 0 else 1) ≤ s.loop.queued (.switch w)
  | _ => False

instance (s : St) (w : Gid) : ∀ l, Decidable (Due s w l)
  | .worker_loop => inferInstanceAs (Decidable (w = s.current))
  | .unstarted | .parked => inferInstanceAs (Decidable (0 < s.loop.queued (.switch w)))
  | .back_waiter f =>
    inferInstanceAs (Decidable ((s.futures f).waiters.card + (if w = s.current then 0 else 1) ≤
      s.loop.queued (.switch w)))
  | .unborn | .user | .start _ | .wait_future _ | .dead => inferInstanceAs (Decidable False)

/-- The worker is in a submitted function, or something will make it run. -/
def Live (s : St) (w : Gid) : Prop :=
  s.handle w ≠ none ∧ (s.job w ≠ none ∨ Due s w (s.loc w))

instance (s : St) (w : Gid) : Decidable (Live s w) :=
  inferInstanceAs (Decidable (s.handle w ≠ none ∧ (s.job w ≠ none ∨ Due s w (s.loc w))))

/-- The item that the step completes, if any, has at most one waiter more than
there are switches into its worker in the queue already. -/
def Covered (s : St) : Act → Prop
  | .finish _ => ∀ f ∈ s.job s.current,
      (s.futures f).waiters.card ≤ s.loop.queued (.switch s.current) + 1
  | _ => True

instance (s : St) : ∀ a, Decidable (Covered s a)
  | .finish _ => inferInstanceAs (Decidable (∀ f ∈ s.job s.current,
      (s.futures f).waiters.card ≤ s.loop.queued (.switch s.current) + 1))
  | .submit .. | .make_future | .greenlet_new .. | .result .. | .cancel .. | .add_done_callback ..
  | .remove_done_callback .. | .set_result .. | .set_exception .. | .call_later .. | .sleep ..
  | .switch .. | .throw .. | .fire | .due .. | .stop | .run | .worker_loop | .back_waiter .. =>
    inferInstanceAs (Decidable True)

/-- A worker outside submitted functions that is kept going runs, is switched
into from the queue, or wakes waiters. -/
theorem Due.cases {s : St} {w : Gid} {l : Where} (hdue : Due s w l) :
    (l = .worker_loop ∧ w = s.current) ∨
    ((l = .unstarted ∨ l = .parked) ∧ 0 < s.loop.queued (.switch w)) ∨
    (∃ f, l = .back_waiter f ∧
      (s.futures f).waiters.card + (if w = s.current then 0 else 1) ≤
        s.loop.queued (.switch w)) := by
  cases l with
  | worker_loop => exact .inl ⟨rfl, hdue⟩
  | unstarted => exact .inr (.inl ⟨.inl rfl, hdue⟩)
  | parked => exact .inr (.inl ⟨.inr rfl, hdue⟩)
  | back_waiter f => exact .inr (.inr ⟨f, rfl, hdue⟩)
  | unborn => exact hdue.elim
  | user => exact hdue.elim
  | start f => exact hdue.elim
  | wait_future f => exact hdue.elim
  | dead => exact hdue.elim

/-! ## Changes around a live worker -/

theorem Live.due {s : St} {w : Gid} (hl : Live s w) (hjob : s.job w = none) : Due s w (s.loc w) :=
  hl.2.resolve_left (fun h => h hjob)

/-- A live worker stays so where it is, if it goes on running, loses no switch
and gets no waiter. -/
theorem Live.mono {s s' : St} {w : Gid} (hl : Live s w) (hh : s'.handle w = s.handle w)
    (hj : s'.job w = s.job w) (hloc : s'.loc w = s.loc w)
    (hcur : s.job w = none → w = s.current → w = s'.current)
    (hq : s.loop.queued (.switch w) ≤ s'.loop.queued (.switch w))
    (hw : ∀ f, s.loc w = .back_waiter f → s.job w = none →
      (s'.futures f).waiters.card ≤ (s.futures f).waiters.card) : Live s' w := by
  refine ⟨hh ▸ hl.1, ?_⟩
  rw [hj, hloc]
  by_cases hjob : s.job w = none
  · right
    rcases (hl.due hjob).cases with
      ⟨hlw, hc⟩ | ⟨hlw | hlw, hpos⟩ | ⟨f, hlw, hcount⟩
    · -- Case: it runs, and goes on running
      rw [hlw]
      exact hcur hjob hc
    · -- Case: it was not started, and its switch is still queued
      rw [hlw]
      exact Nat.lt_of_lt_of_le hpos hq
    · -- Case: it is parked, and its switch is still queued
      rw [hlw]
      exact Nat.lt_of_lt_of_le hpos hq
    · -- Case: it wakes waiters, and has no more of them
      have hcard := hw f hlw hjob
      have hturn : (if w = s'.current then 0 else 1) ≤ (if w = s.current then 0 else 1) := by
        by_cases hc : w = s.current
        · rw [if_pos hc, if_pos (hcur hjob hc)]
        · rw [if_neg hc]
          split <;> omega
      rw [hlw]
      simp only [Due]
      omega
  · -- Case: it is in a submitted function
    exact .inl hjob

theorem Live.of_job {s s' : St} {w : Gid} (hl : Live s w) (hh : s'.handle w = s.handle w)
    (hj : s'.job w = s.job w) (hjob : s.job w ≠ none) : Live s' w :=
  ⟨hh ▸ hl.1, .inl (hj ▸ hjob)⟩

theorem Live.calm {s s' : St} {w : Gid} (hl : Live s w) (hc : Calm s s') : Live s' w := by
  apply hl.mono
  · rw [hc.handle]
  · rw [hc.job]
  · rw [hc.loc]
  · exact fun _ h => hc.current ▸ h
  · exact hc.loop.queued _
  · intro f _ _
    rw [hc.waiters]

/-- A switch into `o` does not change another greenlet's place, and does not
count what it leaves behind. -/
theorem greenlet_switch_spec (s : St) (o : Gid) :
    (s.greenlet_switch o).handle = s.handle ∧ (s.greenlet_switch o).job = s.job ∧
      (s.greenlet_switch o).loop = s.loop ∧ (s.greenlet_switch o).futures = s.futures ∧
      (s.greenlet_switch o).executor = s.executor ∧
      ∀ w, w ≠ o → (s.greenlet_switch o).loc w = s.loc w := by
  rcases greenlet_switch_eq s o with ⟨l, c, h⟩
  rw [h]
  exact ⟨rfl, rfl, rfl, rfl, rfl, fun w hw => Function.update_of_ne hw _ _⟩

/-- What a worker outside submitted functions needs when it is resumed. -/
def Resumable (s : St) (w : Gid) : Where → Prop
  | .worker_loop | .unstarted | .parked => True
  | .back_waiter f => (s.futures f).waiters.card ≤ s.loop.queued (.switch w)
  | _ => False

theorem Due.resumable {s : St} {w : Gid} {l : Where} (hdue : Due s w l) : Resumable s w l := by
  rcases hdue.cases with ⟨rfl, -⟩ | ⟨rfl | rfl, -⟩ | ⟨f, rfl, hcount⟩
  · exact trivial
  · exact trivial
  · exact trivial
  · exact Nat.le_of_add_right_le hcount

/-- A worker that is switched into runs. -/
theorem live_resumed {s : St} {w : Gid} (hh : s.handle w ≠ none)
    (hr : s.job w = none → Resumable s w (s.loc w)) : Live (s.greenlet_switch w) w := by
  obtain ⟨hh', hj, -, -, -, -⟩ := greenlet_switch_spec s w
  refine ⟨by rwa [hh'], ?_⟩
  rw [hj]
  by_cases hjob : s.job w = none
  · have hres := hr hjob
    right
    unfold St.greenlet_switch
    cases hlw : s.loc w with
    | worker_loop => simp [hlw, Due]
    | unstarted => simp [Due]
    | parked => simp [Due]
    | back_waiter f =>
      rw [hlw] at hres
      have hcard : (s.futures f).waiters.card ≤ s.loop.queued (.switch w) := hres
      simpa [hlw, Due] using hcard
    | unborn => rw [hlw] at hres; exact hres.elim
    | user => rw [hlw] at hres; exact hres.elim
    | start f => rw [hlw] at hres; exact hres.elim
    | wait_future f => rw [hlw] at hres; exact hres.elim
    | dead => rw [hlw] at hres; exact hres.elim
  · exact .inl hjob

/-- A switch made by another greenlet, or from inside a submitted function. -/
theorem Live.greenlet_switch {s : St} {w : Gid} (hl : Live s w)
    (hcur : w = s.current → s.job w ≠ none) (o : Gid) : Live (s.greenlet_switch o) w := by
  by_cases hw : w = o
  · subst hw
    exact live_resumed hl.1 fun hjob => (hl.due hjob).resumable
  · obtain ⟨hh, hj, hloop, hfut, -, hloc⟩ := greenlet_switch_spec s o
    apply hl.mono
    · rw [hh]
    · rw [hj]
    · exact hloc w hw
    · exact fun hjob hc => absurd hjob (hcur hc)
    · rw [hloop]
    · intro f _ _
      rw [hfut]

/-- A throw into a greenlet in `start_loop`. -/
theorem Live.thrown {s : St} {w : Gid} (hl : Live s w) (hcur : w = s.current → s.job w ≠ none)
    {o : Gid} {f : Fid} (ho : s.loc o = .start f) :
    Live { s with current := o, loc := Function.update s.loc o .user } w := by
  by_cases hjob : s.job w = none
  · have hne : w ≠ o := by
      rintro rfl
      have hdue := hl.due hjob
      rw [ho] at hdue
      exact hdue
    apply hl.mono
    · rfl
    · rfl
    · exact Function.update_of_ne hne _ _
    · exact fun _ hc => absurd hjob (hcur hc)
    · exact Nat.le_refl _
    · exact fun _ _ _ => Nat.le_refl _
  · exact hl.of_job rfl rfl hjob

/-- The step is one that brings a worker back to its loop. -/
def Returning (s : St) : Act → Prop
  | .worker_loop => True
  | .back_waiter none => s.own s.current = true
  | _ => False

instance (s : St) : ∀ a, Decidable (Returning s a)
  | .back_waiter none => inferInstanceAs (Decidable (s.own s.current = true))
  | .worker_loop => inferInstanceAs (Decidable True)
  | .submit .. | .make_future | .greenlet_new .. | .result .. | .cancel .. | .add_done_callback ..
  | .remove_done_callback .. | .set_result .. | .set_exception .. | .call_later .. | .sleep ..
  | .switch .. | .throw .. | .finish .. | .fire | .due .. | .stop | .run
  | .back_waiter (some _) => inferInstanceAs (Decidable False)

/-- The worker that ran parked with nothing to do, or returned. -/
def Retired (s s' : St) (w : Gid) : Prop :=
  w = s.current ∧
    ((s'.loc w = .parked ∧ s'.executor.pendings = []) ∨
      (s'.loc w = .dead ∧ (s.loop.state = .L_STOP ∨ s.executor.max_workers = 0)))

/-- Only the running greenlet gets somewhere else, or takes or leaves an item. -/
theorem Live.elsewhere {s : St} {w : Gid} (hl : Live s w) (hne : w ≠ s.current) (l : Where)
    (job : Option Fid) (c : Gid) :
    Live { s with
      loc := Function.update s.loc s.current l
      job := Function.update s.job s.current job
      current := c } w := by
  apply hl.mono
  · rfl
  · exact Function.update_of_ne hne _ _
  · exact Function.update_of_ne hne _ _
  · exact fun _ hc => absurd hc hne
  · exact Nat.le_refl _
  · exact fun _ _ _ => Nat.le_refl _

/-- The same, when no item is taken or left. -/
theorem Live.elsewhere' {s : St} {w : Gid} (hl : Live s w) (hne : w ≠ s.current) (l : Where)
    (c : Gid) :
    Live { s with loc := Function.update s.loc s.current l, current := c } w := by
  have h := hl.elsewhere hne l (s.job s.current) c
  rwa [Function.update_eq_self] at h

/-! ## Workers -/

theorem Live.item_done {s : St} {w : Gid} (hi : Inv s) (hl : Live s w) (ha : AtLoop s) :
    Live s.item_done w ∨ Retired s s.item_done w := by
  rcases item_done_cases s with ⟨heq, hwhy⟩ | ⟨h, hh, -, -, heq⟩ | ⟨hh, -⟩
  · -- Case: the worker that runs returns
    rw [heq]
    by_cases hw : w = s.current
    · subst hw
      refine .inr ⟨rfl, .inr ⟨?_, hwhy⟩⟩
      simp [St.worker_exit, St.loop_switch]
    · exact .inl (hl.elsewhere' hw .dead loop_greenlet)
  · -- Case: it queues its handle and goes on
    rw [heq]
    obtain ⟨hlt, ht⟩ := hi.handle _ h hh
    have hcalm := (calm_reschedule hlt ht).enter .worker_loop
    left
    by_cases hw : w = s.current
    · subst hw
      have hloop : Live { s with loc := Function.update s.loc s.current .worker_loop } s.current :=
        ⟨hl.1, .inr (by simp [Due])⟩
      exact hloop.calm hcalm
    · exact (hl.elsewhere' hw .worker_loop s.current).calm hcalm
  · exact absurd hh ha.worker.1

theorem Live.take {s : St} {w : Gid} (hl : Live s w) (f : Fid) (rest : List Fid) :
    Live (taken s f rest) w := by
  apply hl.mono
  · rfl
  · rfl
  · rfl
  · exact fun _ h => h
  · exact Nat.le_refl _
  · intro f' _ _
    have hw : ∀ f', (Function.update s.futures f
        { s.futures f with handle := s.handle s.current } f').waiters = (s.futures f').waiters :=
      update_field FutureObject.waiters rfl
    exact Nat.le_of_eq (congrArg Finset.card (hw f'))

theorem Live.worker_loop {s : St} {w : Gid} (hi : Inv s) (hl : Live s w)
    (hloc : s.loc s.current = .worker_loop) :
    Live s.worker_loop w ∨ Retired s s.worker_loop w := by
  rcases worker_loop_cases s with ⟨hs, heq⟩ | ⟨hp, heq⟩ | ⟨f, rest, hp, -, heq | heq | heq⟩
  · -- Case: the loop was stopped
    rw [heq]
    by_cases hw : w = s.current
    · subst hw
      refine .inr ⟨rfl, .inr ⟨?_, .inl hs⟩⟩
      simp [St.worker_exit, St.loop_switch]
    · exact .inl (hl.elsewhere' hw .dead loop_greenlet)
  · -- Case: no item is left
    rw [heq]
    by_cases hw : w = s.current
    · subst hw
      refine .inr ⟨rfl, .inl ⟨?_, hp⟩⟩
      simp [St.loop_switch]
    · exact .inl (hl.elsewhere' hw .parked loop_greenlet)
  · -- Case: an item that is not pending is dropped
    rw [heq]
    exact .inl (hl.mono rfl rfl rfl (fun _ h => h) (Nat.le_refl _) (fun _ _ _ => Nat.le_refl _))
  · -- Case: an item that has a result is dropped
    rw [heq]
    exact (hl.take f rest).item_done (hi.taken hp) ((hi.taken hp).atLoop hloc)
  · -- Case: the submitted function is called
    rw [heq]
    left
    by_cases hw : w = s.current
    · subst hw
      exact ⟨hl.1, .inl (by simp)⟩
    · exact (hl.take f rest).elsewhere hw .user (some f) s.current

/-! ## `back_waiter` -/

theorem card_pop_le (s : St) (f f' : Fid) (o : Gid) :
    (Function.update s.futures f
      { s.futures f with waiters := (s.futures f).waiters.erase o } f').waiters.card ≤
        (s.futures f').waiters.card := by
  by_cases h : f' = f
  · subst h
    simp only [Function.update_self]
    exact Finset.card_erase_le
  · rw [Function.update_of_ne h]

theorem Live.back_waiter_next {s s' : St} {w : Gid} {f : Fid} {pop : Option Gid} (hi : Inv s)
    (hl : Live s w) (hloc : s.loc s.current = .back_waiter f)
    (h : s.back_waiter_next f pop = some s') :
    Live s' w ∨ (Retired s s' w ∧ pop = none ∧ s.own s.current = true) := by
  rcases back_waiter_next_cases h with ⟨hpop, he, ⟨ho, rfl⟩ | ⟨ho, rfl⟩⟩ | ⟨o, -, hmem, rfl⟩
  · -- Case: nobody is left to wake, in the `back_waiter` of `run_worker`
    have hloop : AtLoop s := by
      refine ⟨own_iff.1 ho, fun f' hf' => ?_⟩
      rw [hloc] at hf'
      injection hf' with hf'
      exact hf' ▸ he
    exact (hl.item_done hi hloop).imp_right fun h => ⟨h, hpop, ho⟩
  · -- Case: nobody is left to wake, in one called by Python code
    left
    by_cases hw : w = s.current
    · subst hw
      have hjob : s.job s.current ≠ none := by
        intro hj
        rw [own_iff.2 ⟨hl.1, hj⟩] at ho
        cases ho
      exact hl.of_job rfl rfl hjob
    · exact hl.elsewhere' hw .user s.current
  · -- Case: the next waiter is switched into
    left
    obtain ⟨hh, hj, hloop, hfut, -, hl'⟩ := greenlet_switch_spec s o
    by_cases hw : w = s.current ∧ s.job w = none
    · -- the worker goes on with one waiter less
      obtain ⟨rfl, hjob⟩ := hw
      have hdue := hl.due hjob
      rw [hloc] at hdue
      simp only [Due, if_true] at hdue
      have hstay : (s.greenlet_switch o).loc s.current = .back_waiter f := by
        by_cases ho : s.current = o
        · rw [← ho]
          simp [St.greenlet_switch, hloc]
        · rw [hl' _ ho, hloc]
      refine ⟨by simpa only [hh] using hl.1, .inr ?_⟩
      show Due _ _ ((s.greenlet_switch o).loc s.current)
      rw [hstay]
      have hcard := Finset.card_erase_add_one hmem
      simp only [Due, hloop, Function.update_self]
      split <;> omega
    · have hsw := hl.greenlet_switch (fun hc hj => hw ⟨hc, hj⟩) o
      apply hsw.mono
      · rfl
      · rfl
      · rfl
      · exact fun _ h => h
      · exact Nat.le_refl _
      · intro f' _ _
        rw [hfut]
        exact card_pop_le s f f' o

/-! ## Python code -/

/-- The running greenlet enters `back_waiter` from Python code. -/
theorem Live.enter {s : St} {w : Gid} (hi : Inv s) (hl : Live s w)
    (hloc : s.loc s.current = .user) (f : Fid) :
    Live { s with loc := Function.update s.loc s.current (.back_waiter f) } w := by
  by_cases hw : w = s.current
  · subst hw
    exact hl.of_job rfl rfl (hi.busy _ (.inl hloc) hl.1)
  · exact hl.elsewhere' hw (.back_waiter f) s.current

theorem Live.user_job {s : St} {w : Gid} (hi : Inv s) (hl : Live s w)
    (hloc : s.loc s.current = .user) : w = s.current → s.job w ≠ none := by
  rintro rfl
  exact hi.busy _ (.inl hloc) hl.1

theorem Live.result {s : St} {w : Gid} (hi : Inv s) (hl : Live s w)
    (hloc : s.loc s.current = .user) (f : Fid) : Live (s.result f) w := by
  rcases result_cases s f with ⟨-, heq⟩ | ⟨hp, hsuspends⟩
  · rw [heq]
    exact hl
  by_cases hjob : s.job w = none
  · have hne : w ≠ s.current := fun hc => hl.user_job hi hloc hc hjob
    -- the future is pending, so no worker is in its own `back_waiter` for it
    have hcard : ∀ f', s.loc w = .back_waiter f' → s.job w = none →
        ((added s f).futures f').waiters.card ≤ (s.futures f').waiters.card := by
      intro f' hf' hj
      have hff : f' ≠ f := by
        rintro rfl
        exact hi.own_settled w f' hf' (own_iff.2 ⟨hl.1, hj⟩) hp
      simp [added, Function.update_of_ne hff]
    have hadd : Live (added s f) w :=
      hl.mono rfl rfl rfl (fun _ h => h) (Nat.le_refl _) hcard
    rcases hsuspends with ⟨-, heq⟩ | ⟨l, -, heq⟩
    · rw [heq]
      exact hadd
    · rw [heq]
      exact (hadd.elsewhere' hne l loop_greenlet).calm (calm_loop (grows_state _ .L_RUNNING))
  · rcases hsuspends with ⟨-, heq⟩ | ⟨l, -, heq⟩
    · rw [heq]
      exact hl.of_job rfl rfl hjob
    · rw [heq]
      exact hl.of_job rfl rfl hjob

theorem Live.submit {s : St} {w w' : Gid} (hi : Inv s) (hl : Live s w)
    (hw' : s.loc w' = .unborn) : Live (s.internal_submit w') w := by
  have hne : w ≠ w' := by
    rintro rfl
    exact hl.1 (hi.unborn w hw')
  have hpush : Live (pushed s) w :=
    hl.mono rfl rfl rfl (fun _ h => h) (Nat.le_refl _) (fun _ _ _ => Nat.le_refl _)
  rcases internal_submit_cases s w' with ⟨-, heq⟩ | ⟨-, heq⟩
  · -- Case: a worker is started, and it is another one
    rw [heq]
    apply hpush.mono
    · exact Function.update_of_ne hne _ _
    · rfl
    · exact Function.update_of_ne hne _ _
    · exact fun _ h => h
    · exact (grows_loop_schedule_call s.loop 0 none (some w')).queued _
    · exact fun _ _ _ => Nat.le_refl _
  · -- Case: there are enough workers
    rw [heq]
    exact hpush

/-- With somebody to wake, `back_waiter` queues the worker of the future. -/
theorem queued_back_waiter {s : St} {f : Fid} {h : Hid} {w : Gid}
    (hw : (s.futures f).waiters ≠ ∅) (hh : (s.futures f).handle = some h)
    (hlt : h < s.loop.next) (ht : s.loop.target h = .switch w) :
    (s.back_waiter f).loop.queued (.switch w) = s.loop.queued (.switch w) + 1 := by
  unfold St.back_waiter
  simp only [if_neg hw, hh]
  exact queued_reschedule hlt ht

/-- The same for whatever calm change is made before. -/
theorem Calm.queued_back_waiter {s s' : St} (hc : Calm s s') {f : Fid} {h : Hid} {w : Gid}
    (hw : (s.futures f).waiters ≠ ∅) (hh : (s.futures f).handle = some h)
    (hlt : h < s.loop.next) (ht : s.loop.target h = .switch w) :
    s.loop.queued (.switch w) + 1 ≤ (s'.back_waiter f).loop.queued (.switch w) := by
  have hq := hc.loop.queued (.switch w)
  rw [Executor.queued_back_waiter (by rwa [hc.waiters]) (by rwa [hc.fhandle])
    (Nat.lt_of_lt_of_le hlt hc.loop.next_le) ((hc.loop.target h hlt).trans ht)]
  omega

theorem queued_run_worker_finish {s : St} {f : Fid} {h : Hid} {w : Gid}
    (hw : (s.futures f).waiters ≠ ∅) (hh : (s.futures f).handle = some h)
    (hlt : h < s.loop.next) (ht : s.loop.target h = .switch w) (res : Except Exc Returned) :
    s.loop.queued (.switch w) + 1 ≤ (s.run_worker_finish f res).loop.queued (.switch w) := by
  have hwaiters : ((completed s f).futures f).waiters ≠ ∅ := by
    simpa [completed] using hw
  have hhandle : ((completed s f).futures f).handle = some h := by
    simpa [completed] using hh
  cases res with
  | error e =>
    have hfut : Calm { completed s f with loc := s.loc }
        { completed s f with
          loc := s.loc
          futures := Function.update (completed s f).futures f
            { (completed s f).futures f with exc_info := some e } } :=
      calm_future id rfl rfl
    exact (hfut.trans (calm_call_callbacks _ f)).queued_back_waiter hwaiters hhandle hlt ht
  | ok v =>
    have hfut : Calm { completed s f with loc := s.loc }
        { completed s f with
          loc := s.loc
          futures := Function.update (completed s f).futures f
            { (completed s f).futures f with result := some v.released } } :=
      calm_future id rfl rfl
    exact (hfut.trans (calm_call_callbacks _ f)).queued_back_waiter hwaiters hhandle hlt ht

theorem completed_waiters (s : St) (f f' : Fid) :
    ((completed s f).futures f').waiters = (s.futures f').waiters := by
  have hw : ∀ f', (Function.update s.futures f
      { s.futures f with state := .F_FINISHED } f').waiters = (s.futures f').waiters :=
    update_field FutureObject.waiters rfl
  exact hw f'

/-- A worker that completes its item with enough switches in the queue goes on
to wake the waiters. -/
theorem Live.finish {s : St} {w : Gid} {f : Fid} (hi : Inv s) (hl : Live s w)
    (hj : s.job s.current = some f) (res : Except Exc Returned)
    (hcov : w = s.current →
      (s.futures f).waiters.card ≤ s.loop.queued (.switch s.current) + 1) :
    Live (s.run_worker_finish f res) w := by
  have hcalm := calm_run_worker_finish (hi.aimed f) res
  by_cases hw : w = s.current
  · -- Case: the worker that completes the item
    subst hw
    obtain ⟨hne, hsame⟩ := hi.job_handle _ f hj
    have hloc : (s.run_worker_finish f res).loc s.current = .back_waiter f := by
      rw [hcalm.loc]
      exact Function.update_self _ _ _
    refine ⟨by rw [hcalm.handle]; exact hl.1, .inr ?_⟩
    rw [hloc]
    simp only [Due, hcalm.current, hcalm.waiters, completed_waiters]
    rw [if_pos (show s.current = (completed s f).current from rfl)]
    by_cases hempty : (s.futures f).waiters = ∅
    · simp [hempty]
    · obtain ⟨h, hh⟩ := Option.ne_none_iff_exists'.1 hne
      obtain ⟨hlt, ht⟩ := hi.handle _ h hh
      have hq := queued_run_worker_finish hempty (hsame.trans hh) hlt ht res
      have hbound := hcov rfl
      omega
  · -- Case: another worker
    have hcomp : Live (completed s f) w := by
      apply hl.mono
      · rfl
      · exact Function.update_of_ne hw _ _
      · exact Function.update_of_ne hw _ _
      · exact fun _ h => h
      · exact Nat.le_refl _
      · intro f' _ _
        rw [completed_waiters]
    exact hcomp.calm hcalm

/-- A round of `fire_pendings` costs a worker one switch and makes it run. -/
theorem Live.fire_pendings {s s' : St} {w : Gid} (hi : Inv s) (hl : Live s w)
    (hloc : s.loc s.current = .user) (h : s.fire_pendings = some s') : Live s' w := by
  obtain ⟨item, l, eff, -, -, -, -, -, -, hq, hsw, rfl⟩ := fire_pendings_cases h
  have hcur := hl.user_job hi hloc
  by_cases hitem : s.loop.target item = .switch w
  · -- Case: the entry is the one of this worker, which runs now
    have heff := hsw w hitem
    have hcount := hq (.switch w)
    rw [if_pos hitem] at hcount
    by_cases hdead : s.loc w = .dead
    · -- a dead worker is live in a submitted function only
      rw [if_pos hdead] at heff
      subst heff
      have hjob : s.job w ≠ none := by
        intro hj
        have hdue := hl.due hj
        rw [hdead] at hdue
        exact hdue
      exact hl.of_job rfl rfl hjob
    · rw [if_neg hdead] at heff
      subst heff
      refine live_resumed (s := { s with loop := l }) hl.1 fun hjob => ?_
      show Resumable _ w (s.loc w)
      rcases (hl.due hjob).cases with
        ⟨hlw, -⟩ | ⟨hlw | hlw, -⟩ | ⟨f, hlw, hcard⟩
      · rw [hlw]
        exact trivial
      · rw [hlw]
        exact trivial
      · rw [hlw]
        exact trivial
      · -- the worker does not run, so one switch more than the waiters is queued
        rw [if_neg (fun hc => hcur hc hjob)] at hcard
        rw [hlw]
        simp only [Resumable]
        omega
  · -- Case: another entry, and the count stays
    have hcount := hq (.switch w)
    rw [if_neg hitem] at hcount
    have hloop : Live { s with loop := l } w := by
      apply hl.mono
      · rfl
      · rfl
      · rfl
      · exact fun _ h => h
      · exact Nat.le_of_eq hcount
      · exact fun _ _ _ => Nat.le_refl _
    cases eff with
    | nothing => exact hloop
    | switch g => exact hloop.greenlet_switch hcur g
    | call k => exact hloop

/-! ## Steps -/

/-- A live worker stays live, unless it completes an item that has too many
waiters, parks with nothing to do, or returns. -/
theorem live_step {s s' : St} {a : Act} {w : Gid} (h : step s a = some s') (hi : Inv s)
    (hl : Live s w) (hcov : w = s.current → Covered s a) :
    Live s' w ∨ (Retired s s' w ∧ Returning s a) := by
  rcases step_cases h with ⟨hloc, hu⟩ | ⟨hloc, rfl, rfl⟩ | ⟨f, pop, hloc, rfl, hb⟩
  · -- Case: Python code
    left
    cases user_step_cases hu with
    | calm hc => exact hl.calm hc
    | submit hw => exact hl.submit hi hw
    | @greenlet_new g hg =>
      have hne : w ≠ g := by
        rintro rfl
        exact hl.1 (hi.unborn w hg)
      exact hl.mono rfl rfl (Function.update_of_ne hne _ _) (fun _ h => h) (Nat.le_refl _)
        (fun _ _ _ => Nat.le_refl _)
    | result => exact hl.result hi hloc _
    | enter f hc => exact (hl.enter hi hloc f).calm (hc (hi.aimed f))
    | sleep hgrow =>
      have hcur := hl.user_job hi hloc
      apply (hl.calm (calm_loop hgrow)).mono
      · rfl
      · rfl
      · rfl
      · exact fun hjob hc => absurd hjob (hcur hc)
      · exact Nat.le_refl _
      · exact fun _ _ _ => Nat.le_refl _
    | switch _ _ => exact hl.greenlet_switch (hl.user_job hi hloc) _
    | throw ho => exact hl.thrown (hl.user_job hi hloc) ho
    | finish hj => exact hl.finish hi hj _ (fun hc => hcov hc _ hj)
    | fire _ hf => exact hl.fire_pendings hi hloc hf
  · -- Case: the loop of `_worker`
    exact (hl.worker_loop hi hloc).imp_right fun h => ⟨h, trivial⟩
  · -- Case: the loop of `back_waiter`
    refine (hl.back_waiter_next hi hloc hb).imp_right ?_
    rintro ⟨hret, rfl, ho⟩
    exact ⟨hret, ho⟩

/-! ## The way into `back_waiter` -/

theorem greenlet_switch_back_waiter {s : St} {o w : Gid} {f : Fid}
    (h : (s.greenlet_switch o).loc w = .back_waiter f) : s.loc w = .back_waiter f := by
  by_cases hw : w = o
  · subst hw
    unfold St.greenlet_switch St.started St.loop_switch at h
    cases hlw : s.loc w with
    | back_waiter f' => simpa [hlw] using h
    | start f' =>
      simp only [hlw] at h
      split at h <;> simp at h
    | unborn | user | unstarted | worker_loop | parked | wait_future f' | dead => simp [hlw] at h
  · rwa [(greenlet_switch_spec s o).2.2.2.2.2 w hw] at h

theorem own_congr {s s' : St} {w : Gid} (hh : s'.handle w = s.handle w) (hj : s'.job w = s.job w) :
    s'.own w = s.own w := by
  simp only [St.own, hh, hj]

theorem greenlet_switch_own (s : St) (o w : Gid) : (s.greenlet_switch o).own w = s.own w := by
  obtain ⟨hh, hj, -⟩ := greenlet_switch_spec s o
  exact own_congr (by rw [hh]) (by rw [hj])

/-- Moving a greenlet elsewhere puts nobody into `back_waiter`. -/
theorem update_back_waiter {loc : Gid → Where} {g w : Gid} {l : Where} {f : Fid}
    (h : Function.update loc g l w = .back_waiter f) (hl : l ≠ .back_waiter f) :
    w ≠ g ∧ loc w = .back_waiter f :=
  (update_cases h).resolve_left fun hc => hl hc.2

theorem item_done_back_waiter {s : St} {w : Gid} {f : Fid}
    (h : s.item_done.loc w = .back_waiter f) :
    s.loc w = .back_waiter f ∧ s.item_done.own w = s.own w := by
  rcases item_done_cases s with ⟨heq, -⟩ | ⟨h', -, -, -, heq⟩ | ⟨-, heq⟩
  · rw [heq] at h ⊢
    exact ⟨(update_back_waiter h (by simp)).2, rfl⟩
  · rw [heq] at h ⊢
    exact ⟨(update_back_waiter h (by simp)).2, rfl⟩
  · rw [heq] at h ⊢
    exact ⟨(update_back_waiter h (by simp)).2, rfl⟩

theorem worker_loop_back_waiter {s : St} {w : Gid} {f : Fid}
    (h : s.worker_loop.loc w = .back_waiter f) :
    s.loc w = .back_waiter f ∧ s.worker_loop.own w = s.own w := by
  rcases worker_loop_cases s with ⟨-, heq⟩ | ⟨-, heq⟩ | ⟨f', rest, -, -, heq | heq | heq⟩
  · rw [heq] at h ⊢
    exact ⟨(update_back_waiter h (by simp)).2, rfl⟩
  · rw [heq] at h ⊢
    exact ⟨(update_back_waiter h (by simp)).2, rfl⟩
  · rw [heq] at h ⊢
    exact ⟨h, rfl⟩
  · rw [heq] at h ⊢
    exact item_done_back_waiter h
  · rw [heq] at h ⊢
    obtain ⟨hw, hl⟩ := update_back_waiter h (by simp)
    exact ⟨hl, own_congr rfl (Function.update_of_ne hw _ _)⟩

/-- A worker comes into the `back_waiter` of its `run_worker` by completing an
item, and in no other way. -/
theorem own_back_waiter_step {s s' : St} {a : Act} {w : Gid} {f : Fid} (h : step s a = some s')
    (hi : Inv s) (hl' : s'.loc w = .back_waiter f) (ho' : s'.own w = true) :
    (s.loc w = .back_waiter f ∧ s.own w = true) ∨ (w = s.current ∧ s.job w ≠ none) := by
  rcases step_cases h with ⟨hloc, hu⟩ | ⟨hloc, -, rfl⟩ | ⟨f₀, pop, hloc, -, hb⟩
  · -- Case: Python code; only `finish` enters an own `back_waiter`
    cases user_step_cases hu with
    | calm hc =>
      rw [own_congr (congrFun hc.handle w) (congrFun hc.job w)] at ho'
      exact .inl ⟨hc.loc ▸ hl', ho'⟩
    | submit hw' =>
      rename_i w'
      rcases internal_submit_cases s w' with ⟨-, heq⟩ | ⟨-, heq⟩
      · rw [heq] at hl' ho'
        obtain ⟨hw, hl⟩ := update_back_waiter hl' (by simp)
        rw [hired_own hw] at ho'
        exact .inl ⟨hl, ho'⟩
      · rw [heq] at hl' ho'
        exact .inl ⟨hl', ho'⟩
    | greenlet_new hg =>
      exact .inl ⟨(update_back_waiter hl' (by simp)).2, ho'⟩
    | @result f₁ =>
      rcases result_cases s f₁ with ⟨-, heq⟩ | ⟨-, ⟨-, heq⟩ | ⟨l, hwait, heq⟩⟩
      · rw [heq] at hl' ho'
        exact .inl ⟨hl', ho'⟩
      · rw [heq] at hl' ho'
        exact .inl ⟨hl', ho'⟩
      · rw [heq] at hl' ho'
        have hne : l ≠ .back_waiter f := by
          rcases hwait with rfl | rfl <;> simp
        exact .inl ⟨(update_back_waiter hl' hne).2, ho'⟩
    | enter f₁ hc =>
      have hcalm := hc (hi.aimed f₁)
      rw [own_congr (s := s) (congrFun hcalm.handle w) (congrFun hcalm.job w)] at ho'
      by_cases hw : w = s.current
      · subst hw
        rw [hi.not_own hloc] at ho'
        cases ho'
      · rw [hcalm.loc] at hl'
        exact .inl ⟨by simpa [Function.update_of_ne hw] using hl', ho'⟩
    | sleep hgrow => exact .inl ⟨hl', ho'⟩
    | switch _ _ =>
      rw [greenlet_switch_own] at ho'
      exact .inl ⟨greenlet_switch_back_waiter hl', ho'⟩
    | throw _ => exact .inl ⟨(update_back_waiter hl' (by simp)).2, ho'⟩
    | @finish res f₁ hj =>
      by_cases hw : w = s.current
      · exact .inr ⟨hw, by rw [hw, hj]; simp⟩
      · have hcalm := calm_run_worker_finish (hi.aimed f₁) res
        rw [own_congr (s := s) (congrFun hcalm.handle w)
          ((congrFun hcalm.job w).trans (Function.update_of_ne hw _ _))] at ho'
        rw [hcalm.loc] at hl'
        exact .inl ⟨by simpa [completed, Function.update_of_ne hw] using hl', ho'⟩
    | fire _ hf =>
      obtain ⟨item, l, eff, -, -, -, -, -, -, -, -, rfl⟩ := fire_pendings_cases hf
      cases eff with
      | nothing => exact .inl ⟨hl', ho'⟩
      | switch g =>
        have ho := greenlet_switch_own { s with loop := l } g w
        have hl : (St.greenlet_switch { s with loop := l } g).loc w = .back_waiter f := hl'
        exact .inl ⟨greenlet_switch_back_waiter (s := { s with loop := l }) hl, ho ▸ ho'⟩
      | call k => exact .inl ⟨hl', ho'⟩
  · -- Case: the loop of `_worker` enters none
    obtain ⟨hl, ho⟩ := worker_loop_back_waiter hl'
    exact .inl ⟨hl, ho ▸ ho'⟩
  · -- Case: the loop of `back_waiter` leaves one, at most
    rcases back_waiter_next_cases hb with ⟨-, -, ⟨-, rfl⟩ | ⟨-, rfl⟩⟩ | ⟨o, -, -, rfl⟩
    · obtain ⟨hl, ho⟩ := item_done_back_waiter hl'
      exact .inl ⟨hl, ho ▸ ho'⟩
    · exact .inl ⟨(update_back_waiter hl' (by simp)).2, ho'⟩
    · have ho := greenlet_switch_own s o w
      exact .inl ⟨greenlet_switch_back_waiter hl', ho ▸ ho'⟩

end Jega.Executor
