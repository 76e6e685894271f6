import Jega.Executor.Steps

/-!
# Jega.Executor.Invariant — what holds whatever the greenlets do

`Inv` ties the handles, the jobs and the places of the greenlets to the futures.
It does not count the entries of the loop's queue, so firing keeps it as well.
-/

namespace Jega.Executor

open Trace LoopObject

/-! ## The invariant -/

/-- What holds in every state, whatever the greenlets do. -/
structure Inv (s : St) : Prop where
  /-- A worker's handle switches into the worker. -/
  handle : ∀ w h, s.handle w = some h → h < s.loop.next ∧ s.loop.target h = .switch w
  fhandle : ∀ f h, (s.futures f).handle = some h → ∃ w, s.handle w = some h
  pendings_lt : ∀ f ∈ s.executor.pendings, f < s.next
  nodup : s.executor.pendings.Nodup
  job_lt : ∀ w f, s.job w = some f → f < s.next
  job_taken : ∀ w f, s.job w = some f → f ∉ s.executor.pendings
  job_handle : ∀ w f, s.job w = some f →
    s.handle w ≠ none ∧ (s.futures f).handle = s.handle w
  unborn : ∀ w, s.loc w = .unborn → s.handle w = none
  worker : ∀ w, s.loc w = .unstarted ∨ s.loc w = .worker_loop ∨ s.loc w = .parked →
    s.handle w ≠ none ∧ s.job w = none
  /-- A worker in Python code is in a submitted function. -/
  busy : ∀ w, s.loc w = .user ∨ (∃ f, s.loc w = .start f ∨ s.loc w = .wait_future f) →
    s.handle w ≠ none → s.job w ≠ none
  started : ∀ f, ∀ g ∈ (s.futures f).waiters, s.loc g ≠ .unborn ∧ s.loc g ≠ .unstarted
  settled : ∀ f, s.completion f ≠ none → (s.futures f).state ≠ .F_PENDING
  /-- The worker that completed a future is still at it, or nobody waits. -/
  completion : ∀ f w ws, s.completion f = some (w, ws) →
    (s.loc w = .back_waiter f ∧ s.own w = true) ∨ (s.futures f).waiters = ∅
  /-- A worker only goes round its own `back_waiter` for a settled future. -/
  own_settled : ∀ w f, s.loc w = .back_waiter f → s.own w = true →
    (s.futures f).state ≠ .F_PENDING
  resumed : ∀ f, (s.resumed f).Nodup ∧ (∀ g ∈ s.resumed f, g ∉ (s.futures f).waiters) ∧
    (s.resumed f ≠ [] → (s.futures f).state ≠ .F_PENDING)

theorem init_loc (max_workers : Nat) (g : Gid) :
    (init max_workers).loc g = .user ∨ (init max_workers).loc g = .unborn := by
  simp only [init]
  split
  · exact .inl rfl
  · exact .inr rfl

theorem inv_init (max_workers : Nat) : Inv (init max_workers) where
  handle := nofun
  fhandle := nofun
  pendings_lt := nofun
  nodup := List.nodup_nil
  job_lt := nofun
  job_taken := nofun
  job_handle := nofun
  unborn := fun _ _ => rfl
  worker := by
    intro w h
    rcases init_loc max_workers w with hl | hl <;> simp [hl] at h
  busy := fun _ _ h => absurd rfl h
  started := fun _ _ h => absurd h (Finset.notMem_empty _)
  settled := fun _ h => absurd rfl h
  completion := nofun
  own_settled := by
    intro w f h
    rcases init_loc max_workers w with hl | hl <;> simp [hl] at h
  resumed := fun _ =>
    ⟨List.nodup_nil, fun _ h => absurd h List.not_mem_nil, fun h => absurd rfl h⟩

/-! ## How the invariant is kept -/

theorem Inv.calm {s s' : St} (hi : Inv s) (hc : Calm s s') : Inv s' := by
  have hown : ∀ w, s'.own w = s.own w := by
    intro w
    simp only [St.own, hc.handle, hc.job]
  constructor
  · -- Handles: the loop kept their targets
    intro w h hw
    rw [hc.handle] at hw
    obtain ⟨hlt, ht⟩ := hi.handle w h hw
    exact ⟨Nat.lt_of_lt_of_le hlt hc.loop.next_le, (hc.loop.target h hlt).trans ht⟩
  · intro f h hf
    rw [hc.fhandle] at hf
    rw [hc.handle]
    exact hi.fhandle f h hf
  · intro f hf
    rw [hc.executor] at hf
    exact Nat.lt_of_lt_of_le (hi.pendings_lt f hf) hc.next
  · rw [hc.executor]
    exact hi.nodup
  · intro w f hw
    rw [hc.job] at hw
    exact Nat.lt_of_lt_of_le (hi.job_lt w f hw) hc.next
  · intro w f hw
    rw [hc.job] at hw
    rw [hc.executor]
    exact hi.job_taken w f hw
  · intro w f hw
    rw [hc.job] at hw
    rw [hc.handle, hc.fhandle]
    exact hi.job_handle w f hw
  · rw [hc.loc, hc.handle]
    exact hi.unborn
  · rw [hc.loc, hc.handle, hc.job]
    exact hi.worker
  · rw [hc.loc, hc.handle, hc.job]
    exact hi.busy
  · intro f
    rw [hc.waiters, hc.loc]
    exact hi.started f
  · intro f hf
    rw [hc.completion] at hf
    exact hc.state f (hi.settled f hf)
  · intro f w ws hf
    rw [hc.completion] at hf
    rw [hc.loc, hown, hc.waiters]
    exact hi.completion f w ws hf
  · intro w f hl ho
    rw [hc.loc] at hl
    rw [hown] at ho
    exact hc.state f (hi.own_settled w f hl ho)
  · intro f
    rw [hc.resumed, hc.waiters]
    obtain ⟨hn, hd, hp⟩ := hi.resumed f
    exact ⟨hn, hd, fun h => hc.state f (hp h)⟩

/-- Who runs does not matter to the invariant. -/
theorem Inv.current {s : St} (hi : Inv s) (g : Gid) : Inv { s with current := g } :=
  { hi with }

/-- One greenlet gets somewhere else. -/
theorem Inv.relocate {s : St} (hi : Inv s) {g : Gid} {l : Where}
    (hu : l ≠ .unborn ∧ l ≠ .unstarted)
    (hw : l = .unstarted ∨ l = .worker_loop ∨ l = .parked → s.handle g ≠ none ∧ s.job g = none)
    (hb : l = .user ∨ (∃ f, l = .start f ∨ l = .wait_future f) → s.handle g ≠ none →
      s.job g ≠ none)
    (hleave : ∀ f, s.loc g = .back_waiter f → s.own g = true →
      l = .back_waiter f ∨ (s.futures f).waiters = ∅)
    (henter : ∀ f, l = .back_waiter f → s.own g = true → (s.futures f).state ≠ .F_PENDING) :
    Inv { s with loc := Function.update s.loc g l } := by
  refine { hi with
    unborn := ?_, worker := ?_, busy := ?_, started := ?_, completion := ?_, own_settled := ?_ }
  · -- Unborn: nobody becomes so
    intro w h
    rcases update_cases h with ⟨-, hl⟩ | ⟨-, h⟩
    · exact absurd hl hu.1
    · exact hi.unborn w h
  · -- Worker: by assumption in its new place
    intro w h
    by_cases hg : w = g
    · subst hg
      simp only [Function.update_self] at h
      exact hw h
    · simp only [Function.update_of_ne hg] at h
      exact hi.worker w h
  · intro w h
    by_cases hg : w = g
    · subst hg
      simp only [Function.update_self] at h
      exact hb h
    · simp only [Function.update_of_ne hg] at h
      exact hi.busy w h
  · intro f w h
    by_cases hg : w = g
    · subst hg
      simpa only [Function.update_self] using hu
    · simpa only [Function.update_of_ne hg] using hi.started f w h
  · -- Completion: its worker leaves `back_waiter` only when nobody waits
    intro f w ws hc
    show (Function.update s.loc g l w = .back_waiter f ∧ s.own w = true) ∨ _
    rcases hi.completion f w ws hc with ⟨hl, ho⟩ | he
    · by_cases hg : w = g
      · subst hg
        rcases hleave f hl ho with h | h
        · exact .inl ⟨by rw [Function.update_self, h], ho⟩
        · exact .inr h
      · exact .inl ⟨by rw [Function.update_of_ne hg, hl], ho⟩
    · exact .inr he
  · -- Own `back_waiter`
    intro w f h ho
    rcases update_cases h with ⟨rfl, hl⟩ | ⟨-, h⟩
    · exact henter f hl ho
    · exact hi.own_settled w f h ho

/-- Python code goes on, or gets to another switch of `wait_future`. -/
theorem Inv.python {s : St} (hi : Inv s) {g : Gid} {l : Where}
    (hg : s.loc g = .user ∨ ∃ f, s.loc g = .start f ∨ s.loc g = .wait_future f)
    (hl : l = .user ∨ ∃ f, l = .start f ∨ l = .wait_future f) :
    Inv { s with loc := Function.update s.loc g l } := by
  have hnot : ∀ f, s.loc g ≠ .back_waiter f := by
    intro f hc
    rw [hc] at hg
    rcases hg with hg | ⟨f', hg | hg⟩ <;> cases hg
  apply hi.relocate
  · rcases hl with rfl | ⟨f, rfl | rfl⟩ <;> simp
  · rcases hl with rfl | ⟨f, rfl | rfl⟩ <;> rintro (hc | hc | hc) <;> cases hc
  · exact fun _ => hi.busy g hg
  · intro f hf
    exact absurd hf (hnot f)
  · rcases hl with rfl | ⟨f, rfl | rfl⟩ <;> simp

theorem Inv.start_returned {s : St} (hi : Inv s) {g : Gid} {f : Fid}
    (hg : s.loc g = .user ∨ ∃ f, s.loc g = .start f ∨ s.loc g = .wait_future f) :
    Inv (s.started g f) := by
  unfold St.started
  split
  · exact (hi.python hg (.inr ⟨f, .inr rfl⟩)).current loop_greenlet
  · exact (hi.python hg (.inl rfl)).current g

theorem Inv.greenlet_switch {s : St} (hi : Inv s) (o : Gid) : Inv (s.greenlet_switch o) := by
  unfold St.greenlet_switch
  have hworker : s.loc o = .unstarted ∨ s.loc o = .parked →
      Inv { s with current := o, loc := Function.update s.loc o .worker_loop } := by
    intro h
    have hloop : Inv { s with loc := Function.update s.loc o .worker_loop } := by
      apply hi.relocate
      · simp
      · intro _
        rcases h with h | h
        · exact hi.worker o (.inl h)
        · exact hi.worker o (.inr (.inr h))
      · rintro (hc | ⟨f, hc | hc⟩) <;> cases hc
      · intro f hf
        rcases h with h | h <;> simp [h] at hf
      · simp
    exact hloop.current o
  cases hloc : s.loc o with
  | dead => exact hi.current loop_greenlet
  | unstarted => exact hworker (.inl hloc)
  | parked => exact hworker (.inr hloc)
  | start f => exact hi.start_returned (.inr ⟨f, .inl hloc⟩)
  | wait_future f => exact (hi.python (.inr ⟨f, .inr hloc⟩) (.inl rfl)).current o
  | unborn => exact hi.current o
  | user => exact hi.current o
  | worker_loop => exact hi.current o
  | back_waiter f => exact hi.current o

/-! ## `back_waiter` and completions -/

theorem Inv.aimed {s : St} (hi : Inv s) (f : Fid) : Aimed s f := by
  intro h hf
  obtain ⟨w, hw⟩ := hi.fhandle f h hf
  obtain ⟨hlt, ht⟩ := hi.handle w h hw
  exact ⟨hlt, w, ht⟩

/-- In Python code a worker is in a submitted function, so its `back_waiter` is
not one of `run_worker`. -/
theorem Inv.not_own {s : St} (hi : Inv s) {g : Gid} (hl : s.loc g = .user) : s.own g = false := by
  cases ho : s.own g with
  | false => rfl
  | true =>
    simp only [St.own, Bool.and_eq_true, Option.isSome_iff_ne_none, Option.isNone_iff_eq_none] at ho
    exact absurd ho.2 (hi.busy g (.inl hl) ho.1)

theorem Inv.enter {s : St} (hi : Inv s) (hl : s.loc s.current = .user) (f : Fid) :
    Inv { s with loc := Function.update s.loc s.current (.back_waiter f) } := by
  apply hi.relocate
  · simp
  · rintro (hc | hc | hc) <;> cases hc
  · rintro (hc | ⟨f', hc | hc⟩) <;> cases hc
  · intro f' hf'
    simp [hl] at hf'
  · intro f' _ ho
    rw [hi.not_own hl] at ho
    cases ho

/-- A worker that is in `back_waiter` for the future of its own item, which is
settled, has completed it. -/
theorem Inv.complete {s : St} (hi : Inv s) {f : Fid} (hl : s.loc s.current = .back_waiter f)
    (hh : s.handle s.current ≠ none) (hs : (s.futures f).state ≠ .F_PENDING) (ws : Gid → Bool) :
    Inv { s with
      job := Function.update s.job s.current none
      completion := Function.update s.completion f (some (s.current, ws)) } := by
  have hjob : ∀ {w f'}, Function.update s.job s.current none w = some f' → s.job w = some f' := by
    intro w f' hw
    rcases update_cases hw with ⟨-, ⟨⟩⟩ | ⟨-, hw⟩
    exact hw
  refine { hi with
    job_lt := fun w f' hw => hi.job_lt w f' (hjob hw)
    job_taken := fun w f' hw => hi.job_taken w f' (hjob hw)
    job_handle := fun w f' hw => hi.job_handle w f' (hjob hw)
    worker := ?_, busy := ?_, settled := ?_, completion := ?_, own_settled := ?_ }
  · intro w h
    have hg : w ≠ s.current := by
      rintro rfl
      simp [hl] at h
    simpa [Function.update_of_ne hg] using hi.worker w h
  · intro w h hw
    have hg : w ≠ s.current := by
      rintro rfl
      simp [hl] at h
    simpa [Function.update_of_ne hg] using hi.busy w h hw
  · -- Settled: `f` is, by assumption
    intro f' hf'
    by_cases hf : f' = f
    · exact hf ▸ hs
    · exact hi.settled f' (by simpa [Function.update_of_ne hf] using hf')
  · -- Completion: the worker is in its own `back_waiter` now
    intro f' w ws' hf'
    by_cases hf : f' = f
    · subst hf
      simp only [Function.update_self, Option.some.injEq, Prod.mk.injEq] at hf'
      obtain ⟨rfl, -⟩ := hf'
      refine .inl ⟨hl, ?_⟩
      simpa [St.own, Option.isSome_iff_ne_none] using hh
    · simp only [Function.update_of_ne hf] at hf'
      rcases hi.completion f' w ws' hf' with ⟨hl', ho⟩ | he
      · have hg : w ≠ s.current := by
          rintro rfl
          rw [hl'] at hl
          injection hl with hl
          exact hf hl
        exact .inl ⟨hl', by simpa [St.own, Function.update_of_ne hg] using ho⟩
      · exact .inr he
  · -- Own `back_waiter`: `f` is settled
    intro w f' hl' ho
    by_cases hg : w = s.current
    · subst hg
      rw [hl] at hl'
      injection hl' with hl'
      exact hl' ▸ hs
    · exact hi.own_settled w f' hl' (by simpa [St.own, Function.update_of_ne hg] using ho)

theorem Inv.completed {s : St} (hi : Inv s) (hl : s.loc s.current = .user) {f : Fid}
    (hj : s.job s.current = some f) : Inv (completed s f) := by
  have hfin := (hi.calm (calm_finished s f)).enter hl f
  refine hfin.complete ?_ (hi.job_handle _ _ hj).1 ?_ _
  · simp
  · simp

/-! ## Workers -/

/-- A worker that runs its own code, with nobody left to wake. -/
structure AtLoop (s : St) : Prop where
  worker : s.handle s.current ≠ none ∧ s.job s.current = none
  leave : ∀ f, s.loc s.current = .back_waiter f → (s.futures f).waiters = ∅

theorem Inv.atLoop {s : St} (hi : Inv s) (hl : s.loc s.current = .worker_loop) : AtLoop s where
  worker := hi.worker _ (.inr (.inl hl))
  leave := by
    intro f hf
    rw [hl] at hf
    cases hf

theorem Inv.worker_exit {s : St} (hi : Inv s) (ha : AtLoop s) : Inv s.worker_exit := by
  have hdead : Inv { s with loc := Function.update s.loc s.current .dead } := by
    apply hi.relocate
    · simp
    · rintro (hc | hc | hc) <;> cases hc
    · rintro (hc | ⟨f, hc | hc⟩) <;> cases hc
    · exact fun f hf _ => .inr (ha.leave f hf)
    · simp
  exact hdead.current loop_greenlet

theorem Inv.to_worker_loop {s : St} (hi : Inv s) (ha : AtLoop s) :
    Inv { s with loc := Function.update s.loc s.current .worker_loop } := by
  apply hi.relocate
  · simp
  · exact fun _ => ha.worker
  · rintro (hc | ⟨f, hc | hc⟩) <;> cases hc
  · exact fun f hf _ => .inr (ha.leave f hf)
  · simp

theorem Inv.item_done {s : St} (hi : Inv s) (ha : AtLoop s) : Inv s.item_done := by
  rcases item_done_cases s with ⟨heq, -⟩ | ⟨h, hh, -, -, heq⟩ | ⟨hh, heq⟩
  · -- Case: the worker returns
    rw [heq]
    exact hi.worker_exit ha
  · -- Case: its handle is queued once more
    rw [heq]
    obtain ⟨hlt, ht⟩ := hi.handle _ h hh
    exact (hi.to_worker_loop ha).calm ((calm_reschedule hlt ht).enter .worker_loop)
  · -- Case: a worker has a handle
    exact absurd hh ha.worker.1

/-- The item at the head of the queue is taken by the worker that runs. -/
theorem Inv.take {s : St} (hi : Inv s) {f : Fid} {rest : List Fid}
    (hp : s.executor.pendings = f :: rest) :
    Inv { s with executor := { s.executor with pendings := rest } } := by
  have hsub : ∀ {f'}, f' ∈ rest → f' ∈ s.executor.pendings := by
    intro f' hf'
    rw [hp]
    exact List.mem_cons_of_mem _ hf'
  have hnodup := hi.nodup
  rw [hp] at hnodup
  exact { hi with
    pendings_lt := fun f' hf' => hi.pendings_lt f' (hsub hf')
    nodup := hnodup.of_cons
    job_taken := fun w f' hw hf' => hi.job_taken w f' hw (hsub hf') }

/-- The worker of an item that is in nobody's hands leaves its handle in the
future. -/
theorem Inv.set_handle {s : St} (hi : Inv s) {f : Fid} (hf : ∀ w, s.job w ≠ some f) :
    Inv { s with
      futures := Function.update s.futures f
        { s.futures f with handle := s.handle s.current } } := by
  have hstate : ∀ f', (Function.update s.futures f
      { s.futures f with handle := s.handle s.current } f').state = (s.futures f').state :=
    update_field FutureObject.state rfl
  have hwaiters : ∀ f', (Function.update s.futures f
      { s.futures f with handle := s.handle s.current } f').waiters = (s.futures f').waiters :=
    update_field FutureObject.waiters rfl
  refine { hi with
    fhandle := ?_, job_handle := ?_, started := ?_, settled := ?_, completion := ?_,
    own_settled := ?_, resumed := ?_ }
  · intro f' h hh
    by_cases hff : f' = f
    · subst hff
      simp only [Function.update_self] at hh
      exact ⟨s.current, hh⟩
    · simp only [Function.update_of_ne hff] at hh
      exact hi.fhandle f' h hh
  · intro w f' hw
    have hff : f' ≠ f := by
      rintro rfl
      exact hf w hw
    simpa [Function.update_of_ne hff] using hi.job_handle w f' hw
  · intro f'
    rw [hwaiters]
    exact hi.started f'
  · intro f' hc
    rw [hstate]
    exact hi.settled f' hc
  · intro f' w ws hc
    rw [hwaiters]
    exact hi.completion f' w ws hc
  · intro w f' hl ho
    rw [hstate]
    exact hi.own_settled w f' hl ho
  · intro f'
    rw [hstate, hwaiters]
    exact hi.resumed f'

/-- The worker calls the submitted function. -/
theorem Inv.start_item {s : St} (hi : Inv s) (hl : s.loc s.current = .worker_loop) {f : Fid}
    (hlt : f < s.next) (hp : f ∉ s.executor.pendings)
    (hh : (s.futures f).handle = s.handle s.current) :
    Inv { s with
      loc := Function.update s.loc s.current .user
      job := Function.update s.job s.current (some f) } := by
  have hne : s.handle s.current ≠ none := (hi.worker _ (.inr (.inl hl))).1
  -- the worker was in nobody's `back_waiter`
  have hback : ∀ {w f'}, Function.update s.loc s.current .user w = .back_waiter f' →
      w ≠ s.current ∧ s.loc w = .back_waiter f' := by
    intro w f' h
    rcases update_cases h with ⟨-, ⟨⟩⟩ | h
    exact h
  refine { hi with
    job_lt := ?_, job_taken := ?_, job_handle := ?_, unborn := ?_, worker := ?_, busy := ?_,
    started := ?_, completion := ?_, own_settled := ?_ }
  · intro w f' hw
    rcases update_cases hw with ⟨-, ⟨⟩⟩ | ⟨-, hw⟩
    · exact hlt
    · exact hi.job_lt w f' hw
  · intro w f' hw
    rcases update_cases hw with ⟨-, ⟨⟩⟩ | ⟨-, hw⟩
    · exact hp
    · exact hi.job_taken w f' hw
  · intro w f' hw
    rcases update_cases hw with ⟨rfl, ⟨⟩⟩ | ⟨-, hw⟩
    · exact ⟨hne, hh⟩
    · exact hi.job_handle w f' hw
  · intro w h
    rcases update_cases h with ⟨-, ⟨⟩⟩ | ⟨-, h⟩
    exact hi.unborn w h
  · intro w h
    have hg : w ≠ s.current := by
      rintro rfl
      simp at h
    simpa [Function.update_of_ne hg] using
      hi.worker w (by simpa [Function.update_of_ne hg] using h)
  · intro w h hw
    by_cases hg : w = s.current
    · subst hg
      simp
    · show Function.update s.job s.current (some f) w ≠ none
      rw [Function.update_of_ne hg]
      exact hi.busy w (by simpa [Function.update_of_ne hg] using h) hw
  · intro f' w h
    by_cases hg : w = s.current
    · subst hg
      simp
    · simpa [Function.update_of_ne hg] using hi.started f' w h
  · intro f' w ws hc
    rcases hi.completion f' w ws hc with ⟨hl', ho⟩ | he
    · have hg : w ≠ s.current := by
        rintro rfl
        rw [hl] at hl'
        cases hl'
      exact .inl ⟨by simpa [Function.update_of_ne hg] using hl',
        by simpa [St.own, Function.update_of_ne hg] using ho⟩
    · exact .inr he
  · intro w f' h ho
    obtain ⟨hg, hl'⟩ := hback h
    exact hi.own_settled w f' hl' (by simpa [St.own, Function.update_of_ne hg] using ho)

theorem Inv.taken {s : St} (hi : Inv s) {f : Fid} {rest : List Fid}
    (hp : s.executor.pendings = f :: rest) : Inv (taken s f rest) := by
  apply (hi.take hp).set_handle
  intro w hw
  apply hi.job_taken w f hw
  rw [hp]
  exact List.mem_cons_self

theorem Inv.worker_loop {s : St} (hi : Inv s) (hl : s.loc s.current = .worker_loop) :
    Inv s.worker_loop := by
  have hloop := hi.atLoop hl
  rcases worker_loop_cases s with ⟨-, heq⟩ | ⟨-, heq⟩ | ⟨f, rest, hp, -, heq | heq | heq⟩
  · -- Case: the loop was stopped
    rw [heq]
    exact hi.worker_exit hloop
  · -- Case: no item is left, and the worker parks
    rw [heq]
    refine Inv.current (s := { s with loc := Function.update s.loc s.current .parked }) ?_ _
    apply hi.relocate
    · simp
    · exact fun _ => hloop.worker
    · rintro (hc | ⟨f, hc | hc⟩) <;> cases hc
    · exact fun f hf _ => .inr (hloop.leave f hf)
    · simp
  · -- Case: an item that is not pending is dropped
    rw [heq]
    exact hi.take hp
  · -- Case: an item that has a result is dropped
    rw [heq]
    exact (hi.taken hp).item_done ((hi.taken hp).atLoop hl)
  · -- Case: the submitted function is called
    rw [heq]
    have hmem : f ∈ s.executor.pendings := by
      rw [hp]
      exact List.mem_cons_self
    have hnodup := hi.nodup
    rw [hp] at hnodup
    refine (hi.taken hp).start_item hl (hi.pendings_lt f hmem) hnodup.notMem ?_
    simp [Executor.taken]

/-! ## Waiting and waking -/

/-- A future has other waiters, and nothing else changes but the record. -/
theorem Inv.put_waiters {s : St} (hi : Inv s) {f : Fid} {waiters : Finset Gid}
    {resumed : Fid → List Gid}
    (hstarted : ∀ g ∈ waiters, s.loc g ≠ .unborn ∧ s.loc g ≠ .unstarted)
    (hcompletion : ∀ w ws, s.completion f = some (w, ws) →
      (s.loc w = .back_waiter f ∧ s.own w = true) ∨ waiters = ∅)
    (hother : ∀ f', f' ≠ f → resumed f' = s.resumed f')
    (hresumed : (resumed f).Nodup ∧ (∀ g ∈ resumed f, g ∉ waiters) ∧
      (resumed f ≠ [] → (s.futures f).state ≠ .F_PENDING)) :
    Inv { s with
      futures := Function.update s.futures f { s.futures f with waiters := waiters }
      resumed := resumed } := by
  have hstate : ∀ f', (Function.update s.futures f
      { s.futures f with waiters := waiters } f').state = (s.futures f').state :=
    update_field FutureObject.state rfl
  have hhandle : ∀ f', (Function.update s.futures f
      { s.futures f with waiters := waiters } f').handle = (s.futures f').handle :=
    update_field FutureObject.handle rfl
  refine { hi with
    fhandle := ?_, job_handle := ?_, started := ?_, settled := ?_, completion := ?_,
    own_settled := ?_, resumed := ?_ }
  · intro f' h hf'
    rw [hhandle] at hf'
    exact hi.fhandle f' h hf'
  · intro w f' hw
    rw [hhandle]
    exact hi.job_handle w f' hw
  · intro f' g hg
    by_cases h : f' = f
    · subst h
      simp only [Function.update_self] at hg
      exact hstarted g hg
    · simp only [Function.update_of_ne h] at hg
      exact hi.started f' g hg
  · intro f' hf'
    rw [hstate]
    exact hi.settled f' hf'
  · intro f' w ws hc
    by_cases h : f' = f
    · subst h
      simpa [St.own] using hcompletion w ws hc
    · simpa [Function.update_of_ne h, St.own] using hi.completion f' w ws hc
  · intro w f' hl ho
    rw [hstate]
    exact hi.own_settled w f' hl ho
  · intro f'
    rw [hstate]
    by_cases h : f' = f
    · subst h
      simpa using hresumed
    · simpa [Function.update_of_ne h, hother f' h] using hi.resumed f'

/-- A waiter joins the set of a future that is not settled. -/
theorem Inv.add_waiter {s : St} (hi : Inv s) {f : Fid} (hs : (s.futures f).state = .F_PENDING)
    {g : Gid} (hg : s.loc g ≠ .unborn ∧ s.loc g ≠ .unstarted) :
    Inv { s with
      futures := Function.update s.futures f
        { s.futures f with waiters := insert g (s.futures f).waiters } } := by
  refine hi.put_waiters ?_ ?_ (fun _ _ => rfl) ?_
  · intro w hw
    rcases Finset.mem_insert.1 hw with rfl | hw
    · exact hg
    · exact hi.started f w hw
  · -- a completed future is settled
    intro w ws hc
    exact absurd hs (hi.settled f (by rw [hc]; simp))
  · have hnil : s.resumed f = [] := by
      by_contra hr
      exact (hi.resumed f).2.2 hr hs
    simp [hnil]

theorem Inv.result {s : St} (hi : Inv s) (hl : s.loc s.current = .user) (f : Fid) :
    Inv (s.result f) := by
  rcases result_cases s f with ⟨-, heq⟩ | ⟨hp, hsuspends⟩
  · rw [heq]
    exact hi
  · have hadd : Inv (added s f) := hi.add_waiter hp (by rw [hl]; simp)
    rcases hsuspends with ⟨-, heq⟩ | ⟨l, hwait, heq⟩
    · rw [heq]
      exact hadd
    · rw [heq]
      have hrun := hadd.calm (calm_loop (grows_state _ .L_RUNNING))
      exact (hrun.python (.inl hl) (.inr ⟨f, hwait⟩)).current loop_greenlet

/-- `PySet_Pop`: a waiter leaves the set, and may go on record. -/
theorem Inv.pop {s : St} (hi : Inv s) {f : Fid} {o : Gid} (resumed : Fid → List Gid)
    (hr : resumed = s.resumed ∨
      (resumed = Function.update s.resumed f (s.resumed f ++ [o]) ∧
        o ∈ (s.futures f).waiters ∧ (s.futures f).state ≠ .F_PENDING)) :
    Inv { s with
      futures := Function.update s.futures f
        { s.futures f with waiters := (s.futures f).waiters.erase o }
      resumed := resumed } := by
  obtain ⟨hn, hd, hp⟩ := hi.resumed f
  refine hi.put_waiters ?_ ?_ ?_ ?_
  · intro g hg
    exact hi.started f g (Finset.mem_of_mem_erase hg)
  · -- Completion: an empty set stays empty
    intro w ws hc
    rcases hi.completion f w ws hc with h | h
    · exact .inl h
    · rw [h]
      exact .inr (Finset.erase_empty o)
  · intro f' h
    rcases hr with rfl | ⟨rfl, _⟩
    · rfl
    · exact Function.update_of_ne h _ _
  · -- Resumed: the record has no member of the set
    rcases hr with rfl | ⟨rfl, hmem, hs⟩
    · exact ⟨hn, fun g hg hc => hd g hg (Finset.mem_of_mem_erase hc), hp⟩
    · rw [Function.update_self]
      have hnew : o ∉ s.resumed f := fun hc => hd o hc hmem
      refine ⟨?_, ?_, fun _ => hs⟩
      · rw [List.nodup_append]
        refine ⟨hn, List.nodup_singleton o, ?_⟩
        rintro a ha b hb rfl
        rw [List.mem_singleton] at hb
        exact hnew (hb ▸ ha)
      · intro g hg hc
        rcases List.mem_append.1 hg with hg | hg
        · exact hd g hg (Finset.mem_of_mem_erase hc)
        · rw [List.mem_singleton] at hg
          subst hg
          exact absurd hc (Finset.notMem_erase g _)

theorem Inv.back_waiter_next {s s' : St} (hi : Inv s) {f : Fid} {pop : Option Gid}
    (hl : s.loc s.current = .back_waiter f) (h : s.back_waiter_next f pop = some s') : Inv s' := by
  rcases back_waiter_next_cases h with ⟨-, he, ⟨ho, rfl⟩ | ⟨ho, rfl⟩⟩ | ⟨o, -, hmem, rfl⟩
  · -- Case: nobody is left, and the worker goes on with its loop
    refine hi.item_done ⟨own_iff.1 ho, fun f' hf' => ?_⟩
    rw [hl] at hf'
    injection hf' with hf'
    exact hf' ▸ he
  · -- Case: nobody is left, and Python code goes on
    apply hi.relocate
    · simp
    · rintro (hc | hc | hc) <;> cases hc
    · intro _ hh hj
      rw [own_iff.2 ⟨hh, hj⟩] at ho
      cases ho
    · intro f' hf' ho'
      rw [ho] at ho'
      cases ho'
    · simp
  · -- Case: a waiter leaves the set and is switched into
    have hsw := hi.greenlet_switch o
    have hpop := hsw.pop (f := f) (o := o)
      (if s.own s.current then Function.update s.resumed f (s.resumed f ++ [o])
        else s.resumed) ?_
    · rw [greenlet_switch_futures] at hpop
      exact hpop
    · rw [greenlet_switch_futures, greenlet_switch_resumed]
      split
      next ho => exact .inr ⟨rfl, hmem, hi.own_settled _ _ hl ho⟩
      · exact .inl rfl

/-! ## Submitting and firing -/

theorem Inv.push {s : St} (hi : Inv s) : Inv (pushed s) := by
  unfold pushed
  refine { hi with
    pendings_lt := ?_, nodup := ?_, job_lt := ?_, job_taken := ?_ }
  · intro f hf
    rcases List.mem_append.1 hf with hf | hf
    · exact Nat.lt_succ_of_lt (hi.pendings_lt f hf)
    · rw [List.mem_singleton] at hf
      exact hf ▸ Nat.lt_succ_self s.next
  · rw [List.nodup_append]
    refine ⟨hi.nodup, List.nodup_singleton _, ?_⟩
    rintro a ha b hb rfl
    rw [List.mem_singleton] at hb
    exact Nat.lt_irrefl _ (hb ▸ hi.pendings_lt a ha)
  · exact fun w f hw => Nat.lt_succ_of_lt (hi.job_lt w f hw)
  · intro w f hw hf
    rcases List.mem_append.1 hf with hf | hf
    · exact hi.job_taken w f hw hf
    · rw [List.mem_singleton] at hf
      exact Nat.lt_irrefl _ (hf ▸ hi.job_lt w f hw)

/-- A greenlet that did not exist becomes a worker. -/
theorem Inv.hire {s : St} (hi : Inv s) {w : Gid} (hw : s.loc w = .unborn) : Inv (hired s w) := by
  have hnone := hi.unborn w hw
  have hidle : s.job w = none := by
    by_contra hj
    obtain ⟨f, hf⟩ := Option.ne_none_iff_exists'.1 hj
    exact (hi.job_handle w f hf).1 hnone
  have hgrow := grows_loop_schedule_call s.loop 0 none (some w)
  unfold hired
  refine { hi with
    handle := ?_, fhandle := ?_, job_handle := ?_, unborn := ?_, worker := ?_, busy := ?_,
    started := ?_, completion := ?_, own_settled := ?_ }
  · -- Handle: the new one switches into `w`, the old ones keep their targets
    intro w' h hh
    by_cases hg : w' = w
    · subst hg
      simp only [Function.update_self, Option.some.injEq] at hh
      subst hh
      refine ⟨?_, ?_⟩
      · show s.loop.next < (s.loop.loop_schedule_call 0 none (some w')).1.next
        rw [loop_schedule_call_next]
        exact Nat.lt_succ_self s.loop.next
      · show (s.loop.loop_schedule_call 0 none (some w')).1.target s.loop.next = .switch w'
        rw [target_congr (loop_schedule_call_handles _ _ _ _), target_make_handle_self, aim_switch]
    · simp only [Function.update_of_ne hg] at hh
      obtain ⟨hlt, ht⟩ := hi.handle w' h hh
      exact ⟨Nat.lt_of_lt_of_le hlt hgrow.next_le, (hgrow.target h hlt).trans ht⟩
  · intro f h hf
    obtain ⟨w', hw'⟩ := hi.fhandle f h hf
    have hg : w' ≠ w := by
      rintro rfl
      rw [hnone] at hw'
      cases hw'
    exact ⟨w', by simpa [Function.update_of_ne hg] using hw'⟩
  · intro w' f hj
    have hg : w' ≠ w := by
      rintro rfl
      exact (hi.job_handle w' f hj).1 hnone
    simpa [Function.update_of_ne hg] using hi.job_handle w' f hj
  · intro w' h
    have hg : w' ≠ w := by
      rintro rfl
      simp at h
    simpa [Function.update_of_ne hg] using hi.unborn w' (by simpa [Function.update_of_ne hg] using h)
  · intro w' h
    by_cases hg : w' = w
    · subst hg
      exact ⟨by simp, hidle⟩
    · simpa [Function.update_of_ne hg] using
        hi.worker w' (by simpa [Function.update_of_ne hg] using h)
  · intro w' h hh
    have hg : w' ≠ w := by
      rintro rfl
      simp at h
    exact hi.busy w' (by simpa [Function.update_of_ne hg] using h)
      (by simpa [Function.update_of_ne hg] using hh)
  · intro f g h
    have hborn := hi.started f g h
    have hg : g ≠ w := by
      rintro rfl
      exact hborn.1 hw
    simpa [Function.update_of_ne hg] using hborn
  · intro f w' ws hc
    rcases hi.completion f w' ws hc with ⟨hl, ho⟩ | he
    · have hg : w' ≠ w := by
        rintro rfl
        rw [hw] at hl
        cases hl
      exact .inl ⟨by simpa [Function.update_of_ne hg] using hl,
        by simpa [St.own, Function.update_of_ne hg] using ho⟩
    · exact .inr he
  · intro w' f h ho
    have hg : w' ≠ w := by
      rintro rfl
      simp at h
    exact hi.own_settled w' f (by simpa [Function.update_of_ne hg] using h)
      (by simpa [St.own, Function.update_of_ne hg] using ho)

theorem Inv.internal_submit {s : St} (hi : Inv s) {w : Gid} (hw : s.loc w = .unborn) :
    Inv (s.internal_submit w) := by
  rcases internal_submit_cases s w with ⟨-, heq⟩ | ⟨-, heq⟩
  · rw [heq]
    exact hi.push.hire hw
  · rw [heq]
    exact hi.push

theorem Inv.greenlet_new {s : St} (hi : Inv s) {g : Gid} (hg : s.loc g = .unborn) :
    Inv { s with loc := Function.update s.loc g .user } := by
  apply hi.relocate
  · simp
  · rintro (hc | hc | hc) <;> cases hc
  · exact fun _ hh => absurd (hi.unborn g hg) hh
  · intro f hf
    simp [hg] at hf
  · simp

/-- The invariant does not count the entries of the queue. -/
theorem Inv.with_loop {s : St} (hi : Inv s) {l : LoopObject Callable}
    (hn : l.next = s.loop.next) (ht : ∀ h, l.target h = s.loop.target h) :
    Inv { s with loop := l } :=
  { hi with
    handle := by
      intro w h hw
      rw [hn, ht]
      exact hi.handle w h hw }

theorem Inv.fire_pendings {s s' : St} (hi : Inv s) (h : s.fire_pendings = some s') : Inv s' := by
  obtain ⟨item, l, eff, -, -, -, hn, -, ht, -, -, rfl⟩ := fire_pendings_cases h
  have hl := hi.with_loop hn ht
  cases eff with
  | nothing => exact hl
  | switch g => exact hl.greenlet_switch g
  | call k => exact hl

/-- Every step keeps the invariant. -/
theorem inv_step {s s' : St} {a : Act} (h : step s a = some s') (hi : Inv s) : Inv s' := by
  rcases step_cases h with ⟨hl, hu⟩ | ⟨hl, -, rfl⟩ | ⟨f, pop, hl, -, hb⟩
  · -- Case: Python code
    cases user_step_cases hu with
    | calm hc => exact hi.calm hc
    | submit hw => exact hi.internal_submit hw
    | greenlet_new hg => exact hi.greenlet_new hg
    | result => exact hi.result hl _
    | enter f hc => exact (hi.enter hl f).calm (hc (hi.aimed f))
    | sleep hgrow => exact (hi.calm (calm_loop hgrow)).current loop_greenlet
    | switch _ _ => exact hi.greenlet_switch _
    | throw ho => exact (hi.python (.inr ⟨_, .inl ho⟩) (.inl rfl)).current _
    | finish hj => exact (hi.completed hl hj).calm (calm_run_worker_finish (hi.aimed _) _)
    | fire _ hf => exact hi.fire_pendings hf
  · -- Case: the loop of `_worker`
    exact hi.worker_loop hl
  · -- Case: the loop of `back_waiter`
    exact hi.back_waiter_next hl hb

end Jega.Executor
