import Jega.Locks.RLock

/-!
# Jega.Locks.Restore — `wait` gives the lock back

`rlock_release_save` clears the owner and `rlock_acquire_restore` puts the saved
one back, so a greenlet that waits does not own the lock and owns it again at the
depth it had when the wait ends (`Restores`).

The one way out without the lock is an exception that reaches the caller while
it is suspended in the `semaphore_acquire` of `rlock_acquire_restore`, which then
returns `NULL` before the restore. `Restores` holds all along a run exactly when
no exception does (`Undisturbed`).
-/

namespace Jega.Locks.RLock

/-- What a wait promises. -/
structure Restores (s : St) : Prop where
  /-- A greenlet blocked on its private semaphore does not own the lock. -/
  released : ∀ g waiter saved, s.pc g = .waiting waiter saved → s.lock.owner ≠ some g
  /-- A wait that ended left its caller the owner, at the depth of the call. -/
  regained : ∀ e ∈ s.ended, e.lock.owner = some e.g ∧ e.lock.count = e.depth

/-- The exception does not end the acquire that `g` waits for in
`rlock_acquire_restore`: it carries the timer of that very call. -/
def Spares (s : St) (g : Gid) (e : Exc) : Prop :=
  ∀ saved res f, s.pc g = .restoring saved res → s.locks.frames g = some f →
    acquire_raised f.timer e = .Py_False

/-- No exception reaches a greenlet that is acquiring the lock again. -/
def Undisturbed (s : St) : Act → Prop
  | .throw g e => Spares s g e
  | .fire _ => ∀ g timer, deadline s.locks = some (g, timer) →
      Spares s g (.TimeoutException timer)
  | _ => True

/-- A suspended greenlet does not own the lock, and a waiter has saved itself as
the owner. -/
structure Inv (s : St) : Prop where
  suspended : ∀ g, s.pc g ≠ .free → s.lock.owner ≠ some g
  waiting : ∀ g waiter saved, s.pc g = .waiting waiter saved → saved.owner = some g
  restoring : ∀ g saved res, s.pc g = .restoring saved res → saved.owner = some g

theorem init_inv : Inv init :=
  ⟨fun _ _ h => by simp [init] at h, fun _ _ _ h => by simp [init] at h,
    fun _ _ _ h => by simp [init] at h⟩

/-- The finished waits left their callers the lock. -/
def Regained (s : St) : Prop :=
  ∀ e ∈ s.ended, e.lock.owner = some e.g ∧ e.lock.count = e.depth

theorem restores_iff {s : St} (hi : Inv s) : Restores s ↔ Regained s := by
  refine ⟨fun h => h.regained, fun h => ⟨fun g waiter saved hpc => ?_, h⟩⟩
  exact hi.suspended g (by rw [hpc]; simp)

/-! ## The operations -/

section Ops

variable {s : St} {g : Gid}

/-- The caller waits for the lock, or has it back. -/
theorem acquire_restore_cases (s : St) (g : Gid) (saved : Saved) (res : Outcome) :
    ∃ locks, rlock_acquire_restore s g saved res =
        { s with locks := locks, pc := Function.update s.pc g (.restoring saved res) } ∨
      rlock_acquire_restore s g saved res = restored { s with locks := locks } g saved res .Py_True := by
  refine ⟨(semaphore_acquire s.locks s.lock.block g true 0).1, ?_⟩
  rcases semaphore_acquire_outcome s.locks s.lock.block g 0 with ho | ho
  · left
    simp only [rlock_acquire_restore, ho]
  · right
    simp only [rlock_acquire_restore, ho]

/-- The lock while its owner waits. -/
def unlocked (s : St) : RLockObject := { s.lock with count := 0, owner := none }

/-- The owner gives the lock up and waits; nobody else may. -/
theorem wait_cases (s : St) (g : Gid) (seconds : Nat) :
    ConditionObject_wait s g seconds = s ∨
      s.lock.owner = some g ∧ ∃ m waiter, m.lock = unlocked s ∧ m.pc = s.pc ∧ m.ended = s.ended ∧
        (ConditionObject_wait s g seconds = { m with
            pc := Function.update s.pc g (.waiting waiter ⟨s.lock.count, s.lock.owner⟩) } ∨
          ConditionObject_wait s g seconds =
            rlock_acquire_restore m g ⟨s.lock.count, s.lock.owner⟩ .Py_True) := by
  by_cases howner : s.lock.owner = some g
  · right
    refine ⟨howner, ?_⟩
    simp only [ConditionObject_wait, howner, ne_eq, not_true_eq_false, if_false, rlock_release_save]
    generalize semaphore_release _ _ _ = l
    refine ⟨⟨(semaphore_acquire l s.next g true seconds).1, s.next + 1, unlocked s,
      s.waiters ++ [s.next], s.pc, s.ended⟩, s.next, rfl, rfl, rfl, ?_⟩
    rcases semaphore_acquire_outcome l s.next g seconds with ho | ho
    · left
      simp only [ho]
      rfl
    · right
      simp only [ho]
      rfl
  · left
    simp [ConditionObject_wait, howner]

/-- `g` moves to a new place, and the lock may change. -/
theorem Inv.move (hi : Inv s) {pc : Pc} {lock : RLockObject}
    (hothers : ∀ g', g' ≠ g → s.pc g' ≠ .free → lock.owner ≠ some g')
    (hg : pc ≠ .free → lock.owner ≠ some g)
    (hw : ∀ waiter saved, pc = .waiting waiter saved → saved.owner = some g)
    (hr : ∀ saved res, pc = .restoring saved res → saved.owner = some g) :
    Inv { s with lock := lock, pc := Function.update s.pc g pc } := by
  refine ⟨fun g' hpc => ?_, fun g' waiter saved hpc => ?_, fun g' saved res hpc => ?_⟩
  · by_cases hgg : g' = g
    · subst hgg
      exact hg (by simpa using hpc)
    · exact hothers g' hgg (by simpa [Function.update_of_ne hgg] using hpc)
  · by_cases hgg : g' = g
    · subst hgg
      exact hw waiter saved (by simpa using hpc)
    · exact hi.waiting g' waiter saved (by simpa [Function.update_of_ne hgg] using hpc)
  · by_cases hgg : g' = g
    · subst hgg
      exact hr saved res (by simpa using hpc)
    · exact hi.restoring g' saved res (by simpa [Function.update_of_ne hgg] using hpc)

/-- `g` is suspended in a new place. -/
theorem Inv.suspend (hi : Inv s) {pc : Pc} (hg : s.lock.owner ≠ some g)
    (hw : ∀ waiter saved, pc = .waiting waiter saved → saved.owner = some g)
    (hr : ∀ saved res, pc = .restoring saved res → saved.owner = some g) :
    Inv { s with pc := Function.update s.pc g pc } := by
  have hothers : ∀ g', g' ≠ g → s.pc g' ≠ .free → s.lock.owner ≠ some g' :=
    fun g' _ hpc => hi.suspended g' hpc
  exact hi.move hothers (fun _ => hg) hw hr

/-- `g` runs on, and may have become the owner. -/
theorem Inv.resume (hi : Inv s) {lock : RLockObject}
    (hl : lock.owner = s.lock.owner ∨ lock.owner = none ∨ lock.owner = some g) :
    Inv { s with lock := lock, pc := Function.update s.pc g .free } := by
  refine hi.move (fun g' hgg hpc => ?_) (fun h => absurd rfl h) (by simp) (by simp)
  rcases hl with h | h | h
  · rw [h]
    exact hi.suspended g' hpc
  · rw [h]
    simp
  · rw [h]
    simpa using Ne.symm hgg

/-- The lock alone changed. -/
theorem Inv.relock (hi : Inv s) {lock : RLockObject} {locks : Locks.St}
    (hl : lock.owner = s.lock.owner ∨ lock.owner = none ∨
      ∃ g, s.pc g = .free ∧ lock.owner = some g) :
    Inv { s with lock := lock, locks := locks } := by
  refine ⟨fun g hpc => ?_, hi.waiting, hi.restoring⟩
  rcases hl with h | h | ⟨g', hfree, h⟩
  · rw [h]
    exact hi.suspended g hpc
  · rw [h]
    simp
  · rw [h]
    rintro heq
    cases heq
    exact hpc hfree

/-- The semaphores and the loop say nothing about the owner. -/
theorem Inv.with_locks (hi : Inv s) (locks : Locks.St) : Inv { s with locks := locks } :=
  ⟨hi.suspended, hi.waiting, hi.restoring⟩

theorem acquire_inv (hi : Inv s) (hfree : s.pc g = .free) (blocking : Bool) (timeout : Nat) :
    Inv (rlock_acquire s g blocking timeout) := by
  by_cases howner : s.lock.owner = some g
  · -- Case: the owner acquires once more
    simp only [rlock_acquire, if_pos howner]
    exact hi.relock (Or.inl rfl)
  · -- Case: the permit is needed
    simp only [rlock_acquire, if_neg howner]
    cases (semaphore_acquire s.locks s.lock.block g blocking timeout).2 with
    | none =>
      refine (hi.with_locks _).suspend howner ?_ ?_
      · intro waiter saved h
        cases h
      · intro saved res h
        cases h
    | some res =>
      cases res with
      | Py_True => exact hi.relock (Or.inr (Or.inr ⟨g, hfree, rfl⟩))
      | Py_False => exact hi.with_locks _
      | NULL e => exact hi.with_locks _

theorem release_inv (hi : Inv s) : Inv (rlock_release s g) := by
  unfold rlock_release
  split
  · exact hi
  · simp only
    split
    · exact hi.relock (Or.inr (Or.inl rfl))
    · exact hi.relock (Or.inl rfl)

theorem restored_inv (hi : Inv s) {saved : Saved} (hs : saved.owner = some g) (res acquired : Outcome) :
    Inv (restored s g saved res acquired) := by
  have hresume : ∀ lock : RLockObject, lock.owner = some g →
      Inv { s with lock := lock, pc := Function.update s.pc g .free } :=
    fun lock h => hi.resume (Or.inr (Or.inr h))
  cases acquired with
  | Py_True =>
    have h := hresume { s.lock with count := saved.count, owner := saved.owner } hs
    exact ⟨h.suspended, h.waiting, h.restoring⟩
  | Py_False =>
    have h := hresume { s.lock with count := saved.count, owner := saved.owner } hs
    exact ⟨h.suspended, h.waiting, h.restoring⟩
  | NULL e =>
    have h : Inv { s with lock := s.lock, pc := Function.update s.pc g .free } :=
      hi.resume (Or.inl rfl)
    exact ⟨h.suspended, h.waiting, h.restoring⟩

/-- A wait that goes on to acquire the lock again. -/
theorem acquire_restore_inv (hi : Inv s) (ho : s.lock.owner ≠ some g) {saved : Saved}
    (hs : saved.owner = some g) (res : Outcome) : Inv (rlock_acquire_restore s g saved res) := by
  rcases acquire_restore_cases s g saved res with ⟨locks, h | h⟩
  · -- Case: the caller waits for the lock
    rw [h]
    refine (hi.with_locks locks).suspend ho ?_ ?_
    · intro waiter saved' h'
      cases h'
    · intro saved' res' h'
      cases h'
      exact hs
  · -- Case: the lock was free
    rw [h]
    exact restored_inv (hi.with_locks locks) hs res .Py_True

theorem wait_inv (hi : Inv s) (seconds : Nat) : Inv (ConditionObject_wait s g seconds) := by
  rcases wait_cases s g seconds with h | ⟨howner, m, waiter, hlock, hpc, _, h | h⟩
  · rw [h]
    exact hi
  all_goals
    have hm : Inv m := by
      refine ⟨fun g' _ => ?_, ?_, ?_⟩
      · rw [hlock]
        simp [unlocked]
      · rw [hpc]
        exact hi.waiting
      · rw [hpc]
        exact hi.restoring
    have ho : m.lock.owner ≠ some g := by
      rw [hlock]
      simp [unlocked]
    rw [h]
  · -- Case: the caller is blocked on its private semaphore
    rw [← hpc]
    refine hm.suspend ho ?_ ?_
    · intro waiter' saved h'
      cases h'
      exact howner
    · intro saved res h'
      cases h'
  · -- Case: it goes on to acquire the lock
    exact acquire_restore_inv hm ho howner .Py_True

theorem notify_inv (hi : Inv s) (n : Int) : Inv (condition_notify s g n) := by
  unfold condition_notify
  split
  · exact hi
  · exact ⟨hi.suspended, hi.waiting, hi.restoring⟩

theorem settle_inv (hi : Inv s) (r : Locks.St × Option (Gid × Outcome)) : Inv (settle s r) := by
  have hlocks : Inv { s with locks := r.1 } := hi.with_locks r.1
  unfold settle finished
  split
  · exact hlocks
  next current res hr =>
    split
    · exact hlocks
    next hpc =>
      -- Case: an `rlock_acquire` ends
      cases res with
      | Py_True => exact hlocks.resume (Or.inr (Or.inr rfl))
      | Py_False => exact hlocks.resume (Or.inl (rfl : s.lock.owner = s.lock.owner))
      | NULL e => exact hlocks.resume (Or.inl (rfl : s.lock.owner = s.lock.owner))
    next waiter saved hpc =>
      -- Case: the private semaphore is left
      have hne : s.pc current ≠ .free := by
        rw [hpc]
        simp
      exact acquire_restore_inv hlocks (hi.suspended current hne)
        (hi.waiting current waiter saved hpc) res
    next saved res' hpc => exact restored_inv hlocks (hi.restoring current saved res' hpc) res' res

/-! ## The finished waits -/

/-- A wait that returns the lock is good exactly if its acquire did not raise. -/
theorem restored_regained (hr : Regained s) (ho : s.lock.owner ≠ some g) {saved : Saved}
    (hs : saved.owner = some g) (res acquired : Outcome) :
    Regained (restored s g saved res acquired) ↔ ∀ e, acquired ≠ .NULL e := by
  have happend : ∀ (lock : RLockObject) (res' : Outcome),
      (∀ e ∈ s.ended ++ [⟨g, saved.count, res', lock⟩],
        e.lock.owner = some e.g ∧ e.lock.count = e.depth) ↔
      lock.owner = some g ∧ lock.count = saved.count := by
    intro lock res'
    constructor
    · intro h
      exact h ⟨g, saved.count, res', lock⟩ (by simp)
    · intro h e he
      rcases List.mem_append.1 he with he | he
      · exact hr e he
      · rw [List.mem_singleton] at he
        rw [he]
        exact h
  cases acquired with
  | Py_True => exact iff_of_true ((happend _ res).2 ⟨hs, rfl⟩) (by simp)
  | Py_False => exact iff_of_true ((happend _ res).2 ⟨hs, rfl⟩) (by simp)
  | NULL e =>
    refine iff_of_false (fun h => ?_) (fun h => h e rfl)
    exact ho ((happend s.lock (.NULL e)).1 h).1

theorem acquire_restore_regained (hr : Regained s) (ho : s.lock.owner ≠ some g) {saved : Saved}
    (hs : saved.owner = some g) (res : Outcome) :
    Regained (rlock_acquire_restore s g saved res) := by
  rcases acquire_restore_cases s g saved res with ⟨locks, h | h⟩
  · -- Case: the wait has not ended
    rw [h]
    exact hr
  · -- Case: it ends with the lock
    rw [h]
    have hr' : Regained { s with locks := locks } := hr
    exact (restored_regained hr' ho hs res .Py_True).2 (by simp)

/-- Only a `wait` that returns adds to the finished ones. -/
theorem Regained.congr {s' : St} (hr : Regained s) (he : s'.ended = s.ended) : Regained s' := by
  unfold Regained
  rw [he]
  exact hr

theorem acquire_ended (s : St) (g : Gid) (blocking : Bool) (timeout : Nat) :
    (rlock_acquire s g blocking timeout).ended = s.ended := by
  by_cases howner : s.lock.owner = some g
  · simp only [rlock_acquire, if_pos howner]
  · simp only [rlock_acquire, if_neg howner]
    cases (semaphore_acquire s.locks s.lock.block g blocking timeout).2 with
    | none => rfl
    | some res => cases res <;> rfl

theorem release_ended (s : St) (g : Gid) : (rlock_release s g).ended = s.ended := by
  unfold rlock_release
  split
  · rfl
  · simp only
    split <;> rfl

theorem notify_ended (s : St) (g : Gid) (n : Int) : (condition_notify s g n).ended = s.ended := by
  unfold condition_notify
  split <;> rfl

/-- A wait that need not block has its lock back. -/
theorem wait_regained (hr : Regained s) (g : Gid) (seconds : Nat) :
    Regained (ConditionObject_wait s g seconds) := by
  rcases wait_cases s g seconds with heq | ⟨howner, m, waiter, hlock, _, hended, heq | heq⟩
  · rw [heq]
    exact hr
  · rw [heq]
    exact hr.congr hended
  · have ho : m.lock.owner ≠ some g := by
      rw [hlock]
      simp [unlocked]
    rw [heq]
    exact acquire_restore_regained (hr.congr hended) ho howner .Py_True

/-- Only a wait that could not acquire the lock again ends without it. -/
theorem settle_regained (hi : Inv s) (hr : Regained s) (r : Locks.St × Option (Gid × Outcome)) :
    Regained (settle s r) ↔ ∀ g e saved res, r.2 = some (g, .NULL e) →
      s.pc g ≠ .restoring saved res := by
  have hlocks : Inv { s with locks := r.1 } := hi.with_locks r.1
  have hrl : Regained { s with locks := r.1 } := hr
  unfold settle finished
  split
  next hnone =>
    refine iff_of_true hrl fun g e saved res h => ?_
    rw [hnone] at h
    cases h
  next current res hsome =>
    have hother : (∀ saved res', s.pc current ≠ .restoring saved res') →
        ∀ g e saved res', r.2 = some (g, .NULL e) → s.pc g ≠ .restoring saved res' := by
      intro hne g e saved res' h
      rw [hsome] at h
      cases h
      exact hne saved res'
    split
    next hpc => exact iff_of_true hrl (hother (by rw [hpc]; simp))
    next hpc =>
      refine iff_of_true ?_ (hother (by rw [hpc]; simp))
      cases res <;> exact hrl
    next waiter saved hpc =>
      have hne : s.pc current ≠ .free := by
        rw [hpc]
        simp
      refine iff_of_true ?_ (hother (by rw [hpc]; simp))
      exact acquire_restore_regained hrl (hi.suspended current hne)
        (hi.waiting current waiter saved hpc) res
    next saved res' hpc =>
      have hne : s.pc current ≠ .free := by
        rw [hpc]
        simp
      have hiff := restored_regained hrl (hi.suspended current hne)
        (hi.restoring current saved res' hpc) res' res
      rw [hiff]
      constructor
      · intro h g e saved' res'' hr'
        rw [hsome] at hr'
        cases hr'
        exact absurd rfl (h e)
      · intro h e heq
        subst heq
        exact h current e saved res' hsome hpc

end Ops

/-! ## Runs -/

theorem step_inv (s : St) (a : Act) (s' : St) (h : step s a = some s') (hi : Inv s) : Inv s' := by
  cases step_cases h with
  | acquire hpc => exact acquire_inv hi hpc _ _
  | release _ => exact release_inv hi
  | wait _ => exact wait_inv hi _
  | notify _ => exact notify_inv hi _
  | notify_all _ => exact notify_inv hi _
  | fire _ => exact settle_inv hi _
  | throw => exact settle_inv hi _
  | switch => exact settle_inv hi _
  | due _ | call_soon => exact hi.with_locks _

/-- An exception thrown into `g` ends its wait without the lock exactly if it is
not spared. -/
theorem throw_spares_iff (s : St) (g : Gid) (e : Exc) :
    (∀ g' e' saved res, (resume s.locks g (.throw e)).2.map (Prod.mk g) = some (g', .NULL e') →
      s.pc g' ≠ .restoring saved res) ↔ Spares s g e := by
  constructor
  · -- an exception that does not become `False` would end the wait
    intro h saved res f hpc hf
    have hend : (resume s.locks g (.throw e)).2 = some (acquire_raised f.timer e) :=
      resume_throw_outcome.2 ⟨f, hf, rfl⟩
    cases hraised : acquire_raised f.timer e with
    | Py_True => exact absurd hraised (acquire_raised_ne_true f.timer e)
    | Py_False => rfl
    | NULL e' =>
      rw [hraised] at hend
      exact absurd hpc (h g e' saved res (by rw [hend]; rfl))
  · -- a wait that ends so was reached by an exception
    intro h g' e' saved res hr hpc
    rcases Option.map_eq_some_iff.1 hr with ⟨res', hres, heq⟩
    cases heq
    rcases resume_throw_outcome.1 hres with ⟨f, hf, hraised⟩
    have hfalse := h saved res f hpc hf
    rw [hraised] at hfalse
    cases hfalse

/-- An entry that is fired ends a wait without the lock only if it is a deadline
that is not spared. -/
theorem fire_spares_iff {s : St} {waiter : Gid} {r : Locks.St × Option (Gid × Outcome)}
    (hfire : fire s.locks waiter = some r) :
    (∀ g e saved res, r.2 = some (g, .NULL e) → s.pc g ≠ .restoring saved res) ↔
      Undisturbed s (.fire waiter) := by
  cases hd : deadline s.locks with
  | none =>
    refine iff_of_true (fun g e saved res hres => ?_) (fun g timer hd' => ?_)
    · rcases fire_no_deadline hfire hd with hnone | htrue
      · rw [hnone] at hres
        cases hres
      · rw [htrue] at hres
        cases hres
    · rw [hd] at hd'
      cases hd'
  | some d =>
    obtain ⟨g, timer⟩ := d
    have hspares : Undisturbed s (.fire waiter) ↔ Spares s g (.TimeoutException timer) := by
      simp only [Undisturbed, hd, Option.some.injEq, Prod.mk.injEq]
      exact ⟨fun h => h g timer ⟨rfl, rfl⟩, fun h g' timer' heq => heq.1 ▸ heq.2 ▸ h⟩
    rw [hspares, ← throw_spares_iff, fire_deadline hfire hd]

/-- What one step does to the finished waits. -/
theorem step_regained_iff (s : St) (a : Act) (s' : St) (h : step s a = some s') (hi : Inv s)
    (hr : Regained s) : Regained s' ↔ Undisturbed s a := by
  cases step_cases h with
  | acquire _ => exact iff_of_true (hr.congr (acquire_ended s _ _ _)) trivial
  | release _ => exact iff_of_true (hr.congr (release_ended s _)) trivial
  | wait _ => exact iff_of_true (wait_regained hr _ _) trivial
  | notify _ => exact iff_of_true (hr.congr (notify_ended s _ _)) trivial
  | notify_all _ => exact iff_of_true (hr.congr (notify_ended s _ _)) trivial
  | fire hfire => exact (settle_regained hi hr _).trans (fire_spares_iff hfire)
  | throw => exact (settle_regained hi hr _).trans (throw_spares_iff s _ _)
  | @switch g =>
    rw [settle_regained hi hr]
    refine iff_of_true (fun g' e saved res hres => ?_) trivial
    rcases resume_value_outcome s.locks g .loop_switch_value with ho | ho
    · simp [ho] at hres
    · simp [ho] at hres
  | due _ | call_soon => exact iff_of_true hr trivial

/-- Waits give the lock back all along a run exactly when no exception reaches a
greenlet that is acquiring it again. -/
theorem restores_iff_undisturbed (as : List Act) (t : St) (h : Trace.run step init as = some t) :
    Trace.Always step Restores init as ↔ Trace.Steps step Undisturbed init as := by
  have hinit : Restores init := (restores_iff init_inv).2 fun e he => by simp [init] at he
  refine Trace.always_iff_steps (fun s a s' hs _ hi _ => step_inv s a s' hs hi)
    (fun s a s' hs hi hr => ?_) init_inv hinit h
  rw [restores_iff hi] at hr
  rw [restores_iff (step_inv s a s' hs hi)]
  exact step_regained_iff s a s' hs hi hr

/-- A wait at depth two that times out while another greenlet has the lock. -/
def contended : List Act :=
  [.acquire 1 true 0, .acquire 1 true 0, .wait 1 5, .acquire 2 true 0, .due 0, .fire 0]

theorem restores_iff_contended : ∃ t, Trace.run step init contended = some t ∧
    (Trace.Always step Restores init contended ↔ Trace.Steps step Undisturbed init contended) := by
  have h : (Trace.run step init contended).any (fun _ => true) = true := by
    decide
  rcases Trace.run_any h with ⟨t, ht, _⟩
  exact ⟨t, ht, restores_iff_undisturbed _ t ht⟩

/-- An exception that reaches it now ends the wait while 2 owns the lock. -/
theorem contended_breaks_restore : ∃ t,
    Trace.run step init (contended ++ [.throw 1 (.other 0)]) = some t ∧ ¬ Restores t := by
  have h : (Trace.run step init (contended ++ [.throw 1 (.other 0)])).any (fun t =>
      decide (⟨1, 2, .NULL (some (.other 0)), ⟨0, 1, some 2⟩⟩ ∈ t.ended)) = true := by
    decide
  rcases Trace.run_any h with ⟨t, ht, hp⟩
  rw [decide_eq_true_eq] at hp
  refine ⟨t, ht, fun hr => ?_⟩
  have howner := (hr.regained _ hp).1
  cases howner

end Jega.Locks.RLock
