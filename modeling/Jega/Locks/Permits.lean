import Jega.Locks.Wakeup

/-!
# Jega.Locks.Permits — permits are conserved

What a step does to one semaphore (`Effect`): nothing, the end of a failed
acquire, the end of a successful one, or a release. The counter therefore
follows the log, as long as the releases do not overflow it, and a semaphore of
one permit that only holders release is a lock.
-/

namespace Jega.Locks

/-- Acquires that returned `True`. -/
def Entry.took : Entry → Bool
  | .acquire _ .Py_True => true
  | _ => false

def Entry.released : Entry → Bool
  | .release _ => true
  | _ => false

def Entry.greenlet : Entry → Gid
  | .acquire g _ => g
  | .release g => g

/-- The number of acquires of `sem` that returned `True`. -/
def acquires (s : St) (sem : Sid) : Nat := (s.log sem).countP Entry.took

/-- The number of releases of `sem`. -/
def releases (s : St) (sem : Sid) : Nat := (s.log sem).countP Entry.released

/-- The same for one greenlet. -/
def acquiresBy (s : St) (sem : Sid) (g : Gid) : Nat :=
  (s.log sem).countP fun e => e.took && e.greenlet = g

def releasesBy (s : St) (sem : Sid) (g : Gid) : Nat :=
  (s.log sem).countP fun e => e.released && e.greenlet = g

/-- `g` has acquired `sem` more often than it released it. -/
def Holds (s : St) (sem : Sid) (g : Gid) : Prop := releasesBy s sem g < acquiresBy s sem g

instance (s : St) (sem : Sid) (g : Gid) : Decidable (Holds s sem g) := Nat.decLt _ _

/-- A step that releases `sem` only as one of its holders. -/
def ByHolder (sem : Sid) (s : St) : Act → Prop
  | .release g sem' => sem' = sem → Holds s sem g
  | _ => True

instance (sem : Sid) (s : St) (a : Act) : Decidable (ByHolder sem s a) :=
  match a with
  | .release g sem' => inferInstanceAs (Decidable (sem' = sem → Holds s sem g))
  | .acquire .. | .fire .. | .due .. | .throw .. | .switch .. | .call_soon .. => isTrue trivial

def counters (s : St) : Sid → UInt32 := fun sem => (s.sems sem).counter

def logged (s : St) (sem : Sid) (e : Entry) : Sid → List Entry :=
  Function.update s.log sem (s.log sem ++ [e])

/-- What a step other than a release does: no call ends, one fails, or one takes
a permit. -/
inductive Effect (s s' : St) : Prop where
  | none (hc : counters s' = counters s) (hl : s'.log = s.log)
  | failed (sem : Sid) (g : Gid) (res : Outcome) (hres : res ≠ .Py_True)
      (hc : counters s' = counters s) (hl : s'.log = logged s sem (.acquire g res))
  | took (sem : Sid) (g : Gid) (hpos : counters s sem > 0)
      (hc : counters s' = Function.update (counters s) sem (counters s sem - 1))
      (hl : s'.log = logged s sem (.acquire g .Py_True))

/-- What a release does. -/
structure Released (s s' : St) (sem : Sid) (g : Gid) : Prop where
  counter : counters s' = Function.update (counters s) sem (counters s sem + 1)
  log : s'.log = logged s sem (.release g)

/-! ## The effect of each operation -/

/-- An update that keeps the counter of the semaphore it touches. -/
theorem counters_update (s : St) (sem : Sid) {o : SemaphoreObject}
    (h : o.counter = (s.sems sem).counter) :
    counters { s with sems := Function.update s.sems sem o } = counters s := by
  funext sem'
  by_cases hsem : sem' = sem
  · subst hsem
    simpa [counters] using h
  · simp [counters, Function.update_of_ne hsem]

theorem counters_take (s : St) (sem : Sid) :
    counters (take s sem) = Function.update (counters s) sem (counters s sem - 1) := by
  funext sem'
  by_cases hsem : sem' = sem
  · subst hsem
    simp [counters, take]
  · simp [counters, take, Function.update_of_ne hsem]

theorem counters_fin (s : St) (g : Gid) (f : Frame) (res : Outcome) :
    counters (fin s g f res) = counters s := by
  exact counters_update s f.self rfl

/-- An effect sees only the counters and the log. -/
theorem Effect.of_eq {s₀ s s' : St} (h : Effect s s') (hc : counters s = counters s₀)
    (hl : s.log = s₀.log) : Effect s₀ s' := by
  have hlogged : logged s = logged s₀ := by
    unfold logged
    rw [hl]
  cases h with
  | none hc' hl' => exact .none (hc'.trans hc) (hl'.trans hl)
  | failed sem g res hres hc' hl' =>
    exact .failed sem g res hres (hc'.trans hc) (by rw [hl', hlogged])
  | took sem g hpos hc' hl' =>
    exact .took sem g (by rw [← hc]; exact hpos) (by rw [hc', hc]) (by rw [hl', hlogged])

theorem resume_effect (s : St) (g : Gid) (r : Resumption) : Effect s (resume s g r).1 := by
  unfold resume
  cases hf : s.frames g with
  | none => exact .none rfl rfl
  | some f =>
    cases r with
    | value v =>
      simp only [acquire_resumed]
      split
      next hc =>
        refine .took f.self g hc ?_ rfl
        rw [counters_fin, counters_take]
      · exact .none rfl rfl
    | throw e =>
      exact .failed f.self g _ (acquire_raised_ne_true f.timer e) (counters_fin s g f _) rfl

theorem acquire_effect (s : St) (self : Sid) (g : Gid) (blocking : Bool) (timeout : Nat) :
    Effect s (semaphore_acquire s self g blocking timeout).1 := by
  unfold semaphore_acquire
  split
  next hc => exact .took self g hc (counters_take s self) rfl
  · split
    · exact .failed self g .Py_False (by simp) rfl rfl
    · refine .none ?_ rfl
      exact counters_update s self rfl

theorem fire_effect {s : St} {waiter : Gid} {r : St × Option (Gid × Outcome)}
    (h : fire s waiter = some r) : Effect s r.1 := by
  rcases fire_cases h with
    ⟨loop, eff, _, ⟨self, r', _, _, hnotify, rfl⟩ | ⟨g, timer, _, _, hr, _⟩ | ⟨_, _, rfl⟩⟩
  · -- Case: `_notify_waiter`
    rcases notify_waiter_cases hnotify with ⟨_, rfl⟩ | ⟨_, _, rfl⟩
    · exact .none rfl rfl
    · exact (resume_effect _ waiter _).of_eq (counters_update _ _ rfl) rfl
  · -- Case: a deadline
    rw [hr]
    exact (resume_effect _ g _).of_eq rfl rfl
  · -- Case: any other entry
    exact .none rfl rfl

theorem release_effect (s : St) (self : Sid) (g : Gid) :
    Released s (semaphore_release s self g) self g := by
  rw [semaphore_release_eq]
  refine ⟨?_, rfl⟩
  funext sem
  by_cases hsem : sem = self
  · subst hsem
    simp [counters, note]
  · simp [counters, note, Function.update_of_ne hsem]

/-- What a step does to the counters and the log. -/
theorem step_effect {s s' : St} {a : Act} (h : step s a = some s') :
    (∃ g sem, a = .release g sem ∧ Released s s' sem g) ∨ Effect s s' := by
  cases step_cases h with
  | acquire _ => exact Or.inr (acquire_effect s _ _ _ _)
  | @release g sem _ => exact Or.inl ⟨g, sem, rfl, release_effect s sem g⟩
  | fire hfire => exact Or.inr (fire_effect hfire)
  | throw => exact Or.inr (resume_effect s _ _)
  | switch => exact Or.inr (resume_effect s _ _)
  | due _ | call_soon => exact Or.inr (.none rfl rfl)

/-! ## Conservation -/

/-- The counter of `sem` is its first value plus the releases minus the
successful acquires. -/
def Conserved (value : Sid → Int) (s : St) (sem : Sid) : Prop :=
  ((s.sems sem).counter.toNat : Int) = value sem + releases s sem - acquires s sem

/-- A failed acquire moves no counter. -/
def FailuresChangeNothing (s : St) : Prop :=
  ∀ a s', step s a = some s' → ∀ sem g res, res ≠ .Py_True →
    s'.log sem = s.log sem ++ [.acquire g res] → counters s' = counters s

theorem failures_change_nothing (s : St) : FailuresChangeNothing s := by
  intro a s' h sem g res hres hlog
  have hsame : ∀ sem' e, s'.log = logged s sem' e → e = .acquire g res := by
    intro sem' e hl
    rw [hl] at hlog
    by_cases hsem : sem = sem'
    · subst hsem
      simpa [logged] using hlog
    · simp [logged, Function.update_of_ne hsem] at hlog
  rcases step_effect h with ⟨g', sem', _, hrel⟩ | heff
  · -- Case: a release logs no acquire
    have he := hsame sem' _ hrel.log
    cases he
  · cases heff with
    | none hc hl =>
      rw [hl] at hlog
      simp at hlog
    | failed sem' g' res' hres' hc hl => exact hc
    | took sem' g' hpos hc hl =>
      have he := hsame sem' _ hl
      cases he
      exact absurd rfl hres

/-- Counting the entries of a log that grew by one. -/
theorem countP_logged (s : St) (p : Entry → Bool) (sem sem' : Sid) (e : Entry) :
    (logged s sem e sem').countP p =
      (s.log sem').countP p + if sem' = sem ∧ p e = true then 1 else 0 := by
  by_cases hsem : sem' = sem
  · subst hsem
    by_cases hp : p e = true
    · simp [logged, hp]
    · simp [logged, hp]
  · simp [logged, hsem]

/-- What one more entry adds to the counts. -/
theorem counts_logged {s s' : St} {sem' : Sid} {e : Entry} (hl : s'.log = logged s sem' e)
    (sem : Sid) :
    releases s' sem = releases s sem + (if sem = sem' ∧ e.released = true then 1 else 0) ∧
      acquires s' sem = acquires s sem + if sem = sem' ∧ e.took = true then 1 else 0 := by
  unfold releases acquires
  rw [hl, countP_logged, countP_logged]
  exact ⟨rfl, rfl⟩

/-- The same for one greenlet. -/
theorem countsBy_logged {s s' : St} {sem' : Sid} {e : Entry} (hl : s'.log = logged s sem' e)
    (sem : Sid) (g : Gid) :
    releasesBy s' sem g = releasesBy s sem g +
        (if sem = sem' ∧ (e.released && e.greenlet = g) = true then 1 else 0) ∧
      acquiresBy s' sem g = acquiresBy s sem g +
        if sem = sem' ∧ (e.took && e.greenlet = g) = true then 1 else 0 := by
  unfold releasesBy acquiresBy
  rw [hl, countP_logged, countP_logged]
  exact ⟨rfl, rfl⟩

theorem took_eq_false {g : Gid} {res : Outcome} (hres : res ≠ .Py_True) :
    (Entry.acquire g res).took = false := by
  cases res with
  | Py_True => exact absurd rfl hres
  | Py_False => rfl
  | NULL e => rfl

theorem releases_mono {s s' : St} {a : Act} (h : step s a = some s') (sem : Sid) :
    releases s sem ≤ releases s' sem := by
  have hle : ∀ sem' e, s'.log = logged s sem' e → releases s sem ≤ releases s' sem := by
    intro sem' e hl
    rw [(counts_logged hl sem).1]
    exact Nat.le_add_right _ _
  rcases step_effect h with ⟨g, sem', _, hrel⟩ | heff
  · exact hle sem' _ hrel.log
  · cases heff with
    | none hc hl => exact le_of_eq (by unfold releases; rw [hl])
    | failed sem' g' res' hres' hc hl => exact hle sem' _ hl
    | took sem' g' hpos hc hl => exact hle sem' _ hl

theorem conserved_iff {value : Sid → Int} {s : St} {sem : Sid} : Conserved value s sem ↔
    ((counters s sem).toNat : Int) = value sem + releases s sem - acquires s sem := Iff.rfl

/-- While the releases stay within the bound, the counter follows the log. -/
def Follows (value : Sid → Int) (s : St) : Prop :=
  ∀ sem, 0 ≤ value sem → value sem < 2 ^ 31 → releases s sem < 2 ^ 31 → Conserved value s sem

theorem init_follows (value : Sid → Int) : Follows value (init value) := by
  intro sem h0 hlt _
  have hcounter : (((init value).sems sem).counter.toNat : Int) = value sem := by
    simp only [init, SemaphoreObject.init, UInt32.ofInt, UInt32.toNat_ofNat']
    omega
  have hlog : releases (init value) sem = 0 ∧ acquires (init value) sem = 0 := ⟨rfl, rfl⟩
  unfold Conserved
  omega

theorem step_follows {value : Sid → Int} (s : St) (a : Act) (s' : St) (h : step s a = some s')
    (hf : Follows value s) : Follows value s' := by
  intro sem h0 hlt hrel
  have hold := hf sem h0 hlt (Nat.lt_of_le_of_lt (releases_mono h sem) hrel)
  rw [conserved_iff] at hold ⊢
  rcases step_effect h with ⟨g, sem', _, hr⟩ | heff
  · -- Case: a release
    rcases counts_logged hr.log sem with ⟨hcr, hca⟩
    rw [hr.counter]
    by_cases hsem : sem = sem'
    · -- Case: a release, which cannot overflow
      subst hsem
      simp [Entry.released] at hcr
      simp [Entry.took] at hca
      have hplus : (counters s sem + 1).toNat = (counters s sem).toNat + 1 := by
        rw [UInt32.toNat_add]
        have hone : (1 : UInt32).toNat = 1 := rfl
        omega
      rw [Function.update_self, hplus]
      omega
    · simp only [hsem, false_and, if_false] at hcr hca
      rw [Function.update_of_ne hsem, hcr, hca]
      exact hold
  · -- Case: any other step
    cases heff with
    | none hc hl =>
      rw [hc]
      unfold releases acquires
      rw [hl]
      exact hold
    | failed sem' g res hres hc hl =>
      rcases counts_logged hl sem with ⟨hcr, hca⟩
      simp only [Entry.released, took_eq_false hres, and_false, Bool.false_eq_true, if_false]
        at hcr hca
      rw [hc, hcr, hca]
      exact hold
    | took sem' g hpos hc hl =>
      rcases counts_logged hl sem with ⟨hcr, hca⟩
      rw [hc]
      by_cases hsem : sem = sem'
      · -- Case: a permit is taken, and there was one
        subst hsem
        have hpred := counter_pred hpos
        simp [Entry.released] at hcr
        simp [Entry.took] at hca
        rw [Function.update_self]
        omega
      · simp only [hsem, false_and, if_false] at hcr hca
        rw [Function.update_of_ne hsem, hcr, hca]
        exact hold

/-! ## A lock -/

/-- A semaphore of one permit whose releases are by holders: it is free and
nobody holds it, or taken and held once by one greenlet. -/
def Owned (sem : Sid) (s : St) : Prop :=
  (counters s sem = 1 ∧ ∀ g, acquiresBy s sem g = releasesBy s sem g) ∨
    (counters s sem = 0 ∧ ∃ g, acquiresBy s sem g = releasesBy s sem g + 1 ∧
      ∀ g', g' ≠ g → acquiresBy s sem g' = releasesBy s sem g')

theorem init_owned {value : Sid → Int} {sem : Sid} (hv : value sem = 1) :
    Owned sem (init value) := by
  left
  refine ⟨?_, fun g => rfl⟩
  simp only [counters, init, SemaphoreObject.init, hv]
  decide

theorem Owned.exclusive {s : St} {sem : Sid} (h : Owned sem s) {g g' : Gid}
    (hg : Holds s sem g) (hg' : Holds s sem g') : g = g' := by
  unfold Holds at hg hg'
  rcases h with ⟨_, hfree⟩ | ⟨_, owner, _, hothers⟩
  · have hfree := hfree g
    omega
  · have howner : ∀ x, releasesBy s sem x < acquiresBy s sem x → x = owner := by
      intro x hx
      by_contra hne
      have heq := hothers x hne
      omega
    rw [howner g hg, howner g' hg']

/-- A step that moves nothing on `sem`. -/
theorem Owned.congr {s s' : St} {sem : Sid} (ho : Owned sem s)
    (hc : counters s' sem = counters s sem) (hr : ∀ g, releasesBy s' sem g = releasesBy s sem g)
    (ha : ∀ g, acquiresBy s' sem g = acquiresBy s sem g) : Owned sem s' := by
  unfold Owned
  simp only [hc, hr, ha]
  exact ho

/-- An entry of another semaphore's log. -/
theorem Owned.elsewhere {s s' : St} {sem sem' : Sid} {e : Entry} (ho : Owned sem s)
    (hc : counters s' sem = counters s sem) (hl : s'.log = logged s sem' e) (hsem : sem ≠ sem') :
    Owned sem s' := by
  refine ho.congr hc (fun g => ?_) (fun g => ?_)
  · rw [(countsBy_logged hl sem g).1, if_neg fun h => hsem h.1, Nat.add_zero]
  · rw [(countsBy_logged hl sem g).2, if_neg fun h => hsem h.1, Nat.add_zero]

/-- The only greenlet that can release is the owner, and the lock is free then. -/
theorem Owned.release {s s' : St} {sem : Sid} {g : Gid} (ho : Owned sem s)
    (hr : Released s s' sem g) (hholds : Holds s sem g) : Owned sem s' := by
  unfold Holds at hholds
  rcases ho with ⟨_, hfree⟩ | ⟨hzero, owner, hown, hothers⟩
  · -- Case: the lock is free, and nobody holds it
    have hfree := hfree g
    omega
  · -- Case: the owner gives it up
    have hg : g = owner := by
      by_contra hne
      have heq := hothers g hne
      omega
    subst hg
    left
    refine ⟨?_, fun g' => ?_⟩
    · rw [hr.counter, Function.update_self, hzero]
      decide
    · rcases countsBy_logged hr.log sem g' with ⟨hrel, hacq⟩
      by_cases hg' : g' = g
      · subst hg'
        simp [Entry.released, Entry.took, Entry.greenlet] at hrel hacq
        omega
      · have heq := hothers g' hg'
        simp [Entry.released, Entry.took, Entry.greenlet, Ne.symm hg'] at hrel hacq
        omega

/-- A greenlet can take the permit of a free lock only, and owns it then. -/
theorem Owned.take {s s' : St} {sem : Sid} {g : Gid} (ho : Owned sem s)
    (hpos : counters s sem > 0)
    (hc : counters s' = Function.update (counters s) sem (counters s sem - 1))
    (hl : s'.log = logged s sem (.acquire g .Py_True)) : Owned sem s' := by
  rcases ho with ⟨hone, hfree⟩ | ⟨hzero, _⟩
  · -- Case: the lock is free
    right
    refine ⟨?_, g, ?_, fun g' hg' => ?_⟩
    · rw [hc, Function.update_self, hone]
      decide
    · have hfree := hfree g
      rcases countsBy_logged hl sem g with ⟨hrel, hacq⟩
      simp [Entry.released, Entry.took, Entry.greenlet] at hrel hacq
      omega
    · have hfree := hfree g'
      rcases countsBy_logged hl sem g' with ⟨hrel, hacq⟩
      simp [Entry.released, Entry.took, Entry.greenlet, Ne.symm hg'] at hrel hacq
      omega
  · -- Case: the lock is taken, and there is no permit
    rw [hzero] at hpos
    exact absurd hpos (by decide)

theorem step_owned {sem : Sid} (s : St) (a : Act) (s' : St) (h : step s a = some s')
    (hby : ByHolder sem s a) (ho : Owned sem s) : Owned sem s' := by
  rcases step_effect h with ⟨g, sem', rfl, hr⟩ | heff
  · -- Case: a release
    by_cases hsem : sem = sem'
    · subst hsem
      exact ho.release hr (hby rfl)
    · refine ho.elsewhere ?_ hr.log hsem
      rw [hr.counter, Function.update_of_ne hsem]
  · -- Case: any other step
    cases heff with
    | none hc hl =>
      refine ho.congr (by rw [hc]) (fun g => ?_) (fun g => ?_)
      · unfold releasesBy
        rw [hl]
      · unfold acquiresBy
        rw [hl]
    | failed sem' g res hres hc hl =>
      refine ho.congr (by rw [hc]) (fun g' => ?_) (fun g' => ?_)
      · rw [(countsBy_logged hl sem g').1]
        simp [Entry.released]
      · rw [(countsBy_logged hl sem g').2]
        simp [took_eq_false hres]
    | took sem' g hpos hc hl =>
      by_cases hsem : sem = sem'
      · subst hsem
        exact ho.take hpos hc hl
      · refine ho.elsewhere ?_ hl hsem
        rw [hc, Function.update_of_ne hsem]

/-! ## Runs -/

/-- Permits are conserved, failures change nothing, and one permit that only
holders release is held by at most one greenlet. -/
theorem permits_conserved (value : Sid → Int) (as : List Act) (t : St)
    (h : Trace.run step (init value) as = some t) :
    (∀ sem, 0 ≤ value sem → value sem < 2 ^ 31 → releases t sem < 2 ^ 31 →
        Conserved value t sem) ∧
      FailuresChangeNothing t ∧
      ∀ sem, value sem = 1 → Trace.Steps step (ByHolder sem) (init value) as →
        ∀ g g', Holds t sem g → Holds t sem g' → g = g' := by
  refine ⟨?_, failures_change_nothing t, fun sem hv hby g g' hg hg' => ?_⟩
  · exact Trace.run_invariant step_follows (init_follows value) h
  · have howned : Owned sem t := Trace.run_invariant_steps step_owned (init_owned hv) hby h
    exact howned.exclusive hg hg'

/-- A lock handed from 1 to 2. -/
theorem permits_conserved_handover : ∃ t, Trace.run step (init fun _ => 1)
    [.acquire 1 0 true 0, .acquire 2 0 true 5, .release 1 0, .fire 2] = some t ∧
    Conserved (fun _ => 1) t 0 ∧ ∀ g, Holds t 0 g → g = 2 := by
  have h : (Trace.run step (init fun _ => 1)
      [.acquire 1 0 true 0, .acquire 2 0 true 5, .release 1 0, .fire 2]).any
        (fun t => decide (releases t 0 < 2 ^ 31) && decide (Holds t 0 2)) = true := by
    decide
  have hby : Trace.Steps step (ByHolder 0) (init fun _ => 1)
      [.acquire 1 0 true 0, .acquire 2 0 true 5, .release 1 0, .fire 2] := by
    decide
  rcases Trace.run_any h with ⟨t, ht, hp⟩
  rw [Bool.and_eq_true, decide_eq_true_eq, decide_eq_true_eq] at hp
  rcases permits_conserved _ _ t ht with ⟨hconserved, _, hexclusive⟩
  exact ⟨t, ht, hconserved 0 (by decide) (by decide) hp.1,
    fun g hg => hexclusive 0 rfl hby g 2 hg hp.2⟩

end Jega.Locks
