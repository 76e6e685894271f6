import Jega.Event.Ended
import Jega.Trace.History

/-!
# Jega.Event.Truth — what a wait returns

A wait that blocked returns `True` once it is notified and `False` at its own
deadline. A wait that finds the flag set returns `None`, which is false: the
result says whether the event happened exactly as long as nobody waits on an
event that is set.

The history notes for every wait that ends whether the loop threw its own
deadline into it, and whether the event happened while it was waiting.
-/

namespace Jega.Event

open Locks Trace

/-! ## The statement -/

/-- A finished wait. -/
structure Ending where
  g : Gid
  res : Result
  /-- The loop threw its own deadline into it. -/
  timedOut : Bool
  /-- The flag was set at its call, or `set` was called since. -/
  happened : Bool
deriving DecidableEq, Repr

structure Notes where
  /-- The flag was set when the greenlet called `wait`, or `set` was called since. -/
  told : Gid → Bool
  endings : List Ending

/-- The loop throws the deadline of the wait of `g`. -/
def timed_out (s : St) (a : Act) (g : Gid) : Bool :=
  match a with
  | .fire _ =>
    (s.locks.frames g).any fun f => deadline s.locks == some (g, some f.timer)
  | _ => false

def told (s : St) (a : Act) (before : Gid → Bool) : Gid → Bool :=
  match a with
  | .set _ => fun _ => true
  | .wait g _ => Function.update before g s.flag
  | _ => before

def note (s : St) (a : Act) (s' : St) (n : Notes) : Notes where
  told := told s a n.told
  endings := n.endings ++ (s'.ended.drop s.ended.length).map fun e =>
    ⟨e.1, e.2, timed_out s a e.1, told s a n.told e.1⟩

def start : Watched St Notes := ⟨init, ⟨fun _ => false, []⟩⟩

/-- A wait that returned: `False` if it timed out, otherwise `True`, and the
event happened. -/
def Ending.Agrees (e : Ending) : Prop :=
  match e.res with
  | .outcome (.NULL _) => True
  | res =>
    if e.timedOut then res = .outcome .Py_False
    else res = .outcome .Py_True ∧ e.happened = true

/-- The truth value of every wait tells whether the event happened. -/
def Truthful (t : Watched St Notes) : Prop := ∀ e ∈ t.hist.endings, e.Agrees

/-- Nobody waits while the flag is set, and only the loop throws the deadline of
a wait. -/
def Blocks (s : St) : Act → Prop
  | .wait _ _ => s.flag = false
  | .throw g (.TimeoutException (some timer)) => ∀ f, s.locks.frames g = some f → f.timer ≠ timer
  | _ => True

/-! ## The invariant -/

/-- What holds between two steps. -/
structure Base (s : St) : Prop where
  inv : Inv s
  deadlines : Deadlines s.locks
  stamped : Stamped s.locks

variable {s s' : St} {a : Act} {g : Gid}

theorem Base.shrinks (hb : Base s) (hi : Inv s') (hsh : Shrinks s.locks s'.locks) : Base s' :=
  ⟨hi, hsh.deadlines hb.deadlines, hb.stamped.shrinks hb.deadlines hsh⟩

theorem init_base : Base init := ⟨init_steady.inv, init_steady.deadlines, init_steady.stamped⟩

/-- Taking the free lock and giving it back. -/
theorem lock_round_shrinks (hi : Inv s) (hpc : s.pc g = .free) :
    Shrinks s.locks (semaphore_release (semaphore_acquire s.locks lock g true 0).1 lock g) :=
  (hi.running hpc).shrinks_lock.trans (shrinks_release _ lock g)

theorem clear_eq (hi : Inv s) (hpc : s.pc g = .free) :
    EventObject_clear s g = { s with
      flag := false
      locks := semaphore_release (semaphore_acquire s.locks lock g true 0).1 lock g } := by
  obtain ⟨hres, _⟩ := (hi.running hpc).acquire
  unfold EventObject_clear
  simp only [hres, clear_entered]

theorem wait_set_eq (hi : Inv s) (hpc : s.pc g = .free) (hflag : s.flag = true) (seconds : Nat) :
    event_wait s g seconds =
      wait_ended { s with locks := (semaphore_acquire s.locks lock g true 0).1 } g .Py_None := by
  obtain ⟨hres, _⟩ := (hi.running hpc).acquire
  unfold event_wait
  simp only [hres, wait_entered, hflag, Bool.not_true, Bool.false_eq_true, if_false]

theorem wait_clear_eq (hi : Inv s) (hpc : s.pc g = .free) (hflag : s.flag = false)
    (seconds : Nat) :
    event_wait s g seconds =
      ConditionObject_wait { s with locks := (semaphore_acquire s.locks lock g true 0).1 } g
        seconds := by
  obtain ⟨hres, _⟩ := (hi.running hpc).acquire
  unfold event_wait
  simp only [hres, wait_entered, hflag, Bool.not_false, if_true]

theorem step_base (h : step s a = some s') (hb : Base s) : Base s' := by
  have hi : Inv s' := step_inv s a s' h hb.inv
  cases a with
  | set g =>
    obtain ⟨hpc, heq⟩ := Option.ite_none_right_eq_some.1 h
    cases heq
    exact hb.shrinks hi (event_set_shrinks hb.inv hpc).1
  | clear g =>
    obtain ⟨hpc, heq⟩ := Option.ite_none_right_eq_some.1 h
    cases heq
    refine hb.shrinks hi ?_
    rw [clear_eq hb.inv hpc]
    exact lock_round_shrinks hb.inv hpc
  | wait g seconds =>
    obtain ⟨hpc, heq⟩ := Option.ite_none_right_eq_some.1 h
    cases heq
    cases hflag : s.flag with
    | true =>
      -- it looks at the flag under the lock, and is through
      refine hb.shrinks hi ?_
      rw [wait_set_eq hb.inv hpc hflag]
      exact lock_round_shrinks hb.inv hpc
    | false =>
      -- it blocks, under a deadline of its own
      obtain ⟨_, hrun⟩ := (hb.inv.running hpc).acquire
      have hsh := (hb.inv.running hpc).shrinks_lock
      obtain ⟨hd, hs, _⟩ := condition_wait_stamped hrun (hsh.deadlines hb.deadlines)
        (hb.stamped.shrinks hb.deadlines hsh) seconds
      rw [wait_clear_eq hb.inv hpc hflag] at hi ⊢
      exact ⟨hi, hd, hs⟩
  | fire waiter =>
    obtain ⟨r, hfire, rfl⟩ := Option.map_eq_some_iff.1 h
    exact hb.shrinks hi (settle_shrinks hb.inv (turn_fire hfire) (fire_inv hb.inv.locks hfire)
      (shrinks_fire hb.deadlines hfire))
  | due timer =>
    obtain ⟨loop, hdue, rfl⟩ := Option.map_eq_some_iff.1 h
    exact hb.shrinks hi (shrinks_of_plain (fire_timers_next_plain hdue) rfl)
  | throw g e =>
    cases h
    exact hb.shrinks hi (settle_shrinks hb.inv (turn_throw s.locks g e)
      (resume_inv hb.inv.locks g _) (shrinks_resume hb.deadlines g _))
  | switch g =>
    cases h
    exact hb.shrinks hi (settle_shrinks hb.inv (turn_value s.locks g _ none)
      (resume_inv hb.inv.locks g _) (shrinks_resume hb.deadlines g _))
  | call_soon n =>
    cases h
    exact hb.shrinks hi (shrinks_of_plain (loop_schedule_call_plain s.locks.loop 0
      (some (.other n)) none (fun _ _ => by simp)) rfl)

/-- Only `set` gives a blocked greenlet a permit. -/
theorem step_permits (h : step s a = some s') (hi : Inv s) {waiter : Sid}
    (hblocked : Blocked s'.locks waiter g) (hpos : counters s'.locks waiter > 0) :
    (∃ g', a = .set g') ∨ (Blocked s.locks waiter g ∧ counters s.locks waiter > 0) := by
  -- the lock is taken and given back
  have hround : ∀ {g' : Gid}, s.pc g' = .free →
      s'.locks = semaphore_release (semaphore_acquire s.locks lock g' true 0).1 lock g' →
      Blocked s.locks waiter g ∧ counters s.locks waiter > 0 := by
    intro g' hpc hlocks
    obtain ⟨hframes, hcounters⟩ := (hi.running hpc).lock_round
    obtain ⟨timer, hb⟩ := hblocked
    rw [hlocks, hframes] at hb
    rw [hlocks, hcounters] at hpos
    exact ⟨⟨timer, hb⟩, hpos⟩
  cases a with
  | set g' => exact Or.inl ⟨g', rfl⟩
  | clear g' =>
    obtain ⟨hpc, heq⟩ := Option.ite_none_right_eq_some.1 h
    cases heq
    refine Or.inr (hround hpc ?_)
    rw [clear_eq hi hpc]
  | wait g' seconds =>
    obtain ⟨hpc, heq⟩ := Option.ite_none_right_eq_some.1 h
    cases heq
    cases hflag : s.flag with
    | true =>
      refine Or.inr (hround hpc ?_)
      rw [wait_set_eq hi hpc hflag]
      rfl
    | false =>
      -- the new waiter has no permit, and the lock gives none
      rw [wait_clear_eq hi hpc hflag] at hblocked hpos
      obtain ⟨_, hrun⟩ := (hi.running hpc).acquire
      obtain ⟨hblocked', hpos'⟩ := condition_wait_permits hrun seconds hblocked hpos
      exact Or.inr (lock_permits hi hpc hblocked' hpos')
  | fire waiter =>
    obtain ⟨r, hfire, rfl⟩ := Option.map_eq_some_iff.1 h
    exact Or.inr (settle_permits hi (turn_fire hfire) (fire_inv hi.locks hfire) hblocked hpos)
  | due timer =>
    obtain ⟨loop, hdue, rfl⟩ := Option.map_eq_some_iff.1 h
    exact Or.inr ⟨hblocked, hpos⟩
  | throw g' e =>
    cases h
    exact Or.inr (settle_permits hi (turn_throw s.locks g' e) (resume_inv hi.locks g' _)
      hblocked hpos)
  | switch g' =>
    cases h
    exact Or.inr (settle_permits hi (turn_value s.locks g' _ none) (resume_inv hi.locks g' _)
      hblocked hpos)
  | call_soon n =>
    cases h
    exact Or.inr ⟨hblocked, hpos⟩

/-! ## One step -/

/-- The waits that end in a step. -/
inductive Ended (s : St) (a : Act) (s' : St) : Prop where
  | quiet (hended : s'.ended = s.ended) (hblocks : Blocks s a)
  /-- The flag was set. -/
  | none {g : Gid} {seconds : Nat} (ha : a = .wait g seconds) (hflag : s.flag = true)
    (hended : s'.ended = s.ended ++ [(g, .Py_None)])
  | took {g : Gid} {waiter : Sid} (hblocked : Blocked s.locks waiter g)
    (hpos : counters s.locks waiter > 0) (hlate : timed_out s a g = false) (hblocks : Blocks s a)
    (htold : ∀ before, told s a before = before)
    (hended : s'.ended = s.ended ++ [(g, .outcome .Py_True)])
  | expired {g : Gid} (hlate : timed_out s a g = true) (hblocks : Blocks s a)
    (hended : s'.ended = s.ended ++ [(g, .outcome .Py_False)])
  | thrown {g : Gid} {f : Frame} {e : Exc} (hf : s.locks.frames g = some f) (ha : a = .throw g e)
    (hended : s'.ended = s.ended ++ [(g, .outcome (acquire_raised f.timer e))])

/-- A call that ends with `True` in a turn took a permit. -/
theorem turn_took {thrown : Option (Gid × Exc)} {l l' : Locks.St} {res : Outcome}
    (ht : Turn l thrown (l', some (g, res))) (hres : res = .Py_True) :
    ∃ waiter, Blocked l waiter g ∧ counters l waiter > 0 := by
  cases ht with
  | @took _ _ f hf hpos _ _ => exact ⟨f.self, ⟨f.timer, hf⟩, hpos⟩
  | @failed _ _ f e _ _ _ _ => exact absurd hres (acquire_raised_ne_true f.timer e)

theorem settle_ended (hi : Inv s) {thrown : Option (Gid × Exc)} {l : Locks.St} {res : Outcome}
    (ht : Turn s.locks thrown (l, some (g, res))) (hinv : Locks.Inv l) :
    (settle s (l, some (g, res))).ended = s.ended ++ [(g, .outcome res)] := by
  rw [settle_eq hi ht hinv]
  rfl

/-- An entry that is no deadline ends a wait with `True`. -/
theorem fire_ended (hb : Base s) {waiter : Gid} {r : Locks.St × Option (Gid × Outcome)}
    (hfire : fire s.locks waiter = some r) : Ended s (.fire waiter) (settle s r) := by
  have ht := turn_fire hfire
  have hinv : Locks.Inv r.1 := fire_inv hb.inv.locks hfire
  obtain ⟨l, o⟩ := r
  cases hdeadline : deadline s.locks with
  | none =>
    have hlate : ∀ g, timed_out s (.fire waiter) g = false := by
      intro g
      simp [timed_out, hdeadline]
    rcases fire_no_deadline hfire hdeadline with hnone | hsome
    · -- Case: no wait ended
      simp only at hnone
      subst hnone
      exact .quiet rfl trivial
    · -- Case: a greenlet took its permit
      simp only at hsome
      subst hsome
      obtain ⟨sem, hblocked, hpos⟩ := turn_took ht rfl
      exact .took hblocked hpos (hlate waiter) trivial (fun _ => rfl)
        (settle_ended hb.inv ht hinv)
  | some d =>
    obtain ⟨g, timer⟩ := d
    have hres := fire_deadline hfire hdeadline
    cases hf : s.locks.frames g with
    | none =>
      have hnone : o = none := by
        simpa [resume, hf] using hres
      subst hnone
      exact .quiet rfl trivial
    | some f =>
      have hsome : o = some (g, acquire_raised f.timer (.TimeoutException timer)) := by
        simpa [resume, hf, acquire_resumed] using hres
      -- a deadline that is not cancelled carries the timer of the wait
      have htimer : timer = some f.timer := by
        obtain ⟨item, _, hcallback, hcancelled⟩ := deadline_entry hdeadline
        obtain ⟨self, hframe⟩ := hb.deadlines.live item g ⟨⟨timer, hcallback⟩, hcancelled⟩
        rw [hf] at hframe
        cases hframe
        exact hb.stamped item g timer hcallback hcancelled
      subst htimer
      have hfalse : acquire_raised f.timer (.TimeoutException (some f.timer)) = .Py_False :=
        if_pos rfl
      rw [hfalse] at hsome
      subst hsome
      refine .expired ?_ trivial (settle_ended hb.inv ht hinv)
      simp [timed_out, hf, hdeadline]

theorem throw_ended (hb : Base s) (g : Gid) (e : Exc) :
    Ended s (.throw g e) (settle s ((resume s.locks g (.throw e)).1,
      (resume s.locks g (.throw e)).2.map (Prod.mk g))) := by
  have ht := turn_throw s.locks g e
  have hinv : Locks.Inv (resume s.locks g (.throw e)).1 := resume_inv hb.inv.locks g _
  cases hf : s.locks.frames g with
  | none =>
    have hnone : (resume s.locks g (.throw e)).2 = none := by simp [resume, hf]
    rw [hnone]
    refine .quiet rfl ?_
    -- it is in no wait, so it has no deadline
    unfold Blocks
    split
    · trivial
    next heq =>
      cases heq
      intro f hf'
      rw [hf] at hf'
      cases hf'
    · trivial
  | some f =>
    have hres : (resume s.locks g (.throw e)).2 = some (acquire_raised f.timer e) :=
      resume_throw_outcome.2 ⟨f, hf, rfl⟩
    rw [hres] at ht ⊢
    exact .thrown hf rfl (settle_ended hb.inv ht hinv)

theorem switch_ended (hb : Base s) (g : Gid) (v : PyObj) :
    Ended s (.switch g) (settle s ((resume s.locks g (.value v)).1,
      (resume s.locks g (.value v)).2.map (Prod.mk g))) := by
  have ht := turn_value s.locks g v none
  have hinv : Locks.Inv (resume s.locks g (.value v)).1 := resume_inv hb.inv.locks g _
  rcases resume_value_outcome s.locks g v with hnone | hsome
  · rw [hnone]
    exact .quiet rfl trivial
  · rw [hsome] at ht ⊢
    obtain ⟨sem, hblocked, hpos⟩ := turn_took ht rfl
    exact .took hblocked hpos rfl trivial (fun _ => rfl) (settle_ended hb.inv ht hinv)

theorem step_ended (h : step s a = some s') (hb : Base s) : Ended s a s' := by
  cases a with
  | set g =>
    obtain ⟨hpc, heq⟩ := Option.ite_none_right_eq_some.1 h
    cases heq
    exact .quiet (event_set_shrinks hb.inv hpc).2.2 trivial
  | clear g =>
    obtain ⟨hpc, heq⟩ := Option.ite_none_right_eq_some.1 h
    cases heq
    refine .quiet ?_ trivial
    rw [clear_eq hb.inv hpc]
  | wait g seconds =>
    obtain ⟨hpc, heq⟩ := Option.ite_none_right_eq_some.1 h
    cases heq
    cases hflag : s.flag with
    | true =>
      refine .none rfl hflag ?_
      rw [wait_set_eq hb.inv hpc hflag]
      rfl
    | false =>
      refine .quiet ?_ hflag
      obtain ⟨_, hrun⟩ := (hb.inv.running hpc).acquire
      rw [wait_clear_eq hb.inv hpc hflag, condition_wait_eq hrun]
  | fire waiter =>
    obtain ⟨r, hfire, rfl⟩ := Option.map_eq_some_iff.1 h
    exact fire_ended hb hfire
  | due timer =>
    obtain ⟨loop, hdue, rfl⟩ := Option.map_eq_some_iff.1 h
    exact .quiet rfl trivial
  | throw g e =>
    cases h
    exact throw_ended hb g e
  | switch g =>
    cases h
    exact switch_ended hb g _
  | call_soon n =>
    cases h
    exact .quiet rfl trivial

/-! ## Runs -/

/-- A blocked greenlet has a permit only if the event happened. -/
def Told (t : Watched St Notes) : Prop :=
  ∀ waiter g, Blocked t.st.locks waiter g → counters t.st.locks waiter > 0 → t.hist.told g = true

theorem step_told {t t' : Watched St Notes} (h : watch step note t a = some t') (hb : Base t.st)
    (ht : Told t) : Told t' := by
  obtain ⟨hstep, hhist⟩ := watch_eq_some.1 h
  intro waiter g hblocked hpos
  rw [hhist]
  rcases step_permits hstep hb.inv hblocked hpos with ⟨g', rfl⟩ | ⟨hblocked', hpos'⟩
  · rfl
  · have hknown := ht waiter g hblocked' hpos'
    cases a with
    | wait g' seconds =>
      -- a greenlet that is blocked calls nothing
      obtain ⟨hpc, _⟩ := Option.ite_none_right_eq_some.1 hstep
      have hne : g ≠ g' := by
        rintro rfl
        obtain ⟨timer, hf⟩ := hblocked'
        rw [(hb.inv.running hpc).idle] at hf
        cases hf
      simp only [note, told]
      rw [Function.update_of_ne hne]
      exact hknown
    | set g' => rfl
    | _ => exact hknown

/-- A wait ends. -/
theorem truthful_ended {t t' : Watched St Notes} (h : watch step note t a = some t')
    (ht : Truthful t) {res : Result} (hended : t'.st.ended = t.st.ended ++ [(g, res)]) :
    Truthful t' ↔
      Ending.Agrees ⟨g, res, timed_out t.st a g, told t.st a t.hist.told g⟩ := by
  obtain ⟨_, hhist⟩ := watch_eq_some.1 h
  have hendings : t'.hist.endings = t.hist.endings ++
      [⟨g, res, timed_out t.st a g, told t.st a t.hist.told g⟩] := by
    rw [hhist]
    simp [note, hended]
  constructor
  · intro hall
    refine hall _ ?_
    rw [hendings]
    exact List.mem_append_right _ (List.mem_singleton_self _)
  · intro hnew e he
    rw [hendings] at he
    rcases List.mem_append.1 he with he | he
    · exact ht e he
    · rw [List.mem_singleton.1 he]
      exact hnew

theorem truthful_quiet {t t' : Watched St Notes} (h : watch step note t a = some t')
    (ht : Truthful t) (hended : t'.st.ended = t.st.ended) : Truthful t' := by
  obtain ⟨_, hhist⟩ := watch_eq_some.1 h
  have hendings : t'.hist.endings = t.hist.endings := by
    rw [hhist]
    simp [note, hended]
  intro e he
  rw [hendings] at he
  exact ht e he

/-- An exception is no result, unless it is the wait's own deadline. -/
theorem agrees_thrown {f : Frame} {e : Exc} {happened : Bool} (hf : s.locks.frames g = some f) :
    Ending.Agrees ⟨g, .outcome (acquire_raised f.timer e), false, happened⟩ ↔
      Blocks s (.throw g e) := by
  cases e with
  | TimeoutException timer =>
    cases timer with
    | none => exact iff_of_true trivial trivial
    | some timer =>
      simp only [Blocks, acquire_raised]
      rcases eq_or_ne timer f.timer with heq | hne
      · -- Case: its own deadline, though the time is not up
        rw [if_pos heq]
        refine iff_of_false ?_ fun hall => hall f hf heq.symm
        simp [Ending.Agrees]
      · -- Case: another deadline
        rw [if_neg hne]
        refine iff_of_true trivial fun f' hf' => ?_
        rw [hf] at hf'
        cases hf'
        exact hne.symm
  | AttributeError | SystemError => exact iff_of_true trivial trivial
  | other n | no_class n => exact iff_of_true trivial trivial

theorem step_truthful_iff {t t' : Watched St Notes} (h : watch step note t a = some t')
    (hb : Base t.st ∧ Told t) (ht : Truthful t) : Truthful t' ↔ Blocks t.st a := by
  obtain ⟨hstep, _⟩ := watch_eq_some.1 h
  cases step_ended hstep hb.1 with
  | quiet hended hblocks => exact iff_of_true (truthful_quiet h ht hended) hblocks
  | none ha hflag hended =>
    -- the event happened, and `None` is false
    subst ha
    rw [truthful_ended h ht hended]
    refine iff_of_false ?_ ?_
    · simp [Ending.Agrees, timed_out]
    · simp [Blocks, hflag]
  | took hblocked hpos hlate hblocks htold hended =>
    refine iff_of_true ((truthful_ended h ht hended).2 ?_) hblocks
    have hknown := hb.2 _ _ hblocked hpos
    simp [Ending.Agrees, hlate, htold, hknown]
  | expired hlate hblocks hended =>
    refine iff_of_true ((truthful_ended h ht hended).2 ?_) hblocks
    simp [Ending.Agrees, hlate]
  | thrown hf ha hended =>
    subst ha
    rw [truthful_ended h ht hended]
    exact agrees_thrown hf

/-! ## Main result -/

/-- The truth value of every wait tells whether the event happened, exactly if
nobody waits while the flag is set, and nobody is thrown the deadline of its own
wait by other code. -/
theorem truthful_iff {as : List Act} {t : St} (hrun : run step init as = some t) :
    Always (watch step note) Truthful start as ↔ Steps step Blocks init as := by
  obtain ⟨hist, hwatch⟩ := (@run_watch_iff _ _ _ step note start t as).2 hrun
  have hinit : Base start.st ∧ Told start := by
    refine ⟨init_base, ?_⟩
    rintro waiter g ⟨timer, hf⟩ _
    cases hf
  have hnone : Truthful start := fun e he => absurd he (List.not_mem_nil)
  have hsteps : Steps (watch step note) (fun t a => Blocks t.st a) start as ↔
      Steps step Blocks init as := steps_watch
  rw [← hsteps]
  have hinv : ∀ t a t', watch step note t a = some t' → Blocks t.st a →
      (Base t.st ∧ Told t) → Truthful t → (Base t'.st ∧ Told t') := by
    intro t a t' h _ hb _
    exact ⟨step_base (watch_eq_some.1 h).1 hb.1, step_told h hb.1 hb.2⟩
  exact always_iff_steps hinv (fun t a t' h hb ht => step_truthful_iff h hb ht) hinit hnone hwatch

/-- One wait times out, and one is notified. -/
theorem truthful_iff_blocked :
    Always (watch step note) Truthful start [.wait 1 5, .wait 2 0, .due 0, .fire 0, .fire 0, .set 3, .fire 2] ↔
      Steps step Blocks init [.wait 1 5, .wait 2 0, .due 0, .fire 0, .fire 0, .set 3, .fire 2] := by
  have h : (run step init [.wait 1 5, .wait 2 0, .due 0, .fire 0, .fire 0, .set 3, .fire 2]).any
      (fun t => decide (t.ended.length = 2)) = true := by
    decide
  obtain ⟨t, ht, _⟩ := run_any h
  exact truthful_iff ht

/-- The flag is set before the wait, which returns `None`. -/
theorem wait_after_set : ∃ t, run step init [.set 1, .wait 2 0] = some t ∧
    ¬ Always (watch step note) Truthful start [.set 1, .wait 2 0] := by
  obtain ⟨t, ht, hcheck⟩ := run_any
    (p := fun t : Watched St Notes => decide (⟨2, .Py_None, false, true⟩ ∈ t.hist.endings))
    (by decide : (run (watch step note) start [.set 1, .wait 2 0]).any _ = true)
  refine ⟨t.st, run_watch ht, fun hall => ?_⟩
  have hagrees := hall.last ht _ (of_decide_eq_true hcheck)
  simp [Ending.Agrees] at hagrees

end Jega.Event
