import Jega.Locks.Turn
import Jega.Trace.History

/-!
# Jega.Locks.Timeouts — deadlines around `acquire`

A greenlet may set deadlines with `loop.set_timeout` and acquire semaphores
under them, with a timeout of its own or without one. All of them end a blocked
`semaphore_acquire` with a `TimeoutException`. To look at its timer, `fetch_timer`
takes the exception away, and nobody puts it back: a `TimeoutException` of another
deadline is lost.

The history notes how each call of `semaphore_acquire` ended.
-/

namespace Jega.Locks.Timeouts

open Locks Trace

/-! ## The system -/

inductive Act where
  | locks (a : Locks.Act)
  /-- `LoopObject_set_timeout` of a greenlet. -/
  | set_timeout (g : Gid) (seconds : Nat)
  /-- A deadline is cancelled by whoever set it. -/
  | cancel (timer : Hid)

/-- A timer that `set_timeout` gave to its caller; a handle cannot be cancelled. -/
def is_deadline (s : St) (timer : Hid) : Bool :=
  match (s.loop.handles timer).type, (s.loop.handles timer).callback with
  | .Timer, some (.throw _ _) => timer < s.loop.next
  | _, _ => false

def step (s : St) : Act → Option St
  | .locks a => Locks.step s a
  | .set_timeout g seconds =>
    if s.frames g = none then
      some { s with loop := (s.loop.loop_set_timeout seconds (.throw g)).1 }
    else none
  | .cancel timer => if is_deadline s timer then some { s with loop := s.loop.cancel timer } else none

/-! ## The statement -/

/-- A finished call of `semaphore_acquire`. -/
structure Exit where
  res : Outcome
  blocked : Bool
  /-- The exception that was thrown into it. -/
  thrown : Option Exc
  /-- Its own timer threw it. -/
  expired : Bool
  /-- Its timer is cancelled, its greenlet is out of `waiters`, and `counter` is
  what it was unless it returned `True`. -/
  settled : Bool
deriving DecidableEq, Repr

/-- The call that ends in a step: its greenlet and its result. -/
def outcome (s : St) : Act → Option (Gid × Outcome)
  | .locks (.acquire g sem blocking timeout) =>
    (semaphore_acquire s sem g blocking timeout).2.map (Prod.mk g)
  | .locks (.fire waiter) => (fire s waiter).bind Prod.snd
  | .locks (.throw g e) => (resume s g (.throw e)).2.map (Prod.mk g)
  | .locks (.switch g) => (resume s g (.value .loop_switch_value)).2.map (Prod.mk g)
  | _ => none

/-- The semaphore of the call of `g`. -/
def semaphore (s : St) (a : Act) (g : Gid) : Option Sid :=
  match a with
  | .locks (.acquire _ sem _ _) => some sem
  | _ => (s.frames g).map Frame.self

/-- The exception that is thrown into `g` in a step. -/
def thrown (s : St) (a : Act) (g : Gid) : Option Exc :=
  match a with
  | .locks (.fire _) => (expired s).bind fun d => if d.1 = g then some d.2 else none
  | .locks (.throw g' e) => if g' = g then some e else none
  | _ => none

/-- The loop fires the timer of the call that `g` is in. -/
def own_expired (s : St) (a : Act) (g : Gid) : Bool :=
  match a with
  | .locks (.fire _) =>
    (deadline s).isSome && (s.frames g).any fun f => s.loop.pendings.head? == some f.timer
  | _ => false

def settled (s : St) (a : Act) (s' : St) (g : Gid) (res : Outcome) : Bool :=
  ((s.frames g).all fun f => (s'.loop.handles f.timer).cancelled) &&
    (semaphore s a g).all fun sem => decide (g ∉ (s'.sems sem).waiters) &&
      (res == .Py_True || (s'.sems sem).counter == (s.sems sem).counter)

def exits (s : St) (a : Act) (s' : St) : List Exit :=
  (outcome s a).toList.map fun e =>
    ⟨e.2, (s.frames e.1).isSome, thrown s a e.1, own_expired s a e.1, settled s a s' e.1 e.2⟩

def note (s : St) (a : Act) (s' : St) (hist : List Exit) : List Exit := hist ++ exits s a s'

/-- A blocked call raises the exception that was thrown into it, unless its own
timer threw it; it returns `False` only for that. -/
structure Exit.Right (e : Exit) : Prop where
  raises : e.blocked = true → e.expired = false → ∀ exc, e.thrown = some exc → e.res = .NULL (some exc)
  late : e.blocked = true → e.res = .Py_False → e.expired = true
  settled : e.settled = true

def AllRight (t : Watched St (List Exit)) : Prop := ∀ e ∈ t.hist, e.Right

/-- No `TimeoutException` reaches a blocked call but that of its own timer. -/
def Undisturbed (s : St) (a : Act) : Prop :=
  ∀ g timer, (s.frames g).isSome = true → thrown s a g = some (.TimeoutException timer) →
    own_expired s a g = true

/-! ## The invariant -/

structure Base (s : St) : Prop where
  inv : Inv s
  stamped : Stamped s
  free : ∀ h, s.loop.next ≤ h → Harmless (s.loop.handles h).callback

variable {s s' : St} {a : Act} {g : Gid}

theorem init_base (value : Sid → Int) : Base (init value) where
  inv := init_inv value
  stamped := fun _ _ _ hcallback _ => absurd hcallback (by simp [init, LoopObject.init])
  free := fun _ _ _ _ => by simp [init, LoopObject.init]

/-- No deadline was added. -/
theorem Base.plain (hb : Base s) (hi : Inv s') (hp : Plain s.loop s'.loop) : Base s' := by
  refine ⟨hi, fun h g timer hcallback hcancelled => ?_, fun h hle => ?_⟩
  · rcases Nat.lt_or_ge h s.loop.next with hlt | hge
    · rw [hp.callback h hlt] at hcallback
      refine hb.stamped h g timer hcallback ?_
      rw [← Bool.not_eq_true]
      intro hc
      rw [hp.cancelled h hlt hc] at hcancelled
      cases hcancelled
    · exact absurd hcallback (hp.harmless h hge (hb.free h hge) g timer)
  · have hge := hp.next_le.trans hle
    exact hp.harmless h hge (hb.free h hge)

theorem Base.set_timeout (hb : Base s) (hi : Inv s') (seconds : Nat) (g : Gid)
    (hloop : s'.loop = (s.loop.loop_set_timeout seconds (.throw g)).1) : Base s' := by
  refine ⟨hi, hb.stamped.set_timeout seconds g hloop, fun h hle => ?_⟩
  obtain ⟨_, hother, _, _⟩ := loop_set_timeout_extends s.loop seconds g
  rw [hloop, LoopObject.loop_set_timeout_next] at hle
  rw [hloop, hother h (Nat.ne_of_gt hle)]
  exact hb.free h (Nat.le_of_succ_le hle)

theorem set_timeout_inv (hi : Inv s) (seconds : Nat) (g : Gid) :
    Inv { s with loop := (s.loop.loop_set_timeout seconds (.throw g)).1 } := by
  refine hi.congr (fun _ => rfl) rfl ?_ (fun h hlt => ?_) fun sem => ?_
  · simp only
    rw [LoopObject.loop_set_timeout_next]
    exact Nat.le_succ _
  · exact LoopObject.target_loop_set_timeout_lt hlt _ _
  · have hq : (s.loop.loop_set_timeout seconds (.throw g)).1.queued (.call (.notify_waiter sem)) =
        s.loop.queued (.call (.notify_waiter sem)) :=
      LoopObject.queued_loop_set_timeout _ _ (by simp) (by simp)
    exact (hi.due sem).trans (Nat.le_of_eq hq.symm)

theorem cancel_inv (hi : Inv s) {timer : Hid} (htype : (s.loop.handles timer).type = .Timer) :
    Inv { s with loop := s.loop.cancel timer } := by
  have htarget : s.loop.target timer = .nothing := by
    unfold LoopObject.target
    rw [htype]
  refine hi.congr (fun _ => rfl) rfl (Nat.le_refl _) (fun h _ => ?_) fun sem => ?_
  · rcases eq_or_ne h timer with rfl | hne
    · rw [htarget]
      exact LoopObject.target_cancel_self _ _
    · exact LoopObject.target_cancel_of_ne hne
  · have hq : (s.loop.cancel timer).queued (.call (.notify_waiter sem)) =
        s.loop.queued (.call (.notify_waiter sem)) :=
      LoopObject.queued_cancel (by rw [htarget]; simp) (by simp)
    exact (hi.due sem).trans (Nat.le_of_eq hq.symm)

theorem fire_plain {waiter : Gid} {r : St × Option (Gid × Outcome)}
    (h : fire s waiter = some r) : Plain s.loop r.1.loop := by
  obtain ⟨loop, eff, hfire, hcase⟩ := fire_cases h
  have hplain := (fire_pendings_next_plain hfire).1
  rcases hcase with ⟨sem, r', _, _, hnotify, rfl⟩ | ⟨g, timer, _, _, hr1, _⟩ | ⟨_, _, rfl⟩
  · -- Case: `_notify_waiter`
    rcases notify_waiter_cases hnotify with ⟨_, rfl⟩ | ⟨_, _, rfl⟩
    · exact hplain
    · exact hplain.trans (resume_plain (pop { s with loop := loop } sem waiter) waiter
        (.value .empty_tuple))
  · -- Case: a deadline
    rw [hr1]
    exact hplain.trans (resume_plain { s with loop := loop } g (.throw (.TimeoutException timer)))
  · exact hplain

theorem step_base (h : step s a = some s') (hb : Base s) : Base s' := by
  cases a with
  | locks a =>
    have hi : Inv s' := step_inv s a s' h hb.inv
    cases step_cases h with
    | @acquire g sem blocking timeout hfree =>
      by_cases hc : (s.sems sem).counter > 0
      · -- Case: there is a permit
        refine hb.plain hi ?_
        simp only [semaphore_acquire, if_pos hc]
        exact Plain.refl _
      · cases blocking with
        | false =>
          refine hb.plain hi ?_
          simp only [semaphore_acquire, if_neg hc]
          exact Plain.refl _
        | true =>
          -- the call sets a deadline of its own
          refine hb.set_timeout hi timeout g ?_
          rw [semaphore_acquire_block hc]
    | @release g sem hfree => exact hb.plain hi (release_plain s sem g)
    | fire hfire => exact hb.plain hi (fire_plain hfire)
    | due hloop => exact hb.plain hi (fire_timers_next_plain hloop)
    | @throw g e => exact hb.plain hi (resume_plain s g (.throw e))
    | @switch g => exact hb.plain hi (resume_plain s g (.value .loop_switch_value))
    | @call_soon n =>
      exact hb.plain hi (loop_schedule_call_plain s.loop 0 (some (.other n)) none
        (fun _ _ => by simp))
  | set_timeout g seconds =>
    obtain ⟨_, heq⟩ := Option.ite_none_right_eq_some.1 h
    cases heq
    exact hb.set_timeout (set_timeout_inv hb.inv seconds g) seconds g rfl
  | cancel timer =>
    obtain ⟨hdeadline, heq⟩ := Option.ite_none_right_eq_some.1 h
    cases heq
    have htype : (s.loop.handles timer).type = .Timer := by
      unfold is_deadline at hdeadline
      split at hdeadline
      next htype _ => exact htype
      · cases hdeadline
    exact hb.plain (cancel_inv hb.inv htype) (cancel_plain s.loop timer)

/-! ## One step -/

/-- How a blocked call leaves through `fin`. -/
structure Fin (l l' : St) (g : Gid) (f : Frame) (res : Outcome) : Prop where
  cancelled : (l'.loop.handles f.timer).cancelled = true
  out : g ∉ (l'.sems f.self).waiters
  counter : res = .Py_True ∨ (l'.sems f.self).counter = (l.sems f.self).counter

theorem resume_fin {l : St} {f : Frame} {r : Resumption} {res : Outcome}
    (hf : l.frames g = some f) (hres : (resume l g r).2 = some res) :
    Fin l (resume l g r).1 g f res := by
  unfold resume at hres ⊢
  rw [hf] at hres ⊢
  cases r with
  | value v =>
    simp only [acquire_resumed] at hres ⊢
    split at hres
    next hpos =>
      -- it takes the permit
      cases hres
      rw [if_pos hpos]
      exact ⟨by simp [fin, Locks.note, LoopObject.cancel], by simp [fin, Locks.note], Or.inl rfl⟩
    · cases hres
  | throw e =>
    -- it gives up, and takes no permit
    cases hres
    simp only [acquire_resumed]
    exact ⟨by simp [fin, Locks.note, LoopObject.cancel], by simp [fin, Locks.note],
      Or.inr (by simp [fin, Locks.note])⟩

/-- The calls that end in a step. -/
inductive Ended (s : St) (a : Act) (s' : St) : Prop where
  | quiet (hnone : outcome s a = none) (hclean : Undisturbed s a)
  | unblocked {g : Gid} {res : Outcome} (hsome : outcome s a = some (g, res))
    (hfree : s.frames g = none) (hsettled : settled s a s' g res = true) (hclean : Undisturbed s a)
  | took {g : Gid} (hsome : outcome s a = some (g, .Py_True)) (hquiet : thrown s a g = none)
    (hsettled : settled s a s' g .Py_True = true) (hclean : Undisturbed s a)
  | raised {g : Gid} {f : Frame} {e : Exc} (hf : s.frames g = some f)
    (hsome : outcome s a = some (g, acquire_raised f.timer e))
    (hthrown : thrown s a g = some e) (honly : ∀ g' e', thrown s a g' = some e' → g' = g)
    (hown : own_expired s a g = true → e = .TimeoutException (some f.timer))
    (hsettled : settled s a s' g (acquire_raised f.timer e) = true)

/-- Nothing is thrown in the step. -/
theorem undisturbed_quiet (h : ∀ g, thrown s a g = none) : Undisturbed s a := by
  intro g timer _ hthrown
  rw [h g] at hthrown
  cases hthrown

theorem Fin.settled {f : Frame} {res : Outcome} (h : Fin s s' g f res) (hf : s.frames g = some f)
    (hsem : semaphore s a g = some f.self) : settled s a s' g res = true := by
  have hcounter : (res == .Py_True || (s'.sems f.self).counter == (s.sems f.self).counter) = true := by
    rcases h.counter with rfl | heq
    · rfl
    · rw [heq, beq_self_eq_true, Bool.or_true]
  simp [Timeouts.settled, hf, hsem, h.cancelled, h.out, hcounter]

theorem fire_ended (hb : Base s) {waiter : Gid} {r : St × Option (Gid × Outcome)}
    (hfire : fire s waiter = some r) : Ended s (.locks (.fire waiter)) r.1 := by
  have hout : outcome s (.locks (.fire waiter)) = r.2 := by
    simp [outcome, hfire]
  obtain ⟨loop, eff, _, hcase⟩ := fire_cases hfire
  rcases hcase with ⟨sem, r', _, hd, hnotify, rfl⟩ | ⟨g, timer, _, hd, hr1, hr2⟩ | ⟨_, hd, rfl⟩
  · -- Case: `_notify_waiter`
    have hquiet : ∀ g, thrown s (.locks (.fire waiter)) g = none := by
      intro g
      simp [thrown, expired, hd]
    rcases notify_waiter_cases hnotify with ⟨_, rfl⟩ | ⟨_, _, rfl⟩
    · exact .quiet hout (undisturbed_quiet hquiet)
    · rcases resume_value_outcome (pop { s with loop := loop } sem waiter) waiter .empty_tuple with
        hnone | hsome
      · exact .quiet (by rw [hout, hnone]; rfl) (undisturbed_quiet hquiet)
      · cases hf : s.frames waiter with
        | none =>
          simp [resume, pop, hf] at hsome
        | some f =>
          have hfin := resume_fin (l := pop { s with loop := loop } sem waiter) hf hsome
          refine .took (g := waiter) (by rw [hout, hsome]; rfl) (hquiet waiter) ?_
            (undisturbed_quiet hquiet)
          have hpop : Fin s (resume (pop { s with loop := loop } sem waiter) waiter
              (.value .empty_tuple)).1 waiter f .Py_True := ⟨hfin.cancelled, hfin.out, Or.inl rfl⟩
          exact hpop.settled hf (by simp [semaphore, hf])
  · -- Case: a deadline
    have hthrown : ∀ g', thrown s (.locks (.fire waiter)) g' =
        if g = g' then some (.TimeoutException timer) else none := by
      intro g'
      simp [thrown, expired, hd]
    cases hf : s.frames g with
    | none =>
      refine .quiet ?_ fun g' timer' hblocked hraised => ?_
      · rw [hout, hr2]
        simp [resume, hf]
      · rw [hthrown g'] at hraised
        split at hraised
        next heq =>
          rw [← heq, hf] at hblocked
          cases hblocked
        · cases hraised
    | some f =>
      have hres : (resume { s with loop := loop } g (.throw (.TimeoutException timer))).2 =
          some (acquire_raised f.timer (.TimeoutException timer)) :=
        resume_throw_outcome.2 ⟨f, hf, rfl⟩
      have hfin := resume_fin (l := { s with loop := loop }) hf hres
      refine .raised (e := .TimeoutException timer) hf ?_ ?_ (fun g' e' hraised => ?_)
        (fun hown => ?_) ?_
      · rw [hout, hr2, hres]
        rfl
      · rw [hthrown g, if_pos rfl]
      · rw [hthrown g'] at hraised
        split at hraised
        next heq => exact heq.symm
        · cases hraised
      · -- the entry that is fired carries its own address
        obtain ⟨item, hhead, hcallback, hcancelled⟩ := deadline_entry hd
        rw [hb.stamped item g timer hcallback hcancelled]
        simp [own_expired, hd, hf, hhead] at hown
        rw [hown]
      · rw [hr1]
        have hown : Fin s (resume { s with loop := loop } g (.throw (.TimeoutException timer))).1 g f
            (acquire_raised f.timer (.TimeoutException timer)) :=
          ⟨hfin.cancelled, hfin.out, hfin.counter⟩
        exact hown.settled hf (by simp [semaphore, hf])
  · -- Case: any other entry
    refine .quiet hout (undisturbed_quiet fun g => ?_)
    simp [thrown, expired, hd]

theorem throw_ended (g : Gid) (e : Exc) :
    Ended s (.locks (.throw g e)) (resume s g (.throw e)).1 := by
  cases hf : s.frames g with
  | none =>
    -- `g` is in no call
    refine .quiet (by simp [outcome, resume, hf]) fun g' timer hblocked hraised => ?_
    simp only [thrown] at hraised
    split at hraised
    next heq =>
      rw [← heq, hf] at hblocked
      cases hblocked
    · cases hraised
  | some f =>
    have hres : (resume s g (.throw e)).2 = some (acquire_raised f.timer e) :=
      resume_throw_outcome.2 ⟨f, hf, rfl⟩
    refine .raised (e := e) hf ?_ ?_ (fun g' e' hraised => ?_) (fun hown => ?_) ?_
    · simp [outcome, hres]
    · simp [thrown]
    · simp only [thrown] at hraised
      split at hraised
      next heq => exact heq.symm
      · cases hraised
    · cases hown
    · exact (resume_fin hf hres).settled hf (by simp [semaphore, hf])

theorem switch_ended (g : Gid) :
    Ended s (.locks (.switch g)) (resume s g (.value .loop_switch_value)).1 := by
  have hquiet : ∀ g', thrown s (.locks (.switch g)) g' = none := fun _ => rfl
  rcases resume_value_outcome s g .loop_switch_value with hnone | hsome
  · exact .quiet (by simp [outcome, hnone]) (undisturbed_quiet hquiet)
  · cases hf : s.frames g with
    | none => simp [resume, hf] at hsome
    | some f =>
      exact .took (by simp [outcome, hsome]) (hquiet g)
        ((resume_fin hf hsome).settled hf (by simp [semaphore, hf])) (undisturbed_quiet hquiet)

theorem acquire_ended (hb : Base s) {sem : Sid} (blocking : Bool) (timeout : Nat)
    (hfree : s.frames g = none) :
    Ended s (.locks (.acquire g sem blocking timeout)) (semaphore_acquire s sem g blocking timeout).1 := by
  have hquiet : ∀ g', thrown s (.locks (.acquire g sem blocking timeout)) g' = none := fun _ => rfl
  have hout : g ∉ (s.sems sem).waiters := by
    intro hmem
    obtain ⟨timer, hf⟩ := (hb.inv.waiting sem g).1 hmem
    rw [hfree] at hf
    cases hf
  by_cases hc : (s.sems sem).counter > 0
  · have hsome : outcome s (.locks (.acquire g sem blocking timeout)) = some (g, .Py_True) := by
      simp [outcome, semaphore_acquire, hc]
    refine .unblocked hsome hfree ?_ (undisturbed_quiet hquiet)
    simp [settled, hfree, semaphore, semaphore_acquire, hc, Locks.note, take, hout]
  · cases blocking with
    | false =>
      have hsome : outcome s (.locks (.acquire g sem false timeout)) = some (g, .Py_False) := by
        simp only [outcome, semaphore_acquire]
        rw [if_neg hc]
        rfl
      refine .unblocked hsome hfree ?_ (undisturbed_quiet hquiet)
      simp only [semaphore_acquire]
      rw [if_neg hc]
      simp [settled, hfree, semaphore, Locks.note, hout]
    | true =>
      -- it blocks, so no call has ended
      refine .quiet ?_ (undisturbed_quiet hquiet)
      simp only [outcome, semaphore_acquire]
      rw [if_neg hc]
      rfl

theorem step_ended (h : step s a = some s') (hb : Base s) : Ended s a s' := by
  cases a with
  | locks a =>
    cases step_cases h with
    | acquire hfree => exact acquire_ended hb _ _ hfree
    | release hfree => exact .quiet rfl (undisturbed_quiet fun _ => rfl)
    | fire hfire => exact fire_ended hb hfire
    | due hloop => exact .quiet rfl (undisturbed_quiet fun _ => rfl)
    | throw => exact throw_ended _ _
    | switch => exact switch_ended _
    | call_soon => exact .quiet rfl (undisturbed_quiet fun _ => rfl)
  | set_timeout g seconds => exact .quiet rfl (undisturbed_quiet fun _ => rfl)
  | cancel timer => exact .quiet rfl (undisturbed_quiet fun _ => rfl)

/-! ## Runs -/

/-- An exception ends a blocked call as it should, unless it is a foreign
`TimeoutException`. -/
theorem right_raised {f : Frame} {e : Exc} (hf : s.frames g = some f)
    (hthrown : thrown s a g = some e) (honly : ∀ g' e', thrown s a g' = some e' → g' = g)
    (hown : own_expired s a g = true → e = .TimeoutException (some f.timer))
    {settled : Bool} (hsettled : settled = true) :
    Exit.Right ⟨acquire_raised f.timer e, (s.frames g).isSome, thrown s a g, own_expired s a g,
      settled⟩ ↔ Undisturbed s a := by
  have hblocked : (s.frames g).isSome = true := by rw [hf, Option.isSome_some]
  -- the exception reaches nobody else
  have hclean : Undisturbed s a ↔
      ∀ timer, e = .TimeoutException timer → own_expired s a g = true := by
    constructor
    · rintro h timer rfl
      exact h g timer hblocked hthrown
    · intro h g' timer _ hraised
      obtain rfl := honly g' _ hraised
      rw [hthrown, Option.some.injEq] at hraised
      exact h timer hraised
  rw [hclean]
  cases hexpired : own_expired s a g with
  | true =>
    -- its own timer: it returns `False`
    have he := hown hexpired
    subst he
    refine iff_of_true ⟨?_, fun _ _ => rfl, hsettled⟩ fun _ _ => rfl
    intro _ hfalse
    cases hfalse
  | false =>
    cases e with
    | TimeoutException timer =>
      -- it is taken away
      refine iff_of_false (fun hright => ?_) fun hall => ?_
      · have hres := hright.raises hblocked rfl _ hthrown
        cases timer with
        | none => cases hres
        | some timer =>
          simp only [acquire_raised] at hres
          split at hres
          · cases hres
          · cases hres
      · cases hall timer rfl
    | AttributeError | SystemError | other n | no_class n =>
      -- it is left where it is
      refine iff_of_true ⟨fun _ _ exc hexc => ?_, fun _ hres => ?_, hsettled⟩ fun _ he => ?_
      · rw [hthrown, Option.some.injEq] at hexc
        rw [← hexc]
        rfl
      · cases hres
      · cases he

/-- A call that ends is the only one of its step. -/
theorem allRight_ended {t t' : Watched St (List Exit)} (h : watch step note t a = some t')
    (ht : AllRight t) {res : Outcome} (hsome : outcome t.st a = some (g, res)) :
    AllRight t' ↔
      Exit.Right ⟨res, (t.st.frames g).isSome, thrown t.st a g, own_expired t.st a g,
        settled t.st a t'.st g res⟩ := by
  obtain ⟨_, hhist⟩ := watch_eq_some.1 h
  have hexits : t'.hist = t.hist ++ [⟨res, (t.st.frames g).isSome, thrown t.st a g,
      own_expired t.st a g, settled t.st a t'.st g res⟩] := by
    rw [hhist]
    simp [note, exits, hsome]
  constructor
  · intro hall
    refine hall _ ?_
    rw [hexits]
    exact List.mem_append_right _ (List.mem_singleton_self _)
  · intro hright e he
    rw [hexits] at he
    rcases List.mem_append.1 he with he | he
    · exact ht e he
    · rw [List.mem_singleton.1 he]
      exact hright

theorem step_right_iff {t t' : Watched St (List Exit)} (h : watch step note t a = some t')
    (hb : Base t.st) (ht : AllRight t) : AllRight t' ↔ Undisturbed t.st a := by
  obtain ⟨hstep, hhist⟩ := watch_eq_some.1 h
  cases step_ended hstep hb with
  | quiet hnone hclean =>
    refine iff_of_true ?_ hclean
    have hexits : t'.hist = t.hist := by
      rw [hhist]
      simp [note, exits, hnone]
    intro e he
    rw [hexits] at he
    exact ht e he
  | unblocked hsome hfree hsettled hclean =>
    refine iff_of_true ((allRight_ended h ht hsome).2 ?_) hclean
    refine ⟨fun hblocked => ?_, fun hblocked => ?_, hsettled⟩
    · rw [hfree] at hblocked
      cases hblocked
    · rw [hfree] at hblocked
      cases hblocked
  | took hsome hquiet hsettled hclean =>
    refine iff_of_true ((allRight_ended h ht hsome).2 ⟨fun _ _ exc hexc => ?_, fun _ hres => ?_,
      hsettled⟩) hclean
    · rw [hquiet] at hexc
      cases hexc
    · cases hres
  | raised hf hsome hthrown honly hown hsettled =>
    rw [allRight_ended h ht hsome]
    exact right_raised hf hthrown honly hown hsettled

/-! ## Main result -/

/-- Every call of `semaphore_acquire` ends as it should exactly if no blocked one
meets the `TimeoutException` of another deadline. -/
theorem exits_right_iff (value : Sid → Int) {as : List Act} {t : St}
    (hrun : run step (init value) as = some t) :
    Always (watch step note) AllRight ⟨init value, []⟩ as ↔
      Steps step Undisturbed (init value) as := by
  obtain ⟨hist, hwatch⟩ := (@run_watch_iff _ _ _ step note ⟨init value, []⟩ t as).2 hrun
  have hsteps : Steps (watch step note) (fun t a => Undisturbed t.st a) ⟨init value, []⟩ as ↔
      Steps step Undisturbed (init value) as := steps_watch
  have hnone : AllRight ⟨init value, []⟩ := fun e he => absurd he List.not_mem_nil
  have hinv : ∀ t a t', watch step note t a = some t' → Undisturbed t.st a → Base t.st →
      AllRight t → Base t'.st := fun t a t' h _ hb _ => step_base (watch_eq_some.1 h).1 hb
  rw [← hsteps]
  exact always_iff_steps hinv (fun t a t' h hb ht => step_right_iff h hb ht) (init_base value)
    hnone hwatch

/-- A timed acquire under a longer deadline, which is cancelled behind it. -/
theorem exits_right_iff_own :
    Always (watch step note) AllRight ⟨init fun _ => 0, []⟩
        [.set_timeout 1 9, .locks (.acquire 1 0 true 2), .locks (.due 1), .locks (.fire 0),
          .cancel 0] ↔
      Steps step Undisturbed (init fun _ => 0)
        [.set_timeout 1 9, .locks (.acquire 1 0 true 2), .locks (.due 1), .locks (.fire 0),
          .cancel 0] := by
  have h : (run step (init fun _ => 0)
      [.set_timeout 1 9, .locks (.acquire 1 0 true 2), .locks (.due 1), .locks (.fire 0),
        .cancel 0]).any (fun t => decide (t.log 0 = [.acquire 1 .Py_False])) = true := by
    decide
  obtain ⟨t, ht, _⟩ := run_any h
  exact exits_right_iff _ ht

/-- The deadline around an untimed acquire comes: the call raises nothing. -/
theorem foreign_deadline_lost : ∃ t,
    run step (init fun _ => 0) [.set_timeout 1 3, .locks (.acquire 1 0 true 0), .locks (.fire 0),
      .locks (.due 0), .locks (.fire 0)] = some t ∧
    ¬ Always (watch step note) AllRight ⟨init fun _ => 0, []⟩ [.set_timeout 1 3,
      .locks (.acquire 1 0 true 0), .locks (.fire 0), .locks (.due 0), .locks (.fire 0)] := by
  obtain ⟨t, ht, hcheck⟩ := run_any
    (p := fun t : Watched St (List Exit) => decide
      (⟨.NULL none, true, some (.TimeoutException (some 0)), false, true⟩ ∈ t.hist))
    (by decide : (run (watch step note) ⟨init fun _ => 0, []⟩ [.set_timeout 1 3,
      .locks (.acquire 1 0 true 0), .locks (.fire 0), .locks (.due 0), .locks (.fire 0)]).any _ =
        true)
  refine ⟨t.st, run_watch ht, fun hall => ?_⟩
  have hright := hall.last ht _ (of_decide_eq_true hcheck)
  have hres := hright.raises rfl rfl _ rfl
  cases hres

end Jega.Locks.Timeouts
