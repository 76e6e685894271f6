import Jega.Locks.Permits

/-!
# Jega.Locks.Turn — one turn of the loop, seen from the semaphores

A greenlet is resumed by the loop, by an exception or by a switch, and of all
this the semaphores see little (`Turn`): nothing, a permit that is taken, or a
call that fails. The locks that are built on a semaphore need no more.

A deadline is thrown only at the call that set it, and not after that call
(`Deadlines`).
-/

namespace Jega.Locks

variable {l l' : St} {g : Gid}

/-! ## Turns -/

/-- No call ends, the greenlet whose call ends took a permit, or the exception
that was thrown into it ended its call. -/
inductive Turn (l : St) (thrown : Option (Gid × Exc)) : St × Option (Gid × Outcome) → Prop where
  | quiet {l' : St} (hframes : l'.frames = l.frames) (hcounters : counters l' = counters l) :
    Turn l thrown (l', none)
  | took {l' : St} {g : Gid} {f : Frame} (hf : l.frames g = some f) (hpos : counters l f.self > 0)
    (hframes : l'.frames = Function.update l.frames g none)
    (hcounters : counters l' = Function.update (counters l) f.self (counters l f.self - 1)) :
    Turn l thrown (l', some (g, .Py_True))
  | failed {l' : St} {g : Gid} {f : Frame} {e : Exc} (hthrown : thrown = some (g, e))
    (hf : l.frames g = some f) (hframes : l'.frames = Function.update l.frames g none)
    (hcounters : counters l' = counters l) :
    Turn l thrown (l', some (g, acquire_raised f.timer e))

/-- A turn sees the frames and the counters only. -/
theorem Turn.congr {l₀ : St} {thrown : Option (Gid × Exc)} {r : St × Option (Gid × Outcome)}
    (h : Turn l thrown r) (hframes : l.frames = l₀.frames) (hcounters : counters l = counters l₀) :
    Turn l₀ thrown r := by
  cases h with
  | quiet hf hc => exact .quiet (hf.trans hframes) (hc.trans hcounters)
  | took hf hpos hf' hc =>
    rw [hframes] at hf hf'
    rw [hcounters] at hpos hc
    exact .took hf hpos hf' hc
  | failed hthrown hf hf' hc =>
    rw [hframes] at hf hf'
    exact .failed hthrown hf hf' (hc.trans hcounters)

theorem turn_value (l : St) (g : Gid) (v : PyObj) (thrown : Option (Gid × Exc)) :
    Turn l thrown ((resume l g (.value v)).1, (resume l g (.value v)).2.map (Prod.mk g)) := by
  unfold resume
  cases hf : l.frames g with
  | none => exact .quiet rfl rfl
  | some f =>
    simp only [acquire_resumed]
    split
    next hc =>
      refine .took hf hc rfl ?_
      rw [counters_fin, counters_take]
    next => exact .quiet rfl rfl

theorem turn_throw (l : St) (g : Gid) (e : Exc) :
    Turn l (some (g, e)) ((resume l g (.throw e)).1, (resume l g (.throw e)).2.map (Prod.mk g)) := by
  unfold resume
  cases hf : l.frames g with
  | none => exact .quiet rfl rfl
  | some f => exact .failed rfl hf rfl (counters_fin l g f _)

/-- The exception of the deadline at the head of the loop's queue. -/
def expired (l : St) : Option (Gid × Exc) :=
  (deadline l).map fun d => (d.1, .TimeoutException d.2)

theorem turn_fire {waiter : Gid} {r : St × Option (Gid × Outcome)} (h : fire l waiter = some r) :
    Turn l (expired l) r := by
  rcases fire_cases h with
    ⟨loop, eff, _, ⟨sem, r', _, _, hnotify, rfl⟩ | ⟨g, timer, _, hd, hr1, hr2⟩ | ⟨_, _, rfl⟩⟩
  · -- Case: `_notify_waiter`
    rcases notify_waiter_cases hnotify with ⟨_, rfl⟩ | ⟨_, _, rfl⟩
    · exact .quiet rfl rfl
    · exact (turn_value _ waiter _ _).congr rfl (counters_update _ _ rfl)
  · -- Case: a deadline
    have hr : r = ((resume { l with loop := loop } g (.throw (.TimeoutException timer))).1,
        (resume { l with loop := loop } g (.throw (.TimeoutException timer))).2.map (Prod.mk g)) :=
      Prod.ext hr1 hr2
    rw [hr, expired, hd]
    exact (turn_throw { l with loop := loop } g _).congr rfl rfl
  · -- Case: any other entry
    exact .quiet rfl rfl

/-! ## Calls -/

/-- A call takes a permit, gives up, or blocks its caller. -/
theorem semaphore_acquire_cases (l : St) (self : Sid) (g : Gid) (blocking : Bool) (timeout : Nat) :
    (counters l self > 0 ∧ (semaphore_acquire l self g blocking timeout).2 = some .Py_True ∧
        counters (semaphore_acquire l self g blocking timeout).1 =
          Function.update (counters l) self (counters l self - 1) ∧
        (semaphore_acquire l self g blocking timeout).1.frames = l.frames) ∨
      (¬ counters l self > 0 ∧ blocking = false ∧
        (semaphore_acquire l self g blocking timeout).2 = some .Py_False ∧
        counters (semaphore_acquire l self g blocking timeout).1 = counters l ∧
        (semaphore_acquire l self g blocking timeout).1.frames = l.frames) ∨
      (¬ counters l self > 0 ∧ blocking = true ∧
        (semaphore_acquire l self g blocking timeout).2 = none ∧
        counters (semaphore_acquire l self g blocking timeout).1 = counters l ∧
        ∃ timer, (semaphore_acquire l self g blocking timeout).1.frames =
          Function.update l.frames g (some ⟨self, timer⟩)) := by
  unfold semaphore_acquire
  split
  next hpos => exact Or.inl ⟨hpos, rfl, counters_take l self, rfl⟩
  next hzero =>
    right
    cases blocking with
    | false => exact Or.inl ⟨hzero, rfl, rfl, rfl, rfl⟩
    | true => exact Or.inr ⟨hzero, rfl, rfl, counters_update l self rfl, _, rfl⟩

/-! ## Deadlines -/

/-- The callback throws no deadline. -/
def Harmless (callback : Option Callback) : Prop := ∀ g timer, callback ≠ some (.throw g timer)

/-- From `a` to `b`, objects were added or cancelled. -/
structure Extends (a b : LoopObject Callback) : Prop where
  next_le : a.next ≤ b.next
  callback : ∀ h < a.next, (b.handles h).callback = (a.handles h).callback
  cancelled : ∀ h < a.next, (a.handles h).cancelled = true → (b.handles h).cancelled = true

/-- No deadline was added. -/
structure Plain (a b : LoopObject Callback) : Prop extends Extends a b where
  harmless : ∀ h, a.next ≤ h → Harmless (a.handles h).callback → Harmless (b.handles h).callback

theorem Extends.trans {a b c : LoopObject Callback} (h : Extends a b) (h' : Extends b c) :
    Extends a c := by
  refine ⟨h.next_le.trans h'.next_le, fun x hlt => ?_, fun x hlt hc => ?_⟩
  · rw [h'.callback x (hlt.trans_le h.next_le), h.callback x hlt]
  · exact h'.cancelled x (hlt.trans_le h.next_le) (h.cancelled x hlt hc)

theorem Plain.refl (a : LoopObject Callback) : Plain a a :=
  ⟨⟨Nat.le_refl _, fun _ _ => rfl, fun _ _ hc => hc⟩, fun _ _ hh => hh⟩

theorem Plain.trans {a b c : LoopObject Callback} (h : Plain a b) (h' : Plain b c) : Plain a c := by
  refine ⟨h.toExtends.trans h'.toExtends, fun x hle hh => ?_⟩
  rcases Nat.lt_or_ge x b.next with hlt | hge
  · rw [h'.callback x hlt]
    exact h.harmless x hle hh
  · exact h'.harmless x hge (h.harmless x hle hh)

/-- Firing an entry changes neither its callback nor its cancellation. -/
theorem fire_same (dead : Gid → Bool) (handle : HandleObject Callback) :
    ((fire_handle dead handle).1.callback = handle.callback ∧
        (fire_handle dead handle).1.cancelled = handle.cancelled) ∧
      ((fire_timer dead handle).1.callback = handle.callback ∧
        (fire_timer dead handle).1.cancelled = handle.cancelled) := by
  constructor
  · unfold fire_handle
    split
    · exact ⟨rfl, rfl⟩
    · split <;> exact ⟨rfl, rfl⟩
  · unfold fire_timer
    split
    · exact ⟨rfl, rfl⟩
    · split <;> exact ⟨rfl, rfl⟩

/-- An entry that calls its callback is not cancelled. -/
theorem fire_call (dead : Gid → Bool) {handle : HandleObject Callback} {k : Callback}
    (h : (fire_handle dead handle).2 = .call k ∨ (fire_timer dead handle).2 = .call k) :
    handle.callback = some k ∧ handle.cancelled = false := by
  obtain ⟨type, callback, greenlet, called, cancelled⟩ := handle
  cases cancelled <;> cases called <;> cases greenlet <;> cases callback <;>
    simp [fire_handle, fire_timer, HandleObject.invoke] at h ⊢ <;> grind

/-- The loop calls the callback of an entry that is not cancelled, and keeps
both. -/
theorem fire_pendings_next_plain {a b : LoopObject Callback} {dead : Gid → Bool}
    {eff : Fired Callback} (h : a.fire_pendings_next dead = some (b, eff)) :
    Plain a b ∧
      ∀ k, eff = .call k →
        ∃ item, a.pendings.head? = some item ∧ (a.handles item).callback = some k ∧
          (a.handles item).cancelled = false := by
  unfold LoopObject.fire_pendings_next at h
  split at h
  · cases h
  · split at h
    · cases h
    next item rest hpend =>
      rw [Option.some.injEq, Prod.mk.injEq] at h
      obtain ⟨hb, heff⟩ := h
      have hsame := fire_same dead (a.handles item)
      have hitem : ∀ h', (b.handles h').callback = (a.handles h').callback ∧
          (b.handles h').cancelled = (a.handles h').cancelled := by
        intro h'
        rw [← hb]
        rcases eq_or_ne h' item with rfl | hne
        · simp only [Function.update_self]
          cases htype : (a.handles h').type with
          | Handle => exact hsame.1
          | Timer => exact hsame.2
        · simp [Function.update_of_ne hne]
      refine ⟨⟨⟨?_, fun h' _ => (hitem h').1, fun h' _ hc => (hitem h').2.trans hc⟩, ?_⟩, ?_⟩
      · rw [← hb]
      · intro h' _ hh
        rw [(hitem h').1]
        exact hh
      · intro k hk
        refine ⟨item, by rw [hpend, List.head?_cons], fire_call dead ?_⟩
        rw [hk] at heff
        cases htype : (a.handles item).type with
        | Handle =>
          rw [htype] at heff
          exact Or.inl heff
        | Timer =>
          rw [htype] at heff
          exact Or.inr heff

theorem fire_timers_next_plain {a b : LoopObject Callback} {timer : Hid}
    (h : a.fire_timers_next timer = some b) : Plain a b := by
  obtain ⟨_, _, hhandles, hnext, _⟩ := LoopObject.fire_timers_next_eq h
  refine ⟨⟨hnext.ge, fun h' _ => by rw [hhandles], fun h' _ hc => ?_⟩, fun h' _ hh => ?_⟩
  · rw [hhandles]
    exact hc
  · rw [hhandles]
    exact hh

/-- A new entry is at the next address. -/
theorem loop_schedule_call_extends (a : LoopObject Callback) (seconds : Nat) (cb : Option Callback)
    (g : Option Gid) :
    Extends a (a.loop_schedule_call seconds cb g).1 ∧
      (∀ h, h ≠ a.next →
        ((a.loop_schedule_call seconds cb g).1.handles h) = a.handles h) ∧
      ((a.loop_schedule_call seconds cb g).1.handles a.next).callback = cb := by
  have hhandles := LoopObject.loop_schedule_call_handles a seconds cb g
  have hother : ∀ h, h ≠ a.next →
      ((a.loop_schedule_call seconds cb g).1.handles h) = a.handles h := by
    intro h hne
    rw [hhandles]
    simp [LoopObject.make_handle, Function.update_of_ne hne]
  refine ⟨⟨?_, fun h hlt => ?_, fun h hlt hc => ?_⟩, hother, ?_⟩
  · rw [LoopObject.loop_schedule_call_next]
    exact Nat.le_succ _
  · rw [hother h (Nat.ne_of_lt hlt)]
  · rw [hother h (Nat.ne_of_lt hlt)]
    exact hc
  · rw [hhandles]
    simp [LoopObject.make_handle]

theorem loop_schedule_call_plain (a : LoopObject Callback) (seconds : Nat) (cb : Option Callback)
    (g : Option Gid) (hcb : Harmless cb) : Plain a (a.loop_schedule_call seconds cb g).1 := by
  obtain ⟨hext, hother, hself⟩ := loop_schedule_call_extends a seconds cb g
  refine ⟨hext, fun h _ hh => ?_⟩
  rcases eq_or_ne h a.next with rfl | hne
  · rw [hself]
    exact hcb
  · rw [hother h hne]
    exact hh

/-- The deadline `h` can still be thrown into `g`. -/
def Live (loop : LoopObject Callback) (h : Hid) (g : Gid) : Prop :=
  (∃ timer, (loop.handles h).callback = some (.throw g timer)) ∧
    (loop.handles h).cancelled = false

/-- A deadline that can still be thrown is that of the call its greenlet is in. -/
structure Deadlines (l : St) : Prop where
  live : ∀ h g, Live l.loop h g → ∃ self, l.frames g = some ⟨self, h⟩
  timer_lt : ∀ g f, l.frames g = some f → f.timer < l.loop.next
  free : ∀ h, l.loop.next ≤ h → Harmless (l.loop.handles h).callback

/-- The timer of the call `g` is in has been cancelled. -/
def Muted (l : St) (g : Gid) : Prop :=
  ∀ f, l.frames g = some f → (l.loop.handles f.timer).cancelled = true

/-- A deadline that can still be thrown carries its own timer. -/
def Stamped (l : St) : Prop :=
  ∀ h g timer, (l.loop.handles h).callback = some (.throw g timer) →
    (l.loop.handles h).cancelled = false → timer = some h

/-- The deadline at the head of the queue is that of an entry. -/
theorem deadline_entry {timer : Option Tid} (h : deadline l = some (g, timer)) :
    ∃ item, l.loop.pendings.head? = some item ∧
      (l.loop.handles item).callback = some (.throw g timer) ∧
      (l.loop.handles item).cancelled = false := by
  unfold deadline at h
  split at h
  next loop g' timer' hfire =>
    cases h
    exact (fire_pendings_next_plain hfire).2 _ rfl
  · cases h

theorem deadline_live {timer : Option Tid} (h : deadline l = some (g, timer)) :
    ∃ item, Live l.loop item g := by
  obtain ⟨item, _, hcallback, hcancelled⟩ := deadline_entry h
  exact ⟨item, ⟨timer, hcallback⟩, hcancelled⟩

/-- No deadline is thrown into a greenlet whose timer has been cancelled. -/
theorem Muted.not_expired (hd : Deadlines l) (hm : Muted l g) (e : Exc) :
    expired l ≠ some (g, e) := by
  intro h
  rcases Option.map_eq_some_iff.1 h with ⟨d, hdeadline, heq⟩
  cases heq
  obtain ⟨item, hlive⟩ := deadline_live hdeadline
  obtain ⟨self, hf⟩ := hd.live item d.1 hlive
  have hcancelled := hm _ hf
  rw [hlive.2] at hcancelled
  cases hcancelled

theorem init_deadlines (value : Sid → Int) : Deadlines (init value) where
  live := fun _ _ hlive => absurd hlive.2 (by simp [init, LoopObject.init])
  timer_lt := fun _ _ hf => absurd hf (by simp [init])
  free := fun _ _ _ _ => by simp [init, LoopObject.init]

/-- What could be thrown after the change could be thrown before. -/
theorem Extends.live {a b : LoopObject Callback} (he : Extends a b) {h : Hid} (hlt : h < a.next)
    (hlive : Live b h g) : Live a h g := by
  obtain ⟨⟨timer, hcallback⟩, hcancelled⟩ := hlive
  refine ⟨⟨timer, (he.callback h hlt).symm.trans hcallback⟩, ?_⟩
  rw [← Bool.not_eq_true]
  intro hc
  rw [he.cancelled h hlt hc] at hcancelled
  cases hcancelled

theorem Muted.extends (hd : Deadlines l) (hm : Muted l g) (he : Extends l.loop l'.loop)
    (hf : ∀ f, l'.frames g = some f → l.frames g = some f) : Muted l' g :=
  fun f hg => he.cancelled _ (hd.timer_lt g f (hf f hg)) (hm f (hf f hg))

/-- The loop has changed, and no call with it. -/
theorem Deadlines.plain (hd : Deadlines l) (hp : Plain l.loop l'.loop)
    (hf : l'.frames = l.frames) : Deadlines l' := by
  refine ⟨fun h g hlive => ?_, fun g f hg => ?_, fun h hle => ?_⟩
  · rw [hf]
    rcases Nat.lt_or_ge h l.loop.next with hlt | hge
    · exact hd.live h g (hp.toExtends.live hlt hlive)
    · obtain ⟨timer, hcallback⟩ := hlive.1
      exact absurd hcallback (hp.harmless h hge (hd.free h hge) g timer)
  · rw [hf] at hg
    exact (hd.timer_lt g f hg).trans_le hp.next_le
  · have hge := hp.next_le.trans hle
    exact hp.harmless h hge (hd.free h hge)

theorem cancel_plain (a : LoopObject Callback) (timer : Hid) : Plain a (a.cancel timer) := by
  have hcallback : ∀ h, ((a.cancel timer).handles h).callback = (a.handles h).callback := by
    intro h
    rcases eq_or_ne h timer with rfl | hne
    · simp [LoopObject.cancel]
    · simp [LoopObject.cancel, Function.update_of_ne hne]
  refine ⟨⟨Nat.le_refl _, fun h _ => hcallback h, fun h _ hc => ?_⟩, fun h _ hh => ?_⟩
  · rcases eq_or_ne h timer with rfl | hne
    · simp [LoopObject.cancel]
    · simp [LoopObject.cancel, Function.update_of_ne hne, hc]
  · rw [hcallback h]
    exact hh

/-- The call of `g` ends, and its timer is cancelled. -/
theorem fin_deadlines (hd : Deadlines l) {f : Frame} (hf : l.frames g = some f) (res : Outcome) :
    Deadlines (fin l g f res) ∧ Extends l.loop (fin l g f res).loop := by
  have hext : Extends l.loop (l.loop.cancel f.timer) := (cancel_plain l.loop f.timer).toExtends
  refine ⟨⟨fun h g' hlive => ?_, fun g' f' hg' => ?_, fun h hle => ?_⟩, hext⟩
  · have hne : h ≠ f.timer := by
      rintro rfl
      have hc := hlive.2
      simp [fin, note, LoopObject.cancel] at hc
    rcases Nat.lt_or_ge h l.loop.next with hlt | hge
    · obtain ⟨self, hframe⟩ := hd.live h g' (hext.live hlt hlive)
      refine ⟨self, ?_⟩
      have hgg : g' ≠ g := by
        rintro rfl
        rw [hf] at hframe
        cases hframe
        exact hne rfl
      simp only [fin, note, Function.update_of_ne hgg]
      exact hframe
    · obtain ⟨timer, hcallback⟩ := hlive.1
      simp only [fin, note, LoopObject.cancel, Function.update_of_ne hne] at hcallback
      exact absurd hcallback (hd.free h hge g' timer)
  · rcases eq_or_ne g' g with rfl | hgg
    · simp [fin, note] at hg'
    · simp only [fin, note, Function.update_of_ne hgg] at hg'
      exact hd.timer_lt g' f' hg'
  · have hne : h ≠ f.timer := Nat.ne_of_gt ((hd.timer_lt g f hf).trans_le hle)
    simp only [fin, note, LoopObject.cancel, Function.update_of_ne hne]
    exact hd.free h hle

theorem resume_deadlines (hd : Deadlines l) (g : Gid) (r : Resumption) :
    Deadlines (resume l g r).1 ∧ Extends l.loop (resume l g r).1.loop := by
  unfold resume
  cases hf : l.frames g with
  | none => exact ⟨hd, (Plain.refl _).toExtends⟩
  | some f =>
    cases r with
    | value v =>
      simp only [acquire_resumed]
      split
      · have htake : Deadlines (take l f.self) := hd.plain (Plain.refl _) rfl
        exact fin_deadlines htake hf _
      · exact ⟨hd, (Plain.refl _).toExtends⟩
    | throw e => exact fin_deadlines hd hf _

theorem fire_deadlines (hd : Deadlines l) {waiter : Gid} {r : St × Option (Gid × Outcome)}
    (h : fire l waiter = some r) : Deadlines r.1 ∧ Extends l.loop r.1.loop := by
  obtain ⟨loop, eff, hfire, hcase⟩ := fire_cases h
  have hplain := (fire_pendings_next_plain hfire).1
  have hloop : Deadlines { l with loop := loop } := hd.plain hplain rfl
  rcases hcase with ⟨sem, r', _, _, hnotify, rfl⟩ | ⟨g, timer, _, _, hr1, _⟩ | ⟨_, _, rfl⟩
  · -- Case: `_notify_waiter`
    rcases notify_waiter_cases hnotify with ⟨_, rfl⟩ | ⟨_, _, rfl⟩
    · exact ⟨hloop, hplain.toExtends⟩
    · have hpop : Deadlines (pop { l with loop := loop } sem waiter) :=
        hloop.plain (Plain.refl _) rfl
      obtain ⟨hres, hext⟩ := resume_deadlines hpop waiter (.value .empty_tuple)
      exact ⟨hres, hplain.toExtends.trans hext⟩
  · -- Case: a deadline
    rw [hr1]
    obtain ⟨hres, hext⟩ := resume_deadlines hloop g (.throw (.TimeoutException timer))
    exact ⟨hres, hplain.toExtends.trans hext⟩
  · -- Case: any other entry
    exact ⟨hloop, hplain.toExtends⟩

theorem release_plain (l : St) (self : Sid) (g : Gid) :
    Plain l.loop (semaphore_release l self g).loop := by
  rw [semaphore_release_eq]
  simp only [note]
  split
  · exact loop_schedule_call_plain _ _ _ _ (fun _ _ => by simp)
  · exact Plain.refl _

theorem release_deadlines (hd : Deadlines l) (self : Sid) (g : Gid) :
    Deadlines (semaphore_release l self g) := by
  refine hd.plain (release_plain l self g) ?_
  rw [semaphore_release_eq]
  rfl

theorem resume_plain (l : St) (g : Gid) (r : Resumption) : Plain l.loop (resume l g r).1.loop := by
  unfold resume
  cases l.frames g with
  | none => exact Plain.refl _
  | some f =>
    cases r with
    | value v =>
      simp only [acquire_resumed]
      split
      · exact cancel_plain _ _
      · exact Plain.refl _
    | throw e => exact cancel_plain _ _

/-- Setting a deadline for `g`. -/
theorem loop_set_timeout_extends (a : LoopObject Callback) (seconds : Nat) (g : Gid) :
    Extends a (a.loop_set_timeout seconds (.throw g)).1 ∧
      (∀ h, h ≠ a.next →
        ((a.loop_set_timeout seconds (.throw g)).1.handles h) = a.handles h) ∧
      (∃ timer, ((a.loop_set_timeout seconds (.throw g)).1.handles a.next).callback =
        some (.throw g timer)) ∧
      (seconds = 0 →
        ((a.loop_set_timeout seconds (.throw g)).1.handles a.next).cancelled = true) := by
  obtain ⟨hext, hother, hself⟩ := loop_schedule_call_extends a seconds
    (some (.throw g (if seconds > 0 then some a.next else none))) none
  by_cases hs : seconds = 0
  · have hloop : (a.loop_set_timeout seconds (.throw g)).1 = (a.loop_schedule_call seconds
        (some (.throw g (if seconds > 0 then some a.next else none))) none).1.cancel a.next := by
      simp only [LoopObject.loop_set_timeout, if_pos hs]
      rfl
    rw [hloop]
    have hne : ∀ h, h ≠ a.next → (((a.loop_schedule_call seconds (some (.throw g
        (if seconds > 0 then some a.next else none))) none).1.cancel a.next).handles h) =
          a.handles h := by
      intro h hne
      rw [LoopObject.cancel]
      simp only [Function.update_of_ne hne]
      exact hother h hne
    refine ⟨⟨hext.next_le, fun h hlt => ?_, fun h hlt hc => ?_⟩, hne,
      ⟨if seconds > 0 then some a.next else none, ?_⟩, fun _ => ?_⟩
    · rw [hne h (Nat.ne_of_lt hlt)]
    · rw [hne h (Nat.ne_of_lt hlt)]
      exact hc
    · simp only [LoopObject.cancel, Function.update_self]
      exact hself
    · simp only [LoopObject.cancel, Function.update_self]
  · have hloop : (a.loop_set_timeout seconds (.throw g)).1 = (a.loop_schedule_call seconds
        (some (.throw g (if seconds > 0 then some a.next else none))) none).1 := by
      simp only [LoopObject.loop_set_timeout, if_neg hs]
    rw [hloop]
    exact ⟨hext, hother, ⟨if seconds > 0 then some a.next else none, hself⟩,
      fun h0 => absurd h0 hs⟩

/-- A new deadline carries its own timer, or is cancelled from the start. -/
theorem Stamped.set_timeout (hs : Stamped l) (seconds : Nat) (g : Gid)
    (hloop : l'.loop = (l.loop.loop_set_timeout seconds (.throw g)).1) : Stamped l' := by
  intro h g' timer hcallback hcancelled
  rw [hloop] at hcallback hcancelled
  obtain ⟨_, hother, _, hmuted⟩ := loop_set_timeout_extends l.loop seconds g
  rcases eq_or_ne h l.loop.next with rfl | hne
  · rcases Nat.eq_zero_or_pos seconds with h0 | hpos
    · rw [hmuted h0] at hcancelled
      cases hcancelled
    · have hne : ¬ seconds = 0 := Nat.ne_of_gt hpos
      simp only [LoopObject.loop_set_timeout, if_pos hpos, if_neg hne] at hcallback
      rw [(loop_schedule_call_extends l.loop seconds _ none).2.2] at hcallback
      cases hcallback
      rfl
  · rw [hother h hne] at hcallback hcancelled
    exact hs h g' timer hcallback hcancelled

/-- A greenlet that is in no call acquires. -/
theorem acquire_deadlines (hd : Deadlines l) (hfree : l.frames g = none) (self : Sid)
    (blocking : Bool) (timeout : Nat) :
    Deadlines (semaphore_acquire l self g blocking timeout).1 ∧
      Extends l.loop (semaphore_acquire l self g blocking timeout).1.loop ∧
      (timeout = 0 → Muted (semaphore_acquire l self g blocking timeout).1 g) := by
  unfold semaphore_acquire
  split
  · -- Case: a permit
    have hsame : Deadlines (note (take l self) self (.acquire g .Py_True)) :=
      hd.plain (Plain.refl _) rfl
    refine ⟨hsame, (Plain.refl _).toExtends, fun _ f hf => ?_⟩
    have hnone : (note (take l self) self (.acquire g .Py_True)).frames g = none := hfree
    rw [hnone] at hf
    cases hf
  · split
    · -- Case: no permit, and the call does not block
      have hsame : Deadlines (note l self (.acquire g .Py_False)) := hd.plain (Plain.refl _) rfl
      refine ⟨hsame, (Plain.refl _).toExtends, fun _ f hf => ?_⟩
      have hnone : (note l self (.acquire g .Py_False)).frames g = none := hfree
      rw [hnone] at hf
      cases hf
    · -- Case: the call blocks
      obtain ⟨hext, hother, ⟨timer, hself⟩, hmuted⟩ := loop_set_timeout_extends l.loop timeout g
      have hnext := LoopObject.loop_set_timeout_next l.loop timeout (.throw g)
      refine ⟨⟨fun h g' hlive => ?_, fun g' f hf => ?_, fun h hle => ?_⟩, hext, fun h0 f hf => ?_⟩
      · rcases eq_or_ne h l.loop.next with rfl | hne
        · obtain ⟨timer', hcallback⟩ := hlive.1
          rw [hself] at hcallback
          cases hcallback
          exact ⟨self, Function.update_self _ _ _⟩
        · have hold : Live l.loop h g' := by
            obtain ⟨⟨timer', hcallback⟩, hcancelled⟩ := hlive
            simp only at hcallback hcancelled
            rw [hother h hne] at hcallback hcancelled
            exact ⟨⟨timer', hcallback⟩, hcancelled⟩
          obtain ⟨self', hframe⟩ := hd.live h g' hold
          have hgg : g' ≠ g := by
            rintro rfl
            rw [hfree] at hframe
            cases hframe
          exact ⟨self', by simpa only [Function.update_of_ne hgg] using hframe⟩
      · simp only at hf ⊢
        rw [hnext]
        rcases eq_or_ne g' g with rfl | hgg
        · rw [Function.update_self] at hf
          cases hf
          exact Nat.lt_succ_self _
        · rw [Function.update_of_ne hgg] at hf
          exact Nat.lt_succ_of_lt (hd.timer_lt g' f hf)
      · simp only at hle ⊢
        rw [hnext] at hle
        rw [hother h (Nat.ne_of_gt hle)]
        exact hd.free h (Nat.le_of_succ_le hle)
      · simp only [Function.update_self, Option.some.injEq] at hf
        rw [← hf]
        exact hmuted h0

end Jega.Locks
