import Jega.Event.Ended
import Jega.Trace.Refinement

/-!
# Jega.Event.History — what only history tells apart

Events that differ in the logs of their semaphores only (`Same`) stay so in every
step. `set` on an event that is set changes nothing but the log.
-/

namespace Jega.Locks

variable {l l' l'' : St}

/-- Everything but the logs is the same. -/
structure SameButLog (l l' : St) : Prop where
  sems : l'.sems = l.sems
  loop : l'.loop = l.loop
  frames : l'.frames = l.frames

theorem SameButLog.refl (l : St) : SameButLog l l := ⟨rfl, rfl, rfl⟩

theorem SameButLog.symm (h : SameButLog l l') : SameButLog l' l :=
  ⟨h.sems.symm, h.loop.symm, h.frames.symm⟩

theorem SameButLog.trans (h : SameButLog l l') (h' : SameButLog l' l'') : SameButLog l l'' :=
  ⟨h'.sems.trans h.sems, h'.loop.trans h.loop, h'.frames.trans h.frames⟩

theorem SameButLog.release (h : SameButLog l l') (self : Sid) (g : Gid) :
    SameButLog (semaphore_release l self g) (semaphore_release l' self g) := by
  rw [semaphore_release_eq, semaphore_release_eq]
  constructor
  · simp only [note, h.sems]
  · simp only [note, h.sems, h.loop]
  · exact h.frames

theorem SameButLog.acquire (h : SameButLog l l') (self : Sid) (g : Gid) (blocking : Bool)
    (timeout : Nat) :
    SameButLog (semaphore_acquire l self g blocking timeout).1
        (semaphore_acquire l' self g blocking timeout).1 ∧
      (semaphore_acquire l' self g blocking timeout).2 =
        (semaphore_acquire l self g blocking timeout).2 := by
  unfold semaphore_acquire
  rw [h.sems]
  split
  · -- Case: there is a permit
    refine ⟨⟨?_, h.loop, h.frames⟩, rfl⟩
    simp only [note, take, h.sems]
  · split
    · -- Case: it does not block
      exact ⟨⟨h.sems, h.loop, h.frames⟩, rfl⟩
    · -- Case: it blocks
      refine ⟨⟨?_, ?_, ?_⟩, rfl⟩
      · rfl
      · simp only [h.loop]
      · simp only [h.loop, h.frames]

theorem SameButLog.new_waiter (h : SameButLog l l') (waiter : Sid) (g : Gid) :
    SameButLog (Condition.new_waiter l waiter g) (Condition.new_waiter l' waiter g) := by
  have hnew : SameButLog
      { l with sems := Function.update l.sems waiter (SemaphoreObject.init 1) }
      { l' with sems := Function.update l'.sems waiter (SemaphoreObject.init 1) } := by
    refine ⟨?_, h.loop, h.frames⟩
    simp only [h.sems]
  exact (hnew.acquire waiter g true 0).1

theorem SameButLog.release_all (h : SameButLog l l') (g : Gid) (items : List Sid) :
    SameButLog (Condition.release_all g l items) (Condition.release_all g l' items) := by
  induction items generalizing l l' with
  | nil => exact h
  | cons item items ih => exact ih (h.release item g)

/-- The same of what two calls return. -/
def SameResult {β : Type} (r r' : St × β) : Prop := SameButLog r.1 r'.1 ∧ r'.2 = r.2

theorem SameButLog.with_loop (h : SameButLog l l') (loop : LoopObject Callback) :
    SameButLog { l with loop := loop } { l' with loop := loop } := ⟨h.sems, rfl, h.frames⟩

theorem SameButLog.notify_items (h : SameButLog l l') (g : Gid) (waiters items : List Sid) :
    SameResult (Condition.notify_items g l waiters items)
      (Condition.notify_items g l' waiters items) := by
  induction items generalizing l l' waiters with
  | nil => exact ⟨h, rfl⟩
  | cons item items ih => exact ih (h.release item g) (waiters.erase item)

theorem SameButLog.take (h : SameButLog l l') (self : Sid) :
    SameButLog (take l self) (take l' self) := by
  refine ⟨?_, h.loop, h.frames⟩
  simp only [Locks.take, h.sems]

theorem SameButLog.fin (h : SameButLog l l') (g : Gid) (f : Frame) (res : Outcome) :
    SameButLog (fin l g f res) (fin l' g f res) := by
  constructor
  · simp only [Locks.fin, note, h.sems]
  · simp only [Locks.fin, note, h.loop]
  · simp only [Locks.fin, note, h.frames]

theorem SameButLog.resume (h : SameButLog l l') (g : Gid) (r : Resumption) :
    SameResult (resume l g r) (resume l' g r) := by
  unfold Locks.resume
  rw [h.frames]
  cases l.frames g with
  | none => exact ⟨h, rfl⟩
  | some f =>
    cases r with
    | throw e => exact ⟨h.fin g f _, rfl⟩
    | value v =>
      simp only [acquire_resumed, h.sems]
      split
      · exact ⟨(h.take f.self).fin g f _, rfl⟩
      · exact ⟨h, rfl⟩

theorem SameButLog.pop (h : SameButLog l l') (self : Sid) (waiter : Gid) :
    SameButLog (pop l self waiter) (pop l' self waiter) := by
  refine ⟨?_, h.loop, h.frames⟩
  simp only [Locks.pop, h.sems]

theorem SameButLog.notify_waiter (h : SameButLog l l') (self : Sid) (waiter : Gid) :
    Option.Rel SameResult (SemaphoreObject_notify_waiter l self waiter)
      (SemaphoreObject_notify_waiter l' self waiter) := by
  unfold SemaphoreObject_notify_waiter
  rw [h.sems]
  split
  · split
    · exact .some ((h.pop self waiter).resume waiter _)
    · exact .none
  · exact .some ⟨h, rfl⟩

theorem SameButLog.fire (h : SameButLog l l') (waiter : Gid) :
    Option.Rel SameResult (fire l waiter) (fire l' waiter) := by
  unfold Locks.fire
  rw [h.loop]
  split
  · exact .none
  next loop sem _ =>
    refine Trace.rel_map (fun r r' hr => ?_) ((h.with_loop loop).notify_waiter sem waiter)
    exact ⟨hr.1, congrArg (Option.map (Prod.mk waiter)) hr.2⟩
  next loop g timer _ =>
    have hr := (h.with_loop loop).resume g (.throw (.TimeoutException timer))
    exact .some ⟨hr.1, congrArg (Option.map (Prod.mk g)) hr.2⟩
  next loop _ _ _ _ => exact .some ⟨h.with_loop loop, rfl⟩

theorem Shrinks.same (h : Shrinks l l') (hs : SameButLog l' l'') : Shrinks l l'' := by
  refine h.trans (shrinks_of_plain ?_ hs.frames)
  rw [hs.loop]
  exact Plain.refl _

end Jega.Locks

namespace Jega.Event

open Locks

variable {s s' : St} {g : Gid}

/-- The events differ in their history only. -/
structure Like (s s' : St) : Prop where
  locks : SameButLog s.locks s'.locks
  next : s'.next = s.next
  flag : s'.flag = s.flag
  waiters : s'.waiters = s.waiters
  pc : s'.pc = s.pc

theorem Steady.like (hs : Steady s) (h : Like s s') : Steady s' := by
  obtain ⟨⟨hsems, hloop, hframes⟩, hnext, hflag, hwaiters, hpc⟩ := h
  obtain ⟨⟨sems, loop, frames, log⟩, next, flag, waiters, pc, ended⟩ := s
  obtain ⟨⟨sems', loop', frames', log'⟩, next', flag', waiters', pc', ended'⟩ := s'
  subst hsems hloop hframes hnext hflag hwaiters hpc
  obtain ⟨⟨⟨hlocks, hpermits, hallocated, hinside, hsingle, hnodup, hlisted, hnotified⟩, hplaced,
    hserved⟩, hdeadlines, hstamped, hnoticed⟩ := hs
  refine ⟨⟨⟨⟨hlocks.waiting, hlocks.timers, hlocks.due⟩, hpermits, hallocated, hinside, hsingle,
    hnodup, hlisted, hnotified⟩, fun g => (hplaced g).congr rfl rfl, hserved⟩,
    ⟨hdeadlines.live, hdeadlines.timer_lt, hdeadlines.free⟩, hstamped, hnoticed⟩

/-- A look at the lock that is taken is only logged. -/
theorem Running.same_is_owned (hr : Running s g 0) :
    SameButLog s.locks (ConditionObject_is_owned s.locks g).1 := by
  have hzero : ¬ (s.locks.sems lock).counter > 0 := by
    have hpermits : (s.locks.sems lock).counter = 0 := hr.permits
    rw [hpermits]
    decide
  unfold ConditionObject_is_owned semaphore_acquire
  rw [if_neg hzero]
  exact ⟨rfl, rfl, rfl⟩

/-- What `set` does. -/
theorem event_set_eq (hi : Inv s) (hpc : s.pc g = .free) :
    event_set s g = { s with
      flag := true
      waiters := []
      locks := semaphore_release (Condition.release_all g
        (ConditionObject_is_owned (semaphore_acquire s.locks lock g true 0).1 g).1 s.waiters)
        lock g } := by
  obtain ⟨hres, hrun⟩ := (hi.running hpc).acquire
  have hset : Running { s with
      locks := (semaphore_acquire s.locks lock g true 0).1, flag := true } g 0 :=
    hrun.frame rfl rfl rfl fun _ _ => rfl
  obtain ⟨howned, _⟩ := hset.owned
  have hitems := Condition.notify_items_eq g
    (ConditionObject_is_owned (semaphore_acquire s.locks lock g true 0).1 g).1 s.waiters []
  rw [List.append_nil] at hitems
  unfold event_set
  simp only [hres, set_entered, ConditionObject_notify_all]
  simp only at howned
  simp only [howned, Bool.not_true, Bool.false_eq_true, if_false, List.take_length, hitems]

/-! ## Steps -/

/-- The events differ in the logs of their semaphores only. -/
structure Same (s s' : St) : Prop extends Like s s' where
  ended : s'.ended = s.ended

theorem Same.refl (s : St) : Same s s := ⟨⟨.refl _, rfl, rfl, rfl, rfl⟩, rfl⟩

theorem Same.symm (h : Same s s') : Same s' s :=
  ⟨⟨h.locks.symm, h.next.symm, h.flag.symm, h.waiters.symm, h.pc.symm⟩, h.ended.symm⟩

theorem Same.trans {s'' : St} (h : Same s s') (h' : Same s' s'') : Same s s'' :=
  ⟨⟨h.locks.trans h'.locks, h'.next.trans h.next, h'.flag.trans h.flag,
    h'.waiters.trans h.waiters, h'.pc.trans h.pc⟩, h'.ended.trans h.ended⟩

section Same

variable {l l' : Locks.St}

theorem Same.eq (h : Same s s') :
    ∃ l', s' = { s with locks := l' } ∧ SameButLog s.locks l' := by
  obtain ⟨⟨hlocks, hnext, hflag, hwaiters, hpc⟩, hended⟩ := h
  obtain ⟨l', next', flag', waiters', pc', ended'⟩ := s'
  subst hnext hflag hwaiters hpc hended
  exact ⟨l', rfl, hlocks⟩

theorem Same.with_locks (h : Same s s') (hl : SameButLog l l') :
    Same { s with locks := l } { s' with locks := l' } :=
  ⟨⟨hl, h.next, h.flag, h.waiters, h.pc⟩, h.ended⟩

theorem Same.with_flag (h : Same s s') (flag : Bool) :
    Same { s with flag := flag } { s' with flag := flag } :=
  ⟨⟨h.locks, h.next, rfl, h.waiters, h.pc⟩, h.ended⟩

theorem Same.with_pc (h : Same s s') (g : Gid) (p : Pc) :
    Same { s with pc := Function.update s.pc g p } { s' with pc := Function.update s'.pc g p } := by
  refine ⟨⟨h.locks, h.next, h.flag, h.waiters, ?_⟩, h.ended⟩
  simp only [h.pc]

theorem same_is_owned (h : SameButLog l l') (g : Gid) :
    SameResult (ConditionObject_is_owned l g) (ConditionObject_is_owned l' g) := by
  obtain ⟨ha, hres⟩ := h.acquire lock g false 0
  unfold ConditionObject_is_owned
  dsimp only
  rw [hres]
  split
  · exact ⟨ha.release lock g, rfl⟩
  · exact ⟨ha, rfl⟩

theorem Same.notify_all (h : Same s s') (g : Gid) :
    Same (ConditionObject_notify_all s g) (ConditionObject_notify_all s' g) := by
  obtain ⟨l', rfl, hl⟩ := h.eq
  obtain ⟨howned, hres⟩ := same_is_owned hl g
  unfold ConditionObject_notify_all
  dsimp only
  rw [hres]
  split
  · exact h.with_locks howned
  · obtain ⟨hnotified, hwaiters⟩ :=
      howned.notify_items g s.waiters (s.waiters.take s.waiters.length)
    exact ⟨⟨hnotified, rfl, rfl, hwaiters, rfl⟩, rfl⟩

theorem Same.wait_ended (h : Same s s') (g : Gid) (res : Result) :
    Same (wait_ended s g res) (wait_ended s' g res) := by
  refine ⟨⟨h.locks.release lock g, h.next, h.flag, h.waiters, ?_⟩, ?_⟩
  · exact (h.with_pc g .free).pc
  · simp only [Event.wait_ended, h.ended]

theorem Same.restored (h : Same s s') (g : Gid) (res acquired : Outcome) :
    Same (restored s g res acquired) (restored s' g res acquired) := by
  cases acquired with
  | NULL e => exact h.wait_ended g _
  | Py_True => exact h.wait_ended g _
  | Py_False => exact h.wait_ended g _

theorem Same.acquire_restore (h : Same s s') (g : Gid) (res : Outcome) :
    Same (ConditionObject_acquire_restore s g res) (ConditionObject_acquire_restore s' g res) := by
  obtain ⟨ha, hres⟩ := h.locks.acquire lock g true 0
  unfold ConditionObject_acquire_restore
  dsimp only
  rw [hres]
  split
  · exact (h.with_locks ha).with_pc g _
  · exact (h.with_locks ha).restored g res _

theorem Same.condition_wait (h : Same s s') (g : Gid) (seconds : Nat) :
    Same (ConditionObject_wait s g seconds) (ConditionObject_wait s' g seconds) := by
  obtain ⟨l', rfl, hl⟩ := h.eq
  obtain ⟨howned, hres⟩ := same_is_owned hl g
  unfold ConditionObject_wait
  dsimp only
  rw [hres]
  split
  · exact (h.with_locks howned).wait_ended g _
  · obtain ⟨ha, hacquired⟩ :=
      ((howned.new_waiter s.next g).release lock g).acquire s.next g true seconds
    have hlisted : Same
        { s with
          locks := (semaphore_acquire (semaphore_release (Condition.new_waiter
            (ConditionObject_is_owned s.locks g).1 s.next g) lock g) s.next g true seconds).1
          next := s.next + 1
          waiters := s.waiters ++ [s.next] }
        { s with
          locks := (semaphore_acquire (semaphore_release (Condition.new_waiter
            (ConditionObject_is_owned l' g).1 s.next g) lock g) s.next g true seconds).1
          next := s.next + 1
          waiters := s.waiters ++ [s.next] } := ⟨⟨ha, rfl, rfl, rfl, rfl⟩, rfl⟩
    rw [hacquired]
    split
    · exact hlisted.with_pc g _
    · exact hlisted.acquire_restore g _

theorem Same.set_entered (h : Same s s') (g : Gid) (acquired : Outcome) :
    Same (set_entered s g acquired) (set_entered s' g acquired) := by
  have hset := (h.with_flag true).notify_all g
  cases acquired with
  | NULL e => exact h
  | Py_True => exact hset.with_locks (hset.locks.release lock g)
  | Py_False => exact hset.with_locks (hset.locks.release lock g)

theorem Same.event_set (h : Same s s') (g : Gid) : Same (event_set s g) (event_set s' g) := by
  obtain ⟨ha, hres⟩ := h.locks.acquire lock g true 0
  unfold Event.event_set
  dsimp only
  rw [hres]
  split
  · exact (h.with_locks ha).with_pc g _
  · exact (h.with_locks ha).set_entered g _

theorem Same.clear_entered (h : Same s s') (g : Gid) (acquired : Outcome) :
    Same (clear_entered s g acquired) (clear_entered s' g acquired) := by
  have hclear := (h.with_flag false).with_locks (h.locks.release lock g)
  cases acquired with
  | NULL e => exact h
  | Py_True => exact hclear
  | Py_False => exact hclear

theorem Same.event_clear (h : Same s s') (g : Gid) :
    Same (EventObject_clear s g) (EventObject_clear s' g) := by
  obtain ⟨ha, hres⟩ := h.locks.acquire lock g true 0
  unfold EventObject_clear
  dsimp only
  rw [hres]
  split
  · exact (h.with_locks ha).with_pc g _
  · exact (h.with_locks ha).clear_entered g _

theorem Same.wait_entered (h : Same s s') (g : Gid) (seconds : Nat) (acquired : Outcome) :
    Same (wait_entered s g seconds acquired) (wait_entered s' g seconds acquired) := by
  have hwait : Same (if !s.flag then ConditionObject_wait s g seconds
        else Event.wait_ended s g .Py_None)
      (if !s'.flag then ConditionObject_wait s' g seconds
        else Event.wait_ended s' g .Py_None) := by
    rw [h.flag]
    split
    · exact h.condition_wait g seconds
    · exact h.wait_ended g _
  cases acquired with
  | NULL e =>
    refine ⟨⟨h.locks, h.next, h.flag, h.waiters, h.pc⟩, ?_⟩
    simp only [Event.wait_entered, h.ended]
  | Py_True => exact hwait
  | Py_False => exact hwait

theorem Same.event_wait (h : Same s s') (g : Gid) (seconds : Nat) :
    Same (event_wait s g seconds) (event_wait s' g seconds) := by
  obtain ⟨ha, hres⟩ := h.locks.acquire lock g true 0
  unfold Event.event_wait
  dsimp only
  rw [hres]
  split
  · exact (h.with_locks ha).with_pc g _
  · exact (h.with_locks ha).wait_entered g seconds _

theorem Same.finished (h : Same s s') (ended : Option (Gid × Outcome)) :
    Same (finished s ended) (finished s' ended) := by
  cases ended with
  | none => exact h
  | some r =>
    obtain ⟨g, res⟩ := r
    have hfree := h.with_pc g .free
    unfold Event.finished
    dsimp only
    rw [h.pc] at hfree ⊢
    cases s.pc g with
    | free => exact h
    | setting => exact hfree.set_entered g res
    | clearing => exact hfree.clear_entered g res
    | entering seconds => exact hfree.wait_entered g seconds res
    | waiting waiter => exact h.acquire_restore g res
    | restoring res' => exact h.restored g res' res

theorem Same.settle (h : Same s s') {r r' : Locks.St × Option (Gid × Outcome)}
    (hr : SameResult r r') : Same (settle s r) (settle s' r') := by
  unfold Event.settle
  rw [hr.2]
  exact (h.with_locks hr.1).finished r.2

/-- What is the same but for the logs takes the same steps. -/
theorem Same.step (h : Same s s') (a : Act) : Option.Rel Same (step s a) (step s' a) := by
  cases a with
  | set g =>
    simp only [Event.step, h.pc]
    split
    · exact .some (h.event_set g)
    · exact .none
  | clear g =>
    simp only [Event.step, h.pc]
    split
    · exact .some (h.event_clear g)
    · exact .none
  | wait g seconds =>
    simp only [Event.step, h.pc]
    split
    · exact .some (h.event_wait g seconds)
    · exact .none
  | fire waiter => exact Trace.rel_map (fun _ _ hr => h.settle hr) (h.locks.fire waiter)
  | due timer =>
    simp only [Event.step, h.locks.loop]
    cases s.locks.loop.fire_timers_next timer with
    | none => exact .none
    | some loop => exact .some (h.with_locks (h.locks.with_loop loop))
  | throw g e =>
    have hr := h.locks.resume g (.throw e)
    exact .some (h.settle ⟨hr.1, congrArg (Option.map (Prod.mk g)) hr.2⟩)
  | switch g =>
    have hr := h.locks.resume g (.value .loop_switch_value)
    exact .some (h.settle ⟨hr.1, congrArg (Option.map (Prod.mk g)) hr.2⟩)
  | call_soon n =>
    simp only [Event.step, h.locks.loop]
    exact .some (h.with_locks (h.locks.with_loop _))

end Same

/-! ## `set` once more -/

/-- Who takes the free lock and gives it back leaves it as it was. -/
theorem Running.same_round (hr : Running s g 1) :
    SameButLog s.locks
      (semaphore_release (semaphore_acquire s.locks lock g true 0).1 lock g) := by
  have hpos : (s.locks.sems lock).counter > 0 := by
    have hpermits : (s.locks.sems lock).counter = 1 := hr.permits
    rw [hpermits]
    decide
  have hnobody : (s.locks.sems lock).waiters = ∅ := by
    refine Finset.eq_empty_of_forall_notMem fun g' hg' => ?_
    have hblocked := (hr.locks.waiting lock g').1 hg'
    exact absurd (hr.inside lock g' hblocked).1 (Nat.lt_irrefl _)
  have htaken : (semaphore_acquire s.locks lock g true 0).1 =
      Locks.note (Locks.take s.locks lock) lock (.acquire g .Py_True) := by
    unfold semaphore_acquire
    rw [if_pos hpos]
  rw [htaken, semaphore_release_eq]
  constructor
  · simp [Locks.note, Locks.take]
  · simp [Locks.note, Locks.take, hnobody]
  · rfl

/-- `set` on an event that is set. -/
theorem event_set_again (hs : Steady s) (hpc : s.pc g = .free) (hflag : s.flag = true) :
    Same s (event_set s g) := by
  have hr := hs.inv.running hpc
  obtain ⟨_, hrun⟩ := hr.acquire
  have hempty : s.waiters = [] := hs.inv.served hflag
  rw [event_set_eq hs.inv hpc, hempty]
  refine ⟨⟨?_, rfl, hflag.symm, hempty.symm, rfl⟩, rfl⟩
  -- the look at the lock is logged between the two
  exact hr.same_round.trans (hrun.same_is_owned.release lock g)

end Jega.Event
