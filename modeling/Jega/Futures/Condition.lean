import Jega.Event.History
import Jega.Event.Truth
import Jega.Futures.Completion

/-!
# Jega.Futures.Condition — the condition of a future is an event

The condition of a future and whether the future is done are an `Event`, though
one over an `RLock`: the end of a future is `set`, and `result` and `exception`
wait for it (`view`). An event looks whether its lock is taken before it uses the
condition, and an `RLock` knows its owner; so the two differ in the logs of their
semaphores, and in nothing that the loop or a greenlet can see (`Like`).

Nobody is suspended with the condition, so each `with` is entered at once.
-/

namespace Jega.Event

open Locks

variable {s s' : St} {g : Gid}

/-- The lock is taken and given back. -/
theorem Steady.round (hs : Steady s) (hpc : s.pc g = .free) :
    Steady { s with
      locks := semaphore_release (semaphore_acquire s.locks lock g true 0).1 lock g } := by
  have hrunning := hs.inv.running hpc
  have hround := lock_round_shrinks hs.inv hpc
  obtain ⟨hframes, hcounters⟩ := hrunning.lock_round
  obtain ⟨_, hrun⟩ := hrunning.acquire
  refine ⟨hrun.release.stop hpc hs.inv.served, hround.deadlines hs.deadlines,
    hs.stamped.shrinks hs.deadlines hround, ?_⟩
  exact hs.noticed.congr rfl hframes hcounters

/-- A greenlet that blocks leaves the deadlines of the others alone. -/
theorem wait_others (hs : Steady s) (hpc : s.pc g = .free) (hflag : s.flag = false)
    (seconds : Nat) {g' : Gid} (hne : g' ≠ g) (hm : Muted s.locks g') :
    Muted (event_wait s g seconds).locks g' := by
  obtain ⟨_, hrun⟩ := (hs.inv.running hpc).acquire
  have hlock := (hs.inv.running hpc).shrinks_lock
  obtain ⟨hready, hframes, _, _⟩ := ready_same hrun
  have hsh := hlock.trans hready
  have hidle := (congrFun hframes g).trans hrun.idle
  obtain ⟨_, hext, _⟩ :=
    acquire_deadlines (hsh.deadlines hs.deadlines) hidle s.next true seconds
  rw [wait_clear_eq hs.inv hpc hflag, condition_wait_eq hrun]
  refine (hm.shrinks hs.deadlines hsh).extends (hsh.deadlines hs.deadlines) hext fun f hf => ?_
  rcases semaphore_acquire_cases
      (ready { s with locks := (semaphore_acquire s.locks lock g true 0).1 } g) s.next g true
      seconds with ⟨_, _, _, hf'⟩ | ⟨_, hfalse, _⟩ | ⟨_, _, _, _, timer, hf'⟩
  · rwa [hf'] at hf
  · cases hfalse
  · rwa [hf', Function.update_of_ne hne] at hf

end Jega.Event

namespace Jega.Locks.RLock

variable {c : St} {g : Gid}

/-- A free lock, and one that a greenlet has taken once. -/
def free : RLockObject := ⟨Event.lock, 0, none⟩

def taken (g : Gid) : RLockObject := ⟨Event.lock, 1, some g⟩

theorem rlock_acquire_eq (hlock : c.lock = free)
    (hres : (semaphore_acquire c.locks Event.lock g true 0).2 = some .Py_True) :
    rlock_acquire c g true 0 =
      { c with
        locks := (semaphore_acquire c.locks Event.lock g true 0).1
        lock := taken g } := by
  unfold rlock_acquire
  rw [hlock, free, if_neg (by simp)]
  simp only [hres, rlock_acquired]
  rfl

theorem rlock_release_eq (hlock : c.lock = taken g) :
    rlock_release c g =
      { c with lock := free, locks := semaphore_release c.locks Event.lock g } := by
  unfold rlock_release
  rw [hlock, taken, if_neg (by simp)]
  simp only [UInt32.sub_self, if_true]
  rfl

theorem notify_all_eq (hlock : c.lock = taken g) :
    condition_notify c g c.waiters.length =
      { c with locks := Condition.release_all g c.locks c.waiters, waiters := [] } := by
  have hitems := Condition.notify_items_eq g c.locks c.waiters []
  rw [List.append_nil] at hitems
  unfold condition_notify
  rw [hlock, taken, if_neg (by simp)]
  simp only [Int.toNat_natCast, List.take_length, hitems]

/-- The private semaphore of a wait blocks its caller. -/
theorem wait_eq (hlock : c.lock = taken g) (seconds : Nat)
    (hres : (semaphore_acquire (semaphore_release (Condition.new_waiter c.locks c.next g)
      Event.lock g) c.next g true seconds).2 = none) :
    ConditionObject_wait c g seconds =
      { c with
        locks := (semaphore_acquire (semaphore_release (Condition.new_waiter c.locks c.next g)
          Event.lock g) c.next g true seconds).1
        next := c.next + 1
        lock := free
        waiters := c.waiters ++ [c.next]
        pc := Function.update c.pc g (.waiting c.next ⟨1, some g⟩) } := by
  unfold ConditionObject_wait
  rw [hlock, taken, if_neg (by simp)]
  simp only [rlock_release_save, hres]
  rfl

/-- A wait that ended takes the free lock back at once. -/
theorem settle_eq (hlock : c.lock = free) {waiter : Sid}
    (hpc : c.pc g = .waiting waiter ⟨1, some g⟩) {l : Locks.St} (res : Locks.Outcome)
    (hres : (semaphore_acquire l Event.lock g true 0).2 = some .Py_True) :
    settle c (l, some (g, res)) =
      { c with
        locks := (semaphore_acquire l Event.lock g true 0).1
        lock := taken g
        pc := Function.update c.pc g .free
        ended := c.ended ++ [⟨g, 1, res, taken g⟩] } := by
  unfold settle finished
  simp only [hpc, rlock_acquire_restore, hlock, free, hres, restored, wait_ended]
  rfl

end Jega.Locks.RLock

namespace Jega.Futures.Completion

open Locks Waiting

/-! ## A future that rests -/

/-- Where a greenlet is in the event. -/
def place : RLock.Pc → Event.Pc
  | .waiting waiter _ => .waiting waiter
  | _ => .free

/-- The event of a condition, and whether its future is done. -/
def view (c : RLock.St) (done : Bool) : Event.St where
  locks := c.locks
  next := c.next
  flag := done
  waiters := c.waiters
  pc := fun g => place (c.pc g)
  ended := []

/-- Nobody has the condition, or waits for it. -/
structure Rests (c : RLock.St) (done : Bool) : Prop where
  lock : c.lock = RLock.free
  places : ∀ g, c.pc g = .free ∨ ∃ waiter, c.pc g = .waiting waiter ⟨1, some g⟩
  steady : Event.Steady (view c done)

theorem init_rests : Rests RLock.init false :=
  ⟨rfl, fun _ => Or.inl rfl, Event.init_steady.like ⟨.refl _, rfl, rfl, rfl, rfl⟩⟩

section Condition

variable {c : RLock.St} {done : Bool} {g : Gid}

/-- A greenlet has moved to a place where it may rest. -/
theorem Rests.places_update (hr : Rests c done) {p : RLock.Pc}
    (hp : p = .free ∨ ∃ waiter, p = .waiting waiter ⟨1, some g⟩) (g' : Gid) :
    Function.update c.pc g p g' = .free ∨
      ∃ waiter, Function.update c.pc g p g' = .waiting waiter ⟨1, some g'⟩ := by
  rcases eq_or_ne g' g with rfl | hne
  · rw [Function.update_self]
    exact hp
  · rw [Function.update_of_ne hne]
    exact hr.places g'

theorem view_pc (hpc : c.pc g = .free) : (view c done).pc g = .free := by
  show place (c.pc g) = .free
  rw [hpc]
  rfl

/-- The condition is free for a greenlet that asks for it. -/
theorem Rests.acquire (hr : Rests c done) (hpc : c.pc g = .free) :
    (semaphore_acquire c.locks Event.lock g true 0).2 = some .Py_True ∧
      Event.Running { view c done with
        locks := (semaphore_acquire c.locks Event.lock g true 0).1 } g 0 :=
  (hr.steady.inv.running (view_pc hpc)).acquire

/-- The condition while `g` has it. -/
def held (c : RLock.St) (g : Gid) : RLock.St :=
  { c with locks := (semaphore_acquire c.locks Event.lock g true 0).1, lock := RLock.taken g }

theorem Rests.enter (hr : Rests c done) (hpc : c.pc g = .free) :
    RLock.rlock_acquire c g true 0 = held c g :=
  RLock.rlock_acquire_eq hr.lock (hr.acquire hpc).1

/-- The condition is taken and given back. -/
theorem Rests.round (hr : Rests c done) (hpc : c.pc g = .free) :
    Rests (RLock.rlock_release (held c g) g) done ∧
      (RLock.rlock_release (held c g) g).pc = c.pc ∧
      Shrinks c.locks (RLock.rlock_release (held c g) g).locks := by
  have hround := Event.lock_round_shrinks hr.steady.inv (view_pc hpc)
  have hsteady := hr.steady.round (view_pc hpc)
  rw [RLock.rlock_release_eq (rfl : (held c g).lock = RLock.taken g)]
  exact ⟨⟨rfl, hr.places, hsteady⟩, rfl, hround⟩

/-- The end of the future is `set`. -/
theorem Rests.complete (hr : Rests c done) (hpc : c.pc g = .free) :
    let c' := RLock.rlock_release
      (RLock.condition_notify (held c g) g (held c g).waiters.length) g
    Rests c' true ∧ c'.pc = c.pc ∧ Shrinks c.locks c'.locks := by
  obtain ⟨_, hrun⟩ := hr.acquire hpc
  obtain ⟨hsteady, hsh, _⟩ := Event.event_set_steady hr.steady (view_pc hpc)
  rw [Event.event_set_eq hr.steady.inv (view_pc hpc)] at hsteady hsh
  -- the event looks at its lock before it notifies, and the `RLock` knows its owner
  have hlike := (hrun.same_is_owned.symm.release_all g c.waiters).release Event.lock g
  rw [RLock.notify_all_eq (rfl : (held c g).lock = RLock.taken g), RLock.rlock_release_eq rfl]
  refine ⟨⟨rfl, hr.places, hsteady.like ⟨hlike, rfl, rfl, rfl, rfl⟩⟩, rfl, ?_⟩
  exact hsh.same hlike

theorem Muted.same {l l' : Locks.St} (hm : Muted l g) (h : SameButLog l l') : Muted l' g := by
  intro f hf
  rw [h.frames] at hf
  rw [h.loop]
  exact hm f hf

/-- `result` and `exception` wait for the event. -/
theorem Rests.wait (hr : Rests c false) (hpc : c.pc g = .free) (seconds : Nat) :
    let c' := RLock.ConditionObject_wait (held c g) g seconds
    Rests c' false ∧ c'.ended = c.ended ∧
      c'.pc = Function.update c.pc g (.waiting c.next ⟨1, some g⟩) ∧
      (seconds = 0 → Muted c'.locks g) ∧
      ∀ g', g' ≠ g → Muted c.locks g' → Muted c'.locks g' := by
  obtain ⟨_, hrun⟩ := hr.acquire hpc
  obtain ⟨hsteady, _, _, _, hmuted⟩ :=
    Event.event_wait_steady hr.steady (view_pc hpc) rfl seconds
  have hothers : ∀ g', g' ≠ g → Muted c.locks g' →
      Muted (Event.event_wait (view c false) g seconds).locks g' := fun g' hne hm =>
    Event.wait_others hr.steady (view_pc hpc) rfl seconds hne hm
  have hwait := (Event.wait_clear_eq hr.steady.inv (view_pc hpc) rfl seconds).trans
    (Event.condition_wait_eq hrun seconds)
  rw [hwait] at hsteady hmuted hothers
  -- so it does before it waits
  have hlike := ((hrun.same_is_owned.symm.new_waiter c.next g).release Event.lock g).acquire
    c.next g true seconds
  obtain ⟨hsame, hagrees⟩ := hlike
  have hres := Event.wait_blocks hrun seconds
  have heq := RLock.wait_eq (rfl : (held c g).lock = RLock.taken g) seconds
    (hagrees.trans hres)
  rw [heq]
  refine ⟨⟨rfl, hr.places_update (Or.inr ⟨c.next, rfl⟩),
    hsteady.like ⟨hsame, rfl, rfl, rfl, ?_⟩⟩, rfl, rfl, fun h0 => ?_, fun g' hne hm => ?_⟩
  · exact Function.comp_update place c.pc g _
  · exact Muted.same (hmuted h0) hsame
  · exact Muted.same (hothers g' hne hm) hsame

/-- A wait that has ended goes on with the condition, and gives it back. -/
theorem Rests.ended (hr : Rests c done) {thrown : Option (Gid × Exc)} {l : Locks.St}
    {res : Locks.Outcome} (ht : Turn c.locks thrown (l, some (g, res))) (hinv : Locks.Inv l)
    (hsteady : Event.Steady (Event.settle (view c done) (l, some (g, res)))) :
    let c' := RLock.settle c (l, some (g, res))
    c.pc g ≠ .free ∧ c'.ended = c.ended ++ [⟨g, 1, res, RLock.taken g⟩] ∧
      Rests (RLock.rlock_release c' g) done ∧
      (RLock.rlock_release c' g).pc = Function.update c.pc g .free ∧
      (RLock.rlock_release c' g).locks =
        (Event.settle (view c done) (l, some (g, res))).locks := by
  obtain ⟨hrun, waiter, hwaiting⟩ := Event.turn_running hr.steady.inv ht hinv
  have hpc : c.pc g ≠ .free := by
    intro hfree
    rw [view_pc hfree] at hwaiting
    cases hwaiting
  obtain ⟨waiter', hpc'⟩ := (hr.places g).resolve_left hpc
  rw [Event.settle_eq hr.steady.inv ht hinv] at hsteady ⊢
  dsimp only
  rw [RLock.settle_eq hr.lock hpc' res hrun.acquire.1, RLock.rlock_release_eq rfl]
  refine ⟨hpc, rfl, ⟨rfl, hr.places_update (Or.inl rfl),
    hsteady.like ⟨.refl _, rfl, rfl, rfl, ?_⟩⟩, rfl, rfl⟩
  exact Function.comp_update place c.pc g .free

/-- The semaphores have moved, and no wait has ended. -/
theorem Rests.quiet (hr : Rests c done) {l : Locks.St}
    (hsteady : Event.Steady { view c done with locks := l }) :
    Rests { c with locks := l } done :=
  ⟨hr.lock, hr.places, hsteady.like ⟨.refl _, rfl, rfl, rfl, rfl⟩⟩

end Condition

end Jega.Futures.Completion
