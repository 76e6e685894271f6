import Jega.Locks.Notify
import Jega.Locks.Restore
import Jega.Locks.Turn

/-!
# Jega.Locks.Ownership — the fields of an `RLockObject` agree

The owner, its depth and the permit of `block` are three fields that five
operations change. They agree whenever another greenlet can run (`Agrees`): the
lock is free and its permit there, or one greenlet owns it at the depth of its
own acquires and the permit is taken.

The depth is a `uint32_t`. The owner that acquires once more at a depth of
2^32 - 1 gets a depth of zero, and nothing else breaks the agreement.
-/

namespace Jega.Locks.RLock

/-! ## The statement -/

/-- The `rlock_acquire` that returns in this step: its caller and its result. -/
def acquired (s : St) : Act → Option (Gid × Outcome)
  | .acquire g blocking timeout =>
    if s.lock.owner = some g then some (g, .Py_True)
    else (semaphore_acquire s.locks s.lock.block g blocking timeout).2.map (Prod.mk g)
  | .fire waiter =>
    (fire s.locks waiter).bind fun r => r.2.filter fun e => s.pc e.1 = .acquiring
  | .throw g e =>
    ((resume s.locks g (.throw e)).2.map (Prod.mk g)).filter fun e => s.pc e.1 = .acquiring
  | .switch g =>
    ((resume s.locks g (.value .loop_switch_value)).2.map (Prod.mk g)).filter
      fun e => s.pc e.1 = .acquiring
  | _ => none

/-- The exception of `rlock_release`, if it raises. -/
def rlock_release_error (s : St) (current : Gid) : Option String :=
  if s.lock.owner ≠ some current then some "cannot release un-acquired lock" else none

/-- The system with a history: the acquires of each greenlet that returned `True`
less its releases that did not raise. -/
structure Counted where
  state : St
  unmatched : Gid → Nat

def Counted.init : Counted := ⟨RLock.init, fun _ => 0⟩

/-- The history after a step from `s`. -/
def count (s : St) (u : Gid → Nat) : Act → Gid → Nat
  | .release g => if s.lock.owner = some g then Function.update u g (u g - 1) else u
  | a =>
    match acquired s a with
    | some (g, .Py_True) => Function.update u g (u g + 1)
    | _ => u

def Counted.step (c : Counted) (a : Act) : Option Counted :=
  (RLock.step c.state a).map fun s => ⟨s, count c.state c.unmatched a⟩

/-- The owner, the depth and the permit agree. -/
inductive Agrees (s : St) (u : Gid → Nat) : Prop where
  | free (howner : s.lock.owner = none) (hcount : s.lock.count = 0)
    (hpermit : counters s.locks s.lock.block = 1)
  | owned {g : Gid} (howner : s.lock.owner = some g) (hpos : 1 ≤ s.lock.count)
    (hcount : s.lock.count.toNat = u g) (hpermit : counters s.locks s.lock.block = 0)

/-- The invariant of the lock. -/
structure Represents (c : Counted) : Prop where
  agrees : Agrees c.state c.unmatched
  /-- A release by anybody but the owner raises and changes nothing. -/
  refuses : ∀ g, c.state.lock.owner ≠ some g →
    rlock_release_error c.state g = some "cannot release un-acquired lock" ∧
      rlock_release c.state g = c.state

/-- The owner acquires once more at a depth below 2^32 - 1 only. -/
def Shallow (c : Counted) : Act → Prop
  | .acquire g _ _ => c.state.lock.owner = some g → c.unmatched g + 1 < 2 ^ 32
  | _ => True

instance (c : Counted) (a : Act) : Decidable (Shallow c a) :=
  match a with
  | .acquire g _ _ =>
    inferInstanceAs (Decidable (c.state.lock.owner = some g → c.unmatched g + 1 < 2 ^ 32))
  | .release _ | .wait _ _ | .notify _ _ | .notify_all _ | .fire _ | .due _ | .throw _ _
  | .switch _ | .call_soon _ => isTrue trivial

def Pc.restores : Pc → Bool
  | .restoring _ _ => true
  | .free | .acquiring | .waiting _ _ => false

/-- No code throws into a wait that is acquiring the lock again. -/
def Uninterrupted (c : Counted) : Act → Prop
  | .throw g _ => (c.state.pc g).restores = false
  | _ => True

instance (c : Counted) (a : Act) : Decidable (Uninterrupted c a) :=
  match a with
  | .throw g _ => inferInstanceAs (Decidable ((c.state.pc g).restores = false))
  | .acquire _ _ _ | .release _ | .wait _ _ | .notify _ _ | .notify_all _ | .fire _ | .due _
  | .switch _ | .call_soon _ => isTrue trivial

/-! ## The invariant -/

/-- The semaphore a greenlet is blocked on. -/
def Pc.blocked_on : Pc → Option Sid
  | .free => none
  | .acquiring | .restoring _ _ => some 0
  | .waiting waiter _ => some waiter

/-- What a greenlet has put aside while it waits. -/
def Pc.saved : Pc → Option Saved
  | .waiting _ saved | .restoring saved _ => some saved
  | .free | .acquiring => none

/-- One greenlet: the call it is in, and its acquires. -/
structure Placed (s : St) (u : Gid → Nat) (g : Gid) : Prop where
  frame : (s.locks.frames g).map Frame.self = (s.pc g).blocked_on
  own : ∀ waiter saved, s.pc g = .waiting waiter saved → waiter ≠ 0
  muted : ∀ saved res, s.pc g = .restoring saved res → Muted s.locks g
  unheld : (s.pc g).saved = none → s.lock.owner ≠ some g → u g = 0
  depth : ∀ saved, (s.pc g).saved = some saved → 1 ≤ saved.count ∧ saved.count.toNat = u g

structure Kept (s : St) (u : Gid → Nat) : Prop where
  inv : Inv s
  deadlines : Deadlines s.locks
  block : s.lock.block = 0
  next_pos : 0 < s.next
  waiters : ∀ waiter ∈ s.waiters, waiter ≠ 0
  placed : ∀ g, Placed s u g

variable {s s' : St} {u u' : Gid → Nat} {g : Gid}

/-- A greenlet outside of all calls. -/
theorem Placed.outside (hpc : s.pc g = .free) (hframe : s.locks.frames g = none)
    (hheld : s.lock.owner ≠ some g → u g = 0) : Placed s u g := by
  refine ⟨?_, ?_, ?_, fun _ => hheld, ?_⟩
  · rw [hframe, hpc]
    rfl
  · intro waiter saved h
    rw [hpc] at h
    cases h
  · intro saved res h
    rw [hpc] at h
    cases h
  · intro saved h
    rw [hpc] at h
    cases h

theorem init_kept : Kept RLock.init fun _ => 0 := by
  refine ⟨init_inv, init_deadlines _, rfl, Nat.zero_lt_one, ?_, ?_⟩
  · intro waiter hw
    cases hw
  · exact fun g => .outside rfl rfl fun _ => rfl

theorem init_agrees : Agrees RLock.init fun _ => 0 :=
  .free rfl rfl rfl

/-- A greenlet the step does not touch. -/
theorem Placed.congr (hp : Placed s u g) (hd : Deadlines s.locks)
    (hext : Extends s.locks.loop s'.locks.loop) (hframe : s'.locks.frames g = s.locks.frames g)
    (hpc : s'.pc g = s.pc g) (hu : u' g = u g)
    (howner : s'.lock.owner ≠ some g → s.lock.owner ≠ some g) : Placed s' u' g := by
  refine ⟨?_, ?_, ?_, ?_, ?_⟩
  · rw [hframe, hpc]
    exact hp.frame
  · rw [hpc]
    exact hp.own
  · intro saved res h
    rw [hpc] at h
    exact (hp.muted saved res h).extends hd hext fun f hf => hframe ▸ hf
  · intro hsaved hnot
    rw [hpc] at hsaved
    rw [hu]
    exact hp.unheld hsaved (howner hnot)
  · intro saved hsaved
    rw [hpc] at hsaved
    rw [hu]
    exact hp.depth saved hsaved

/-- A greenlet outside of all calls is blocked on nothing. -/
theorem Placed.unframed (hp : Placed s u g) (hpc : s.pc g = .free) : s.locks.frames g = none := by
  have hframe := hp.frame
  rw [hpc] at hframe
  exact Option.map_eq_none_iff.1 hframe

/-- A greenlet that is blocked, and on what. -/
theorem Placed.framed (hp : Placed s u g) {sem : Sid} (hpc : (s.pc g).blocked_on = some sem)
    {f : Frame} (hf : s.locks.frames g = some f) : f.self = sem := by
  have hframe := hp.frame
  rw [hf, hpc] at hframe
  exact Option.some.inj hframe

/-- A step that touches `g` only. -/
theorem Kept.move (hk : Kept s u) (hinv : Inv s') (hd : Deadlines s'.locks)
    (hext : Extends s.locks.loop s'.locks.loop) (hblock : s'.lock.block = s.lock.block)
    (hnext : s.next ≤ s'.next) (hwaiters : ∀ waiter ∈ s'.waiters, waiter ≠ 0)
    (hframes : ∀ x, x ≠ g → s'.locks.frames x = s.locks.frames x)
    (hpc : ∀ x, x ≠ g → s'.pc x = s.pc x) (hu : ∀ x, x ≠ g → u' x = u x)
    (howner : ∀ x, x ≠ g → s'.lock.owner ≠ some x → s.lock.owner ≠ some x)
    (hg : Placed s' u' g) : Kept s' u' := by
  refine ⟨hinv, hd, hblock.trans hk.block, hk.next_pos.trans_le hnext, hwaiters, fun x => ?_⟩
  rcases eq_or_ne x g with rfl | hne
  · exact hg
  · exact (hk.placed x).congr hk.deadlines hext (hframes x hne) (hpc x hne) (hu x hne)
      (howner x hne)

/-- The semaphores and the loop have changed, and no call with them. -/
theorem Kept.with_locks (hk : Kept s u) {locks : Locks.St} (hd : Deadlines locks)
    (hext : Extends s.locks.loop locks.loop) (hframes : locks.frames = s.locks.frames) :
    Kept { s with locks := locks } u := by
  refine ⟨hk.inv.with_locks locks, hd, hk.block, hk.next_pos, hk.waiters, fun x => ?_⟩
  exact (hk.placed x).congr hk.deadlines hext (by rw [hframes]) rfl rfl id

/-- The owner of a free permit is nobody. -/
theorem Agrees.unowned (ha : Agrees s u) (hpos : counters s.locks s.lock.block > 0) :
    s.lock.owner = none ∧ s.lock.count = 0 ∧ counters s.locks s.lock.block = 1 := by
  cases ha with
  | free howner hcount hpermit => exact ⟨howner, hcount, hpermit⟩
  | owned _ _ _ hpermit =>
    rw [hpermit] at hpos
    exact absurd hpos (by decide)

/-- The fields that `Agrees` is about have not changed. -/
theorem Agrees.congr (ha : Agrees s u) (hlock : s'.lock = s.lock)
    (hcounters : counters s'.locks s.lock.block = counters s.locks s.lock.block)
    (hu : ∀ g, s.lock.owner = some g → u' g = u g) : Agrees s' u' := by
  cases ha with
  | free howner hcount hpermit =>
    refine .free ?_ ?_ ?_
    · rw [hlock]
      exact howner
    · rw [hlock]
      exact hcount
    · rw [hlock, hcounters]
      exact hpermit
  | @owned g howner hpos hcount hpermit =>
    refine .owned (g := g) ?_ ?_ ?_ ?_
    · rw [hlock]
      exact howner
    · rw [hlock]
      exact hpos
    · rw [hlock, hu g howner]
      exact hcount
    · rw [hlock, hcounters]
      exact hpermit

/-! ## Acquire and release -/

/-- The owner acquires once more; the depth must not wrap. -/
theorem reacquire_iff (hk : Kept s u) (ha : Agrees s u) (hpc : s.pc g = .free)
    (howner : s.lock.owner = some g) (blocking : Bool) (timeout : Nat) :
    (Agrees (rlock_acquire s g blocking timeout) (Function.update u g (u g + 1)) ↔
        u g + 1 < 2 ^ 32) ∧
      Kept (rlock_acquire s g blocking timeout) (Function.update u g (u g + 1)) := by
  have hacquire : rlock_acquire s g blocking timeout =
      { s with lock := { s.lock with count := s.lock.count + 1 } } := by
    rw [rlock_acquire, if_pos howner]
  have hinv := acquire_inv hk.inv hpc blocking timeout
  rw [hacquire] at hinv ⊢
  cases ha with
  | free hnone _ _ =>
    rw [hnone] at howner
    cases howner
  | @owned x hx hpos hcount hpermit =>
    have hxg : x = g := Option.some.inj (hx.symm.trans howner)
    subst hxg
    have hone : (1 : UInt32).toNat = 1 := rfl
    constructor
    · constructor
      · -- a depth that wraps is zero
        intro hagrees
        cases hagrees with
        | free hnone _ _ =>
          simp only at hnone
          rw [hnone] at howner
          cases howner
        | owned _ hpos' _ _ =>
          simp only [UInt32.le_iff_toNat_le, UInt32.toNat_add, hone] at hpos'
          have hlt := s.lock.count.toNat_lt
          omega
      · intro hlt
        refine .owned hx ?_ ?_ hpermit
        · simp only [UInt32.le_iff_toNat_le, UInt32.toNat_add, hone]
          omega
        · simp only [UInt32.toNat_add, hone, Function.update_self]
          omega
    · have hold := hk.placed x
      refine hk.move (g := x) hinv hk.deadlines (Plain.refl _).toExtends rfl (le_refl _) hk.waiters
        (fun _ _ => rfl) (fun _ _ => rfl) (fun y hy => Function.update_of_ne hy _ _)
        (fun _ _ h => h) ⟨hold.frame, hold.own, hold.muted, ?_, ?_⟩
      · intro _ hnot
        exact absurd howner hnot
      · intro saved hsaved
        simp only [hpc, Pc.saved] at hsaved
        cases hsaved

/-- `g` has taken the permit and owns the lock at depth `n`. -/
theorem Kept.take (hk : Kept s u) (ha : Agrees s u) {n : UInt32} (hinv : Inv s')
    (hd : Deadlines s'.locks) (hext : Extends s.locks.loop s'.locks.loop)
    (hpermit : counters s.locks s.lock.block > 0)
    (hcounter : counters s'.locks s.lock.block = counters s.locks s.lock.block - 1)
    (hlock : s'.lock = ⟨s.lock.block, n, some g⟩) (hnext : s'.next = s.next)
    (hwaiters : s'.waiters = s.waiters)
    (hframes : ∀ x, x ≠ g → s'.locks.frames x = s.locks.frames x)
    (hfree : s'.locks.frames g = none) (hpc : ∀ x, x ≠ g → s'.pc x = s.pc x)
    (hpcg : s'.pc g = .free) (hu : ∀ x, x ≠ g → u' x = u x)
    (hn : 1 ≤ n ∧ n.toNat = u' g) : Kept s' u' ∧ Agrees s' u' := by
  obtain ⟨hnone, _, hone⟩ := ha.unowned hpermit
  constructor
  · refine hk.move (g := g) hinv hd hext (by rw [hlock]) hnext.ge ?_ hframes hpc hu ?_
      (.outside hpcg hfree ?_)
    · rw [hwaiters]
      exact hk.waiters
    · intro x _ _
      rw [hnone]
      exact fun h => nomatch h
    · intro hnot
      rw [hlock] at hnot
      exact absurd rfl hnot
  · refine .owned (g := g) ?_ ?_ ?_ ?_
    · rw [hlock]
    · rw [hlock]
      exact hn.1
    · rw [hlock]
      exact hn.2
    · rw [hlock, hcounter, hone]
      decide

/-- `g` is in a call that changes neither the lock nor its history. -/
theorem Kept.park (hk : Kept s u) (hinv : Inv s') (hd : Deadlines s'.locks)
    (hext : Extends s.locks.loop s'.locks.loop) (hlock : s'.lock = s.lock)
    (hnext : s'.next = s.next) (hwaiters : s'.waiters = s.waiters)
    (hframes : ∀ x, x ≠ g → s'.locks.frames x = s.locks.frames x)
    (hpc : ∀ x, x ≠ g → s'.pc x = s.pc x)
    (hframe : (s'.locks.frames g).map Frame.self = (s'.pc g).blocked_on)
    (hown : ∀ waiter saved, s'.pc g = .waiting waiter saved → waiter ≠ 0)
    (hmuted : ∀ saved res, s'.pc g = .restoring saved res → Muted s'.locks g)
    (hsaved : (s'.pc g).saved = (s.pc g).saved) : Kept s' u := by
  refine hk.move (g := g) hinv hd hext (by rw [hlock]) hnext.ge ?_ hframes hpc (fun _ _ => rfl) ?_
    ⟨hframe, hown, hmuted, ?_, ?_⟩
  · rw [hwaiters]
    exact hk.waiters
  · intro x _ h
    rw [← hlock]
    exact h
  · intro hnone hnot
    rw [hlock] at hnot
    exact (hk.placed g).unheld (hsaved ▸ hnone) hnot
  · intro saved h
    exact (hk.placed g).depth saved (hsaved ▸ h)

/-- A greenlet that is not the owner acquires. -/
theorem acquire_kept (hk : Kept s u) (ha : Agrees s u) (hpc : s.pc g = .free)
    (howner : s.lock.owner ≠ some g) (blocking : Bool) (timeout : Nat) :
    Kept (rlock_acquire s g blocking timeout) (count s u (.acquire g blocking timeout)) ∧
      Agrees (rlock_acquire s g blocking timeout) (count s u (.acquire g blocking timeout)) := by
  have hinv := acquire_inv hk.inv hpc blocking timeout
  have hnone := (hk.placed g).unframed hpc
  have hzero : u g = 0 := (hk.placed g).unheld (by rw [hpc]; rfl) howner
  obtain ⟨hd, hext, _⟩ := acquire_deadlines hk.deadlines hnone s.lock.block blocking timeout
  simp only [count, acquired, if_neg howner]
  simp only [rlock_acquire, if_neg howner] at hinv ⊢
  rcases semaphore_acquire_cases s.locks s.lock.block g blocking timeout with
    ⟨hpos, hres, hc, hf⟩ | ⟨_, _, hres, hc, hf⟩ | ⟨_, _, hres, hc, timer, hf⟩
  · -- Case: the lock was free
    simp only [hres, rlock_acquired, Option.map_some] at hinv ⊢
    refine hk.take (n := 1) ha hinv hd hext hpos ?_ rfl rfl rfl (fun x _ => by rw [hf]) ?_
      (fun _ _ => rfl) hpc (fun x hx => Function.update_of_ne hx _ _) ⟨by decide, ?_⟩
    · rw [hc, Function.update_self]
    · rw [hf]
      exact hnone
    · rw [Function.update_self, hzero]
      rfl
  · -- Case: another greenlet has it, and the call does not block
    simp only [hres, rlock_acquired, Option.map_some] at hinv ⊢
    refine ⟨hk.with_locks hd hext hf, ha.congr rfl (by rw [hc]) fun _ _ => rfl⟩
  · -- Case: the call blocks
    simp only [hres, Option.map_none] at hinv ⊢
    refine ⟨?_, ha.congr rfl (by rw [hc]) fun _ _ => rfl⟩
    refine hk.park (g := g) hinv hd hext rfl rfl rfl ?_ ?_ ?_ ?_ ?_ ?_
    · intro x hx
      rw [hf, Function.update_of_ne hx]
    · intro x hx
      exact Function.update_of_ne hx _ _
    · have hframe : (semaphore_acquire s.locks s.lock.block g blocking timeout).1.frames g =
          some ⟨s.lock.block, timer⟩ := by rw [hf, Function.update_self]
      simp only [Function.update_self, Pc.blocked_on]
      exact (congrArg (Option.map Frame.self) hframe).trans (congrArg some hk.block)
    · intro waiter saved h
      simp only [Function.update_self] at h
      cases h
    · intro saved res h
      simp only [Function.update_self] at h
      cases h
    · simp only [Function.update_self, hpc]
      rfl

/-- The owner gives one acquire back. -/
theorem release_kept (hk : Kept s u) (ha : Agrees s u) (hpc : s.pc g = .free) :
    Kept (rlock_release s g) (count s u (.release g)) ∧
      Agrees (rlock_release s g) (count s u (.release g)) := by
  by_cases howner : s.lock.owner = some g
  · cases ha with
    | free hnone _ _ =>
      rw [hnone] at howner
      cases howner
    | @owned x hx hpos hcount hpermit =>
      have hxg : x = g := Option.some.inj (hx.symm.trans howner)
      subst hxg
      have hinv := release_inv (g := x) hk.inv
      have hpred : (s.lock.count - 1).toNat + 1 = s.lock.count.toNat :=
        counter_pred (UInt32.lt_iff_toNat_lt.2 (UInt32.le_iff_toNat_le.1 hpos))
      have hunframed := (hk.placed x).unframed hpc
      simp only [count, if_pos howner]
      simp only [rlock_release, howner, ne_eq, not_true_eq_false, if_false] at hinv ⊢
      by_cases hlast : s.lock.count - 1 = 0
      · -- Case: the last one
        rw [if_pos hlast] at hinv ⊢
        have hrel := release_effect s.locks s.lock.block x
        have hframes := Condition.release_frames (l := s.locks) s.lock.block x
        have hext := (release_plain s.locks s.lock.block x).toExtends
        rw [hlast] at hpred
        have hzero : (0 : UInt32).toNat = 0 := rfl
        constructor
        · refine hk.move (g := x) hinv (release_deadlines hk.deadlines s.lock.block x) hext rfl
            (le_refl _) hk.waiters ?_ (fun _ _ => rfl) (fun y hy => Function.update_of_ne hy _ _) ?_
            (.outside hpc ?_ fun _ => ?_)
          · intro y _
            simp only [hframes]
          · intro y hy _ hown
            rw [howner] at hown
            exact hy (Option.some.inj hown).symm
          · rw [hframes]
            exact hunframed
          · rw [Function.update_self]
            omega
        · refine .free rfl hlast ?_
          simp only
          rw [hrel.counter, Function.update_self, hpermit]
          rfl
      · -- Case: not the last one
        rw [if_neg hlast] at hinv ⊢
        have hne : (s.lock.count - 1).toNat ≠ 0 := by
          intro hzero
          exact hlast (UInt32.toNat_inj.1 hzero)
        constructor
        · refine hk.move (g := x) hinv hk.deadlines (Plain.refl _).toExtends rfl (le_refl _)
            hk.waiters (fun _ _ => rfl) (fun _ _ => rfl)
            (fun y hy => Function.update_of_ne hy _ _) ?_
            (.outside hpc hunframed fun hnot => absurd rfl hnot)
          intro y _ h
          rw [howner]
          exact h
        · refine .owned rfl ?_ ?_ hpermit
          · simp only [UInt32.le_iff_toNat_le]
            have hone : (1 : UInt32).toNat = 1 := rfl
            omega
          · simp only [Function.update_self]
            omega
  · -- Case: somebody else's lock
    have hsame : rlock_release s g = s := if_pos howner
    have hcount : count s u (.release g) = u := if_neg howner
    rw [hsame, hcount]
    exact ⟨hk, ha⟩

/-! ## The condition -/

/-- The owner waits: the lock is free, and the depth is put aside. -/
theorem wait_kept (hk : Kept s u) (ha : Agrees s u) (hpc : s.pc g = .free) (seconds : Nat) :
    Kept (ConditionObject_wait s g seconds) u ∧ Agrees (ConditionObject_wait s g seconds) u := by
  by_cases howner : s.lock.owner = some g
  · have hnone := (hk.placed g).unframed hpc
    obtain ⟨hnew, hloop, _⟩ := Condition.new_waiter_eq s.locks s.next g
    have hne : s.next ≠ 0 := Nat.ne_of_gt hk.next_pos
    have hinv := wait_inv (g := g) hk.inv seconds
    simp only [ConditionObject_wait, howner, ne_eq, not_true_eq_false, if_false, rlock_release_save]
      at hinv ⊢
    -- the private semaphore is empty, the permit of the lock is given back
    have hrel := release_effect (Condition.new_waiter s.locks s.next g) s.lock.block g
    have hrelframes :=
      Condition.release_frames (l := Condition.new_waiter s.locks s.next g) s.lock.block g
    have hplain := release_plain (Condition.new_waiter s.locks s.next g) s.lock.block g
    rw [hloop] at hplain
    have hd : Deadlines (semaphore_release (Condition.new_waiter s.locks s.next g) s.lock.block g) :=
      hk.deadlines.plain hplain (hrelframes.trans hnew)
    generalize semaphore_release (Condition.new_waiter s.locks s.next g) s.lock.block g = l
      at hinv hrel hrelframes hplain hd ⊢
    have hcounters := Condition.new_waiter_counters s.locks s.next g
    have hempty : counters l s.next = 0 := by
      rw [hrel.counter, hk.block, Function.update_of_ne hne, hcounters, Function.update_self]
    have hfree : l.frames g = none := by
      rw [hrelframes, hnew]
      exact hnone
    have hext := (acquire_deadlines hd hfree s.next true seconds).2.1
    have hd' := (acquire_deadlines hd hfree s.next true seconds).1
    rcases semaphore_acquire_cases l s.next g true seconds with
      ⟨hpos, _⟩ | ⟨_, hfalse, _⟩ | ⟨_, _, hres, hc, timer, hf⟩
    · rw [hempty] at hpos
      exact absurd hpos (by decide)
    · cases hfalse
    · simp only [hres] at hinv ⊢
      cases ha with
      | free hnobody _ _ =>
        rw [hnobody] at howner
        cases howner
      | @owned x hx hpos hcount hpermit =>
        have hxg : x = g := Option.some.inj (hx.symm.trans howner)
        subst hxg
        constructor
        · refine hk.move (g := x) hinv hd' (hplain.toExtends.trans hext) rfl (Nat.le_succ _) ?_ ?_ ?_ (fun _ _ => rfl) ?_
            ⟨?_, ?_, ?_, ?_, ?_⟩
          · intro waiter hw
            rcases List.mem_append.1 hw with hw | hw
            · exact hk.waiters waiter hw
            · rw [List.mem_singleton.1 hw]
              exact hne
          · intro y hy
            simp only [hf, Function.update_of_ne hy, hrelframes, hnew]
          · intro y hy
            exact Function.update_of_ne hy _ _
          · intro y hy _ hown
            rw [howner] at hown
            exact hy (Option.some.inj hown).symm
          · simp only [hf, Function.update_self, Option.map_some, Pc.blocked_on]
          · intro waiter saved h
            simp only [Function.update_self, Pc.waiting.injEq] at h
            rw [← h.1]
            exact hne
          · intro saved res h
            simp only [Function.update_self] at h
            cases h
          · intro h
            simp only [Function.update_self, Pc.saved] at h
            cases h
          · intro saved h
            simp only [Function.update_self, Pc.saved, Option.some.injEq] at h
            rw [← h]
            exact ⟨hpos, hcount⟩
        · refine .free rfl rfl ?_
          simp only [hc]
          rw [hrel.counter, Function.update_self, hk.block, hcounters,
            Function.update_of_ne hne.symm, ← hk.block, hpermit]
          rfl
  · have hsame : ConditionObject_wait s g seconds = s := if_pos howner
    rw [hsame]
    exact ⟨hk, ha⟩

/-- The end of a wait: `g` gets the lock back at once, or is blocked on it. -/
theorem restore_kept (hk : Kept s u) (ha : Agrees s u) {l : Locks.St} (hd : Deadlines l)
    (hext : Extends s.locks.loop l.loop) {waiter : Sid} {saved : Saved}
    (hpc : s.pc g = .waiting waiter saved)
    (hframes : l.frames = Function.update s.locks.frames g none)
    (hcounter : counters l s.lock.block = counters s.locks s.lock.block) (res : Outcome) :
    Kept (rlock_acquire_restore { s with locks := l } g saved res) u ∧
      Agrees (rlock_acquire_restore { s with locks := l } g saved res) u := by
  have hsaved : (s.pc g).saved = some saved := by
    rw [hpc]
    rfl
  have howner : s.lock.owner ≠ some g := hk.inv.suspended g (by rw [hpc]; simp)
  have hfree : l.frames g = none := by
    rw [hframes, Function.update_self]
  have hinv := acquire_restore_inv (g := g) (hk.inv.with_locks l) howner
    (hk.inv.waiting g waiter saved hpc) res
  obtain ⟨hd', hext', hmuted⟩ := acquire_deadlines hd hfree s.lock.block true 0
  have hloops := hext.trans hext'
  simp only [rlock_acquire_restore] at hinv ⊢
  rcases semaphore_acquire_cases l s.lock.block g true 0 with
    ⟨hpos, hres, hc, hf⟩ | ⟨_, hfalse, _⟩ | ⟨_, _, hres, hc, timer, hf⟩
  · -- Case: the lock is free
    simp only [hres, restored] at hinv ⊢
    rw [hcounter] at hpos
    refine hk.take (n := saved.count) ha hinv hd' hloops hpos ?_ ?_ rfl rfl ?_ ?_ ?_ ?_
      (fun _ _ => rfl) ((hk.placed g).depth saved hsaved)
    · simp only [wait_ended, hc, Function.update_self, hcounter]
    · simp only [wait_ended, hk.inv.waiting g waiter saved hpc]
    · intro x hx
      simp only [wait_ended, hf, hframes, Function.update_of_ne hx]
    · simp only [wait_ended, hf]
      exact hfree
    · intro x hx
      exact Function.update_of_ne hx _ _
    · exact Function.update_self _ _ _
  · cases hfalse
  · -- Case: another greenlet has it
    simp only [hres] at hinv ⊢
    refine ⟨?_, ha.congr rfl (by simp only [hc, hcounter]) fun _ _ => rfl⟩
    refine hk.park (g := g) hinv hd' hloops rfl rfl rfl ?_ ?_ ?_ ?_ ?_ ?_
    · intro x hx
      simp only [hf, hframes, Function.update_of_ne hx]
    · intro x hx
      exact Function.update_of_ne hx _ _
    · have hframe : (semaphore_acquire l s.lock.block g true 0).1.frames g =
          some ⟨s.lock.block, timer⟩ := by rw [hf, Function.update_self]
      simp only [Function.update_self, Pc.blocked_on]
      exact (congrArg (Option.map Frame.self) hframe).trans (congrArg some hk.block)
    · intro waiter' saved' h
      simp only [Function.update_self] at h
      cases h
    · exact fun _ _ _ => hmuted rfl
    · simp only [Function.update_self, hpc]
      rfl

theorem release_all_deadlines {l : Locks.St} (hd : Deadlines l) (g : Gid) (items : List Sid) :
    Deadlines (Condition.release_all g l items) ∧
      Extends l.loop (Condition.release_all g l items).loop := by
  induction items generalizing l with
  | nil => exact ⟨hd, (Plain.refl _).toExtends⟩
  | cons item items ih =>
    obtain ⟨hd', hext⟩ := ih (release_deadlines hd item g)
    exact ⟨hd', (release_plain l item g).toExtends.trans hext⟩

/-- A notification leaves the lock and the calls alone. -/
theorem notify_kept (hk : Kept s u) (ha : Agrees s u) (n : Int) :
    Kept (condition_notify s g n) u ∧ Agrees (condition_notify s g n) u := by
  by_cases howner : s.lock.owner = some g
  · have hitems := Condition.notify_items_eq g s.locks (s.waiters.take n.toNat)
      (s.waiters.drop n.toNat)
    rw [List.take_append_drop] at hitems
    simp only [condition_notify, howner, ne_eq, not_true_eq_false, if_false, hitems]
    have hother : ∀ {items : List Sid}, 0 ∉ items →
        counters (Condition.release_all g s.locks items) s.lock.block =
          counters s.locks s.lock.block := by
      intro items hitems
      rw [hk.block]
      exact (Condition.release_all_other g hitems).1
    have hzero : 0 ∉ s.waiters.take n.toNat :=
      fun hmem => hk.waiters 0 (List.mem_of_mem_take hmem) rfl
    obtain ⟨hd, hext⟩ := release_all_deadlines hk.deadlines g (s.waiters.take n.toNat)
    refine ⟨?_, ha.congr rfl (hother hzero) fun _ _ => rfl⟩
    have hlocks := hk.with_locks hd hext (Condition.release_all_frames g _)
    exact ⟨⟨hlocks.inv.suspended, hlocks.inv.waiting, hlocks.inv.restoring⟩, hlocks.deadlines,
      hlocks.block, hlocks.next_pos, fun waiter hw => hk.waiters waiter (List.mem_of_mem_drop hw),
      fun x => ⟨(hlocks.placed x).frame, (hlocks.placed x).own, (hlocks.placed x).muted,
        (hlocks.placed x).unheld, (hlocks.placed x).depth⟩⟩
  · have hsame : condition_notify s g n = s := if_pos howner
    rw [hsame]
    exact ⟨hk, ha⟩

/-- The history after a turn in which the call `r` ended. -/
def ended_count (s : St) (u : Gid → Nat) (r : Option (Gid × Outcome)) : Gid → Nat :=
  match r.filter fun e => s.pc e.1 = .acquiring with
  | some (g, .Py_True) => Function.update u g (u g + 1)
  | _ => u

/-- One greenlet goes on, and the others are suspended as they were. -/
theorem frames_ended {l l' : Locks.St} (h : l'.frames = Function.update l.frames g none) :
    l'.frames g = none ∧ ∀ x, x ≠ g → l'.frames x = l.frames x := by
  constructor
  · rw [h, Function.update_self]
  · intro x hx
    rw [h, Function.update_of_ne hx]

/-- A turn in which the greenlet that goes on has taken a permit. -/
theorem settle_took_kept (hk : Kept s u) (ha : Agrees s u) {l : Locks.St} {f : Frame}
    (hd : Deadlines l) (hext : Extends s.locks.loop l.loop) (hf : s.locks.frames g = some f)
    (hpos : counters s.locks f.self > 0)
    (hframes : l.frames = Function.update s.locks.frames g none)
    (hcounters : counters l =
      Function.update (counters s.locks) f.self (counters s.locks f.self - 1)) :
    Kept (settle s (l, some (g, .Py_True))) (ended_count s u (some (g, .Py_True))) ∧
      Agrees (settle s (l, some (g, .Py_True))) (ended_count s u (some (g, .Py_True))) := by
  have hinv := settle_inv hk.inv (l, some (g, .Py_True))
  obtain ⟨hfree, hothers⟩ := frames_ended hframes
  rcases hpc : s.pc g with _ | _ | ⟨waiter, saved⟩ | ⟨saved, res⟩
  · -- Case: in no call
    rw [(hk.placed g).unframed hpc] at hf
    cases hf
  · -- Case: an `rlock_acquire` takes the permit
    have hself : f.self = s.lock.block :=
      ((hk.placed g).framed (by rw [hpc]; rfl) hf).trans hk.block.symm
    rw [hself] at hpos hcounters
    have hzero : u g = 0 := by
      refine (hk.placed g).unheld (by rw [hpc]; rfl) ?_
      rw [(ha.unowned hpos).1]
      exact fun h => nomatch h
    have hcount : ended_count s u (some (g, .Py_True)) = Function.update u g (u g + 1) := by
      simp only [ended_count, Option.filter_some, hpc, decide_true, if_true]
    rw [hcount]
    simp only [settle, finished, hpc, rlock_acquired] at hinv ⊢
    refine hk.take (n := 1) ha hinv hd hext hpos ?_ rfl rfl rfl hothers hfree ?_ ?_ ?_
      ⟨by decide, ?_⟩
    · simp only [hcounters, Function.update_self]
    · intro x hx
      exact Function.update_of_ne hx _ _
    · exact Function.update_self _ _ _
    · intro x hx
      exact Function.update_of_ne hx _ _
    · rw [Function.update_self, hzero]
      rfl
  · -- Case: a wait was notified
    have hself : f.self = waiter := (hk.placed g).framed (by rw [hpc]; rfl) hf
    have hne : s.lock.block ≠ f.self := by
      rw [hself, hk.block]
      exact ((hk.placed g).own waiter saved hpc).symm
    have hcount : ended_count s u (some (g, .Py_True)) = u := by
      simp [ended_count, hpc]
    rw [hcount]
    simp only [settle, finished, hpc]
    exact restore_kept hk ha hd hext hpc hframes
      (by rw [hcounters, Function.update_of_ne hne]) .Py_True
  · -- Case: a wait has the lock back
    have hself : f.self = s.lock.block :=
      ((hk.placed g).framed (by rw [hpc]; rfl) hf).trans hk.block.symm
    rw [hself] at hpos hcounters
    have hcount : ended_count s u (some (g, .Py_True)) = u := by
      simp [ended_count, hpc]
    rw [hcount]
    simp only [settle, finished, hpc, restored] at hinv ⊢
    refine hk.take (n := saved.count) ha hinv hd hext hpos ?_ ?_ rfl rfl hothers hfree ?_ ?_
      (fun _ _ => rfl) ((hk.placed g).depth saved (by rw [hpc]; rfl))
    · simp only [wait_ended, hcounters, Function.update_self]
    · simp only [wait_ended, hk.inv.restoring g saved res hpc]
    · intro x hx
      exact Function.update_of_ne hx _ _
    · exact Function.update_self _ _ _

/-- A turn in which an exception ended the call of the greenlet that goes on. -/
theorem settle_failed_kept (hk : Kept s u) (ha : Agrees s u) {l : Locks.St} {f : Frame} {e : Exc}
    (hd : Deadlines l) (hext : Extends s.locks.loop l.loop) (hf : s.locks.frames g = some f)
    (hframes : l.frames = Function.update s.locks.frames g none)
    (hcounters : counters l = counters s.locks)
    (hthrown : ∀ saved res, s.pc g ≠ .restoring saved res) :
    Kept (settle s (l, some (g, acquire_raised f.timer e)))
        (ended_count s u (some (g, acquire_raised f.timer e))) ∧
      Agrees (settle s (l, some (g, acquire_raised f.timer e)))
        (ended_count s u (some (g, acquire_raised f.timer e))) := by
  have hinv := settle_inv hk.inv (l, some (g, acquire_raised f.timer e))
  obtain ⟨hfree, hothers⟩ := frames_ended hframes
  rcases hpc : s.pc g with _ | _ | ⟨waiter, saved⟩ | ⟨saved, res⟩
  · -- Case: in no call
    rw [(hk.placed g).unframed hpc] at hf
    cases hf
  · -- Case: an `rlock_acquire` fails
    have hnot := acquire_raised_ne_true f.timer e
    have hcount : ended_count s u (some (g, acquire_raised f.timer e)) = u := by
      simp only [ended_count, Option.filter_some, hpc, decide_true, if_true]
      split
      next heq =>
        simp only [Option.some.injEq, Prod.mk.injEq] at heq
        exact absurd heq.2 hnot
      next => rfl
    have hsettle : settle s (l, some (g, acquire_raised f.timer e)) =
        { s with locks := l, pc := Function.update s.pc g .free } := by
      simp only [settle, finished, hpc, rlock_acquired]
    rw [hsettle] at hinv ⊢
    rw [hcount]
    refine ⟨?_, ha.congr rfl (by simp only [hcounters]) fun _ _ => rfl⟩
    refine hk.park (g := g) hinv hd hext rfl rfl rfl hothers ?_ ?_ ?_ ?_ ?_
    · intro x hx
      exact Function.update_of_ne hx _ _
    · simp only [hfree, Function.update_self]
      rfl
    · intro waiter saved h
      simp only [Function.update_self] at h
      cases h
    · intro saved res h
      simp only [Function.update_self] at h
      cases h
    · simp only [Function.update_self, hpc]
      rfl
  · -- Case: a wait was not notified
    have hcount : ended_count s u (some (g, acquire_raised f.timer e)) = u := by
      simp [ended_count, hpc]
    rw [hcount]
    simp only [settle, finished, hpc]
    exact restore_kept hk ha hd hext hpc hframes (by rw [hcounters]) _
  · -- Case: nobody throws into a wait that is acquiring the lock
    exact absurd hpc (hthrown saved res)

/-- One turn: a greenlet goes on where it was suspended. -/
theorem settle_kept (hk : Kept s u) (ha : Agrees s u) {thrown : Option (Gid × Exc)}
    {r : Locks.St × Option (Gid × Outcome)} (hturn : Turn s.locks thrown r)
    (hd : Deadlines r.1) (hext : Extends s.locks.loop r.1.loop)
    (hthrown : ∀ g e, thrown = some (g, e) → ∀ saved res, s.pc g ≠ .restoring saved res) :
    Kept (settle s r) (ended_count s u r.2) ∧ Agrees (settle s r) (ended_count s u r.2) := by
  cases hturn with
  | quiet hframes hcounters =>
    refine ⟨hk.with_locks hd hext hframes, ha.congr rfl ?_ fun _ _ => rfl⟩
    exact congrFun hcounters _
  | took hf hpos hframes hcounters =>
    exact settle_took_kept hk ha hd hext hf hpos hframes hcounters
  | @failed l g f e hthr hf hframes hcounters =>
    exact settle_failed_kept hk ha hd hext hf hframes hcounters (hthrown g e hthr)

/-! ## Runs -/

/-- The system and its history move together. -/
theorem counted_step {c c' : Counted} {a : Act} (h : c.step a = some c') :
    ∃ s', step c.state a = some s' ∧ c' = ⟨s', count c.state c.unmatched a⟩ := by
  rcases Option.map_eq_some_iff.1 h with ⟨s', hs', rfl⟩
  exact ⟨s', hs', rfl⟩

theorem refuses (s : St) (g : Gid) (h : s.lock.owner ≠ some g) :
    rlock_release_error s g = some "cannot release un-acquired lock" ∧ rlock_release s g = s :=
  ⟨if_pos h, if_pos h⟩

theorem represents_iff {c : Counted} : Represents c ↔ Agrees c.state c.unmatched :=
  ⟨fun h => h.agrees, fun h => ⟨h, fun g hg => refuses c.state g hg⟩⟩

theorem step_represents (c : Counted) (a : Act) (c' : Counted) (h : Counted.step c a = some c')
    (hpre : Uninterrupted c a) (hk : Kept c.state c.unmatched) (ha : Agrees c.state c.unmatched) :
    Kept c'.state c'.unmatched ∧ (Agrees c'.state c'.unmatched ↔ Shallow c a) := by
  obtain ⟨s', hs', rfl⟩ := counted_step h
  have hkeep : ∀ {u' : Gid → Nat}, Shallow c a → Kept s' u' ∧ Agrees s' u' →
      Kept s' u' ∧ (Agrees s' u' ↔ Shallow c a) :=
    fun hok hboth => ⟨hboth.1, iff_of_true hboth.2 hok⟩
  cases step_cases hs' with
  | @acquire g blocking timeout hpc =>
    by_cases howner : c.state.lock.owner = some g
    · have hcount : count c.state c.unmatched (.acquire g blocking timeout) =
          Function.update c.unmatched g (c.unmatched g + 1) := by
        simp only [count, acquired, if_pos howner]
      obtain ⟨hiff, hkept⟩ := reacquire_iff hk ha hpc howner blocking timeout
      simp only [hcount]
      exact ⟨hkept, hiff.trans ⟨fun hlt _ => hlt, fun hok => hok howner⟩⟩
    · exact hkeep (fun hown => absurd hown howner) (acquire_kept hk ha hpc howner blocking timeout)
  | release hpc => exact hkeep trivial (release_kept hk ha hpc)
  | wait hpc => exact hkeep trivial (wait_kept hk ha hpc _)
  | notify hpc => exact hkeep trivial (notify_kept hk ha _)
  | notify_all hpc => exact hkeep trivial (notify_kept hk ha _)
  | @fire waiter r hfire =>
    obtain ⟨hd, hext⟩ := fire_deadlines hk.deadlines hfire
    have hcount : count c.state c.unmatched (.fire waiter) =
        ended_count c.state c.unmatched r.2 := by
      simp only [count, acquired, ended_count, hfire, Option.bind_some]
    simp only [hcount]
    refine hkeep trivial (settle_kept hk ha (turn_fire hfire) hd hext ?_)
    intro g e hexpired saved res hpc
    exact ((hk.placed g).muted saved res hpc).not_expired hk.deadlines e hexpired
  | @due timer loop hloop =>
    have hplain := fire_timers_next_plain hloop
    have hd : Deadlines { c.state.locks with loop := loop } := hk.deadlines.plain hplain rfl
    exact hkeep trivial ⟨hk.with_locks hd hplain.toExtends rfl, ha.congr rfl rfl fun _ _ => rfl⟩
  | @throw g e =>
    obtain ⟨hd, hext⟩ := resume_deadlines hk.deadlines g (.throw e)
    refine hkeep trivial (settle_kept hk ha (turn_throw c.state.locks g e) hd hext ?_)
    intro g' e' hthrown saved res hpc
    cases hthrown
    have hspared : (c.state.pc g).restores = false := hpre
    rw [hpc] at hspared
    cases hspared
  | @switch g =>
    obtain ⟨hd, hext⟩ := resume_deadlines hk.deadlines g (.value .loop_switch_value)
    refine hkeep trivial (settle_kept hk ha (turn_value c.state.locks g _ none) hd hext ?_)
    intro g' e' hthrown
    cases hthrown
  | @call_soon n =>
    have hplain := loop_schedule_call_plain c.state.locks.loop 0 (some (.other n)) none
      (fun _ _ => by simp)
    have hd : Deadlines { c.state.locks with
        loop := (c.state.locks.loop.loop_schedule_call 0 (some (.other n)) none).1 } :=
      hk.deadlines.plain hplain rfl
    exact hkeep trivial ⟨hk.with_locks hd hplain.toExtends rfl, ha.congr rfl rfl fun _ _ => rfl⟩

/-- The fields of the lock agree all along a run exactly if its owner never
acquires once more at a depth of 2^32 - 1. -/
theorem represents_iff_shallow {as : List Act} {t : Counted}
    (h : Trace.run Counted.step Counted.init as = some t)
    (hpre : Trace.Steps Counted.step Uninterrupted Counted.init as) :
    Trace.Always Counted.step Represents Counted.init as ↔
      Trace.Steps Counted.step Shallow Counted.init as := by
  have hinv : ∀ (c : Counted) a c', Counted.step c a = some c' → Uninterrupted c a →
      Shallow c a → Kept c.state c.unmatched → Represents c → Kept c'.state c'.unmatched :=
    fun c a c' hs hpre _ hk hr => (step_represents c a c' hs hpre hk hr.agrees).1
  refine Trace.always_iff_steps_of hinv (fun c a c' hs hpre hk hr => ?_) init_kept
    (represents_iff.2 init_agrees) hpre h
  rw [represents_iff]
  exact (step_represents c a c' hs hpre hk hr.agrees).2

/-- Two greenlets and a wait at depth two, which one of them interrupts before
it is notified. -/
def sharedRun : List Act :=
  [.acquire 1 true 0, .acquire 1 true 0, .wait 1 5, .acquire 2 true 0, .throw 1 (.other 0),
    .release 2, .release 2, .fire 0, .fire 1, .release 1, .release 1, .release 2]

theorem represents_iff_shallow_shared :
    Trace.Always Counted.step Represents Counted.init sharedRun ↔
      Trace.Steps Counted.step Shallow Counted.init sharedRun := by
  obtain ⟨t, ht, _⟩ := Trace.run_any
    (p := fun t : Counted => decide (t.state.lock = ⟨0, 0, none⟩))
    (by decide : (Trace.run Counted.step Counted.init sharedRun).any _ = true)
  exact represents_iff_shallow ht (by decide)

/-- The owner can acquire any number of times, and its depth wraps. -/
theorem reacquired (n : Nat) : ∃ c, Trace.run Counted.step Counted.init
    (List.replicate (n + 1) (.acquire 1 true 0)) = some c ∧ c.state.pc 1 = .free ∧
      c.state.lock.owner = some 1 ∧ c.state.lock.count.toNat = (n + 1) % 2 ^ 32 := by
  induction n with
  | zero =>
    obtain ⟨c, hc, hcheck⟩ := Trace.run_any
      (p := fun c : Counted => decide (c.state.pc 1 = .free ∧ c.state.lock.owner = some 1 ∧
        c.state.lock.count.toNat = 1))
      (by decide : (Trace.run Counted.step Counted.init [.acquire 1 true 0]).any _ = true)
    rw [decide_eq_true_eq] at hcheck
    exact ⟨c, hc, hcheck⟩
  | succ n ih =>
    obtain ⟨c, hc, hpc, howner, hcount⟩ := ih
    have hacquire : rlock_acquire c.state 1 true 0 =
        { c.state with lock := { c.state.lock with count := c.state.lock.count + 1 } } := by
      rw [rlock_acquire, if_pos howner]
    let c' : Counted :=
      ⟨rlock_acquire c.state 1 true 0, count c.state c.unmatched (.acquire 1 true 0)⟩
    have hstep : Counted.step c (.acquire 1 true 0) = some c' := by
      simp only [Counted.step, step, if_pos hpc, Option.map_some]
      rfl
    refine ⟨c', ?_, ?_, ?_, ?_⟩
    · rw [List.replicate_succ', Trace.run_append]
      exact ⟨c, hc, Trace.run_cons_iff.2 ⟨c', hstep, rfl⟩⟩
    · simp only [c', hacquire]
      exact hpc
    · simp only [c', hacquire]
      exact howner
    · have hone : (1 : UInt32).toNat = 1 := rfl
      simp only [c', hacquire, UInt32.toNat_add, hcount, hone]
      omega

/-- After 2^32 acquires the owner has a depth of zero. -/
theorem depth_wraps : ∃ c, Trace.run Counted.step Counted.init
    (List.replicate (2 ^ 32) (.acquire 1 true 0)) = some c ∧ c.state.lock.owner = some 1 ∧
      c.state.lock.count = 0 ∧ ¬ Represents c := by
  obtain ⟨c, hc, _, howner, hcount⟩ := reacquired (2 ^ 32 - 1)
  have hzero : c.state.lock.count = 0 := UInt32.toNat_inj.1 (by rw [hcount]; rfl)
  refine ⟨c, hc, howner, hzero, fun hr => ?_⟩
  cases hr.agrees with
  | free hnone _ _ =>
    rw [hnone] at howner
    cases howner
  | owned _ hpos _ _ =>
    rw [hzero] at hpos
    exact absurd hpos (by decide)

end Jega.Locks.RLock
