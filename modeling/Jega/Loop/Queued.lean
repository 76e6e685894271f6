import Jega.Loop.Model
import Mathlib.Data.List.Count

/-!
# Jega.Loop.Queued — what the entries of the queue will do

Firing a handle leaves it as it was, so what it does is known while it is
queued (`target`). The proofs about wake-ups count the entries of the queue by
what they are aimed at (`queued`).
-/

namespace Jega.LoopObject

variable {κ : Type}

/-! ## What an entry is aimed at -/

/-- What firing the handle `h` is aimed at, whether or not the greenlet is
still alive. Timers are not counted: they fire once. -/
def target (self : LoopObject κ) (h : Hid) : Fired κ :=
  match (self.handles h).type with
  | .Handle => (fire_handle (fun _ => false) (self.handles h)).2
  | .Timer => .nothing

/-- Only handles are aimed at anything. -/
theorem target_handle {self : LoopObject κ} {h : Hid} (ht : self.target h ≠ .nothing) :
    (self.handles h).type = .Handle := by
  unfold target at ht
  cases htype : (self.handles h).type with
  | Handle => rfl
  | Timer => simp [htype] at ht

theorem target_congr {self l : LoopObject κ} (h : l.handles = self.handles) (h' : Hid) :
    l.target h' = self.target h' := by
  simp [target, h]

theorem target_make_handle_lt {self : LoopObject κ} {seconds : Nat} {cb : Option κ}
    {g : Option Gid} {h : Hid} (hlt : h < self.next) :
    (self.make_handle seconds cb g).1.target h = self.target h := by
  have hne : h ≠ self.next := Nat.ne_of_lt hlt
  simp [make_handle, target, Function.update_of_ne hne]

@[simp] theorem schedule_timer_handles (self : LoopObject κ) (o : Hid) :
    (self.schedule_timer o).handles = self.handles := by
  unfold schedule_timer
  split
  · split <;> rfl
  · rfl

@[simp] theorem schedule_timer_next (self : LoopObject κ) (o : Hid) :
    (self.schedule_timer o).next = self.next := by
  unfold schedule_timer
  split
  · split <;> rfl
  · rfl

theorem schedule_timer_pendings {self : LoopObject κ} {o : Hid} (ho : o < self.next)
    (htype : (self.handles o).type = .Handle) :
    (self.schedule_timer o).pendings = self.pendings ++ [o] := by
  unfold schedule_timer
  rw [dif_pos ho]
  split
  · rfl
  · next h =>
      rw [htype] at h
      cases h

/-- What the handle of a call with no delay is aimed at. -/
def aim (cb : Option κ) (g : Option Gid) : Fired κ :=
  match g, cb with
  | some g, _ => .switch g
  | none, some k => .call k
  | none, none => .nothing

@[simp] theorem aim_call (k : κ) : aim (some k) none = .call k := rfl

@[simp] theorem aim_switch (cb : Option κ) (g : Gid) : aim cb (some g) = .switch g := by
  cases cb <;> rfl

theorem target_make_handle_self (self : LoopObject κ) (cb : Option κ) (g : Option Gid) :
    (self.make_handle 0 cb g).1.target self.next = aim cb g := by
  cases g <;> cases cb <;> simp [make_handle, target, fire_handle, HandleObject.invoke, aim]

/-- Firing a handle does what it was aimed at, unless that is a switch into a
dead greenlet, and leaves the handle as it was. -/
theorem fire_handle_spec (self : LoopObject κ) {item : Hid} (dead : Gid → Bool)
    (htype : (self.handles item).type = .Handle) :
    fire_handle dead (self.handles item) = (self.handles item,
      match self.target item with
      | .switch g => if dead g then .nothing else .switch g
      | t => t) := by
  unfold target
  rw [htype]
  generalize self.handles item = handle
  obtain ⟨type, callback, greenlet, called, cancelled⟩ := handle
  cases cancelled <;> cases called <;> cases greenlet <;> cases callback <;>
    simp [fire_handle, HandleObject.invoke] <;> cases dead _ <;> simp

theorem fire_timer_type (dead : Gid → Bool) (timer : HandleObject κ) :
    (fire_timer dead timer).1.type = timer.type := by
  unfold fire_timer
  split
  · rfl
  · split <;> rfl

/-- A delayed call goes to the heap. -/
theorem loop_schedule_call_pendings (self : LoopObject κ) {seconds : Nat} (hs : 0 < seconds)
    (cb : Option κ) (g : Option Gid) :
    (self.loop_schedule_call seconds cb g).1.pendings = self.pendings := by
  have ho : self.next < (self.make_handle seconds cb g).1.next := by
    simp [make_handle]
  have htype : ((self.make_handle seconds cb g).1.handles self.next).type = .Timer := by
    simp [make_handle, hs]
  show ((self.make_handle seconds cb g).1.schedule_timer self.next).pendings = self.pendings
  unfold schedule_timer
  rw [dif_pos ho]
  split
  next h =>
    rw [htype] at h
    cases h
  · rfl

theorem target_cancel_self (self : LoopObject κ) (timer : Hid) :
    (self.cancel timer).target timer = .nothing := by
  unfold target
  cases htype : ((self.cancel timer).handles timer).type with
  | Handle => simp [cancel, fire_handle]
  | Timer => rfl

theorem target_cancel_of_ne {self : LoopObject κ} {timer h : Hid} (hne : h ≠ timer) :
    (self.cancel timer).target h = self.target h := by
  simp [cancel, target, Function.update_of_ne hne]

theorem loop_schedule_call_handles (self : LoopObject κ) (seconds : Nat) (cb : Option κ)
    (g : Option Gid) :
    (self.loop_schedule_call seconds cb g).1.handles = (self.make_handle seconds cb g).1.handles :=
  schedule_timer_handles _ _

theorem loop_schedule_call_next (self : LoopObject κ) (seconds : Nat) (cb : Option κ)
    (g : Option Gid) : (self.loop_schedule_call seconds cb g).1.next = self.next + 1 :=
  schedule_timer_next _ _

@[simp] theorem loop_set_timeout_next (self : LoopObject κ) (seconds : Nat)
    (throw : Option Tid → κ) : (self.loop_set_timeout seconds throw).1.next = self.next + 1 := by
  by_cases hs : seconds = 0
  · simp only [loop_set_timeout, if_pos hs]
    exact loop_schedule_call_next _ _ _ _
  · simp only [loop_set_timeout, if_neg hs]
    exact loop_schedule_call_next _ _ _ _

/-- The timer of a deadline is aimed at nothing: it is cancelled, or no handle. -/
theorem target_loop_set_timeout_self (self : LoopObject κ) (seconds : Nat)
    (throw : Option Tid → κ) :
    (self.loop_set_timeout seconds throw).1.target self.next = .nothing := by
  by_cases hs : seconds = 0
  · subst hs
    exact target_cancel_self _ _
  · have hpos : 0 < seconds := Nat.pos_of_ne_zero hs
    simp only [loop_set_timeout, if_neg hs]
    rw [target_congr (loop_schedule_call_handles _ _ _ _)]
    simp [target, make_handle, hpos]

theorem target_loop_set_timeout_lt {self : LoopObject κ} {h : Hid} (hlt : h < self.next)
    (seconds : Nat) (throw : Option Tid → κ) :
    (self.loop_set_timeout seconds throw).1.target h = self.target h := by
  have hne : h ≠ self.next := Nat.ne_of_lt hlt
  have hcall : ∀ cb, (self.loop_schedule_call seconds cb none).1.target h = self.target h := by
    intro cb
    rw [target_congr (loop_schedule_call_handles _ _ _ _), target_make_handle_lt hlt]
  by_cases hs : seconds = 0
  · simp only [loop_set_timeout, if_pos hs]
    exact (target_cancel_of_ne hne).trans (hcall _)
  · simp only [loop_set_timeout, if_neg hs]
    exact hcall _

/-! ## Counting queued entries -/

variable [DecidableEq κ]

/-- How many queued entries are handles aimed at `t`. -/
def queued (self : LoopObject κ) (t : Fired κ) : Nat :=
  self.pendings.countP fun h => self.target h = t

/-- Allocating an object does not touch the queue. -/
theorem queued_make_handle (self : LoopObject κ) (seconds : Nat) (cb : Option κ)
    (g : Option Gid) (t : Fired κ) :
    (self.make_handle seconds cb g).1.queued t = self.queued t := by
  unfold queued
  apply List.countP_congr
  intro h hh
  rw [target_make_handle_lt (self.pendings_lt h hh)]

/-- Queueing a handle once more counts one for what it is aimed at. -/
theorem queued_schedule_timer {self : LoopObject κ} {o : Hid} (ho : o < self.next)
    (htype : (self.handles o).type = .Handle) (t : Fired κ) :
    (self.schedule_timer o).queued t = self.queued t + if self.target o = t then 1 else 0 := by
  have htarget : ∀ h, (self.schedule_timer o).target h = self.target h :=
    target_congr (schedule_timer_handles self o)
  simp only [queued, htarget, schedule_timer_pendings ho htype, List.countP_append,
    List.countP_singleton, decide_eq_true_eq]

/-- A call with no delay queues one entry aimed at its greenlet or callback. -/
theorem queued_loop_schedule_call (self : LoopObject κ) (cb : Option κ) (g : Option Gid)
    (t : Fired κ) :
    (self.loop_schedule_call 0 cb g).1.queued t = self.queued t + if aim cb g = t then 1 else 0 := by
  have ho : self.next < (self.make_handle 0 cb g).1.next := by
    simp [make_handle]
  have htype : ((self.make_handle 0 cb g).1.handles self.next).type = .Handle := by
    simp [make_handle]
  have h := queued_schedule_timer ho htype t
  rw [target_make_handle_self, queued_make_handle] at h
  exact h

/-- Cancelling an entry changes the count of nothing else. -/
theorem queued_cancel {self : LoopObject κ} {timer : Hid} {t : Fired κ}
    (ht : self.target timer ≠ t) (hn : t ≠ .nothing) :
    (self.cancel timer).queued t = self.queued t := by
  unfold queued
  apply List.countP_congr
  intro h _
  by_cases hh : h = timer
  · subst hh
    simp [target_cancel_self, ht, Ne.symm hn]
  · rw [target_cancel_of_ne hh]

/-- Setting a deadline queues no other call. -/
theorem queued_loop_set_timeout (self : LoopObject κ) (seconds : Nat) {throw : Option Tid → κ}
    {t : Fired κ} (ht : ∀ timer, .call (throw timer) ≠ t) (hn : t ≠ .nothing) :
    (self.loop_set_timeout seconds throw).1.queued t = self.queued t := by
  by_cases hs : seconds = 0
  · subst hs
    have htarget : (self.loop_schedule_call 0 (some (throw none)) none).1.target self.next =
        .call (throw none) := by
      show ((self.make_handle 0 (some (throw none)) none).1.schedule_timer self.next).target
        self.next = .call (throw none)
      rw [target_congr (schedule_timer_handles _ _), target_make_handle_self, aim_call]
    have hcancel := queued_cancel (by rw [htarget]; exact ht none) hn
    have hcall := queued_loop_schedule_call self (some (throw none)) none t
    rw [aim_call, if_neg (ht none), Nat.add_zero] at hcall
    exact hcancel.trans hcall
  · have hpos : 0 < seconds := Nat.pos_of_ne_zero hs
    have hhandles : (self.loop_schedule_call seconds (some (throw (some self.next))) none).1.handles =
        (self.make_handle seconds (some (throw (some self.next))) none).1.handles :=
      schedule_timer_handles _ _
    have hpend := loop_schedule_call_pendings self hpos (some (throw (some self.next))) none
    have hqueued := queued_make_handle self seconds (some (throw (some self.next))) none t
    simp only [loop_set_timeout, if_pos hpos, if_neg hs]
    rw [← hqueued]
    unfold queued
    rw [hpend]
    apply List.countP_congr
    intro h _
    rw [target_congr hhandles]

/-- A round of `fire_pendings` takes the head off the queue and changes no
other count. A handle does what it was aimed at. -/
theorem fire_pendings_next_spec {self l : LoopObject κ} {dead : Gid → Bool} {eff : Fired κ}
    (h : self.fire_pendings_next dead = some (l, eff)) :
    ∃ item, self.pendings = item :: l.pendings ∧ self.state ≠ .L_STOP ∧ l.state = self.state ∧
      l.next = self.next ∧ l.scheduled = self.scheduled ∧
      (∀ h', l.target h' = self.target h') ∧
      (∀ t, self.queued t = l.queued t + if self.target item = t then 1 else 0) ∧
      (∀ k, self.target item = .call k → eff = .call k) ∧
      (∀ g, self.target item = .switch g → eff = if dead g then .nothing else .switch g) := by
  unfold fire_pendings_next at h
  split at h
  · cases h
  next hrun =>
    split at h
    · cases h
    next item rest hp =>
      rw [Option.some.injEq, Prod.mk.injEq] at h
      obtain ⟨hl, heff⟩ := h
      have hpend : l.pendings = rest := by rw [← hl]
      have htarget : ∀ h', l.target h' = self.target h' := by
        intro h'
        rw [← hl]
        by_cases hh : h' = item
        · subst hh
          cases htype : (self.handles h').type with
          | Handle => simp [target, htype, fire_handle_spec self dead htype]
          | Timer => simp [target, htype, fire_timer_type]
        · simp [target, Function.update_of_ne hh]
      refine ⟨item, by rw [hp, hpend], hrun, by rw [← hl], by rw [← hl], by rw [← hl],
        htarget, ?_, ?_, ?_⟩
      · intro t
        simp only [queued, htarget, hp, hpend, List.countP_cons, decide_eq_true_eq]
      · intro k hk
        have htype := target_handle (fun hn => by rw [hk] at hn; cases hn)
        rw [← heff, htype]
        simp only [fire_handle_spec self dead htype, hk]
      · intro g hg
        have htype := target_handle (fun hn => by rw [hg] at hn; cases hn)
        rw [← heff, htype]
        simp only [fire_handle_spec self dead htype, hg]

omit [DecidableEq κ] in
theorem fire_timers_next_eq {self l : LoopObject κ} {timer : Hid}
    (h : self.fire_timers_next timer = some l) :
    timer ∈ self.scheduled ∧ l.pendings = self.pendings ++ [timer] ∧ l.handles = self.handles ∧
      l.next = self.next ∧ l.scheduled = self.scheduled.erase timer ∧ l.state = self.state := by
  unfold fire_timers_next at h
  split at h
  next hm =>
    rw [Option.some.injEq] at h
    rw [← h]
    exact ⟨hm, rfl, rfl, rfl, rfl, rfl⟩
  · cases h

/-- A due timer joins the queue, which loses nothing. -/
theorem queued_fire_timers_next {self l : LoopObject κ} {timer : Hid}
    (h : self.fire_timers_next timer = some l) (t : Fired κ) : self.queued t ≤ l.queued t := by
  rcases fire_timers_next_eq h with ⟨_, hpend, hhandles, _⟩
  have htarget : ∀ h, l.target h = self.target h := target_congr hhandles
  simp only [queued, htarget, hpend, List.countP_append]
  omega

/-! ## Loops that lose nothing -/

/-- From `l` to `l'`, objects and entries were only added. -/
structure Grows (l l' : LoopObject κ) : Prop where
  next_le : l.next ≤ l'.next
  target : ∀ h < l.next, l'.target h = l.target h
  queued : ∀ t, l.queued t ≤ l'.queued t

theorem Grows.refl (self : LoopObject κ) : self.Grows self :=
  ⟨Nat.le_refl _, fun _ _ => rfl, fun _ => Nat.le_refl _⟩

theorem Grows.trans {l₁ l₂ l₃ : LoopObject κ} (h₁ : l₁.Grows l₂) (h₂ : l₂.Grows l₃) :
    l₁.Grows l₃ where
  next_le := Nat.le_trans h₁.next_le h₂.next_le
  target := fun h hh =>
    (h₂.target h (Nat.lt_of_lt_of_le hh h₁.next_le)).trans (h₁.target h hh)
  queued := fun t => Nat.le_trans (h₁.queued t) (h₂.queued t)

theorem grows_state (self : LoopObject κ) (state : loop_state) :
    self.Grows { self with state := state } :=
  ⟨Nat.le_refl _, fun _ _ => rfl, fun _ => Nat.le_refl _⟩

theorem grows_loop_schedule_call (self : LoopObject κ) (seconds : Nat) (cb : Option κ)
    (g : Option Gid) : self.Grows (self.loop_schedule_call seconds cb g).1 where
  next_le := by
    rw [loop_schedule_call_next]
    exact Nat.le_succ self.next
  target := by
    intro h hh
    rw [target_congr (loop_schedule_call_handles self seconds cb g), target_make_handle_lt hh]
  queued := by
    intro t
    by_cases hs : seconds = 0
    · subst hs
      rw [queued_loop_schedule_call]
      omega
    · -- a delayed call leaves the queue as it is
      have hpend := loop_schedule_call_pendings self (Nat.pos_of_ne_zero hs) cb g
      have htarget := target_congr (loop_schedule_call_handles self seconds cb g)
      have hq := queued_make_handle self seconds cb g t
      rw [← hq]
      unfold queued
      rw [hpend]
      simp only [htarget]
      exact Nat.le_refl _

theorem grows_schedule_timer {self : LoopObject κ} {o : Hid} {t : Fired κ} (ho : o < self.next)
    (ht : self.target o = t) (hn : t ≠ .nothing) : self.Grows (self.schedule_timer o) where
  next_le := Nat.le_of_eq (schedule_timer_next self o).symm
  target := fun h _ => target_congr (schedule_timer_handles self o) h
  queued := by
    intro t'
    rw [queued_schedule_timer ho (target_handle (ht ▸ hn))]
    omega

theorem grows_fire_timers_next {self l : LoopObject κ} {timer : Hid}
    (h : self.fire_timers_next timer = some l) : self.Grows l := by
  rcases fire_timers_next_eq h with ⟨-, -, hhandles, hnext, -⟩
  exact ⟨Nat.le_of_eq hnext.symm, fun h' _ => target_congr hhandles h',
    queued_fire_timers_next h⟩

omit [DecidableEq κ] in
/-- A handle that is aimed at something was not called. -/
theorem called_of_target {self : LoopObject κ} {h : Hid} (ht : self.target h ≠ .nothing) :
    (self.handles h).called = false := by
  have htype := target_handle ht
  unfold target at ht
  simp only [htype, fire_handle] at ht
  cases hcalled : (self.handles h).called with
  | false => rfl
  | true => simp [hcalled] at ht

end Jega.LoopObject
