import Jega.Channel.Model
import Jega.Loop.Queued

/-!
# Jega.Channel.Steps — what each operation can do

One inversion lemma for each function of `Jega.Channel.Model`, and what the
functions leave alone. The invariants of the channel are derived from these.
-/

namespace Jega.Channel

/-! ## Resuming a greenlet -/

/-- The two states differ in where the greenlets are, in what `recv` returned and
in the state of the loop at most. -/
structure Same (s s' : St) : Prop where
  chans : s'.chans = s.chans
  queued : ∀ t, s'.loop.queued t = s.loop.queued t
  dead : s'.dead = s.dead
  frame : s'.frame = s.frame
  nextMsg : s'.nextMsg = s.nextMsg
  accepted : s'.accepted = s.accepted
  handed : s'.handed = s.handed

theorem Same.refl (s : St) : Same s s := ⟨rfl, fun _ => rfl, rfl, rfl, rfl, rfl, rfl⟩

theorem Same.trans {s s' s'' : St} (h : Same s s') (h' : Same s' s'') : Same s s'' :=
  ⟨h'.chans.trans h.chans, fun t => (h'.queued t).trans (h.queued t), h'.dead.trans h.dead,
    h'.frame.trans h.frame, h'.nextMsg.trans h.nextMsg, h'.accepted.trans h.accepted,
    h'.handed.trans h.handed⟩

section Frame

variable (s : St) (g : Gid) (c : Cid) (r : Resumption)

theorem set_state_same (state : loop_state) : Same s (set_state s state) :=
  ⟨rfl, fun _ => rfl, rfl, rfl, rfl, rfl, rfl⟩

theorem run_loop_same : Same s (run_loop s) := ⟨rfl, fun _ => rfl, rfl, rfl, rfl, rfl, rfl⟩

theorem end_loop_same : Same s (end_loop s) := ⟨rfl, fun _ => rfl, rfl, rfl, rfl, rfl, rfl⟩

theorem note_left_same : Same s (note_left s g c) := ⟨rfl, fun _ => rfl, rfl, rfl, rfl, rfl, rfl⟩

theorem loop_switch_same : Same s (loop_switch s g c) := by
  unfold loop_switch
  split
  · exact ⟨rfl, fun _ => rfl, rfl, rfl, rfl, rfl, rfl⟩
  · exact ⟨rfl, fun _ => rfl, rfl, rfl, rfl, rfl, rfl⟩

theorem resume_same : Same s (resume s g r) := by
  unfold resume
  split
  · exact .refl s
  next c _ =>
    split
    · exact loop_switch_same s g c
    · exact ⟨rfl, fun _ => rfl, rfl, rfl, rfl, rfl, rfl⟩
  · exact ⟨rfl, fun _ => rfl, rfl, rfl, rfl, rfl, rfl⟩
  · exact ⟨rfl, fun _ => rfl, rfl, rfl, rfl, rfl, rfl⟩

theorem leave_same : Same s (leave s g r) := by
  unfold leave
  split
  · exact note_left_same s g _
  · exact note_left_same s g _
  · exact .refl s

/-- Resumed from outside a `_notify`, or by its second switch. -/
theorem resume_leave_same : Same s (resume (leave s g r) g r) :=
  (leave_same s g r).trans (resume_same _ g r)

@[simp] theorem resume_chans : (resume s g r).chans = s.chans := (resume_same s g r).chans

@[simp] theorem resume_queued (t : Fired Callback) :
    (resume s g r).loop.queued t = s.loop.queued t := (resume_same s g r).queued t

@[simp] theorem resume_dead : (resume s g r).dead = s.dead := (resume_same s g r).dead

@[simp] theorem resume_frame : (resume s g r).frame = s.frame := (resume_same s g r).frame

@[simp] theorem resume_nextMsg : (resume s g r).nextMsg = s.nextMsg := (resume_same s g r).nextMsg

@[simp] theorem resume_accepted : (resume s g r).accepted = s.accepted :=
  (resume_same s g r).accepted

@[simp] theorem resume_handed : (resume s g r).handed = s.handed := (resume_same s g r).handed

@[simp] theorem leave_chans : (leave s g r).chans = s.chans := (leave_same s g r).chans

@[simp] theorem leave_queued (t : Fired Callback) :
    (leave s g r).loop.queued t = s.loop.queued t := (leave_same s g r).queued t

@[simp] theorem leave_dead : (leave s g r).dead = s.dead := (leave_same s g r).dead

@[simp] theorem leave_frame : (leave s g r).frame = s.frame := (leave_same s g r).frame

@[simp] theorem leave_nextMsg : (leave s g r).nextMsg = s.nextMsg := (leave_same s g r).nextMsg

@[simp] theorem leave_accepted : (leave s g r).accepted = s.accepted :=
  (leave_same s g r).accepted

@[simp] theorem leave_handed : (leave s g r).handed = s.handed := (leave_same s g r).handed

@[simp] theorem leave_loc : (leave s g r).loc = s.loc := by
  unfold leave
  split <;> rfl

@[simp] theorem leave_alive : (leave s g r).alive = s.alive := by
  unfold leave
  split <;> rfl

@[simp] theorem leave_returned : (leave s g r).returned = s.returned := by
  unfold leave
  split <;> rfl

end Frame

/-- Where a resumed greenlet stands next, as far as channels are concerned: in no
channel operation, or in the switch of the `recv` that `start_loop` has returned
to. -/
def next_loc (s : St) (g : Gid) (r : Resumption) : Where :=
  match s.loc g, r with
  | .start c, .value _ => if s.alive then .recv c else .other
  | _, _ => .other

theorem resume_loc (s : St) (g : Gid) (r : Resumption) :
    (resume s g r).loc = Function.update s.loc g (next_loc s g r) := by
  cases hl : s.loc g with
  | other =>
    simp only [resume, next_loc, hl]
    rw [← hl, Function.update_eq_self]
  | start c =>
    cases r with
    | value v =>
      simp only [resume, next_loc, hl, loop_switch]
      split <;> rfl
    | throw e => simp only [resume, next_loc, hl]
  | recv c => simp only [resume, next_loc, hl]
  | send c m => simp only [resume, next_loc, hl]

theorem next_loc_congr {s s' : St} (hl : s'.loc = s.loc) (ha : s'.alive = s.alive) (g : Gid)
    (r : Resumption) : next_loc s' g r = next_loc s g r := by
  simp only [next_loc, hl, ha]

/-- A greenlet that is resumed is in no `send` afterwards. -/
theorem next_loc_ne_send (s : St) (g : Gid) (r : Resumption) (c : Cid) (m : Mid) :
    next_loc s g r ≠ .send c m := by
  unfold next_loc
  split
  · split <;> exact Where.noConfusion
  · exact Where.noConfusion

/-- It is not suspended in `start_loop` either. -/
theorem next_loc_ne_start (s : St) (g : Gid) (r : Resumption) (c : Cid) :
    next_loc s g r ≠ .start c := by
  unfold next_loc
  split
  · split <;> exact Where.noConfusion
  · exact Where.noConfusion

/-- It is in a `recv` exactly if `start_loop` has returned to that. -/
theorem next_loc_eq_recv {s : St} {g : Gid} {r : Resumption} {c : Cid} :
    next_loc s g r = .recv c ↔ s.loc g = .start c ∧ s.alive = true ∧ ∃ v, r = .value v := by
  unfold next_loc
  cases hl : s.loc g with
  | start c' =>
    cases r with
    | value v => by_cases ha : s.alive = true <;> simp [ha]
    | throw e => simp
  | other => simp
  | recv c' => simp
  | send c' m => simp

/-- What the `recv` of `g` on `c` returns when `g` is resumed with `v`, if it
returns: the value, or `None` out of a loop that has ended. -/
def answer (s : St) (g : Gid) (v : PyObj) (c : Cid) : Option PyObj :=
  if s.loc g = .recv c then some v
  else if s.loc g = .start c ∧ s.alive = false then some .None
  else none

theorem resume_returned (s : St) (g : Gid) (v : PyObj) (c : Cid) :
    (resume s g (.value v)).returned c = s.returned c ++ (answer s g v c).toList := by
  cases hl : s.loc g with
  | other => simp [resume, answer, hl]
  | send c' m => simp [resume, answer, hl]
  | recv c' =>
    by_cases hc : c = c'
    · subst hc
      simp [resume, answer, hl]
    · simp [resume, answer, hl, hc, Ne.symm hc]
  | start c' =>
    by_cases ha : s.alive = true
    · simp [resume, answer, hl, loop_switch, ha]
    · by_cases hc : c = c'
      · subst hc
        simp [resume, answer, hl, loop_switch, ha, note_left]
      · simp [resume, answer, hl, loop_switch, ha, note_left, hc, Ne.symm hc]

/-- A throw makes no `recv` return. -/
theorem resume_throw_returned (s : St) (g : Gid) (e : Exc) :
    (resume s g (.throw e)).returned = s.returned := by
  unfold resume
  split <;> rfl

/-! ## `notify_to_loop` -/

/-- `notify_to_loop` takes a branch that schedules a call: no handle is cached,
or the cached one is marked `called`. -/
def Reschedules (s : St) (c : Cid) : Prop :=
  ∀ h, (s.chans c).handle = some h → (s.loop.handles h).called = true

theorem notify_to_loop_cases (s : St) (c : Cid) :
    (Reschedules s c ∧ notify_to_loop s c = schedule_notify s c) ∨
      (¬ Reschedules s c ∧ notify_to_loop s c = s) := by
  unfold notify_to_loop Reschedules
  cases hh : (s.chans c).handle with
  | none =>
    left
    simp
  | some handle =>
    by_cases hc : (s.loop.handles handle).called = true
    · left
      simp [hc]
    · right
      simp [hc]

/-- `notify_to_loop` touches the handle of its channel and the loop only. -/
theorem notify_to_loop_eq (s : St) (c : Cid) :
    ∃ h, notify_to_loop s c =
      { s with
        loop := (notify_to_loop s c).loop
        chans := Function.update s.chans c { s.chans c with handle := h } } := by
  rcases notify_to_loop_cases s c with ⟨_, h⟩ | ⟨_, h⟩
  · rw [h]
    exact ⟨_, rfl⟩
  · rw [h]
    exact ⟨(s.chans c).handle, by simp⟩

/-- A `_notify` call for `c` is added exactly when `notify_to_loop` schedules,
and nothing leaves the queue. -/
theorem notify_to_loop_queued (s : St) (c : Cid) (t : Fired Callback) :
    s.loop.queued t ≤ (notify_to_loop s c).loop.queued t ∧
      (Reschedules s c → 0 < (notify_to_loop s c).loop.queued (.call (.notify c))) ∧
      (¬ Reschedules s c → (notify_to_loop s c).loop = s.loop) := by
  rcases notify_to_loop_cases s c with ⟨hr, h⟩ | ⟨hr, h⟩
  · -- Case: a call is scheduled
    rw [h]
    refine ⟨?_, fun _ => ?_, fun hn => absurd hr hn⟩
    · simp only [schedule_notify, LoopObject.queued_loop_schedule_call]
      omega
    · simp [schedule_notify, LoopObject.queued_loop_schedule_call]
  · -- Case: "Not yet calll notify"
    rw [h]
    exact ⟨le_refl _, fun hy => absurd hy hr, fun _ => rfl⟩

/-! ## `send` and `recv` -/

/-- The channel after an accepted `send`, before `notify_to_loop`. -/
def pushed (s : St) (c : Cid) (msg : channel_msg_t) : St :=
  { s with
    nextMsg := s.nextMsg + 1
    chans := Function.update s.chans c { s.chans c with pendings := (s.chans c).pendings ++ [msg] }
    accepted := Function.update s.accepted c (s.accepted c ++ [msg]) }

/-- What `send` leaves to the state behind `notify_to_loop`: the caller's place, and
the state of a loop that it runs. -/
structure Sent (m : St) (g : Gid) (c : Cid) (msg : Mid) (s' : St) : Prop where
  same : Same m s'
  returned : s'.returned = m.returned
  left : s'.left = m.left
  loc : s'.loc = m.loc ∨ s'.loc = Function.update m.loc g (.send c msg)

/-- `send` refuses on a full queue, and otherwise queues the message, asks for
a `_notify` and returns or blocks. -/
theorem send_cases (s : St) (g : Gid) (c : Cid) (data : PyObj) :
    ((s.chans c).max ≤ (s.chans c).pendings.length ∧
        ChannelObject_send s g c data = { s with nextMsg := s.nextMsg + 1 }) ∨
      ((s.chans c).pendings.length < (s.chans c).max ∧
        Sent (notify_to_loop (pushed s c (make_chan_msg s g data)) c) g c s.nextMsg
          (ChannelObject_send s g c data)) := by
  by_cases hfull : (s.chans c).pendings.length < (s.chans c).max
  · -- Case: there is room
    right
    refine ⟨hfull, ?_⟩
    have hpush : queue_push_noext { s with nextMsg := s.nextMsg + 1 } c (make_chan_msg s g data) =
        some (pushed s c (make_chan_msg s g data)) := if_pos hfull
    have hsize : ((pushed s c (make_chan_msg s g data)).chans c).pendings.length > 0 := by
      simp [pushed]
    simp only [ChannelObject_send, hpush, if_pos hsize]
    split
    · split
      · -- the caller blocks
        exact ⟨⟨rfl, fun _ => rfl, rfl, rfl, rfl, rfl, rfl⟩, rfl, rfl, Or.inr rfl⟩
      · exact ⟨run_loop_same _, rfl, rfl, Or.inl rfl⟩
    · exact ⟨.refl _, rfl, rfl, Or.inl rfl⟩
  · -- Case: "channel buffer overflow"
    left
    have hpush : queue_push_noext { s with nextMsg := s.nextMsg + 1 } c (make_chan_msg s g data) =
        none := if_neg hfull
    simp only [ChannelObject_send, hpush]
    exact ⟨Nat.le_of_not_lt hfull, trivial⟩

/-- `notify_to_loop` behind the push changes neither messages nor places. -/
theorem notify_to_loop_pushed (s : St) (c : Cid) (msg : channel_msg_t) :
    (∀ c', ((notify_to_loop (pushed s c msg) c).chans c').pendings =
        if c' = c then (s.chans c').pendings ++ [msg] else (s.chans c').pendings) ∧
      (∀ c', ((notify_to_loop (pushed s c msg) c).chans c').waiters = (s.chans c').waiters) ∧
      ∀ c', ((notify_to_loop (pushed s c msg) c).chans c').max = (s.chans c').max := by
  rcases notify_to_loop_eq (pushed s c msg) c with ⟨handle, he⟩
  rw [he]
  refine ⟨fun c' => ?_, fun c' => ?_, fun c' => ?_⟩
  all_goals
    by_cases hc : c' = c
    · subst hc
      simp [pushed]
    · simp [pushed, hc]

/-- The fields that `notify_to_loop` does not touch. -/
theorem notify_to_loop_fields (s : St) (c : Cid) :
    (notify_to_loop s c).accepted = s.accepted ∧ (notify_to_loop s c).handed = s.handed ∧
      (notify_to_loop s c).returned = s.returned ∧ (notify_to_loop s c).left = s.left ∧
      (notify_to_loop s c).loc = s.loc ∧ (notify_to_loop s c).dead = s.dead ∧
      (notify_to_loop s c).frame = s.frame ∧ (notify_to_loop s c).nextMsg = s.nextMsg := by
  rcases notify_to_loop_eq s c with ⟨handle, he⟩
  rw [he]
  exact ⟨rfl, rfl, rfl, rfl, rfl, rfl, rfl, rfl⟩

/-- `send` changes no set of waiters and no capacity. -/
theorem send_chans (s : St) (g : Gid) (c : Cid) (data : PyObj) (c' : Cid) :
    ((ChannelObject_send s g c data).chans c').waiters = (s.chans c').waiters ∧
      ((ChannelObject_send s g c data).chans c').max = (s.chans c').max := by
  rcases send_cases s g c data with ⟨_, heq⟩ | ⟨_, hsent⟩
  · rw [heq]
    exact ⟨rfl, rfl⟩
  · rcases notify_to_loop_pushed s c (make_chan_msg s g data) with ⟨_, hw, hm⟩
    rw [hsent.same.chans]
    exact ⟨hw c', hm c'⟩

/-- `recv` adds the caller to the waiters, and what else it does is not about the
messages. -/
theorem recv_same (s : St) (g : Gid) (c : Cid) (started : Bool) :
    Same (add_waiter s g c) (ChannelObject_recv s g c started) := by
  unfold ChannelObject_recv
  simp only
  split
  · exact note_left_same _ g c
  · split
    · exact ⟨rfl, fun _ => rfl, rfl, rfl, rfl, rfl, rfl⟩
    · split
      · exact loop_switch_same _ g c
      · exact (run_loop_same _).trans (loop_switch_same _ g c)

/-- A `recv` that `start_loop` does not fail in suspends its caller. -/
structure Suspends (m : St) (g : Gid) (c : Cid) (s' : St) : Prop where
  returned : s'.returned = m.returned
  left : s'.left = m.left
  loc : ∃ w, (w = .recv c ∨ w = .start c) ∧ s'.loc = Function.update m.loc g w

theorem loop_switch_suspends {s : St} (ha : s.alive = true) (g : Gid) (c : Cid) :
    Suspends s g c (loop_switch s g c) := by
  rw [loop_switch, if_pos ha]
  exact ⟨rfl, rfl, _, Or.inl rfl, rfl⟩

/-- The loop is alive when `recv` comes to its own switch, so the caller is
suspended in that or in `start_loop`, or `start_loop` has raised. -/
theorem recv_cases (s : St) (g : Gid) (c : Cid) (started : Bool) :
    (started = false ∧
        ChannelObject_recv s g c started = note_left (add_waiter s g c) g c) ∨
      started = true ∧ Suspends (add_waiter s g c) g c (ChannelObject_recv s g c started) := by
  cases started with
  | false => exact Or.inl ⟨rfl, rfl⟩
  | true =>
    refine Or.inr ⟨rfl, ?_⟩
    simp only [ChannelObject_recv, Bool.not_true, Bool.false_eq_true, if_false]
    split
    · -- Case: the loop's greenlet is alive in `L_STOP`
      exact ⟨rfl, rfl, _, Or.inr rfl, rfl⟩
    · split
      next ha => exact loop_switch_suspends ha g c
      next ha =>
        -- Case: the loop is dead and is run
        have h := loop_switch_suspends (s := run_loop (add_waiter s g c)) rfl g c
        exact ⟨h.returned, h.left, h.loc⟩

/-! ## `_notify` -/

/-- A round of `ChannelObject_notify` ends the call, with nothing left to hand
out, or hands the first message to a waiter. -/
theorem notify_round_cases {s s' : St} {c : Cid} {pick t : Gid}
    (h : notify_round s c pick t = some s') :
    (((s.chans c).pendings = [] ∨ (s.chans c).waiters = ∅) ∧ s' = { s with frame := none }) ∨
      ∃ msg rest, (s.chans c).pendings = msg :: rest ∧ pick ∈ (s.chans c).waiters ∧
        lands s pick t = true ∧ s' = resume (hand_out s c pick t msg rest) t (.value msg.data) := by
  unfold notify_round at h
  split at h
  next hrace =>
    -- Case: "detect racde condition"
    left
    exact ⟨Or.inl hrace.1, by simpa using h.symm⟩
  next =>
    split at h
    next hempty =>
      -- Case: no waiter left
      left
      exact ⟨Or.inr hempty, by simpa using h.symm⟩
    next =>
      split at h
      next hpick =>
        -- Case: a message goes to a waiter
        right
        cases hp : (s.chans c).pendings with
        | nil => simp [hp] at h
        | cons msg rest =>
          simp only [hp, Option.some.injEq] at h
          exact ⟨msg, rest, rfl, hpick.1, hpick.2, h.symm⟩
      · cases h

/-- The first round starts only when a message is queued. -/
theorem notify_cases {s s' : St} {c : Cid} {pick t : Gid}
    (h : ChannelObject_notify s c pick t = some s') :
    ((s.chans c).pendings = [] ∧ s' = s) ∨ notify_round s c pick t = some s' := by
  unfold ChannelObject_notify at h
  split at h
  next hp => exact Or.inl ⟨hp, by simpa using h.symm⟩
  next => exact Or.inr h

/-! ## Steps -/

/-- What a step does, one case for each thing that can happen. -/
inductive Step (s : St) : Act → St → Prop where
  | send {g c data} (hfree : free s g = true) :
    Step s (.send g c data) (ChannelObject_send s g c data)
  | recv {g c started} (hfree : free s g = true) :
    Step s (.recv g c started) (ChannelObject_recv s g c started)
  /-- The loop fires a `_notify`, which runs up to its first switch. -/
  | fire_notify {pick t c loop s'} (halive : s.alive = true) (hframe : s.frame = none)
    (hfire : s.loop.fire_pendings_next s.dead = some (loop, .call (.notify c)))
    (hnotify : ChannelObject_notify { s with loop := loop } c pick t = some s') :
    Step s (.fire pick t) s'
  /-- The loop fires anything else, which leaves the channels alone. -/
  | fire_other {pick t loop eff} (hframe : s.frame = none)
    (hfire : s.loop.fire_pendings_next s.dead = some (loop, eff))
    (hne : ∀ c, eff ≠ .call (.notify c)) : Step s (.fire pick t) { s with loop := loop }
  /-- After the switch into the waiter comes the one into the caller. -/
  | delivered {pick t c o msg} (halive : s.alive = true)
    (hframe : s.frame = some (.delivering c o msg)) (hlands : lands s msg.caller t = true) :
    Step s (.notify pick t)
      (resume (leave { s with frame := some (.returning c o msg) } t (.value .loop_switch_value)) t
        (.value .loop_switch_value))
  /-- After the switch into the caller comes the next round. -/
  | returned {pick t c o msg s'} (halive : s.alive = true)
    (hframe : s.frame = some (.returning c o msg)) (hround : notify_round s c pick t = some s') : Step s (.notify pick t) s'
  | throw {g e} (hdead : s.dead g = false) :
    Step s (.throw g e) (resume (leave s g (.throw e)) g (.throw e))
  | switch {g v} (hdead : s.dead g = false) :
    Step s (.switch g v) (resume (leave s g (.value v)) g (.value v))
  | die {g} (hfree : free s g = true) :
    Step s (.die g) { s with dead := Function.update s.dead g true }
  | ended {parent error} (hframe : s.frame = none) (hdead : s.dead parent = false) :
    Step s (.ended parent error)
      (resume (leave (end_loop s) parent (outcome error)) parent (outcome error))
  | run : Step s .run (run_loop s)
  | stop : Step s .stop (set_state s .L_STOP)
  | call_soon {n} :
    Step s (.call_soon n)
      { s with loop := (s.loop.loop_schedule_call 0 (some (.other n)) none).1 }

theorem step_cases {s s' : St} {a : Act} (h : step s a = some s') : Step s a s' := by
  cases a with
  | send g c data =>
    rcases Option.ite_none_right_eq_some.1 h with ⟨hfree, heq⟩
    cases heq
    exact .send hfree
  | recv g c started =>
    rcases Option.ite_none_right_eq_some.1 h with ⟨hfree, heq⟩
    cases heq
    exact .recv hfree
  | fire pick t =>
    simp only [step] at h
    split at h
    next hfirst =>
      rcases hfirst with ⟨halive, hframe⟩
      split at h
      · -- Case: the queue is empty, or the loop is stopped
        cases h
      next loop c hfire => exact .fire_notify halive hframe hfire h
      next loop eff hne hfire =>
        cases h
        exact .fire_other hframe hfire hne
    · cases h
  | notify pick t =>
    simp only [step] at h
    rcases Option.ite_none_right_eq_some.1 h with ⟨halive, h⟩
    split at h
    · cases h
    next c o msg hframe =>
      rcases Option.ite_none_right_eq_some.1 h with ⟨hlands, heq⟩
      cases heq
      exact .delivered halive hframe hlands
    next c o msg hframe => exact .returned halive hframe h
  | throw g e =>
    rcases Option.ite_none_left_eq_some.1 h with ⟨hdead, heq⟩
    cases heq
    exact .throw (eq_false_of_ne_true hdead)
  | switch g v =>
    rcases Option.ite_none_left_eq_some.1 h with ⟨hdead, heq⟩
    cases heq
    exact .switch (eq_false_of_ne_true hdead)
  | die g =>
    rcases Option.ite_none_right_eq_some.1 h with ⟨hfree, heq⟩
    cases heq
    exact .die hfree
  | ended parent error =>
    rcases Option.ite_none_right_eq_some.1 h with ⟨⟨_, hframe, hdead⟩, heq⟩
    cases heq
    exact .ended hframe (by simpa using hdead)
  | run =>
    cases h
    exact .run
  | stop =>
    cases h
    exact .stop
  | call_soon n =>
    cases h
    exact .call_soon

end Jega.Channel
