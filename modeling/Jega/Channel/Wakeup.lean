import Jega.Channel.Steps

/-!
# Jega.Channel.Wakeup — queued messages, waiting receivers and `_notify`

A waiting receiver gets its message from a `_notify` call, so a channel with a
queued message and a waiting receiver needs one that is queued or running
(`Wakeful`). `ChannelObject_recv` never asks for one, and `notify_to_loop` only
asks when the cached handle was marked `called`, which `fire_handle` never
does. `Wakeful` therefore holds all along a run exactly when no step falls
into one of these two gaps (`Covered`).
-/

namespace Jega.Channel

/-- A `_notify` call for `c` is in the loop's queue. -/
def NotifyQueued (s : St) (c : Cid) : Prop :=
  0 < s.loop.queued (.call (.notify c))

/-- A `_notify` call for `c` is running. -/
def NotifyRunning (s : St) (c : Cid) : Prop :=
  ∃ f, s.frame = some f ∧ f.chan = c

/-- `_notify` of `c` is queued or running. -/
def NotifyDue (s : St) (c : Cid) : Prop :=
  NotifyQueued s c ∨ NotifyRunning s c

/-- A channel with a queued message and a waiting receiver has a `_notify` call
queued or running. -/
def Wakeful (s : St) : Prop :=
  ∀ c, (s.chans c).pendings ≠ [] → (s.chans c).waiters ≠ ∅ → NotifyDue s c

/-- The loop has nothing left to run. -/
def Idle (s : St) : Prop := s.loop.pendings = [] ∧ s.frame = none

/-- No wake-up is lost: `Wakeful`, and once the loop is idle nobody waits while
a message is queued. -/
structure NoLostWakeup (s : St) : Prop where
  wakeful : Wakeful s
  served : Idle s → ∀ c, (s.chans c).pendings = [] ∨ (s.chans c).waiters = ∅

/-- The condition on a step. A send made while a receiver waits finds no cached
handle, or one marked `called`, or a `_notify` that is queued or running; a recv
finds no queued message, or a `_notify` that is queued or running. -/
def Covered (s : St) : Act → Prop
  | .send _ c _ => (s.chans c).waiters ≠ ∅ → Reschedules s c ∨ NotifyDue s c
  | .recv _ c _ => (s.chans c).pendings ≠ [] → NotifyDue s c
  | _ => True

/-- Every channel has room for a message. -/
def Roomy (s : St) : Prop := ∀ c, 0 < (s.chans c).max

theorem init_roomy (bufsize : Cid → Nat) : Roomy (init bufsize) := by
  intro c
  simp only [init, create_channel]
  split <;> omega

theorem init_wakeful (bufsize : Cid → Nat) : Wakeful (init bufsize) := by
  intro c h
  simp [init, create_channel] at h

/-- In an idle loop no `_notify` is due. -/
theorem Idle.not_due {s : St} (h : Idle s) (c : Cid) : ¬ NotifyDue s c := by
  rintro (hq | ⟨f, hf, _⟩)
  · simp [NotifyQueued, LoopObject.queued, h.1] at hq
  · rw [h.2] at hf
    cases hf

theorem noLostWakeup_iff (s : St) : NoLostWakeup s ↔ Wakeful s := by
  refine ⟨fun h => h.wakeful, fun h => ⟨h, fun hidle c => ?_⟩⟩
  by_contra hc
  rw [not_or] at hc
  exact hidle.not_due c (h c hc.1 hc.2)

/-- A call that is due stays due while calls are only added. -/
theorem NotifyDue.mono {s s' : St} {c : Cid} (hd : NotifyDue s c)
    (hq : s.loop.queued (.call (.notify c)) ≤ s'.loop.queued (.call (.notify c)))
    (hf : s'.frame = s.frame) : NotifyDue s' c := by
  rcases hd with hd | ⟨f, hsf, hfc⟩
  · exact Or.inl (Nat.lt_of_lt_of_le hd hq)
  · exact Or.inr ⟨f, by rw [hf]; exact hsf, hfc⟩

/-- A step that changes no channel and takes no call away keeps `Wakeful`. -/
theorem Wakeful.mono {s s' : St} (hw : Wakeful s) (hc : s'.chans = s.chans)
    (hq : ∀ c, s.loop.queued (.call (.notify c)) ≤ s'.loop.queued (.call (.notify c)))
    (hf : s'.frame = s.frame) : Wakeful s' := by
  intro c hp hwt
  rw [hc] at hp hwt
  exact (hw c hp hwt).mono (hq c) hf

/-- Moving greenlets is no matter here. -/
theorem Wakeful.same {s s' : St} (hw : Wakeful s) (h : Same s s') : Wakeful s' :=
  hw.mono h.chans (fun c => Nat.le_of_eq (h.queued (.call (.notify c))).symm) h.frame

theorem Same.due {s s' : St} (h : Same s s') (c : Cid) : NotifyDue s' c ↔ NotifyDue s c := by
  simp only [NotifyDue, NotifyQueued, NotifyRunning, h.queued, h.frame]

/-! ## Steps -/

/-- A round of `_notify` serves its own channel, so `Wakeful` follows once the
others have a call in the queue. -/
theorem notify_round_wakeful {s s' : St} {c : Cid} {pick t : Gid}
    (h : notify_round s c pick t = some s')
    (hw : ∀ c', c' ≠ c → (s.chans c').pendings ≠ [] → (s.chans c').waiters ≠ ∅ →
      NotifyQueued s c') : Wakeful s' := by
  intro c' hp hwt
  rcases notify_round_cases h with ⟨hdone, rfl⟩ | ⟨msg, rest, _, _, _, rfl⟩
  · -- Case: the call ends, with no message or no waiter left
    by_cases hc : c' = c
    · subst hc
      rcases hdone with hd | hd
      · exact absurd hd hp
      · exact absurd hd hwt
    · exact Or.inl (hw c' hc hp hwt)
  · -- Case: the call goes on after its switch
    by_cases hc : c' = c
    · exact Or.inr ⟨.delivering c pick msg, by simp [hand_out], hc.symm⟩
    · simp only [resume_chans, hand_out, Function.update_of_ne hc] at hp hwt
      left
      have hq := hw c' hc hp hwt
      unfold NotifyQueued at hq ⊢
      simpa [hand_out] using hq

/-- With no `_notify` running, what is due is queued. -/
theorem Wakeful.queued {s : St} (hw : Wakeful s) (hf : s.frame = none) (c : Cid)
    (hp : (s.chans c).pendings ≠ []) (hwt : (s.chans c).waiters ≠ ∅) : NotifyQueued s c := by
  rcases hw c hp hwt with hq | ⟨f, hsf, _⟩
  · exact hq
  · rw [hf] at hsf
    cases hsf

/-- A call other than the one that was fired stays in the queue. -/
theorem fire_keeps {s : St} {loop : LoopObject Callback} {eff : Fired Callback}
    (hframe : s.frame = none) (hfire : s.loop.fire_pendings_next s.dead = some (loop, eff))
    (hw : Wakeful s) (c : Cid) (hne : eff ≠ .call (.notify c)) (hp : (s.chans c).pendings ≠ [])
    (hwt : (s.chans c).waiters ≠ ∅) : NotifyQueued { s with loop := loop } c := by
  rcases LoopObject.fire_pendings_next_spec hfire with
    ⟨item, _, _, _, _, _, _, hcount, hcall, _⟩
  have hq := hw.queued hframe c hp hwt
  have hitem : s.loop.target item ≠ .call (.notify c) := fun ht => hne (hcall _ ht)
  have hcount := hcount (.call (.notify c))
  rw [if_neg hitem] at hcount
  unfold NotifyQueued at hq ⊢
  simp only
  omega

theorem fire_notify_wakeful {s s' : St} {loop : LoopObject Callback} {c : Cid} {pick t : Gid}
    (hframe : s.frame = none)
    (hfire : s.loop.fire_pendings_next s.dead = some (loop, .call (.notify c)))
    (hnotify : ChannelObject_notify { s with loop := loop } c pick t = some s')
    (hw : Wakeful s) : Wakeful s' := by
  have hothers : ∀ c', c' ≠ c → (s.chans c').pendings ≠ [] → (s.chans c').waiters ≠ ∅ →
      NotifyQueued { s with loop := loop } c' := by
    intro c' hc hp hwt
    refine fire_keeps hframe hfire hw c' ?_ hp hwt
    intro heq
    cases heq
    exact hc rfl
  rcases notify_cases hnotify with ⟨hempty, rfl⟩ | hround
  · -- Case: "pendings size zero", and the call is spent
    intro c' hp hwt
    by_cases hc : c' = c
    · subst hc
      exact absurd hempty hp
    · exact Or.inl (hothers c' hc hp hwt)
  · exact notify_round_wakeful hround hothers

/-- A `_notify` that runs covers its own channel; the others have theirs in the
queue. -/
theorem Wakeful.running {s : St} (hw : Wakeful s) {f : Frame} (hframe : s.frame = some f)
    {c : Cid} (hc : c ≠ f.chan) (hp : (s.chans c).pendings ≠ [])
    (hwt : (s.chans c).waiters ≠ ∅) : NotifyQueued s c := by
  rcases hw c hp hwt with hq | ⟨f', hsf, hfc⟩
  · exact hq
  · rw [hframe, Option.some.injEq] at hsf
    rw [hsf] at hc
    exact absurd hfc.symm hc

/-- The switch back into the caller, with the `_notify` still running. -/
theorem delivered_wakeful {s : St} {c : Cid} {o : Gid} {msg : channel_msg_t}
    (hframe : s.frame = some (.delivering c o msg)) (hw : Wakeful s) (t : Gid) (r : Resumption) :
    Wakeful (resume (leave { s with frame := some (.returning c o msg) } t r) t r) := by
  intro c' hp hwt
  simp only [resume_chans, leave_chans] at hp hwt
  by_cases hc : c' = c
  · exact Or.inr ⟨.returning c o msg, by simp, hc.symm⟩
  · left
    have hq := hw.running hframe hc hp hwt
    unfold NotifyQueued at hq ⊢
    simpa using hq

/-- `send` needs `_notify` due afterwards when a receiver waits. It is due if it
was, or if `notify_to_loop` schedules it. -/
theorem send_wakeful_iff {s : St} (hroomy : Roomy s) (hw : Wakeful s) (g : Gid) (c : Cid)
    (data : PyObj) :
    Wakeful (ChannelObject_send s g c data) ↔
      ((s.chans c).waiters ≠ ∅ → Reschedules s c ∨ NotifyDue s c) := by
  rcases send_cases s g c data with ⟨hfull, heq⟩ | ⟨_, hsent⟩
  · -- Case: "channel buffer overflow"; the full queue already needed a call
    have hne : (s.chans c).pendings ≠ [] := by
      intro hp
      have hmax := hroomy c
      rw [hp, List.length_nil] at hfull
      omega
    rw [heq]
    exact ⟨fun _ hwt => Or.inr (hw c hne hwt), fun _ => hw⟩
  · -- Case: the message is queued
    have hsame := hsent.same
    generalize ChannelObject_send s g c data = s' at hsame ⊢
    rcases notify_to_loop_pushed s c (make_chan_msg s g data) with ⟨hpend, hwait, _⟩
    generalize hm : pushed s c (make_chan_msg s g data) = m at hsame hpend hwait
    obtain ⟨_, _, _, _, _, _, hmframe, _⟩ := notify_to_loop_fields m c
    have hframe : (notify_to_loop m c).frame = s.frame := by
      rw [hmframe, ← hm]
      rfl
    have hloop : m.loop = s.loop := by
      rw [← hm]
      rfl
    have hresched : Reschedules m c ↔ Reschedules s c := by
      rw [← hm]
      simp [Reschedules, pushed]
    have hmono : ∀ c', NotifyDue s c' → NotifyDue s' c' := by
      intro c' hd
      rw [hsame.due]
      refine hd.mono ?_ hframe
      have hle := (notify_to_loop_queued m c (.call (.notify c'))).1
      rw [hloop] at hle
      exact hle
    constructor
    · -- what is due afterwards was scheduled by `notify_to_loop` or due before
      intro hw' hwt
      have hdue : NotifyDue (notify_to_loop m c) c := by
        refine (hsame.due c).1 (hw' c ?_ ?_)
        · rw [hsame.chans, hpend]
          simp
        · rw [hsame.chans, hwait]
          exact hwt
      by_cases hr : Reschedules s c
      · exact Or.inl hr
      · right
        have hkept := (notify_to_loop_queued m c (.call (.notify c))).2.2 (mt hresched.1 hr)
        rcases hdue with hq | ⟨f, hf, hfc⟩
        · left
          unfold NotifyQueued at hq ⊢
          rw [← hloop, ← hkept]
          exact hq
        · exact Or.inr ⟨f, by rw [← hframe]; exact hf, hfc⟩
    · intro hcov c' hp hwt
      rw [hsame.chans] at hp hwt
      rw [hwait] at hwt
      by_cases hc : c' = c
      · subst hc
        rcases hcov hwt with hr | hd
        · rw [hsame.due]
          exact Or.inl ((notify_to_loop_queued m c' (.call (.notify c'))).2.1 (hresched.2 hr))
        · exact hmono c' hd
      · rw [hpend, if_neg hc] at hp
        exact hmono c' (hw c' hp hwt)

/-- `recv` asks for no `_notify`, so one has to be due already when a message is
queued. -/
theorem recv_wakeful_iff {s : St} (hw : Wakeful s) (g : Gid) (c : Cid) (started : Bool) :
    Wakeful (ChannelObject_recv s g c started) ↔
      ((s.chans c).pendings ≠ [] → NotifyDue s c) := by
  have hsame := recv_same s g c started
  have hdue : ∀ c', NotifyDue (ChannelObject_recv s g c started) c' ↔ NotifyDue s c' := by
    intro c'
    exact hsame.due c'
  have hchans : (ChannelObject_recv s g c started).chans =
      Function.update s.chans c { s.chans c with waiters := insert g (s.chans c).waiters } :=
    hsame.chans
  constructor
  · -- nothing was scheduled, so the call was due before
    intro hw' hp
    refine (hdue c).1 (hw' c ?_ ?_)
    · simpa [hchans] using hp
    · simp [hchans]
  · intro hcov c' hp hwt
    refine (hdue c').2 ?_
    by_cases hc : c' = c
    · subst hc
      exact hcov (by simpa [hchans] using hp)
    · simp only [hchans, Function.update_of_ne hc] at hp hwt
      exact hw c' hp hwt

/-- What one step does to `Wakeful`. -/
theorem step_wakeful_iff (s : St) (a : Act) (s' : St) (h : step s a = some s')
    (hroomy : Roomy s) (hw : Wakeful s) : Wakeful s' ↔ Covered s a := by
  cases step_cases h with
  | send _ => exact send_wakeful_iff hroomy hw _ _ _
  | recv _ => exact recv_wakeful_iff hw _ _ _
  | fire_notify _ hframe hfire hnotify =>
    exact iff_of_true (fire_notify_wakeful hframe hfire hnotify hw) trivial
  | fire_other hframe hfire hne =>
    refine iff_of_true (fun c hp hwt => ?_) trivial
    exact Or.inl (fire_keeps hframe hfire hw c (hne c) hp hwt)
  | delivered _ hframe _ => exact iff_of_true (delivered_wakeful hframe hw _ _) trivial
  | returned _ hframe hround =>
    refine iff_of_true (notify_round_wakeful hround fun c hc hp hwt => ?_) trivial
    exact hw.running hframe hc hp hwt
  | throw _ => exact iff_of_true (hw.same (resume_leave_same s _ _)) trivial
  | switch _ => exact iff_of_true (hw.same (resume_leave_same s _ _)) trivial
  | ended _ _ =>
    exact iff_of_true (hw.same ((end_loop_same s).trans (resume_leave_same _ _ _))) trivial
  | run => exact iff_of_true (hw.same (run_loop_same s)) trivial
  | stop => exact iff_of_true (hw.same (set_state_same s _)) trivial
  | die _ => exact iff_of_true (hw.mono rfl (fun _ => le_refl _) rfl) trivial
  | call_soon =>
    refine iff_of_true (hw.mono rfl (fun c => ?_) rfl) trivial
    rw [LoopObject.queued_loop_schedule_call]
    omega

theorem notify_round_max {s s' : St} {c : Cid} {pick t : Gid}
    (h : notify_round s c pick t = some s') (c' : Cid) : (s'.chans c').max = (s.chans c').max := by
  rcases notify_round_cases h with ⟨_, rfl⟩ | ⟨msg, rest, _, _, _, rfl⟩
  · rfl
  · by_cases hc : c' = c
    · subst hc
      simp [hand_out]
    · simp [hand_out, Function.update_of_ne hc]

theorem recv_max (s : St) (g : Gid) (c : Cid) (started : Bool) (c' : Cid) :
    ((ChannelObject_recv s g c started).chans c').max = (s.chans c').max := by
  rw [(recv_same s g c started).chans]
  by_cases hc : c' = c
  · subst hc
    simp [add_waiter]
  · simp [add_waiter, Function.update_of_ne hc]

/-- No operation changes the capacity of a channel. -/
theorem step_max (s : St) (a : Act) (s' : St) (h : step s a = some s') (c' : Cid) :
    (s'.chans c').max = (s.chans c').max := by
  cases step_cases h with
  | send _ => exact (send_chans s _ _ _ c').2
  | recv _ => exact recv_max s _ _ _ c'
  | fire_notify _ _ _ hnotify =>
    rcases notify_cases hnotify with ⟨_, rfl⟩ | hround
    · rfl
    · exact notify_round_max hround c'
  | delivered _ _ _ => simp
  | returned _ _ hround => exact notify_round_max hround c'
  | throw _ => simp
  | switch _ => simp
  | ended _ _ => rw [((end_loop_same s).trans (resume_leave_same _ _ _)).chans]
  | fire_other _ _ _ | die _ | run | stop | call_soon => rfl

theorem step_roomy (s : St) (a : Act) (s' : St) (h : step s a = some s') (hroomy : Roomy s) :
    Roomy s' := by
  intro c
  rw [step_max s a s' h c]
  exact hroomy c

/-! ## Runs -/

/-- No wake-up is lost in a run exactly when all its steps are covered. -/
theorem noLostWakeup_iff_covered (bufsize : Cid → Nat) (as : List Act) (t : St)
    (h : Trace.run step (init bufsize) as = some t) :
    Trace.Always step NoLostWakeup (init bufsize) as ↔
      Trace.Steps step Covered (init bufsize) as := by
  refine Trace.always_iff_steps (fun s a s' hs _ hr _ => step_roomy s a s' hs hr)
    (fun s a s' hs hr hw => ?_) (init_roomy bufsize)
    ((noLostWakeup_iff _).2 (init_wakeful bufsize)) h
  rw [noLostWakeup_iff] at hw ⊢
  exact step_wakeful_iff s a s' hs hr hw

/-- The first round of recv and send on an unbuffered channel. -/
def firstRound : List Act :=
  [.recv 1 0 true, .send 2 0 (.obj 7), .fire 1 1, .notify 0 2, .notify 0 0]

theorem noLostWakeup_firstRound : ∃ t, Trace.run step (init fun _ => 0) firstRound = some t ∧
    (Trace.Always step NoLostWakeup (init fun _ => 0) firstRound ↔
      Trace.Steps step Covered (init fun _ => 0) firstRound) := by
  have h : (Trace.run step (init fun _ => 0) firstRound).any (fun _ => true) = true := by
    decide
  rcases Trace.run_any h with ⟨t, ht, _⟩
  exact ⟨t, ht, noLostWakeup_iff_covered _ _ t ht⟩

/-- In a second round the receiver 1 and the message of the sender 2 wait for
each other, and the loop is idle. -/
theorem secondRound_loses_wakeup : ∃ t,
    Trace.run step (init fun _ => 0)
      (firstRound ++ [.recv 1 0 true, .send 2 0 (.obj 8)]) = some t ∧
    Idle t ∧ ¬ NoLostWakeup t := by
  have h : (Trace.run step (init fun _ => 0)
      (firstRound ++ [.recv 1 0 true, .send 2 0 (.obj 8)])).any (fun t =>
        decide (t.loop.pendings = [] ∧ t.frame = none) &&
          decide ((t.chans 0).pendings ≠ [] ∧ (t.chans 0).waiters ≠ ∅)) = true := by
    decide
  rcases Trace.run_any h with ⟨t, ht, hp⟩
  rw [Bool.and_eq_true, decide_eq_true_eq, decide_eq_true_eq] at hp
  rcases hp with ⟨hidle, hp, hwt⟩
  refine ⟨t, ht, hidle, fun hw => ?_⟩
  rcases hw.served hidle 0 with hd | hd
  · exact hp hd
  · exact hwt hd

end Jega.Channel
