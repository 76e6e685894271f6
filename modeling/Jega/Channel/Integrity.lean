import Jega.Channel.Steps

/-!
# Jega.Channel.Integrity — who gets which message

`_notify` delivers by switching, without looking at where the greenlet is
suspended. Three facts decide what a run of channels delivers:

* the queue of a channel is the accepted messages less those handed out
  (`Queue`), in every run;
* an entry of `waiters` is a greenlet in a `recv` on that channel or on the way
  into it, or one whose `recv` ended in another way and left its entry behind
  (`Places`), in every run;
* a greenlet in `recv` returns the value of whatever switch resumes it, and one
  that `start_loop` has suspended drops it.

So the deliveries of a run are sound (`Integrity`) exactly when no `_notify`
picks an entry left behind or a greenlet that is still in `start_loop`, and no
other switch makes a `recv` return (`Sound`).
-/

namespace Jega.Channel

/-- What may be said of the messages and values of a channel. -/
structure Integrity (s : St) : Prop where
  /-- What `recv` returned are the values of the messages handed out. -/
  answered : ∀ c, s.returned c = (s.handed c).map fun d => d.msg.data
  /-- A value `recv` returned was given to an accepted `send` of the channel. -/
  sent : ∀ c, ∀ v ∈ s.returned c, ∃ msg ∈ s.accepted c, msg.data = v
  /-- Messages are handed out in the order they were accepted. -/
  ordered : ∀ c, (s.handed c).map Delivery.msg <+: s.accepted c
  /-- No message is handed out twice. -/
  once : ∀ c, ((s.handed c).map fun d => d.msg.addr).Nodup
  /-- Every message went to a greenlet in `recv` on its channel. -/
  atRecv : ∀ c, ∀ d ∈ s.handed c, d.atRecv = true

/-- `g` is in a `recv` on `c`, or `start_loop` has suspended it on the way. -/
def Receiving (s : St) (g : Gid) (c : Cid) : Prop := s.loc g = .recv c ∨ s.loc g = .start c

/-- A value given to `g` makes a `recv` return: `g` is suspended in that, or in its
`start_loop` while the loop has ended. -/
def Answers (s : St) (g : Gid) : Prop :=
  ∃ c, s.loc g = .recv c ∨ s.loc g = .start c ∧ s.alive = false

/-- The entry a round of `_notify` picks was not left behind and its greenlet is not
in `start_loop`, or it is dead and the switch lands in another receiver of the
channel. -/
def RoundSound (s : St) (c : Cid) (pick t : Gid) : Prop :=
  (s.chans c).pendings ≠ [] → (s.chans c).waiters ≠ ∅ →
    pick ∉ s.left c ∧ s.loc pick ≠ .start c ∨ s.dead pick = true ∧ s.loc t = .recv c

/-- The condition on a step. -/
def Sound (s : St) : Act → Prop
  | .fire pick t => ∀ loop c, s.loop.fire_pendings_next s.dead = some (loop, .call (.notify c)) →
      RoundSound s c pick t
  | .notify pick t =>
    match s.frame with
    | none => True
    | some (.delivering _ _ _) => ¬ Answers s t
    | some (.returning c _ _) => RoundSound s c pick t
  | .switch g _ => ¬ Answers s g
  | .ended parent none => ∀ c, ¬ Receiving s parent c
  | _ => True

/-! ## The queue -/

/-- The queue is what was accepted and not handed out yet; messages are told
apart by their addresses. -/
structure Queue (s : St) : Prop where
  split : ∀ c, (s.handed c).map Delivery.msg ++ (s.chans c).pendings = s.accepted c
  fresh : ∀ c, ∀ msg ∈ s.accepted c, msg.addr < s.nextMsg
  nodup : ∀ c, ((s.accepted c).map channel_msg_t.addr).Nodup

theorem init_queue (bufsize : Cid → Nat) : Queue (init bufsize) :=
  ⟨fun c => by simp [init, create_channel], fun c msg h => by simp [init] at h,
    fun c => by simp [init]⟩

/-- `Queue` reads the messages only. -/
theorem Queue.congr {s s' : St} (hq : Queue s)
    (hp : ∀ c, (s'.chans c).pendings = (s.chans c).pendings) (hh : s'.handed = s.handed)
    (ha : s'.accepted = s.accepted) (hn : s.nextMsg ≤ s'.nextMsg) : Queue s' := by
  refine ⟨fun c => ?_, fun c msg hm => ?_, fun c => ?_⟩
  · rw [hh, hp, ha]
    exact hq.split c
  · rw [ha] at hm
    exact Nat.lt_of_lt_of_le (hq.fresh c msg hm) hn
  · rw [ha]
    exact hq.nodup c

/-- An accepted message goes to the end of the queue, under a new address. -/
theorem Queue.pushed {s : St} (hq : Queue s) (g : Gid) (c : Cid) (data : PyObj) :
    Queue (pushed s c (make_chan_msg s g data)) := by
  refine ⟨fun c' => ?_, fun c' msg hm => ?_, fun c' => ?_⟩
  · -- the queue and the accepted messages get the same message
    by_cases hc : c' = c
    · subst hc
      simp only [Channel.pushed, Function.update_self, ← hq.split c', List.append_assoc]
    · simp only [Channel.pushed, Function.update_of_ne hc]
      exact hq.split c'
  · -- its address is the next one, which moves on
    by_cases hc : c' = c
    · subst hc
      simp only [Channel.pushed, Function.update_self, List.mem_append, List.mem_singleton] at hm
      rcases hm with hm | rfl
      · exact Nat.lt_succ_of_lt (hq.fresh c' msg hm)
      · exact Nat.lt_succ_self s.nextMsg
    · simp only [Channel.pushed, Function.update_of_ne hc] at hm
      exact Nat.lt_succ_of_lt (hq.fresh c' msg hm)
  · -- no message before it has that address
    by_cases hc : c' = c
    · subst hc
      have hnew : s.nextMsg ∉ (s.accepted c').map channel_msg_t.addr := by
        intro hmem
        rcases List.mem_map.1 hmem with ⟨msg, hm, haddr⟩
        exact absurd haddr (Nat.ne_of_lt (hq.fresh c' msg hm))
      simp only [Channel.pushed, Function.update_self, List.map_append, List.map_cons, List.map_nil,
        make_chan_msg]
      rw [List.nodup_append_comm]
      exact List.nodup_cons.2 ⟨hnew, hq.nodup c'⟩
    · simp only [Channel.pushed, Function.update_of_ne hc]
      exact hq.nodup c'

/-- Handing out moves the first message from the queue to the deliveries. -/
theorem Queue.hand_out {s : St} (hq : Queue s) {c : Cid} (o t : Gid) {msg : channel_msg_t}
    {rest : List channel_msg_t} (hp : (s.chans c).pendings = msg :: rest) :
    Queue (hand_out s c o t msg rest) := by
  refine ⟨fun c' => ?_, hq.fresh, hq.nodup⟩
  by_cases hc : c' = c
  · subst hc
    have hsplit := hq.split c'
    rw [hp] at hsplit
    simpa [Channel.hand_out] using hsplit
  · simpa [Channel.hand_out, Function.update_of_ne hc] using hq.split c'

/-- So does a state that differs in places and answers only. -/
theorem Queue.same {s s' : St} (hq : Queue s) (h : Same s s') : Queue s' :=
  hq.congr (fun _ => by rw [h.chans]) h.handed h.accepted (Nat.le_of_eq h.nextMsg.symm)

/-! ## The places -/

/-- Where the greenlets of the waiters sets are, and those that left. -/
structure Places (s : St) : Prop where
  waiting : ∀ c, ∀ g ∈ (s.chans c).waiters, Receiving s g c ∨ g ∈ s.left c
  gone : ∀ c, ∀ g ∈ s.left c, ¬ Receiving s g c
  ended : ∀ g, s.dead g = true → s.loc g = .other

theorem init_places (bufsize : Cid → Nat) : Places (init bufsize) :=
  ⟨fun c g h => by simp [init, create_channel] at h, fun c g h => by simp [init] at h,
    fun g _ => rfl⟩

theorem Receiving.congr {s s' : St} (h : s'.loc = s.loc) (g : Gid) (c : Cid) :
    Receiving s' g c ↔ Receiving s g c := by
  simp only [Receiving, h]

theorem Places.congr {s s' : St} (hp : Places s)
    (hw : ∀ c, (s'.chans c).waiters = (s.chans c).waiters) (hloc : s'.loc = s.loc)
    (hl : s'.left = s.left) (hd : s'.dead = s.dead) : Places s' := by
  refine ⟨fun c g hg => ?_, fun c g hg => ?_, fun g hg => ?_⟩
  · rw [hw] at hg
    rw [Receiving.congr hloc, hl]
    exact hp.waiting c g hg
  · rw [hl] at hg
    rw [Receiving.congr hloc]
    exact hp.gone c g hg
  · rw [hd] at hg
    rw [hloc]
    exact hp.ended g hg

/-- One greenlet moves to another place. -/
theorem receiving_update {s s' : St} {g : Gid} {w : Where} (h : s'.loc = Function.update s.loc g w)
    (g' : Gid) (c : Cid) :
    Receiving s' g' c ↔ if g' = g then w = .recv c ∨ w = .start c else Receiving s g' c := by
  by_cases hg : g' = g
  · subst hg
    simp [Receiving, h]
  · simp [Receiving, h, hg]

theorem mem_note_left (s : St) (g g' : Gid) (c c' : Cid) :
    g' ∈ (note_left s g c).left c' ↔ g' ∈ s.left c' ∨ c' = c ∧ g' = g := by
  by_cases hc : c' = c
  · subst hc
    simp [note_left, or_comm]
  · simp [note_left, hc]

/-- A greenlet that receives and is resumed has left, unless it goes on to its own
switch. -/
theorem mem_resume_leave_left (s : St) (g g' : Gid) (r : Resumption) (c : Cid) :
    g' ∈ (resume (leave s g r) g r).left c ↔
      g' ∈ s.left c ∨ g' = g ∧ Receiving s g c ∧ next_loc s g r ≠ .recv c := by
  cases hl : s.loc g with
  | other => simp [resume, leave, Receiving, hl]
  | send c' m => simp [resume, leave, Receiving, hl]
  | recv c' =>
    have hleft : (resume (leave s g r) g r).left = (note_left s g c').left := by
      simp [resume, leave, hl, note_left]
    have hnext : next_loc s g r = .other := by
      simp [next_loc, hl]
    rw [hleft, mem_note_left, hnext]
    simp only [Receiving, hl, Where.recv.injEq, reduceCtorEq, or_false, ne_eq, not_false_eq_true,
      and_true]
    rw [and_comm, eq_comm (a := c)]
  | start c' =>
    cases r with
    | throw e =>
      have hleft : (resume (leave s g (.throw e)) g (.throw e)).left = (note_left s g c').left := by
        simp [resume, leave, hl, note_left]
      rw [hleft, mem_note_left]
      simp only [Receiving, next_loc, hl, Where.start.injEq, reduceCtorEq, false_or, ne_eq,
        not_false_eq_true, and_true]
      rw [and_comm, eq_comm (a := c)]
    | value v =>
      by_cases ha : s.alive = true
      · simp [resume, leave, loop_switch, Receiving, next_loc, hl, ha]
      · have hleft : (resume (leave s g (.value v)) g (.value v)).left = (note_left s g c').left := by
          simp [resume, leave, loop_switch, hl, ha, note_left, run_loop, set_state]
        rw [hleft, mem_note_left]
        simp only [Receiving, next_loc, hl, ha, Where.start.injEq, reduceCtorEq, false_or, ne_eq,
          not_false_eq_true, and_true, if_false, Bool.false_eq_true]
        rw [and_comm, eq_comm (a := c)]

/-- While the loop is alive nobody leaves on the way out of `start_loop`. -/
theorem resume_left {s : St} (ha : s.alive = true) (g : Gid) (r : Resumption) :
    (resume s g r).left = s.left := by
  unfold resume
  split
  · rfl
  · split
    · rw [loop_switch, if_pos ha]
    · rfl
  · rfl
  · rfl

/-- A resumed greenlet that left its `recv` is in `left`. -/
theorem Places.resume_leave {s : St} (hp : Places s) (g : Gid) (r : Resumption) :
    Places (resume (leave s g r) g r) := by
  have hnext : next_loc (leave s g r) g r = next_loc s g r :=
    next_loc_congr (leave_loc s g r) (leave_alive s g r) g r
  have hloc : (resume (leave s g r) g r).loc = Function.update s.loc g (next_loc s g r) := by
    rw [resume_loc, leave_loc, hnext]
  have hstart : ∀ c, next_loc s g r ≠ .start c := next_loc_ne_start s g r
  refine ⟨fun c g' hg => ?_, fun c g' hg => ?_, fun g' hg => ?_⟩
  · -- Waiters: who does not receive any more is in `left`
    rw [(resume_leave_same s g r).chans] at hg
    rw [receiving_update hloc, mem_resume_leave_left]
    by_cases hgg : g' = g
    · subst hgg
      by_cases hr : next_loc s g' r = .recv c
      · exact Or.inl (by rw [if_pos rfl]; exact Or.inl hr)
      · rcases hp.waiting c g' hg with h | h
        · exact Or.inr (Or.inr ⟨rfl, h, hr⟩)
        · exact Or.inr (Or.inl h)
    · rw [if_neg hgg]
      rcases hp.waiting c g' hg with h | h
      · exact Or.inl h
      · exact Or.inr (Or.inl h)
  · -- Left: who goes on to the switch of `recv` was not in `left`
    rw [mem_resume_leave_left] at hg
    rw [receiving_update hloc]
    by_cases hgg : g' = g
    · subst hgg
      rw [if_pos rfl]
      rintro (hr | hs)
      · rcases hg with h | ⟨_, _, hne⟩
        · exact hp.gone c g' h (Or.inr (next_loc_eq_recv.1 hr).1)
        · exact hne hr
      · exact hstart c hs
    · rw [if_neg hgg]
      rcases hg with h | ⟨h, _⟩
      · exact hp.gone c g' h
      · exact absurd h hgg
  · rw [(resume_leave_same s g r).dead] at hg
    have hother := hp.ended g' hg
    rw [hloc]
    by_cases hgg : g' = g
    · subst hgg
      simp [next_loc, hother]
    · rw [Function.update_of_ne hgg]
      exact hother

/-- The picked entry leaves the set; a greenlet resumed in its place is in
`left`. -/
theorem Places.hand_out {s : St} (hp : Places s) (ha : s.alive = true) (c : Cid) (o t : Gid)
    (msg : channel_msg_t) (rest : List channel_msg_t) :
    Places (resume (hand_out s c o t msg rest) t (.value msg.data)) := by
  have hr := hp.resume_leave t (.value msg.data)
  have hleft : ∀ c' g,
      g ∈ (resume (Channel.hand_out s c o t msg rest) t (.value msg.data)).left c' ↔
        g ∈ (resume (leave s t (.value msg.data)) t (.value msg.data)).left c' ∧
          ¬ (c' = c ∧ g = o) := by
    intro c' g
    rw [resume_left (s := Channel.hand_out s c o t msg rest) ha, resume_left (by simpa using ha)]
    by_cases hc : c' = c
    · subst hc
      simp [Channel.hand_out, and_comm]
    · simp [Channel.hand_out, hc]
  have hloc : (resume (Channel.hand_out s c o t msg rest) t (.value msg.data)).loc =
      (resume (leave s t (.value msg.data)) t (.value msg.data)).loc := by
    rw [resume_loc, resume_loc, leave_loc, next_loc_congr (leave_loc s t _) (leave_alive s t _)]
    rfl
  refine ⟨fun c' g hg => ?_, fun c' g hg => ?_, fun g hg => ?_⟩
  · -- Waiters: the picked entry is the only one that goes
    have hg' : g ∈ (s.chans c').waiters ∧ ¬ (c' = c ∧ g = o) := by
      by_cases hc : c' = c
      · subst hc
        simpa [Channel.hand_out, and_comm] using hg
      · simpa [Channel.hand_out, hc] using hg
    rw [Receiving.congr hloc, hleft]
    rcases hr.waiting c' g (by simpa using hg'.1) with h | h
    · exact Or.inl h
    · exact Or.inr ⟨h, hg'.2⟩
  · rw [hleft] at hg
    rw [Receiving.congr hloc]
    exact hr.gone c' g hg.1
  · rw [hloc]
    exact hr.ended g (by simpa [Channel.hand_out] using hg)

theorem mem_add_waiter (s : St) (g g' : Gid) (c c' : Cid) :
    g' ∈ ((add_waiter s g c).chans c').waiters ↔
      g' ∈ (s.chans c').waiters ∨ c' = c ∧ g' = g := by
  by_cases hc : c' = c
  · subst hc
    simp [add_waiter, or_comm]
  · simp [add_waiter, hc]

theorem mem_add_waiter_left (s : St) (g g' : Gid) (c c' : Cid) :
    g' ∈ (add_waiter s g c).left c' ↔ g' ∈ s.left c' ∧ ¬ (c' = c ∧ g' = g) := by
  by_cases hc : c' = c
  · subst hc
    simp [add_waiter, and_comm]
  · simp [add_waiter, hc]

/-- A greenlet that calls into a channel receives nowhere. -/
theorem not_receiving {s : St} {g : Gid} (hfree : free s g = true) (c : Cid) :
    ¬ Receiving s g c := by
  have hg : s.loc g = .other ∧ s.dead g = false := by
    simpa [free] using hfree
  simp [Receiving, hg.1]

/-- `recv` adds the caller to the set and suspends it; when the loop cannot be
started it raises and leaves its entry behind. -/
theorem Places.recv {s : St} (hp : Places s) {g : Gid} (hfree : free s g = true) (c : Cid)
    (started : Bool) : Places (ChannelObject_recv s g c started) := by
  have hg := not_receiving hfree
  have hsame := recv_same s g c started
  rcases recv_cases s g c started with ⟨_, heq⟩ | ⟨_, hsus⟩
  · -- `start_loop` failed: the caller is in the set and not suspended
    rw [heq]
    refine ⟨fun c' g' hm => ?_, fun c' g' hm => ?_, hp.ended⟩
    · have hm' : g' ∈ (s.chans c').waiters ∨ c' = c ∧ g' = g := (mem_add_waiter s g g' c c').1 hm
      rw [mem_note_left, mem_add_waiter_left]
      show Receiving s g' c' ∨ _
      by_cases hcg : c' = c ∧ g' = g
      · exact Or.inr (Or.inr hcg)
      · rcases hp.waiting c' g' (hm'.resolve_right hcg) with h | h
        · exact Or.inl h
        · exact Or.inr (Or.inl ⟨h, hcg⟩)
    · rw [mem_note_left, mem_add_waiter_left] at hm
      show ¬ Receiving s g' c'
      rcases hm with hm | ⟨_, rfl⟩
      · exact hp.gone c' g' hm.1
      · exact hg c'
  · obtain ⟨w, hw, hloc⟩ := hsus.loc
    have hplace : ∀ g' c', Receiving (ChannelObject_recv s g c started) g' c' ↔
        if g' = g then w = .recv c' ∨ w = .start c' else Receiving s g' c' :=
      receiving_update (s := s) hloc
    have hthere : ∀ c', (w = .recv c' ∨ w = .start c') ↔ c' = c := by
      intro c'
      rcases hw with rfl | rfl
      · simp [eq_comm]
      · simp [eq_comm]
    refine ⟨fun c' g' hm => ?_, fun c' g' hm => ?_, fun g' hm => ?_⟩
    · -- Waiters: an entry the caller left on another channel stays in `left`
      rw [hsame.chans, mem_add_waiter] at hm
      rw [hplace, hthere, hsus.left, mem_add_waiter_left]
      by_cases hgg : g' = g
      · subst hgg
        by_cases hc : c' = c
        · exact Or.inl (by rw [if_pos rfl]; exact hc)
        · have hold := hp.waiting c' g' (hm.resolve_right fun h => hc h.1)
          exact Or.inr ⟨hold.resolve_left (hg c'), fun h => hc h.1⟩
      · rw [if_neg hgg]
        rcases hp.waiting c' g' (hm.resolve_right fun h => hgg h.2) with h | h
        · exact Or.inl h
        · exact Or.inr ⟨h, fun h' => hgg h'.2⟩
    · -- Left: an entry the caller left on this channel is good again
      rw [hsus.left, mem_add_waiter_left] at hm
      rw [hplace, hthere]
      by_cases hgg : g' = g
      · rw [if_pos hgg]
        exact fun hc => hm.2 ⟨hc, hgg⟩
      · rw [if_neg hgg]
        exact hp.gone c' g' hm.1
    · rw [hsame.dead] at hm
      have hne : g' ≠ g := by
        rintro rfl
        have halive : s.dead g' = false := by
          simp [free] at hfree
          exact hfree.2
        have hdead : s.dead g' = true := hm
        rw [halive] at hdead
        cases hdead
      rw [hloc, Function.update_of_ne hne]
      exact hp.ended g' hm

/-- `send` suspends its caller outside `recv`. -/
theorem Places.send {s : St} (hp : Places s) {g : Gid} (hfree : free s g = true) (c : Cid)
    (data : PyObj) : Places (ChannelObject_send s g c data) := by
  rcases send_cases s g c data with ⟨_, heq⟩ | ⟨_, hsent⟩
  · rw [heq]
    exact hp.congr (fun _ => rfl) rfl rfl rfl
  · have hw : ∀ c', ((ChannelObject_send s g c data).chans c').waiters =
        (s.chans c').waiters := fun c' => (send_chans s g c data c').1
    obtain ⟨_, _, _, hnleft, hnloc, hndead, _, _⟩ :=
      notify_to_loop_fields (pushed s c (make_chan_msg s g data)) c
    have hleft : (ChannelObject_send s g c data).left = s.left := hsent.left.trans hnleft
    have hdead : (ChannelObject_send s g c data).dead = s.dead := hsent.same.dead.trans hndead
    rcases hsent.loc with hloc | hloc
    · -- Case: buffered, the caller goes on
      exact hp.congr hw (hloc.trans hnloc) hleft hdead
    · -- Case: the caller is suspended in `send`
      rw [hnloc] at hloc
      have hplace := receiving_update (s := s) hloc
      refine ⟨fun c' g' hm => ?_, fun c' g' hm => ?_, fun g' hm => ?_⟩
      · rw [hw] at hm
        rw [hplace, hleft]
        by_cases hgg : g' = g
        · subst hgg
          exact Or.inr ((hp.waiting c' g' hm).resolve_left (not_receiving hfree c'))
        · rw [if_neg hgg]
          exact hp.waiting c' g' hm
      · rw [hleft] at hm
        rw [hplace]
        by_cases hgg : g' = g
        · simp [hgg]
        · rw [if_neg hgg]
          exact hp.gone c' g' hm
      · rw [hdead] at hm
        have hne : g' ≠ g := by
          rintro rfl
          simp [free, hm] at hfree
        rw [hloc, Function.update_of_ne hne]
        exact hp.ended g' hm

/-! ## One step -/

/-- What holds in every run. -/
structure Inv (s : St) : Prop where
  queue : Queue s
  places : Places s

theorem init_inv (bufsize : Cid → Nat) : Inv (init bufsize) :=
  ⟨init_queue bufsize, init_places bufsize⟩

theorem notify_round_inv {s s' : St} {c : Cid} {pick t : Gid}
    (h : notify_round s c pick t = some s') (ha : s.alive = true) (hi : Inv s) : Inv s' := by
  rcases notify_round_cases h with ⟨_, rfl⟩ | ⟨msg, rest, hp, _, _, rfl⟩
  · -- Case: the call ends
    exact ⟨hi.queue.congr (fun _ => rfl) rfl rfl (le_refl _),
      hi.places.congr (fun _ => rfl) rfl rfl rfl⟩
  · -- Case: a message is handed out
    exact ⟨(hi.queue.hand_out pick t hp).same (resume_same _ t _),
      hi.places.hand_out ha c pick t msg rest⟩

/-- Leaving a `recv` moves no message. -/
theorem resume_leave_inv {s : St} (hi : Inv s) (g : Gid) (r : Resumption) :
    Inv (resume (leave s g r) g r) :=
  ⟨hi.queue.same (resume_leave_same s g r), hi.places.resume_leave g r⟩

theorem send_inv {s : St} (hi : Inv s) {g : Gid} (hfree : free s g = true) (c : Cid)
    (data : PyObj) : Inv (ChannelObject_send s g c data) := by
  refine ⟨?_, hi.places.send hfree c data⟩
  rcases send_cases s g c data with ⟨_, heq⟩ | ⟨_, hsent⟩
  · rw [heq]
    exact hi.queue.congr (fun _ => rfl) rfl rfl (Nat.le_succ _)
  · obtain ⟨hacc, hhanded, _, _, _, _, _, hnext⟩ :=
      notify_to_loop_fields (pushed s c (make_chan_msg s g data)) c
    refine ((hi.queue.pushed g c data).congr (fun c' => ?_) hhanded hacc
      (Nat.le_of_eq hnext.symm)).same hsent.same
    rw [(notify_to_loop_pushed s c (make_chan_msg s g data)).1 c']
    by_cases hc : c' = c
    · subst hc
      simp [pushed]
    · simp [pushed, hc]

theorem recv_inv {s : St} (hi : Inv s) {g : Gid} (hfree : free s g = true) (c : Cid)
    (started : Bool) : Inv (ChannelObject_recv s g c started) := by
  refine ⟨?_, hi.places.recv hfree c started⟩
  have hadded : Queue (add_waiter s g c) := by
    refine hi.queue.congr (fun c' => ?_) rfl rfl (le_refl _)
    by_cases hc : c' = c
    · subst hc
      simp [add_waiter]
    · simp [add_waiter, hc]
  exact hadded.same (recv_same s g c started)

/-- Moving the loop or the frame moves no message and no greenlet. -/
theorem Inv.congr {s s' : St} (hi : Inv s) (hc : s'.chans = s.chans) (hloc : s'.loc = s.loc)
    (hd : s'.dead = s.dead) (hn : s'.nextMsg = s.nextMsg) (ha : s'.accepted = s.accepted)
    (hh : s'.handed = s.handed) (hl : s'.left = s.left) : Inv s' :=
  ⟨hi.queue.congr (fun _ => by rw [hc]) hh ha (le_of_eq hn.symm),
    hi.places.congr (fun _ => by rw [hc]) hloc hl hd⟩

/-- A greenlet that ends is in no channel operation. -/
theorem die_inv {s : St} (hi : Inv s) {g : Gid} (hfree : free s g = true) :
    Inv { s with dead := Function.update s.dead g true } := by
  have hg : s.loc g = .other ∧ s.dead g = false := by
    simpa [free] using hfree
  refine ⟨hi.queue.congr (fun _ => rfl) rfl rfl (le_refl _),
    hi.places.waiting, hi.places.gone, fun g' hm => ?_⟩
  by_cases hgg : g' = g
  · exact hgg ▸ hg.1
  · exact hi.places.ended g' (by simpa [Function.update_of_ne hgg] using hm)

theorem step_inv (s : St) (a : Act) (s' : St) (h : step s a = some s') (hi : Inv s) : Inv s' := by
  cases step_cases h with
  | send hfree => exact send_inv hi hfree _ _
  | recv hfree => exact recv_inv hi hfree _ _
  | @fire_notify _ _ _ loop _ halive _ _ hnotify =>
    have hloop : Inv { s with loop := loop } := hi.congr rfl rfl rfl rfl rfl rfl rfl
    rcases notify_cases hnotify with ⟨_, rfl⟩ | hround
    · exact hloop
    · exact notify_round_inv hround halive hloop
  | @delivered _ _ c o msg _ _ _ =>
    have hframe : Inv { s with frame := some (.returning c o msg) } :=
      hi.congr rfl rfl rfl rfl rfl rfl rfl
    exact resume_leave_inv hframe _ _
  | returned halive _ hround => exact notify_round_inv hround halive hi
  | throw _ => exact resume_leave_inv hi _ _
  | switch _ => exact resume_leave_inv hi _ _
  | die hfree => exact die_inv hi hfree
  | ended _ _ =>
    have hended : Inv (end_loop s) := hi.congr rfl rfl rfl rfl rfl rfl rfl
    exact resume_leave_inv hended _ _
  | fire_other _ _ _ | run | stop | call_soon => exact hi.congr rfl rfl rfl rfl rfl rfl rfl

/-! ## What a step delivers -/

/-- Order and uniqueness come from the queue, so only the answers and the places
are left to check. -/
theorem integrity_iff {s : St} (hq : Queue s) :
    Integrity s ↔ (∀ c, s.returned c = (s.handed c).map fun d => d.msg.data) ∧
      ∀ c, ∀ d ∈ s.handed c, d.atRecv = true := by
  constructor
  · intro h
    exact ⟨h.answered, h.atRecv⟩
  · rintro ⟨hanswered, hat⟩
    refine ⟨hanswered, fun c v hv => ?_, fun c => ⟨_, hq.split c⟩, fun c => ?_, hat⟩
    · -- a message that was handed out was accepted
      rw [hanswered c] at hv
      rcases List.mem_map.1 hv with ⟨d, hd, hdata⟩
      refine ⟨d.msg, ?_, hdata⟩
      rw [← hq.split c]
      exact List.mem_append_left _ (List.mem_map_of_mem hd)
    · have hnodup := hq.nodup c
      rw [← hq.split c, List.map_append, List.map_map] at hnodup
      exact hnodup.of_append_left

/-- A step that hands nothing out and makes no `recv` return keeps `Integrity`. -/
theorem Integrity.mono {s s' : St} (h : Integrity s) (hq : Queue s')
    (hr : s'.returned = s.returned) (hh : s'.handed = s.handed) : Integrity s' := by
  rw [integrity_iff hq, hr, hh]
  exact ⟨h.answered, h.atRecv⟩

/-- No `recv` returns exactly if the switch answers none. -/
theorem answer_eq_none_iff {s : St} {g : Gid} {v : PyObj} :
    (∀ c, answer s g v c = none) ↔ ¬ Answers s g := by
  constructor
  · rintro hnone ⟨c, hc⟩
    have h := hnone c
    rcases hc with hl | ⟨hl, ha⟩
    · simp [answer, hl] at h
    · simp [answer, hl, ha] at h
  · intro hno c
    have hrecv : s.loc g ≠ .recv c := fun hl => hno ⟨c, Or.inl hl⟩
    have hstart : ¬ (s.loc g = .start c ∧ s.alive = false) := fun hl => hno ⟨c, Or.inr hl⟩
    rw [answer, if_neg hrecv, if_neg hstart]

/-- A switch from outside `_notify`, or the one `_notify` makes into the caller
of a message, must make no `recv` return: nothing was handed out. -/
theorem resume_leave_integrity_iff {s : St} (hi : Inv s) (h : Integrity s) (g : Gid) (v : PyObj) :
    Integrity (resume (leave s g (.value v)) g (.value v)) ↔ ¬ Answers s g := by
  have hanswer : ∀ c, answer (leave s g (.value v)) g v c = answer s g v c := by
    intro c
    simp only [answer, leave_loc, leave_alive]
  rw [integrity_iff (resume_leave_inv hi g _).queue, (resume_leave_same s g _).handed,
    ← answer_eq_none_iff (v := v)]
  simp only [resume_returned, leave_returned, hanswer, ← h.answered]
  constructor
  · rintro ⟨hsame, _⟩ c
    simpa using hsame c
  · intro hnone
    exact ⟨fun c => by simp [hnone c], h.atRecv⟩

/-- A message handed to `t` is well delivered exactly if `t` is in `recv` on the
channel, which then returns it. -/
theorem hand_out_integrity_iff {s : St} (hi : Inv s) (h : Integrity s) (ha : s.alive = true)
    {c : Cid} (o t : Gid) {msg : channel_msg_t} {rest : List channel_msg_t}
    (hp : (s.chans c).pendings = msg :: rest) :
    Integrity (resume (hand_out s c o t msg rest) t (.value msg.data)) ↔ s.loc t = .recv c := by
  have hq : Queue (resume (hand_out s c o t msg rest) t (.value msg.data)) :=
    (hi.queue.hand_out o t hp).same (resume_same _ t _)
  rw [integrity_iff hq, resume_handed]
  constructor
  · -- the new delivery is one to a greenlet in `recv`
    rintro ⟨_, hat⟩
    have hnew : (⟨msg, t, s.loc t = .recv c⟩ : Delivery) ∈ (hand_out s c o t msg rest).handed c := by
      simp [hand_out]
    simpa using hat c _ hnew
  · -- its value is what that `recv` returns, and the others are as before
    intro hl
    have halive : (hand_out s c o t msg rest).alive = true := ha
    have hloc : (hand_out s c o t msg rest).loc t = .recv c := hl
    have hreturned : (hand_out s c o t msg rest).returned = s.returned := rfl
    refine ⟨fun c' => ?_, fun c' d hd => ?_⟩
    · rw [resume_returned, hreturned, h.answered c', answer, hloc]
      by_cases hc : c' = c
      · subst hc
        simp [hand_out]
      · simp [hand_out, hc, Ne.symm hc]
    · by_cases hc : c' = c
      · subst hc
        simp only [hand_out, Function.update_self, List.mem_append, List.mem_singleton] at hd
        rcases hd with hd | rfl
        · exact h.atRecv c' d hd
        · simpa using hl
      · simp only [hand_out, Function.update_of_ne hc] at hd
        exact h.atRecv c' d hd

/-- The landing greenlet is in `recv` on the channel exactly when the entry was
not left behind and is not in `start_loop`, a dead greenlet's ancestor apart. -/
theorem roundSound_iff {s : St} (hi : Inv s) {c : Cid} {pick t : Gid}
    (hp : (s.chans c).pendings ≠ []) (hmem : pick ∈ (s.chans c).waiters)
    (hl : lands s pick t = true) : RoundSound s c pick t ↔ s.loc t = .recv c := by
  have hw : (s.chans c).waiters ≠ ∅ := Finset.ne_empty_of_mem hmem
  have hlands : t = pick ∧ s.dead pick = false ∨ s.dead pick = true ∧ s.dead t = false := by
    simpa [lands] using hl
  constructor
  · -- such an entry is suspended in `recv`
    intro hsound
    rcases hsound hp hw with ⟨hleft, hstart⟩ | ⟨_, hloc⟩
    · have hloc : s.loc pick = .recv c :=
        ((hi.places.waiting c pick hmem).resolve_right hleft).resolve_right hstart
      rcases hlands with ⟨rfl, _⟩ | ⟨hdead, _⟩
      · exact hloc
      · -- a dead greenlet is in no `recv`
        rw [hi.places.ended pick hdead] at hloc
        cases hloc
    · exact hloc
  · -- who is in `recv` has not left it
    intro hloc _ _
    rcases hlands with ⟨rfl, _⟩ | ⟨hdead, _⟩
    · left
      refine ⟨fun hleft => hi.places.gone c t hleft (Or.inl hloc), ?_⟩
      rw [hloc]
      exact Where.noConfusion
    · exact Or.inr ⟨hdead, hloc⟩

theorem notify_round_integrity_iff {s s' : St} {c : Cid} {pick t : Gid}
    (h : notify_round s c pick t = some s') (ha : s.alive = true) (hi : Inv s)
    (hg : Integrity s) : Integrity s' ↔ RoundSound s c pick t := by
  rcases notify_round_cases h with ⟨hdone, rfl⟩ | ⟨msg, rest, hp, hmem, hl, rfl⟩
  · -- Case: the call ends, and there was nothing to hand out
    refine iff_of_true (hg.mono (notify_round_inv h ha hi).queue rfl rfl) ?_
    intro hp hw
    rcases hdone with hd | hd
    · exact absurd hd hp
    · exact absurd hd hw
  · have hne : (s.chans c).pendings ≠ [] := by
      rw [hp]
      simp
    rw [hand_out_integrity_iff hi hg ha pick t hp, roundSound_iff hi hne hmem hl]

/-- `send` hands nothing out. -/
theorem send_history (s : St) (g : Gid) (c : Cid) (data : PyObj) :
    (ChannelObject_send s g c data).returned = s.returned ∧
      (ChannelObject_send s g c data).handed = s.handed := by
  rcases send_cases s g c data with ⟨_, heq⟩ | ⟨_, hsent⟩
  · rw [heq]
    exact ⟨rfl, rfl⟩
  · obtain ⟨_, hhanded, hreturned, _⟩ :=
      notify_to_loop_fields (pushed s c (make_chan_msg s g data)) c
    exact ⟨hsent.returned.trans hreturned, hsent.same.handed.trans hhanded⟩

/-- Nor does `recv`, and it returns nothing before its first switch. -/
theorem recv_returned (s : St) (g : Gid) (c : Cid) (started : Bool) :
    (ChannelObject_recv s g c started).returned = s.returned := by
  rcases recv_cases s g c started with ⟨_, heq⟩ | ⟨_, hsus⟩
  · rw [heq]
    rfl
  · exact hsus.returned

/-- A fired `_notify` is as sound as its first round. -/
theorem fire_sound_iff {s : St} {loop : LoopObject Callback} {c : Cid} (pick t : Gid)
    (hfire : s.loop.fire_pendings_next s.dead = some (loop, .call (.notify c))) :
    Sound s (.fire pick t) ↔ RoundSound s c pick t := by
  constructor
  · intro hs
    exact hs loop c hfire
  · intro hs loop' c' hfire'
    rw [hfire] at hfire'
    cases hfire'
    exact hs

/-- The parent of the loop's greenlet goes on from a `recv` with `None`, which no
message brought. -/
theorem ended_integrity_iff {s : St} (hi : Inv s) (hg : Integrity s) (parent : Gid)
    (error : Option Exc) :
    Integrity (resume (leave (end_loop s) parent (outcome error)) parent (outcome error)) ↔
      Sound s (.ended parent error) := by
  have hended : Inv (end_loop s) := hi.congr rfl rfl rfl rfl rfl rfl rfl
  have hgended : Integrity (end_loop s) := hg.mono hended.queue rfl rfl
  cases error with
  | none =>
    have hiff := resume_leave_integrity_iff hended hgended parent .None
    have hplaces : ¬ Answers (end_loop s) parent ↔ ∀ c, ¬ Receiving s parent c := by
      simp [Answers, Receiving, end_loop, set_state]
    exact hiff.trans hplaces
  | some e =>
    refine iff_of_true (hgended.mono (resume_leave_inv hended parent _).queue ?_ ?_) trivial
    · simp [outcome, resume_throw_returned]
    · simp

/-- What one step does to `Integrity`. -/
theorem step_integrity_iff (s : St) (a : Act) (s' : St) (h : step s a = some s') (hi : Inv s)
    (hg : Integrity s) : Integrity s' ↔ Sound s a := by
  have hq : Queue s' := (step_inv s a s' h hi).queue
  cases step_cases h with
  | @send g c data _ =>
    rcases send_history s g c data with ⟨hr, hh⟩
    exact iff_of_true (hg.mono hq hr hh) trivial
  | @recv g c started _ =>
    exact iff_of_true (hg.mono hq (recv_returned s g c started) (recv_same s g c started).handed)
      trivial
  | @fire_notify pick t c loop _ halive _ hfire hnotify =>
    have hloop : Inv { s with loop := loop } := hi.congr rfl rfl rfl rfl rfl rfl rfl
    have hgloop : Integrity { s with loop := loop } := hg.mono hloop.queue rfl rfl
    rw [fire_sound_iff pick t hfire]
    rcases notify_cases hnotify with ⟨hempty, rfl⟩ | hround
    · -- Case: "pendings size zero", and nothing is handed out
      exact iff_of_true hgloop fun hp => absurd hempty hp
    · have hiff := notify_round_integrity_iff hround halive hloop hgloop
      exact hiff
  | fire_other _ hfire hne =>
    refine iff_of_true (hg.mono hq rfl rfl) fun loop' c' hfire' => ?_
    rw [hfire] at hfire'
    cases hfire'
    exact absurd rfl (hne c')
  | @delivered _ t c o msg _ hframe _ =>
    have hinv : Inv { s with frame := some (.returning c o msg) } :=
      hi.congr rfl rfl rfl rfl rfl rfl rfl
    have hgf : Integrity { s with frame := some (.returning c o msg) } :=
      hg.mono hinv.queue rfl rfl
    simp only [Sound, hframe]
    exact resume_leave_integrity_iff hinv hgf t _
  | returned halive hframe hround =>
    simp only [Sound, hframe]
    exact notify_round_integrity_iff hround halive hi hg
  | throw _ =>
    exact iff_of_true (hg.mono hq (by simp [resume_throw_returned]) (by simp)) trivial
  | switch _ => exact resume_leave_integrity_iff hi hg _ _
  | ended _ _ => exact ended_integrity_iff hi hg _ _
  | die _ | run | stop | call_soon => exact iff_of_true (hg.mono hq rfl rfl) trivial

/-! ## Runs -/

theorem init_integrity (bufsize : Cid → Nat) : Integrity (init bufsize) := by
  rw [integrity_iff (init_queue bufsize)]
  exact ⟨fun _ => rfl, fun c d hd => by simp [init] at hd⟩

/-- The deliveries of a run are sound exactly when all its steps are. -/
theorem integrity_iff_sound (bufsize : Cid → Nat) (as : List Act) (t : St)
    (h : Trace.run step (init bufsize) as = some t) :
    Trace.Always step Integrity (init bufsize) as ↔ Trace.Steps step Sound (init bufsize) as :=
  Trace.always_iff_steps (fun s a s' hs _ hi _ => step_inv s a s' hs hi) step_integrity_iff
    (init_inv bufsize) (init_integrity bufsize) h

/-- A receiver takes the message of a sender that goes on to `recv` on another
channel. -/
def buffered : List Act :=
  [.send 2 0 (.obj 7), .recv 2 1 true, .recv 1 0 true, .fire 1 1]

theorem integrity_buffered : ∃ t, Trace.run step (init fun _ => 2) buffered = some t ∧
    (Trace.Always step Integrity (init fun _ => 2) buffered ↔
      Trace.Steps step Sound (init fun _ => 2) buffered) := by
  have h : (Trace.run step (init fun _ => 2) buffered).any (fun _ => true) = true := by
    decide
  rcases Trace.run_any h with ⟨t, ht, _⟩
  exact ⟨t, ht, integrity_iff_sound _ _ t ht⟩

/-- The second switch of that `_notify` makes the `recv` of the sender return
`loop_switch_value`, which nobody sent. -/
theorem buffered_breaks_integrity : ∃ t,
    Trace.run step (init fun _ => 2) (buffered ++ [.notify 0 2]) = some t ∧ ¬ Integrity t := by
  have h : (Trace.run step (init fun _ => 2) (buffered ++ [.notify 0 2])).any (fun t =>
      decide (.loop_switch_value ∈ t.returned 1) && decide (t.accepted 1 = [])) = true := by
    decide
  rcases Trace.run_any h with ⟨t, ht, hp⟩
  rw [Bool.and_eq_true, decide_eq_true_eq, decide_eq_true_eq] at hp
  refine ⟨t, ht, fun hi => ?_⟩
  rcases hi.sent 1 _ hp.1 with ⟨msg, hm, _⟩
  rw [hp.2] at hm
  cases hm

/-- A receiver whose deadline passed is handed the next message. -/
theorem timeout_breaks_integrity : ∃ t,
    Trace.run step (init fun _ => 2)
      [.recv 1 0 true, .throw 1 (.TimeoutException (some 0)), .send 2 0 (.obj 7),
        .fire 1 1] = some t ∧ ¬ Integrity t := by
  have h : (Trace.run step (init fun _ => 2)
      [.recv 1 0 true, .throw 1 (.TimeoutException (some 0)), .send 2 0 (.obj 7),
        .fire 1 1]).any (fun t => decide (⟨⟨0, 2, .obj 7⟩, 1, false⟩ ∈ t.handed 0)) = true := by
    decide
  rcases Trace.run_any h with ⟨t, ht, hp⟩
  rw [decide_eq_true_eq] at hp
  refine ⟨t, ht, fun hi => ?_⟩
  have hat := hi.atRecv 0 _ hp
  cases hat

/-- A receiver whose `start_loop` runs a stopped loop is handed a message there,
which `recv` drops. -/
theorem started_breaks_integrity : ∃ t,
    Trace.run step (init fun _ => 2)
      [.stop, .recv 1 0 true, .send 2 0 (.obj 7), .fire 1 1] = some t ∧
      t.loc 1 = .recv 0 ∧ ¬ Integrity t := by
  have h : (Trace.run step (init fun _ => 2)
      [.stop, .recv 1 0 true, .send 2 0 (.obj 7), .fire 1 1]).any (fun t =>
        decide (t.loc 1 = .recv 0) && decide (⟨⟨0, 2, .obj 7⟩, 1, false⟩ ∈ t.handed 0)) = true := by
    decide
  rcases Trace.run_any h with ⟨t, ht, hp⟩
  rw [Bool.and_eq_true, decide_eq_true_eq, decide_eq_true_eq] at hp
  refine ⟨t, ht, hp.1, fun hi => ?_⟩
  have hat := hi.atRecv 0 _ hp.2
  cases hat

end Jega.Channel
