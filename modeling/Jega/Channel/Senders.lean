import Jega.Channel.Integrity
import Jega.Trace.History

/-!
# Jega.Channel.Senders — whom `_notify` resumes

After it has delivered a message, `_notify` switches into the caller of the
message. `send` blocks only when the queue has reached `bufsize`, and a blocked
`send` may be left by an exception or by any other switch; the caller of such a
message is somewhere else when `_notify` comes to it, and is resumed there.

`Record` is history: the switches into callers, and the messages whose senders
do not wait for theirs.

## Main result

* `own_senders_iff`: the exact condition for every such switch to resume the
  `send` of its own message, along every run.
-/

namespace Jega.Channel

open Trace

/-! ## The record of a run -/

/-- A switch of `_notify` into the caller of a message; `inSend` tells whether
the caller was suspended in the `send` of that message. -/
structure Return where
  msg : channel_msg_t
  inSend : Bool
deriving DecidableEq, Repr

structure Record where
  returns : Cid → List Return
  /-- The messages whose senders did not block, or were resumed by something
  else. -/
  abandoned : Mid → Bool

def Record.empty : Record := ⟨fun _ => [], fun _ => false⟩

/-- The greenlet the step resumes. -/
def resumed (a : Act) (s' : St) : Option Gid :=
  match a with
  | .throw g _ => some g
  | .switch g _ => some g
  | .ended parent _ => some parent
  -- `_notify` has made a switch if it is suspended in one
  | .fire _ t => if s'.frame.isSome then some t else none
  | .notify _ t => if s'.frame.isSome then some t else none
  | _ => none

/-- The message whose caller `_notify` switches into in this step. -/
def returning (s : St) : Act → Option (Cid × channel_msg_t)
  | .notify _ _ =>
    match s.frame with
    | some (.delivering c _ msg) => some (c, msg)
    | _ => none
  | _ => none

/-- The message whose `send` the greenlet is suspended in. -/
def in_send (s : St) (g : Gid) : Option Mid :=
  match s.loc g with
  | .send _ m => some m
  | _ => none

/-- The step is a `send` that does not block, or it resumes the sender of `m`
and is not the switch of `_notify` for `m`. -/
def abandons (s : St) (a : Act) (s' : St) (m : Mid) : Bool :=
  match a with
  | .send g _ _ => m = s.nextMsg && s'.loc g = .other
  | a =>
    (resumed a s').any (fun g => in_send s g = some m) &&
      (returning s a).all (fun r => r.2.addr ≠ m)

/-- The record after a step. -/
def Record.note (s : St) (a : Act) (s' : St) (r : Record) : Record where
  returns := fun c =>
    match returning s a with
    | some (c', msg) =>
      if c = c' then r.returns c ++ [⟨msg, in_send s msg.caller = some msg.addr⟩] else r.returns c
    | none => r.returns c
  abandoned := fun m => r.abandoned m || abandons s a s' m

abbrev recorded := watch step Record.note

def recorded_init (bufsize : Cid → Nat) : Watched St Record := ⟨init bufsize, .empty⟩

/-- The message `_notify` has delivered on the channel and not returned for. -/
def delivering (s : St) (c : Cid) : List channel_msg_t :=
  match s.frame with
  | some (.delivering c' _ msg) => if c = c' then [msg] else []
  | _ => []

/-- `_notify` resumes senders, and each one once: for the message it is blocked
on, when that message is delivered. -/
structure OwnSenders (t : Watched St Record) : Prop where
  own : ∀ c, ∀ r ∈ t.hist.returns c, r.inSend = true
  once : ∀ c, ((t.hist.returns c).map fun r => r.msg.addr).Nodup
  delivered : ∀ c,
    (t.st.handed c).map Delivery.msg = (t.hist.returns c).map Return.msg ++ delivering t.st c
  blocked : ∀ g c m, t.st.loc g = .send c m → ∀ r ∈ t.hist.returns c, r.msg.addr ≠ m

/-- `_notify` does not switch into the sender of an abandoned message. -/
def Awaited (t : Watched St Record) (a : Act) : Prop :=
  ∀ c msg, returning t.st a = some (c, msg) → t.hist.abandoned msg.addr = false

/-! ## The invariant -/

/-- A message that is still to be returned for. -/
def Open (s : St) (c : Cid) (msg : channel_msg_t) : Prop :=
  msg ∈ (s.chans c).pendings ∨ msg ∈ delivering s c

structure Sending (t : Watched St Record) : Prop where
  inv : Inv t.st
  /-- Messages are told apart by their addresses, also on different channels. -/
  apart : ∀ c c' msg msg', msg ∈ t.st.accepted c → msg' ∈ t.st.accepted c' →
    msg.addr = msg'.addr → c = c' ∧ msg = msg'
  delivered : ∀ c,
    (t.st.handed c).map Delivery.msg = (t.hist.returns c).map Return.msg ++ delivering t.st c
  /-- Who is suspended in `send` is the caller of an open message. -/
  blocked : ∀ g c m, t.st.loc g = .send c m → ∃ msg, Open t.st c msg ∧ msg.addr = m ∧
    msg.caller = g ∧ t.hist.abandoned m = false
  /-- The caller of an open message waits, or abandoned it. -/
  waiting : ∀ c msg, Open t.st c msg → t.hist.abandoned msg.addr = false →
    t.st.loc msg.caller = .send c msg.addr
  fresh : ∀ m, t.hist.abandoned m = true → m < t.st.nextMsg

theorem sending_init (bufsize : Cid → Nat) : Sending (recorded_init bufsize) where
  inv := init_inv bufsize
  apart := nofun
  delivered := fun _ => rfl
  blocked := nofun
  waiting := by
    intro c msg hopen _
    rcases hopen with h | h
    · simp [recorded_init, init, create_channel] at h
    · simp [recorded_init, init, delivering] at h
  fresh := nofun

section Facts

variable {t : Watched St Record}

/-- The messages of a channel, in the order they were accepted. -/
theorem Sending.split (ht : Sending t) (c : Cid) :
    (t.hist.returns c).map Return.msg ++ delivering t.st c ++ (t.st.chans c).pendings =
      t.st.accepted c := by
  rw [← ht.delivered]
  exact ht.inv.queue.split c

theorem Sending.open_accepted (ht : Sending t) {c : Cid} {msg : channel_msg_t}
    (h : Open t.st c msg) : msg ∈ t.st.accepted c := by
  rw [← ht.split c, List.mem_append, List.mem_append]
  rcases h with h | h
  · exact .inr h
  · exact .inl (.inr h)

theorem Sending.nodup (ht : Sending t) (c : Cid) :
    ((t.hist.returns c).map (fun r => r.msg.addr) ++ (delivering t.st c).map channel_msg_t.addr ++
      (t.st.chans c).pendings.map channel_msg_t.addr).Nodup := by
  have hnodup := ht.inv.queue.nodup c
  rw [← ht.split c] at hnodup
  simpa [Function.comp_def] using hnodup

/-- An open message was not returned for. -/
theorem Sending.not_returned (ht : Sending t) {c : Cid} {msg : channel_msg_t}
    (h : Open t.st c msg) : ∀ r ∈ t.hist.returns c, r.msg.addr ≠ msg.addr := by
  intro r hr heq
  have hnodup := ht.nodup c
  rw [List.append_assoc] at hnodup
  refine List.disjoint_of_nodup_append hnodup (List.mem_map_of_mem hr) ?_
  rw [heq, List.mem_append]
  rcases h with h | h
  · exact .inr (List.mem_map_of_mem h)
  · exact .inl (List.mem_map_of_mem h)

/-- What fails in a state can only be a switch into a sender elsewhere. -/
theorem Sending.ownSenders_iff (ht : Sending t) :
    OwnSenders t ↔ ∀ c, ∀ r ∈ t.hist.returns c, r.inSend = true := by
  constructor
  · exact OwnSenders.own
  · intro hown
    refine ⟨hown, fun c => ?_, ht.delivered, fun g c m hg r hr => ?_⟩
    · have hnodup := ht.nodup c
      rw [List.append_assoc] at hnodup
      exact (List.nodup_append.1 hnodup).1
    · obtain ⟨msg, hopen, hm, _⟩ := ht.blocked g c m hg
      exact hm ▸ ht.not_returned hopen r hr

/-- A greenlet is suspended in the `send` of an open message of its own exactly
if it did not abandon it. -/
theorem Sending.in_send_iff (ht : Sending t) {c : Cid} {msg : channel_msg_t}
    (h : Open t.st c msg) :
    in_send t.st msg.caller = some msg.addr ↔ t.hist.abandoned msg.addr = false := by
  constructor
  · intro hs
    unfold in_send at hs
    split at hs
    next c' m hl =>
      cases hs
      exact (ht.blocked _ c' _ hl).choose_spec.2.2.2
    · cases hs
  · intro ha
    simp only [in_send, ht.waiting c msg h ha]

end Facts

/-! ## How the invariant is kept -/

theorem in_send_eq_some {s : St} {g : Gid} {m : Mid} :
    in_send s g = some m ↔ ∃ c, s.loc g = .send c m := by
  unfold in_send
  constructor
  · intro h
    split at h
    next c m' hl =>
      cases h
      exact ⟨c, hl⟩
    · cases h
  · rintro ⟨c, hl⟩
    rw [hl]

/-- A step that is no `send` abandons the message of the sender it resumes. -/
theorem abandons_iff {s s' : St} {a : Act} {m : Mid}
    (ha : ∀ g c data, a ≠ .send g c data) :
    abandons s a s' m = true ↔ ∃ g c, resumed a s' = some g ∧ s.loc g = .send c m ∧
      ∀ r, returning s a = some r → r.2.addr ≠ m := by
  have heq : abandons s a s' m = ((resumed a s').any (fun g => in_send s g = some m) &&
      (returning s a).all (fun r => r.2.addr ≠ m)) := by
    cases a with
    | send g c data => exact absurd rfl (ha g c data)
    | _ => rfl
  rw [heq, Bool.and_eq_true, Option.any_eq_true, Option.all_eq_true]
  simp only [decide_eq_true_eq, in_send_eq_some]
  constructor
  · rintro ⟨⟨g, hg, c, hc⟩, hall⟩
    exact ⟨g, c, hg, hc, hall⟩
  · rintro ⟨g, c, hg, hc, hall⟩
    exact ⟨⟨g, hg, c, hc⟩, hall⟩

/-- A step that accepts no message: senders leave their places only when they
are resumed, and then their message was abandoned or is returned for. -/
theorem Sending.moved {t t' : Watched St Record} (ht : Sending t) (hinv : Inv t'.st)
    (hacc : t'.st.accepted = t.st.accepted) (hnext : t.st.nextMsg ≤ t'.st.nextMsg)
    (hdelivered : ∀ c,
      (t'.st.handed c).map Delivery.msg = (t'.hist.returns c).map Return.msg ++ delivering t'.st c)
    (hopen : ∀ c msg, Open t'.st c msg → Open t.st c msg)
    (hclosed : ∀ c msg, Open t.st c msg →
      Open t'.st c msg ∨ t'.st.loc msg.caller ≠ .send c msg.addr)
    (hloc : ∀ g c m, t'.st.loc g = .send c m → t.st.loc g = .send c m)
    (habandoned : ∀ m, t'.hist.abandoned m = true → t.hist.abandoned m = true ∨
      ∃ g c, t.st.loc g = .send c m ∧ ∀ c' m', t'.st.loc g ≠ .send c' m')
    (hmono : ∀ m, t.hist.abandoned m = true → t'.hist.abandoned m = true)
    (hstays : ∀ c msg, Open t'.st c msg → t.st.loc msg.caller = .send c msg.addr →
      t'.hist.abandoned msg.addr = false → t'.st.loc msg.caller = .send c msg.addr) :
    Sending t' where
  inv := hinv
  apart := by
    rw [hacc]
    exact ht.apart
  delivered := hdelivered
  blocked := by
    intro g c m hg
    obtain ⟨msg, hold, hm, hcaller, hnot⟩ := ht.blocked g c m (hloc g c m hg)
    have hstill : Open t'.st c msg := by
      rcases hclosed c msg hold with h | h
      · exact h
      · rw [hcaller, hm] at h
        exact absurd hg h
    refine ⟨msg, hstill, hm, hcaller, ?_⟩
    rw [← Bool.not_eq_true]
    intro hab
    rcases habandoned m hab with hab | ⟨g', c', hg', hgone⟩
    · rw [hnot] at hab
      cases hab
    · -- whoever left was in the same `send`
      obtain ⟨msg', hopen', hm', hcaller', _⟩ := ht.blocked g' c' m hg'
      obtain ⟨_, hsame⟩ := ht.apart c c' msg msg' (ht.open_accepted hold)
        (ht.open_accepted hopen') (hm.trans hm'.symm)
      have hgg : g' = g := by
        rw [← hcaller', ← hsame, hcaller]
      exact hgone c m (hgg ▸ hg)
  waiting := by
    intro c msg ho hnot
    have hbefore : t.hist.abandoned msg.addr = false := by
      rw [← Bool.not_eq_true]
      intro hab
      rw [hmono _ hab] at hnot
      cases hnot
    exact hstays c msg ho (ht.waiting c msg (hopen c msg ho) hbefore) hnot
  fresh := by
    intro m hab
    rcases habandoned m hab with hab | ⟨g, c, hg, _⟩
    · exact Nat.lt_of_lt_of_le (ht.fresh m hab) hnext
    · obtain ⟨msg, ho, hm, _⟩ := ht.blocked g c m hg
      have hlt := ht.inv.queue.fresh c msg (ht.open_accepted ho)
      exact Nat.lt_of_lt_of_le (hm ▸ hlt) hnext

/-- A step that resumes nobody records nothing. -/
theorem note_quiet {s s' : St} {a : Act} (ha : ∀ g c data, a ≠ .send g c data)
    (hres : resumed a s' = none) (hret : returning s a = none) (r : Record) :
    Record.note s a s' r = r := by
  have hab : ∀ m, abandons s a s' m = false := by
    intro m
    rw [← Bool.not_eq_true, abandons_iff ha]
    rintro ⟨g, c, hg, _⟩
    rw [hres] at hg
    cases hg
  simp only [Record.note, hret, hab, Bool.or_false]

theorem Sending.quiet {t : Watched St Record} {s' : St} {a : Act} (ht : Sending t) (hinv : Inv s')
    (ha : ∀ g c data, a ≠ .send g c data) (hres : resumed a s' = none)
    (hret : returning t.st a = none) (hacc : s'.accepted = t.st.accepted)
    (hnext : s'.nextMsg = t.st.nextMsg) (hhanded : s'.handed = t.st.handed)
    (hframe : ∀ c, delivering s' c = delivering t.st c)
    (hpend : ∀ c, (s'.chans c).pendings = (t.st.chans c).pendings)
    (hloc : ∀ g c m, s'.loc g = .send c m ↔ t.st.loc g = .send c m) :
    Sending ⟨s', Record.note t.st a s' t.hist⟩ := by
  have hopen : ∀ c msg, Open s' c msg ↔ Open t.st c msg := by
    intro c msg
    simp only [Open, hframe, hpend]
  rw [note_quiet ha hres hret]
  refine ht.moved hinv hacc (Nat.le_of_eq hnext.symm) ?_ (fun c msg => (hopen c msg).1)
    (fun c msg h => .inl ((hopen c msg).2 h)) (fun g c m => (hloc g c m).1) (fun m h => .inl h)
    (fun m h => h) (fun c msg _ h _ => (hloc _ c _).2 h)
  intro c
  show (s'.handed c).map Delivery.msg = _
  rw [hhanded, hframe]
  exact ht.delivered c

/-- A greenlet that was resumed is in no `send`. -/
theorem resumed_loc {s s' : St} {g : Gid} {w : Where} (hw : ∀ c m, w ≠ .send c m)
    (hloc : s'.loc = Function.update s.loc g w) (c : Cid) (m : Mid) : s'.loc g ≠ .send c m := by
  rw [hloc, Function.update_self]
  exact hw c m

/-- One greenlet is resumed, and abandons the message it waits for unless that
is returned for. -/
theorem Sending.resumes {t : Watched St Record} {s' : St} {a : Act} {g : Gid} {w : Where}
    (ht : Sending t)
    (hinv : Inv s') (hacc : s'.accepted = t.st.accepted) (hnext : s'.nextMsg = t.st.nextMsg)
    (hdelivered : ∀ c, (s'.handed c).map Delivery.msg =
      ((Record.note t.st a s' t.hist).returns c).map Return.msg ++ delivering s' c)
    (hopen : ∀ c msg, Open s' c msg → Open t.st c msg)
    (hclosed : ∀ c msg, Open t.st c msg → Open s' c msg ∨ s'.loc msg.caller ≠ .send c msg.addr)
    (hw : ∀ c m, w ≠ .send c m) (hloc : s'.loc = Function.update t.st.loc g w)
    (habandons : ∀ m, abandons t.st a s' m = true → ∃ c, t.st.loc g = .send c m)
    (hleft : ∀ c msg, Open s' c msg → t.st.loc g = .send c msg.addr →
      abandons t.st a s' msg.addr = true) :
    Sending ⟨s', Record.note t.st a s' t.hist⟩ := by
  refine ht.moved hinv hacc (Nat.le_of_eq hnext.symm) hdelivered hopen hclosed ?_ ?_ ?_ ?_
  · intro g' c m hg'
    by_cases hgg : g' = g
    · exact absurd (hgg ▸ hg') (resumed_loc hw hloc c m)
    · rwa [hloc, Function.update_of_ne hgg] at hg'
  · intro m hab
    simp only [Record.note, Bool.or_eq_true] at hab
    rcases hab with hab | hab
    · exact .inl hab
    · obtain ⟨c, hc⟩ := habandons m hab
      exact .inr ⟨g, c, hc, resumed_loc hw hloc⟩
  · intro m hab
    simp only [Record.note, hab, Bool.true_or]
  · intro c msg ho hwait hnot
    simp only [Record.note, Bool.or_eq_false_iff] at hnot
    have hne : msg.caller ≠ g := by
      rintro rfl
      rw [hleft c msg ho hwait] at hnot
      cases hnot.2
    rw [hloc, Function.update_of_ne hne]
    exact hwait

/-- A greenlet is resumed by anything but the switch of `_notify` into the
caller of a delivered message. -/
theorem Sending.interrupted {t : Watched St Record} {s' : St} {a : Act} {g : Gid}
    {w : Where} (ht : Sending t) (hinv : Inv s') (ha : ∀ g c data, a ≠ .send g c data)
    (hres : resumed a s' = some g) (hret : returning t.st a = none)
    (hacc : s'.accepted = t.st.accepted) (hnext : s'.nextMsg = t.st.nextMsg)
    (hdelivered : ∀ c,
      (s'.handed c).map Delivery.msg = (t.hist.returns c).map Return.msg ++ delivering s' c)
    (hopen : ∀ c msg, Open s' c msg ↔ Open t.st c msg)
    (hw : ∀ c m, w ≠ .send c m) (hloc : s'.loc = Function.update t.st.loc g w) :
    Sending ⟨s', Record.note t.st a s' t.hist⟩ := by
  have hreturns : (Record.note t.st a s' t.hist).returns = t.hist.returns := by
    simp only [Record.note, hret]
  refine ht.resumes (g := g) hinv hacc hnext (fun c => ?_) (fun c msg => (hopen c msg).1)
    (fun c msg h => .inl ((hopen c msg).2 h)) hw hloc (fun m hab => ?_) (fun c msg _ hwait => ?_)
  · rw [hreturns]
    exact hdelivered c
  · obtain ⟨g', c, hg', hc, _⟩ := (abandons_iff ha).1 hab
    rw [hres] at hg'
    cases hg'
    exact ⟨c, hc⟩
  · refine (abandons_iff ha).2 ⟨g, c, hres, hwait, fun r hr => ?_⟩
    rw [hret] at hr
    cases hr

/-- A round of `_notify` ends the call, or moves the first message of the queue
to the frame and resumes one greenlet. -/
theorem Sending.round {t : Watched St Record} {l : LoopObject Callback} {s' : St} {c : Cid}
    {pick o : Gid} {a : Act} (ht : Sending t) (hinv : Inv s')
    (h : notify_round { t.st with loop := l } c pick o = some s')
    (hframe : ∀ c, delivering t.st c = []) (ha : ∀ g c data, a ≠ .send g c data)
    (hres : resumed a s' = if s'.frame.isSome then some o else none)
    (hret : returning t.st a = none) : Sending ⟨s', Record.note t.st a s' t.hist⟩ := by
  rcases notify_round_cases h with ⟨_, heq⟩ | ⟨msg, rest, hp, _, _, heq⟩
  · -- Case: the call ends
    subst heq
    exact ht.quiet hinv ha hres hret rfl rfl rfl (fun c' => (hframe c').symm) (fun _ => rfl)
      (fun _ _ _ => Iff.rfl)
  · -- Case: a message is handed out
    have hpend : (t.st.chans c).pendings = msg :: rest := hp
    have hframe' : s'.frame = some (.delivering c pick msg) := by
      rw [heq, resume_frame]
      rfl
    have hdeliv : ∀ c', delivering s' c' = if c' = c then [msg] else [] := by
      intro c'
      simp only [delivering, hframe']
    have hchans : ∀ c', (s'.chans c').pendings =
        if c' = c then rest else (t.st.chans c').pendings := by
      intro c'
      rw [heq, resume_chans]
      by_cases hc : c' = c
      · subst hc
        simp [hand_out]
      · simp [hand_out, hc]
    have hhanded : ∀ c', (s'.handed c').map Delivery.msg =
        (t.hist.returns c').map Return.msg ++ delivering s' c' := by
      intro c'
      have hold := ht.delivered c'
      rw [hframe c', List.append_nil] at hold
      rw [← hold, hdeliv, heq, resume_handed]
      by_cases hc : c' = c
      · subst hc
        simp [hand_out]
      · simp [hand_out, hc]
    refine ht.interrupted (g := o) hinv ha ?_ hret ?_ ?_ hhanded ?_
      (next_loc_ne_send (hand_out { t.st with loop := l } c pick o msg rest) o (.value msg.data)) ?_
    · rw [hres, hframe']
      rfl
    · rw [heq, resume_accepted]
      rfl
    · rw [heq, resume_nextMsg]
      rfl
    · intro c' msg'
      simp only [Open, hchans, hdeliv, hframe c']
      by_cases hc : c' = c
      · subst hc
        simp [hpend, or_comm]
      · simp [hc]
    · rw [heq, resume_loc]
      rfl

/-- The switch of `_notify` into the caller of a delivered message. -/
theorem Sending.returned {t : Watched St Record} {s' : St} {c : Cid} {o o' pick : Gid}
    {msg : channel_msg_t} (ht : Sending t) (hinv : Inv s')
    (hframe : t.st.frame = some (.delivering c o msg))
    (hlands : lands t.st msg.caller o' = true)
    (heq : s' = resume (leave { t.st with frame := some (.returning c o msg) } o'
      (.value .loop_switch_value)) o' (.value .loop_switch_value)) :
    Sending ⟨s', Record.note t.st (.notify pick o') s' t.hist⟩ := by
  have hret : returning t.st (.notify pick o') = some (c, msg) := by
    simp only [returning, hframe]
  have hframe' : s'.frame = some (.returning c o msg) := by
    rw [heq, resume_frame, leave_frame]
  have hres : resumed (.notify pick o') s' = some o' := by
    simp [resumed, hframe']
  have hdeliv : ∀ c', delivering s' c' = [] := by
    intro c'
    simp only [delivering, hframe']
  have hdelivOld : ∀ c', delivering t.st c' = if c' = c then [msg] else [] := by
    intro c'
    simp only [delivering, hframe]
  have hpend : ∀ c', (s'.chans c').pendings = (t.st.chans c').pendings := by
    intro c'
    rw [heq, resume_chans, leave_chans]
  have hw := next_loc_ne_send (leave { t.st with frame := some (.returning c o msg) } o'
    (.value .loop_switch_value)) o' (.value .loop_switch_value)
  have hloc : s'.loc = Function.update t.st.loc o' (next_loc (leave
      { t.st with frame := some (.returning c o msg) } o' (.value .loop_switch_value)) o'
      (.value .loop_switch_value)) := by
    rw [heq, resume_loc, leave_loc]
  have hmsg : Open t.st c msg := by
    refine .inr ?_
    rw [hdelivOld, if_pos rfl]
    exact List.mem_singleton_self msg
  have hnotify : ∀ g c data, Act.notify pick o' ≠ .send g c data := nofun
  refine ht.resumes (g := o') hinv ?_ ?_ (fun c' => ?_) (fun c' msg' h => ?_)
    (fun c' msg' h => ?_) hw hloc (fun m hab => ?_) (fun c' msg' hopen hwait => ?_)
  · rw [heq, resume_accepted]
    simp
  · rw [heq, resume_nextMsg]
    simp
  · have hold := ht.delivered c'
    have hsame : s'.handed = t.st.handed := by
      rw [heq, resume_handed]
      simp
    rw [hsame, hold, hdeliv, hdelivOld]
    simp only [Record.note, hret]
    by_cases hc : c' = c
    · rw [if_pos hc, if_pos hc]
      simp
    · rw [if_neg hc, if_neg hc]
  · rcases h with h | h
    · exact .inl (hpend c' ▸ h)
    · rw [hdeliv] at h
      cases h
  · -- the caller of the message is resumed, or it is dead
    rcases h with h | h
    · exact .inl (.inl (by rwa [hpend]))
    · right
      rw [hdelivOld] at h
      by_cases hc : c' = c
      · rw [if_pos hc, List.mem_singleton] at h
        rw [h]
        by_cases hcaller : msg.caller = o'
        · rw [hcaller]
          exact resumed_loc hw hloc c' msg.addr
        · have hdead : t.st.dead msg.caller = true := by
            rw [← Bool.not_eq_false]
            intro halive
            simp [lands, halive, Ne.symm hcaller] at hlands
          rw [hloc, Function.update_of_ne hcaller, ht.inv.places.ended _ hdead]
          simp
      · rw [if_neg hc] at h
        cases h
  · obtain ⟨g, c', hg, hc', _⟩ := (abandons_iff hnotify).1 hab
    rw [hres] at hg
    cases hg
    exact ⟨c', hc'⟩
  · -- an open message is another one than the returned one
    have hne : msg.addr ≠ msg'.addr := by
      intro haddr
      have hqueued : msg' ∈ (t.st.chans c').pendings := by
        rcases hopen with h | h
        · exact hpend c' ▸ h
        · rw [hdeliv] at h
          cases h
      obtain ⟨hc, _⟩ := ht.apart c c' msg msg' (ht.open_accepted hmsg)
        (ht.open_accepted (.inl hqueued)) haddr
      subst hc
      refine List.disjoint_of_nodup_append (ht.nodup c) (List.mem_append_right _ ?_)
        (List.mem_map_of_mem hqueued)
      rw [hdelivOld, if_pos rfl, ← haddr]
      exact List.mem_singleton_self _
    refine (abandons_iff hnotify).2 ⟨o', c', hres, hwait, fun r hr => ?_⟩
    rw [hret] at hr
    cases hr
    exact hne

section Send

variable {t : Watched St Record} {s' : St} {g : Gid} {c : Cid} {data : PyObj}

/-- A `send` that returns at once abandons its own message. -/
theorem abandoned_send_iff (m : Mid) :
    (Record.note t.st (.send g c data) s' t.hist).abandoned m = true ↔
      t.hist.abandoned m = true ∨ m = t.st.nextMsg ∧ s'.loc g = .other := by
  simp [Record.note, abandons]

/-- A message that a `send` made before is not the next one. -/
theorem Sending.abandoned_old (ht : Sending t) {c' : Cid} {msg : channel_msg_t}
    (hmsg : Open t.st c' msg) (hold : t.hist.abandoned msg.addr = false) :
    (Record.note t.st (.send g c data) s' t.hist).abandoned msg.addr = false := by
  rw [← Bool.not_eq_true, abandoned_send_iff]
  rintro (hab | ⟨heq, _⟩)
  · rw [hold] at hab
    cases hab
  · exact Nat.ne_of_lt (ht.inv.queue.fresh c' msg (ht.open_accepted hmsg)) heq

theorem abandoned_of_note {m : Mid}
    (h : (Record.note t.st (.send g c data) s' t.hist).abandoned m = false) :
    t.hist.abandoned m = false ∧ (m = t.st.nextMsg → s'.loc g ≠ .other) := by
  rw [← Bool.not_eq_true, abandoned_send_iff, not_or, Bool.not_eq_true] at h
  exact ⟨h.1, fun hm hl => h.2 ⟨hm, hl⟩⟩

/-- "channel buffer overflow". -/
theorem Sending.refused (ht : Sending t) (hinv : Inv { t.st with nextMsg := t.st.nextMsg + 1 }) :
    Sending ⟨{ t.st with nextMsg := t.st.nextMsg + 1 }, Record.note t.st (.send g c data)
      { t.st with nextMsg := t.st.nextMsg + 1 } t.hist⟩ where
  inv := hinv
  apart := ht.apart
  delivered := ht.delivered
  blocked := by
    intro g' c' m hg'
    obtain ⟨msg, hopen, hm, hcaller, hnot⟩ := ht.blocked g' c' m hg'
    subst hm
    exact ⟨msg, hopen, rfl, hcaller, ht.abandoned_old hopen hnot⟩
  waiting := by
    intro c' msg hopen hnot
    exact ht.waiting c' msg hopen (abandoned_of_note hnot).1
  fresh := by
    intro m hab
    rcases abandoned_send_iff m |>.1 hab with hab | ⟨hm, _⟩
    · exact Nat.lt_succ_of_lt (ht.fresh m hab)
    · exact hm ▸ Nat.lt_succ_self _

/-- A `send` that puts its message into the queue, and blocks or returns. -/
structure Accepts (s s' : St) (g : Gid) (c : Cid) (data : PyObj) : Prop where
  pendings : ∀ c', (s'.chans c').pendings = if c' = c then
    (s.chans c').pendings ++ [make_chan_msg s g data] else (s.chans c').pendings
  accepted : ∀ c', s'.accepted c' = if c' = c then
    s.accepted c' ++ [make_chan_msg s g data] else s.accepted c'
  handed : s'.handed = s.handed
  frame : s'.frame = s.frame
  nextMsg : s'.nextMsg = s.nextMsg + 1
  loc : s'.loc = s.loc ∨ s'.loc = Function.update s.loc g (.send c s.nextMsg)

section Accepts

variable {s : St}

theorem Accepts.delivering (h : Accepts s s' g c data) (c' : Cid) :
    delivering s' c' = delivering s c' := by
  simp only [Channel.delivering, h.frame]

theorem Accepts.open_iff (h : Accepts s s' g c data) {c' : Cid} {msg : channel_msg_t} :
    Open s' c' msg ↔ Open s c' msg ∨ c' = c ∧ msg = make_chan_msg s g data := by
  simp only [Open, h.pendings, h.delivering]
  by_cases hc : c' = c
  · simp [hc, or_right_comm]
  · simp [hc]

theorem Accepts.mem_iff (h : Accepts s s' g c data) {c' : Cid} {msg : channel_msg_t} :
    msg ∈ s'.accepted c' ↔ msg ∈ s.accepted c' ∨ c' = c ∧ msg = make_chan_msg s g data := by
  rw [h.accepted]
  by_cases hc : c' = c
  · simp [hc]
  · simp [hc]

/-- Who waits in another `send` is not the sender. -/
theorem Accepts.loc_of (h : Accepts s s' g c data) (hother : s.loc g = .other) {g' : Gid}
    {c' : Cid} {m : Mid} (hg' : s.loc g' = .send c' m) : s'.loc g' = .send c' m := by
  rcases h.loc with hl | hl
  · rwa [hl]
  · have hne : g' ≠ g := by
      rintro rfl
      rw [hother] at hg'
      cases hg'
    rwa [hl, Function.update_of_ne hne]

/-- Who waits in a `send` did so before, or is the sender. -/
theorem Accepts.loc_cases (h : Accepts s s' g c data) {g' : Gid} {c' : Cid} {m : Mid}
    (hg' : s'.loc g' = .send c' m) :
    s.loc g' = .send c' m ∨ g' = g ∧ c' = c ∧ m = s.nextMsg := by
  rcases h.loc with hl | hl
  · rw [hl] at hg'
    exact .inl hg'
  · rw [hl] at hg'
    rcases eq_or_ne g' g with rfl | hne
    · rw [Function.update_self] at hg'
      cases hg'
      exact .inr ⟨rfl, rfl, rfl⟩
    · rw [Function.update_of_ne hne] at hg'
      exact .inl hg'

/-- A sender that does not return waits for its message. -/
theorem Accepts.blocks (h : Accepts s s' g c data) (hother : s.loc g = .other)
    (hne : s'.loc g ≠ .other) : s'.loc g = .send c s.nextMsg := by
  rcases h.loc with hl | hl
  · rw [hl, hother] at hne
    exact absurd rfl hne
  · rw [hl, Function.update_self]

end Accepts

/-- The message of a sender that waits is not abandoned. -/
theorem Sending.abandoned_new (ht : Sending t) (hwaits : s'.loc g ≠ .other) :
    (Record.note t.st (.send g c data) s' t.hist).abandoned t.st.nextMsg = false := by
  rw [← Bool.not_eq_true, abandoned_send_iff]
  rintro (hab | ⟨_, hl⟩)
  · exact Nat.lt_irrefl _ (ht.fresh _ hab)
  · exact hwaits hl

/-- An accepted message is open, and its sender waits or has abandoned it. -/
theorem Sending.accepts (ht : Sending t) (hinv : Inv s') (hfree : free t.st g = true)
    (ha : Accepts t.st s' g c data) :
    Sending ⟨s', Record.note t.st (.send g c data) s' t.hist⟩ := by
  have hother : t.st.loc g = .other := by
    simp only [free, Bool.and_eq_true, decide_eq_true_eq] at hfree
    exact hfree.1
  constructor
  · exact hinv
  · intro c₁ c₂ msg₁ msg₂ h₁ h₂ haddr
    rcases ha.mem_iff.1 h₁ with h₁ | ⟨hc₁, rfl⟩
    · rcases ha.mem_iff.1 h₂ with h₂ | ⟨_, rfl⟩
      · exact ht.apart c₁ c₂ msg₁ msg₂ h₁ h₂ haddr
      · exact absurd haddr (Nat.ne_of_lt (ht.inv.queue.fresh c₁ msg₁ h₁))
    · rcases ha.mem_iff.1 h₂ with h₂ | ⟨hc₂, rfl⟩
      · exact absurd haddr.symm (Nat.ne_of_lt (ht.inv.queue.fresh c₂ msg₂ h₂))
      · exact ⟨hc₁.trans hc₂.symm, rfl⟩
  · intro c'
    show (s'.handed c').map Delivery.msg = _
    rw [ha.handed, ha.delivering]
    exact ht.delivered c'
  · intro g' c' m hg'
    rcases ha.loc_cases hg' with hold | ⟨rfl, rfl, rfl⟩
    · obtain ⟨msg, ho, hm, hcaller, hnot⟩ := ht.blocked g' c' m hold
      subst hm
      exact ⟨msg, ha.open_iff.2 (.inl ho), rfl, hcaller, ht.abandoned_old ho hnot⟩
    · -- Case: the new sender
      have hwaits : s'.loc g' ≠ .other := by
        intro hl
        have hsend : s'.loc g' = .send c' t.st.nextMsg := hg'
        rw [hl] at hsend
        cases hsend
      exact ⟨make_chan_msg t.st g' data, ha.open_iff.2 (.inr ⟨rfl, rfl⟩), rfl, rfl,
        ht.abandoned_new hwaits⟩
  · intro c' msg ho hnot
    obtain ⟨hbefore, hthere⟩ := abandoned_of_note hnot
    rcases ha.open_iff.1 ho with ho | ⟨hc, rfl⟩
    · exact ha.loc_of hother (ht.waiting c' msg ho hbefore)
    · subst hc
      exact ha.blocks hother (hthere rfl)
  · intro m hab
    show m < s'.nextMsg
    rw [ha.nextMsg]
    rcases abandoned_send_iff m |>.1 hab with hab | ⟨hm, _⟩
    · exact Nat.lt_succ_of_lt (ht.fresh m hab)
    · exact hm ▸ Nat.lt_succ_self _

end Send

theorem Sending.send {t : Watched St Record} {g : Gid} {c : Cid} {data : PyObj}
    (ht : Sending t) (hfree : free t.st g = true) :
    Sending ⟨ChannelObject_send t.st g c data,
      Record.note t.st (.send g c data) (ChannelObject_send t.st g c data) t.hist⟩ := by
  have hinv := send_inv ht.inv hfree c data
  rcases send_cases t.st g c data with ⟨_, heq⟩ | ⟨_, hsent⟩
  · rw [heq] at hinv ⊢
    exact ht.refused hinv
  · obtain ⟨hacc, hhanded, _, _, hloc, _, hframe, hnext⟩ :=
      notify_to_loop_fields (pushed t.st c (make_chan_msg t.st g data)) c
    have hpend := (notify_to_loop_pushed t.st c (make_chan_msg t.st g data)).1
    refine ht.accepts hinv hfree ⟨fun c' => ?_, fun c' => ?_, ?_, ?_, ?_, ?_⟩
    · rw [hsent.same.chans]
      exact hpend c'
    · rw [hsent.same.accepted, hacc]
      by_cases hc : c' = c
      · subst hc
        simp [pushed]
      · simp [pushed, hc]
    · exact hsent.same.handed.trans hhanded
    · exact hsent.same.frame.trans hframe
    · exact hsent.same.nextMsg.trans hnext
    · have hl := hsent.loc
      rwa [hloc] at hl

/-! ## One step -/

theorem delivering_congr {s s' : St} (h : s'.frame = s.frame) (c : Cid) :
    delivering s' c = delivering s c := by
  simp only [delivering, h]

theorem Sending.recv {t : Watched St Record} {g : Gid} {c : Cid} {started : Bool}
    (ht : Sending t) (hfree : free t.st g = true) :
    Sending ⟨ChannelObject_recv t.st g c started,
      Record.note t.st (.recv g c started) (ChannelObject_recv t.st g c started) t.hist⟩ := by
  have hother : t.st.loc g = .other := by
    simp only [free, Bool.and_eq_true, decide_eq_true_eq] at hfree
    exact hfree.1
  have hsame := recv_same t.st g c started
  have hsend : ∀ g' c' data, Act.recv g c started ≠ .send g' c' data := by
    intro g' c' data hrecv
    cases hrecv
  refine ht.quiet (recv_inv ht.inv hfree c started) hsend rfl rfl hsame.accepted hsame.nextMsg
    hsame.handed (delivering_congr hsame.frame) (fun c' => ?_) (fun g' c' m => ?_)
  · rw [hsame.chans]
    by_cases hc : c' = c
    · subst hc
      simp [add_waiter]
    · simp [add_waiter, hc]
  · rcases recv_cases t.st g c started with ⟨_, heq⟩ | ⟨_, hsus⟩
    · -- `start_loop` failed, and nobody moved
      rw [heq]
      exact Iff.rfl
    · obtain ⟨w, hw, hloc⟩ := hsus.loc
      rw [hloc]
      by_cases hg : g' = g
      · subst hg
        rcases hw with rfl | rfl
        · simp [hother]
        · simp [hother]
      · rw [Function.update_of_ne hg]
        exact Iff.rfl

/-- A greenlet is resumed from outside `_notify`. -/
theorem Sending.resumed_leave {t : Watched St Record} {m s' : St} {a : Act} {g : Gid}
    {r : Resumption} (ht : Sending t) (hinv : Inv s') (hm : Same t.st m) (hloc : m.loc = t.st.loc)
    (heq : s' = resume (leave m g r) g r) (ha : ∀ g c data, a ≠ .send g c data)
    (hres : resumed a s' = some g) (hret : returning t.st a = none) :
    Sending ⟨s', Record.note t.st a s' t.hist⟩ := by
  have hsame : Same t.st s' := by
    rw [heq]
    exact hm.trans (resume_leave_same m g r)
  refine ht.interrupted hinv ha hres hret hsame.accepted hsame.nextMsg (fun c => ?_)
    (fun c msg => ?_) (next_loc_ne_send (leave m g r) g r) ?_
  · rw [hsame.handed, delivering_congr hsame.frame]
    exact ht.delivered c
  · simp only [Open, hsame.chans, delivering_congr hsame.frame]
  · rw [heq, resume_loc, leave_loc, hloc]

theorem sending_step {t t' : Watched St Record} {a : Act} (h : recorded t a = some t')
    (ht : Sending t) : Sending t' := by
  obtain ⟨hstep, hhist⟩ := watch_eq_some.1 h
  have hinv : Inv t'.st := step_inv _ _ _ hstep ht.inv
  obtain ⟨s', r'⟩ := t'
  simp only at hstep hhist hinv
  subst hhist
  cases step_cases hstep with
  | send hfree => exact ht.send hfree
  | recv hfree => exact ht.recv hfree
  | @fire_notify pick o c loop _ _ hframe hfire hnotify =>
    have hdeliv : ∀ c, delivering t.st c = [] := by
      intro c
      simp only [delivering, hframe]
    rcases notify_cases hnotify with ⟨_, rfl⟩ | hround
    · -- Case: the queue is empty
      exact ht.quiet hinv nofun (by simp [resumed, hframe]) rfl rfl rfl rfl (fun _ => rfl)
        (fun _ => rfl) (fun _ _ _ => Iff.rfl)
    · exact ht.round hinv hround hdeliv nofun rfl rfl
  | fire_other hframe hfire hne =>
    exact ht.quiet hinv nofun (by simp [resumed, hframe]) rfl rfl rfl rfl (fun _ => rfl)
      (fun _ => rfl) (fun _ _ _ => Iff.rfl)
  | delivered _ hframe hlands => exact ht.returned hinv hframe hlands rfl
  | @returned pick o c o' msg _ _ hframe hround =>
    have hdeliv : ∀ c, delivering t.st c = [] := by
      intro c
      simp only [delivering, hframe]
    have hret : returning t.st (.notify pick o) = none := by
      simp only [returning, hframe]
    have hround' : notify_round { t.st with loop := t.st.loop } c pick o = some s' := hround
    exact ht.round hinv hround' hdeliv nofun rfl hret
  | throw _ => exact ht.resumed_leave hinv (.refl _) rfl rfl nofun rfl rfl
  | switch _ => exact ht.resumed_leave hinv (.refl _) rfl rfl nofun rfl rfl
  | ended _ _ => exact ht.resumed_leave hinv (end_loop_same _) rfl rfl nofun rfl rfl
  | die _ | run | stop | call_soon =>
    exact ht.quiet hinv nofun rfl rfl rfl rfl rfl (fun _ => rfl) (fun _ => rfl)
      (fun _ _ _ => Iff.rfl)

/-- The step returns for a message whose sender waits, or for none. -/
theorem step_ownSenders_iff {t t' : Watched St Record} {a : Act} (h : recorded t a = some t')
    (ht : Sending t) (hp : OwnSenders t) : OwnSenders t' ↔ Awaited t a := by
  obtain ⟨_, hhist⟩ := watch_eq_some.1 h
  rw [(sending_step h ht).ownSenders_iff, hhist]
  simp only [Record.note, Awaited]
  cases hret : returning t.st a with
  | none => exact iff_of_true hp.own nofun
  | some r =>
    obtain ⟨c, msg⟩ := r
    have hopen : Open t.st c msg := by
      unfold returning at hret
      split at hret
      · split at hret
        next hframe =>
          cases hret
          exact .inr (by simp [delivering, hframe])
        · cases hret
      · cases hret
    simp only [Option.some.injEq, Prod.mk.injEq]
    constructor
    · rintro hown c' msg' ⟨rfl, rfl⟩
      have hlast := hown c ⟨msg, in_send t.st msg.caller = some msg.addr⟩ (by simp)
      exact (ht.in_send_iff hopen).1 (of_decide_eq_true hlast)
    · intro hnot c' r hr
      by_cases hc : c' = c
      · rw [if_pos hc, List.mem_append, List.mem_singleton] at hr
        rcases hr with hr | rfl
        · exact hp.own c' r hr
        · exact decide_eq_true ((ht.in_send_iff hopen).2 (hnot c msg ⟨rfl, rfl⟩))
      · rw [if_neg hc] at hr
        exact hp.own c' r hr

/-! ## Main result -/

/-- Along a run `_notify` resumes senders only, each once and for its own
message, exactly when it never switches into the sender of a message whose `send`
did not block or was left in another way. -/
theorem own_senders_iff (bufsize : Cid → Nat) (as : List Act) (s : St)
    (h : run step (init bufsize) as = some s) :
    Always recorded OwnSenders (recorded_init bufsize) as ↔
      Steps recorded Awaited (recorded_init bufsize) as := by
  have hwatched : ∃ r, run recorded (recorded_init bufsize) as = some ⟨s, r⟩ := run_watch_iff.2 h
  obtain ⟨r, hrun⟩ := hwatched
  have hstart : OwnSenders (recorded_init bufsize) := by
    rw [(sending_init bufsize).ownSenders_iff]
    exact nofun
  exact always_iff_steps (fun t a t' hs _ ht _ => sending_step hs ht)
    (fun t a t' hs ht hp => step_ownSenders_iff hs ht hp) (sending_init bufsize) hstart hrun

/-- Two channels without a buffer: each sender blocks, and is resumed when its
message was delivered. -/
theorem own_senders_iff_two : ∃ s, run step (init fun _ => 0)
    [.recv 1 0 true, .send 2 0 (.obj 1), .fire 1 1, .notify 0 2, .notify 0 0,
      .recv 4 1 true, .send 5 1 (.obj 3), .fire 4 4, .notify 0 5] = some s ∧
    s.returned 0 = [.obj 1] ∧ s.returned 1 = [.obj 3] ∧
    (Always recorded OwnSenders (recorded_init fun _ => 0)
        [.recv 1 0 true, .send 2 0 (.obj 1), .fire 1 1, .notify 0 2, .notify 0 0,
          .recv 4 1 true, .send 5 1 (.obj 3), .fire 4 4, .notify 0 5] ↔
      Steps recorded Awaited (recorded_init fun _ => 0)
        [.recv 1 0 true, .send 2 0 (.obj 1), .fire 1 1, .notify 0 2, .notify 0 0,
          .recv 4 1 true, .send 5 1 (.obj 3), .fire 4 4, .notify 0 5]) := by
  have h : (run step (init fun _ => 0)
      [.recv 1 0 true, .send 2 0 (.obj 1), .fire 1 1, .notify 0 2, .notify 0 0,
        .recv 4 1 true, .send 5 1 (.obj 3), .fire 4 4, .notify 0 5]).any
        (fun s => s.returned 0 = [.obj 1] ∧ s.returned 1 = [.obj 3]) = true := by
    decide
  obtain ⟨s, hs, hret⟩ := run_any h
  obtain ⟨h0, h1⟩ := of_decide_eq_true hret
  exact ⟨s, hs, h0, h1, own_senders_iff _ _ s hs⟩

/-- A sender that did not block waits for a message of its own on another channel
when `_notify` switches into it. -/
theorem buffered_sender_resumed :
    ¬ ∀ bufsize as s, run step (init bufsize) as = some s →
      Always recorded OwnSenders (recorded_init bufsize) as := by
  intro hall
  have h : (run recorded (recorded_init fun _ => 2)
      [.send 2 0 (.obj 1), .recv 2 1 true, .recv 1 0 true, .fire 1 1, .notify 0 2]).any
      (fun t => t.hist.returns 0 = [⟨⟨0, 2, .obj 1⟩, false⟩] ∧
        t.st.returned 1 = [.loop_switch_value]) = true := by
    decide
  obtain ⟨t, ht, hend⟩ := run_any h
  obtain ⟨hreturns, _⟩ := of_decide_eq_true hend
  have hown := ((hall _ _ t.st (run_watch ht)).last ht).own 0
  rw [hreturns] at hown
  exact absurd (hown _ (List.mem_singleton_self _)) (by decide)

end Jega.Channel
