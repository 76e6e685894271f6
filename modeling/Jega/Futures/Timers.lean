import Jega.Futures.Pool
import Jega.Loop.Leaving
import Jega.Loop.Owned

/-!
# Jega.Futures.Timers — what the items of a pool have on the loop

An item that is queued or runs keeps a timer of 24 hours in the heap, the
`handler` of its `InfiniteHandler`, and posts its messages to the queue. `Timers`
relates the objects of the loop to the handlers, and `posted` reads the messages
off the queue.
-/

namespace Jega.Futures

open Jega.Loop

variable {α ε : Type}

/-- A callback of the loop: `_cb` of an `InfiniteHandler`, a message of an item, or
that of other code. -/
inductive Callback (α ε : Type) where
  | keep (i : Fid)
  | msg (i : Fid) (m : Msg α ε)
  | other (n : Nat)
deriving DecidableEq, Repr

/-- The callbacks of the pool. -/
def Callback.own : Callback α ε → Bool
  | .keep _ => true
  | .msg _ _ => true
  | .other _ => false

def Callback.entry : Callback α ε → Entry α ε
  | .msg i m => .item i m
  | .keep _ => .other 0
  | .other n => .other n

/-- The messages in the queue of the loop. -/
def posted (l : Loop.St (Callback α ε)) : List (Entry α ε) :=
  (calls Callback.own l).map Callback.entry

/-- The timer is not cancelled, and was not fired. -/
def Live (l : Loop.St (Callback α ε)) (o : Hid) : Prop :=
  (l.objs o).cancelled = false ∧ (l.objs o).called = false

/-- `n` items, with the timers of their handlers. -/
structure Timers (l : Loop.St (Callback α ε)) (n : Nat) (handler : Fid → Option Hid) : Prop where
  keep : ∀ o i, o < l.next → (l.objs o).callback = some (.keep i) →
    (l.objs o).type = .Timer ∧ i < n ∧ (Live l o → handler i = some o)
  msg : ∀ o i m, o < l.next → (l.objs o).callback = some (.msg i m) →
    (l.objs o).type = .Handle ∧ Live l o
  held : ∀ i o, handler i = some o → o < l.next ∧ (l.objs o).callback = some (.keep i) ∧
    Live l o ∧ Waiting l o

theorem timers_init (block : Nat → Hid) (now : Int) (n : Nat) :
    Timers (Loop.init (Callback α ε) block now) n fun _ => none where
  keep := nofun
  msg := nofun
  held := nofun

section Timers

variable {l l' : Loop.St (Callback α ε)} {n : Nat} {handler : Fid → Option Hid} {i : Fid}
  {o : Hid}

theorem owned_keep (ho : o < l.next) (hcb : (l.objs o).callback = some (.keep i)) :
    Owned Callback.own l o := ⟨ho, _, hcb, rfl⟩

theorem owned_msg {m : Msg α ε} (ho : o < l.next) (hcb : (l.objs o).callback = some (.msg i m)) :
    Owned Callback.own l o := ⟨ho, _, hcb, rfl⟩

/-- An entry of the pool is a timer or a message. -/
theorem owned_cases (h : Owned Callback.own l o) :
    (∃ i, (l.objs o).callback = some (.keep i)) ∨ ∃ i m, (l.objs o).callback = some (.msg i m) := by
  obtain ⟨_, k, hk, hown⟩ := h
  cases k with
  | keep i => exact Or.inl ⟨i, hk⟩
  | msg i m => exact Or.inr ⟨i, m, hk⟩
  | other n => cases hown

/-- A handler has one timer. -/
theorem Timers.handler_unique (h : Timers l n handler) {j : Fid} (hi : handler i = some o)
    (hj : handler j = some o) : i = j := by
  have hcb := (h.held i o hi).2.1
  rw [(h.held j o hj).2.1] at hcb
  cases hcb
  rfl

/-- More items are there. -/
theorem Timers.mono {n' : Nat} (h : Timers l n handler) (hn : n ≤ n') : Timers l n' handler where
  keep := by
    intro o i ho hcb
    obtain ⟨htype, hi, hlive⟩ := h.keep o i ho hcb
    exact ⟨htype, Nat.lt_of_lt_of_le hi hn, hlive⟩
  msg := h.msg
  held := h.held

/-- Other code spares the timers and the messages. -/
theorem Timers.spares (h : Timers l n handler) (hs : Spares Callback.own l l') :
    Timers l' n handler where
  keep := by
    intro o i ho hcb
    have hown := hs.fresh o (owned_keep ho hcb)
    unfold Live
    rw [hs.objs o hown] at hcb ⊢
    exact h.keep o i hown.1 hcb
  msg := by
    intro o i m ho hcb
    have hown := hs.fresh o (owned_msg ho hcb)
    unfold Live
    rw [hs.objs o hown] at hcb ⊢
    exact h.msg o i m hown.1 hcb
  held := by
    intro i o hi
    obtain ⟨ho, hcb, hlive, hw⟩ := h.held i o hi
    have hown : Owned Callback.own l o := owned_keep ho hcb
    unfold Live
    rw [hs.objs o hown]
    exact ⟨(hs.owned hown).1, hcb, hlive, hs.waits o hown hlive.1 hw⟩

theorem posted_spares (hs : Spares Callback.own l l') : posted l' = posted l := by
  unfold posted
  rw [hs.calls]

/-! ## Scheduling -/

/-- A callback of the pool is scheduled: a handle for a message, a timer for
`_cb`. -/
structure Adds (l l' : Loop.St (Callback α ε)) (k : Callback α ε) (kind : HandleType) :
    Prop where
  next : l'.next = l.next + 1
  objs : ∀ o, o < l.next → l'.objs o = l.objs o
  callback : (l'.objs l.next).callback = some k
  live : Live l' l.next
  type : (l'.objs l.next).type = kind
  queue : l'.pendings.entries =
    if kind = .Handle then l.pendings.entries ++ [l.next] else l.pendings.entries
  heap : l'.scheduled.contents =
    if kind = .Timer then l.next ::ₘ l.scheduled.contents else l.scheduled.contents
  tidy : Tidy Callback.own l'

theorem call_adds {seconds : Int} {k : Callback α ε} (hd : Tidy Callback.own l)
    (h : internal_loop_schedule_call l seconds (some k) none = some l') :
    Adds l l' k (if seconds > 0 then .Timer else .Handle) := by
  have hsched : schedule_timer (make_handle l seconds (some k) none).1 l.next = some l' := h
  have htidy : Tidy Callback.own (make_handle l seconds (some k) none).1 :=
    make_handle_tidy hd seconds (some k) none fun _ _ _ => rfl
  have hlt : l.next < (make_handle l seconds (some k) none).1.next := Nat.lt_succ_self _
  have htidy' := schedule_timer_tidy htidy hlt hsched
  have hobjs : ∀ o, o < l.next → (make_handle l seconds (some k) none).1.objs o = l.objs o :=
    fun o ho => make_handle_old ho seconds (some k) none
  have hnew : (make_handle l seconds (some k) none).1.objs l.next =
      if seconds > 0 then TimerObject_new l.clock seconds (some k) none
      else HandleObject_new (some k) none := by
    simp [make_handle]
  have htype : ((make_handle l seconds (some k) none).1.objs l.next).type =
      if seconds > 0 then .Timer else .Handle := by
    rw [hnew]
    split
    · rfl
    · rfl
  have hcb : ((make_handle l seconds (some k) none).1.objs l.next).callback = some k := by
    rw [hnew]
    split
    · rfl
    · rfl
  have hlive : Live (make_handle l seconds (some k) none).1 l.next := by
    unfold Live
    rw [hnew]
    split
    · exact ⟨rfl, rfl⟩
    · exact ⟨rfl, rfl⟩
  rcases schedule_timer_cases hsched with ⟨hhandle, r, hr, rfl⟩ | ⟨htimer, r, hr, rfl⟩
  · -- Case: a handle goes to the end of the queue
    rw [htype] at hhandle
    rw [hhandle] at htype ⊢
    refine ⟨rfl, hobjs, hcb, hlive, htype, ?_, ?_, htidy'⟩
    · rw [if_pos rfl]
      exact (queue_push_cases htidy.pendings htidy.pendings_dvd hr).2.1
    · rw [if_neg (by simp)]
      rfl
  · -- Case: a timer goes into the heap
    rw [htype] at htimer
    rw [htimer] at htype ⊢
    refine ⟨rfl, hobjs, hcb, hlive, htype, ?_, ?_, htidy'⟩
    · rw [if_neg (by simp)]
      rfl
    · rw [if_pos rfl]
      exact heappush_contents hr

/-- The entries that were there wait on. -/
theorem Adds.waits {k : Callback α ε} {kind : HandleType} (h : Adds l l' k kind)
    (hw : Waiting l o) : Waiting l' o := by
  unfold Waiting
  rw [h.queue, h.heap]
  rcases hw with hw | hw
  · apply Or.inl
    split
    · exact Multiset.mem_cons_of_mem hw
    · exact hw
  · apply Or.inr
    split
    · exact List.mem_append_left _ hw
    · exact hw

theorem Adds.live_iff {k : Callback α ε} {kind : HandleType} (h : Adds l l' k kind)
    (ho : o < l.next) : Live l' o ↔ Live l o := by
  unfold Live
  rw [h.objs o ho]

theorem Adds.calls {k : Callback α ε} {kind : HandleType} (h : Adds l l' k kind)
    (hd : Tidy Callback.own l) :
    Loop.calls Callback.own l' = Loop.calls Callback.own l ++
      if kind = .Handle then (if k.own then [k] else []) else [] := by
  have hold : l.pendings.entries.filterMap (fun o => ownCall Callback.own (l'.objs o)) =
      Loop.calls Callback.own l := by
    apply List.filterMap_congr
    intro o ho
    rw [h.objs o (hd.queue o ho)]
  unfold Loop.calls
  rw [h.queue]
  split
  · rename_i hkind
    rw [List.filterMap_append, hold]
    congr 1
    have hcall : ownCall Callback.own (l'.objs l.next) = if k.own then some k else none := by
      unfold ownCall
      rw [h.type, hkind, if_pos rfl, h.callback, Option.filter_some]
    rw [List.filterMap_cons, List.filterMap_nil, hcall]
    cases k.own with
    | true => rfl
    | false => rfl
  · exact hold.trans (List.append_nil _).symm

/-- An object is one of those before, as it was, or the new one. -/
theorem Adds.object {k : Callback α ε} {kind : HandleType} (ha : Adds l l' k kind)
    (ho : o < l'.next) :
    (o < l.next ∧ l'.objs o = l.objs o ∧ (Live l' o ↔ Live l o)) ∨ o = l.next := by
  rw [ha.next] at ho
  rcases Nat.lt_succ_iff_lt_or_eq.1 ho with ho | rfl
  · exact Or.inl ⟨ho, ha.objs o ho, ha.live_iff ho⟩
  · exact Or.inr rfl

/-- A handler keeps the timer that it had. -/
theorem Adds.held {k : Callback α ε} {kind : HandleType} (ha : Adds l l' k kind)
    (h : Timers l n handler) (hi : handler i = some o) :
    o < l'.next ∧ (l'.objs o).callback = some (.keep i) ∧ Live l' o ∧ Waiting l' o := by
  obtain ⟨ho, hcb, hlive, hw⟩ := h.held i o hi
  rw [ha.live_iff ho, ha.objs o ho, ha.next]
  exact ⟨Nat.lt_succ_of_lt ho, hcb, hlive, ha.waits hw⟩

/-- `InfiniteHandler._cb`, where the handler has no timer. -/
theorem Timers.arm (h : Timers l n handler) (hi : i < n) (hnone : handler i = none)
    (ha : Adds l l' (.keep i) .Timer) :
    Timers l' n (Function.update handler i (some l.next)) where
  keep := by
    intro o j ho hcb
    rcases ha.object ho with ⟨ho, hobj, hlive⟩ | rfl
    · rw [hlive]
      rw [hobj] at hcb ⊢
      obtain ⟨htype, hj, hlive⟩ := h.keep o j ho hcb
      refine ⟨htype, hj, fun hl => ?_⟩
      -- the handler of `i` has no older timer
      have hne : j ≠ i := by
        rintro rfl
        rw [hlive hl] at hnone
        cases hnone
      rw [Function.update_of_ne hne]
      exact hlive hl
    · rw [ha.callback] at hcb
      cases hcb
      refine ⟨ha.type, hi, fun _ => ?_⟩
      rw [Function.update_self]
  msg := by
    intro o j m ho hcb
    rcases ha.object ho with ⟨ho, hobj, hlive⟩ | rfl
    · rw [hlive]
      rw [hobj] at hcb ⊢
      exact h.msg o j m ho hcb
    · rw [ha.callback] at hcb
      cases hcb
  held := by
    intro j o hj
    by_cases hne : j = i
    · subst hne
      rw [Function.update_self, Option.some.injEq] at hj
      subst hj
      refine ⟨?_, ha.callback, ha.live, Or.inl ?_⟩
      · rw [ha.next]
        exact Nat.lt_succ_self _
      · rw [ha.heap, if_pos rfl]
        exact Multiset.mem_cons_self _ _
    · rw [Function.update_of_ne hne] at hj
      exact ha.held h hj

/-- A message is posted. -/
theorem Timers.post {m : Msg α ε} (h : Timers l n handler) (ha : Adds l l' (.msg i m) .Handle) :
    Timers l' n handler where
  keep := by
    intro o j ho hcb
    rcases ha.object ho with ⟨ho, hobj, hlive⟩ | rfl
    · rw [hlive]
      rw [hobj] at hcb ⊢
      exact h.keep o j ho hcb
    · rw [ha.callback] at hcb
      cases hcb
  msg := by
    intro o j m' ho hcb
    rcases ha.object ho with ⟨ho, hobj, hlive⟩ | rfl
    · rw [hlive]
      rw [hobj] at hcb ⊢
      exact h.msg o j m' ho hcb
    · exact ⟨ha.type, ha.live⟩
  held := fun _ _ hj => ha.held h hj

/-! ## Cancelling and firing -/

/-- Only the flags of a timer change. -/
structure Flags (l l' : Loop.St (Callback α ε)) (o : Hid) : Prop where
  next : l'.next = l.next
  objs : ∀ x, x ≠ o → l'.objs x = l.objs x
  callback : (l'.objs o).callback = (l.objs o).callback
  type : (l'.objs o).type = (l.objs o).type
  dead : ¬ Live l' o
  waits : ∀ x, x ≠ o → Waiting l x → Waiting l' x

/-- The timer of a handler is cancelled or fired, and the handler has none. -/
theorem Timers.disarm (h : Timers l n handler) (hi : handler i = some o) (hf : Flags l l' o) :
    Timers l' n (Function.update handler i none) where
  keep := by
    intro x j hx hcb
    rw [hf.next] at hx
    by_cases hxo : x = o
    · subst hxo
      rw [hf.callback] at hcb
      obtain ⟨htype, hj, _⟩ := h.keep x j hx hcb
      exact ⟨hf.type.trans htype, hj, fun hl => absurd hl hf.dead⟩
    · unfold Live
      rw [hf.objs x hxo] at hcb ⊢
      obtain ⟨htype, hj, hlive⟩ := h.keep x j hx hcb
      refine ⟨htype, hj, fun hl => ?_⟩
      -- a live timer of `i` would be the one that `i` holds
      have hne : j ≠ i := by
        rintro rfl
        rw [hlive hl, Option.some.injEq] at hi
        exact hxo hi
      rw [Function.update_of_ne hne]
      exact hlive hl
  msg := by
    intro x j m hx hcb
    rw [hf.next] at hx
    -- `o` is a timer, and no message
    have hxo : x ≠ o := by
      rintro rfl
      rw [hf.callback, (h.held i x hi).2.1] at hcb
      cases hcb
    unfold Live
    rw [hf.objs x hxo] at hcb ⊢
    exact h.msg x j m hx hcb
  held := by
    intro j x hj
    by_cases hne : j = i
    · rw [hne, Function.update_self] at hj
      cases hj
    · rw [Function.update_of_ne hne] at hj
      have hxo : x ≠ o := by
        rintro rfl
        exact hne (h.handler_unique hj hi)
      obtain ⟨hx, hcb, hlive, hw⟩ := h.held j x hj
      unfold Live
      rw [hf.objs x hxo, hf.next]
      exact ⟨hx, hcb, hlive, hf.waits x hxo hw⟩

/-- The flags of a timer are not read off the queue. -/
theorem Flags.posted (hf : Flags l l' o) (htype : (l.objs o).type = .Timer)
    (hq : l.pendings.entries = l'.pendings.entries ∨
      l.pendings.entries = o :: l'.pendings.entries) : posted l' = posted l := by
  have hnone : ownCall Callback.own (l.objs o) = none := by
    unfold ownCall
    rw [htype]
    rfl
  have hcall : ∀ x, ownCall Callback.own (l'.objs x) = ownCall Callback.own (l.objs x) := by
    intro x
    by_cases hx : x = o
    · subst hx
      rw [hnone]
      unfold ownCall
      rw [hf.type, htype]
      rfl
    · rw [hf.objs x hx]
  unfold Futures.posted Loop.calls
  simp only [hcall]
  rcases hq with hq | hq
  · rw [hq]
  · rw [hq]
    simp only [List.filterMap_cons, hnone]

/-- No object changes, and the timers of the handlers wait on. -/
theorem Timers.of_objs (h : Timers l n handler) (hobjs : l'.objs = l.objs)
    (hnext : l'.next = l.next) (hw : ∀ i o, handler i = some o → Waiting l' o) :
    Timers l' n handler where
  keep := by
    unfold Live
    rw [hobjs, hnext]
    exact h.keep
  msg := by
    unfold Live
    rw [hobjs, hnext]
    exact h.msg
  held := by
    intro i o hi
    obtain ⟨ho, hcb, hlive, _⟩ := h.held i o hi
    unfold Live
    rw [hobjs, hnext]
    exact ⟨ho, hcb, hlive, hw i o hi⟩

theorem cancel_flags (l : Loop.St (Callback α ε)) (o : Hid) : Flags l (Loop.cancel l o) o where
  next := rfl
  objs := fun x hx => Function.update_of_ne hx _ _
  callback := by simp [Loop.cancel]
  type := by simp [Loop.cancel]
  dead := by
    intro hlive
    have hc := hlive.1
    simp [Loop.cancel] at hc
  waits := fun _ _ hw => hw

end Timers

end Jega.Futures
