import Jega.Futures.Timers
import Jega.Trace.Rules

/-!
# Jega.Futures.KeepAlive — items of a pool keep the loop alive

A `ThreadPoolExecutor` on the loop of `Loop.Scheduler`, together with any other
timers and callbacks. Items are submitted from the thread of the loop; their
threads post messages to it at any time. A callback of the pool runs in the step
of the loop that calls it, and it suspends nothing.

## Main result

* `outstanding_iff`: along every run each item has the timers it should have, and
  the exact condition for the loop not to be left with work outstanding.
-/

namespace Jega.Futures.KeepAlive

open Trace Jega.Loop

variable {α ε : Type}

structure Sys (α ε : Type) extends Pool α ε where
  loop : Loop.St (Callback α ε)
  /-- `handler` of the `InfiniteHandler` of an item. -/
  handler : Fid → Option Hid

def init (max_workers : Nat) (block : Nat → Hid) (now : Int) : Sys α ε where
  toPool := .new max_workers
  loop := Loop.init (Callback α ε) block now
  handler := fun _ => none

/-! ## The callbacks of the pool -/

/-- `InfiniteHandler._cb`. -/
def _cb (s : Sys α ε) (i : Fid) : Option (Sys α ε) :=
  (Loop.call_later s.loop (24 * 3600) (.keep i)).map fun l =>
    { s with loop := l, handler := Function.update s.handler i (some s.loop.next) }

/-- `InfiniteHandler.cancel`. -/
def handler_cancel (s : Sys α ε) (i : Fid) : Sys α ε :=
  match s.handler i with
  | some timer =>
    { s with
      loop := Loop.cancel s.loop timer
      handler := Function.update s.handler i none }
  | none => s

/-- The loop executes a message, which may cancel the handler of the item. -/
def exec (s : Sys α ε) (i : Fid) (m : Msg α ε) : Sys α ε :=
  let s := { s with toPool := s.toPool.exec i m }
  if (s.items i).timer then s else handler_cancel s i

/-- What a round of `fire_pendings` calls. -/
def call (s : Sys α ε) : Fired (Callback α ε) → Option (Sys α ε)
  | .call (.keep i) => _cb s i
  | .call (.msg i m) => some (exec s i m)
  | _ => some s

/-! ## The system -/

/-- `submit`, with the `InfiniteHandler` of the new item. -/
def submit (s : Sys α ε) : Option (Sys α ε) :=
  if s._shutdown then some s else _cb { s with toPool := s.toPool.submit } s.next

/-- `call_soon_threadsafe` for each message. -/
def post (i : Fid) : List (Msg α ε) → Loop.St (Callback α ε) → Option (Loop.St (Callback α ε))
  | [], l => some l
  | m :: ms, l => (internal_loop_schedule_call l 0 (some (.msg i m)) none).bind (post i ms)

inductive Act (α ε : Type) where
  | submit
  | shutdown
  | quit
  | get (t : Tid)
  | empty (t : Tid)
  | exit (t : Tid)
  | run (t : Tid) (o : Outcome α ε)
  | client (i : Fid) (c : Call)
  /-- A step of the loop, or of other code that uses it. -/
  | loop (a : Loop.Act (Callback α ε))

instance decidableOwned {κ : Type} (own : κ → Bool) (l : Loop.St κ) (o : Hid) :
    Decidable (Owned own l o) :=
  decidable_of_iff (o < l.next ∧ (l.objs o).callback.any own = true) (by
    rw [Option.any_eq_true]
    rfl)

instance decidableForeign {κ : Type} (own : κ → Bool) (l : Loop.St κ) :
    ∀ a : Loop.Act κ, Decidable (a.Foreign own l)
  | .call_soon cb => inferInstanceAs (Decidable (own cb = false))
  | .call_later _ cb => inferInstanceAs (Decidable (own cb = false))
  | .call_repeatedly _ cb => inferInstanceAs (Decidable (own cb = false))
  | .set_timeout _ cb => inferInstanceAs (Decidable (own cb = false))
  | .make_handle cb => inferInstanceAs (Decidable (own cb = false))
  | .add_callback o => inferInstanceAs (Decidable (¬ Owned own l o))
  | .cancel o => inferInstanceAs (Decidable (¬ Owned own l o))
  | .sleep _ _ | .stop | .running | .signal _ | .time _ | .io _ | .run _ | .run_once _
  | .started _ _ | .test _ | .entered _ _ | .next _ _ | .returned _ _ | .polled _ _ _ =>
    isTrue trivial

/-- What the step of the loop switches into or calls. -/
def effect (l : Loop.St (Callback α ε)) : Loop.Act (Callback α ε) → Fired (Callback α ε)
  | .next _ dead => fires l dead
  | _ => .nothing

def step [Truth ε] (s : Sys α ε) : Act α ε → Option (Sys α ε)
  | .submit => submit s
  | .shutdown => some { s with _shutdown := true }
  | .quit => some { s with quitting := true }
  | .get t => (s.get t).map fun p => { s with toPool := p }
  | .empty t => (s.empty t).map fun p => { s with toPool := p }
  | .exit t => (s.exit t).map fun p => { s with toPool := p }
  | .run t o =>
    (s.toPool.run t o).bind fun r =>
      (post r.2.1 r.2.2 s.loop).map fun l => { s with toPool := r.1, loop := l }
  | .client i c => (s.client i c).map fun p => { s with toPool := p }
  | .loop a =>
    if a.Foreign Callback.own s.loop then
      (Loop.step s.loop a).bind fun l => call { s with loop := l } (effect s.loop a)
    else none

/-! ## The condition -/

/-- No stop, no signal and no exception of a callback. -/
def Act.Calm : Act α ε → Prop
  | .loop a => a.Calm
  | _ => True

/-- An item was neither cancelled and notified nor given its outcome. -/
def Outstanding (s : Sys α ε) : Prop :=
  ∃ i, i < s.next ∧ (s.items i).future._state ≠ .CANCELLED_AND_NOTIFIED ∧
    (s.items i).future._state ≠ .FINISHED

/-- The timers of an item that were neither cancelled nor fired. -/
def Own (s : Sys α ε) (i : Fid) (o : Hid) : Prop :=
  o < s.loop.next ∧ (s.loop.objs o).callback = some (.keep i) ∧ Live s.loop o

/-- An item has one timer until its handler is cancelled, and none after that; a
heap of cancelled timers is emptied, and they are not counted any more. -/
structure Kept (s : Sys α ε) : Prop where
  one : ∀ i, i < s.next → (s.items i).timer = true →
    ∃ o, Own s i o ∧ Waiting s.loop o ∧ s.handler i = some o ∧ ∀ o', Own s i o' → o' = o
  none : ∀ i, i < s.next → (s.items i).timer = false → ∀ o, ¬ Own s i o
  drained : (∀ o ∈ s.loop.scheduled.contents, (s.loop.objs o).cancelled = true) →
    s.loop.state = .L_RUNNING → ∃ l, fire_timers .none s.loop = some l ∧ l.scheduled.size = 0 ∧
      l.pendings = s.loop.pendings ∧
      l.activecnt = s.loop.activecnt - UInt32.ofNat s.loop.scheduled.size

/-- `LoopObject_run` does not leave its loop with work outstanding. -/
def Stays [Truth ε] (s : Sys α ε) (a : Act α ε) : Prop :=
  ∀ s', step s a = some s' → looping s'.loop < looping s.loop → ¬ Outstanding s

/-- With work outstanding, `LoopObject_run` finds its loop running, its calls
succeed, and the entries at its `while` are not a multiple of 2^32. -/
def Undisturbed (s : Sys α ε) : Act α ε → Prop
  | .loop a => Outstanding s →
    ¬ Quits (2 ^ 32 ≤ load s.loop ∧ 2 ^ 32 ∣ load s.loop ∧ s.loop.ioactivecnt ≤ 1) s.loop a
  | _ => True

/-! ## The invariant -/

/-- The loop and the pool agree, the handlers apart. -/
structure Linked (s : Sys α ε) : Prop where
  tidy : Tidy Callback.own s.loop
  counted : Counted s.loop
  signal : s.loop.catch_signal = 0
  placed : ∃ φ, Placed s.toPool (posted s.loop) φ
  timers : Timers s.loop s.next s.handler

structure Inv (s : Sys α ε) : Prop extends Linked s where
  /-- A handler is cancelled when its timer is. -/
  handlers : ∀ i, i < s.next → (s.items i).timer = (s.handler i).isSome

theorem inv_init (max_workers : Nat) (block : Nat → Hid) (now : Int) :
    Inv (init max_workers block now : Sys α ε) where
  tidy := init_tidy block now
  counted := init_counted block now
  signal := rfl
  placed := ⟨_, placed_new max_workers⟩
  timers := timers_init block now 0
  handlers := nofun

/-- What a step of the loop keeps by itself. -/
structure Intact (l : Loop.St (Callback α ε)) : Prop where
  tidy : Tidy Callback.own l
  counted : Counted l
  signal : l.catch_signal = 0

section Steps

variable {s s' : Sys α ε} {i : Fid}

/-- The handler of item `i` gets its timer. -/
theorem cb_inv (h : Linked s) (hi : i < s.next) (hnone : s.handler i = none)
    (htimer : (s.items i).timer = true)
    (hothers : ∀ j, j < s.next → j ≠ i → (s.items j).timer = (s.handler j).isSome)
    (hcb : _cb s i = some s') : Inv s' ∧ Apart s.loop s'.loop := by
  obtain ⟨l, hcall, rfl⟩ := Option.map_eq_some_iff.1 hcb
  unfold Loop.call_later at hcall
  rw [if_neg (by decide)] at hcall
  have hadds : Adds s.loop l (.keep i) .Timer := call_adds h.tidy hcall
  have hapart := call_apart hcall
  have hposted : posted l = posted s.loop := by
    unfold posted
    rw [hadds.calls h.tidy, if_neg (by simp), List.append_nil]
  refine ⟨⟨⟨hadds.tidy, ?_, ?_, ?_, ?_⟩, ?_⟩, hapart⟩
  · exact call_counted h.tidy.toSized h.counted hcall
  · exact hapart.catch_signal.trans h.signal
  · obtain ⟨φ, hφ⟩ := h.placed
    exact ⟨φ, hposted ▸ hφ⟩
  · exact h.timers.arm hi hnone hadds
  · intro j hj
    show (s.items j).timer = (Function.update s.handler i (some s.loop.next) j).isSome
    by_cases hne : j = i
    · rw [hne, Function.update_self, htimer]
      rfl
    · rw [Function.update_of_ne hne]
      exact hothers j hj hne

/-- The messages of an item go to the end of the queue. -/
theorem post_spec {ms : List (Msg α ε)} {n : Nat} {handler : Fid → Option Hid} :
    ∀ {l l' : Loop.St (Callback α ε)}, Tidy Callback.own l → Counted l → Timers l n handler →
      post i ms l = some l' → Tidy Callback.own l' ∧ Counted l' ∧ Timers l' n handler ∧
        Apart l l' ∧ posted l' = posted l ++ ms.map (.item i) := by
  induction ms with
  | nil =>
    intro l l' hd hc ht h
    cases h
    exact ⟨hd, hc, ht, Apart.refl l, (List.append_nil _).symm⟩
  | cons m ms ih =>
    intro l l' hd hc ht h
    obtain ⟨r, hr, hrest⟩ := Option.bind_eq_some_iff.1 h
    have hadds : Adds l r (.msg i m) .Handle := call_adds hd hr
    obtain ⟨hd', hc', ht', hapart, hposted⟩ :=
      ih hadds.tidy (call_counted hd.toSized hc hr) (ht.post hadds) hrest
    refine ⟨hd', hc', ht', (call_apart hr).trans hapart, ?_⟩
    have hone : posted r = posted l ++ [.item i m] := by
      unfold posted
      rw [hadds.calls hd, if_pos rfl, List.map_append]
      rfl
    rw [hposted, hone, List.append_assoc]
    rfl

/-- The handler of item `i` is cancelled, if it was not before. -/
theorem handler_cancel_inv (h : Linked s) (htimer : (s.items i).timer = false)
    (hothers : ∀ j, j < s.next → j ≠ i → (s.items j).timer = (s.handler j).isSome) :
    Inv (handler_cancel s i) ∧ Apart s.loop (handler_cancel s i).loop := by
  unfold handler_cancel
  cases hhandler : s.handler i with
  | none =>
    refine ⟨⟨h, fun j hj => ?_⟩, Apart.refl s.loop⟩
    by_cases hne : j = i
    · rw [hne, hhandler, htimer]
      rfl
    · exact hothers j hj hne
  | some o =>
    obtain ⟨ho, hcb, _, _⟩ := h.timers.held i o hhandler
    have hflags := cancel_flags s.loop o
    have htype := (h.timers.keep o i ho hcb).1
    have hposted := hflags.posted htype (Or.inl rfl)
    refine ⟨⟨⟨cancel_tidy h.tidy o, ?_, h.signal, ?_, ?_⟩, fun j hj => ?_⟩, ⟨rfl, rfl, rfl⟩⟩
    · exact SameWork.counted (s := s.loop) ⟨rfl, rfl, rfl, rfl, rfl⟩ h.counted
    · obtain ⟨φ, hφ⟩ := h.placed
      exact ⟨φ, hposted ▸ hφ⟩
    · exact h.timers.disarm hhandler hflags
    · show (s.items j).timer = (Function.update s.handler i none j).isSome
      by_cases hne : j = i
      · rw [hne, Function.update_self, htimer]
        rfl
      · rw [Function.update_of_ne hne]
        exact hothers j hj hne

/-- `exec` of a pool, with the other items as they were. -/
theorem exec_others {p : Pool α ε} {m : Msg α ε} {j : Fid} (hne : j ≠ i) :
    (p.exec i m).items j = p.items j := Function.update_of_ne hne _ _

/-- A message leaves the queue and is executed. -/
theorem exec_inv {l : Loop.St (Callback α ε)} {m : Msg α ε} (h : Inv s) (hl : Intact l)
    (ht : Timers l s.next s.handler) (hposted : posted s.loop = .item i m :: posted l) :
    Inv (exec { s with loop := l } i m) ∧ Apart l (exec { s with loop := l } i m).loop := by
  obtain ⟨φ, hφ⟩ := h.placed
  rw [hposted] at hφ
  have hlinked : Linked { s with toPool := s.toPool.exec i m, loop := l } :=
    ⟨hl.tidy, hl.counted, hl.signal, ⟨φ, hφ.exec⟩, ht⟩
  have hothers : ∀ j, j < s.next → j ≠ i →
      ((s.toPool.exec i m).items j).timer = (s.handler j).isSome := by
    intro j hj hne
    rw [exec_others hne]
    exact h.handlers j hj
  unfold exec
  simp only
  split
  · rename_i htimer
    refine ⟨⟨hlinked, fun j hj => ?_⟩, Apart.refl l⟩
    by_cases hne : j = i
    · -- the flag was not set by this message
      have hkeep : (s.items i).timer = true := by
        have hexec : ((s.toPool.exec i m).items i).timer = true := htimer
        simp only [Pool.exec, Function.update_self] at hexec
        exact WorkItem.timer_of_exec hexec
      subst hne
      rw [← h.handlers j hj, hkeep]
      exact htimer
    · exact hothers j hj hne
  · rename_i htimer
    exact handler_cancel_inv hlinked (by simpa using htimer) hothers

/-! ## Rounds of the loop -/

section Rounds

variable {l : Loop.St (Callback α ε)} {o : Hid} {dead : Bool}

/-- A round takes a timer of a handler that was cancelled or fired. -/
theorem dead_timer_inv (h : Inv s) (hl : Intact l) (htook : Took s.loop l o dead)
    (htype : (s.loop.objs o).type = .Timer) (hdead : ¬ Live s.loop o) :
    (fire dead (s.loop.objs o)).2 = .nothing ∧ Inv { s with loop := l } := by
  have hflag : (s.loop.objs o).cancelled = true ∨ (s.loop.objs o).called = true := by
    by_contra hno
    rw [not_or, Bool.not_eq_true, Bool.not_eq_true] at hno
    exact hdead hno
  have hobjs := htook.objs
  rw [fire_flags hflag, Function.update_eq_self] at hobjs
  rw [fire_flags hflag]
  have hposted : posted l = posted s.loop := by
    have hnone : ownCall Callback.own (s.loop.objs o) = none := by
      unfold ownCall
      rw [htype]
      rfl
    unfold posted Loop.calls
    rw [hobjs, htook.queue]
    simp only [List.filterMap_cons, hnone]
  refine ⟨rfl, ⟨hl.tidy, hl.counted, hl.signal, ?_, ?_⟩, h.handlers⟩
  · obtain ⟨φ, hφ⟩ := h.placed
    exact ⟨φ, hposted ▸ hφ⟩
  · apply h.timers.of_objs hobjs htook.next
    intro i x hi
    obtain ⟨_, _, hlive, hw⟩ := h.timers.held i x hi
    refine htook.waiting ?_ hw
    rintro rfl
    exact hdead hlive

/-- A round fires the timer of a handler, which arms another one. -/
theorem live_timer_inv (h : Inv s) (hl : Intact l) (htook : Took s.loop l o dead)
    (ho : o < s.loop.next) (hcb : (s.loop.objs o).callback = some (.keep i))
    (hgreenlet : (s.loop.objs o).greenlet = none) (hlive : Live s.loop o)
    (hcall : call { s with loop := l } (fire dead (s.loop.objs o)).2 = some s') :
    Inv s' ∧ Apart l s'.loop := by
  obtain ⟨htype, hi, hown⟩ := h.timers.keep o i ho hcb
  have hhandler := hown hlive
  have hfire : fire dead (s.loop.objs o) = ((s.loop.objs o).marked, .call (.keep i)) := by
    rw [fire_live hlive.1 hlive.2]
    unfold HandleObject.invoke
    rw [hgreenlet, hcb]
  have hobjs := htook.objs
  rw [hfire] at hobjs hcall
  have hself : l.objs o = (s.loop.objs o).marked := by
    rw [hobjs, Function.update_self]
  have hflags : Flags s.loop l o := by
    constructor
    · exact htook.next
    · intro x hx
      rw [hobjs, Function.update_of_ne hx]
    · rw [hself]
      rfl
    · rw [hself]
      rfl
    · rintro ⟨_, hcalled⟩
      rw [hself] at hcalled
      simp [TimerObject.marked, htype] at hcalled
    · exact fun x hx hw => htook.waiting hx hw
  have hposted : posted l = posted s.loop := hflags.posted htype (Or.inr htook.queue)
  have hkeep : (s.items i).timer = true := by
    rw [h.handlers i hi, hhandler]
    rfl
  -- between the call and `call_later` the handler has no timer that is live
  have hlinked : Linked { s with loop := l, handler := Function.update s.handler i none } := by
    refine ⟨hl.tidy, hl.counted, hl.signal, ?_, h.timers.disarm hhandler hflags⟩
    obtain ⟨φ, hφ⟩ := h.placed
    exact ⟨φ, hposted ▸ hφ⟩
  have hcb' :
      _cb { s with loop := l, handler := Function.update s.handler i none } i = some s' := by
    have heq : _cb { s with loop := l, handler := Function.update s.handler i none } i =
        _cb { s with loop := l } i := by
      unfold _cb
      simp only [Function.update_idem]
    rw [heq]
    exact hcall
  refine cb_inv hlinked hi (Function.update_self _ _ _) hkeep (fun j hj hne => ?_) hcb'
  show (s.items j).timer = (Function.update s.handler i none j).isSome
  rw [Function.update_of_ne hne]
  exact h.handlers j hj

/-- A round executes a message. -/
theorem message_inv {m : Msg α ε} (h : Inv s) (hl : Intact l) (htook : Took s.loop l o dead)
    (ho : o < s.loop.next) (hcb : (s.loop.objs o).callback = some (.msg i m))
    (hgreenlet : (s.loop.objs o).greenlet = none)
    (hcall : call { s with loop := l } (fire dead (s.loop.objs o)).2 = some s') :
    Inv s' ∧ Apart l s'.loop := by
  obtain ⟨htype, hlive⟩ := h.timers.msg o i m ho hcb
  have hmarked : (s.loop.objs o).marked = s.loop.objs o := by
    have hcalled : decide ((s.loop.objs o).type = .Timer) = (s.loop.objs o).called := by
      rw [htype, hlive.2]
      rfl
    unfold TimerObject.marked
    rw [hcalled]
  have hfire : fire dead (s.loop.objs o) = (s.loop.objs o, .call (.msg i m)) := by
    rw [fire_live hlive.1 hlive.2, hmarked]
    unfold HandleObject.invoke
    rw [hgreenlet, hcb]
  have hobjs := htook.objs
  rw [hfire] at hobjs hcall
  rw [Function.update_eq_self] at hobjs
  have hposted : posted s.loop = .item i m :: posted l := by
    have hsome : ownCall Callback.own (s.loop.objs o) = some (.msg i m) := by
      unfold ownCall
      rw [htype, if_pos rfl, hcb]
      rfl
    unfold posted Loop.calls
    rw [hobjs, htook.queue]
    simp only [List.filterMap_cons, hsome]
    rfl
  have htimers : Timers l s.next s.handler := by
    apply h.timers.of_objs hobjs htook.next
    intro j x hj
    obtain ⟨_, hcbx, _, hw⟩ := h.timers.held j x hj
    refine htook.waiting ?_ hw
    rintro rfl
    rw [hcb] at hcbx
    cases hcbx
  cases hcall
  exact exec_inv h hl htimers hposted

/-- A round that takes an entry of the pool. -/
theorem next_inv {j : Nat} (h : Inv s)
    (hcalm : (Loop.Act.next j dead : Loop.Act (Callback α ε)).Calm)
    (hgo : s.loop.state ≠ .L_STOP) (hhead : (queue_shift s.loop.pendings).1 = some o)
    (hown : Owned Callback.own s.loop o) (hstep : Loop.step s.loop (.next j dead) = some l)
    (hcall : call { s with loop := l } (fires s.loop dead) = some s') :
    Inv s' ∧ Apart l s'.loop := by
  obtain ⟨htook, hfires⟩ := next_owned h.tidy hgo hhead hown hstep
  have hl : Intact l := by
    constructor
    · exact htook.tidy h.tidy (step_sized hstep h.tidy.toSized)
    · exact step_counted hstep h.tidy.toSized h.counted
    · exact (step_turn hstep hcalm h.signal).signal
  have hgreenlet := (h.tidy.plain o hown).1
  rw [hfires] at hcall
  rcases owned_cases hown with ⟨i, hcb⟩ | ⟨i, m, hcb⟩
  · by_cases hlive : Live s.loop o
    · exact live_timer_inv h hl htook hown.1 hcb hgreenlet hlive hcall
    · have htype := (h.timers.keep o i hown.1 hcb).1
      obtain ⟨hnothing, hinv⟩ := dead_timer_inv h hl htook htype hlive
      rw [hnothing] at hcall
      cases hcall
      exact ⟨hinv, Apart.refl l⟩
  · exact message_inv h hl htook hown.1 hcb hgreenlet hcall

end Rounds

/-- A step that touches no entry of the pool calls none of its callbacks. -/
theorem call_foreign {a : Loop.Act (Callback α ε)} {r : Sys α ε} (hd : Tidy Callback.own s.loop)
    (hnext : ∀ j dead, a = .next j dead → s.loop.state ≠ .L_STOP → ∀ o,
      (queue_shift s.loop.pendings).1 = some o → ¬ Owned Callback.own s.loop o) :
    call r (effect s.loop a) = some r := by
  cases a with
  | next j dead =>
    show call r (fires s.loop dead) = some r
    unfold fires
    split
    · rfl
    · rename_i hgo
      split
      · rfl
      · rename_i o ho
        have hnot := hnext j dead rfl hgo o ho
        have hlt : o < s.loop.next := by
          apply hd.queue o
          have hhead := (queue_shift_spec hd.pendings).1
          rw [ho] at hhead
          exact List.mem_of_mem_head? hhead.symm
        -- whatever is called is no callback of the pool
        have hcalls : ∀ k, (fire dead (s.loop.objs o)).2 = .call k → k.own = false := by
          intro k hk
          by_contra hown
          have hcb : (s.loop.objs o).callback = some k := fire_call hk
          exact hnot ⟨hlt, k, hcb, by simpa using hown⟩
        cases hfire : (fire dead (s.loop.objs o)).2 with
        | nothing => rfl
        | switch g => rfl
        | call k =>
          have hk := hcalls k hfire
          cases k with
          | keep i => cases hk
          | msg i m => cases hk
          | other n => rfl
  | _ => rfl

/-! ## Steps -/

theorem loop_inv {a : Loop.Act (Callback α ε)} {l : Loop.St (Callback α ε)} (h : Inv s)
    (hcalm : a.Calm) (hforeign : a.Foreign Callback.own s.loop)
    (hstep : Loop.step s.loop a = some l)
    (hcall : call { s with loop := l } (effect s.loop a) = some s') :
    Inv s' ∧ Apart l s'.loop := by
  by_cases htakes : ∃ j dead o, a = .next j dead ∧ s.loop.state ≠ .L_STOP ∧
      (queue_shift s.loop.pendings).1 = some o ∧ Owned Callback.own s.loop o
  · obtain ⟨j, dead, o, rfl, hgo, hhead, hown⟩ := htakes
    exact next_inv h hcalm hgo hhead hown hstep hcall
  · have hnext : ∀ j dead, a = .next j dead → s.loop.state ≠ .L_STOP → ∀ o,
        (queue_shift s.loop.pendings).1 = some o → ¬ Owned Callback.own s.loop o :=
      fun j dead ha hgo o hhead hown => htakes ⟨j, dead, o, ha, hgo, hhead, hown⟩
    obtain ⟨hspares, hd⟩ := foreign_spares h.tidy hforeign hnext hstep
    rw [call_foreign h.tidy hnext] at hcall
    cases hcall
    refine ⟨⟨⟨hd, ?_, ?_, ?_, h.timers.spares hspares⟩, h.handlers⟩, Apart.refl l⟩
    · exact step_counted hstep h.tidy.toSized h.counted
    · exact (step_turn hstep hcalm h.signal).signal
    · obtain ⟨φ, hφ⟩ := h.placed
      exact ⟨φ, posted_spares hspares ▸ hφ⟩

/-- The pool changes and the loop does not. -/
theorem pool_inv {p : Pool α ε} (h : Inv s) (hnext : p.next = s.next)
    (hplaced : ∃ φ, Placed p (posted s.loop) φ)
    (htimers : ∀ i, i < s.next → (p.items i).timer = (s.items i).timer) :
    Inv { s with toPool := p } := by
  refine ⟨⟨h.tidy, h.counted, h.signal, hplaced, ?_⟩, ?_⟩
  · rw [hnext]
    exact h.timers
  · intro i hi
    have hi : i < s.next := hnext ▸ hi
    exact (htimers i hi).trans (h.handlers i hi)

theorem submit_inv (h : Inv s) (hsub : submit s = some s') : Inv s' ∧ Apart s.loop s'.loop := by
  unfold submit at hsub
  split at hsub
  · cases hsub
    exact ⟨h, Apart.refl s.loop⟩
  · have hnext : s.toPool.submit.next = s.next + 1 := by
      unfold Pool.submit Pool._adjust_thread_count
      split
      · rfl
      · rfl
    have hitems : s.toPool.submit.items = Function.update s.items s.next .new := by
      unfold Pool.submit Pool._adjust_thread_count
      split
      · rfl
      · rfl
    have hnone : s.handler s.next = none := by
      cases hh : s.handler s.next with
      | none => rfl
      | some o =>
        obtain ⟨ho, hcb, _⟩ := h.timers.held s.next o hh
        exact absurd (h.timers.keep o s.next ho hcb).2.1 (Nat.lt_irrefl _)
    have hlinked : Linked { s with toPool := s.toPool.submit } := by
      refine ⟨h.tidy, h.counted, h.signal, ?_, ?_⟩
      · obtain ⟨φ, hφ⟩ := h.placed
        exact ⟨_, hφ.submit⟩
      · exact h.timers.mono (hnext ▸ Nat.le_succ s.next)
    have hlt : s.next < s.toPool.submit.next := by
      rw [hnext]
      exact Nat.lt_succ_self _
    have htimer : (s.toPool.submit.items s.next).timer = true := by
      rw [hitems, Function.update_self]
      rfl
    have hothers : ∀ j, j < s.toPool.submit.next → j ≠ s.next →
        (s.toPool.submit.items j).timer = (s.handler j).isSome := by
      intro j hj hne
      rw [hnext] at hj
      rw [hitems, Function.update_of_ne hne]
      exact h.handlers j (Nat.lt_of_le_of_ne (Nat.lt_succ_iff.1 hj) hne)
    obtain ⟨hinv, hapart⟩ := cb_inv hlinked hlt hnone htimer hothers hsub
    exact ⟨hinv, hapart⟩

/-- A thread does not touch the timers of the items. -/
theorem run_timers {p p' : Pool α ε} {t : Tid} {o : Outcome α ε} {ms : List (Msg α ε)}
    (h : p.run t o = some (p', i, ms)) :
    p'.next = p.next ∧ ∀ j, (p'.items j).timer = (p.items j).timer := by
  unfold Pool.run at h
  split at h
  · rename_i k pc _
    obtain ⟨⟨w, ms', next⟩, hrun, heq⟩ := Option.map_eq_some_iff.1 h
    cases heq
    refine ⟨rfl, fun j => ?_⟩
    by_cases hj : j = i
    · subst hj
      simp only [Function.update_self]
      exact WorkItem.timer_of_run hrun
    · simp only [Function.update_of_ne hj]
  · cases h

theorem Inv.kept (h : Inv s) : Kept s where
  one := by
    intro i hi htimer
    rw [h.handlers i hi] at htimer
    obtain ⟨o, ho⟩ := Option.isSome_iff_exists.1 htimer
    obtain ⟨hlt, hcb, hlive, hw⟩ := h.timers.held i o ho
    refine ⟨o, ⟨hlt, hcb, hlive⟩, hw, ho, ?_⟩
    rintro o' ⟨hlt', hcb', hlive'⟩
    have hown := (h.timers.keep o' i hlt' hcb').2.2 hlive'
    rw [ho, Option.some.injEq] at hown
    exact hown.symm
  none := by
    rintro i hi htimer o ⟨hlt, hcb, hlive⟩
    rw [h.handlers i hi, (h.timers.keep o i hlt hcb).2.2 hlive] at htimer
    cases htimer
  drained := fire_timers_drained

/-- Work outstanding has its timer on the loop. -/
theorem Inv.load_pos (h : Inv s) (hout : Outstanding s) : 0 < load s.loop := by
  obtain ⟨i, hi, hnotified, hfinished⟩ := hout
  obtain ⟨φ, hφ⟩ := h.placed
  have htimer : (s.items i).timer = true := (hφ.holds i hi).timer hnotified hfinished
  obtain ⟨o, _, hw, _⟩ := h.kept.one i hi htimer
  exact hw.load_pos

variable [Truth ε]

/-- A client does not touch the timers of the items. -/
theorem client_timers {p p' : Pool α ε} {c : Call} (h : p.client i c = some p') :
    p'.next = p.next ∧ ∀ j, (p'.items j).timer = (p.items j).timer := by
  unfold Pool.client at h
  split at h
  · cases h
    refine ⟨rfl, fun j => ?_⟩
    by_cases hj : j = i
    · subst hj
      simp only [Function.update_self]
      cases c with
      | _ => rfl
    · simp only [Function.update_of_ne hj]
  · cases h

/-- A step that is not one of the loop moves no pass. -/
theorem other_inv {a : Act α ε} (h : Inv s) (ha : ∀ b, a ≠ .loop b) (hstep : step s a = some s') :
    Inv s' ∧ Apart s.loop s'.loop := by
  cases a with
  | submit => exact submit_inv h hstep
  | shutdown =>
    cases hstep
    obtain ⟨φ, hφ⟩ := h.placed
    exact ⟨pool_inv h rfl ⟨φ, { hφ with }⟩ fun _ _ => rfl, Apart.refl s.loop⟩
  | quit =>
    cases hstep
    obtain ⟨φ, hφ⟩ := h.placed
    exact ⟨pool_inv h rfl ⟨φ, { hφ with }⟩ fun _ _ => rfl, Apart.refl s.loop⟩
  | get t =>
    obtain ⟨p, hget, rfl⟩ := Option.map_eq_some_iff.1 hstep
    obtain ⟨φ, hφ⟩ := h.placed
    obtain ⟨hnext, hitems⟩ := Pool.get_items hget
    exact ⟨pool_inv h hnext (hφ.get hget) fun _ _ => by rw [hitems], Apart.refl s.loop⟩
  | empty t =>
    obtain ⟨p, hempty, rfl⟩ := Option.map_eq_some_iff.1 hstep
    obtain ⟨φ, hφ⟩ := h.placed
    obtain ⟨hnext, hitems⟩ := Pool.empty_items hempty
    exact ⟨pool_inv h hnext ⟨φ, hφ.empty hempty⟩ fun _ _ => by rw [hitems], Apart.refl s.loop⟩
  | exit t =>
    obtain ⟨p, hexit, rfl⟩ := Option.map_eq_some_iff.1 hstep
    obtain ⟨φ, hφ⟩ := h.placed
    obtain ⟨hnext, hitems⟩ := Pool.exit_items hexit
    exact ⟨pool_inv h hnext ⟨φ, hφ.exit hexit⟩ fun _ _ => by rw [hitems], Apart.refl s.loop⟩
  | run t o =>
    obtain ⟨⟨p, i, ms⟩, hrun, hpost⟩ := Option.bind_eq_some_iff.1 hstep
    obtain ⟨l, hl, rfl⟩ := Option.map_eq_some_iff.1 hpost
    obtain ⟨φ, hφ⟩ := h.placed
    obtain ⟨hnext, htimers⟩ := run_timers hrun
    obtain ⟨hd, hc, ht, hapart, hposted⟩ := post_spec h.tidy h.counted h.timers hl
    refine ⟨⟨⟨hd, hc, hapart.catch_signal.trans h.signal, ?_, ?_⟩, ?_⟩, hapart⟩
    · show ∃ φ, Placed p (posted l) φ
      rw [hposted]
      exact hφ.run hrun
    · show Timers l p.next s.handler
      rw [hnext]
      exact ht
    · intro j hj
      have hj : j < s.next := hnext ▸ hj
      exact (htimers j).trans (h.handlers j hj)
  | client i c =>
    obtain ⟨p, hclient, rfl⟩ := Option.map_eq_some_iff.1 hstep
    obtain ⟨φ, hφ⟩ := h.placed
    obtain ⟨hnext, htimers⟩ := client_timers hclient
    exact ⟨pool_inv h hnext ⟨φ, hφ.client hclient⟩ fun j _ => htimers j, Apart.refl s.loop⟩
  | loop b => exact absurd rfl (ha b)

/-- Each step keeps the invariant, and only the loop itself leaves its loop. -/
theorem step_spec {a : Act α ε} (h : Inv s) (hcalm : a.Calm) (hstep : step s a = some s') :
    Inv s' ∧ (looping s'.loop < looping s.loop ↔
      ∃ b, a = .loop b ∧ Quits (Idle s.loop) s.loop b) := by
  by_cases ha : ∃ b, a = .loop b
  · obtain ⟨b, rfl⟩ := ha
    obtain ⟨hforeign, hbind⟩ := Option.ite_none_right_eq_some.1 hstep
    obtain ⟨l, hl, hcall⟩ := Option.bind_eq_some_iff.1 hbind
    obtain ⟨hinv, hapart⟩ := loop_inv h hcalm hforeign hl hcall
    refine ⟨hinv, ?_⟩
    rw [hapart.looping, (step_turn hl hcalm h.signal).left]
    constructor
    · exact fun hq => ⟨b, rfl, hq⟩
    · rintro ⟨c, hc, hq⟩
      cases hc
      exact hq
  · obtain ⟨hinv, hapart⟩ := other_inv h (fun b hb => ha ⟨b, hb⟩) hstep
    refine ⟨hinv, ?_⟩
    rw [hapart.looping]
    exact iff_of_false (lt_irrefl _) fun ⟨b, hb, _⟩ => ha ⟨b, hb⟩

/-! ## Runs -/

theorem stays_iff {a : Act α ε} (h : Inv s) (hcalm : a.Calm) (hstep : step s a = some s') :
    Stays s a ↔ Undisturbed s a := by
  have hleft := (step_spec h hcalm hstep).2
  have hstays : Stays s a ↔ (looping s'.loop < looping s.loop → ¬ Outstanding s) := by
    constructor
    · exact fun hs => hs s' hstep
    · intro hs r hr
      rw [hstep, Option.some.injEq] at hr
      exact hr ▸ hs
  rw [hstays, hleft]
  cases a with
  | loop b =>
    -- with work outstanding, a count of 0 is a wrapped one
    have hidle : Outstanding s → (Idle s.loop ↔
        2 ^ 32 ≤ load s.loop ∧ 2 ^ 32 ∣ load s.loop ∧ s.loop.ioactivecnt ≤ 1) := by
      intro hout
      rw [Idle, h.counted.zero_iff]
      constructor
      · rintro ⟨hdvd, hio⟩
        exact ⟨Nat.le_of_dvd (h.load_pos hout) hdvd, hdvd, hio⟩
      · rintro ⟨_, hdvd, hio⟩
        exact ⟨hdvd, hio⟩
    constructor
    · intro hs hout hq
      exact hs ⟨b, rfl, (quits_congr (hidle hout)).2 hq⟩ hout
    · rintro hu ⟨c, hc, hq⟩ hout
      cases hc
      exact hu hout ((quits_congr (hidle hout)).1 hq)
  | submit | shutdown | quit | get t | empty t | exit t | run t o | client i c =>
    refine iff_of_true ?_ trivial
    rintro ⟨b, hb, _⟩
    cases hb

theorem outstanding_iff (max_workers : Nat) (block : Nat → Hid) (now : Int)
    (as : List (Act α ε)) (s : Sys α ε) (hrun : run step (init max_workers block now) as = some s)
    (hcalm : Steps step (fun _ a => a.Calm) (init max_workers block now) as) :
    Always step Kept (init max_workers block now) as ∧
        Steps step Stays (init max_workers block now) as ↔
      Steps step Undisturbed (init max_workers block now) as := by
  have hinit : Inv (init max_workers block now : Sys α ε) := inv_init max_workers block now
  have hkept : Always step Kept (init max_workers block now) as :=
    always_of_steps (fun s a s' hstep hok hi => (step_spec hi hok hstep).1) (fun s hi => hi.kept)
      hinit hcalm
  have hsteps : Steps step (fun s a => Act.Calm a ∧ Stays s a) (init max_workers block now) as ↔
      Steps step (fun s a => Act.Calm a ∧ Undisturbed s a) (init max_workers block now) as := by
    refine steps_iff (fun s a s' hstep hok hi => ?_) (fun s a s' hstep hi => ?_) hinit hrun
    · exact (step_spec hi hok.1 hstep).1
    · exact and_congr_right fun hok => stays_iff hi hok hstep
  rw [steps_and, steps_and] at hsteps
  constructor
  · rintro ⟨_, hstays⟩
    exact (hsteps.1 ⟨hcalm, hstays⟩).2
  · intro hu
    exact ⟨hkept, (hsteps.2 ⟨hcalm, hu⟩).2⟩

end Steps

instance decidableCalm : ∀ a : Loop.Act (Callback α ε), Decidable a.Calm
  | .stop | .signal _ => isFalse id
  | .started _ exc => inferInstanceAs (Decidable (exc = false))
  | .returned _ exc => inferInstanceAs (Decidable (exc = false))
  | .polled _ _ exc => inferInstanceAs (Decidable (exc = false))
  | .call_soon _ | .call_later _ _ | .call_repeatedly _ _ | .set_timeout _ _ | .sleep _ _
  | .make_handle _ | .add_callback _ | .cancel _ | .running | .time _ | .io _ | .run _
  | .run_once _ | .test _ | .entered _ _ | .next _ _ => isTrue trivial

instance : ∀ a : Act α ε, Decidable a.Calm
  | .loop a => inferInstanceAs (Decidable a.Calm)
  | .submit | .shutdown | .quit | .get _ | .empty _ | .exit _ | .run _ _ | .client _ _ =>
    isTrue trivial

/-- An item whose future is cancelled before a thread takes it. -/
def cancelledRun : List (Act Nat Nat) :=
  [.submit, .client 0 .cancel, .get 0, .run 0 (.ok none), .loop (.run false), .loop (.test 0),
    .loop (.entered 0 true), .loop (.next 0 false)]

theorem outstanding_iff_cancelled :
    Always step Kept (init 1 (fun _ => 0) 5) cancelledRun ∧
        Steps step Stays (init 1 (fun _ => 0) 5) cancelledRun ↔
      Steps step Undisturbed (init 1 (fun _ => 0) 5) cancelledRun := by
  have hnotified : ∃ s : Sys Nat Nat, run step (init 1 (fun _ => 0) 5) cancelledRun = some s ∧
      decide ((s.items 0).future._state = .CANCELLED_AND_NOTIFIED) = true := run_any (by decide)
  obtain ⟨s, hrun, _⟩ := hnotified
  exact outstanding_iff 1 _ 5 cancelledRun s hrun (steps_of_labels (by decide) _)

/-! ## The count wraps -/

/-- Other code schedules one of its own entries again. -/
theorem run_add_callbacks {o : Hid} (n : Nat) :
    ∀ {s : Sys Nat Nat} {l : Loop.St (Callback Nat Nat)}, ¬ Owned Callback.own s.loop o →
      run Loop.step s.loop (List.replicate n (.add_callback o)) = some l →
      run step s (List.replicate n (.loop (.add_callback o))) = some { s with loop := l } := by
  induction n with
  | zero =>
    intro s l _ h
    cases h
    rfl
  | succ n ih =>
    intro s l hnot h
    rw [List.replicate_succ] at h ⊢
    obtain ⟨r, hr, hrest⟩ := run_cons_iff.1 h
    have hstep : step s (.loop (.add_callback o)) = some { s with loop := r } := by
      have hforeign : (Loop.Act.add_callback o).Foreign Callback.own s.loop := hnot
      simp only [step]
      rw [if_pos hforeign, hr]
      rfl
    have hnot' : ¬ Owned Callback.own r o := by
      obtain ⟨_, hsched⟩ := Option.ite_none_right_eq_some.1 hr
      rcases schedule_timer_cases hsched with ⟨_, q, _, rfl⟩ | ⟨_, q, _, rfl⟩
      · exact hnot
      · exact hnot
    exact run_cons_iff.2 ⟨_, hstep, ih hnot' hrest⟩

/-- Scheduling moves no pass. -/
theorem add_callbacks_apart {κ : Type} {o : Hid} (n : Nat) :
    ∀ {l l' : Loop.St κ}, run Loop.step l (List.replicate n (.add_callback o)) = some l' →
      Apart l l' := by
  induction n with
  | zero =>
    intro l l' h
    cases h
    exact Apart.refl l
  | succ n ih =>
    intro l l' h
    rw [List.replicate_succ] at h
    obtain ⟨r, hr, hrest⟩ := run_cons_iff.1 h
    obtain ⟨_, hsched⟩ := Option.ite_none_right_eq_some.1 hr
    exact (schedule_timer_apart hsched).trans (ih hrest)

/-- An item, and a handle and a timer of other code. -/
def wrapStart : List (Act Nat Nat) :=
  [.submit, .loop (.run false), .loop (.call_soon (.other 0)), .loop (.call_later 1 (.other 1))]

/-- The handle and the timer are scheduled until there are 2^32 entries: the loop
is left, and no thread has taken the item. -/
theorem outstanding_work_left :
    ∃ (as : List (Act Nat Nat)) (s : Sys Nat Nat), run step (init 1 (fun _ => 0) 0) as = some s ∧
      Steps step (fun _ a => a.Calm) (init 1 (fun _ => 0) 0) as ∧
      ¬ Steps step Stays (init 1 (fun _ => 0) 0) as := by
  have hstart : ∃ r : Sys Nat Nat, run step (init 1 (fun _ => 0) 0) wrapStart = some r ∧
      decide (r.next = 1 ∧ (r.items 0).future._state = .PENDING ∧ r.loop.next = 3 ∧
        (r.loop.objs 1).callback = some (.other 0) ∧ (r.loop.objs 1).type = .Handle ∧
        (r.loop.objs 2).callback = some (.other 1) ∧ (r.loop.objs 2).type = .Timer ∧
        r.loop.pendings.size = 1 ∧ r.loop.scheduled.size = 2 ∧ r.loop.activecnt = 3 ∧
        r.loop.ioactivecnt = 0 ∧ r.loop.passes[0]? = some ⟨.run, .testing⟩) = true :=
    run_any (by decide)
  obtain ⟨r, hr, hcheck⟩ := hstart
  obtain ⟨hnext, hstate, hobjs, hcb1, htype1, hcb2, htype2, hpend, hsched, hcount, hio, hpass⟩ :=
    of_decide_eq_true hcheck
  have hcalm0 : ∀ a ∈ wrapStart, a.Calm := by decide
  have hkeep : ∀ s (a : Act Nat Nat) s', step s a = some s' → a.Calm → Inv s → Inv s' :=
    fun s a s' hs hok hi => (step_spec hi hok hs).1
  have hinv : Inv r :=
    run_invariant_steps hkeep (inv_init 1 _ 0) (steps_of_labels hcalm0 _) hr
  -- the handle, 2^31 times, and then the timer
  have hroom1 : Room r.loop 1 (2 ^ 31 - 1) := by simp [Room, htype1, hpend]
  obtain ⟨u, hu, hsu, hau⟩ := add_callbacks_added (2 ^ 31 - 1) hinv.tidy.toSized
    (by rw [hobjs]; decide) hroom1
  have hroom2 : Room u 2 (2 ^ 31 - 2) := by
    simp [Room, hau.objs, htype2, hau.scheduled, htype1, hsched]
  obtain ⟨v, hv, _, hav⟩ := add_callbacks_added (2 ^ 31 - 2) hsu
    (by rw [hau.next, hobjs]; decide) hroom2
  have hnot1 : ¬ Owned Callback.own r.loop 1 := by
    rintro ⟨_, k, hk, hown⟩
    rw [hcb1] at hk
    cases hk
    cases hown
  have hnot2 : ¬ Owned Callback.own u 2 := by
    rintro ⟨_, k, hk, hown⟩
    rw [hau.objs, hcb2] at hk
    cases hk
    cases hown
  have hrun : run step (init 1 (fun _ => 0) 0)
      (wrapStart ++ (List.replicate (2 ^ 31 - 1) (.loop (.add_callback 1)) ++
        List.replicate (2 ^ 31 - 2) (.loop (.add_callback 2)))) =
        some { { r with loop := u } with loop := v } :=
    run_append.2 ⟨r, hr, run_append.2 ⟨_, run_add_callbacks _ hnot1 hu,
      run_add_callbacks _ hnot2 hv⟩⟩
  have hzero : v.activecnt = 0 := by
    rw [hav.activecnt, hau.activecnt, hcount]
    rfl
  have hiov : v.ioactivecnt = 0 := by
    rw [hav.ioactivecnt, hau.ioactivecnt, hio]
  have hpassv : v.passes[0]? = some ⟨.run, .testing⟩ := by
    rw [(add_callbacks_apart _ hv).passes, (add_callbacks_apart _ hu).passes, hpass]
  have hcalm : ∀ a ∈ wrapStart ++ (List.replicate (2 ^ 31 - 1) (Act.loop (.add_callback 1)) ++
      List.replicate (2 ^ 31 - 2) (Act.loop (.add_callback 2))) ++ [Act.loop (.test 0)],
      a.Calm := by
    intro a ha
    simp only [List.mem_append, List.mem_replicate, List.mem_singleton] at ha
    rcases ha with (ha | ⟨_, rfl⟩ | ⟨_, rfl⟩) | rfl
    · exact hcalm0 a ha
    · trivial
    · trivial
    · trivial
  -- the `while` of `LoopObject_run`
  have htest : step { { r with loop := u } with loop := v } (.loop (.test 0)) =
      some { r with loop := { v with state := .L_STOP }.leave 0 } := by
    have hleave : run_test v 0 = { v with state := .L_STOP }.leave 0 := by
      unfold run_test
      rw [if_neg]
      rintro ⟨_, hpos | hpos⟩
      · rw [hzero] at hpos
        cases hpos
      · rw [hiov] at hpos
        cases hpos
    have hforeign : (Loop.Act.test 0).Foreign Callback.own v := trivial
    simp only [step]
    rw [if_pos hforeign]
    simp only [Loop.step, hpassv, hleave]
    rfl
  have hend := run_append.2 ⟨_, hrun, run_cons_iff.2 ⟨_, htest, run_nil _⟩⟩
  refine ⟨_, _, hend, steps_of_labels hcalm _, fun hstays => ?_⟩
  have hlast := hstays.last hrun
  refine hlast _ htest ?_ ⟨0, ?_, ?_, ?_⟩
  · exact (looping_leave hpassv).2 rfl
  · show 0 < r.next
    rw [hnext]
    exact Nat.zero_lt_one
  · show (r.items 0).future._state ≠ _
    rw [hstate]
    simp
  · show (r.items 0).future._state ≠ _
    rw [hstate]
    simp

end Jega.Futures.KeepAlive
