import Jega.Loop.Steps

/-!
# Jega.Loop.Cancel — what a cancel stops

A cancelled entry is dropped by whoever takes it next. One place undoes a
cancel: `fire_timer` clears `cancelled` when it arms a repeating timer again, so
a timer that is cancelled while its own callback runs comes back. This is the
only one.
-/

namespace Jega.Loop

open Trace

variable {κ : Type}

/-! ## The statement -/

/-- The event takes the entry further: its callback is called, it is armed
again, or it moves from the heap to the queue. -/
def Event.Revives (o : Hid) : Event κ → Prop
  | .expire timer | .rearm timer => timer = o
  | .shift d => d.item = o ∧ d.fired ≠ .nothing
  | _ => False

/-- What is cancelled is not called, not armed again, and dropped when it is
taken from the heap or the queue. -/
def CancelFinal (s : St κ) : Prop :=
  s.log.Pairwise fun e e' => ∀ o, e = .cancel o → ¬ e'.Revives o

/-- No repeating timer is cancelled when its callback returns. -/
def CancelApart (s : St κ) : Act κ → Prop
  | .returned i _ => ∀ caller item, s.passes[i]? = some ⟨caller, .fired item⟩ →
      Rearms (s.objs item) → (s.objs item).cancelled = false
  | _ => True

/-! ## The invariant -/

/-- The flag `cancelled` tells which entries have been cancelled. -/
structure Flagged (s : St κ) : Prop where
  cancelled : ∀ o, .cancel o ∈ s.log ↔ (s.objs o).cancelled = true
  allocated : ∀ o, .cancel o ∈ s.log → o < s.next

variable {s s' t : St κ} {i : Nat}

theorem init_flagged (block : Nat → Hid) (now : Int) : Flagged (init κ block now) where
  cancelled := by simp [init]
  allocated := by simp [init]

theorem Flagged.congr (hf : Flagged s) (hlog : s'.log = s.log) (hobjs : s'.objs = s.objs)
    (hnext : s'.next = s.next) : Flagged s' := by
  refine ⟨?_, ?_⟩
  · rw [hlog, hobjs]
    exact hf.cancelled
  · rw [hlog, hnext]
    exact hf.allocated

/-- An object that changes keeps its flag. -/
theorem Flagged.set_obj (hf : Flagged s) (o : Hid) (obj : TimerObject κ)
    (hobj : obj.cancelled = (s.objs o).cancelled) : Flagged (s.set_obj o obj) where
  cancelled := by
    intro o'
    rw [St.set_obj_log, hf.cancelled, St.set_obj_objs]
    rcases eq_or_ne o' o with rfl | hne
    · rw [Function.update_self, hobj]
    · rw [Function.update_of_ne hne]
  allocated := hf.allocated

theorem Flagged.note (hf : Flagged s) (e : Event κ) (he : ∀ o, e ≠ .cancel o) :
    Flagged (s.note e) := by
  have hmem : ∀ o, .cancel o ∈ s.log ++ [e] ↔ .cancel o ∈ s.log := by
    intro o
    rw [List.mem_append, List.mem_singleton]
    exact or_iff_left fun h => he o h.symm
  refine ⟨fun o => ?_, fun o ho => ?_⟩
  · exact (hmem o).trans (hf.cancelled o)
  · exact hf.allocated o ((hmem o).1 ho)

theorem Flagged.cancel (hf : Flagged s) {timer : Hid} (hlt : timer < s.next) :
    Flagged (cancel s timer) := by
  refine ⟨fun o => ?_, fun o ho => ?_⟩
  · simp only [Loop.cancel, St.note_log, St.set_obj_log, St.note_objs, St.set_obj_objs,
      List.mem_append, List.mem_singleton, Event.cancel.injEq]
    rcases eq_or_ne o timer with rfl | hne
    · simp
    · rw [Function.update_of_ne hne, or_iff_left hne]
      exact hf.cancelled o
  · simp only [Loop.cancel, St.note_log, St.set_obj_log, List.mem_append, List.mem_singleton,
      Event.cancel.injEq] at ho
    rcases ho with ho | rfl
    · exact hf.allocated o ho
    · exact hlt

theorem Flagged.make_handle (hf : Flagged s) (seconds : Int) (cb : Option κ)
    (greenlet : Option Gid) : Flagged (make_handle s seconds cb greenlet).1 := by
  -- nobody has cancelled an address that is not given out yet
  have hfresh : (s.objs s.next).cancelled = false := by
    rw [← Bool.not_eq_true, ← hf.cancelled]
    exact fun h => absurd (hf.allocated _ h) (Nat.lt_irrefl _)
  have hobj := hf.set_obj s.next
    (if seconds > 0 then TimerObject_new s.clock seconds cb greenlet
      else HandleObject_new cb greenlet) (by rw [hfresh]; split <;> rfl)
  exact ⟨hobj.cancelled, fun o ho => Nat.lt_succ_of_lt (hobj.allocated o ho)⟩

/-- A last event is final exactly if it takes no cancelled entry further. -/
theorem cancelFinal_note (hf : Flagged s) (e : Event κ) :
    CancelFinal (s.note e) ↔
      CancelFinal s ∧ ∀ o, (s.objs o).cancelled = true → ¬ e.Revives o := by
  simp only [CancelFinal, St.note_log, List.pairwise_append, List.pairwise_singleton,
    List.mem_singleton, true_and]
  refine and_congr_right fun _ => ⟨fun h o ho => ?_, fun h e₁ he₁ e₂ he₂ o ho => ?_⟩
  · exact h _ ((hf.cancelled o).2 ho) e rfl o rfl
  · subst he₂ ho
    exact h o ((hf.cancelled o).1 he₁)

theorem cancelFinal_congr (h : s'.log = s.log) : CancelFinal s' ↔ CancelFinal s := by
  rw [CancelFinal, CancelFinal, h]

/-! ## Steps -/

/-- The invariant and the statement. -/
structure Dropping (s : St κ) : Prop where
  flagged : Flagged s
  final : CancelFinal s

theorem Dropping.congr (hd : Dropping s) (hlog : s'.log = s.log) (hobjs : s'.objs = s.objs)
    (hnext : s'.next = s.next) : Dropping s' :=
  ⟨hd.flagged.congr hlog hobjs hnext, (cancelFinal_congr hlog).2 hd.final⟩

theorem Dropping.set_obj (hd : Dropping s) (o : Hid) (obj : TimerObject κ)
    (hobj : obj.cancelled = (s.objs o).cancelled) : Dropping (s.set_obj o obj) :=
  ⟨hd.flagged.set_obj o obj hobj, (cancelFinal_congr rfl).2 hd.final⟩

/-- An event that takes no cancelled entry further. -/
theorem Dropping.note (hd : Dropping s) (e : Event κ) (he : ∀ o, e ≠ .cancel o)
    (hrev : ∀ o, e.Revives o → (s.objs o).cancelled = false) : Dropping (s.note e) := by
  refine ⟨hd.flagged.note e he, (cancelFinal_note hd.flagged e).2 ⟨hd.final, fun o ho hr => ?_⟩⟩
  rw [hrev o hr] at ho
  cases ho

theorem Dropping.cancel (hd : Dropping s) {timer : Hid} (hlt : timer < s.next) :
    Dropping (cancel s timer) := by
  refine ⟨hd.flagged.cancel hlt, ?_⟩
  have hnote := (cancelFinal_note hd.flagged (.cancel timer)).2 ⟨hd.final, fun _ _ hr => hr⟩
  exact (cancelFinal_congr rfl).2 hnote

theorem Dropping.make_handle (hd : Dropping s) (seconds : Int) (cb : Option κ)
    (greenlet : Option Gid) : Dropping (make_handle s seconds cb greenlet).1 :=
  ⟨hd.flagged.make_handle seconds cb greenlet, (cancelFinal_congr rfl).2 hd.final⟩

theorem schedule_timer_dropping {o : Hid} (h : schedule_timer s o = some s') (hd : Dropping s) :
    Dropping s' := by
  rcases schedule_timer_cases h with ⟨_, r, _, rfl⟩ | ⟨_, r, _, rfl⟩
  · have hnote := hd.note (.push o) (fun _ => by simp) (fun _ hr => hr.elim)
    exact hnote.congr rfl rfl rfl
  · exact hd.congr rfl rfl rfl

theorem schedule_timer_next {o : Hid} (h : schedule_timer s o = some s') :
    s'.next = s.next := by
  rcases schedule_timer_cases h with ⟨_, r, _, rfl⟩ | ⟨_, r, _, rfl⟩
  · rfl
  · rfl

theorem call_dropping {seconds : Int} {cb : Option κ} {greenlet : Option Gid}
    (h : internal_loop_schedule_call s seconds cb greenlet = some s') (hd : Dropping s) :
    Dropping s' ∧ s'.next = s.next + 1 :=
  ⟨schedule_timer_dropping h (hd.make_handle seconds cb greenlet), schedule_timer_next h⟩

theorem fire_timers_dropping (h : fire_timers none s = some s') (hd : Dropping s) : Dropping s' := by
  refine fire_timers_loop_invariant (P := Dropping) ?_ ?_ h hd
  · -- Case: a cancelled timer is dropped
    intro r _ _ hr
    have hnote := hr.note (.drop (r.scheduled.heap 0)) (fun _ => by simp) (fun _ hrev => hrev.elim)
    exact hnote.congr rfl rfl rfl
  · -- Case: a timer that moves to the queue is not cancelled
    intro r q _ hlive _ _ hr
    have hnote := hr.note (.expire (r.scheduled.heap 0)) (fun _ => by simp) (fun o hrev => by
      rw [← (hrev : r.scheduled.heap 0 = o)]
      exact hlive)
    exact hnote.congr rfl rfl rfl

/-- Arming a timer again is final exactly if the timer is not cancelled. -/
theorem fire_returned_dropping_iff {item : Hid} (h : fire_returned s item = some s')
    (hd : Dropping s) :
    (CancelFinal s' ↔ (Rearms (s.objs item) → (s.objs item).cancelled = false)) ∧
      ((Rearms (s.objs item) → (s.objs item).cancelled = false) → Dropping s') := by
  rcases fire_returned_cases h with ⟨hnot, rfl⟩ | ⟨hre, hsched⟩
  · exact ⟨iff_of_true hd.final fun hre => absurd hre hnot, fun _ => hd⟩
  · have hlog : s'.log = (s.note (.rearm item)).log := by
      rcases schedule_timer_cases hsched with ⟨hhandle, _⟩ | ⟨_, r, _, rfl⟩
      · simp [hre.1] at hhandle
      · rfl
    constructor
    · rw [cancelFinal_congr hlog, cancelFinal_note hd.flagged]
      constructor
      -- the flag is read off before it is reset
      · intro hfinal _
        rw [← Bool.not_eq_true]
        exact fun hcancelled => hfinal.2 item hcancelled rfl
      · intro hok
        refine ⟨hd.final, fun o ho hrev => ?_⟩
        rw [← (hrev : item = o), hok hre] at ho
        cases ho
    · intro hok
      refine schedule_timer_dropping hsched ?_
      refine (hd.set_obj item _ (hok hre).symm).note _ (fun _ => by simp) (fun o hrev => ?_)
      rw [← (hrev : item = o), St.set_obj_objs, Function.update_self]

theorem round_ended_dropping {p : Pass} (hp : s.passes[i]? = some p) (caller : Caller)
    (exc : Bool) :
    (CancelFinal (round_ended s i caller exc) ↔ CancelFinal s) ∧
      (Dropping s → Dropping (round_ended s i caller exc)) := by
  have hsame := (round_ended_same hp caller exc).1
  exact ⟨cancelFinal_congr hsame.log, fun hd => hd.congr hsame.log hsame.objs hsame.next⟩

theorem fire_item_dropping {caller : Caller} {item : Hid} {q : queue_t Hid} {dead : Bool}
    (hp : s.passes[i]? = some ⟨caller, .firing⟩) (hd : Dropping s)
    (h : FireItem { s with pendings := q } i caller item dead s') : Dropping s' := by
  have hq : Dropping { s with pendings := q } := hd.congr rfl rfl rfl
  -- an entry that is fired is not cancelled
  have hshift : ∀ (obj : TimerObject κ) (d : Shift κ), d.item = item →
      obj.cancelled = (s.objs item).cancelled →
      (d.fired ≠ .nothing → (s.objs item).cancelled = false) →
      Dropping (({ s with pendings := q }.set_obj item obj).note (.shift d)) := by
    intro obj d hitem hobj hfired
    refine (hq.set_obj item obj hobj).note _ (fun _ => by simp) (fun o hrev => ?_)
    rw [← hrev.1, hitem, St.set_obj_objs, Function.update_self, hobj]
    exact hfired hrev.2
  cases h with
  | skipped _ _ =>
    have hr := hshift (s.objs item) ⟨item, s.objs item, dead, .nothing, s.clock⟩ rfl rfl
      (fun hne => absurd rfl hne)
    exact (round_ended_dropping (s := ({ s with pendings := q }.set_obj item (s.objs item)).note
      (.shift ⟨item, s.objs item, dead, .nothing, s.clock⟩)) hp caller false).2 hr
  | lost hcancelled _ _ hreturned =>
    have hr := hshift (s.objs item).marked ⟨item, s.objs item, dead, .nothing, s.clock⟩ rfl rfl
      (fun hne => absurd rfl hne)
    refine (round_ended_dropping (fire_returned_passes hreturned ▸ hp) caller false).2
      ((fire_returned_dropping_iff hreturned hr).2 fun _ => ?_)
    rw [St.note_objs, St.set_obj_objs, Function.update_self]
    exact hcancelled
  | fired hcancelled _ _ =>
    have hr := hshift (s.objs item).marked
      ⟨item, s.objs item, dead, (s.objs item).invoke fun _ => dead, s.clock⟩ rfl rfl
      (fun _ => hcancelled)
    exact hr.congr rfl rfl rfl

theorem step_dropping_iff {a : Act κ} (h : step s a = some s') (hd : Dropping s) :
    (CancelFinal s' ↔ CancelApart s a) ∧ (CancelApart s a → Flagged s') := by
  have hkeep : ∀ {a : Act κ}, CancelApart s a → Dropping s' →
      (CancelFinal s' ↔ CancelApart s a) ∧ (CancelApart s a → Flagged s') :=
    fun hok hd' => ⟨iff_of_true hd'.final hok, fun _ => hd'.flagged⟩
  cases step_cases h with
  | quiet hidle hquiet =>
    refine hkeep ?_ (hd.congr hquiet.log hquiet.objs hquiet.next)
    cases a <;> first | exact hidle.elim | trivial
  | call hcalls hcall =>
    refine hkeep ?_ (call_dropping hcall hd).1
    cases a <;> first | exact hcalls.elim | trivial
  | call_repeatedly _ hcall =>
    exact hkeep trivial ((call_dropping hcall hd).1.set_obj _ _ rfl)
  | set_timeout hcall =>
    obtain ⟨hr, hnext⟩ := call_dropping hcall hd
    refine hkeep trivial ?_
    split
    · exact hr.cancel (hnext ▸ Nat.lt_succ_self _)
    · exact hr
  | make_handle => exact hkeep trivial (hd.make_handle 0 _ none)
  | add_callback _ hsched => exact hkeep trivial (schedule_timer_dropping hsched hd)
  | cancel hlt => exact hkeep trivial (hd.cancel hlt)
  | time => exact hkeep trivial (hd.congr rfl rfl rfl)
  | entered htimers hquiet =>
    exact hkeep trivial
      ((fire_timers_dropping htimers hd).congr hquiet.log hquiet.objs hquiet.next)
  | next hp _ _ hfire => exact hkeep trivial (fire_item_dropping hp hd hfire)
  | @returned i caller item exc r hp hreturned =>
    obtain ⟨hiff, hkept⟩ := fire_returned_dropping_iff hreturned hd
    obtain ⟨hfinal, hdrop⟩ :=
      round_ended_dropping (fire_returned_passes hreturned ▸ hp) caller exc
    -- the pass `i` has one entry in flight, the one that `CancelApart` asks about
    have hok : CancelApart s (.returned i exc) ↔
        (Rearms (s.objs item) → (s.objs item).cancelled = false) := by
      constructor
      · exact fun hok => hok caller item hp
      · intro hok caller' item' hp'
        rw [hp] at hp'
        cases hp'
        exact hok
    exact ⟨(hfinal.trans hiff).trans hok.symm, fun h => (hdrop (hkept (hok.1 h))).flagged⟩

/-! ## Runs -/

/-- Cancels are final all along a run exactly if no repeating timer is
cancelled when its callback returns. -/
theorem cancel_final_iff {block : Nat → Hid} {now : Int} {as : List (Act κ)}
    (h : run step (init κ block now) as = some t) :
    Always step CancelFinal (init κ block now) as ↔
      Steps step CancelApart (init κ block now) as := by
  refine always_iff_steps (fun s a s' hs hok hf hP => (step_dropping_iff hs ⟨hf, hP⟩).2 hok)
    (fun s a s' hs hf hP => (step_dropping_iff hs ⟨hf, hP⟩).1) (init_flagged block now) ?_ h
  exact List.Pairwise.nil

/-- A repeating timer that is cancelled between two of its runs. -/
def cancelledRun : List (Act Nat) :=
  [.call_repeatedly 2 0, .run false, .test 0, .time 9, .entered 0 true, .next 0 false,
    .returned 0 false, .cancel 0, .next 0 false, .polled 0 true false, .test 0, .time 20,
    .entered 0 true]

theorem cancel_final_iff_between :
    Always step CancelFinal (init Nat (fun _ => 0) 5) cancelledRun ↔
      Steps step CancelApart (init Nat (fun _ => 0) 5) cancelledRun := by
  obtain ⟨t, ht, _⟩ := run_any (p := fun t : St Nat => t.scheduled.size == 0)
    (by decide : (run step (init Nat (fun _ => 0) 5) cancelledRun).any _ = true)
  exact cancel_final_iff ht

/-- A repeating timer that its own callback cancels. -/
def selfCancelRun : List (Act Nat) :=
  [.call_repeatedly 2 0, .run false, .test 0, .time 9, .entered 0 true, .next 0 false,
    .cancel 0, .returned 0 false, .next 0 false, .polled 0 true false, .test 0, .time 20,
    .entered 0 true, .next 0 false]

/-- Event `n` is a cancel, and the next one arms that timer again. -/
def cancelThenRearm (s : St κ) (n : Nat) : Bool :=
  match s.log[n]?, s.log[n + 1]? with
  | some (.cancel o), some (.rearm o') => o == o'
  | _, _ => false

theorem cancelThenRearm_not_final {n : Nat} (h : cancelThenRearm s n = true) :
    ¬ CancelFinal s := by
  intro hfinal
  unfold cancelThenRearm at h
  split at h
  next o o' hcancel hrearm =>
    obtain ⟨hn, hcancel⟩ := List.getElem?_eq_some_iff.1 hcancel
    obtain ⟨hn', hrearm⟩ := List.getElem?_eq_some_iff.1 hrearm
    have hnot := List.pairwise_iff_getElem.1 hfinal n (n + 1) hn hn' (by omega) o hcancel
    rw [hrearm] at hnot
    exact hnot (eq_of_beq h).symm
  · cases h

/-- The timer is armed again, and its callback is called a second time. -/
theorem self_cancel_rearmed :
    ∃ t, run step (init Nat (fun _ => 0) 5) selfCancelRun = some t ∧
      t.passes = [⟨.run, .fired 0⟩] ∧ ¬ CancelFinal t := by
  obtain ⟨t, ht, hcheck⟩ := run_any
    (p := fun t : St Nat => t.passes == [⟨.run, .fired 0⟩] && cancelThenRearm t 2)
    (by decide +kernel : (run step (init Nat (fun _ => 0) 5) selfCancelRun).any _ = true)
  rw [Bool.and_eq_true, beq_iff_eq] at hcheck
  exact ⟨t, ht, hcheck.1, cancelThenRearm_not_final hcheck.2⟩

end Jega.Loop
