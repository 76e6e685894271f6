import Jega.Loop.Steps

/-!
# Jega.Loop.Fifo — the pending queue is first in, first out

What `fire_pendings` has shifted and what is still queued are together what was
ever pushed, in push order, whatever callbacks do and however passes end. A
handle that is shifted is fired unless it is cancelled, and a round of a pass
takes entries off the front only, also when it is the last of its pass.
-/

namespace Jega.Loop

open Trace

variable {κ : Type}

/-! ## The statement -/

def Event.pushed : Event κ → Option Hid
  | .push item | .expire item => some item
  | _ => none

def Event.shifted : Event κ → Option (Shift κ)
  | .shift d => some d
  | _ => none

/-- The entries pushed so far, by `schedule_timer` or `fire_timers`. -/
def pushes (s : St κ) : List Hid := s.log.filterMap Event.pushed

/-- The entries `fire_pendings` has shifted so far. -/
def shifts (s : St κ) : List (Shift κ) := s.log.filterMap Event.shifted

/-- A handle is fired when it is shifted, unless it is cancelled. -/
def Shift.Fires (d : Shift κ) : Prop :=
  d.object.type = .Handle →
    d.fired = if d.object.cancelled then .nothing else d.object.invoke fun _ => d.dead

/-- The labels that end a round of `fire_pendings`, or its whole pass. -/
def Act.Round : Act κ → Prop
  | .next _ _ | .returned _ _ => True
  | _ => False

/-- How many entries the label may take off the queue: a round takes one before its
switch or call, and none behind it. -/
def Act.takes : Act κ → Nat
  | .next _ _ => 1
  | _ => 0

/-! ## The invariant -/

structure Fifo (s : St κ) : Prop where
  order : pushes s = (shifts s).map Shift.item ++ s.pendings.entries
  fires : ∀ d ∈ shifts s, d.Fires
  handles : ∀ o, (s.objs o).type = .Handle → (s.objs o).called = false

variable {s s' t : St κ} {i : Nat}

theorem init_fifo (block : Nat → Hid) (now : Int) : Fifo (init κ block now) where
  order := rfl
  fires := fun _ hd => nomatch hd
  handles := fun _ _ => rfl

theorem Fifo.congr (hf : Fifo s) (hlog : s'.log = s.log) (hq : s'.pendings = s.pendings)
    (hobjs : s'.objs = s.objs) : Fifo s' := by
  refine ⟨?_, ?_, ?_⟩
  · rw [pushes, shifts, hlog, hq]
    exact hf.order
  · rw [shifts, hlog]
    exact hf.fires
  · rw [hobjs]
    exact hf.handles

/-- An object changes to one that is no handle, or not called. -/
theorem Fifo.set_obj (hf : Fifo s) (o : Hid) (obj : TimerObject κ)
    (hobj : obj.type = .Handle → obj.called = false) : Fifo (s.set_obj o obj) where
  order := hf.order
  fires := hf.fires
  handles := by
    intro h htype
    rcases eq_or_ne h o with rfl | hne
    · simp only [St.set_obj_objs, Function.update_self] at htype ⊢
      exact hobj htype
    · simp only [St.set_obj_objs, Function.update_of_ne hne] at htype ⊢
      exact hf.handles h htype

theorem pushes_note (s : St κ) (e : Event κ) : pushes (s.note e) = pushes s ++ e.pushed.toList := by
  cases h : e.pushed <;> simp [pushes, List.filterMap_append, h]

theorem shifts_note (s : St κ) (e : Event κ) :
    shifts (s.note e) = shifts s ++ e.shifted.toList := by
  cases h : e.shifted <;> simp [shifts, List.filterMap_append, h]

/-- An event that is no push and no shift. -/
theorem Fifo.note (hf : Fifo s) {e : Event κ} (hpush : e.pushed = none)
    (hshift : e.shifted = none) : Fifo (s.note e) := by
  refine ⟨?_, ?_, hf.handles⟩
  · rw [pushes_note, shifts_note, hpush, hshift]
    simpa using hf.order
  · rw [shifts_note, hshift]
    simpa using hf.fires

theorem Fifo.cancel (hf : Fifo s) (timer : Hid) : Fifo (cancel s timer) := by
  have hobj := hf.set_obj timer { s.objs timer with cancelled := true } (hf.handles timer)
  exact hobj.note (e := .cancel timer) rfl rfl

/-- A push goes to the end of the queue. -/
theorem Fifo.push (hf : Fifo s) (hs : Sized s) {o : Hid} {r : queue_t Hid × Int}
    (h : queue_push none true s.pendings o = some r) {e : Event κ} (hpush : e.pushed = some o)
    (hshift : e.shifted = none) : Fifo ({ s with pendings := r.1 }.note e) := by
  have hentries := (queue_push_cases hs.pendings hs.pendings_dvd h).2.1
  refine ⟨?_, ?_, hf.handles⟩
  · rw [pushes_note, shifts_note, hpush, hshift, St.note_pendings, hentries]
    have horder : pushes { s with pendings := r.1 } = _ := hf.order
    rw [horder]
    simp [shifts]
  · rw [shifts_note, hshift]
    simpa [shifts] using hf.fires

/-- A shift takes the head of the queue. -/
theorem Fifo.shift (hf : Fifo s) {d : Shift κ} {q : queue_t Hid}
    (hentries : s.pendings.entries = d.item :: q.entries) (hd : d.Fires) :
    Fifo ({ s with pendings := q }.note (.shift d)) := by
  refine ⟨?_, ?_, hf.handles⟩
  · rw [pushes_note, shifts_note, St.note_pendings]
    have horder : pushes { s with pendings := q } = _ := hf.order
    rw [horder, hentries]
    simp [shifts, Event.pushed, Event.shifted]
  · intro d' hd'
    rw [shifts_note] at hd'
    rcases List.mem_append.1 hd' with hmem | hmem
    · exact hf.fires d' hmem
    · rw [List.mem_singleton.1 hmem]
      exact hd

theorem schedule_timer_fifo (hf : Fifo s) (hs : Sized s) {o : Hid}
    (h : schedule_timer s o = some s') : Fifo s' := by
  rcases schedule_timer_cases h with ⟨_, r, hr, rfl⟩ | ⟨_, r, _, rfl⟩
  · exact (hf.push hs hr rfl rfl).congr rfl rfl rfl
  · exact hf.congr rfl rfl rfl

theorem call_fifo (hf : Fifo s) (hs : Sized s) {seconds : Int} {cb : Option κ}
    {greenlet : Option Gid} (h : internal_loop_schedule_call s seconds cb greenlet = some s') :
    Fifo s' := by
  have hmake : Fifo (make_handle s seconds cb greenlet).1 := by
    refine (hf.set_obj s.next _ (fun _ => ?_)).congr rfl rfl rfl
    split <;> rfl
  exact schedule_timer_fifo hmake (hs.congr rfl rfl) h

theorem fire_timers_fifo (hf : Fifo s) (hs : Sized s) (h : fire_timers none s = some s') : Fifo s' := by
  refine (fire_timers_loop_invariant (P := fun r => Sized r ∧ Fifo r) ?_ ?_ h ⟨hs, hf⟩).2
  · intro r _ _ ⟨hr, hfr⟩
    refine ⟨hr.drop, ?_⟩
    have hnote := hfr.note (e := .drop (r.scheduled.heap 0)) rfl rfl
    exact hnote.congr rfl rfl rfl
  · intro r q _ _ _ hq ⟨hr, hfr⟩
    refine ⟨hr.expire hq, ?_⟩
    have hpush := hfr.push hr hq (e := .expire (r.scheduled.heap 0)) rfl rfl
    exact hpush.congr rfl rfl rfl

theorem fire_returned_fifo (hf : Fifo s) (hs : Sized s) {item : Hid}
    (h : fire_returned s item = some s') : Fifo s' := by
  rcases fire_returned_cases h with ⟨_, rfl⟩ | ⟨_, hsched⟩
  · exact hf
  · refine schedule_timer_fifo ?_ ?_ hsched
    · exact (hf.set_obj item _ (fun _ => rfl)).note rfl rfl
    · exact hs.congr rfl rfl

theorem fire_item_fifo {caller : Caller} {item : Hid} {q : queue_t Hid} {dead : Bool}
    (hf : Fifo s) (hs : Sized s) (hp : s.passes[i]? = some ⟨caller, .firing⟩)
    (hshift : queue_shift s.pendings = (some item, q))
    (h : FireItem { s with pendings := q } i caller item dead s') : Fifo s' := by
  have hentries := (queue_shift_some hs.pendings hshift).1
  have hout : Sized { s with pendings := q } :=
    ⟨(hs.shift hshift).1.1, (hs.shift hshift).1.2, hs.scheduled⟩
  have hmarked : (s.objs item).marked.type = .Handle → (s.objs item).marked.called = false := by
    intro htype
    simp only [TimerObject.marked] at htype ⊢
    simp [htype]
  cases h with
  | skipped hflag _ =>
    -- a handle is never called, so its flag is `cancelled`
    have hfires : Shift.Fires ⟨item, s.objs item, dead, .nothing, s.clock⟩ := by
      intro htype
      have hcalled := hf.handles item htype
      rcases hflag with hflag | hflag
      · rw [if_pos hflag]
      · exact absurd (hcalled.symm.trans hflag) (by simp)
    have hshifted := (hf.shift (d := ⟨item, s.objs item, dead, .nothing, s.clock⟩) hentries
      hfires).set_obj item _ (hf.handles item)
    have hsame := (round_ended_same (s := ({ s with pendings := q }.set_obj item
      (s.objs item)).note (.shift ⟨item, s.objs item, dead, .nothing, s.clock⟩)) hp caller false).1
    exact hshifted.congr hsame.log hsame.pendings hsame.objs
  | lost hcancelled _ hnothing hreturned =>
    have hfires : Shift.Fires ⟨item, s.objs item, dead, .nothing, s.clock⟩ := by
      intro _
      exact (if_neg (by simpa using hcancelled)).trans hnothing |>.symm
    have hshifted := (hf.shift (d := ⟨item, s.objs item, dead, .nothing, s.clock⟩) hentries
      hfires).set_obj item _ hmarked
    have hr := fire_returned_fifo (hshifted.congr rfl rfl rfl) (hout.congr rfl rfl) hreturned
    have hsame := (round_ended_same (fire_returned_passes hreturned ▸ hp) caller false).1
    exact hr.congr hsame.log hsame.pendings hsame.objs
  | fired hcancelled _ _ =>
    have hfires : Shift.Fires
        ⟨item, s.objs item, dead, (s.objs item).invoke fun _ => dead, s.clock⟩ := by
      intro _
      exact (if_neg (by simpa using hcancelled)).symm
    have hshifted := (hf.shift (q := q) hentries hfires).set_obj item _ hmarked
    exact hshifted.congr rfl rfl rfl

theorem step_fifo {a : Act κ} (h : step s a = some s') (hs : Sized s) (hf : Fifo s) : Fifo s' := by
  cases step_cases h with
  | quiet _ hquiet => exact hf.congr hquiet.log hquiet.pendings hquiet.objs
  | call _ hr => exact call_fifo hf hs hr
  | call_repeatedly _ hr =>
    have hcall := call_fifo hf hs hr
    exact hcall.set_obj _ _ (hcall.handles _)
  | set_timeout hr =>
    -- without a deadline the handle is cancelled at once, in the queue
    have hcall := call_fifo hf hs hr
    split
    · exact hcall.cancel s.next
    · exact hcall
  | make_handle => exact (hf.set_obj s.next _ (fun _ => rfl)).congr rfl rfl rfl
  | add_callback _ hsched => exact schedule_timer_fifo hf hs hsched
  | @cancel timer _ => exact hf.cancel timer
  | time => exact hf.congr rfl rfl rfl
  | entered htimers hquiet =>
    exact (fire_timers_fifo hf hs htimers).congr hquiet.log hquiet.pendings hquiet.objs
  | next hp _ hshift hfire => exact fire_item_fifo hf hs hp hshift hfire
  | @returned i caller item exc r hp hreturned =>
    have hsame := (round_ended_same (fire_returned_passes hreturned ▸ hp) caller exc).1
    exact (fire_returned_fifo hf hs hreturned).congr hsame.log hsame.pendings hsame.objs

/-! ## Rounds -/

/-- The end of a round leaves the queue alone. -/
theorem round_ended_front {p : Pass} (hp : s.passes[i]? = some p) (caller : Caller) (exc : Bool) :
    shifts (round_ended s i caller exc) = shifts s ∧
      (round_ended s i caller exc).pendings = s.pendings := by
  have hsame := (round_ended_same hp caller exc).1
  refine ⟨?_, hsame.pendings⟩
  rw [shifts, hsame.log]
  rfl

/-- Arming a timer again leaves the queue alone. -/
theorem fire_returned_front {item : Hid} (h : fire_returned s item = some s') :
    shifts s' = shifts s ∧ s'.pendings = s.pendings := by
  rcases fire_returned_cases h with ⟨_, rfl⟩ | ⟨hre, hsched⟩
  · exact ⟨rfl, rfl⟩
  -- what is armed again is a timer, and it goes to the heap
  · rcases schedule_timer_cases hsched with ⟨hhandle, _⟩ | ⟨_, r, _, rfl⟩
    · simp [hre.1] at hhandle
    · refine ⟨?_, rfl⟩
      have hnote := shifts_note (s.set_obj item { s.objs item with
        called := false, cancelled := false, seconds := s.clock + (s.objs item).interval })
        (.rearm item)
      exact hnote.trans (List.append_nil _)

/-- A round takes at most one entry, off the front of the queue. -/
theorem round_front {a : Act κ} (ha : a.Round) (h : step s a = some s') (hs : Sized s) :
    ∃ l, l.length ≤ a.takes ∧ (shifts s').map Shift.item = (shifts s).map Shift.item ++ l ∧
      s.pendings.entries = l ++ s'.pendings.entries := by
  cases step_cases h with
  | quiet _ hquiet =>
    refine ⟨[], Nat.zero_le _, ?_, ?_⟩
    · rw [shifts, hquiet.log, List.append_nil]
      rfl
    · rw [hquiet.pendings]
      rfl
  | @next i caller item q dead _ hp _ hshift hfire =>
    have hentries := (queue_shift_some hs.pendings hshift).1
    -- whatever comes of the entry, it is shifted and nothing else is
    have hfront : ∀ (obj : TimerObject κ) (d : Shift κ) (r : St κ), d.item = item →
        shifts r = shifts (({ s with pendings := q }.set_obj item obj).note (.shift d)) →
        r.pendings = q → (shifts r).map Shift.item = (shifts s).map Shift.item ++ [item] ∧
          s.pendings.entries = [item] ++ r.pendings.entries := by
      intro obj d r hd hshifts hpend
      rw [hshifts, shifts_note, hpend]
      refine ⟨?_, hentries⟩
      simp [shifts, Event.shifted, hd]
    refine ⟨[item], le_refl 1, ?_⟩
    cases hfire with
    | skipped _ _ =>
      obtain ⟨hshifts, hpend⟩ := round_ended_front (s := ({ s with pendings := q }.set_obj item
        (s.objs item)).note (.shift ⟨item, s.objs item, dead, .nothing, s.clock⟩)) hp caller false
      exact hfront _ _ _ rfl hshifts hpend
    | lost _ _ _ hreturned =>
      obtain ⟨hshifts, hpend⟩ := round_ended_front (fire_returned_passes hreturned ▸ hp) caller false
      obtain ⟨hshifts', hpend'⟩ := fire_returned_front hreturned
      exact hfront _ _ _ rfl (hshifts.trans hshifts') (hpend.trans hpend')
    | fired _ _ _ => exact hfront _ _ _ rfl rfl rfl
  | @returned i caller item exc r hp hreturned =>
    obtain ⟨hshifts, hpend⟩ := round_ended_front (fire_returned_passes hreturned ▸ hp) caller exc
    obtain ⟨hshifts', hpend'⟩ := fire_returned_front hreturned
    refine ⟨[], Nat.zero_le _, ?_, ?_⟩
    · rw [hshifts, hshifts', List.append_nil]
    · rw [hpend, hpend']
      rfl
  | call hcalls _ =>
    -- no label that schedules a call ends a round
    exfalso
    cases a <;> first | exact ha | exact hcalls
  | _ => exact absurd ha id

/-- The pending queue is first in, first out over every run, each handle that is
pushed and not cancelled is fired once for the push, and the end of a pass
leaves the entries behind the one it was in: that one was taken off before, and
nothing else is. -/
theorem call_soon_fifo {block : Nat → Hid} {now : Int} {as : List (Act κ)}
    (h : run step (init κ block now) as = some t) :
    pushes t = (shifts t).map Shift.item ++ t.pendings.entries ∧ (∀ d ∈ shifts t, d.Fires) ∧
      ∀ a t', step t a = some t' → a.Round →
        ∃ l, l.length ≤ a.takes ∧
          (shifts t').map Shift.item = (shifts t).map Shift.item ++ l ∧
          t.pendings.entries = l ++ t'.pendings.entries := by
  have hinv : ∀ (s : St κ) a s', step s a = some s' → Sized s ∧ Fifo s → Sized s' ∧ Fifo s' :=
    fun s a s' hstep hi => ⟨step_sized hstep hi.1, step_fifo hstep hi.1 hi.2⟩
  obtain ⟨hs, hf⟩ := run_invariant hinv ⟨init_sized block now, init_fifo block now⟩ h
  exact ⟨hf.order, hf.fires, fun a t' hstep ha => round_front ha hstep hs⟩

/-- A callback that schedules another one and raises, and a second run. -/
def interruptedRun : List (Act Nat) :=
  [.call_soon 7, .call_soon 8, .run false, .test 0, .entered 0 true, .next 0 false, .call_soon 9,
    .returned 0 true, .run false, .test 0, .entered 0 true, .next 0 false]

theorem call_soon_fifo_interrupted :
    ∃ t, run step (init Nat (fun _ => 0) 0) interruptedRun = some t ∧ t.pendings.entries = [2] ∧
      pushes t = (shifts t).map Shift.item ++ t.pendings.entries := by
  obtain ⟨t, ht, hentries⟩ := run_any (p := fun t : St Nat => t.pendings.entries == [2])
    (by decide : (run step (init Nat (fun _ => 0) 0) interruptedRun).any _ = true)
  exact ⟨t, ht, eq_of_beq hentries, (call_soon_fifo ht).1⟩

end Jega.Loop
