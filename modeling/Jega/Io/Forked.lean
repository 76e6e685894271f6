import Jega.Io.Registry
import Jega.Loop.Steps
import Jega.Trace.History

/-!
# Jega.Io.Forked — the loop that a pass polls

The two halves of the loop together: the passes with their timers and entries,
and the descriptors with the check for a fork. `reset_loop` destroys the picoev
loop and creates another one. `internal_run_once` reads `main_loop` into a local
before it makes that check, and polls what the local says.

The history knows which passes have seen a reset. A pass polls the main loop
exactly if it has seen none.
-/

namespace Jega.Io.Forked

open Trace

/-- A `picoev_loop`. They are numbered as they are created, and one that has been
destroyed does not come back. -/
abbrev Lid := Nat

structure St (κ : Type) where
  sched : Loop.St κ
  io : Registry.St
  main_loop : Lid
  /-- The local `loop` of `internal_run_once`, by pass. -/
  locals : List Lid

variable {κ : Type}

/-- The descriptors change; the scheduler sees their count. -/
def St.set_io (s : St κ) (io : Registry.St) : St κ :=
  { s with io := io, sched := { s.sched with ioactivecnt := io.ioactivecnt } }

/-- `LoopObject_init` and `__init__`. -/
def init (κ : Type) (block : Nat → Hid) (now : Int) (ssock : Registry.Slot) : St κ :=
  St.set_io ⟨Loop.init κ block now, Registry.init ssock, 0, []⟩ (Registry.init ssock)

/-- `reset_loop`. Python's `reset` makes a self-pipe or raises; the loop is
another one either way. -/
def reset_loop (s : St κ) (made : Option Registry.Slot) : St κ × Bool :=
  let s := { s with main_loop := s.main_loop + 1 }
  match made with
  | some ssock => (s.set_io (Registry.reset_loop s.io ssock), true)
  | none => (s.set_io (Registry.destroy_main_loop s.io), false)

/-- `call_fork_loop`, and whether it is not -1. -/
def call_fork_loop (s : St κ) (made : Option Registry.Slot) : St κ × Bool :=
  if s.io.postfork then reset_loop { s with io := { s.io with postfork := false } } made
  else (s, true)

/-- A list with an element for each pass: one for a pass that is new or that
begins `internal_run_once`, and none for a pass that has returned. -/
def frames {α : Type} (s s' : Loop.St κ) (pass : Option Nat) (begun : α) (l : List α) : List α :=
  match pass with
  | some i =>
    if s'.passes.length < s.passes.length then l.eraseIdx i
    else if s'.passes[i]?.map Loop.Pass.pc = some .entering then l.set i begun
    else l
  | none => if s.passes.length < s'.passes.length then l ++ [begun] else l

/-- The pass whose label it is. -/
def pass_of : Loop.Act κ → Option Nat
  | .started i _ | .test i | .entered i _ | .next i _ | .returned i _ | .polled i _ _ => some i
  | _ => none

/-- The scheduler takes a step. -/
def St.advance (s : St κ) (a : Loop.Act κ) : Option (St κ) :=
  (Loop.step s.sched a).map fun sched =>
    { s with sched := sched, locals := frames s.sched sched (pass_of a) s.main_loop s.locals }

inductive Act (κ : Type) where
  /-- A step of the scheduler that neither looks for a fork nor counts descriptors. -/
  | code (a : Loop.Act κ)
  /-- A step of the descriptors; a new reader or writer looks for a fork first. -/
  | io (a : Registry.Act)
  /-- `register_fd_callback` fails in its `call_fork_loop`. -/
  | register_failed
  /-- The first `call_fork_loop` of a pass, up to `fire_pendings`. -/
  | entered (i : Nat) (made : Option Registry.Slot)
  /-- The second one, and the end of `internal_run_once`. -/
  | polled (i : Nat) (made : Option Registry.Slot) (exc : Bool)

/-- A new reader or writer finds that the process has forked. -/
def resets (io : Registry.St) : Registry.Act → Bool
  | .add_reader _ _ _ _ | .add_writer _ _ _ _ => io.postfork
  | _ => false

def step (s : St κ) : Act κ → Option (St κ)
  | .code a =>
    match a with
    | .io _ | .entered _ _ | .polled _ _ _ => none
    | a => s.advance a
  | .io a =>
    match a with
    | .run_once _ => none
    | a => (Registry.step s.io a).map fun io =>
      { s with main_loop := if resets s.io a then s.main_loop + 1 else s.main_loop }.set_io io
  | .register_failed => if s.io.postfork then some (call_fork_loop s none).1 else none
  | .entered i made =>
    let r := call_fork_loop s made
    r.1.advance (.entered i r.2)
  | .polled i made exc =>
    let r := call_fork_loop s made
    r.1.advance (.polled i r.2 exc)

/-! ## The statement -/

/-- The pass that calls `picoev_loop_once` in a step: it is through with
`fire_pendings`, and `q->size > 0 || self->ioactivecnt > 1`. -/
def polling (s s' : Loop.St κ) : Act κ → Option Nat
  | .code (.next i _) | .entered i _ =>
    if s'.passes.length = s.passes.length ∧ s'.passes[i]?.map Loop.Pass.pc = some .polling ∧
        (s'.scheduled.size > 0 ∨ s'.ioactivecnt > 1) then some i
    else none
  | _ => none

/-- A call of `picoev_loop_once`: its argument, and the main loop then. -/
structure Poll where
  loop : Lid
  main_loop : Lid
deriving DecidableEq, Repr

structure Notes where
  /-- The loop has been reset since the pass began, by pass. -/
  reset : List Bool
  polls : List Poll

/-- The pass whose label it is. -/
def Act.pass : Act κ → Option Nat
  | .code a => pass_of a
  | .entered i _ | .polled i _ _ => some i
  | _ => none

def note (s : St κ) (a : Act κ) (s' : St κ) (n : Notes) : Notes where
  reset := frames s.sched s'.sched a.pass false
    (if s'.main_loop = s.main_loop then n.reset else n.reset.map fun _ => true)
  polls := n.polls ++
    (polling s.sched s'.sched a).toList.map fun i => ⟨s'.locals.getD i 0, s'.main_loop⟩

/-- Every loop that was polled was the main loop. -/
def PollsMain (t : Watched (St κ) Notes) : Prop := ∀ p ∈ t.hist.polls, p.loop = p.main_loop

/-- The pass that polls in this step has seen no reset. -/
def Unforked (t : Watched (St κ) Notes) (a : Act κ) : Prop :=
  ∀ t', watch step note t a = some t' → ∀ i, polling t.st.sched t'.st.sched a = some i →
    t'.hist.reset.getD i false = false

/-! ## Passes -/

/-- Pass `i` has moved on, or it has returned. -/
def Moved (s s' : Loop.St κ) (i : Nat) : Prop :=
  i < s.passes.length ∧
    ((∃ p, s'.passes = s.passes.set i p) ∨ s'.passes = s.passes.eraseIdx i)

theorem moved_goto {s r : Loop.St κ} {i : Nat} {p : Loop.Pass} (hp : s.passes[i]? = some p)
    (hr : r.passes = s.passes) (caller : Loop.Caller) (pc : Loop.Pc) :
    Moved s (r.goto i caller pc) i :=
  ⟨(List.getElem?_eq_some_iff.1 hp).1, Or.inl ⟨⟨caller, pc⟩, by rw [Loop.St.goto_passes, hr]⟩⟩

theorem moved_leave {s r : Loop.St κ} {i : Nat} {p : Loop.Pass} (hp : s.passes[i]? = some p)
    (hr : r.passes = s.passes) : Moved s (r.leave i) i :=
  ⟨(List.getElem?_eq_some_iff.1 hp).1, Or.inr (by rw [Loop.St.leave_passes, hr])⟩

theorem moved_run_failed {s r : Loop.St κ} {i : Nat} {p : Loop.Pass} (hp : s.passes[i]? = some p)
    (hr : r.passes = s.passes) (caller : Loop.Caller) : Moved s (Loop.run_failed r i caller) i :=
  ⟨(List.getElem?_eq_some_iff.1 hp).1, Or.inr (by rw [(Loop.run_failed_same r i caller).2, hr])⟩

theorem moved_round_ended {s r : Loop.St κ} {i : Nat} {p : Loop.Pass} (hp : s.passes[i]? = some p)
    (hr : r.passes = s.passes) (caller : Loop.Caller) (exc : Bool) :
    Moved s (Loop.round_ended r i caller exc) i := by
  have hcheck : (Loop.check_stop_signal r.decr).1.passes = s.passes :=
    (Loop.check_stop_signal_same r.decr).2.trans hr
  have hdecr : r.decr.passes = s.passes := hr
  unfold Loop.round_ended
  simp only
  split
  · exact moved_run_failed hp hdecr caller
  · split
    · exact moved_run_failed hp hcheck caller
    · exact moved_goto hp hcheck caller .firing

theorem moved_fire_item {s r s' : Loop.St κ} {i : Nat} {p : Loop.Pass} {caller : Loop.Caller}
    {item : Hid} {dead : Bool} (hp : s.passes[i]? = some p) (hr : r.passes = s.passes)
    (h : Loop.FireItem r i caller item dead s') : Moved s s' i := by
  cases h with
  | skipped _ _ =>
    refine moved_round_ended hp ?_ caller false
    exact hr
  | lost _ _ _ hreturned =>
    have hpasses := Loop.fire_returned_passes hreturned
    exact moved_round_ended hp (hpasses.trans hr) caller false
  | fired _ _ _ => exact moved_goto hp hr caller _

theorem moved_entered {s s' : Loop.St κ} {i : Nat} {ok : Bool}
    (h : Loop.step s (.entered i ok) = some s') : Moved s s' i := by
  simp only [Loop.step] at h
  split at h
  next caller hp =>
    split at h
    · -- Case: on to `fire_pendings`, or past it
      obtain ⟨t, ht, heq⟩ := Option.map_eq_some_iff.1 h
      have hkeep := Loop.fire_timers_passes ht
      rw [← heq]
      split
      · exact moved_goto hp hkeep _ _
      · exact moved_goto hp hkeep _ _
    · -- Case: `call_fork_loop` failed
      cases h
      exact moved_run_failed hp rfl caller
  · cases h

theorem moved_next {s s' : Loop.St κ} {i : Nat} {dead : Bool}
    (h : Loop.step s (.next i dead) = some s') : Moved s s' i := by
  simp only [Loop.step] at h
  split at h
  next caller hp =>
    unfold Loop.fire_pendings_next at h
    split at h
    · -- Case: stopped
      cases h
      exact moved_goto hp rfl _ _
    · split at h
      · -- Case: the queue is empty
        cases h
        exact moved_goto hp rfl _ _
      next item q hshift =>
        have hr : ({ s with pendings := q } : Loop.St κ).passes = s.passes := rfl
        exact moved_fire_item hp hr (Loop.fire_item_cases h)
  · cases h

theorem moved_polled {s s' : Loop.St κ} {i : Nat} {ok exc : Bool}
    (h : Loop.step s (.polled i ok exc) = some s') : Moved s s' i := by
  simp only [Loop.step] at h
  split at h
  next caller hp =>
    cases h
    split
    · have hcheck := (Loop.check_stop_signal_same s).2
      cases caller with
      | run_once => exact moved_leave hp rfl
      | run =>
        simp only [Loop.run_once_ended]
        split
        · exact moved_run_failed hp hcheck .run
        · exact moved_goto hp hcheck _ _
    · exact moved_run_failed hp rfl caller
  · cases h

/-- A label of a pass moves that pass. -/
theorem step_moved {s s' : Loop.St κ} {a : Loop.Act κ} {i : Nat} (h : Loop.step s a = some s')
    (hi : pass_of a = some i) : Moved s s' i := by
  cases a with
  | entered j ok =>
    cases hi
    exact moved_entered h
  | next j dead =>
    cases hi
    exact moved_next h
  | polled j ok exc =>
    cases hi
    exact moved_polled h
  | started j exc =>
    cases hi
    simp only [Loop.step] at h
    split at h
    next hp =>
      cases h
      split
      · exact moved_leave hp rfl
      · exact moved_goto hp rfl _ _
    next hp =>
      cases h
      exact moved_goto hp rfl _ _
    · cases h
  | test j =>
    cases hi
    simp only [Loop.step] at h
    split at h
    next hp =>
      cases h
      unfold Loop.run_test
      split
      · exact moved_goto hp rfl _ _
      · exact moved_run_failed hp rfl .run
    · cases h
  | returned j exc =>
    cases hi
    simp only [Loop.step] at h
    split at h
    next caller item hp =>
      obtain ⟨t, ht, rfl⟩ := Option.map_eq_some_iff.1 h
      exact moved_round_ended hp (Loop.fire_returned_passes ht) caller exc
    · cases h
  | call_soon _ | call_later _ _ | call_repeatedly _ _ | set_timeout _ _ | sleep _ _ | make_handle _
    | add_callback _ | cancel _ | stop | running | signal _ | time _ | io _ | run _ | run_once _ =>
    cases hi

/-- A call makes a pass, and the other labels of no pass make none. -/
theorem step_called {s s' : Loop.St κ} {a : Loop.Act κ} (h : Loop.step s a = some s')
    (hnone : pass_of a = none) :
    s'.passes = s.passes ∨ ∃ p, s'.passes = s.passes ++ [p] := by
  cases a with
  | run suspended | run_once suspended =>
    cases h
    exact Or.inr ⟨_, rfl⟩
  | call_soon cb | sleep seconds g =>
    have hkeep := Loop.schedule_timer_passes h
    exact Or.inl hkeep
  | call_later seconds cb =>
    simp only [Loop.step, Loop.call_later] at h
    split at h
    · cases h
      exact Or.inl rfl
    · have hkeep := Loop.schedule_timer_passes h
      exact Or.inl hkeep
  | call_repeatedly seconds cb =>
    simp only [Loop.step, Loop.call_repeatedly] at h
    split at h
    · cases h
      exact Or.inl rfl
    · obtain ⟨t, ht, rfl⟩ := Option.map_eq_some_iff.1 h
      have hkeep := Loop.schedule_timer_passes ht
      exact Or.inl hkeep
  | set_timeout seconds throw =>
    obtain ⟨t, ht, rfl⟩ := Option.map_eq_some_iff.1 h
    have hkeep := Loop.schedule_timer_passes ht
    left
    split
    · exact hkeep
    · exact hkeep
  | add_callback o =>
    obtain ⟨_, hsched⟩ := Option.ite_none_right_eq_some.1 h
    exact Or.inl (Loop.schedule_timer_passes hsched)
  | cancel timer =>
    obtain ⟨_, heq⟩ := Option.ite_none_right_eq_some.1 h
    cases heq
    exact Or.inl rfl
  | make_handle cb | stop | running | signal _ | time _ | io _ =>
    cases h
    exact Or.inl rfl
  | started _ _ | test _ | entered _ _ | next _ _ | returned _ _ | polled _ _ _ => cases hnone

/-! ## Lists with an element for each pass -/

section Frames

variable {α β : Type} {s s' : Loop.St κ} {pass : Option Nat} {begun x : α} {l : List α}

theorem frames_map (f : α → β) :
    (frames s s' pass begun l).map f = frames s s' pass (f begun) (l.map f) := by
  unfold frames
  split
  · split
    · rw [List.eraseIdx_map]
    · split
      · rw [List.map_set]
      · rfl
  · split
    · rw [List.map_append, List.map_singleton]
    · rfl

theorem mem_frames (h : x ∈ frames s s' pass begun l) : x = begun ∨ x ∈ l := by
  unfold frames at h
  split at h
  · split at h
    · exact Or.inr (List.mem_of_mem_eraseIdx h)
    · split at h
      · exact (List.mem_or_eq_of_mem_set h).symm
      · exact Or.inr h
  · split at h
    · rcases List.mem_append.1 h with h | h
      · exact Or.inr h
      · exact Or.inl (List.mem_singleton.1 h)
    · exact Or.inr h

theorem frames_same (h : s'.passes = s.passes) : frames s s' none begun l = l := by
  simp [frames, h]

/-- A label's list has an element for each pass again. -/
theorem length_frames {a : Loop.Act κ} (h : Loop.step s a = some s')
    (hl : l.length = s.passes.length) :
    (frames s s' (pass_of a) begun l).length = s'.passes.length := by
  cases hpass : pass_of a with
  | none =>
    rcases step_called h hpass with heq | ⟨p, heq⟩
    · rw [frames_same heq, heq, hl]
    · simp [frames, heq, hl]
  | some i =>
    obtain ⟨hlt, hcases⟩ := step_moved h hpass
    rcases hcases with ⟨p, heq⟩ | heq
    · have hlen : s'.passes.length = s.passes.length := by rw [heq, List.length_set]
      simp only [frames]
      rw [if_neg (by omega), hlen, ← hl]
      split
      · rw [List.length_set]
      · rfl
    · have hlen : s'.passes.length + 1 = s.passes.length := by
        rw [heq, List.length_eraseIdx_of_lt hlt]
        omega
      simp only [frames]
      rw [if_pos (by omega), List.length_eraseIdx_of_lt (hl ▸ hlt)]
      omega

end Frames

/-! ## The invariant -/

/-- What holds between two steps: a local is the main loop unless there was a
reset. -/
structure Kept (s : St κ) (n : Notes) : Prop where
  length : s.locals.length = s.sched.passes.length
  created : ∀ l ∈ s.locals, l ≤ s.main_loop
  reset : n.reset = s.locals.map fun l => decide (l ≠ s.main_loop)

variable {s s' : St κ} {n : Notes} {a : Act κ}

theorem init_kept (block : Nat → Hid) (now : Int) (ssock : Registry.Slot) :
    Kept (init κ block now ssock) ⟨[], []⟩ where
  length := rfl
  created := by
    intro l hl
    cases hl
  reset := rfl

/-- What a step does to the main loop, the locals and the passes. -/
structure Turn (s s' : St κ) (a : Act κ) : Prop where
  main_loop : s'.main_loop = s.main_loop ∨ s'.main_loop = s.main_loop + 1
  locals : s'.locals = frames s.sched s'.sched a.pass s'.main_loop s.locals
  length : s.locals.length = s.sched.passes.length → s'.locals.length = s'.sched.passes.length

/-- A reset makes a new loop. -/
theorem call_fork_loop_spec (s : St κ) (made : Option Registry.Slot) :
    ((call_fork_loop s made).1.main_loop = s.main_loop ∨
        (call_fork_loop s made).1.main_loop = s.main_loop + 1) ∧
      (call_fork_loop s made).1.locals = s.locals ∧
      (call_fork_loop s made).1.sched.passes = s.sched.passes := by
  unfold call_fork_loop
  split
  · cases made with
    | some ssock => exact ⟨Or.inr rfl, rfl, rfl⟩
    | none => exact ⟨Or.inr rfl, rfl, rfl⟩
  · exact ⟨Or.inl rfl, rfl, rfl⟩

theorem frames_congr {α : Type} {s r s' : Loop.St κ} (h : r.passes = s.passes) (pass : Option Nat)
    (begun : α) (l : List α) : frames r s' pass begun l = frames s s' pass begun l := by
  unfold frames
  rw [h]

/-- The scheduler's step, after a check for a fork. -/
theorem advance_turn {r : St κ} {b : Loop.Act κ} (h : r.advance b = some s')
    (hmain : r.main_loop = s.main_loop ∨ r.main_loop = s.main_loop + 1)
    (hlocals : r.locals = s.locals) (hpasses : r.sched.passes = s.sched.passes)
    (hpass : a.pass = pass_of b) : Turn s s' a := by
  obtain ⟨sched, hstep, rfl⟩ := Option.map_eq_some_iff.1 h
  refine ⟨hmain, ?_, fun hlen => ?_⟩
  · rw [hpass, ← frames_congr hpasses, ← hlocals]
  · exact length_frames hstep (by rw [hlocals, hlen, hpasses])

theorem step_turn (h : step s a = some s') : Turn s s' a := by
  cases a with
  | code a =>
    have hadvance : s.advance a = some s' := by
      simp only [step] at h
      split at h
      · cases h
      · cases h
      · cases h
      · exact h
    exact advance_turn hadvance (Or.inl rfl) rfl rfl rfl
  | io a =>
    simp only [step] at h
    split at h
    · cases h
    · obtain ⟨io, _, rfl⟩ := Option.map_eq_some_iff.1 h
      refine ⟨?_, (frames_same rfl).symm, id⟩
      have hif : (if resets s.io a then s.main_loop + 1 else s.main_loop) = s.main_loop ∨
          (if resets s.io a then s.main_loop + 1 else s.main_loop) = s.main_loop + 1 := by
        split
        · exact Or.inr rfl
        · exact Or.inl rfl
      exact hif
  | register_failed =>
    obtain ⟨_, heq⟩ := Option.ite_none_right_eq_some.1 h
    cases heq
    obtain ⟨hmain, hlocals, hpasses⟩ := call_fork_loop_spec s none
    refine ⟨hmain, ?_, fun hlen => ?_⟩
    · rw [hlocals]
      exact (frames_same hpasses).symm
    · rw [hlocals, hpasses, hlen]
  | entered i made =>
    obtain ⟨hmain, hlocals, hpasses⟩ := call_fork_loop_spec s made
    exact advance_turn h hmain hlocals hpasses rfl
  | polled i made exc =>
    obtain ⟨hmain, hlocals, hpasses⟩ := call_fork_loop_spec s made
    exact advance_turn h hmain hlocals hpasses rfl

theorem step_kept (h : step s a = some s') (hk : Kept s n) : Kept s' (note s a s' n) := by
  have hturn := step_turn h
  have hle : ∀ l ∈ s.locals, l ≤ s'.main_loop := by
    intro l hl
    rcases hturn.main_loop with heq | heq
    · exact heq ▸ hk.created l hl
    · exact heq ▸ Nat.le_succ_of_le (hk.created l hl)
  refine ⟨hturn.length hk.length, fun l hl => ?_, ?_⟩
  · rw [hturn.locals] at hl
    rcases mem_frames hl with rfl | hl
    · exact Nat.le_refl _
    · exact hle l hl
  · rw [hturn.locals, frames_map]
    have hbegun : decide (s'.main_loop ≠ s'.main_loop) = false := by simp
    rw [hbegun]
    simp only [note]
    congr 1
    split
    next heq => rw [hk.reset, heq]
    next hne =>
      -- all locals are of loops that are gone
      have hsucc := hturn.main_loop.resolve_left hne
      rw [hk.reset, List.map_map]
      apply List.map_congr_left
      intro l hl
      have hold : l ≠ s'.main_loop := hsucc ▸ (Nat.lt_succ_of_le (hk.created l hl)).ne
      simp [hold]

/-- A pass polls the main loop exactly if it has seen no reset. -/
theorem Kept.poll_iff (hk : Kept s n) {i : Nat} (hi : i < s.sched.passes.length) :
    s.locals.getD i 0 = s.main_loop ↔ n.reset.getD i false = false := by
  have hlt : i < s.locals.length := hk.length ▸ hi
  rw [hk.reset]
  simp [List.getD_eq_getElem?_getD, List.getElem?_eq_getElem hlt]

theorem polling_lt {s s' : Loop.St κ} {i : Nat} (h : polling s s' a = some i) :
    i < s'.passes.length := by
  unfold polling at h
  split at h
  all_goals
    first
    | cases h
    | (obtain ⟨⟨_, hpc, _⟩, heq⟩ := Option.ite_none_right_eq_some.1 h
       cases heq
       obtain ⟨p, hp, _⟩ := Option.map_eq_some_iff.1 hpc
       exact (List.getElem?_eq_some_iff.1 hp).1)

/-! ## Runs -/

theorem step_main_iff {t t' : Watched (St κ) Notes} (h : watch step note t a = some t')
    (hk : Kept t.st t.hist) (hP : PollsMain t) : PollsMain t' ↔ Unforked t a := by
  obtain ⟨hstep, hhist⟩ := watch_eq_some.1 h
  have hk' : Kept t'.st t'.hist := hhist ▸ step_kept hstep hk
  have hpolls : t'.hist.polls = t.hist.polls ++
      (polling t.st.sched t'.st.sched a).toList.map fun i =>
        ⟨t'.st.locals.getD i 0, t'.st.main_loop⟩ := by rw [hhist]; rfl
  constructor
  · intro hall r hr i hi
    rw [h, Option.some.injEq] at hr
    subst hr
    rw [← hk'.poll_iff (polling_lt hi)]
    have hin : (⟨t'.st.locals.getD i 0, t'.st.main_loop⟩ : Poll) ∈ t'.hist.polls := by
      rw [hpolls, hi]
      simp
    exact hall _ hin
  · intro hok p hp
    rw [hpolls] at hp
    rcases List.mem_append.1 hp with hp | hp
    · exact hP p hp
    · obtain ⟨i, hi, rfl⟩ := List.mem_map.1 hp
      have hi : polling t.st.sched t'.st.sched a = some i := by simpa using hi
      exact (hk'.poll_iff (polling_lt hi)).2 (hok t' h i hi)

/-- Along every run every pass polls the main loop, exactly as long as no pass
polls that has seen a reset since it began. -/
theorem polls_main_iff {block : Nat → Hid} {now : Int} {ssock : Registry.Slot} {as : List (Act κ)}
    {t : St κ} (h : run step (init κ block now ssock) as = some t) :
    Always (watch step note) PollsMain ⟨init κ block now ssock, ⟨[], []⟩⟩ as ↔
      Steps (watch step note) Unforked ⟨init κ block now ssock, ⟨[], []⟩⟩ as := by
  have hwatch : ∃ hist, run (watch step note) ⟨init κ block now ssock, ⟨[], []⟩⟩ as =
      some ⟨t, hist⟩ := run_watch_iff.2 h
  obtain ⟨hist, hrun⟩ := hwatch
  have hkeep : ∀ (t : Watched (St κ) Notes) a t', watch step note t a = some t' →
      Unforked t a → Kept t.st t.hist → PollsMain t → Kept t'.st t'.hist := by
    intro t a t' ht _ hk _
    obtain ⟨hstep, hhist⟩ := watch_eq_some.1 ht
    exact hhist ▸ step_kept hstep hk
  have hinit : PollsMain (⟨init κ block now ssock, ⟨[], []⟩⟩ : Watched (St κ) Notes) := by
    intro p hp
    cases hp
  exact always_iff_steps hkeep (fun t a t' ht hk hP => step_main_iff ht hk hP)
    (init_kept block now ssock) hinit hrun

/-- A child of a fork goes through its first pass with nothing to wait for, and
then through another one with a timer. -/
def forkedIdle : List (Act Nat) :=
  [.io .fork_child, .code (.run_once false), .entered 0 (some 9), .polled 0 none false,
    .code (.call_later 5 8), .code (.run_once false), .entered 0 none, .polled 0 none false]

theorem polls_main_iff_idle :
    Always (watch step note) PollsMain ⟨init Nat (fun _ => 0) 5 8, ⟨[], []⟩⟩ forkedIdle ↔
      Steps (watch step note) Unforked ⟨init Nat (fun _ => 0) 5 8, ⟨[], []⟩⟩ forkedIdle := by
  obtain ⟨t, ht, _⟩ := run_any (p := fun t : St Nat => decide (t.main_loop = 1))
    (by decide +kernel : (run step (init Nat (fun _ => 0) 5 8) forkedIdle).any _ = true)
  exact polls_main_iff ht

/-- The child has a timer, and its first pass polls the loop that it has just
destroyed. -/
theorem stale_loop_polled : ∃ t,
    run step (init Nat (fun _ => 0) 5 8) [.code (.call_later 5 7), .io .fork_child,
      .code (.run_once false), .entered 0 (some 9)] = some t ∧
    ¬ Always (watch step note) PollsMain ⟨init Nat (fun _ => 0) 5 8, ⟨[], []⟩⟩
      [.code (.call_later 5 7), .io .fork_child, .code (.run_once false), .entered 0 (some 9)] := by
  obtain ⟨t, ht, hcheck⟩ := run_any
    (p := fun t : Watched (St Nat) Notes => decide (⟨0, 1⟩ ∈ t.hist.polls))
    (by decide +kernel : (run (watch step note) ⟨init Nat (fun _ => 0) 5 8, ⟨[], []⟩⟩
      [.code (.call_later 5 7), .io .fork_child, .code (.run_once false),
        .entered 0 (some 9)]).any _ = true)
  refine ⟨t.st, run_watch ht, fun hall => ?_⟩
  have hmain := hall.last ht _ (of_decide_eq_true hcheck)
  cases hmain

end Jega.Io.Forked
