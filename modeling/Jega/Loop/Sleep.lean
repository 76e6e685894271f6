import Jega.Loop.Queued
import Jega.Trace.Rules
import Mathlib.Data.List.Perm.Basic

/-!
# Jega.Loop.Sleep — `loop_sleep` and the timer it leaves

Any number of greenlets on one loop, each asleep or somewhere else, with other
callbacks, deadlines and switches around them. A sleep schedules an entry that
switches into its greenlet and then waits for any switch at all: `loop_sleep`
does not look at what its `loop_switch` returned, and does not cancel the entry.

When the greenlet of the loop is dead, `loop_switch` runs a new one, which
switches back to its `suspend_thread` before anything else.

A handle that the program pushes once more with `_add_callback` is a new entry
here (`call_later`, `call_switch`), also if it is the timer that a sleep has
returned: the switch it makes then is one that the program has asked for, and not
what the sleep left. In `Jega.Loop.Repeating` the call is a step of its own, because
the second entry there shares the deadline of the first.

The fields `ended`, `past` and `late` are history.

## Main result

* `sleep_iff`: the exact condition, along every run, for no sleep to leave
  anything behind.
-/

namespace Jega.Sleep

open Trace

/-- A callback of the loop. -/
inductive Callback where
  /-- The `throw` of a greenlet, which `loop_set_timeout` schedules. -/
  | throw (g : Gid) (e : Exc)
  | other (n : Nat)
deriving DecidableEq, Repr

/-- Where a greenlet is. -/
inductive Loc where
  | other
  /-- Suspended in `loop_sleep`, which scheduled this entry. -/
  | sleep (timer : Hid)
  | dead
deriving DecidableEq, Repr

/-- What ended the suspension of a sleep. -/
inductive Cause where
  /-- The loop fired an entry that switches into the greenlet. -/
  | timer (item : Hid)
  | throw (e : Exc)
  | switch
deriving DecidableEq, Repr

/-- A call of `loop_sleep` that is over, and what it returned, `none` for `NULL`. -/
structure Ended where
  greenlet : Gid
  timer : Hid
  cause : Cause
  result : Option Hid
deriving DecidableEq, Repr

structure St where
  loop : LoopObject Callback
  /-- The greenlet of the loop is dead, or was never made. -/
  loop_dead : Bool
  loc : Gid → Loc
  ended : List Ended
  /-- The sleep of this timer is over. -/
  past : Hid → Bool
  /-- The timers that switched into their greenlets after that. -/
  late : List Hid

def init : St where
  loop := LoopObject.init Callback
  loop_dead := true
  loc := fun _ => .other
  ended := []
  past := fun _ => false
  late := []

/-! ## Sleeping -/

/-- `loop_sleep` after its `loop_switch`. -/
def loop_sleep_returned (timer : Hid) (_ret : Cause) : Option Hid := some timer

/-- A greenlet is resumed. -/
def resumed (s : St) (g : Gid) (cause : Cause) : St :=
  match s.loc g with
  | .sleep timer =>
    { s with
      loc := Function.update s.loc g .other
      ended := s.ended ++ [⟨g, timer, cause, loop_sleep_returned timer cause⟩]
      past := Function.update s.past timer true }
  | _ => s

/-- `loop_switch` of a greenlet in `loop_sleep`. -/
def loop_switch (s : St) (g : Gid) (timer : Hid) : St :=
  let s := { s with loc := Function.update s.loc g (.sleep timer) }
  if s.loop_dead then resumed { s with loop_dead := false } g .switch else s

/-- `loop_sleep`. -/
def loop_sleep (s : St) (g : Gid) (time : Nat) : St :=
  let scheduled := s.loop.loop_schedule_call time none (some g)
  loop_switch { s with loop := scheduled.1 } g scheduled.2

/-- `LoopObject_sleep`. -/
def LoopObject_sleep (s : St) (g : Gid) (seconds : Int) : St :=
  if seconds < 0 then s -- "time value out of range "
  else loop_sleep s g seconds.toNat

/-! ## Firing -/

def dead (s : St) (g : Gid) : Bool := s.loc g = .dead

/-- What the entry `item` does. -/
def fired (s : St) (item : Hid) : Fired Callback → St
  | .nothing => s
  | .switch g =>
    resumed { s with late := if s.past item then s.late ++ [item] else s.late } g (.timer item)
  | .call (.throw g e) => resumed s g (.throw e)
  | .call (.other _) => s

/-- A round of `fire_pendings`. -/
def fire_pendings (s : St) : Option St :=
  match s.loop.pendings.head?, s.loop.fire_pendings_next (dead s) with
  | some item, some (loop, effect) => some (fired { s with loop := loop } item effect)
  | _, _ => none

/-! ## The system -/

inductive Act where
  | sleep (g : Gid) (seconds : Int)
  /-- `loop_set_timeout` of a greenlet, with an exception or the default one. -/
  | set_timeout (g : Gid) (seconds : Nat) (exception : Option Exc)
  | call_later (seconds : Nat) (n : Nat)
  /-- Other code schedules a switch into a greenlet. -/
  | call_switch (seconds : Nat) (g : Gid)
  | cancel (timer : Hid)
  /-- A timer of the heap is due. -/
  | due (timer : Hid)
  /-- The loop fires the head of its queue. -/
  | fire
  | throw (g : Gid) (e : Exc)
  | switch (g : Gid)
  /-- A greenlet ends. -/
  | finish (g : Gid)
  | set_state (state : loop_state)
  /-- The greenlet of the loop ends, or is made. -/
  | loop_greenlet (dead : Bool)
deriving DecidableEq, Repr

def step (s : St) : Act → Option St
  | .sleep g seconds => if s.loc g = .other then some (LoopObject_sleep s g seconds) else none
  | .set_timeout g seconds exception =>
    if s.loc g = .other then
      let throw := fun timer => Callback.throw g (exception.getD (.TimeoutException timer))
      some { s with loop := (s.loop.loop_set_timeout seconds throw).1 }
    else none
  | .call_later seconds n =>
    some { s with loop := (s.loop.loop_schedule_call seconds (some (.other n)) none).1 }
  | .call_switch seconds g =>
    some { s with loop := (s.loop.loop_schedule_call seconds none (some g)).1 }
  | .cancel timer =>
    if timer < s.loop.next then some { s with loop := s.loop.cancel timer } else none
  | .due timer => (s.loop.fire_timers_next timer).map fun loop => { s with loop := loop }
  | .fire => fire_pendings s
  | .throw g e => some (resumed s g (.throw e))
  | .switch g => some (resumed s g .switch)
  | .finish g =>
    if s.loc g = .other then some { s with loc := Function.update s.loc g .dead } else none
  | .set_state state => some { s with loop := { s.loop with state := state } }
  | .loop_greenlet dead => some { s with loop_dead := dead }

/-! ## The condition -/

/-- Exceptions leave `loop_sleep`, a value is returned after its own timer only,
and the timer is quiet after that. -/
structure NoResidue (s : St) : Prop where
  propagates : ∀ e ∈ s.ended, ∀ exc, e.cause = .throw exc → e.result = none
  own : ∀ e ∈ s.ended, e.result ≠ none → e.cause = .timer e.timer
  quiet : s.late = []

/-- The greenlet is not asleep. -/
def Awake (s : St) (g : Gid) : Prop := ∀ timer, s.loc g ≠ .sleep timer

/-- What the head of the queue does to a greenlet that is asleep: nothing, unless
it is the timer of the sleep. -/
def Harmless (s : St) : Fired Callback → Prop
  | .switch g => ∀ timer, s.loc g = .sleep timer → s.loop.pendings.head? = some timer
  | .call (.throw g _) => Awake s g
  | _ => True

/-- Only its own timer resumes a greenlet that is asleep. -/
def Undisturbed (s : St) : Act → Prop
  | .sleep _ seconds => 0 ≤ seconds → s.loop_dead = false
  | .throw g _ => Awake s g
  | .switch g => Awake s g
  | .fire => ∀ loop effect, s.loop.fire_pendings_next (dead s) = some (loop, effect) →
      Harmless s effect
  | _ => True

/-! ## Entries -/

section Entries

variable {κ : Type} {l l' : LoopObject κ}

/-- The entries of the queue and the heap. -/
def entries (l : LoopObject κ) : List Hid := l.pendings ++ l.scheduled

theorem mem_entries_lt {h : Hid} (hm : h ∈ entries l) : h < l.next := by
  rcases List.mem_append.1 hm with hm | hm
  · exact l.pendings_lt h hm
  · exact l.scheduled_lt h hm

/-- One entry more, with that greenlet. -/
structure Adds (l l' : LoopObject κ) (g : Option Gid) : Prop where
  entries : (entries l').Perm (l.next :: entries l)
  next : l'.next = l.next + 1
  greenlet : ∀ h < l.next, (l'.handles h).greenlet = (l.handles h).greenlet
  own : (l'.handles l.next).greenlet = g

theorem adds_loop_schedule_call (l : LoopObject κ) (seconds : Nat) (cb : Option κ)
    (g : Option Gid) : Adds l (l.loop_schedule_call seconds cb g).1 g := by
  have hhandles := LoopObject.loop_schedule_call_handles l seconds cb g
  refine ⟨?_, LoopObject.loop_schedule_call_next l seconds cb g, fun h hh => ?_, ?_⟩
  · have ho : l.next < (l.make_handle seconds cb g).1.next := Nat.lt_succ_self _
    show (entries ((l.make_handle seconds cb g).1.schedule_timer l.next)).Perm _
    unfold LoopObject.schedule_timer entries
    rw [dif_pos ho]
    split
    · -- Case: a handle
      show (l.pendings ++ [l.next] ++ l.scheduled).Perm _
      rw [List.append_assoc]
      exact List.perm_middle
    · exact List.perm_middle
  · rw [hhandles]
    simp [LoopObject.make_handle, Function.update_of_ne (Nat.ne_of_lt hh)]
  · rw [hhandles]
    simp [LoopObject.make_handle]

theorem cancel_greenlet (l : LoopObject κ) (timer h : Hid) :
    ((l.cancel timer).handles h).greenlet = (l.handles h).greenlet := by
  by_cases hh : h = timer
  · simp [LoopObject.cancel, hh]
  · simp [LoopObject.cancel, Function.update_of_ne hh]

theorem adds_loop_set_timeout (l : LoopObject κ) (seconds : Nat) (throw : Option Tid → κ) :
    Adds l (l.loop_set_timeout seconds throw).1 none := by
  unfold LoopObject.loop_set_timeout
  have hadds := adds_loop_schedule_call l seconds
    (some (throw (if seconds > 0 then some l.next else none))) none
  by_cases hs : seconds = 0
  · -- Case: the entry is cancelled at once
    simp only [if_pos hs]
    refine ⟨hadds.entries, hadds.next, fun h hh => ?_, ?_⟩
    · rw [cancel_greenlet]
      exact hadds.greenlet h hh
    · rw [cancel_greenlet]
      exact hadds.own
  · simp only [if_neg hs]
    exact hadds

/-- A round of `fire_pendings` takes the head off the queue. -/
theorem fire_pendings_next_entries {dead : Gid → Bool} {effect : Fired κ}
    (h : l.fire_pendings_next dead = some (l', effect)) : ∃ item, l.pendings.head? = some item ∧
      entries l = item :: entries l' ∧ l'.next = l.next ∧
        ∀ h, (l'.handles h).greenlet = (l.handles h).greenlet := by
  unfold LoopObject.fire_pendings_next at h
  split at h
  · cases h
  · split at h
    · cases h
    next item rest hp =>
      rw [Option.some.injEq, Prod.mk.injEq] at h
      obtain ⟨hl, _⟩ := h
      subst hl
      refine ⟨item, ?_, ?_, rfl, fun h => ?_⟩
      · rw [hp, List.head?_cons]
      · simp [entries, hp]
      · by_cases hh : h = item
        · subst hh
          simp only [Function.update_self]
          cases (l.handles h).type with
          | Handle =>
            simp only [fire_handle]
            split
            · rfl
            · split <;> rfl
          | Timer =>
            simp only [fire_timer]
            split
            · rfl
            · split <;> rfl
        · simp only [Function.update_of_ne hh]

end Entries

/-! ## The invariant -/

structure Inv (s : St) : Prop where
  nodup : (entries s.loop).Nodup
  /-- A sleep has a timer of its own. -/
  sleeping : ∀ g timer, s.loc g = .sleep timer → timer < s.loop.next ∧ s.past timer = false ∧
    (s.loop.handles timer).greenlet = some g
  /-- The timer of a sleep that is over was fired. -/
  past : ∀ timer, s.past timer = true → timer < s.loop.next ∧ timer ∉ entries s.loop

theorem inv_init : Inv init where
  nodup := List.nodup_nil
  sleeping := nofun
  past := nofun

theorem noResidue_init : NoResidue init where
  propagates := nofun
  own := nofun
  quiet := rfl

section Steps

variable {s s' : St} {g : Gid}

/-- Nothing happens to the sleeps. -/
theorem NoResidue.congr (hp : NoResidue s) (hended : s'.ended = s.ended)
    (hlate : s'.late = s.late) : NoResidue s' where
  propagates := by
    rw [hended]
    exact hp.propagates
  own := by
    rw [hended]
    exact hp.own
  quiet := hlate.trans hp.quiet

/-- The entries are the same ones, and nobody falls asleep. -/
theorem Inv.congr (hi : Inv s) (hentries : (entries s'.loop).Perm (entries s.loop))
    (hnext : s'.loop.next = s.loop.next)
    (hgreenlet : ∀ h, (s'.loop.handles h).greenlet = (s.loop.handles h).greenlet)
    (hloc : ∀ g timer, s'.loc g = .sleep timer → s.loc g = .sleep timer)
    (hover : s'.past = s.past) : Inv s' where
  nodup := hentries.nodup_iff.2 hi.nodup
  sleeping := by
    intro g timer hg
    rw [hnext, hover, hgreenlet]
    exact hi.sleeping g timer (hloc g timer hg)
  past := by
    intro timer ht
    rw [hover] at ht
    rw [hnext, hentries.mem_iff]
    exact hi.past timer ht

/-- One entry more, which no sleep is about yet. -/
theorem Inv.adds (hi : Inv s) {o : Option Gid} (ha : Adds s.loop s'.loop o)
    (hloc : ∀ h timer, s'.loc h = .sleep timer →
      s.loc h = .sleep timer ∨ timer = s.loop.next ∧ o = some h) (hover : s'.past = s.past) :
    Inv s' where
  nodup := by
    rw [ha.entries.nodup_iff, List.nodup_cons]
    exact ⟨fun hm => Nat.lt_irrefl _ (mem_entries_lt hm), hi.nodup⟩
  sleeping := by
    intro h timer hs
    rw [hover, ha.next]
    rcases hloc h timer hs with hold | ⟨rfl, ho⟩
    · obtain ⟨hlt, hnot, hgreenlet⟩ := hi.sleeping h timer hold
      rw [ha.greenlet timer hlt]
      exact ⟨Nat.lt_succ_of_lt hlt, hnot, hgreenlet⟩
    · -- the new entry is of no sleep that has ended
      refine ⟨Nat.lt_succ_self _, ?_, ha.own.trans ho⟩
      by_contra hyes
      exact Nat.lt_irrefl _ (hi.past _ (Bool.not_eq_false _ ▸ hyes)).1
  past := by
    intro timer ht
    rw [hover] at ht
    obtain ⟨hlt, hm⟩ := hi.past timer ht
    refine ⟨ha.next ▸ Nat.lt_succ_of_lt hlt, fun hm' => ?_⟩
    rcases List.mem_cons.1 (ha.entries.mem_iff.1 hm') with heq | hold
    · exact Nat.ne_of_lt hlt heq
    · exact hm hold

/-- Who is awake is resumed elsewhere. -/
theorem resumed_awake (h : Awake s g) (cause : Cause) : resumed s g cause = s := by
  unfold resumed
  split
  next timer ht => exact absurd ht (h timer)
  · rfl

theorem resumed_sleep {timer : Hid} (h : s.loc g = .sleep timer) (cause : Cause) :
    resumed s g cause =
      { s with
        loc := Function.update s.loc g .other
        ended := s.ended ++ [⟨g, timer, cause, some timer⟩]
        past := Function.update s.past timer true } := by
  unfold resumed
  rw [h]
  rfl

/-- A sleep leaves nothing behind only if its own timer ends it. -/
theorem resumed_noResidue_iff (hp : NoResidue s) (cause : Cause) :
    NoResidue (resumed s g cause) ↔ ∀ timer, s.loc g = .sleep timer → cause = .timer timer := by
  constructor
  · intro h timer ht
    rw [resumed_sleep ht] at h
    exact h.own ⟨g, timer, cause, some timer⟩ (by simp) nofun
  · intro hown
    by_cases hawake : Awake s g
    · rw [resumed_awake hawake]
      exact hp
    · obtain ⟨timer, ht⟩ := not_forall_not.1 hawake
      rw [resumed_sleep ht, hown timer ht]
      refine ⟨fun e he exc hexc => ?_, fun e he hresult => ?_, hp.quiet⟩
      · rcases List.mem_append.1 he with he | he
        · exact hp.propagates e he exc hexc
        · rw [List.mem_singleton] at he
          rw [he] at hexc
          cases hexc
      · rcases List.mem_append.1 he with he | he
        · exact hp.own e he hresult
        · rw [List.mem_singleton] at he
          rw [he]

/-- The own timer of a sleep, which is gone from the queue, ends it. -/
theorem Inv.resumed_own (hi : Inv s) {timer : Hid} (ht : s.loc g = .sleep timer)
    (hm : timer ∉ entries s.loop) (cause : Cause) : Inv (resumed s g cause) := by
  obtain ⟨hlt, _, hgreenlet⟩ := hi.sleeping g timer ht
  rw [resumed_sleep ht]
  refine ⟨hi.nodup, fun h t hs => ?_, fun t hover => ?_⟩
  · by_cases hh : h = g
    · rw [hh] at hs
      simp only [Function.update_self] at hs
      cases hs
    · simp only [Function.update_of_ne hh] at hs
      obtain ⟨hlt', hnot, hgreenlet'⟩ := hi.sleeping h t hs
      -- a timer switches into one greenlet
      have hne : t ≠ timer := by
        rintro rfl
        rw [hgreenlet, Option.some.injEq] at hgreenlet'
        exact hh hgreenlet'.symm
      exact ⟨hlt', (Function.update_of_ne hne _ _).trans hnot, hgreenlet'⟩
  · by_cases hne : t = timer
    · rw [hne]
      exact ⟨hlt, hm⟩
    · simp only [Function.update_of_ne hne] at hover
      exact hi.past t hover

/-- `loop_sleep` up to the switch to the greenlet of the loop. -/
def asleep (s : St) (g : Gid) (time : Nat) : St :=
  { s with
    loop := (s.loop.loop_schedule_call time none (some g)).1
    loop_dead := false
    loc := Function.update s.loc g (.sleep s.loop.next) }

theorem loop_sleep_eq (s : St) (g : Gid) (time : Nat) : loop_sleep s g time =
    if s.loop_dead then resumed (asleep s g time) g .switch else asleep s g time := by
  obtain ⟨loop, loop_dead, loc, ended, past, late⟩ := s
  cases loop_dead with
  | false => rfl
  | true => rfl

theorem asleep_inv (hi : Inv s) (g : Gid) (time : Nat) : Inv (asleep s g time) := by
  have hadds := adds_loop_schedule_call s.loop time none (some g)
  refine hi.adds hadds (fun h timer hs => ?_) rfl
  have hs' : Function.update s.loc g (.sleep s.loop.next) h = .sleep timer := hs
  by_cases hh : h = g
  · rw [hh, Function.update_self, Loc.sleep.injEq] at hs'
    exact .inr ⟨hs'.symm, by rw [hh]⟩
  · rw [Function.update_of_ne hh] at hs'
    exact .inl hs'

/-- A sleep without a loop is over at once. -/
theorem loop_sleep_noResidue_iff (hp : NoResidue s) (g : Gid) (time : Nat) :
    NoResidue (loop_sleep s g time) ↔ s.loop_dead = false := by
  rw [loop_sleep_eq]
  cases s.loop_dead with
  | false => exact iff_of_true (hp.congr rfl rfl) rfl
  | true =>
    -- the new greenlet of the loop switches back before the timer fires
    refine iff_of_false (fun h => ?_) nofun
    have hloc : (asleep s g time).loc g = .sleep s.loop.next := Function.update_self _ _ _
    have hasleep : NoResidue (asleep s g time) := hp.congr rfl rfl
    have hcause := (resumed_noResidue_iff hasleep .switch).1 h _ hloc
    cases hcause

/-- What a round of `fire_pendings` does, and to which loop. -/
theorem fire_pendings_spec (hi : Inv s) (h : fire_pendings s = some s') :
    ∃ item loop effect, s.loop.pendings.head? = some item ∧
      s.loop.fire_pendings_next (dead s) = some (loop, effect) ∧
      s' = fired { s with loop := loop } item effect ∧ s.past item = false ∧
      item ∉ entries loop ∧ Inv { s with loop := loop } := by
  unfold fire_pendings at h
  cases hnext : s.loop.fire_pendings_next (dead s) with
  | none =>
    rw [hnext] at h
    split at h
    next heq =>
      cases heq
    · cases h
  | some r =>
    obtain ⟨loop, effect⟩ := r
    obtain ⟨item, hhead, hentries, hlt, hgreenlet⟩ := fire_pendings_next_entries hnext
    rw [hnext, hhead] at h
    have hitem : item ∈ entries s.loop := by
      rw [hentries]
      exact List.mem_cons_self
    -- an entry that fires is scheduled once, so it is gone afterwards
    have hnodup := hi.nodup
    rw [hentries, List.nodup_cons] at hnodup
    refine ⟨item, loop, effect, hhead, rfl, (Option.some.inj h).symm, ?_, hnodup.1, ?_⟩
    · by_contra hover
      exact (hi.past item (Bool.not_eq_false _ ▸ hover)).2 hitem
    · refine ⟨hnodup.2, fun g timer hg => ?_, fun timer ht => ?_⟩
      · show timer < loop.next ∧ s.past timer = false ∧ (loop.handles timer).greenlet = some g
        rw [hlt, hgreenlet]
        exact hi.sleeping g timer hg
      · obtain ⟨hlt', hm⟩ := hi.past timer ht
        refine ⟨hlt.symm ▸ hlt', fun hm' => hm ?_⟩
        rw [hentries]
        exact List.mem_cons_of_mem _ hm'

/-- The effect of an entry leaves nothing behind if it is harmless. -/
theorem fired_noResidue_iff (hp : NoResidue s) {loop : LoopObject Callback} {item : Hid}
    {effect : Fired Callback} (hhead : s.loop.pendings.head? = some item)
    (hover : s.past item = false) :
    NoResidue (fired { s with loop := loop } item effect) ↔ Harmless s effect := by
  have hp' : NoResidue { s with loop := loop } := hp.congr rfl rfl
  cases effect with
  | nothing => exact iff_of_true hp' trivial
  | switch g =>
    have hlate : (if s.past item then s.late ++ [item] else s.late) = s.late := by
      rw [hover]
      rfl
    simp only [fired, hlate, Harmless, hhead, Option.some.injEq]
    rw [resumed_noResidue_iff hp']
    simp only [Cause.timer.injEq]
  | call k =>
    cases k with
    | throw g e =>
      simp only [fired, Harmless, Awake]
      rw [resumed_noResidue_iff hp']
      simp only [reduceCtorEq, imp_false]
    | other n => exact iff_of_true hp' trivial

theorem fired_inv {loop : LoopObject Callback} {item : Hid} {effect : Fired Callback}
    (hi : Inv { s with loop := loop }) (hhead : s.loop.pendings.head? = some item)
    (hover : s.past item = false) (hm : item ∉ entries loop) (hok : Harmless s effect) :
    Inv (fired { s with loop := loop } item effect) := by
  cases effect with
  | nothing => exact hi
  | switch g =>
    have hlate : (if s.past item then s.late ++ [item] else s.late) = s.late := by
      rw [hover]
      rfl
    simp only [fired, hlate]
    by_cases hawake : Awake s g
    · have hawake' : Awake { s with loop := loop } g := hawake
      rw [resumed_awake hawake']
      exact hi
    · obtain ⟨timer, ht⟩ := not_forall_not.1 hawake
      have hown := hok timer ht
      rw [hhead, Option.some.injEq] at hown
      exact hi.resumed_own ht (hown ▸ hm) _
  | call k =>
    cases k with
    | throw g e =>
      have hawake : Awake { s with loop := loop } g := hok
      simp only [fired]
      rw [resumed_awake hawake]
      exact hi
    | other n => exact hi

/-- Whether a step is good is told before it. -/
theorem step_noResidue_iff {a : Act} (h : step s a = some s') (hi : Inv s) (hp : NoResidue s) :
    NoResidue s' ↔ Undisturbed s a := by
  cases a with
  | sleep g seconds =>
    obtain ⟨_, heq⟩ := Option.ite_none_right_eq_some.1 h
    cases heq
    simp only [Undisturbed, LoopObject_sleep]
    by_cases hneg : seconds < 0
    · rw [if_pos hneg]
      exact iff_of_true hp fun hle => absurd hneg (Int.not_lt.2 hle)
    · rw [if_neg hneg, loop_sleep_noResidue_iff hp]
      exact ⟨fun hloop _ => hloop, fun hloop => hloop (Int.not_lt.1 hneg)⟩
  | set_timeout g seconds exception | finish g =>
    obtain ⟨_, heq⟩ := Option.ite_none_right_eq_some.1 h
    cases heq
    exact iff_of_true (hp.congr rfl rfl) trivial
  | call_later seconds n | call_switch seconds g | set_state state | loop_greenlet dead =>
    cases h
    exact iff_of_true (hp.congr rfl rfl) trivial
  | cancel timer =>
    obtain ⟨_, heq⟩ := Option.ite_none_right_eq_some.1 h
    cases heq
    exact iff_of_true (hp.congr rfl rfl) trivial
  | due timer =>
    obtain ⟨loop, _, heq⟩ := Option.map_eq_some_iff.1 h
    cases heq
    exact iff_of_true (hp.congr rfl rfl) trivial
  | fire =>
    obtain ⟨item, loop, effect, hhead, hnext, rfl, hover, _⟩ := fire_pendings_spec hi h
    rw [fired_noResidue_iff hp hhead hover]
    constructor
    · intro hok loop' effect' heq
      rw [hnext, Option.some.injEq, Prod.mk.injEq] at heq
      rw [← heq.2]
      exact hok
    · exact fun hok => hok loop effect hnext
  | throw g e =>
    cases h
    rw [resumed_noResidue_iff hp]
    exact forall_congr' fun timer => ⟨fun hc ht => (nomatch hc ht), fun hc ht => absurd ht hc⟩
  | switch g =>
    cases h
    rw [resumed_noResidue_iff hp]
    exact forall_congr' fun timer => ⟨fun hc ht => (nomatch hc ht), fun hc ht => absurd ht hc⟩

theorem step_inv {a : Act} (h : step s a = some s') (hi : Inv s) (hok : Undisturbed s a) :
    Inv s' := by
  cases a with
  | sleep g seconds =>
    obtain ⟨_, heq⟩ := Option.ite_none_right_eq_some.1 h
    cases heq
    unfold LoopObject_sleep
    by_cases hneg : seconds < 0
    · rw [if_pos hneg]
      exact hi
    · rw [if_neg hneg, loop_sleep_eq, hok (Int.not_lt.1 hneg)]
      exact asleep_inv hi g _
  | set_timeout g seconds exception =>
    obtain ⟨_, heq⟩ := Option.ite_none_right_eq_some.1 h
    cases heq
    have hadds := adds_loop_set_timeout s.loop seconds
      fun timer => Callback.throw g (exception.getD (.TimeoutException timer))
    exact hi.adds hadds (fun _ _ hs => .inl hs) rfl
  | call_later seconds n =>
    cases h
    exact hi.adds (adds_loop_schedule_call _ _ _ _) (fun _ _ hs => .inl hs) rfl
  | call_switch seconds g =>
    cases h
    exact hi.adds (adds_loop_schedule_call _ _ _ _) (fun _ _ hs => .inl hs) rfl
  | cancel timer =>
    obtain ⟨_, heq⟩ := Option.ite_none_right_eq_some.1 h
    cases heq
    exact hi.congr (List.Perm.refl _) rfl (cancel_greenlet _ _) (fun _ _ hs => hs) rfl
  | due timer =>
    obtain ⟨loop, hdue, heq⟩ := Option.map_eq_some_iff.1 h
    cases heq
    obtain ⟨hm, hpend, hhandles, hnext, hsched, _⟩ := LoopObject.fire_timers_next_eq hdue
    refine hi.congr ?_ hnext (fun h => by rw [hhandles]) (fun _ _ hs => hs) rfl
    show (loop.pendings ++ loop.scheduled).Perm (s.loop.pendings ++ s.loop.scheduled)
    rw [hpend, hsched, List.append_assoc]
    exact List.Perm.append_left _ (List.perm_cons_erase hm).symm
  | fire =>
    obtain ⟨item, loop, effect, hhead, hnext, rfl, hover, hm, hi'⟩ := fire_pendings_spec hi h
    exact fired_inv hi' hhead hover hm (hok loop effect hnext)
  | throw g e =>
    cases h
    rw [resumed_awake hok]
    exact hi
  | switch g =>
    cases h
    rw [resumed_awake hok]
    exact hi
  | finish g =>
    obtain ⟨_, heq⟩ := Option.ite_none_right_eq_some.1 h
    cases heq
    refine hi.congr (List.Perm.refl _) rfl (fun _ => rfl) (fun x timer hs => ?_) rfl
    have hs' : Function.update s.loc g .dead x = .sleep timer := hs
    by_cases hx : x = g
    · rw [hx, Function.update_self] at hs'
      cases hs'
    · rwa [Function.update_of_ne hx] at hs'
  | set_state state | loop_greenlet dead =>
    cases h
    exact hi.congr (List.Perm.refl _) rfl (fun _ => rfl) (fun _ _ hs => hs) rfl

end Steps

/-! ## Main result -/

/-- Along a run every sleep lets exceptions out, returns after its own timer only
and is never resumed by it again, exactly when nothing else resumes a greenlet that
is asleep, and nobody sleeps while the greenlet of the loop is dead. -/
theorem sleep_iff (as : List Act) (s : St) (h : run step init as = some s) :
    Always step NoResidue init as ↔ Steps step Undisturbed init as :=
  always_iff_steps (fun _ _ _ hs hok hi _ => step_inv hs hi hok)
    (fun _ _ _ hs hi hp => step_noResidue_iff hs hi hp) inv_init noResidue_init h

/-- Two greenlets sleep, one of them with a deadline that is cancelled when it
wakes up. -/
theorem sleep_iff_two : ∃ s, run step init
    [.loop_greenlet false, .set_timeout 1 5 none, .sleep 1 2, .sleep 2 0, .fire, .due 1, .fire,
      .cancel 0, .due 0, .fire] = some s ∧
    (Always step NoResidue init
        [.loop_greenlet false, .set_timeout 1 5 none, .sleep 1 2, .sleep 2 0, .fire, .due 1, .fire,
          .cancel 0, .due 0, .fire] ↔
      Steps step Undisturbed init
        [.loop_greenlet false, .set_timeout 1 5 none, .sleep 1 2, .sleep 2 0, .fire, .due 1, .fire,
          .cancel 0, .due 0, .fire]) := by
  have h : (run step init
      [.loop_greenlet false, .set_timeout 1 5 none, .sleep 1 2, .sleep 2 0, .fire, .due 1, .fire,
        .cancel 0, .due 0, .fire]).any
        (fun s => s.ended.map Ended.cause = [.timer 2, .timer 1]) = true := by
    decide
  obtain ⟨s, hs, _⟩ := run_any h
  exact ⟨s, hs, sleep_iff _ s hs⟩

/-- A deadline interrupts a sleep, which returns its timer all the same, and the
timer resumes the greenlet once more when it is due. -/
theorem interrupted_sleep_returns :
    ¬ ∀ as s, run step init as = some s → Always step NoResidue init as := by
  intro hall
  have h : (run step init
      [.loop_greenlet false, .set_timeout 1 1 none, .sleep 1 9, .due 0, .fire, .due 1, .fire]).any
        (fun s => s.ended = [⟨1, 1, .throw (.TimeoutException (some 0)), some 1⟩] ∧
          s.late = [1]) = true := by
    decide
  obtain ⟨s, hs, hend⟩ := run_any h
  obtain ⟨_, hlate⟩ := of_decide_eq_true hend
  have hquiet := ((hall _ s hs).last hs).quiet
  rw [hlate] at hquiet
  cases hquiet

end Jega.Sleep
