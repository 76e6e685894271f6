import Jega.Event.Truth
import Jega.Futures.AsCompleted
import Jega.Futures.Wakeup

/-!
# Jega.Futures.Generators — what a generator knows

A future of a generator is settled exactly if it was yielded, is to be yielded
from the list that the generator took, or is in `finished_futures`; and it is in
one of them only (`Tracks`). The event is set as long as `finished_futures` has
something: the one who takes the list clears the event in the same turn.

Nobody but the greenlet suspended in a generator is in the event of its waiter.
-/

namespace Jega.Event

open Locks

variable {s : St} {g : Gid}

/-- Nobody is blocked in an event that nobody is in. -/
theorem steady_of_idle (hi : Inv s) (hd : Deadlines s.locks) (hst : Stamped s.locks)
    (hidle : ∀ g, s.pc g = .free) : Steady s := by
  refine ⟨hi, hd, hst, ?_⟩
  rintro waiter g ⟨timer, hb⟩ _
  cases hi.placed g with
  | free _ hf =>
    rw [hf] at hb
    cases hb
  | waiting hpc _ =>
    rw [hidle g] at hpc
    cases hpc

theorem clear_steady (hs : Steady s) (hidle : ∀ g, s.pc g = .free) (g : Gid) :
    Steady (EventObject_clear s g) ∧ Shrinks s.locks (EventObject_clear s g).locks ∧
      (EventObject_clear s g).flag = false ∧ (EventObject_clear s g).pc = s.pc := by
  have hi : Inv (EventObject_clear s g) := clear_inv hs.inv (hidle g)
  have hround := lock_round_shrinks hs.inv (hidle g)
  rw [clear_eq hs.inv (hidle g)] at hi ⊢
  refine ⟨?_, hround, rfl, rfl⟩
  exact steady_of_idle hi (hround.deadlines hs.deadlines)
    (hs.stamped.shrinks hs.deadlines hround) hidle

/-- A wait that finds the flag set. -/
theorem wait_set_steady (hs : Steady s) (hidle : ∀ g, s.pc g = .free) (hflag : s.flag = true)
    (g : Gid) (seconds : Nat) :
    Steady (event_wait s g seconds) ∧ Shrinks s.locks (event_wait s g seconds).locks ∧
      (event_wait s g seconds).flag = true ∧ (event_wait s g seconds).pc = s.pc ∧
      (event_wait s g seconds).ended = s.ended ++ [(g, .Py_None)] := by
  have hi : Inv (event_wait s g seconds) := event_wait_inv hs.inv (hidle g) seconds
  have hround := lock_round_shrinks hs.inv (hidle g)
  have hpc : Function.update s.pc g .free = s.pc := by
    rw [← hidle g]
    exact Function.update_eq_self g s.pc
  rw [wait_set_eq hs.inv (hidle g) hflag, wait_ended] at hi ⊢
  refine ⟨?_, hround, hflag, hpc, rfl⟩
  refine steady_of_idle hi (hround.deadlines hs.deadlines)
    (hs.stamped.shrinks hs.deadlines hround) fun g' => ?_
  show Function.update s.pc g .free g' = .free
  rw [hpc]
  exact hidle g'

end Jega.Event

namespace Jega.Futures.AsCompleted

open Locks Waiting

/-! ## What a waiter is told -/

/-- A waiter of a generator is told with its event set. -/
structure AddsEach (future : Fid) (current : Gid) (add : Waiter → Waiter) : Prop
    extends Waiting.Adds future current add where
  each : ∀ w, w.cls = ._AsCompletedWaiter →
    (add w).cls = ._AsCompletedWaiter ∧ (add w).event = Event.event_set w.event current

theorem adds_each_result (future : Fid) (current : Gid) :
    AddsEach future current fun w => w.add_result future current := by
  refine ⟨adds_result future current, ?_⟩
  rintro ⟨cls, event, finished⟩ rfl
  exact ⟨rfl, rfl⟩

theorem adds_each_exception (future : Fid) (current : Gid) :
    AddsEach future current fun w => w.add_exception future current := by
  refine ⟨adds_exception future current, ?_⟩
  rintro ⟨cls, event, finished⟩ rfl
  exact ⟨rfl, rfl⟩

theorem adds_each_cancelled (future : Fid) (current : Gid) :
    AddsEach future current fun w => w.add_cancelled future current :=
  adds_each_result future current

variable {α ε : Type}

/-- `future` has been settled by `current`, and the generators were told. -/
structure Tells (t t' : Table α ε) (future : Fid) (current : Gid) : Prop
    extends Settles t t' future current where
  each : ∃ add, AddsEach future current add ∧
    t'.waiters = tell add (t.futs future)._waiters t.waiters

section Methods

variable {t t' : Table α ε} {future : Fid} {current : Gid}

theorem set_result_tells (h : (t.futs future)._state.settled = false) (result : Option α) :
    Tells t (t.set_result future result current) future current :=
  ⟨set_result_settles h result, _, adds_each_result future current, rfl⟩

theorem set_exception_tells (h : (t.futs future)._state.settled = false) (exception : ε) :
    Tells t (t.set_exception future exception current) future current :=
  ⟨set_exception_settles h exception, _, adds_each_exception future current, rfl⟩

theorem set_running_tells (hs : Settles t t' future current)
    (h : t.set_running_or_notify_cancel future current = .ok (t', false)) :
    Tells t t' future current := by
  refine ⟨hs, _, adds_each_cancelled future current, ?_⟩
  unfold Table.set_running_or_notify_cancel Future.set_running_or_notify_cancel at h
  cases hstate : (t.futs future)._state with
  | CANCELLED =>
    rw [hstate] at h
    cases h
    rfl
  | PENDING | RUNNING | CANCELLED_AND_NOTIFIED | FINISHED =>
    rw [hstate] at h
    cases h

end Methods

/-! ## The invariant -/

/-- A generator that has begun and is not over. -/
def Pc.active : Pc → Bool
  | .first _ | .looping | .waiting | .yielding _ _ => true
  | _ => false

namespace Gen

/-- What is still to be yielded of the list that the generator took. -/
def ahead (G : Gen) : List Fid :=
  match G.pc with
  | .first rest | .yielding _ rest => rest
  | _ => []

/-- What `pending` has no more. -/
def gone (G : Gen) : List Fid :=
  match G.pc with
  | .first rest => G.yielded ++ rest
  | .yielding future _ => G.yielded.erase future
  | _ => G.yielded

variable {G : Gen} {f : Fid} {rest : List Fid}

theorem at_first (h : G.pc = .first rest) :
    G.pc.active = true ∧ G.ahead = rest ∧ G.gone = G.yielded ++ rest := by
  simp [Pc.active, ahead, gone, h]

theorem at_yielding (h : G.pc = .yielding f rest) :
    G.pc.active = true ∧ G.ahead = rest ∧ G.gone = G.yielded.erase f := by
  simp [Pc.active, ahead, gone, h]

theorem at_waiting (h : G.pc = .waiting) :
    G.pc.active = true ∧ G.ahead = [] ∧ G.gone = G.yielded := by
  simp [Pc.active, ahead, gone, h]

end Gen

/-- The waiter of a generator and its locals know which futures are settled. -/
structure Tracks (t : Table α ε) (G : Gen) (w : Waiter) (ahead gone : List Fid) : Prop where
  installed : ∀ f, (t.futs f)._waiters.count G.waiter = G.fs.count f
  nodup : (G.yielded ++ ahead ++ w.finished_futures).Nodup
  settled : ∀ f, f ∈ G.yielded ++ ahead ++ w.finished_futures ↔
    f ∈ G.fs ∧ (t.futs f)._state.settled = true
  pending : ∀ f, f ∈ G.pending ↔ f ∈ G.fs ∧ f ∉ gone
  flag : w.event.flag = true ↔ w.finished_futures ≠ []

structure Good (t : Table α ε) (G : Gen) : Prop where
  distinct : G.fs.Nodup
  once : G.yielded.Nodup
  settled : ∀ f ∈ G.yielded, f ∈ G.fs ∧ (t.futs f)._state.settled = true
  active : G.pc.active = true → G.waiter < t.next ∧
    ∃ w, t.waiters G.waiter = some w ∧ Tracks t G w G.ahead G.gone
  resting : G.pc ≠ .looping
  created : G.pc = .created → G.yielded = []
  held : ∀ f rest, G.pc = .yielding f rest → f ∈ G.yielded
  returned : G.pc = .returned → ∀ f ∈ G.fs, f ∈ G.yielded
  /-- It raises what was thrown into the wait of its event. -/
  raised : ∀ e, G.pc = .raised e → ∃ n, e = .thrown (some (.other n))

/-- The callers of `next` that are suspended are in the events of the generators
that wait, one in each. -/
structure Callers (s : St α ε) : Prop where
  inside : ∀ w W g, s.waiters w = some W → W.event.pc g ≠ .free →
    ∃ n G, s.calls g = some n ∧ s.gens n = some G ∧ G.pc = .waiting ∧ G.waiter = w
  calls : ∀ g n, s.calls g = some n → ∃ G W sem, s.gens n = some G ∧ G.pc = .waiting ∧
    s.waiters G.waiter = some W ∧ W.event.pc g = .waiting sem ∧ Muted W.event.locks g
  caller : ∀ n G, s.gens n = some G → G.pc = .waiting → ∃ g, s.calls g = some n
  single : ∀ g g' n, s.calls g = some n → s.calls g' = some n → g = g'

/-- Generators that are not over have waiters of their own. -/
def Apart (gens : Nat → Option Gen) : Prop :=
  ∀ n n' G G', gens n = some G → gens n' = some G' → G.pc.active = true →
    G'.pc.active = true → G.waiter = G'.waiter → n = n'

/-- The invariant at a suspension point. -/
structure Inv (s : St α ε) : Prop extends Callers s where
  running : ∀ f, s.workers f = .running → (s.futs f)._state = .RUNNING
  lists : ∀ f w, w ∈ (s.futs f)._waiters → w < s.next
  allocated : ∀ w W, s.waiters w = some W → w < s.next
  waiters : ∀ w W, s.waiters w = some W → Event.Steady W.event ∧ W.cls = ._AsCompletedWaiter
  gens : ∀ n G, s.gens n = some G → n < s.next_gen ∧ Good s.toTable G
  own : Apart s.gens

/-- The generator `n` runs. -/
structure Runs (s : St α ε) (n : Nat) (G : Gen) (ahead gone : List Fid) : Prop where
  inv : Inv (s.set_gen n { G with pc := .closed })
  tracks : ∃ w, s.waiters G.waiter = some w ∧ Tracks s.toTable G w ahead gone
  allocated : G.waiter < s.next
  mine : ∀ n' G', n' ≠ n → s.gens n' = some G' → G'.pc.active = true → G'.waiter ≠ G.waiter

/-! ## Tracking -/

section Table

variable {t t' : Table α ε} {future : Fid} {current : Gid} {G : Gen} {w w' : Waiter}
  {ahead gone : List Fid}

theorem Tracks.congr (ht : Tracks t G w ahead gone)
    (hsettled : ∀ f, (t'.futs f)._state.settled = (t.futs f)._state.settled)
    (hcount : ∀ f, (t'.futs f)._waiters.count G.waiter = (t.futs f)._waiters.count G.waiter)
    (hfinished : w'.finished_futures = w.finished_futures)
    (hflag : w'.event.flag = w.event.flag) : Tracks t' G w' ahead gone := by
  refine ⟨fun f => ?_, ?_, fun f => ?_, ht.pending, ?_⟩
  · rw [hcount f]
    exact ht.installed f
  · rw [hfinished]
    exact ht.nodup
  · rw [hfinished, hsettled f]
    exact ht.settled f
  · rw [hfinished, hflag]
    exact ht.flag

/-- The waiter is told of a future if the generator is for it. -/
theorem Tracks.tells (ht : Tracks t G w ahead gone) (hs : Settles t t' future current)
    {add : Waiter → Waiter} (ha : AddsEach future current add) (he : Event.Steady w.event)
    (hcls : w.cls = ._AsCompletedWaiter) (hpc : w.event.pc current = .free)
    (hdistinct : G.fs.Nodup) : Tracks t' G (add^[G.fs.count future] w) ahead gone := by
  have hsettled := settled_settles hs
  have hinstalled : ∀ f, (t'.futs f)._waiters.count G.waiter = G.fs.count f := by
    intro f
    rw [hs.lists f]
    exact ht.installed f
  by_cases hf : future ∈ G.fs
  · -- it was not settled, so the generator does not know it
    have hnew : future ∉ G.yielded ++ ahead ++ w.finished_futures := by
      rw [ht.settled, hs.before]
      simp
    have hone : G.fs.count future = 1 := List.count_eq_one_of_mem hdistinct hf
    have hfinished : (add w).finished_futures = w.finished_futures ++ [future] := ha.finished w
    have hset : (add w).event.flag = true := by
      rw [(ha.each w hcls).2]
      exact (Event.event_set_steady he hpc).2.2.1
    rw [hone]
    refine ⟨hinstalled, ?_, fun f => ?_, ht.pending, ?_⟩
    · rw [Function.iterate_one, hfinished, ← List.append_assoc]
      exact List.nodup_append.2 ⟨ht.nodup, List.nodup_singleton future, by
        intro f hmem f' hf' heq
        rw [List.mem_singleton] at hf'
        exact hnew (hf' ▸ heq ▸ hmem)⟩
    · rw [Function.iterate_one, hfinished, ← List.append_assoc, List.mem_append, ht.settled f,
        List.mem_singleton, hsettled f]
      constructor
      · rintro (⟨hmem, h⟩ | rfl)
        · exact ⟨hmem, Or.inr h⟩
        · exact ⟨hf, Or.inl rfl⟩
      · rintro ⟨hmem, rfl | h⟩
        · exact Or.inr rfl
        · exact Or.inl ⟨hmem, h⟩
    · rw [Function.iterate_one, hset, hfinished]
      simp
  · rw [List.count_eq_zero.2 hf]
    refine ⟨hinstalled, ht.nodup, fun f => ?_, ht.pending, ht.flag⟩
    rw [hsettled f, Function.iterate_zero, id, ht.settled f]
    constructor
    · rintro ⟨hmem, h⟩
      exact ⟨hmem, Or.inr h⟩
    · rintro ⟨hmem, rfl | h⟩
      · exact absurd hmem hf
      · exact ⟨hmem, h⟩

/-- The generator yields a future of the first loop. -/
theorem Tracks.yield_first {f : Fid} {rest : List Fid}
    (ht : Tracks t G w (f :: rest) (G.yielded ++ f :: rest)) :
    Tracks t { G with pc := .first rest, yielded := G.yielded ++ [f] } w rest
      (G.yielded ++ [f] ++ rest) := by
  have happend : G.yielded ++ [f] ++ rest = G.yielded ++ f :: rest := by simp
  refine ⟨ht.installed, ?_, fun f' => ?_, fun f' => ?_, ht.flag⟩
  · rw [happend]
    exact ht.nodup
  · rw [happend]
    exact ht.settled f'
  · rw [happend]
    exact ht.pending f'

/-- It yields a future of the second one, which stays in `pending` meanwhile. -/
theorem Tracks.yield_second {f : Fid} {rest : List Fid}
    (ht : Tracks t G w (f :: rest) G.yielded) :
    Tracks t { G with pc := .yielding f rest, yielded := G.yielded ++ [f] } w rest
      ((G.yielded ++ [f]).erase f) := by
  have happend : G.yielded ++ [f] ++ rest = G.yielded ++ f :: rest := by simp
  -- `gone` is as before: the future leaves `pending` after the `yield`
  have hnew : f ∉ G.yielded := by
    intro hf
    have hnodup := (List.nodup_append.1 ht.nodup).1
    exact (List.nodup_append.1 hnodup).2.2 f hf f List.mem_cons_self rfl
  have herase : (G.yielded ++ [f]).erase f = G.yielded := by
    rw [List.erase_append_right _ hnew, List.erase_cons_head, List.append_nil]
  rw [herase]
  refine ⟨ht.installed, ?_, fun f' => ?_, ht.pending, ht.flag⟩
  · rw [happend]
    exact ht.nodup
  · rw [happend]
    exact ht.settled f'

/-- `pending.remove` after a `yield`. -/
theorem Tracks.remove {f : Fid} (ht : Tracks t G w ahead (G.yielded.erase f))
    (hf : f ∈ G.yielded) :
    Tracks t { G with pending := G.pending.erase f, pc := .looping } w ahead G.yielded := by
  refine ⟨ht.installed, ht.nodup, ht.settled, fun f' => ?_, ht.flag⟩
  have honce : G.yielded.Nodup :=
    (List.nodup_append.1 (List.nodup_append.1 ht.nodup).1).1
  rw [Finset.mem_erase, ht.pending f', honce.mem_erase_iff]
  constructor
  · rintro ⟨hne, hfs, hmem⟩
    exact ⟨hfs, fun h => hmem ⟨hne, h⟩⟩
  · rintro ⟨hfs, hmem⟩
    refine ⟨?_, hfs, fun h => hmem h.2⟩
    rintro rfl
    exact hmem hf

/-- The future is in `pending` while it is yielded. -/
theorem Tracks.held {f : Fid} (ht : Tracks t G w ahead (G.yielded.erase f))
    (hf : f ∈ G.yielded) : f ∈ G.pending := by
  have honce : G.yielded.Nodup :=
    (List.nodup_append.1 (List.nodup_append.1 ht.nodup).1).1
  rw [ht.pending f]
  constructor
  · exact ((ht.settled f).1 (by simp [hf])).1
  · rw [honce.mem_erase_iff]
    exact fun h => h.1 rfl

/-- The generator takes the list and clears the event. -/
theorem Tracks.take (ht : Tracks t G w [] gone) {e : Event.St} (he : e.flag = false) :
    Tracks t G { w with finished_futures := [], event := e } w.finished_futures gone := by
  refine ⟨ht.installed, ?_, fun f => ?_, ht.pending, ?_⟩
  · have hnodup := ht.nodup
    rw [List.append_nil] at hnodup
    rw [List.append_nil]
    exact hnodup
  · have hsettled := ht.settled f
    rw [List.append_nil] at hsettled
    rw [List.append_nil]
    exact hsettled
  · simp [he]

theorem Tracks.yielded (ht : Tracks t G w ahead gone) :
    G.yielded.Nodup ∧ ∀ f ∈ G.yielded, f ∈ G.fs ∧ (t.futs f)._state.settled = true := by
  constructor
  · exact (List.nodup_append.1 (List.nodup_append.1 ht.nodup).1).1
  · intro f hf
    exact (ht.settled f).1 (by simp [hf])

/-- The table has changed, and a generator is as good as before. -/
theorem Good.congr (hg : Good t G)
    (hsettled : ∀ f, (t.futs f)._state.settled = true → (t'.futs f)._state.settled = true)
    (hactive : G.pc.active = true → G.waiter < t.next → ∀ w, t.waiters G.waiter = some w →
      Tracks t G w G.ahead G.gone →
        G.waiter < t'.next ∧ ∃ w', t'.waiters G.waiter = some w' ∧
          Tracks t' G w' G.ahead G.gone) : Good t' G := by
  refine ⟨hg.distinct, hg.once, fun f hf => ?_, fun hpc => ?_, hg.resting, hg.created, hg.held,
    hg.returned, hg.raised⟩
  · exact ⟨(hg.settled f hf).1, hsettled f (hg.settled f hf).2⟩
  · obtain ⟨hlt, w, hw, ht⟩ := hg.active hpc
    exact hactive hpc hlt w hw ht

end Table

/-! ## Running -/

section Running

variable {s : St α ε} {g : Gid} {n : Nat} {G G' : Gen} {w : Waiter} {ahead gone : List Fid}

theorem set_gen_set_gen (s : St α ε) (n : Nat) (G G' : Gen) :
    (s.set_gen n G).set_gen n G' = s.set_gen n G' := by
  unfold St.set_gen
  rw [Function.update_idem]

theorem set_gen_other (s : St α ε) (G : Gen) {n' : Nat} (hne : n' ≠ n) :
    (s.set_gen n G).gens n' = s.gens n' := Function.update_of_ne hne _ _

theorem init_inv (futs : Fid → Future α ε) : Inv (St.init futs) := by
  have hnone : ∀ {β : Type} {x : β}, (none : Option β) ≠ some x := by simp
  refine ⟨⟨?_, ?_, ?_, ?_⟩, fun f hf => ?_, ?_, ?_, ?_, ?_, ?_⟩
  · intro w W g hW
    exact absurd hW hnone
  · intro g n hn
    exact absurd hn hnone
  · intro n G hG
    exact absurd hG hnone
  · intro g g' n hn
    exact absurd hn hnone
  · show (futs f)._state = .RUNNING
    have hof : Waiting.Worker.of (futs f)._state = .running := hf
    cases hstate : (futs f)._state with
    | RUNNING => rfl
    | PENDING | CANCELLED | CANCELLED_AND_NOTIFIED | FINISHED =>
      rw [hstate] at hof
      cases hof
  · intro f w hw
    cases hw
  · intro w W hW
    exact absurd hW hnone
  · intro w W hW
    exact absurd hW hnone
  · intro n G hG
    exact absurd hG hnone
  · intro n n' G G' hG
    exact absurd hG hnone

/-- A greenlet that is in no generator is outside all events. -/
theorem Inv.outside (hi : Inv s) (hg : s.calls g = none) {wid : Wid}
    (hw : s.waiters wid = some w) : w.event.pc g = .free := by
  by_contra hpc
  obtain ⟨n, _, hn, _⟩ := hi.inside wid w g hw hpc
  rw [hg] at hn
  cases hn

/-- Nobody is suspended in a generator that does not wait. -/
theorem Inv.uncalled (hi : Inv s) (hG : s.gens n = some G) (hpc : G.pc ≠ .waiting) :
    ∀ g, s.calls g ≠ some n := by
  intro g hn
  obtain ⟨G', _, _, hG', hpc', _⟩ := hi.calls g n hn
  rw [hG, Option.some.injEq] at hG'
  exact hpc (hG' ▸ hpc')

theorem Apart.update {gens : Nat → Option Gen} (h : Apart gens)
    (hmine : G.pc.active = true → ∀ n' G', n' ≠ n → gens n' = some G' → G'.pc.active = true →
      G'.waiter ≠ G.waiter) : Apart (Function.update gens n (some G)) := by
  intro n' n'' G' G'' hG' hG'' ha ha' heq
  rcases update_some_cases hG' with ⟨rfl, rfl⟩ | ⟨hne, hold⟩
  · rcases update_some_cases hG'' with ⟨rfl, _⟩ | ⟨hne', hold'⟩
    · rfl
    · exact absurd heq.symm (hmine ha n'' G'' hne' hold' ha')
  · rcases update_some_cases hG'' with ⟨rfl, rfl⟩ | ⟨_, hold'⟩
    · exact absurd heq (hmine ha' n' G' hne hold ha)
    · exact h n' n'' G' G'' hold hold' ha ha' heq

/-- A generator does not see the waiters of others. -/
theorem Good.set_waiter (hg : Good s.toTable G) {wid : Wid}
    (hne : G.pc.active = true → G.waiter ≠ wid) (w : Waiter) :
    Good (s.set_waiter wid w).toTable G := by
  refine hg.congr (fun f hf => hf) fun ha hlt W hW ht => ⟨hlt, W, ?_, ?_⟩
  · exact (Function.update_of_ne (hne ha) _ _).trans hW
  · exact ht.congr (fun _ => rfl) (fun _ => rfl) rfl rfl

/-- A generator that nobody is suspended in has moved, and does not wait. -/
theorem Inv.put_gen (hi : Inv s) (hcalls : ∀ g, s.calls g ≠ some n) (hlt : n < s.next_gen)
    (hgood : Good s.toTable G) (hpc : G.pc ≠ .waiting)
    (hmine : G.pc.active = true → ∀ n' G', n' ≠ n → s.gens n' = some G' → G'.pc.active = true →
      G'.waiter ≠ G.waiter) : Inv (s.set_gen n G) := by
  refine ⟨⟨fun w W g hW hbusy => ?_, fun g n' hn => ?_, fun n' G' hG' hpc' => ?_, hi.single⟩,
    hi.running, hi.lists, hi.allocated, hi.waiters, fun n' G' hG' => ?_, hi.own.update hmine⟩
  · obtain ⟨n', G', hn, hG', hrest⟩ := hi.inside w W g hW hbusy
    have hne : n' ≠ n := fun h => hcalls g (h ▸ hn)
    exact ⟨n', G', hn, (set_gen_other s G hne).trans hG', hrest⟩
  · obtain ⟨G', W, sem, hG', hrest⟩ := hi.calls g n' hn
    have hne : n' ≠ n := fun h => hcalls g (h ▸ hn)
    exact ⟨G', W, sem, (set_gen_other s G hne).trans hG', hrest⟩
  · rcases update_some_cases hG' with ⟨_, rfl⟩ | ⟨_, hold⟩
    · exact absurd hpc' hpc
    · exact hi.caller n' G' hold hpc'
  · rcases update_some_cases hG' with ⟨rfl, rfl⟩ | ⟨_, hold⟩
    · exact ⟨hlt, hgood⟩
    · exact hi.gens n' G' hold

/-- The futures and their waiters have changed, and nobody has moved. -/
theorem Inv.table (hi : Inv s) {t : Table α ε} {ws : Fid → Waiting.Worker}
    (hrunning : ∀ f, ws f = .running → (t.futs f)._state = .RUNNING)
    (hlists : ∀ f w, w ∈ (t.futs f)._waiters → w < t.next)
    (hold : ∀ w W, s.waiters w = some W → ∃ W', t.waiters w = some W' ∧
      W'.event.pc = W.event.pc ∧ Shrinks W.event.locks W'.event.locks)
    (hnew : ∀ w W', t.waiters w = some W' → w < t.next ∧
      (Event.Steady W'.event ∧ W'.cls = ._AsCompletedWaiter) ∧
        ((∃ W, s.waiters w = some W) ∨ ∀ g, W'.event.pc g = .free))
    (hgood : ∀ n G, s.gens n = some G → Good s.toTable G → Good t G) :
    Inv { s with toTable := t, workers := ws } := by
  refine ⟨⟨fun w W' g hW' hpc => ?_, fun g n hn => ?_, hi.caller, hi.single⟩, hrunning, hlists,
    fun w W' hW' => (hnew w W' hW').1, fun w W' hW' => (hnew w W' hW').2.1, fun n G hG => ?_,
    hi.own⟩
  · rcases (hnew w W' hW').2.2 with ⟨W, hW⟩ | hfree
    · -- a waiter that was there has the same greenlets in its event
      obtain ⟨W'', hW'', hsame, _⟩ := hold w W hW
      rw [show t.waiters w = some W' from hW', Option.some.injEq] at hW''
      rw [hW'', hsame] at hpc
      exact hi.inside w W g hW hpc
    · exact absurd (hfree g) hpc
  · obtain ⟨G, W, sem, hG, hpc, hW, hsem, hmuted⟩ := hi.calls g n hn
    obtain ⟨W', hW', hsame, hsh⟩ := hold _ W hW
    refine ⟨G, W', sem, hG, hpc, hW', ?_, ?_⟩
    · rw [hsame]
      exact hsem
    · exact hmuted.shrinks (hi.waiters _ W hW).1.deadlines hsh
  · exact ⟨(hi.gens n G hG).1, hgood n G hG (hi.gens n G hG).2⟩

theorem Inv.quiet (hi : Inv s) {t : Table α ε} (hq : Quiet s.toTable t) {ws : Fid → Waiting.Worker}
    (hrunning : ∀ f, ws f = .running → (t.futs f)._state = .RUNNING) :
    Inv { s with toTable := t, workers := ws } := by
  refine hi.table hrunning (fun f w hw => ?_) (fun w W hW => ?_) (fun w W hW => ?_)
    fun n G hG hgood => ?_
  · rw [hq.lists f] at hw
    rw [hq.next]
    exact hi.lists f w hw
  · rw [hq.waiters]
    exact ⟨W, hW, rfl, shrinks_of_plain (Plain.refl _) rfl⟩
  · rw [hq.waiters] at hW
    rw [hq.next]
    exact ⟨hi.allocated w W hW, hi.waiters w W hW, Or.inl ⟨W, hW⟩⟩
  · refine hgood.congr (fun f hf => ?_) fun _ hlt w hw ht => ?_
    · rw [hq.settled f]
      exact hf
    · rw [hq.next, hq.waiters]
      refine ⟨hlt, w, hw, ht.congr hq.settled (fun f => ?_) rfl rfl⟩
      rw [hq.lists f]

theorem AddsEach.iterate_cls {future : Fid} {add : Waiter → Waiter}
    (ha : AddsEach future g add) (hcls : w.cls = ._AsCompletedWaiter) (k : Nat) :
    (add^[k] w).cls = ._AsCompletedWaiter := by
  induction k with
  | zero => exact hcls
  | succ k ih =>
    rw [Function.iterate_succ_apply']
    exact (ha.each _ ih).1

theorem Inv.tells (hi : Inv s) (hg : s.calls g = none) {t : Table α ε} {future : Fid}
    (hs : Tells s.toTable t future g) {ws : Fid → Waiting.Worker}
    (hrunning : ∀ f, ws f = .running → (t.futs f)._state = .RUNNING) :
    Inv { s with toTable := t, workers := ws } := by
  obtain ⟨add, ha, htell⟩ := hs.each
  have hwaiter : ∀ w, t.waiters w =
      (s.waiters w).map add^[(s.futs future)._waiters.count w] := by
    intro w
    rw [htell, tell_eq]
  -- to be told is to have the event set
  have hmarked : ∀ {wid W}, s.waiters wid = some W → ∀ k,
      Marked W.event (add^[k] W).event := fun {wid W} hW k =>
    (ha.iterate (hi.waiters wid W hW).1 (hi.outside hg hW) k).1
  refine hi.table hrunning (fun f w hw => ?_) (fun w W hW => ?_) (fun w W' hW' => ?_)
    fun n G hG hgood => ?_
  · rw [hs.lists f] at hw
    rw [hs.next]
    exact hi.lists f w hw
  · have hm := hmarked hW ((s.futs future)._waiters.count w)
    refine ⟨_, ?_, hm.pc, hm.shrinks⟩
    rw [hwaiter, hW]
    rfl
  · rw [hwaiter] at hW'
    obtain ⟨W, hW, rfl⟩ := Option.map_eq_some_iff.1 hW'
    rw [hs.next]
    exact ⟨hi.allocated w W hW, ⟨(hmarked hW _).steady, ha.iterate_cls (hi.waiters w W hW).2 _⟩,
      Or.inl ⟨W, hW⟩⟩
  · refine hgood.congr (fun f hf => (settled_settles hs.toSettles f).2 (Or.inr hf))
      fun _ hlt w hw ht => ?_
    -- the list names the waiter as often as the generator is for the future
    have hk : (s.futs future)._waiters.count G.waiter = G.fs.count future := ht.installed future
    obtain ⟨hsteady, hcls⟩ := hi.waiters _ w hw
    rw [hs.next]
    refine ⟨hlt, _, ?_, ht.tells hs.toSettles ha hsteady hcls (hi.outside hg hw) hgood.distinct⟩
    rw [hwaiter, hw, hk]
    rfl

/-! ## A generator that runs -/

/-- Nobody is suspended in a generator that runs. -/
theorem Runs.uncalled (hr : Runs s n G ahead gone) : ∀ g, s.calls g ≠ some n :=
  hr.inv.uncalled (Function.update_self _ _ _) (by simp)

theorem Runs.distinct (hr : Runs s n G ahead gone) : n < s.next_gen ∧ G.fs.Nodup := by
  obtain ⟨hlt, hgood⟩ := hr.inv.gens n _ (Function.update_self _ _ _)
  exact ⟨hlt, hgood.distinct⟩

/-- The event of its waiter is its own. -/
theorem Runs.free (hr : Runs s n G ahead gone) (hw : s.waiters G.waiter = some w) :
    ∀ g, w.event.pc g = .free := by
  intro g
  by_contra hpc
  obtain ⟨n', G', hn', hG', hpc', hwaiter⟩ := hr.inv.inside _ w g hw hpc
  have hne : n' ≠ n := fun h => hr.uncalled g (h ▸ hn')
  rcases update_some_cases hG' with ⟨h, _⟩ | ⟨_, hold⟩
  · exact hne h
  · exact hr.mine n' G' hne hold (Gen.at_waiting hpc').1 hwaiter

theorem Good.close {t : Table α ε} (hg : Good t G) : Good t { G with pc := .closed } := by
  refine ⟨hg.distinct, hg.once, hg.settled, ?_, ?_, ?_, ?_, ?_, ?_⟩
  · rintro ⟨⟩
  · simp
  · simp
  · simp
  · simp
  · simp

/-- A generator goes on after a `yield`. -/
theorem Inv.enter (hi : Inv s) (hG : s.gens n = some G) (hactive : G.pc.active = true)
    (hpc : G.pc ≠ .waiting) : Runs s n G G.ahead G.gone := by
  obtain ⟨hlt, hgood⟩ := hi.gens n G hG
  obtain ⟨hallocated, htracks⟩ := hgood.active hactive
  refine ⟨?_, htracks, hallocated, fun n' G' hne hG' ha heq => ?_⟩
  · refine hi.put_gen (hi.uncalled hG hpc) hlt hgood.close (by simp) ?_
    rintro ⟨⟩
  · exact hne (hi.own n' n G' G hG' hG ha hactive heq)

/-- The generator stops. -/
theorem Runs.put (hr : Runs s n G ahead gone) (hwaiter : G'.waiter = G.waiter)
    (hgood : Good s.toTable G') (hpc : G'.pc ≠ .waiting) : Inv (s.set_gen n G') := by
  rw [← set_gen_set_gen s n { G with pc := .closed } G']
  refine hr.inv.put_gen hr.uncalled hr.distinct.1 hgood hpc fun _ n' G'' hne hG'' ha => ?_
  rw [hwaiter]
  refine hr.mine n' G'' hne ?_ ha
  rw [← hG'']
  exact (Function.update_of_ne hne _ _).symm

/-- It stops at a `yield`. -/
theorem Runs.stop (hr : Runs s n G ahead gone) (hwaiter : G'.waiter = G.waiter)
    (hfs : G'.fs = G.fs) (hw : s.waiters G.waiter = some w)
    (ht : Tracks s.toTable G' w G'.ahead G'.gone)
    (hpc : (∃ rest, G'.pc = .first rest) ∨
      ∃ f rest, G'.pc = .yielding f rest ∧ f ∈ G'.yielded) : Inv (s.set_gen n G') := by
  obtain ⟨honce, hsettled⟩ := ht.yielded
  have hdistinct : G'.fs.Nodup := hfs ▸ hr.distinct.2
  have hactive : G'.waiter < s.next ∧
      ∃ w, s.waiters G'.waiter = some w ∧ Tracks s.toTable G' w G'.ahead G'.gone := by
    rw [hwaiter]
    exact ⟨hr.allocated, w, hw, ht⟩
  rcases hpc with ⟨rest, hpc⟩ | ⟨f, rest, hpc, hf⟩
  · refine hr.put hwaiter ⟨hdistinct, honce, hsettled, fun _ => hactive, ?_, ?_, ?_, ?_, ?_⟩ ?_
    all_goals simp [hpc]
  · refine hr.put hwaiter ⟨hdistinct, honce, hsettled, fun _ => hactive, ?_, ?_, ?_, ?_, ?_⟩ ?_
    all_goals simp [hpc, hf]

/-- The event of its waiter has moved, or its list was taken. -/
theorem Runs.event (hr : Runs s n G ahead gone) (hw : s.waiters G.waiter = some w) (w' : Waiter)
    (hsteady : Event.Steady w'.event) (hcls : w'.cls = w.cls) (hpc : w'.event.pc = w.event.pc)
    (hsh : Shrinks w.event.locks w'.event.locks) {ahead' gone' : List Fid}
    (ht : Tracks s.toTable G w' ahead' gone') :
    Runs (s.set_waiter G.waiter w') n G ahead' gone' := by
  refine ⟨?_, ⟨w', Function.update_self _ _ _, ?_⟩, hr.allocated, hr.mine⟩
  · refine hr.inv.table hr.inv.running hr.inv.lists (fun wid W hW => ?_) (fun wid W hW => ?_)
      fun n' G' hG' hgood => ?_
    · rcases eq_or_ne wid G.waiter with rfl | hne
      · rw [show s.waiters G.waiter = some W from hW, Option.some.injEq] at hw
        refine ⟨w', Function.update_self _ _ _, ?_, ?_⟩
        · rw [hpc, hw]
        · rw [hw]
          exact hsh
      · exact ⟨W, (Function.update_of_ne hne _ _).trans hW, rfl,
          shrinks_of_plain (Plain.refl _) rfl⟩
    · rcases update_some_cases hW with ⟨rfl, rfl⟩ | ⟨_, hold⟩
      · refine ⟨hr.allocated, ⟨hsteady, ?_⟩, Or.inl ⟨w, hw⟩⟩
        rw [hcls]
        exact (hr.inv.waiters _ w hw).2
      · exact ⟨hr.inv.allocated wid W hold, hr.inv.waiters wid W hold, Or.inl ⟨W, hold⟩⟩
    · refine Good.set_waiter (s := s) hgood (fun ha => ?_) w'
      rcases update_some_cases hG' with ⟨_, rfl⟩ | ⟨hne, hold⟩
      · cases ha
      · exact hr.mine n' G' hne hold ha
  · exact ht.congr (fun _ => rfl) (fun _ => rfl) rfl rfl

/-- A generator that is over leaves the lists of its futures. -/
theorem Runs.finish (hr : Runs s n G ahead gone) (pc : Pc) (hactive : pc.active = false)
    (hcreated : pc ≠ .created) (hreturned : pc = .returned → ∀ f ∈ G.fs, f ∈ G.yielded)
    (hraised : ∀ e, pc = .raised e → ∃ k, e = .thrown (some (.other k))) :
    Inv (s.finish n G pc) := by
  obtain ⟨w, hw, ht⟩ := hr.tracks
  obtain ⟨honce, hsettled⟩ := ht.yielded
  have hle : ∀ f, G.fs.count f ≤ (s.futs f)._waiters.count G.waiter :=
    fun f => (ht.installed f).ge
  obtain ⟨hall, hrest⟩ := uninstall_eq hle
  have heq : s.finish n G pc =
      { s.set_gen n { G with pc := pc } with futs := (uninstall G.waiter G.fs s.futs).1 } := by
    unfold St.finish
    simp only [hall, if_true]
    rfl
  have hi : Inv (s.set_gen n { G with pc := pc }) := by
    refine hr.put rfl ⟨hr.distinct.2, honce, hsettled, ?_, ?_, ?_, ?_, hreturned, hraised⟩ ?_
    · intro ha
      rw [show pc.active = true from ha] at hactive
      cases hactive
    · rintro rfl
      cases hactive
    · exact fun h => absurd h hcreated
    · rintro f rest rfl
      cases hactive
    · rintro rfl
      cases hactive
  rw [heq]
  generalize (uninstall G.waiter G.fs s.futs).1 = futs at hrest
  refine hi.table (fun f hf => ?_) (fun f w' hw' => ?_) (fun w W hW => ?_) (fun w W hW => ?_)
    fun n' G' hG' hgood => ?_
  · exact (hrest f).1.trans (hi.running f hf)
  · rcases eq_or_ne w' G.waiter with rfl | hne
    · exact hr.allocated
    · -- a waiter that is still listed was listed before
      have hmem : w' ∈ (futs f)._waiters := hw'
      rw [← List.count_pos_iff, (hrest f).2 w' hne, List.count_pos_iff] at hmem
      exact hi.lists f w' hmem
  · exact ⟨W, hW, rfl, shrinks_of_plain (Plain.refl _) rfl⟩
  · exact ⟨hi.allocated w W hW, hi.waiters w W hW, Or.inl ⟨W, hW⟩⟩
  · have hstate : ∀ f, (futs f)._state.settled = (s.futs f)._state.settled := by
      intro f
      rw [(hrest f).1]
    refine hgood.congr (fun f hf => (hstate f).trans hf) fun ha hlt W hW ht' =>
      ⟨hlt, W, hW, ht'.congr hstate (fun f => ?_) rfl rfl⟩
    -- the other generators keep their waiters
    rcases update_some_cases hG' with ⟨_, rfl⟩ | ⟨hne, hold⟩
    · rw [show pc.active = true from ha] at hactive
      cases hactive
    · exact (hrest f).2 G'.waiter (hr.mine n' G' hne hold ha)

/-! ## A generator that waits -/

/-- `g` is suspended in the generator `n`, which nobody was in. -/
theorem called_cases (hcalls : ∀ g, s.calls g ≠ some n) {g' : Gid} {n' : Nat}
    (hn' : Function.update s.calls g (some n) g' = some n') :
    (g' = g ∧ n' = n) ∨ (g' ≠ g ∧ n' ≠ n ∧ s.calls g' = some n') := by
  rcases update_some_cases hn' with h | ⟨hne, hold⟩
  · exact Or.inl h
  · exact Or.inr ⟨hne, fun h => hcalls g' (h ▸ hold), hold⟩

theorem Runs.block_callers (hr : Runs s n G [] G.yielded) (hg : s.calls g = none)
    (hw : s.waiters G.waiter = some w) {e : Event.St} {sem : Sid}
    (hpc : e.pc = Function.update w.event.pc g (.waiting sem)) (hm : Muted e.locks g) :
    Callers { (s.set_waiter G.waiter { w with event := e }).set_gen n { G with pc := .waiting } with
      calls := Function.update s.calls g (some n) } := by
  have hgne : ∀ {g' : Gid} {n' : Nat}, s.calls g' = some n' → g' ≠ g := by
    rintro g' n' hn' rfl
    rw [hg] at hn'
    cases hn'
  refine ⟨fun wid W g' hW hbusy => ?_, fun g' n' hn' => ?_, fun n' G' hG' hwaiting => ?_,
    fun g' g'' n' hn' hn'' => ?_⟩
  · rcases update_some_cases hW with ⟨rfl, rfl⟩ | ⟨_, hold⟩
    · -- nobody but `g` is in the event
      have heq : g' = g := by
        by_contra hne
        apply hbusy
        show e.pc g' = .free
        rw [hpc, Function.update_of_ne hne]
        exact hr.free hw g'
      subst heq
      exact ⟨n, _, Function.update_self _ _ _, Function.update_self _ _ _, rfl, rfl⟩
    · obtain ⟨n', G', hn', hG', hrest⟩ := hr.inv.inside wid W g' hold hbusy
      have hne : n' ≠ n := fun h => hr.uncalled g' (h ▸ hn')
      rw [set_gen_other s _ hne] at hG'
      exact ⟨n', G', (Function.update_of_ne (hgne hn') _ _).trans hn',
        (Function.update_of_ne hne _ _).trans hG', hrest⟩
  · rcases called_cases hr.uncalled hn' with ⟨rfl, rfl⟩ | ⟨_, hne, hold⟩
    · refine ⟨_, _, sem, Function.update_self _ _ _, rfl, Function.update_self _ _ _, ?_, hm⟩
      show e.pc g' = .waiting sem
      rw [hpc]
      exact Function.update_self _ _ _
    · obtain ⟨G', W, sem', hG', hwaiting, hW, hrest⟩ := hr.inv.calls g' n' hold
      rw [set_gen_other s _ hne] at hG'
      have hmine : G'.waiter ≠ G.waiter := hr.mine n' G' hne hG' (Gen.at_waiting hwaiting).1
      exact ⟨G', W, sem', (Function.update_of_ne hne _ _).trans hG', hwaiting,
        (Function.update_of_ne hmine _ _).trans hW, hrest⟩
  · rcases update_some_cases hG' with ⟨rfl, _⟩ | ⟨hne, hold⟩
    · exact ⟨g, Function.update_self _ _ _⟩
    · obtain ⟨g', hn'⟩ := hr.inv.caller n' G' ((set_gen_other s _ hne).trans hold) hwaiting
      exact ⟨g', (Function.update_of_ne (hgne hn') _ _).trans hn'⟩
  · rcases called_cases hr.uncalled hn' with ⟨rfl, rfl⟩ | ⟨_, hne, hold⟩
    · rcases called_cases hr.uncalled hn'' with ⟨h, _⟩ | ⟨_, hne, _⟩
      · exact h.symm
      · exact absurd rfl hne
    · rcases called_cases hr.uncalled hn'' with ⟨_, h⟩ | ⟨_, _, hold'⟩
      · exact absurd h hne
      · exact hr.inv.single g' g'' n' hold hold'

/-- The caller of `next` is suspended in the generator. -/
theorem Runs.block (hr : Runs s n G [] G.yielded) (hg : s.calls g = none)
    (hw : s.waiters G.waiter = some w) {e : Event.St} {sem : Sid} (hs : Event.Steady e)
    (hpc : e.pc = Function.update w.event.pc g (.waiting sem)) (hflag : e.flag = w.event.flag)
    (hm : Muted e.locks g) :
    Inv { (s.set_waiter G.waiter { w with event := e }).set_gen n { G with pc := .waiting } with
      calls := Function.update s.calls g (some n) } := by
  obtain ⟨w₀, hw₀, ht⟩ := hr.tracks
  rw [hw, Option.some.injEq] at hw₀
  subst hw₀
  obtain ⟨honce, hsettled⟩ := ht.yielded
  refine ⟨hr.block_callers hg hw hpc hm, hr.inv.running, hr.inv.lists, fun wid W hW => ?_,
    fun wid W hW => ?_, fun n' G' hG' => ?_, ?_⟩
  · rcases update_some_cases hW with ⟨rfl, _⟩ | ⟨_, hold⟩
    · exact hr.allocated
    · exact hr.inv.allocated wid W hold
  · rcases update_some_cases hW with ⟨_, rfl⟩ | ⟨_, hold⟩
    · exact ⟨hs, (hr.inv.waiters _ w hw).2⟩
    · exact hr.inv.waiters wid W hold
  · rcases update_some_cases hG' with ⟨rfl, rfl⟩ | ⟨hne, hold⟩
    · refine ⟨hr.distinct.1, hr.distinct.2, honce, hsettled, fun _ => ?_, ?_, ?_, ?_, ?_, ?_⟩
      · exact ⟨hr.allocated, _, Function.update_self _ _ _,
          Tracks.congr (G := { G with pc := .waiting }) ⟨ht.installed, ht.nodup, ht.settled,
            ht.pending, ht.flag⟩ (fun _ => rfl) (fun _ => rfl) rfl hflag⟩
      all_goals simp
    · obtain ⟨hlt, hgood⟩ := hr.inv.gens n' G' ((set_gen_other s _ hne).trans hold)
      exact ⟨hlt, Good.set_waiter (s := s) hgood (hr.mine n' G' hne hold) _⟩
  · -- among the others it was closed
    have hown := hr.inv.own.update (G := { G with pc := .waiting }) (n := n)
      fun _ n' G' hne hG' => hr.mine n' G' hne ((set_gen_other s _ hne).symm.trans hG')
    rw [show (s.set_gen n { G with pc := .closed }).gens =
      Function.update s.gens n (some { G with pc := .closed }) from rfl,
      Function.update_idem] at hown
    exact hown

/-- The event of a waiter has moved, and nobody has left it. -/
theorem Inv.turned (hi : Inv s) {wid : Wid} (hw : s.waiters wid = some w) {e : Event.St}
    (hs : Event.Steady e) (hpc : e.pc = w.event.pc) (hsh : Shrinks w.event.locks e.locks)
    (hflag : e.flag = w.event.flag) : Inv (s.set_waiter wid { w with event := e }) := by
  have hwaiter : ∀ {wid' : Wid} {W : Waiter}, s.waiters wid' = some W → ∃ W',
      (s.set_waiter wid { w with event := e }).waiters wid' = some W' ∧
        W'.event.pc = W.event.pc ∧ Shrinks W.event.locks W'.event.locks ∧
        W'.finished_futures = W.finished_futures ∧ W'.event.flag = W.event.flag := by
    intro wid' W hW
    rcases eq_or_ne wid' wid with rfl | hne
    · rw [hw, Option.some.injEq] at hW
      subst hW
      exact ⟨_, Function.update_self _ _ _, hpc, hsh, rfl, hflag⟩
    · exact ⟨W, (Function.update_of_ne hne _ _).trans hW, rfl,
        shrinks_of_plain (Plain.refl _) rfl, rfl, rfl⟩
  refine hi.table hi.running hi.lists (fun wid' W hW => ?_) (fun wid' W hW => ?_)
    fun n G hG hgood => ?_
  · obtain ⟨W', hW', hpc', hsh', _⟩ := hwaiter hW
    exact ⟨W', hW', hpc', hsh'⟩
  · rcases update_some_cases hW with ⟨rfl, rfl⟩ | ⟨_, hold⟩
    · exact ⟨hi.allocated wid' w hw, ⟨hs, (hi.waiters wid' w hw).2⟩, Or.inl ⟨w, hw⟩⟩
    · exact ⟨hi.allocated wid' W hold, hi.waiters wid' W hold, Or.inl ⟨W, hold⟩⟩
  · refine hgood.congr (fun f hf => hf) fun _ hlt W hW ht => ?_
    obtain ⟨W', hW', _, _, hfinished, hflag'⟩ := hwaiter hW
    exact ⟨hlt, W', hW', ht.congr (fun _ => rfl) (fun _ => rfl) hfinished hflag'⟩

/-- A generator that waits has a waiter of its own, and all is yielded that it took. -/
theorem Inv.waits (hi : Inv s) (hn : s.calls g = some n) (hG : s.gens n = some G)
    (hw : s.waiters G.waiter = some w) :
    G.waiter < s.next ∧ Tracks s.toTable G w [] G.yielded ∧
      ∀ n' G', n' ≠ n → s.gens n' = some G' → G'.pc.active = true → G'.waiter ≠ G.waiter := by
  obtain ⟨G₀, _, _, hG₀, hwaiting, _⟩ := hi.calls g n hn
  rw [hG, Option.some.injEq] at hG₀
  subst hG₀
  obtain ⟨hactive, hahead, hgone⟩ := Gen.at_waiting hwaiting
  obtain ⟨hallocated, w₁, hw₁, ht⟩ := (hi.gens n G hG).2.active hactive
  rw [hw, Option.some.injEq] at hw₁
  subst hw₁
  rw [hahead, hgone] at ht
  exact ⟨hallocated, ht,
    fun n' G' hne hG' ha heq => hne (hi.own n' n G' G hG' hG ha hactive heq)⟩

theorem Inv.left_callers (hi : Inv s) (hn : s.calls g = some n) (hG : s.gens n = some G)
    (hw : s.waiters G.waiter = some w) {e : Event.St}
    (hpc : e.pc = Function.update w.event.pc g .free) :
    Callers { (s.set_waiter G.waiter { w with event := e }).set_gen n { G with pc := .closed } with
      calls := Function.update s.calls g none } := by
  obtain ⟨_, _, hmine⟩ := hi.waits hn hG hw
  have hcalls : ∀ {g' n' : Nat}, Function.update s.calls g none g' = some n' →
      g' ≠ g ∧ n' ≠ n ∧ s.calls g' = some n' := by
    intro g' n' hn'
    rcases eq_or_ne g' g with rfl | hne
    · rw [Function.update_self] at hn'
      cases hn'
    · rw [Function.update_of_ne hne] at hn'
      refine ⟨hne, ?_, hn'⟩
      rintro rfl
      exact hne (hi.single g' g n' hn' hn)
  refine ⟨fun wid W g' hW hbusy => ?_, fun g' n' hn' => ?_, fun n' G' hG' hwaiting => ?_,
    fun g' g'' n' hn' hn'' => hi.single g' g'' n' (hcalls hn').2.2 (hcalls hn'').2.2⟩
  · -- whoever else is in an event is suspended in another generator
    have hold : ∃ W', s.waiters wid = some W' ∧ W'.event.pc g' ≠ .free ∧ g' ≠ g := by
      rcases update_some_cases hW with ⟨rfl, rfl⟩ | ⟨hne, hold⟩
      · have hne : g' ≠ g := by
          rintro rfl
          apply hbusy
          show e.pc g' = .free
          rw [hpc]
          exact Function.update_self _ _ _
        refine ⟨w, hw, ?_, hne⟩
        rw [show e.pc g' = w.event.pc g' by rw [hpc, Function.update_of_ne hne]] at hbusy
        exact hbusy
      · refine ⟨W, hold, hbusy, ?_⟩
        rintro rfl
        obtain ⟨n', G', hn', hG', _, hwaiter⟩ := hi.inside wid W g' hold hbusy
        rw [hn, Option.some.injEq] at hn'
        rw [← hn', hG, Option.some.injEq] at hG'
        exact hne (hwaiter.symm.trans (congrArg Gen.waiter hG'.symm))
    obtain ⟨W', hW', hbusy', hne⟩ := hold
    obtain ⟨n', G', hn', hG', hrest⟩ := hi.inside wid W' g' hW' hbusy'
    have hnne : n' ≠ n := by
      rintro rfl
      exact hne (hi.single g' g n' hn' hn)
    exact ⟨n', G', (Function.update_of_ne hne _ _).trans hn',
      (Function.update_of_ne hnne _ _).trans hG', hrest⟩
  · obtain ⟨_, hne, hold⟩ := hcalls hn'
    obtain ⟨G', W, sem', hG', hwaiting, hW, hrest⟩ := hi.calls g' n' hold
    have hwne : G'.waiter ≠ G.waiter := hmine n' G' hne hG' (Gen.at_waiting hwaiting).1
    exact ⟨G', W, sem', (Function.update_of_ne hne _ _).trans hG', hwaiting,
      (Function.update_of_ne hwne _ _).trans hW, hrest⟩
  · rcases update_some_cases hG' with ⟨_, rfl⟩ | ⟨hne, hold⟩
    · cases hwaiting
    · obtain ⟨g', hn'⟩ := hi.caller n' G' hold hwaiting
      have hgne : g' ≠ g := by
        rintro rfl
        rw [hn, Option.some.injEq] at hn'
        exact hne hn'.symm
      exact ⟨g', (Function.update_of_ne hgne _ _).trans hn'⟩

/-- The greenlet that is suspended in a generator leaves its event. -/
theorem Inv.left (hi : Inv s) (hn : s.calls g = some n) (hG : s.gens n = some G)
    (hw : s.waiters G.waiter = some w) {e : Event.St} (hs : Event.Steady e)
    (hpc : e.pc = Function.update w.event.pc g .free) (hflag : e.flag = w.event.flag) :
    Runs { s.set_waiter G.waiter { w with event := e } with
      calls := Function.update s.calls g none } n { G with pc := .looping } [] G.yielded := by
  obtain ⟨hallocated, ht, hmine⟩ := hi.waits hn hG hw
  obtain ⟨hlt, hgood⟩ := hi.gens n G hG
  refine ⟨⟨hi.left_callers hn hG hw hpc, hi.running, hi.lists, fun wid W hW => ?_,
    fun wid W hW => ?_, fun n' G' hG' => ?_, hi.own.update (by rintro ⟨⟩)⟩, ?_, hallocated, hmine⟩
  · rcases update_some_cases hW with ⟨rfl, _⟩ | ⟨_, hold⟩
    · exact hallocated
    · exact hi.allocated wid W hold
  · rcases update_some_cases hW with ⟨_, rfl⟩ | ⟨_, hold⟩
    · exact ⟨hs, (hi.waiters _ w hw).2⟩
    · exact hi.waiters wid W hold
  · rcases update_some_cases hG' with ⟨rfl, rfl⟩ | ⟨hne, hold⟩
    · refine ⟨hlt, hgood.distinct, hgood.once, hgood.settled, ?_, ?_, ?_, ?_, ?_, ?_⟩
      · rintro ⟨⟩
      all_goals simp
    · exact ⟨(hi.gens n' G' hold).1,
        Good.set_waiter (s := s) (hi.gens n' G' hold).2 (hmine n' G' hne hold) _⟩
  · refine ⟨_, Function.update_self _ _ _, ?_⟩
    exact ⟨ht.installed, ht.nodup, ht.settled, ht.pending, by rw [hflag]; exact ht.flag⟩

end Running

end Jega.Futures.AsCompleted
