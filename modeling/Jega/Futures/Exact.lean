import Jega.Futures.Generators

/-!
# Jega.Futures.Exact — `as_completed` yields each future once

A generator whose event is set has something in the list that it takes, so it
yields at once; one whose event is clear has yielded all that is settled, and
sleeps.
-/

namespace Jega.Futures.AsCompleted

open Locks Waiting

variable {α ε : Type}

/-! ## Contract -/

/-- The event of the generator is set, and the greenlet in it has a permit and a
call of the loop that will give it. -/
def Woken (t : Table α ε) (g : Gid) (G : Gen) : Prop :=
  ∃ w sem, t.waiters G.waiter = some w ∧ w.event.flag = true ∧ w.event.pc g = .waiting sem ∧
    counters w.event.locks sem > 0 ∧ 0 < notifies w.event.locks sem

structure Exact (s : St α ε) (n : Nat) (G : Gen) : Prop where
  once : G.yielded.Nodup
  settled : ∀ f ∈ G.yielded, f ∈ G.fs ∧ (s.futs f)._state.settled = true
  all : G.pc = .returned → ∀ f ∈ G.fs, f ∈ G.yielded
  /-- It raises only what other code threw into it. -/
  raises : ∀ e, G.pc = .raised e → ∃ k, e = .thrown (some (.other k))
  /-- It does not stop anywhere else. -/
  resting : G.pc ≠ .looping
  /-- If there is something to yield, the greenlet that sleeps in it was told. -/
  told : G.pc = .waiting → ∃ g w, s.calls g = some n ∧ s.waiters G.waiter = some w ∧
    (∀ f, f ∈ w.finished_futures ↔
      f ∈ G.fs ∧ (s.futs f)._state.settled = true ∧ f ∉ G.yielded) ∧
    (w.finished_futures ≠ [] → Woken s.toTable g G)

/-- A generator that falls asleep has nothing to yield. -/
def Sleeps (s s' : St α ε) : Prop :=
  ∀ n G, s'.gens n = some G → G.pc = .waiting → s.gens n = some G ∨
    ∀ f ∈ G.fs, (s'.futs f)._state.settled = true → f ∈ G.yielded

/-! ## The loops -/

section Loops

variable {s s' : St α ε} {g : Gid} {n : Nat} {G G' : Gen} {w : Waiter} {ahead gone : List Fid}

/-- What the generator `n` does until it stops. -/
structure Stops (s s' : St α ε) (n : Nat) : Prop where
  inv : Inv s'
  others : ∀ n', n' ≠ n → s'.gens n' = s.gens n'
  rests : ∀ G, s'.gens n = some G → G.pc = .waiting →
    ∀ f ∈ G.fs, (s'.futs f)._state.settled = true → f ∈ G.yielded

theorem Stops.sleeps (h : Stops s s' n) : Sleeps s s' := by
  intro n' G hG hpc
  rcases eq_or_ne n' n with rfl | hne
  · exact Or.inr (h.rests G hG hpc)
  · rw [h.others n' hne] at hG
    exact Or.inl hG

theorem stops_set_gen (hi : Inv (s.set_gen n G)) (hpc : G.pc ≠ .waiting) :
    Stops s (s.set_gen n G) n := by
  refine ⟨hi, fun n' hne => Function.update_of_ne hne _ _, fun G' hG' hpc' => ?_⟩
  rcases update_some_cases hG' with ⟨_, rfl⟩ | ⟨hne, _⟩
  · exact absurd hpc' hpc
  · exact absurd rfl hne

/-- The state before may be another one with the same generators. -/
theorem Stops.of_gens {s₀ : St α ε} (h : Stops s s' n) (hgens : s₀.gens = s.gens) :
    Stops s₀ s' n := by
  refine ⟨h.inv, fun n' hne => ?_, h.rests⟩
  rw [hgens]
  exact h.others n' hne

theorem Runs.finishes (hr : Runs s n G ahead gone) (pc : Pc) (hactive : pc.active = false)
    (hcreated : pc ≠ .created) (hreturned : pc = .returned → ∀ f ∈ G.fs, f ∈ G.yielded)
    (hraised : ∀ e, pc = .raised e → ∃ k, e = .thrown (some (.other k))) :
    Stops s (s.finish n G pc) n := by
  have hi := hr.finish pc hactive hcreated hreturned hraised
  unfold St.finish at hi ⊢
  refine (stops_set_gen hi ?_).of_gens rfl
  dsimp only
  split
  · rintro rfl
    cases hactive
  · simp

/-- Its locals have changed. -/
theorem Runs.change (hr : Runs s n G ahead gone) (G' : Gen) (hfs : G'.fs = G.fs)
    (hwaiter : G'.waiter = G.waiter) {ahead' gone' : List Fid}
    (ht : ∀ w, Tracks s.toTable G w ahead gone → Tracks s.toTable G' w ahead' gone') :
    Runs s n G' ahead' gone' := by
  obtain ⟨w, hw, htracks⟩ := hr.tracks
  refine ⟨?_, ⟨w, ?_, ht w htracks⟩, ?_, fun n' G'' hne hG'' ha => ?_⟩
  · obtain ⟨honce, hsettled⟩ := (ht w htracks).yielded
    have hdistinct : G'.fs.Nodup := hfs ▸ hr.distinct.2
    have hgood : Good s.toTable { G' with pc := .closed } := by
      refine ⟨hdistinct, honce, hsettled, ?_, ?_, ?_, ?_, ?_, ?_⟩
      · rintro ⟨⟩
      all_goals simp
    exact hr.put hwaiter hgood (by simp)
  · rw [hwaiter]
    exact hw
  · rw [hwaiter]
    exact hr.allocated
  · rw [hwaiter]
    exact hr.mine n' G'' hne hG'' ha

theorem Runs.with_pc (hr : Runs s n G ahead gone) (pc : Pc) :
    Runs s n { G with pc := pc } ahead gone := by
  refine hr.change { G with pc := pc } rfl rfl fun _ ht => ?_
  exact ⟨ht.installed, ht.nodup, ht.settled, ht.pending, ht.flag⟩

/-- The first future of the list that the generator has taken. -/
theorem Runs.yields {f : Fid} {rest : List Fid} (hr : Runs s n G (f :: rest) G.yielded)
    (again : St α ε → Gen → St α ε) : Stops s (s.second_loop again n G (f :: rest)) n := by
  obtain ⟨w, hw, ht⟩ := hr.tracks
  refine stops_set_gen (hr.stop rfl rfl hw ht.yield_second (Or.inr ⟨f, rest, rfl, ?_⟩)) (by simp)
  exact List.mem_append_right _ List.mem_cons_self

/-- A wait that did not fail ends with the event set, and the list has a future. -/
theorem Runs.waited (hr : Runs s n G [] G.yielded) (hw : s.waiters G.waiter = some w)
    (hflag : w.event.flag = true) (g : Gid) {res : Event.Result}
    (hres : ∀ e, res ≠ .outcome (.NULL e)) (again : St α ε → Gen → St α ε) :
    Stops s (s.waited again g n G res) n := by
  obtain ⟨w₀, hw₀, ht⟩ := hr.tracks
  rw [hw, Option.some.injEq] at hw₀
  subst hw₀
  obtain ⟨hsteady, hcls⟩ := hr.inv.waiters _ w hw
  obtain ⟨hcleared, hsh, hclear, hpc⟩ := Event.clear_steady hsteady (hr.free hw) g
  have heq : s.waited again g n G res =
      St.second_loop again (s.set_waiter G.waiter { w with
        finished_futures := [], event := Event.EventObject_clear w.event g }) n G
        w.finished_futures := by
    unfold St.waited
    split
    next e => exact absurd rfl (hres e)
    · simp only [hw]
  have htaken := hr.event hw { w with
    finished_futures := [], event := Event.EventObject_clear w.event g } hcleared rfl hpc hsh
    (ht.take hclear)
  have hsome : w.finished_futures ≠ [] := ht.flag.1 hflag
  rw [heq]
  cases hfinished : w.finished_futures with
  | nil => exact absurd hfinished hsome
  | cons f rest =>
    rw [hfinished] at htaken
    exact (htaken.yields again).of_gens rfl

/-- `while pending` -/
theorem Runs.while_pending (hr : Runs s n G [] G.yielded) (hg : s.calls g = none) (k : Nat) :
    Stops s (St.while_pending g n (k + 1) s G) n := by
  obtain ⟨w, hw, ht⟩ := hr.tracks
  obtain ⟨hsteady, hcls⟩ := hr.inv.waiters _ w hw
  have hfree := hr.free hw
  unfold St.while_pending
  split
  next hempty =>
    -- all futures that are not in `pending` were yielded
    refine hr.finishes .returned rfl (by simp) (fun _ f hf => ?_) (by simp)
    by_contra hnew
    have hpending := (ht.pending f).2 ⟨hf, hnew⟩
    rw [hempty] at hpending
    exact absurd hpending (Finset.notMem_empty f)
  next =>
    simp only [hw]
    cases hflag : w.event.flag with
    | true =>
      -- the event was set while the caller held a future
      obtain ⟨hs, hsh, hset, hpc, hended⟩ :=
        Event.wait_set_steady hsteady hfree hflag g 0
      have hdrop : (Event.event_wait w.event g 0).ended.drop w.event.ended.length =
          [(g, .Py_None)] := by
        rw [hended, List.drop_left]
      have htracks : Tracks s.toTable G { w with event := Event.event_wait w.event g 0 } []
          G.yielded :=
        ht.congr (fun _ => rfl) (fun _ => rfl) rfl (hset.trans hflag.symm)
      simp only [hdrop]
      have hrun := hr.event hw { w with event := Event.event_wait w.event g 0 } hs rfl hpc hsh
        htracks
      have hw' : (s.set_waiter G.waiter { w with event := Event.event_wait w.event g 0 }).waiters
          G.waiter = some { w with event := Event.event_wait w.event g 0 } :=
        Function.update_self _ _ _
      exact (hrun.waited hw' hset g (by simp) _).of_gens rfl
    | false =>
      -- the caller is suspended
      obtain ⟨hs, hclear, hended, hpc, hmuted⟩ :=
        Event.event_wait_steady hsteady (hfree g) hflag 0
      have hdrop : (Event.event_wait w.event g 0).ended.drop w.event.ended.length = [] := by
        rw [hended, List.drop_length]
      simp only [hdrop]
      refine ⟨hr.block hg hw hs hpc (hclear.trans hflag.symm) (hmuted rfl),
        fun n' hne => Function.update_of_ne hne _ _, fun G' hG' _ f hf hsettled => ?_⟩
      rcases update_some_cases hG' with ⟨_, rfl⟩ | ⟨hne, _⟩
      · -- nothing is in the list of a clear event
        have hnone : w.finished_futures = [] := by
          by_contra hsome
          have hset := ht.flag.2 hsome
          rw [hflag] at hset
          cases hset
        have hmem := (ht.settled f).2 ⟨hf, hsettled⟩
        rw [hnone, List.append_nil, List.append_nil] at hmem
        exact hmem
      · exact absurd rfl hne

theorem Runs.second_loop (hr : Runs s n G ahead G.yielded) (hg : s.calls g = none) :
    Stops s (s.second_loop (St.while_pending g n St.rounds) n G ahead) n := by
  cases ahead with
  | nil => exact hr.while_pending hg 1
  | cons f rest => exact hr.yields _

theorem Runs.first_loop (hr : Runs s n G ahead (G.yielded ++ ahead)) (hg : s.calls g = none) :
    Stops s (s.first_loop g n G ahead) n := by
  cases ahead with
  | nil =>
    rw [List.append_nil] at hr
    exact (hr.with_pc .looping).while_pending hg 1
  | cons f rest =>
    obtain ⟨w, hw, ht⟩ := hr.tracks
    exact stops_set_gen (hr.stop rfl rfl hw ht.yield_first (Or.inl ⟨rest, rfl⟩)) (by simp)

/-! ## Steps -/

theorem Inv.yielded (hi : Inv s) (hG : s.gens n = some G) {f : Fid} {rest : List Fid}
    (hpc : G.pc = .yielding f rest) (hg : s.calls g = none) :
    Stops s (s.yielded g n G f rest) n := by
  obtain ⟨hactive, hahead, hgone⟩ := Gen.at_yielding hpc
  have hr := hi.enter hG hactive (by simp [hpc])
  have hheld : f ∈ G.yielded := (hi.gens n G hG).2.held f rest hpc
  rw [hahead, hgone] at hr
  obtain ⟨w, hw, ht⟩ := hr.tracks
  unfold St.yielded
  rw [if_pos (ht.held hheld)]
  have hremoved : Runs s n { G with pending := G.pending.erase f, pc := .looping } rest
      G.yielded :=
    hr.change { G with pending := G.pending.erase f, pc := .looping } rfl rfl fun _ ht =>
      ht.remove hheld
  exact hremoved.second_loop hg

/-- The lists have no waiter that is not allocated yet. -/
theorem Inv.unlisted (hi : Inv s) (f : Fid) : (s.futs f)._waiters.count s.next = 0 := by
  rw [List.count_eq_zero]
  exact fun h => absurd (hi.lists f _ h) (Nat.lt_irrefl _)

/-- The new waiter of a generator is in the lists of its futures. -/
theorem Inv.tracks_new (hi : Inv s) (hyielded : G.yielded = []) {order : List Fid}
    (hnodup : order.Nodup) (horder : order.toFinset = s.done G.fs) :
    Tracks (s.add_waiter G.fs ._AsCompletedWaiter)
      { G with waiter := s.next, pending := G.fs.toFinset \ s.done G.fs }
      (.new ._AsCompletedWaiter) order (G.yielded ++ order) := by
  refine ⟨fun f => ?_, ?_, fun f => ?_, fun f => ?_, ?_⟩
  · simp only [add_waiter_futs, List.count_append, List.count_replicate_self, hi.unlisted,
      Nat.zero_add]
  · show (G.yielded ++ order ++ []).Nodup
    rw [hyielded, List.nil_append, List.append_nil]
    exact hnodup
  · -- `order` is `finished`, the futures that are settled already
    show f ∈ G.yielded ++ order ++ [] ↔ f ∈ G.fs ∧
      ((s.add_waiter G.fs ._AsCompletedWaiter).futs f)._state.settled = true
    rw [hyielded, List.nil_append, List.append_nil, add_waiter_state, ← List.mem_toFinset, horder,
      mem_done]
  · show f ∈ G.fs.toFinset \ s.done G.fs ↔ f ∈ G.fs ∧ f ∉ G.yielded ++ order
    rw [hyielded, List.nil_append, Finset.mem_sdiff, List.mem_toFinset, ← horder, List.mem_toFinset]
  · show Event.init.flag = true ↔ ([] : List Fid) ≠ []
    simp [Event.init]

/-- The other generators have other waiters. -/
theorem Inv.add_waiter (hi : Inv s) (fs : List Fid) :
    Inv { s with toTable := s.add_waiter fs ._AsCompletedWaiter } := by
  have hstate := add_waiter_state s.toTable fs ._AsCompletedWaiter
  refine hi.table (fun f hf => ?_) (fun f w hw => ?_) (fun w W hW => ?_) (fun w W hW => ?_)
    fun n G _ hgood => ?_
  · exact (hstate f).trans (hi.running f hf)
  · simp only [add_waiter_futs, List.mem_append, List.mem_replicate] at hw
    rcases hw with hw | ⟨_, rfl⟩
    · exact Nat.lt_succ_of_lt (hi.lists f w hw)
    · exact Nat.lt_succ_self _
  · refine ⟨W, ?_, rfl, shrinks_of_plain (Plain.refl _) rfl⟩
    exact (Function.update_of_ne (Nat.ne_of_lt (hi.allocated w W hW)) _ _).trans hW
  · rcases update_some_cases hW with ⟨rfl, rfl⟩ | ⟨_, hold⟩
    · exact ⟨Nat.lt_succ_self _, ⟨Event.init_steady, rfl⟩, Or.inr fun _ => rfl⟩
    · exact ⟨Nat.lt_succ_of_lt (hi.allocated w W hold), hi.waiters w W hold, Or.inl ⟨W, hold⟩⟩
  · refine hgood.congr (fun f hf => ?_) fun _ hlt W hW ht => ⟨Nat.lt_succ_of_lt hlt, W, ?_, ?_⟩
    · rw [hstate f]
      exact hf
    · exact (Function.update_of_ne (Nat.ne_of_lt hlt) _ _).trans hW
    · refine ht.congr (fun f => by rw [hstate f]) (fun f => ?_) rfl rfl
      simp only [add_waiter_futs, List.count_append, List.count_replicate]
      have hne : s.next ≠ G.waiter := Nat.ne_of_gt hlt
      rw [if_neg (by simpa using hne), Nat.add_zero]

theorem Inv.begins (hi : Inv s) (hG : s.gens n = some G) (hpc : G.pc = .created)
    {order : List Fid} (hnodup : order.Nodup) (horder : order.toFinset = s.done G.fs) :
    Runs { s with toTable := s.add_waiter G.fs ._AsCompletedWaiter } n
      { G with waiter := s.next, pending := G.fs.toFinset \ s.done G.fs } order
      (G.yielded ++ order) := by
  obtain ⟨hlt, hgood⟩ := hi.gens n G hG
  -- while it runs, the others see it closed
  have hclosed : Inv (s.set_gen n { G with
      waiter := s.next, pending := G.fs.toFinset \ s.done G.fs, pc := .closed }) := by
    refine hi.put_gen (hi.uncalled hG (by simp [hpc])) hlt
      ⟨hgood.distinct, hgood.once, hgood.settled, ?_, ?_, ?_, ?_, ?_, ?_⟩ (by simp) ?_
    · rintro ⟨⟩
    · simp
    · simp
    · simp
    · simp
    · simp
    · rintro ⟨⟩
  refine ⟨hclosed.add_waiter G.fs, ⟨_, Function.update_self _ _ _,
    hi.tracks_new (hgood.created hpc) hnodup horder⟩, Nat.lt_succ_self _, fun n' G' _ hG' ha => ?_⟩
  obtain ⟨hlt', _⟩ := (hi.gens n' G' hG').2.active ha
  exact Nat.ne_of_lt hlt'

theorem Inv.begin (hi : Inv s) (hG : s.gens n = some G) (hpc : G.pc = .created)
    (hg : s.calls g = none) {order : List Fid} (hnodup : order.Nodup)
    (horder : order.toFinset = s.done G.fs) : Stops s (s.begin g n G order) n :=
  ((hi.begins hG hpc hnodup horder).first_loop hg).of_gens rfl

theorem next_stops (hi : Inv s) (hG : s.gens n = some G) (hg : s.calls g = none)
    {order : List Fid} (h : next s g n G order = some s') : Stops s s' n := by
  unfold next at h
  split at h
  next hpc =>
    obtain ⟨⟨hnodup, horder⟩, heq⟩ := Option.ite_none_right_eq_some.1 h
    cases heq
    exact hi.begin hG hpc hg hnodup horder
  next rest hpc =>
    cases h
    obtain ⟨hactive, hahead, hgone⟩ := Gen.at_first hpc
    have hr := hi.enter hG hactive (by simp [hpc])
    rw [hahead, hgone] at hr
    exact hr.first_loop hg
  next f rest hpc =>
    cases h
    exact hi.yielded hG hpc hg
  · cases h

theorem close_stops (hi : Inv s) (hG : s.gens n = some G) (h : close s n G = some s') :
    Stops s s' n := by
  have hclosed : G.pc.active = true → G.pc ≠ .waiting → Stops s (s.finish n G .closed) n :=
    fun hactive hpc => (hi.enter hG hactive hpc).finishes .closed rfl (by simp) (by simp) (by simp)
  unfold close at h
  split at h
  next hpc =>
    cases h
    obtain ⟨hlt, hgood⟩ := hi.gens n G hG
    refine stops_set_gen (hi.put_gen (hi.uncalled hG (by simp [hpc])) hlt hgood.close (by simp) ?_)
      (by simp)
    rintro ⟨⟩
  next hpc =>
    cases h
    exact hclosed (Gen.at_first hpc).1 (by simp [hpc])
  next hpc =>
    cases h
    exact hclosed (Gen.at_yielding hpc).1 (by simp [hpc])
  · cases h

/-- A new generator. -/
theorem Inv.as_completed (hi : Inv s) {fs : List Fid} (hfs : fs.Nodup) :
    Inv { s.set_gen s.next_gen ⟨fs, 0, ∅, .created, []⟩ with next_gen := s.next_gen + 1 } := by
  have hi' : Inv { s with next_gen := s.next_gen + 1 } := by
    refine ⟨⟨hi.inside, hi.calls, hi.caller, hi.single⟩, hi.running, hi.lists, hi.allocated,
      hi.waiters, fun n G hG => ?_, hi.own⟩
    obtain ⟨hlt, hgood⟩ := hi.gens n G hG
    exact ⟨Nat.lt_succ_of_lt hlt, hgood⟩
  refine hi'.put_gen (fun g hn => ?_) (Nat.lt_succ_self _) ?_ (by simp) ?_
  · obtain ⟨G, _, _, hG, _⟩ := hi.calls g _ hn
    exact absurd (hi.gens _ G hG).1 (Nat.lt_irrefl _)
  · refine ⟨hfs, List.nodup_nil, ?_, ?_, ?_, ?_, ?_, ?_, ?_⟩
    · intro f hf
      cases hf
    · rintro ⟨⟩
    all_goals simp
  · rintro ⟨⟩

/-- A turn of the loop, as an event sees it. -/
theorem settle_stops (hi : Inv s) {wid : Wid} (hw : s.waiters wid = some w) {e : Event.St}
    (hs : Event.Steady e) (hsh : Shrinks w.event.locks e.locks) (hflag : e.flag = w.event.flag)
    (hturned : Event.Turned w.event e) :
    Inv (s.settle wid w e) ∧ Sleeps s (s.settle wid w e) := by
  cases hturned with
  | quiet hpc hended =>
    have heq : s.settle wid w e = s.set_waiter wid { w with event := e } := by
      simp [St.settle, hended]
    rw [heq]
    exact ⟨hi.turned hw hs hpc hsh hflag, fun n G hG _ => Or.inl hG⟩
  | @ended g sem res hwaiting hpc hended hres =>
    have hbusy : w.event.pc g ≠ .free := by
      rw [hwaiting]
      simp
    obtain ⟨n, G, hn, hG, hGpc, hwaiter⟩ := hi.inside wid w g hw hbusy
    subst hwaiter
    have heq : s.settle G.waiter w e =
        St.waited (St.while_pending g n St.rounds)
          { s.set_waiter G.waiter { w with event := e } with
            calls := Function.update s.calls g none } g n { G with pc := .looping }
          (.outcome res) := by
      unfold St.settle
      have hn' : (s.set_waiter G.waiter { w with event := e }).calls g = some n := hn
      have hG' : (s.set_waiter G.waiter { w with event := e }).gens n = some G := hG
      simp only [hended, List.drop_left, hn', hG']
      rfl
    have hrun := hi.left hn hG hw hs hpc hflag
    have hw' : { s.set_waiter G.waiter { w with event := e } with
        calls := Function.update s.calls g none }.waiters G.waiter =
          some { w with event := e } := Function.update_self _ _ _
    rw [heq]
    cases hres with
    | set hset =>
      -- the event was set, and nobody but the generator clears it
      have hres : ∀ e, Event.Result.outcome .Py_True ≠ .outcome (.NULL e) := by simp
      have hstops := hrun.waited hw' (hflag.trans hset) g hres (St.while_pending g n St.rounds)
      exact ⟨hstops.inv, (hstops.of_gens rfl).sleeps⟩
    | expired hm =>
      -- it waits without a timeout
      obtain ⟨G', w', _, hG', _, hw'', _, hmuted⟩ := hi.calls g n hn
      rw [hG, Option.some.injEq] at hG'
      subst hG'
      rw [hw, Option.some.injEq] at hw''
      subst hw''
      exact absurd hmuted hm
    | thrown k =>
      have hstops := hrun.finishes (.raised (.thrown (some (.other k)))) rfl (by simp) (by simp)
        fun e he => ⟨k, by simpa using he.symm⟩
      exact ⟨hstops.inv, (hstops.of_gens rfl).sleeps⟩

theorem sleeps_same (hgens : s'.gens = s.gens) : Sleeps s s' := by
  intro n G hG _
  rw [hgens] at hG
  exact Or.inl hG

theorem Inv.completed (hi : Inv s) (hg : s.calls g = none) {t : Table α ε} {future : Fid}
    (hs : Tells s.toTable t future g) : Inv (s.completed future t) :=
  hi.tells hg hs (running_update hi.running hs.others fun h => by cases h)

theorem Inv.began (hi : Inv s) (hg : s.calls g = none) (future : Fid) :
    Inv (s.began future (s.toTable.set_running_or_notify_cancel future g)) := by
  rcases set_running_cases s.toTable future g with
    ⟨_, t, ht, hstate, hothers, hq⟩ | ⟨_, t, ht, hs⟩ | ⟨e, he⟩
  · rw [ht]
    exact hi.quiet hq (running_update hi.running hothers fun _ => hstate)
  · have htells := set_running_tells hs ht
    rw [ht]
    exact hi.completed hg htells
  · rw [he]
    have hq : Quiet s.toTable s.toTable := ⟨fun _ => rfl, fun _ => rfl, rfl, rfl⟩
    exact hi.quiet hq (running_update hi.running (fun _ _ => rfl) fun h => by cases h)

/-- The future of a worker that runs is not settled. -/
theorem Inv.unsettled (hi : Inv s) {future : Fid} (h : s.workers future = .running) :
    (s.futs future)._state.settled = false := by
  rw [hi.running future h]
  rfl

theorem step_inv (s : St α ε) (a : Act α ε) (s' : St α ε) (h : step s a = some s')
    (hi : Inv s) : Inv s' ∧ Sleeps s s' := by
  cases a with
  | cancel g future =>
    obtain ⟨_, heq⟩ := Option.ite_none_right_eq_some.1 h
    cases heq
    refine ⟨hi.quiet (cancel_quiet s.toTable future) fun f hf => ?_, sleeps_same rfl⟩
    exact cancel_running s.toTable future f (hi.running f hf)
  | set_running_or_notify_cancel g future =>
    obtain ⟨⟨hg, _⟩, heq⟩ := Option.ite_none_right_eq_some.1 h
    cases heq
    refine ⟨hi.began hg future, sleeps_same ?_⟩
    unfold St.began
    split <;> rfl
  | set_result g future result =>
    obtain ⟨⟨hg, hworker⟩, heq⟩ := Option.ite_none_right_eq_some.1 h
    cases heq
    exact ⟨hi.completed hg (set_result_tells (hi.unsettled hworker) result), sleeps_same rfl⟩
  | set_exception g future exception =>
    obtain ⟨⟨hg, hworker⟩, heq⟩ := Option.ite_none_right_eq_some.1 h
    cases heq
    exact ⟨hi.completed hg (set_exception_tells (hi.unsettled hworker) exception),
      sleeps_same rfl⟩
  | as_completed fs =>
    obtain ⟨hfs, heq⟩ := Option.ite_none_right_eq_some.1 h
    cases heq
    refine ⟨hi.as_completed hfs, fun n G hG hpc => ?_⟩
    rcases update_some_cases hG with ⟨_, rfl⟩ | ⟨_, hold⟩
    · cases hpc
    · exact Or.inl hold
  | next g n order =>
    obtain ⟨hg, hbind⟩ := Option.ite_none_right_eq_some.1 h
    obtain ⟨G, hG, hnext⟩ := Option.bind_eq_some_iff.1 hbind
    have hstops := next_stops hi hG hg hnext
    exact ⟨hstops.inv, hstops.sleeps⟩
  | close n =>
    obtain ⟨G, hG, hclose⟩ := Option.bind_eq_some_iff.1 h
    have hstops := close_stops hi hG hclose
    exact ⟨hstops.inv, hstops.sleeps⟩
  | turn waiter a =>
    simp only [step] at h
    split at h
    · cases h
    next w hw =>
      obtain ⟨hpassive, hmap⟩ := Option.ite_none_right_eq_some.1 h
      obtain ⟨e, he, rfl⟩ := Option.map_eq_some_iff.1 hmap
      obtain ⟨hs, hsh, hflag, hturned⟩ :=
        Event.passive_steady (hi.waiters waiter w hw).1 hpassive he
      exact settle_stops hi hw hs hsh hflag hturned

/-- A generator that waits knows what it has not yielded, and was told of it. -/
theorem Inv.exact (hi : Inv s) (hG : s.gens n = some G) : Exact s n G := by
  obtain ⟨_, hgood⟩ := hi.gens n G hG
  refine ⟨hgood.once, hgood.settled, hgood.returned, hgood.raised, hgood.resting, fun hpc => ?_⟩
  obtain ⟨g, hn⟩ := hi.caller n G hG hpc
  obtain ⟨G', w, sem, hG', _, hw, hsem, _⟩ := hi.calls g n hn
  rw [hG, Option.some.injEq] at hG'
  subst hG'
  obtain ⟨hactive, hahead, _⟩ := Gen.at_waiting hpc
  obtain ⟨_, w', hw', ht⟩ := hgood.active hactive
  rw [hw, Option.some.injEq] at hw'
  subst hw'
  rw [hahead] at ht
  refine ⟨g, w, hn, hw, fun f => ?_, fun hsome => ?_⟩
  · have hnodup := ht.nodup
    have hsettled := ht.settled f
    rw [List.append_nil] at hnodup hsettled
    rw [List.mem_append] at hsettled
    constructor
    · intro hf
      obtain ⟨hfs, h⟩ := hsettled.1 (Or.inr hf)
      exact ⟨hfs, h, fun hy => (List.nodup_append.1 hnodup).2.2 f hy f hf rfl⟩
    · rintro ⟨hfs, h, hy⟩
      exact (hsettled.2 ⟨hfs, h⟩).resolve_left hy
  · have hflag := ht.flag.2 hsome
    obtain ⟨hpos, hdue⟩ := (hi.waiters _ w hw).1.inv.serves.woken hflag g sem hsem
    exact ⟨w, sem, hw, hflag, hsem, hpos, hdue⟩

end Loops

/-! ## Runs -/

/-- In every run, each generator yields each of its futures once, and only when
it is settled; it never fails by itself, and it sleeps only if there is nothing to
yield, or it was told. -/
theorem as_completed_exact (futs : Fid → Future α ε) (as : List (Act α ε)) (t : St α ε)
    (h : Trace.run step (St.init futs) as = some t) :
    (∀ n G, t.gens n = some G → Exact t n G) ∧
      ∀ a t', step t a = some t' → Sleeps t t' := by
  have hi : Inv t :=
    Trace.run_invariant (fun s a s' h hi => (step_inv s a s' h hi).1) (init_inv futs) h
  refine ⟨fun n G hG => hi.exact hG, fun a t' hstep => ?_⟩
  exact (step_inv t a t' hstep hi).2

/-- A finished future, a running one and a cancelled one. -/
def mixedFutures (f : Fid) : Future Nat Nat :=
  { Future.new with
    _state := if f = 0 then .FINISHED else if f = 1 then .RUNNING else .CANCELLED }

/-- The consumer holds the first future while the second one completes; it sleeps
until the third one is notified. -/
def mixedRun : List (Act Nat Nat) :=
  [.as_completed [1, 0, 2], .next 7 0 [0], .set_result 9 1 (some 4), .next 7 0 [],
    .next 7 0 [], .set_running_or_notify_cancel 9 2, .turn 0 (.fire 7), .turn 0 (.fire 7),
    .next 7 0 []]

theorem as_completed_exact_mixed :
    ∃ t, Trace.run step (St.init mixedFutures) mixedRun = some t ∧
      (t.gens 0).map (fun G => (G.pc, G.yielded)) = some (.returned, [0, 1, 2]) ∧
      ∀ n G, t.gens n = some G → Exact t n G := by
  have h : (Trace.run step (St.init mixedFutures) mixedRun).any (fun t =>
      decide ((t.gens 0).map (fun G => (G.pc, G.yielded)) = some (.returned, [0, 1, 2]))) =
        true := by
    decide
  obtain ⟨t, ht, hgen⟩ := Trace.run_any h
  rw [decide_eq_true_eq] at hgen
  exact ⟨t, ht, hgen, (as_completed_exact mixedFutures mixedRun t ht).1⟩

end Jega.Futures.AsCompleted
