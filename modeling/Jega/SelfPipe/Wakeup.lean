import Jega.SelfPipe.Model

/-!
# Jega.SelfPipe.Wakeup — no callback waits while the loop does

A callback is scheduled before the byte is written, and a byte is read only
between two waits, after which the queue is emptied. So whenever the loop is in
`epoll_wait` with something in its queue, a byte is there or about to be written.

## Main results

* `never_lost_iff`: the exact condition for that along a run.
* `served_before_waiting`: what was scheduled before a wait began has been taken
  off the queue by then.
-/

namespace Jega.SelfPipe

open Loop (Caller Pass Pc Sized Fifo pushes shifts Shift)
open Trace

variable {κ : Type}

/-! ## The statement -/

/-- A byte is there, or a thread is about to write one. -/
def Rung (s : St κ) : Prop := 0 < s.buffered ∨ s.writing ≠ []

instance (s : St κ) : Decidable (Rung s) := inferInstanceAs (Decidable (_ ∨ _))

/-- The loop does not wait past a callback. -/
def Woken (s : St κ) : Prop := s.waiting ≠ none → s.loop.pendings.entries ≠ [] → Rung s

/-- A round of `fire_pendings`. -/
def fires : Loop.Act κ → Bool
  | .next _ _ => true
  | _ => false

/-- `fire_pendings` ends early, with something in the queue, and the pass polls. -/
def Stopped (s : St κ) (a : Loop.Act κ) : Prop :=
  fires a = true ∧ s.loop.state = .L_STOP ∧ polls s.loop ∧ s.loop.pendings.entries ≠ []

instance (s : St κ) (a : Loop.Act κ) : Decidable (Stopped s a) :=
  inferInstanceAs (Decidable (_ ∧ _ ∧ _ ∧ _))

/-- A step that leaves no callback behind. -/
def Rings (s : St κ) : Act κ → Prop
  | .loop a => Stopped s a → Rung s
  | ._write_to_self t .InterruptedError =>
    s.waiting ≠ none → s.loop.pendings.entries ≠ [] → 0 < s.buffered ∨ s.writing.erase t ≠ []
  | .call_soon _ _ => s.waiting ≠ none → Rung s
  | _ => True

instance (s : St κ) : ∀ a, Decidable (Rings s a)
  | .loop a => inferInstanceAs (Decidable (Stopped s a → Rung s))
  | ._write_to_self t .InterruptedError =>
    inferInstanceAs (Decidable (s.waiting ≠ none → s.loop.pendings.entries ≠ [] →
      0 < s.buffered ∨ s.writing.erase t ≠ []))
  | .call_soon _ _ => inferInstanceAs (Decidable (s.waiting ≠ none → Rung s))
  | .time _ | .signal _ | .call_soon_threadsafe _ _ | ._add_callback_signalsafe _
  | ._write_to_self _ .sent | ._write_to_self _ .BlockingIOError | .wakeup_fd | .epoll_wait _
  | ._read_from_self => isTrue trivial

/-! ## How a pass gets to `epoll_wait` -/

section Loop

variable {s s' : Loop.St κ} {i j : Nat}

/-- A round that ends is followed by another one, or its pass returns. -/
theorem round_ended_passes (s : Loop.St κ) (i : Nat) (caller : Caller) (exc : Bool) :
    (Loop.round_ended s i caller exc).passes = s.passes.eraseIdx i ∨
      (Loop.round_ended s i caller exc).passes = s.passes.set i ⟨caller, .firing⟩ := by
  have hcheck := (Loop.check_stop_signal_same s.decr).2
  unfold Loop.round_ended
  simp only
  split
  · left
    exact (Loop.run_failed_same s.decr i caller).2
  · split
    · left
      rw [(Loop.run_failed_same _ i caller).2, hcheck]
      rfl
    · right
      rw [Loop.St.goto_passes, hcheck]
      rfl

/-- The pass is still there, and it polls. -/
def Polling (s s' : Loop.St κ) (i : Nat) : Prop :=
  s'.passes.length = s.passes.length ∧ (s'.passes[i]?).map Pass.pc = some .polling

theorem not_polling_eraseIdx {p : Pass} (hp : s.passes[i]? = some p)
    (h : s'.passes = s.passes.eraseIdx i) : ¬ Polling s s' i := by
  rintro ⟨hlen, -⟩
  have hi : i < s.passes.length := (List.getElem?_eq_some_iff.1 hp).1
  rw [h, List.length_eraseIdx_of_lt hi] at hlen
  omega

theorem not_polling_set {caller : Caller} {pc : Pc} (h : s'.passes = s.passes.set i ⟨caller, pc⟩)
    (hpc : pc ≠ .polling) : ¬ Polling s s' i := by
  rintro ⟨-, hpoll⟩
  rw [h, List.getElem?_set] at hpoll
  split at hpoll
  · split at hpoll
    · simp only [Option.map_some, Option.some.injEq] at hpoll
      exact hpc hpoll
    · cases hpoll
  · next hne => exact hne rfl

theorem not_polling_round_ended {p : Pass} (hp : s.passes[i]? = some p) {t : Loop.St κ}
    (ht : t.passes = s.passes) (caller : Caller) (exc : Bool) :
    ¬ Polling s (Loop.round_ended t i caller exc) i := by
  rcases round_ended_passes t i caller exc with h | h
  · exact not_polling_eraseIdx hp (h.trans (by rw [ht]))
  · exact not_polling_set (h.trans (by rw [ht])) (by simp)

theorem entries_eq_nil {q : Loop.queue_t Hid} : q.entries = [] ↔ q.size = 0 := by
  rw [← List.length_eq_zero_iff, Loop.length_entries]

/-- It polls at once if the queue is empty after `fire_timers`. -/
theorem entered_polling {ok : Bool} (h : Loop.step s (.entered i ok) = some s')
    (hpoll : Polling s s' i) : s'.pendings.entries = [] := by
  simp only [Loop.step] at h
  split at h
  · next caller hp =>
    split at h
    · rcases Option.map_eq_some_iff.1 h with ⟨t, ht, hs'⟩
      have hpasses := Loop.fire_timers_passes ht
      split at hs'
      · have hset : s'.passes = s.passes.set i ⟨caller, .firing⟩ := by
          rw [← hs', Loop.St.goto_passes, hpasses]
        exact absurd hpoll (not_polling_set hset (by simp))
      · next hsize =>
        rw [← hs', Loop.St.goto_pendings, entries_eq_nil]
        omega
    · rw [Option.some.injEq] at h
      refine absurd hpoll (not_polling_eraseIdx hp ?_)
      rw [← h, (Loop.run_failed_same s i caller).2]
  · cases h

/-- The round that finds the queue empty goes on to poll, and so does the one
that finds the loop stopped. -/
theorem next_polling {dead : Bool} (h : Loop.step s (.next i dead) = some s')
    (hpoll : Polling s s' i) :
    s'.pendings.entries = [] ∨ s.state = .L_STOP ∧ s'.pendings = s.pendings := by
  simp only [Loop.step] at h
  split at h
  · next caller hp =>
    unfold Loop.fire_pendings_next at h
    split at h
    · next hstop =>
      rw [Option.some.injEq] at h
      exact Or.inr ⟨hstop, h ▸ rfl⟩
    · split at h
      · next q hnone =>
        left
        rw [Option.some.injEq] at h
        rw [← h, Loop.St.goto_pendings, entries_eq_nil]
        unfold Loop.queue_shift at hnone
        split at hnone
        · omega
        · cases hnone
      · -- an entry is fired, and the pass is in it, back or gone
        next item q hsome =>
        exfalso
        have hround : ∀ t : Loop.St κ, t.passes = s.passes →
            Polling s (Loop.round_ended t i caller false) i → False :=
          fun t ht => not_polling_round_ended hp ht caller false
        cases Loop.fire_item_cases h with
        | skipped _ _ =>
          refine hround _ ?_ hpoll
          rfl
        | lost _ _ _ hreturned =>
          have hpasses := Loop.fire_returned_passes hreturned
          exact hround _ hpasses hpoll
        | fired _ _ _ =>
          have hpc : Pc.fired item ≠ .polling := by simp
          exact not_polling_set rfl hpc hpoll
  · cases h

/-- A stopped loop that is firing goes on to poll. -/
theorem next_stopped {dead : Bool} (h : Loop.step s (.next i dead) = some s')
    (hstop : s.state = .L_STOP) :
    s'.pendings = s.pendings ∧
      enters s s' (.next i dead) = if polls s then some i else none := by
  simp only [Loop.step] at h
  split at h
  · next caller hp =>
    rw [Loop.fire_pendings_next, if_pos hstop, Option.some.injEq] at h
    subst h
    have hi : i < s.passes.length := (List.getElem?_eq_some_iff.1 hp).1
    have hpolls : polls (s.goto i caller .polling) ↔ polls s := Iff.rfl
    refine ⟨rfl, ?_⟩
    simp [enters, hpolls, hi]
  · cases h

/-- A pass gets to `epoll_wait` with an empty queue, unless the loop was stopped
while it was firing. -/
theorem enters_cases {a : Loop.Act κ} (h : Loop.step s a = some s') (hi : enters s s' a = some i) :
    s'.pendings.entries = [] ∨ (∃ dead, a = .next i dead) ∧ s.state = .L_STOP := by
  unfold enters at hi
  split at hi
  · -- Entered
    next j ok =>
    split at hi
    · next hcond =>
      cases hi
      exact Or.inl (entered_polling h ⟨hcond.1, hcond.2.1⟩)
    · cases hi
  · -- Next
    next j dead =>
    split at hi
    · next hcond =>
      cases hi
      rcases next_polling h ⟨hcond.1, hcond.2.1⟩ with hempty | ⟨hstop, -⟩
      · exact Or.inl hempty
      · exact Or.inr ⟨⟨dead, rfl⟩, hstop⟩
    · cases hi
  · cases hi

/-- A thread that schedules a callback finds it in the queue. -/
theorem call_soon_entries {cb : κ} (hs : Sized s) (h : Loop.step s (.call_soon cb) = some s') :
    s'.pendings.entries = s.pendings.entries ++ [s.next] := by
  have hsched : Loop.schedule_timer (Loop.make_handle s 0 (some cb) none).1 s.next = some s' := h
  rcases Loop.schedule_timer_cases hsched with ⟨_, r, hr, rfl⟩ | ⟨htimer, _⟩
  · exact (Loop.queue_push_cases hs.pendings hs.pendings_dvd hr).2.1
  · simp [Loop.make_handle, Loop.HandleObject_new] at htimer

end Loop

/-! ## The log grows -/

section Log

variable {s s' : Loop.St κ} {i : Nat}

theorem note_log (s : Loop.St κ) (e : Loop.Event κ) : s.log <+: (s.note e).log :=
  List.prefix_append _ _

theorem schedule_timer_log {o : Hid} (h : Loop.schedule_timer s o = some s') :
    s.log <+: s'.log := by
  rcases Loop.schedule_timer_cases h with ⟨_, r, _, rfl⟩ | ⟨_, r, _, rfl⟩
  · exact note_log { s with pendings := r.1 } (.push o)
  · exact List.prefix_refl _

theorem call_log {seconds : Int} {cb : Option κ} {greenlet : Option Gid}
    (h : Loop.internal_loop_schedule_call s seconds cb greenlet = some s') : s.log <+: s'.log := by
  have hsched := schedule_timer_log h
  exact hsched

theorem fire_returned_log {item : Hid} (h : Loop.fire_returned s item = some s') :
    s.log <+: s'.log := by
  rcases Loop.fire_returned_cases h with ⟨_, rfl⟩ | ⟨_, hsched⟩
  · exact List.prefix_refl _
  · refine List.IsPrefix.trans ?_ (schedule_timer_log hsched)
    exact note_log _ _

theorem round_ended_log {p : Pass} (hp : s.passes[i]? = some p) (caller : Caller) (exc : Bool) :
    (Loop.round_ended s i caller exc).log = s.log :=
  (Loop.round_ended_same hp caller exc).1.log

theorem fire_timers_log (h : Loop.fire_timers none s = some s') : s.log <+: s'.log := by
  refine Loop.fire_timers_loop_invariant (P := fun r => s.log <+: r.log) ?_ ?_ h
    (List.prefix_refl _)
  · intro r _ _ hr
    exact hr.trans (note_log _ _)
  · intro r q _ _ _ _ hr
    exact hr.trans (note_log { r with scheduled := _, pendings := q.1 } _)

theorem step_log {a : Loop.Act κ} (h : Loop.step s a = some s') : s.log <+: s'.log := by
  cases Loop.step_cases h with
  | quiet _ hquiet => rw [hquiet.log]
  | call _ hr => exact call_log hr
  | call_repeatedly _ hr =>
    have hlog := call_log hr
    exact hlog
  | set_timeout hr =>
    split
    · exact (call_log hr).trans (note_log _ _)
    · exact call_log hr
  | make_handle => exact List.prefix_refl _
  | add_callback _ hsched => exact schedule_timer_log hsched
  | cancel _ => exact note_log _ _
  | time => exact List.prefix_refl _
  | entered htimers hquiet =>
    rw [hquiet.log]
    exact fire_timers_log htimers
  | @next i caller item q dead _ hp _ _ hfire =>
    cases hfire with
    | skipped _ _ =>
      rw [round_ended_log (by exact hp)]
      exact note_log _ _
    | lost _ _ _ hreturned =>
      rw [round_ended_log (Loop.fire_returned_passes hreturned ▸ hp)]
      refine List.IsPrefix.trans ?_ (fire_returned_log hreturned)
      exact note_log _ _
    | fired _ _ _ => exact note_log _ _
  | @returned i caller item exc r hp hreturned =>
    rw [round_ended_log (Loop.fire_returned_passes hreturned ▸ hp)]
    exact fire_returned_log hreturned

end Log

/-! ## One step -/

variable {s s' t : St κ}

/-- The loop's thread goes on, into `epoll_wait` or not. -/
inductive Looped (s : St κ) (a : Loop.Act κ) (loop : Loop.St κ) : St κ → Prop where
  | enters {i : Nat} (hi : SelfPipe.enters s.loop loop a = some i) :
    Looped s a loop { s with loop := loop, waiting := some i, waits := s.waits + 1 }
  | stays (hi : SelfPipe.enters s.loop loop a = none) : Looped s a loop { s with loop := loop }

theorem loop_cases {a : Loop.Act κ} (h : step s (.loop a) = some s') :
    s.free ∧ ∃ loop, Loop.step s.loop a = some loop ∧ Looped s a loop s' := by
  simp only [step, looped] at h
  split at h
  · next hfree =>
    rcases Option.map_eq_some_iff.1 h with ⟨loop, hloop, hs'⟩
    refine ⟨hfree, loop, hloop, ?_⟩
    split at hs'
    · next i hi => exact hs' ▸ .enters hi
    · next hi => exact hs' ▸ .stays hi
  · cases h

/-- What a write leaves. -/
theorem write_cases {t : Thread} {r : Send} (h : step s (._write_to_self t r) = some s') :
    s'.loop = s.loop ∧ s'.waiting = s.waiting ∧ s'.waits = s.waits ∧
      (r = .InterruptedError ∧ s'.buffered = s.buffered ∧ s'.writing = s.writing.erase t ∨
        r ≠ .InterruptedError ∧ 0 < s'.buffered) := by
  simp only [step] at h
  split at h
  · cases r with
    | sent =>
      cases h
      exact ⟨rfl, rfl, rfl, Or.inr ⟨by simp, Nat.succ_pos _⟩⟩
    | BlockingIOError =>
      simp only at h
      split at h
      · next hpos =>
        cases h
        exact ⟨rfl, rfl, rfl, Or.inr ⟨by simp, hpos⟩⟩
      · cases h
    | InterruptedError =>
      cases h
      exact ⟨rfl, rfl, rfl, Or.inl ⟨rfl, rfl, rfl⟩⟩
  · cases h

theorem fires_iff {a : Loop.Act κ} : fires a = true ↔ ∃ i dead, a = .next i dead := by
  constructor
  · intro h
    cases a with
    | next i dead => exact ⟨i, dead, rfl⟩
    | _ => cases h
  · rintro ⟨i, dead, rfl⟩
    rfl

/-- The loop's own steps: only a stopped loop goes to wait on a callback. -/
theorem loop_woken_iff {a : Loop.Act κ} (h : step s (.loop a) = some s') :
    Woken s' ↔ (Stopped s a → Rung s) := by
  obtain ⟨hfree, loop, hloop, hcases⟩ := loop_cases h
  cases hcases with
  | stays hi =>
    -- the loop does not wait, and a stopped one would
    refine iff_of_true (fun hw => absurd hfree.1 hw) ?_
    rintro ⟨hfires, hstop, hpolls, -⟩
    obtain ⟨i, dead, rfl⟩ := fires_iff.1 hfires
    rw [(next_stopped hloop hstop).2, if_pos hpolls] at hi
    cases hi
  | @enters i hi =>
    constructor
    · rintro hw ⟨hfires, hstop, -, hne⟩
      obtain ⟨j, dead, rfl⟩ := fires_iff.1 hfires
      refine hw (by simp) ?_
      rw [(next_stopped hloop hstop).1]
      exact hne
    · intro hr _ hne
      rcases enters_cases hloop hi with hempty | ⟨⟨dead, rfl⟩, hstop⟩
      · exact absurd hempty hne
      · obtain ⟨hpendings, henters⟩ := next_stopped hloop hstop
        rw [henters] at hi
        split at hi
        · next hpolls =>
          refine hr ⟨rfl, hstop, hpolls, ?_⟩
          rw [← hpendings]
          exact hne
        · cases hi

theorem step_woken_iff {a : Act κ} (h : step s a = some s') (hs : Sized s.loop) (hw : Woken s) :
    Woken s' ↔ Rings s a := by
  cases a with
  | loop a => exact loop_woken_iff h
  | time now =>
    cases h
    exact iff_of_true hw trivial
  | signal signum =>
    cases h
    exact iff_of_true hw trivial
  | call_soon_threadsafe t cb =>
    -- the thread is to write
    simp only [step, scheduled] at h
    split at h
    · rcases Option.map_eq_some_iff.1 h with ⟨loop, hloop, rfl⟩
      exact iff_of_true (fun _ _ => Or.inr (List.cons_ne_nil _ _)) trivial
    · cases h
  | _add_callback_signalsafe handle =>
    simp only [step, scheduled] at h
    split at h
    · rcases Option.map_eq_some_iff.1 h with ⟨loop, hloop, rfl⟩
      exact iff_of_true (fun _ _ => Or.inr (List.cons_ne_nil _ _)) trivial
    · cases h
  | _write_to_self t r =>
    obtain ⟨hloop, hwaiting, -, hr⟩ := write_cases h
    rcases hr with ⟨rfl, hbuffered, hwriting⟩ | ⟨hr, hpos⟩
    · unfold Woken Rung
      rw [hloop, hwaiting, hbuffered, hwriting]
      rfl
    · refine iff_of_true (fun _ _ => Or.inl hpos) ?_
      cases r with
      | InterruptedError => exact absurd rfl hr
      | _ => trivial
  | call_soon t cb =>
    simp only [step] at h
    split at h
    · rcases Option.map_eq_some_iff.1 h with ⟨loop, hloop, rfl⟩
      have hentries := call_soon_entries hs hloop
      constructor
      · intro hw' hwait
        refine hw' hwait ?_
        rw [hentries]
        simp
      · intro hr hwait _
        exact hr hwait
    · cases h
  | wakeup_fd =>
    cases h
    exact iff_of_true (fun _ _ => Or.inl (Nat.succ_pos _)) trivial
  | epoll_wait ready =>
    simp only [step] at h
    split at h
    · cases h
      exact iff_of_true (fun hwait => absurd rfl hwait) trivial
    · cases h
  | _read_from_self =>
    -- the loop's thread reads, so it does not wait
    simp only [step] at h
    split at h
    · next hcond =>
      cases h
      exact iff_of_true (fun hwait => absurd hcond.1.1 hwait) trivial
    · cases h

/-! ## Runs -/

/-- A step does something to the scheduler that the scheduler can do, or nothing. -/
theorem step_loop {a : Act κ} (h : step s a = some s') :
    s'.loop = s.loop ∨ ∃ b, Loop.step s.loop b = some s'.loop := by
  cases a with
  | loop a =>
    obtain ⟨-, loop, hloop, hcases⟩ := loop_cases h
    right
    refine ⟨a, ?_⟩
    cases hcases with
    | enters hi => exact hloop
    | stays hi => exact hloop
  | time now =>
    cases h
    exact Or.inr ⟨.time now, rfl⟩
  | signal signum =>
    cases h
    exact Or.inr ⟨.signal signum, rfl⟩
  | call_soon_threadsafe t cb =>
    simp only [step, scheduled] at h
    split at h
    · rcases Option.map_eq_some_iff.1 h with ⟨loop, hloop, rfl⟩
      exact Or.inr ⟨_, hloop⟩
    · cases h
  | _add_callback_signalsafe handle =>
    simp only [step, scheduled] at h
    split at h
    · rcases Option.map_eq_some_iff.1 h with ⟨loop, hloop, rfl⟩
      exact Or.inr ⟨_, hloop⟩
    · cases h
  | _write_to_self t r => exact Or.inl (write_cases h).1
  | call_soon t cb =>
    simp only [step] at h
    split at h
    · rcases Option.map_eq_some_iff.1 h with ⟨loop, hloop, rfl⟩
      exact Or.inr ⟨_, hloop⟩
    · cases h
  | wakeup_fd =>
    cases h
    exact Or.inl rfl
  | epoll_wait ready =>
    simp only [step] at h
    split at h
    · cases h
      exact Or.inl rfl
    · cases h
  | _read_from_self =>
    simp only [step] at h
    split at h
    · cases h
      exact Or.inl rfl
    · cases h

/-- The queue and the heap stay well formed, and the log tells the queue. -/
def Kept (s : St κ) : Prop := Sized s.loop ∧ Fifo s.loop

theorem init_kept (block : Nat → Hid) (now : Int) : Kept (init κ block now) :=
  ⟨(Loop.init_sized block now).congr rfl rfl, (Loop.init_fifo block now).congr rfl rfl rfl⟩

theorem step_kept {a : Act κ} (h : step s a = some s') (hk : Kept s) : Kept s' := by
  rcases step_loop h with heq | ⟨b, hb⟩
  · unfold Kept
    rw [heq]
    exact hk
  · exact ⟨Loop.step_sized hb hk.1, Loop.step_fifo hb hk.1 hk.2⟩

/-- In every run of any number of threads: the loop never waits past a callback
that nobody has rung for, exactly if all steps ring. Those that may not are a
call of the plain `call_soon` in another thread, an interrupted write, and a
round of a loop that was stopped while it was firing. -/
theorem never_lost_iff {block : Nat → Hid} {now : Int} {as : List (Act κ)}
    (h : run step (init κ block now) as = some t) :
    Always step Woken (init κ block now) as ↔ Steps step Rings (init κ block now) as := by
  have hkept : ∀ (s : St κ) a s', step s a = some s' → Rings s a → Kept s → Woken s → Kept s' :=
    fun s a s' hstep _ hk _ => step_kept hstep hk
  refine always_iff_steps hkept ?_ (init_kept block now) ?_ h
  · intro s a s' hstep hk hw
    exact step_woken_iff hstep hk.1 hw
  · intro hwait
    exact absurd rfl hwait

/-- A callback with a timer behind it, so that the loop waits; a second one from
another thread during the wait. -/
def rungRun : List (Act Nat) :=
  [.loop (.call_later 5 7), .loop (.run false), .loop (.test 0), .loop (.entered 0 true),
    .call_soon_threadsafe 1 8, ._write_to_self 1 .sent, .epoll_wait true, ._read_from_self,
    .loop (.polled 0 true false), .loop (.test 0), .loop (.entered 0 true),
    .loop (.next 0 false), .loop (.returned 0 false), .loop (.next 0 false)]

theorem never_lost_iff_rung : ∃ t, run step (init Nat (fun _ => 0) 0) rungRun = some t ∧
    Always step Woken (init Nat (fun _ => 0) 0) rungRun := by
  obtain ⟨t, ht, -⟩ := run_any (p := fun t : St Nat => t.waits == 2)
    (by decide +kernel : (run step (init Nat (fun _ => 0) 0) rungRun).any _ = true)
  exact ⟨t, ht, (never_lost_iff ht).2 (by decide +kernel)⟩

/-- Without the byte the loop waits on, with the callback in its queue. -/
theorem plain_call_lost : ∃ t, run step (init Nat (fun _ => 0) 0)
      [.loop (.call_later 5 7), .loop (.run false), .loop (.test 0), .loop (.entered 0 true),
        .call_soon 1 8] = some t ∧ ¬ Woken t := by
  obtain ⟨t, ht, hp⟩ := run_any (p := fun t : St Nat => t.waiting == some 0 &&
      t.loop.pendings.entries == [1] && decide (¬ Rung t))
    (by decide +kernel : (run step (init Nat (fun _ => 0) 0)
      [.loop (.call_later 5 7), .loop (.run false), .loop (.test 0), .loop (.entered 0 true),
        .call_soon 1 8]).any _ = true)
  simp only [Bool.and_eq_true, beq_iff_eq, decide_eq_true_eq] at hp
  refine ⟨t, ht, fun hw => hp.2 (hw ?_ ?_)⟩
  · rw [hp.1.1]
    simp
  · rw [hp.1.2]
    simp

/-! ## Served before the next wait -/

/-- No round of a loop that was stopped while it was firing. -/
def GoesOn (s : St κ) : Act κ → Prop
  | .loop a => ¬ Stopped s a
  | _ => True

instance (s : St κ) : ∀ a, Decidable (GoesOn s a)
  | .loop a => inferInstanceAs (Decidable (¬ Stopped s a))
  | .time _ | .signal _ | .call_soon_threadsafe _ _ | ._add_callback_signalsafe _
  | ._write_to_self _ _ | .call_soon _ _ | .wakeup_fd | .epoll_wait _ | ._read_from_self =>
    isTrue trivial

/-- A wait begins with an empty queue. -/
theorem waits_empty {a : Act κ} (h : step s a = some s') (hgo : GoesOn s a)
    (hwaits : s.waits < s'.waits) : s'.loop.pendings.entries = [] := by
  cases a with
  | loop a =>
    obtain ⟨-, loop, hloop, hcases⟩ := loop_cases h
    cases hcases with
    | enters hi =>
      rcases enters_cases hloop hi with hempty | ⟨⟨dead, rfl⟩, hstop⟩
      · exact hempty
      · obtain ⟨hpendings, henters⟩ := next_stopped hloop hstop
        rw [henters] at hi
        split at hi
        · next hpolls =>
          by_contra hne
          refine hgo ⟨rfl, hstop, hpolls, ?_⟩
          rw [← hpendings]
          exact hne
        · cases hi
    | stays hi => exact absurd hwaits (Nat.lt_irrefl _)
  | _write_to_self t r =>
    rw [(write_cases h).2.2.1] at hwaits
    exact absurd hwaits (Nat.lt_irrefl _)
  | call_soon_threadsafe t cb =>
    simp only [SelfPipe.step, scheduled] at h
    split at h
    · rcases Option.map_eq_some_iff.1 h with ⟨loop, -, rfl⟩
      exact absurd hwaits (Nat.lt_irrefl _)
    · cases h
  | _add_callback_signalsafe handle =>
    simp only [SelfPipe.step, scheduled] at h
    split at h
    · rcases Option.map_eq_some_iff.1 h with ⟨loop, -, rfl⟩
      exact absurd hwaits (Nat.lt_irrefl _)
    · cases h
  | call_soon t cb =>
    simp only [SelfPipe.step] at h
    split at h
    · rcases Option.map_eq_some_iff.1 h with ⟨loop, -, rfl⟩
      exact absurd hwaits (Nat.lt_irrefl _)
    · cases h
  | time now =>
    cases h
    exact absurd hwaits (Nat.lt_irrefl _)
  | signal signum =>
    cases h
    exact absurd hwaits (Nat.lt_irrefl _)
  | wakeup_fd =>
    cases h
    exact absurd hwaits (Nat.lt_irrefl _)
  | epoll_wait ready =>
    simp only [SelfPipe.step] at h
    split at h
    · cases h
      exact absurd hwaits (Nat.lt_irrefl _)
    · cases h
  | _read_from_self =>
    simp only [SelfPipe.step] at h
    split at h
    · cases h
      exact absurd hwaits (Nat.lt_irrefl _)
    · cases h

/-- What was scheduled before the wait with the number `n` ended is off the queue
when the next one has begun. -/
structure Recent (n : Nat) (old : List Hid) (s : St κ) : Prop where
  kept : Kept s
  pushed : old <+: pushes s.loop
  served : n < s.waits → old <+: (shifts s.loop).map Shift.item

theorem Recent.step {n : Nat} {old : List Hid} {a : Act κ} (h : step s a = some s')
    (hgo : GoesOn s a) (hr : Recent n old s) : Recent n old s' := by
  have hkept := step_kept h hr.kept
  have hgrow : s.loop.log <+: s'.loop.log := by
    rcases step_loop h with heq | ⟨b, hb⟩
    · rw [heq]
    · exact step_log hb
  refine ⟨hkept, hr.pushed.trans (hgrow.filterMap _), ?_⟩
  intro hn
  by_cases hbefore : n < s.waits
  · -- Case: that wait began earlier
    exact (hr.served hbefore).trans ((hgrow.filterMap _).map _)
  · -- Case: it begins now, and the queue is empty
    have hempty : s'.loop.pendings.entries = [] := waits_empty h hgo (by omega)
    have horder := hkept.2.order
    rw [hempty, List.append_nil] at horder
    rw [← horder]
    exact hr.pushed.trans (hgrow.filterMap _)

/-- Whatever is scheduled, by any thread, is taken off the queue before the next
wait of the loop begins. -/
theorem served_before_waiting {block : Nat → Hid} {now : Int} {as bs : List (Act κ)}
    (hs : run step (init κ block now) as = some s) (ht : run step s bs = some t)
    (hgo : Steps step GoesOn s bs) (hwaits : s.waits < t.waits) :
    pushes s.loop <+: (shifts t.loop).map Shift.item := by
  have hkept : Kept s := run_invariant (fun _ _ _ h hk => step_kept h hk) (init_kept block now) hs
  have hstart : Recent s.waits (pushes s.loop) s :=
    ⟨hkept, List.prefix_refl _, fun hlt => absurd hlt (Nat.lt_irrefl _)⟩
  have hstep : ∀ (r : St κ) a r', step r a = some r' → GoesOn r a →
      Recent s.waits (pushes s.loop) r → Recent s.waits (pushes s.loop) r' :=
    fun r a r' h hok hr => hr.step h hok
  exact (run_invariant_steps hstep hstart hgo ht).served hwaits

theorem served_before_waiting_rung : ∃ s t : St Nat, s.loop.pendings.entries = [1] ∧
    t.waits = 2 ∧ pushes s.loop <+: (shifts t.loop).map Shift.item := by
  obtain ⟨s, hs, hp⟩ := run_any (p := fun s : St Nat => s.loop.pendings.entries == [1] &&
      s.waits == 1 && (run step s (rungRun.drop 6)).any (fun t => t.waits == 2) &&
      decide (Steps step GoesOn s (rungRun.drop 6)))
    (by decide +kernel : (run step (init Nat (fun _ => 0) 0) (rungRun.take 6)).any _ = true)
  simp only [Bool.and_eq_true, beq_iff_eq, decide_eq_true_eq] at hp
  obtain ⟨t, ht, hwaits⟩ := run_any hp.1.2
  rw [beq_iff_eq] at hwaits
  refine ⟨s, t, hp.1.1.1, hwaits, served_before_waiting hs ht hp.2 ?_⟩
  rw [hp.1.1.2, hwaits]
  decide

end Jega.SelfPipe
