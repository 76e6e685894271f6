import Jega.Io.Trampoline

/-!
# Jega.Io.Waiters — who owns the slot of a descriptor

A suspended greenlet is *registered* when the slot of its descriptor leads back
to it. `internal_io_trampoline` writes the slot without looking whose it is, so
all the suspended greenlets stay registered exactly as long as each wait starts
on a descriptor that has no registration.

## Main results

* `led_step`: a step that starts no wait on a registered descriptor keeps every
  suspended greenlet registered.
* `guarded_iff_unshared`: no waiter is overwritten along a run exactly when
  all its waits start on descriptors without a registration.
-/

namespace Jega.Io

open Trace

/-- `g` is suspended on `fd`, and the slot of `fd` leads back to it. -/
structure Registered (s : St) (g : Gid) (fd : Fd) (event : Events) (arg : Addr) (exc : Exc) :
    Prop where
  suspended : s.loc g = .trampoline fd event arg
  active : active s fd = true
  callback : (s.fds fd).callback = .trampoline_switch_callback
  cb_arg : (s.fds fd).cb_arg = arg
  leads : s.mem arg = .switch_arg g exc

/-! ## Spec lemmas -/

theorem active_picoev_add (events : Events) (t : Nat) (cb : Handler) (a : Addr) :
    picoev_is_active loop_id (picoev_add loop_id events t cb a) = true := by
  simp [picoev_is_active, picoev_add]

/-- What a resumption changes, for a greenlet whose registration is its own. -/
theorem resume_registered {s : St} {g : Gid} {fd : Fd} {event : Events} {arg : Addr} {exc : Exc}
    (h : Registered s g fd event arg exc) (r : Resumption) :
    resume s g r =
      { s with
        mem := Function.update s.mem arg .freed
        fds := Function.update s.fds fd (picoev_del (s.fds fd))
        loop := { s.loop with ioactivecnt := s.loop.ioactivecnt - 1 }
        loc := Function.update s.loc g .other
        received := s.received ++ [(g, r)] } := by
  simp only [resume, h.suspended, trampoline_resumed]
  rw [if_neg (fun hc => hc.2 h.cb_arg)]

theorem resume_other {s : St} {g : Gid} (h : s.loc g = .other) (r : Resumption) :
    resume s g r = { s with received := s.received ++ [(g, r)] } := by
  simp [resume, h]

theorem resume_received (s : St) (g : Gid) (r : Resumption) :
    (resume s g r).received = s.received ++ [(g, r)] := by
  unfold resume
  cases s.loc g <;> rfl

/-- The three things a registration of a callback can do: nothing to the
slots, one merge into a callback slot, or a new slot. -/
theorem register_fd_callback_cases {s s' : St} {fd : Fd} {event : Events}
    {rcb wcb : Option Callable} (h : register_fd_callback s fd event rcb wcb = some s') :
    s' = { s with
      mem := Function.update s.mem s.next (.callback_arg rcb wcb), next := s.next + 1 } ∨
    (∃ r w r' w', s.mem (s.fds fd).cb_arg = .callback_arg r w ∧
      s' = { s with
        mem := Function.update (Function.update s.mem s.next (.callback_arg rcb wcb))
          (s.fds fd).cb_arg (.callback_arg r' w')
        next := s.next + 1
        fds := Function.update s.fds fd (picoev_set_events (s.fds fd) ⟨true, true⟩) }) ∨
    (active s fd = false ∧
      s' = { s with
        mem := Function.update s.mem s.next (.callback_arg rcb wcb)
        next := s.next + 1
        fds := Function.update s.fds fd (picoev_add loop_id event 0 .fd_callback s.next)
        loop := { s.loop with ioactivecnt := s.loop.ioactivecnt + 1 } }) := by
  simp only [register_fd_callback] at h
  cases hact : active s fd with
  | false =>
    simp only [hact, Bool.false_eq_true, if_false, Option.some.injEq] at h
    exact .inr (.inr ⟨rfl, h.symm⟩)
  | true =>
    simp only [hact, if_true] at h
    cases hmem : s.mem (s.fds fd).cb_arg with
    | freed => simp [hmem] at h
    | switch_arg g exc =>
      simp only [hmem, Option.some.injEq] at h
      exact .inl h.symm
    | callback_arg r w =>
      simp only [hmem] at h
      cases hmerge : merge_callback_arg r rcb wcb w with
      | none =>
        simp only [hmerge, Option.some.injEq] at h
        exact .inl h.symm
      | some p =>
        simp only [hmerge, Option.some.injEq] at h
        exact .inr (.inl ⟨r, w, p.1, p.2, rfl, h.symm⟩)

/-- What a step does, one case for each thing that can happen. -/
inductive Step (s : St) : Act → St → Prop where
  | io_trampoline {g fd event timeout exception}
    (hg : s.loc g = .other ∧ g ≠ s.loop.greenlet) :
    Step s (.io_trampoline g fd event timeout exception)
      (internal_io_trampoline s g fd event timeout exception)
  | add_reader {fd cb s'} (hadd : LoopObject_add_reader s fd cb = some s') :
    Step s (.add_reader fd cb) s'
  | add_writer {fd cb s'} (hadd : LoopObject_add_writer s fd cb = some s') :
    Step s (.add_writer fd cb) s'
  /-- The slot of the descriptor leads to a greenlet. -/
  | report_wait {fd events g exc} (hcb : (s.fds fd).callback = .trampoline_switch_callback)
    (hmem : s.mem (s.fds fd).cb_arg = .switch_arg g exc) :
    Step s (.report fd events) (trampoline_switch_callback s g exc events)
  /-- The slot of the descriptor leads to a reader or a writer. -/
  | report_callback {fd events read write} (hcb : (s.fds fd).callback = .fd_callback)
    (hmem : s.mem (s.fds fd).cb_arg = .callback_arg read write) :
    Step s (.report fd events) (fd_callback s fd (s.fds fd).cb_arg events)
  | throw {g e} : Step s (.throw g e) (resume s g (.throw e))
  | switch {g v} : Step s (.switch g v) (resume s g (.value v))

theorem step_cases {s s' : St} {a : Act} (h : step s a = some s') : Step s a s' := by
  cases a with
  | io_trampoline g fd event timeout exception =>
    rcases Option.ite_none_right_eq_some.1 h with ⟨hg, heq⟩
    cases heq
    exact .io_trampoline hg
  | add_reader fd cb => exact .add_reader h
  | add_writer fd cb => exact .add_writer h
  | report fd events =>
    rcases Option.ite_none_right_eq_some.1 h with ⟨_, hrun⟩
    split at hrun
    next g exc hcb hmem =>
      cases hrun
      exact .report_wait hcb hmem
    next read write hcb hmem =>
      cases hrun
      exact .report_callback hcb hmem
    · cases hrun
  | throw g e =>
    cases h
    exact .throw
  | switch g v =>
    cases h
    exact .switch

theorem Registered.report {s : St} {g : Gid} {fd : Fd} {event : Events} {arg : Addr} {exc : Exc}
    (h : Registered s g fd event arg exc) {events : Revents} (hne : events.nonzero = true) :
    step s (.report fd events) = some (trampoline_switch_callback s g exc events) := by
  have hmem : s.mem (s.fds fd).cb_arg = .switch_arg g exc := h.cb_arg ▸ h.leads
  simp [step, h.active, hne, h.callback, hmem]

/-! ## Every waiter is registered -/

/-- No cell past the allocated ones is in use. -/
def Fresh (s : St) : Prop := ∀ a, s.mem a ≠ .freed → a < s.next

/-- Every suspended greenlet is registered, for the events it asked for. -/
def Led (s : St) : Prop :=
  ∀ g fd event arg, s.loc g = .trampoline fd event arg →
    ∃ exc, Registered s g fd event arg exc ∧ event.Subset (s.fds fd).events

/-- A registration depends on three places of the state only. -/
theorem Registered.frame {s s' : St} {g : Gid} {fd : Fd} {event : Events} {arg : Addr} {exc : Exc}
    (h : Registered s g fd event arg exc) (hloc : s'.loc g = s.loc g) (hfd : s'.fds fd = s.fds fd)
    (hmem : s'.mem arg = s.mem arg) : Registered s' g fd event arg exc where
  suspended := hloc.trans h.suspended
  active := by
    have hact := h.active
    unfold Io.active at hact ⊢
    rwa [hfd]
  callback := hfd ▸ h.callback
  cb_arg := hfd ▸ h.cb_arg
  leads := hmem.trans h.leads

theorem Registered.lt_next {s : St} {g : Gid} {fd : Fd} {event : Events} {arg : Addr} {exc : Exc}
    (h : Registered s g fd event arg exc) (hi : Fresh s) : arg < s.next := by
  apply hi
  rw [h.leads]
  exact fun hc => nomatch hc

/-- Two greenlets do not share an argument, and so not a descriptor either. -/
theorem Registered.owner {s : St} {g g' : Gid} {fd fd' : Fd} {event event' : Events}
    {arg : Addr} {exc exc' : Exc} (h : Registered s g fd event arg exc)
    (h' : Registered s g' fd' event' arg exc') : g = g' := by
  have hcell := h.leads.symm.trans h'.leads
  injection hcell

theorem Registered.fd_ne {s : St} {g g' : Gid} {fd fd' : Fd} {event event' : Events}
    {arg arg' : Addr} {exc exc' : Exc} (h : Registered s g fd event arg exc)
    (h' : Registered s g' fd' event' arg' exc') (hne : g ≠ g') : fd ≠ fd' := by
  rintro rfl
  have harg : arg = arg' := h.cb_arg.symm.trans h'.cb_arg
  subst harg
  exact hne (h.owner h')

theorem Registered.arg_ne {s : St} {g g' : Gid} {fd fd' : Fd} {event event' : Events}
    {arg arg' : Addr} {exc exc' : Exc} (h : Registered s g fd event arg exc)
    (h' : Registered s g' fd' event' arg' exc') (hne : g ≠ g') : arg ≠ arg' := by
  rintro rfl
  exact hne (h.owner h')

theorem Led.frame {s s' : St} (hl : Led s) (hloc : s'.loc = s.loc) (hfds : s'.fds = s.fds)
    (hmem : s'.mem = s.mem) : Led s' := by
  intro g fd event arg h
  rw [hloc] at h
  obtain ⟨exc, hreg, hsub⟩ := hl g fd event arg h
  refine ⟨exc, hreg.frame (congrFun hloc g) (congrFun hfds fd) (congrFun hmem arg), ?_⟩
  rwa [hfds]

/-- A wait that ends leaves the other registrations alone. -/
theorem led_resume {s : St} (hl : Led s) (g : Gid) (r : Resumption) :
    Led (resume s g r) ∧ (resume s g r).clobbered = s.clobbered := by
  cases hloc : s.loc g with
  | other =>
    rw [resume_other hloc]
    exact ⟨hl.frame rfl rfl rfl, rfl⟩
  | trampoline fd event arg =>
    obtain ⟨exc, hreg, -⟩ := hl g fd event arg hloc
    rw [resume_registered hreg]
    refine ⟨?_, rfl⟩
    intro g' fd' event' arg' hloc'
    -- the resumed greenlet is no longer suspended
    have hne : g ≠ g' := by
      rintro rfl
      simp at hloc'
    have hold : s.loc g' = .trampoline fd' event' arg' := by
      simpa [Function.update_of_ne hne.symm] using hloc'
    obtain ⟨exc', hreg', hsub⟩ := hl g' fd' event' arg' hold
    have hfd := (hreg.fd_ne hreg' hne).symm
    have harg := (hreg.arg_ne hreg' hne).symm
    refine ⟨exc', hreg'.frame ?_ ?_ ?_, ?_⟩
    · exact Function.update_of_ne hne.symm _ _
    · exact Function.update_of_ne hfd _ _
    · exact Function.update_of_ne harg _ _
    · have hfds : Function.update s.fds fd (picoev_del (s.fds fd)) fd' = s.fds fd' :=
        Function.update_of_ne hfd _ _
      simpa only [hfds] using hsub

/-- A registration of a callback leaves the waiters alone: it does not merge
into the slot of one, and it takes a free slot otherwise. -/
theorem led_register {s s' : St} {fd : Fd} {event : Events} {rcb wcb : Option Callable}
    (h : register_fd_callback s fd event rcb wcb = some s') (hi : Fresh s) (hl : Led s) :
    Led s' ∧ s'.clobbered = s.clobbered := by
  have hnew : ∀ {g fd' event' arg exc}, Registered s g fd' event' arg exc → arg ≠ s.next :=
    fun hreg => Nat.ne_of_lt (hreg.lt_next hi)
  rcases register_fd_callback_cases h with rfl | ⟨r, w, r', w', hmem, rfl⟩ | ⟨hfree, rfl⟩
  · -- Case: nothing is registered
    refine ⟨fun g fd' event' arg hloc => ?_, rfl⟩
    obtain ⟨exc, hreg, hsub⟩ := hl g fd' event' arg hloc
    exact ⟨exc, hreg.frame rfl rfl (Function.update_of_ne (hnew hreg) _ _), hsub⟩
  · -- Case: a merge
    refine ⟨fun g fd' event' arg hloc => ?_, rfl⟩
    obtain ⟨exc, hreg, hsub⟩ := hl g fd' event' arg hloc
    -- the slot that is merged into holds a callback argument
    have harg : arg ≠ (s.fds fd).cb_arg := by
      rintro rfl
      rw [hreg.leads] at hmem
      cases hmem
    have hfd : fd' ≠ fd := by
      rintro rfl
      exact harg hreg.cb_arg.symm
    have hfds : Function.update s.fds fd (picoev_set_events (s.fds fd) ⟨true, true⟩) fd'
        = s.fds fd' := Function.update_of_ne hfd _ _
    refine ⟨exc, hreg.frame rfl hfds ?_, ?_⟩
    · show Function.update (Function.update s.mem s.next _) (s.fds fd).cb_arg _ arg = s.mem arg
      rw [Function.update_of_ne harg, Function.update_of_ne (hnew hreg)]
    · simpa only [hfds] using hsub
  · -- Case: a free slot is taken
    refine ⟨fun g fd' event' arg hloc => ?_, rfl⟩
    obtain ⟨exc, hreg, hsub⟩ := hl g fd' event' arg hloc
    have hfd : fd' ≠ fd := by
      rintro rfl
      rw [hreg.active] at hfree
      cases hfree
    have hfds : Function.update s.fds fd (picoev_add loop_id event 0 .fd_callback s.next) fd'
        = s.fds fd' := Function.update_of_ne hfd _ _
    refine ⟨exc, hreg.frame rfl hfds (Function.update_of_ne (hnew hreg) _ _), ?_⟩
    simpa only [hfds] using hsub

/-- A wait that starts on a free slot leaves the other registrations alone and
makes its own. -/
theorem led_trampoline {s : St} {g : Gid} {fd : Fd} {event : Events} {timeout : Nat}
    {exception : Option Exc} (hfree : active s fd = false) (hi : Fresh s) (hl : Led s) :
    Led (internal_io_trampoline s g fd event timeout exception) ∧
      (internal_io_trampoline s g fd event timeout exception).clobbered = s.clobbered := by
  constructor
  · intro g' fd' event' arg' hloc'
    by_cases hg : g' = g
    · -- Case: the new waiter
      subst hg
      simp only [internal_io_trampoline, Function.update_self, Where.trampoline.injEq] at hloc'
      obtain ⟨rfl, rfl, rfl⟩ := hloc'
      refine ⟨exception.getD (.TimeoutException none), ⟨?_, ?_, ?_, ?_, ?_⟩, ?_⟩
      · simp [internal_io_trampoline]
      · simp [active, internal_io_trampoline, active_picoev_add]
      · simp [internal_io_trampoline, picoev_add]
      · simp [internal_io_trampoline, picoev_add]
      · simp [internal_io_trampoline]
      · simp only [internal_io_trampoline, Function.update_self, picoev_add]
        exact Events.Subset.refl event
    · -- Case: an old one, on another descriptor
      have hold : s.loc g' = .trampoline fd' event' arg' := by
        simpa [internal_io_trampoline, Function.update_of_ne hg] using hloc'
      obtain ⟨exc, hreg, hsub⟩ := hl g' fd' event' arg' hold
      have hfd : fd' ≠ fd := by
        rintro rfl
        rw [hreg.active] at hfree
        cases hfree
      have hfds : (internal_io_trampoline s g fd event timeout exception).fds fd' = s.fds fd' :=
        Function.update_of_ne hfd _ _
      refine ⟨exc, hreg.frame (Function.update_of_ne hg _ _) hfds ?_, ?_⟩
      · exact Function.update_of_ne (Nat.ne_of_lt (hreg.lt_next hi)) _ _
      · rwa [hfds]
  · simp [internal_io_trampoline, hfree]

/-- An error report removes the registration of a callback only. -/
theorem led_fd_callback {s : St} {fd : Fd} {events : Revents} {r w : Option Callable}
    (hmem : s.mem (s.fds fd).cb_arg = .callback_arg r w) (hl : Led s) :
    Led (fd_callback s fd (s.fds fd).cb_arg events) ∧
      (fd_callback s fd (s.fds fd).cb_arg events).clobbered = s.clobbered := by
  simp only [fd_callback]
  by_cases hev : (events.timeout || events.read || events.write) = true
  · -- Case: a callback is called
    rw [if_pos hev]
    exact ⟨hl, rfl⟩
  · -- Case: an error, and the registration goes
    rw [if_neg hev]
    refine ⟨fun g fd' event' arg hloc => ?_, rfl⟩
    obtain ⟨exc, hreg, hsub⟩ := hl g fd' event' arg hloc
    have harg : arg ≠ (s.fds fd).cb_arg := by
      rintro rfl
      rw [hreg.leads] at hmem
      cases hmem
    have hfd : fd' ≠ fd := by
      rintro rfl
      exact harg hreg.cb_arg.symm
    have hfds : Function.update s.fds fd (picoev_del (s.fds fd)) fd' = s.fds fd' :=
      Function.update_of_ne hfd _ _
    refine ⟨exc, hreg.frame rfl hfds (Function.update_of_ne harg _ _), ?_⟩
    simpa only [hfds] using hsub

/-- The condition of this file: a wait starts on a descriptor that has no
registration. -/
def Unshared (s : St) : Act → Prop
  | .io_trampoline _ fd _ _ _ => active s fd = false
  | _ => True

instance (s : St) : ∀ a, Decidable (Unshared s a)
  | .io_trampoline _ fd _ _ _ => inferInstanceAs (Decidable (active s fd = false))
  | .add_reader .. | .add_writer .. | .report .. | .throw .. | .switch .. =>
    inferInstanceAs (Decidable True)

/-- The handler resumes the parent of the loop, the owner or nobody. -/
theorem led_switch_callback {s : St} (hl : Led s) (g : Gid) (exc : Exc) (events : Revents) :
    Led (trampoline_switch_callback s g exc events) ∧
      (trampoline_switch_callback s g exc events).clobbered = s.clobbered := by
  simp only [trampoline_switch_callback, loop_handle_timeout_error]
  split
  · -- Case: a deadline, which goes to the parent of the loop
    have hstop : Led { s with loop := { s.loop with state := .L_STOP } } := hl.frame rfl rfl rfl
    exact led_resume hstop s.loop.parent (.throw (PyErr_SetString exc))
  · split
    · exact led_resume hl g _
    · exact ⟨hl, rfl⟩

/-- Such a step keeps every waiter registered and clobbers nothing. -/
theorem led_step {s s' : St} {a : Act} (h : step s a = some s') (hok : Unshared s a)
    (hi : Fresh s) (hl : Led s) : Led s' ∧ s'.clobbered = s.clobbered := by
  cases step_cases h with
  | io_trampoline _ => exact led_trampoline hok hi hl
  | add_reader hadd => exact led_register hadd hi hl
  | add_writer hadd => exact led_register hadd hi hl
  | report_wait _ _ => exact led_switch_callback hl _ _ _
  | report_callback _ hmem => exact led_fd_callback hmem hl
  | throw => exact led_resume hl _ _
  | switch => exact led_resume hl _ _

/-! ## Fresh cells -/

theorem fresh_resume {s : St} (hi : Fresh s) (g : Gid) (r : Resumption) : Fresh (resume s g r) := by
  unfold resume
  cases s.loc g with
  | other => exact hi
  | trampoline fd event arg =>
    intro a ha
    apply hi
    by_cases h : a = arg
    · subst h
      simp [trampoline_resumed] at ha
    · simpa [trampoline_resumed, Function.update_of_ne h] using ha

/-- Cells are only taken at `next`, which then moves on. -/
theorem Fresh.alloc {s s' : St} (hi : Fresh s) (hnext : s'.next = s.next + 1)
    (hmem : ∀ a, a ≠ s.next → s'.mem a ≠ .freed → s.mem a ≠ .freed) : Fresh s' := by
  intro a ha
  rw [hnext]
  by_cases h : a = s.next
  · exact h ▸ Nat.lt_succ_self s.next
  · exact Nat.lt_succ_of_lt (hi a (hmem a h ha))

theorem fresh_register {s s' : St} {fd : Fd} {event : Events} {rcb wcb : Option Callable}
    (h : register_fd_callback s fd event rcb wcb = some s') (hi : Fresh s) : Fresh s' := by
  rcases register_fd_callback_cases h with rfl | ⟨r, w, r', w', hmem, rfl⟩ | ⟨-, rfl⟩
  · refine hi.alloc rfl fun a ha hne => ?_
    simpa [Function.update_of_ne ha] using hne
  · refine hi.alloc rfl fun a ha hne => ?_
    by_cases hc : a = (s.fds fd).cb_arg
    · rw [hc, hmem]
      exact fun hf => nomatch hf
    · simpa [Function.update_of_ne hc, Function.update_of_ne ha] using hne
  · refine hi.alloc rfl fun a ha hne => ?_
    simpa [Function.update_of_ne ha] using hne

theorem fresh_switch_callback {s : St} (hi : Fresh s) (g : Gid) (exc : Exc) (events : Revents) :
    Fresh (trampoline_switch_callback s g exc events) := by
  simp only [trampoline_switch_callback, loop_handle_timeout_error]
  split
  · have hstop : Fresh { s with loop := { s.loop with state := .L_STOP } } := hi
    exact fresh_resume hstop s.loop.parent (.throw (PyErr_SetString exc))
  · split
    · exact fresh_resume hi g _
    · exact hi

theorem fresh_fd_callback {s : St} (hi : Fresh s) (fd : Fd) (carg : Addr) (events : Revents) :
    Fresh (fd_callback s fd carg events) := by
  simp only [fd_callback]
  split
  · exact hi
  · intro a ha
    apply hi
    by_cases hc : a = carg
    · subst hc
      simp at ha
    · simpa [Function.update_of_ne hc] using ha

theorem fresh_step {s s' : St} {a : Act} (h : step s a = some s') (hi : Fresh s) : Fresh s' := by
  cases step_cases h with
  | io_trampoline _ =>
    refine hi.alloc rfl fun a ha hne => ?_
    simpa [internal_io_trampoline, Function.update_of_ne ha] using hne
  | add_reader hadd => exact fresh_register hadd hi
  | add_writer hadd => exact fresh_register hadd hi
  | report_wait _ _ => exact fresh_switch_callback hi _ _ _
  | report_callback _ _ => exact fresh_fd_callback hi _ _ _
  | throw => exact fresh_resume hi _ _
  | switch => exact fresh_resume hi _ _

/-! ## No waiter is overwritten -/

/-- What the users of `io_trampoline` rely on: the slot of a descriptor that a
greenlet waits for is active, watches what the greenlet asked for and leads
back to it; a readiness report resumes that greenlet; and no wait, when it
starts or ends, has replaced or removed a registration that is not its own. -/
structure Guarded (s : St) : Prop where
  led : Led s
  ready : ∀ g fd event arg, s.loc g = .trampoline fd event arg →
    ∀ events : Revents, events.timeout = false → (events.read || events.write) = true →
      ∃ s', step s (.report fd events) = some s' ∧
        s'.received = s.received ++ [(g, .value .empty_tuple)]
  kept : s.clobbered = []

theorem Led.ready {s : St} (hl : Led s) {g : Gid} {fd : Fd} {event : Events} {arg : Addr}
    (hloc : s.loc g = .trampoline fd event arg) {events : Revents}
    (ht : events.timeout = false) (hrw : (events.read || events.write) = true) :
    ∃ s', step s (.report fd events) = some s' ∧
      s'.received = s.received ++ [(g, .value .empty_tuple)] := by
  obtain ⟨exc, hreg, -⟩ := hl g fd event arg hloc
  have hne : events.nonzero = true := by
    simp [Revents.nonzero, hrw]
  have hwr : (events.write || events.read) = true := by
    rw [Bool.or_comm]
    exact hrw
  refine ⟨_, hreg.report hne, ?_⟩
  simp only [trampoline_switch_callback, ht, hwr, if_true, Bool.false_eq_true, if_false]
  exact resume_received s g _

theorem Led.guarded {s : St} (hl : Led s) (hk : s.clobbered = []) : Guarded s where
  led := hl
  ready := fun _ _ _ _ hloc _ ht hrw => hl.ready hloc ht hrw
  kept := hk

theorem fresh_init (greenlet parent : Gid) : Fresh (init greenlet parent) := by
  intro a ha
  exact absurd rfl ha

theorem guarded_init (greenlet parent : Gid) : Guarded (init greenlet parent) := by
  refine Led.guarded ?_ rfl
  intro g fd event arg h
  cases h

/-- A start on a registered descriptor is on record. -/
theorem trampoline_clobbered (s : St) (g : Gid) {fd : Fd} (event : Events) (timeout : Nat)
    (exception : Option Exc) (hact : active s fd = true) :
    (internal_io_trampoline s g fd event timeout exception).clobbered = s.clobbered ++ [fd] := by
  simp [internal_io_trampoline, hact]

/-- One step keeps the waiters guarded exactly if it starts no wait on a
registered descriptor. -/
theorem guarded_step_iff {s s' : St} {a : Act} (h : step s a = some s') (hi : Fresh s)
    (hg : Guarded s) : Guarded s' ↔ Unshared s a := by
  constructor
  · -- a start on a registered descriptor would be on record
    intro hg'
    cases step_cases h with
    | @io_trampoline g fd event timeout exception _ =>
      have hkept := hg'.kept
      refine Bool.eq_false_iff.2 fun hact => ?_
      rw [trampoline_clobbered s g event timeout exception hact] at hkept
      simp at hkept
    | _ => exact trivial
  · -- any other step keeps every waiter registered
    intro hok
    rcases led_step h hok hi hg.led with ⟨hl, hk⟩
    exact hl.guarded (hk.trans hg.kept)

/-- Along a run of a loop, no waiter is ever overwritten exactly when every wait
starts on a descriptor that has no registration. -/
theorem guarded_iff_unshared {greenlet parent : Gid} {s : St} {as : List Act}
    (hrun : run step (init greenlet parent) as = some s) :
    Always step Guarded (init greenlet parent) as ↔
      Steps step Unshared (init greenlet parent) as :=
  always_iff_steps
    (fun _ _ _ h _ (hi : Fresh _) _ => fresh_step h hi)
    (fun _ _ _ h hi hg => guarded_step_iff h hi hg)
    (fresh_init greenlet parent) (guarded_init greenlet parent) hrun

/-- A main greenlet that reads one socket while another greenlet writes to a
second one that has a reader of a third. -/
theorem guarded_iff_unshared_apart :
    (∃ s, run step (init 0 1) [.add_reader 5 7, .io_trampoline 1 3 ⟨true, false⟩ 0 none,
      .io_trampoline 2 4 ⟨false, true⟩ 10 none, .report 4 ⟨false, true, false, false⟩,
      .throw 1 (.TimeoutException none)] = some s) ∧
    Always step Guarded (init 0 1) [.add_reader 5 7, .io_trampoline 1 3 ⟨true, false⟩ 0 none,
      .io_trampoline 2 4 ⟨false, true⟩ 10 none, .report 4 ⟨false, true, false, false⟩,
      .throw 1 (.TimeoutException none)] :=
  ⟨⟨_, rfl⟩, (guarded_iff_unshared (s := _) rfl).2 (by decide)⟩

/-- One greenlet receives and another one sends on the same socket: the slot of
the descriptor no longer leads to the first. -/
theorem sender_overwrites_receiver :
    ∃ s, run step (init 0 1) [.io_trampoline 1 3 ⟨true, false⟩ 0 none,
      .io_trampoline 2 3 ⟨false, true⟩ 0 none] = some s ∧ ¬ Guarded s := by
  refine ⟨_, rfl, fun hg => ?_⟩
  obtain ⟨exc, hreg, -⟩ := hg.led 1 3 ⟨true, false⟩ 0 rfl
  have hslot : (1 : Addr) = 0 := hreg.cb_arg
  exact absurd hslot (by decide)

end Jega.Io
