import Jega.Reactor.Model

/-!
# Jega.Reactor.Handlers — every handler finds its argument

A descriptor that is registered has a live argument of its callback's kind
(`Served`), and both models agree on what is registered (`Inv.agree`). So an event
always finds one. A timeout does as long as the walk has only registered
descriptors in its copy of a word.

## Main result

* `served_iff_spares`: exactly if no step deletes a descriptor in the copy.
-/

namespace Jega.Reactor

open Io (Fd Events Revents Callable active Linked)
open Function Trace

variable {c : Picoev.Config}

/-! ## One table -/

/-- Loop and events of the descriptors. -/
abbrev Table := Fd → Nat × Events

def io_table (s : Io.St) : Table := fun fd => ((s.fds fd).loop_id, (s.fds fd).events)

def ev_table (s : Picoev.St) : Table := fun fd => ((s.fds fd).loop_id, (s.fds fd).events)

/-- The table after a call. -/
def after (t : Table) : Option Picoev.Act → Table
  | some (.add fd events _) => update t fd (Picoev.loop_id, events)
  | some (.del fd) => update t fd (0, ⟨false, false⟩)
  | some (.set_events fd events) => update t fd ((t fd).1, events)
  | _ => t

/-- One slot is written. -/
theorem io_table_update {s s' : Io.St} {fd : Fd} {target : Io.picoev_fd Io.Handler Io.Addr}
    (h : s'.fds = update s.fds fd target) :
    io_table s' = update (io_table s) fd (target.loop_id, target.events) := by
  funext x
  rw [io_table, h]
  by_cases hx : x = fd
  · subst hx
    rw [update_self, update_self]
  · rw [update_of_ne hx, update_of_ne hx, io_table]

theorem ev_table_update {s s' : Picoev.St} {fd : Fd} {target : Picoev.picoev_fd}
    (h : s'.fds = update s.fds fd target) :
    ev_table s' = update (ev_table s) fd (target.loop_id, target.events) := by
  funext x
  rw [ev_table, h]
  by_cases hx : x = fd
  · subst hx
    rw [update_self, update_self]
  · rw [update_of_ne hx, update_of_ne hx, ev_table]

theorem del_slot (s : Picoev.St) (fd : Fd) :
    (Picoev.picoev_del c s fd).fds = update s.fds fd ⟨0, ⟨false, false⟩, 255⟩ := by
  rw [Picoev.picoev_del]
  dsimp only
  rw [Picoev.set_timeout_fds, Picoev.update_events_eq]
  simp

theorem after_ev_step {s s' : Picoev.St} {a : Picoev.Act} (h : Picoev.step c s a = some s') :
    ev_table s' = after (ev_table s) (some a) := by
  cases a with
  | add fd events secs =>
    rcases Picoev.eq_of_guard h with ⟨-, rfl⟩
    exact ev_table_update (Picoev.add_fds s fd events secs)
  | del fd =>
    rcases Picoev.eq_of_guard h with ⟨-, rfl⟩
    exact ev_table_update (del_slot s fd)
  | set_events fd events =>
    rcases Picoev.eq_of_guard h with ⟨-, rfl⟩
    rw [Picoev.set_events_eq]
    exact (ev_table_update rfl).trans rfl
  | set_timeout fd secs =>
    rcases Picoev.eq_of_guard h with ⟨-, rfl⟩
    rw [ev_table_update (Picoev.set_timeout_fds s fd secs)]
    exact update_eq_self fd (ev_table s)
  | opens fd =>
    rcases Picoev.eq_of_guard h with ⟨-, rfl⟩
    rfl
  | closes fd kept =>
    rw [Picoev.step, Option.some.injEq] at h
    subst h
    rfl
  | released fd ev =>
    rw [Picoev.step, Option.some.injEq] at h
    subst h
    rfl
  | loop_once now events =>
    rcases Picoev.eq_of_guard h with ⟨-, rfl⟩
    rfl
  | interrupted now =>
    rcases Picoev.eq_of_guard h with ⟨-, rfl⟩
    rfl
  | poll =>
    rcases Picoev.poll_eq h with ⟨event, events, -, rfl⟩
    rfl
  | polled now =>
    rcases Picoev.eq_of_guard h with ⟨-, rfl⟩
    rfl
  | handle_timeout =>
    funext fd
    rcases (Picoev.scans_kernel (Picoev.scans_of_step h)).2 fd with ⟨hloop, hevents⟩
    exact Prod.ext hloop hevents

theorem after_move {s s' : Picoev.St} {a : Option Picoev.Act}
    (h : move (Picoev.step c) s a = some s') : ev_table s' = after (ev_table s) a := by
  cases a with
  | none =>
    rw [move, Option.some.injEq] at h
    rw [h]
    rfl
  | some a => exact after_ev_step h

theorem after_resume (s : Io.St) (g : Gid) (r : Resumption) :
    io_table (Io.resume s g r) = after (io_table s) (resume_call s g) := by
  unfold Io.resume resume_call
  cases s.loc g with
  | other => rfl
  | trampoline fd event arg => exact (io_table_update rfl).trans rfl

theorem after_register {s s' : Io.St} {fd : Fd} {event : Events} {rcb wcb : Option Callable}
    (h : Io.register_fd_callback s fd event rcb wcb = some s') :
    io_table s' = after (io_table s) (register_call s fd event rcb wcb) := by
  simp only [Io.register_fd_callback] at h
  unfold register_call
  cases hact : active s fd with
  | false =>
    simp only [hact, Bool.false_eq_true, if_false, Option.some.injEq] at h
    subst h
    exact (io_table_update rfl).trans rfl
  | true =>
    simp only [hact, if_true] at h
    cases hmem : s.mem (s.fds fd).cb_arg with
    | freed => simp [hmem] at h
    | switch_arg g exc =>
      simp only [hmem, Option.some.injEq] at h
      subst h
      rfl
    | callback_arg r w =>
      simp only [hmem] at h
      cases hmerge : Io.merge_callback_arg r rcb wcb w with
      | none =>
        simp only [hmerge, Option.some.injEq] at h
        subst h
        simp only [if_true, hmerge]
        rfl
      | some p =>
        simp only [hmerge, Option.some.injEq] at h
        subst h
        simp only [if_true, hmerge]
        exact (io_table_update rfl).trans rfl

theorem after_handler {s s' : Io.St} {fd : Fd} {events : Revents}
    (h : handler s fd events = some s') :
    io_table s' = after (io_table s) (handler_call s fd events) := by
  unfold handler at h
  unfold handler_call
  split at h
  · next g exc hcb hmem =>
    cases h
    simp only [Io.trampoline_switch_callback, Io.loop_handle_timeout_error]
    cases ht : events.timeout with
    | true =>
      simp only [if_true]
      exact after_resume { s with loop := { s.loop with state := .L_STOP } } s.loop.parent
        (.throw (PyErr_SetString exc))
    | false =>
      simp only [Bool.false_eq_true, if_false]
      split
      · exact after_resume s g (.value .empty_tuple)
      · rfl
  · next read write hcb hmem =>
    cases h
    simp only [Io.fd_callback]
    split
    · rfl
    · exact (io_table_update rfl).trans rfl
  · cases h

/-- A step of `loop.c` and its call leave the same table. -/
theorem after_io_step {s : St} {a : Act} {io : Io.St} (h : io_step s a = some io) :
    io_table io = after (io_table s.io) (call s a) := by
  cases a with
  | io a =>
    cases a with
    | report fd events => cases h
    | io_trampoline g fd event timeout exception =>
      simp only [io_step, Io.step, Option.ite_none_right_eq_some, Option.some.injEq] at h
      rcases h with ⟨-, -, rfl⟩
      exact (io_table_update rfl).trans rfl
    | add_reader fd cb =>
      simp only [io_step, Io.step, Option.ite_none_right_eq_some] at h
      exact after_register h.2
    | add_writer fd cb =>
      simp only [io_step, Io.step, Option.ite_none_right_eq_some] at h
      exact after_register h.2
    | throw g e =>
      simp only [io_step, Io.step, Option.ite_none_right_eq_some, Option.some.injEq] at h
      rcases h with ⟨-, rfl⟩
      exact after_resume s.io g (.throw e)
    | switch g v =>
      simp only [io_step, Io.step, Option.ite_none_right_eq_some, Option.some.injEq] at h
      rcases h with ⟨-, rfl⟩
      exact after_resume s.io g (.value v)
  | ev a =>
    simp only [io_step, Option.ite_none_right_eq_some, Option.some.injEq] at h
    rcases h with ⟨⟨-, hown⟩, rfl⟩
    cases a <;> first | rfl | cases hown
  | handler =>
    simp only [io_step, call] at h ⊢
    rcases Option.bind_eq_some_iff.1 h with ⟨⟨fd, events⟩, hcalling, hrun⟩
    rw [hcalling, Option.bind_some]
    exact after_handler hrun

/-! ## Arguments -/

/-- The slot leads to an argument of its callback's kind. -/
def Kind (s : Io.St) (fd : Fd) : Prop :=
  match (s.fds fd).callback with
  | .trampoline_switch_callback => ∃ g exc, s.mem (s.fds fd).cb_arg = .switch_arg g exc
  | .fd_callback => ∃ r w, s.mem (s.fds fd).cb_arg = .callback_arg r w

/-- Registered descriptors have arguments, and each its own. -/
structure Served (s : Io.St) : Prop where
  kind : ∀ fd, active s fd = true → Kind s fd
  apart : ∀ fd fd', active s fd = true → active s fd' = true →
    (s.fds fd).cb_arg = (s.fds fd').cb_arg → fd = fd'

theorem served_init (greenlet parent : Gid) : Served (Io.init greenlet parent) where
  kind := fun fd h => by cases h
  apart := fun fd fd' h => by cases h

theorem kind_of_eq {s s' : Io.St} {fd : Fd} (h : Kind s fd) (hfd : s'.fds fd = s.fds fd)
    (hmem : s'.mem (s.fds fd).cb_arg = s.mem (s.fds fd).cb_arg) : Kind s' fd := by
  unfold Kind at h ⊢
  rw [hfd, hmem]
  exact h

theorem active_of_ne {s s' : Io.St} {fd x : Fd} {target : Io.picoev_fd Io.Handler Io.Addr}
    (h : s'.fds = update s.fds fd target) (hx : x ≠ fd) :
    active s' x = active s x ∧ s'.fds x = s.fds x := by
  have heq : s'.fds x = s.fds x := by
    rw [h, update_of_ne hx]
  exact ⟨by rw [active, active, heq], heq⟩

/-- One slot is written, and the cells of the others are left alone. -/
theorem Served.put {s s' : Io.St} (h : Served s) {fd : Fd}
    {target : Io.picoev_fd Io.Handler Io.Addr} (hfds : s'.fds = update s.fds fd target)
    (hmem : ∀ x, x ≠ fd → active s x = true → s'.mem (s.fds x).cb_arg = s.mem (s.fds x).cb_arg)
    (hself : active s' fd = true → Kind s' fd ∧
      ∀ x, x ≠ fd → active s x = true → (s.fds x).cb_arg ≠ target.cb_arg) : Served s' := by
  have hslots : ∀ x, x ≠ fd → active s' x = true → active s x = true ∧ s'.fds x = s.fds x := by
    intro x hx hact
    rcases active_of_ne hfds hx with ⟨heq, hslot⟩
    exact ⟨heq ▸ hact, hslot⟩
  have hfd : s'.fds fd = target := by
    rw [hfds, update_self]
  constructor
  · intro x hx
    by_cases heq : x = fd
    · subst heq
      exact (hself hx).1
    · rcases hslots x heq hx with ⟨hold, hslot⟩
      exact kind_of_eq (h.kind x hold) hslot (hmem x heq hold)
  · intro x y hx hy hargs
    by_cases hxfd : x = fd
    · by_cases hyfd : y = fd
      · rw [hxfd, hyfd]
      · subst hxfd
        rcases hslots y hyfd hy with ⟨hold, hslot⟩
        rw [hfd, hslot] at hargs
        exact absurd hargs.symm ((hself hx).2 y hyfd hold)
    · rcases hslots x hxfd hx with ⟨hold, hslot⟩
      rw [hslot] at hargs
      by_cases hyfd : y = fd
      · subst hyfd
        rw [hfd] at hargs
        exact absurd hargs ((hself hy).2 x hxfd hold)
      · rcases hslots y hyfd hy with ⟨hold', hslot'⟩
        rw [hslot'] at hargs
        exact h.apart x y hold hold' hargs

/-- No slot is written. -/
theorem Served.congr {s s' : Io.St} (h : Served s) (hfds : s'.fds = s.fds)
    (hmem : ∀ fd, active s fd = true → s'.mem (s.fds fd).cb_arg = s.mem (s.fds fd).cb_arg) :
    Served s' := by
  have hactive : ∀ fd, active s' fd = active s fd := by
    intro fd
    rw [active, active, hfds]
  constructor
  · intro fd hfd
    rw [hactive] at hfd
    exact kind_of_eq (h.kind fd hfd) (congrFun hfds fd) (hmem fd hfd)
  · intro fd fd' hfd hfd'
    rw [hactive] at hfd hfd'
    rw [hfds]
    exact h.apart fd fd' hfd hfd'

theorem not_active_del {s s' : Io.St} {fd : Fd}
    (h : s'.fds = update s.fds fd (Io.picoev_del (s.fds fd))) : active s' fd = false := by
  rw [active, h, update_self]
  rfl

theorem served_resume {s : Io.St} (h : Served s) (hl : Linked s) (g : Gid) (r : Resumption) :
    Served (Io.resume s g r) := by
  cases hloc : s.loc g with
  | other =>
    rw [Io.resume_other hloc]
    exact h.congr rfl fun _ _ => rfl
  | trampoline fd event arg =>
    have hresumed : Io.resume s g r = Io.trampoline_resumed s g fd arg r := by
      simp [Io.resume, hloc]
    have hfds : (Io.trampoline_resumed s g fd arg r).fds =
        update s.fds fd (Io.picoev_del (s.fds fd)) := rfl
    rw [hresumed]
    refine h.put hfds ?_ ?_
    · intro x hx hact
      -- the argument of the wait is in no other slot
      refine update_of_ne ?_ _ _
      intro heq
      rcases hl.cell g fd event arg hloc with ⟨exc, hcell⟩
      rw [← heq] at hcell
      rcases hl.slot x g exc hact hcell with ⟨event', hloc'⟩
      rw [hloc, Io.Where.trampoline.injEq] at hloc'
      exact hx hloc'.1.symm
    · intro hact
      rw [not_active_del hfds] at hact
      cases hact

theorem served_trampoline {s : Io.St} (h : Served s) (hl : Linked s) (g : Gid) (fd : Fd)
    (event : Events) (timeout : Nat) (exception : Option Exc) :
    Served (Io.internal_io_trampoline s g fd event timeout exception) := by
  have hfds : (Io.internal_io_trampoline s g fd event timeout exception).fds = update s.fds fd
      (Io.picoev_add Io.loop_id event timeout .trampoline_switch_callback s.next) := rfl
  refine h.put hfds ?_ ?_
  · intro x _ hact
    exact update_of_ne (Nat.ne_of_lt (hl.taken x hact)) _ _
  · intro _
    constructor
    · simp [Kind, Io.internal_io_trampoline, Io.picoev_add]
    · intro x _ hact
      exact Nat.ne_of_lt (hl.taken x hact)

theorem served_register {s s' : Io.St} {fd : Fd} {event : Events} {rcb wcb : Option Callable}
    (hreg : Io.register_fd_callback s fd event rcb wcb = some s') (h : Served s) (hl : Linked s) :
    Served s' := by
  have hnext : ∀ x, active s x = true → (s.fds x).cb_arg ≠ s.next :=
    fun x hact => Nat.ne_of_lt (hl.taken x hact)
  cases hold : active s fd with
  | false =>
    -- a free slot is taken
    simp only [Io.register_fd_callback, hold, Bool.false_eq_true, if_false,
      Option.some.injEq] at hreg
    subst hreg
    refine h.put rfl ?_ ?_
    · intro x _ hact
      exact update_of_ne (hnext x hact) _ _
    · intro _
      constructor
      · simp [Kind, Io.picoev_add]
      · intro x _ hact
        exact hnext x hact
  | true =>
    rcases Io.register_fd_callback_cases hreg with
      rfl | ⟨r, w, r', w', hmem, rfl⟩ | ⟨hfree, -⟩
    · -- nothing is registered
      exact h.congr rfl fun x hact => update_of_ne (hnext x hact) _ _
    · -- the argument in the slot gets a callback more
      have hne : ∀ x, x ≠ fd → active s x = true → (s.fds x).cb_arg ≠ (s.fds fd).cb_arg :=
        fun x hx hact heq => hx (h.apart x fd hact hold heq)
      refine h.put rfl ?_ ?_
      · intro x hx hact
        change update (update s.mem s.next _) (s.fds fd).cb_arg _ _ = _
        rw [update_of_ne (hne x hx hact), update_of_ne (hnext x hact)]
      · intro _
        have hkind := h.kind fd hold
        constructor
        · unfold Kind at hkind ⊢
          simp only [update_self, Io.picoev_set_events]
          cases hcb : (s.fds fd).callback with
          | trampoline_switch_callback =>
            rw [hcb, hmem] at hkind
            rcases hkind with ⟨g, exc, hcell⟩
            cases hcell
          | fd_callback => exact ⟨r', w', rfl⟩
        · intro x hx hact
          exact hne x hx hact
    · rw [hold] at hfree
      cases hfree

theorem served_handler {s s' : Io.St} {fd : Fd} {events : Revents}
    (hrun : handler s fd events = some s') (hfd : active s fd = true) (h : Served s)
    (hl : Linked s) : Served s' := by
  unfold handler at hrun
  split at hrun
  · next g exc hcb hmem =>
    cases hrun
    simp only [Io.trampoline_switch_callback, Io.loop_handle_timeout_error]
    split
    · have hstop : Served { s with loop := { s.loop with state := .L_STOP } } :=
        h.congr rfl fun _ _ => rfl
      have hlstop : Linked { s with loop := { s.loop with state := .L_STOP } } :=
        ⟨hl.fresh, hl.cell, hl.leads, hl.taken, hl.slot⟩
      exact served_resume hstop hlstop s.loop.parent (.throw (PyErr_SetString exc))
    · split
      · exact served_resume h hl g _
      · exact h
  · next read write hcb hmem =>
    cases hrun
    simp only [Io.fd_callback]
    split
    · exact h
    · refine h.put rfl ?_ ?_
      · intro x hx hact
        exact update_of_ne (fun heq => hx (h.apart x fd hact hfd heq)) _ _
      · intro hact
        rw [not_active_del (s := s) rfl] at hact
        cases hact
  · cases hrun

theorem linked_handler {s s' : Io.St} {fd : Fd} {events : Revents}
    (hrun : handler s fd events = some s') (hl : Linked s) : Linked s' := by
  unfold handler at hrun
  split at hrun
  · cases hrun
    exact Io.linked_switch_callback hl _ _ _
  · next read write hcb hmem =>
    cases hrun
    exact Io.linked_fd_callback hmem hl
  · cases hrun

/-- The handler of a registered descriptor runs. -/
theorem Served.handler_isSome {s : Io.St} (h : Served s) {fd : Fd} (hfd : active s fd = true)
    (events : Revents) : (handler s fd events).isSome = true := by
  have hkind := h.kind fd hfd
  unfold Kind at hkind
  unfold handler
  cases hcb : (s.fds fd).callback with
  | trampoline_switch_callback =>
    rw [hcb] at hkind
    rcases hkind with ⟨g, exc, hmem⟩
    simp [hmem]
  | fd_callback =>
    rw [hcb] at hkind
    rcases hkind with ⟨r, w, hmem⟩
    simp [hmem]

/-! ## Runs -/

theorem step_parts {s s' : St} {a : Act} (h : step c s a = some s') :
    io_step s a = some s'.io ∧ move (Picoev.step c) s.ev (call s a) = some s'.ev ∧
      s'.calling = calls s a := by
  rcases Option.bind_eq_some_iff.1 h with ⟨io, hio, hmap⟩
  rcases Option.map_eq_some_iff.1 hmap with ⟨ev, hev, rfl⟩
  exact ⟨hio, hev, rfl⟩

structure Inv (c : Picoev.Config) (s : St) : Prop where
  shape : Picoev.Shape c s.ev
  rep : Picoev.Rep c s.ev
  agree : io_table s.io = ev_table s.ev
  linked : Linked s.io
  served : Served s.io

/-- Picoev calls handlers of registered descriptors, whose argument is live and of
their kind, and only these are in the copy that the walk has of a word. -/
structure Sound (s : St) : Prop where
  called : ∀ fd events, s.calling = some (fd, events) →
    active s.io fd = true ∧ (handler s.io fd events).isSome = true
  copied : ∀ fd, s.ev.pc.copied fd = true → active s.io fd = true

def deleted : Picoev.Act → Option Fd
  | .del fd => some fd
  | _ => none

/-- No descriptor in the copy is deleted. -/
def Spares (s : St) (a : Act) : Prop :=
  ∀ fd ∈ (call s a).bind deleted, s.ev.pc.copied fd = false

/-- No descriptor that has a timeout is registered again without one, or with one in
another slot of the wheel: of the calls that delete nothing, only these are not
calm. -/
def Once (c : Picoev.Config) (s : St) (a : Act) : Prop :=
  ∀ b ∈ call s a, deleted b = none → Picoev.Calm c s.ev b

instance (s : St) (a : Act) : Decidable (Spares s a) :=
  inferInstanceAs (Decidable (∀ fd ∈ (call s a).bind deleted, s.ev.pc.copied fd = false))

instance (s : St) (a : Act) : Decidable (Once c s a) :=
  inferInstanceAs (Decidable (∀ b ∈ call s a, deleted b = none → Picoev.Calm c s.ev b))

theorem inv_init (greenlet parent : Gid) (base_time now : Int) :
    Inv c (init greenlet parent base_time now) where
  shape := Picoev.shape_create_loop base_time now
  rep := Picoev.rep_create_loop base_time now
  agree := rfl
  linked := Io.linked_init greenlet parent
  served := served_init greenlet parent

theorem sound_init (greenlet parent : Gid) (base_time now : Int) :
    Sound (init greenlet parent base_time now) where
  called := fun fd events h => by cases h
  copied := fun fd h => by cases h

/-- The tables say the same of a descriptor. -/
theorem active_iff {s : St} (h : io_table s.io = ev_table s.ev) (fd : Fd) :
    active s.io fd = true ↔ (s.ev.fds fd).loop_id = Picoev.loop_id := by
  have heq : (s.io.fds fd).loop_id = (s.ev.fds fd).loop_id := congrArg Prod.fst (congrFun h fd)
  rw [active, Io.picoev_is_active, decide_eq_true_eq, heq]
  rfl

theorem io_step_of_io {s : St} {a : Io.Act} {io : Io.St} (h : io_step s (.io a) = some io) :
    Io.step s.io a = some io := by
  cases a with
  | report fd events => cases h
  | _ => exact (Option.ite_none_right_eq_some.1 h).2

theorem linked_io_step {s : St} {a : Act} {io : Io.St} (h : io_step s a = some io)
    (hl : Linked s.io) : Linked io := by
  cases a with
  | io a => exact Io.linked_step (io_step_of_io h) hl
  | ev a =>
    cases (Option.ite_none_right_eq_some.1 h).2
    exact hl
  | handler =>
    rcases Option.bind_eq_some_iff.1 h with ⟨⟨fd, events⟩, -, hrun⟩
    exact linked_handler hrun hl

theorem served_io_step {s : St} {a : Act} {io : Io.St} (h : io_step s a = some io)
    (hsound : Sound s) (hl : Linked s.io) (hserved : Served s.io) : Served io := by
  cases a with
  | io a =>
    cases Io.step_cases (io_step_of_io h) with
    | io_trampoline _ => exact served_trampoline hserved hl _ _ _ _ _
    | add_reader hadd => exact served_register hadd hserved hl
    | add_writer hadd => exact served_register hadd hserved hl
    | report_wait _ _ => cases h
    | report_callback _ _ => cases h
    | throw => exact served_resume hserved hl _ _
    | switch => exact served_resume hserved hl _ _
  | ev a =>
    cases (Option.ite_none_right_eq_some.1 h).2
    exact hserved
  | handler =>
    rcases Option.bind_eq_some_iff.1 h with ⟨⟨fd, events⟩, hcalling, hrun⟩
    exact served_handler hrun (hsound.called fd events hcalling).1 hserved hl

theorem calm_of {s : St} {a : Act} (honce : Once c s a) (hspares : Spares s a) :
    ∀ b, call s a = some b → Picoev.Calm c s.ev b := by
  intro b hb
  cases b with
  | del fd =>
    apply hspares fd
    rw [hb]
    rfl
  | _ => exact honce _ hb rfl

theorem Inv.step {s s' : St} {a : Act} (h : Inv c s) (hs : step c s a = some s')
    (honce : Once c s a) (hspares : Spares s a) (hsound : Sound s) : Inv c s' := by
  rcases step_parts hs with ⟨hio, hev, -⟩
  have hstep : ∀ t b t', Picoev.step c t b = some t' → Picoev.Calm c t b →
      Picoev.Shape c t ∧ Picoev.Rep c t → Picoev.Shape c t' ∧ Picoev.Rep c t' :=
    fun t b t' ht hcalm hold => ⟨hold.1.step ht, hold.2.step hold.1 hcalm ht⟩
  have hpair := move_invariant hstep hev (calm_of honce hspares) ⟨h.shape, h.rep⟩
  constructor
  · exact hpair.1
  · exact hpair.2
  · rw [after_io_step hio, after_move hev, h.agree]
  · exact linked_io_step hio h.linked
  · exact served_io_step hio hsound h.linked h.served

/-- A handler that picoev calls belongs to a registered descriptor. -/
theorem Inv.called {s : St} (h : Inv c s) {a : Picoev.Act} {fd : Fd} {events : Revents}
    (hcall : Picoev.called s.ev a = some (fd, events)) :
    (s.ev.fds fd).loop_id = Picoev.loop_id := by
  cases a with
  | poll =>
    rw [Picoev.called] at hcall
    split at hcall
    · next event _ hpc =>
      rcases Option.ite_none_right_eq_some.1 hcall with ⟨⟨hwatched, -⟩, heq⟩
      cases heq
      have hw : (s.ev.fds event.fd).loop_id = Picoev.loop_id ∧ _ := of_decide_eq_true hwatched
      exact hw.1
    · cases hcall
  | handle_timeout => exact (Picoev.called_armed h.shape h.rep hcall).1.1
  | _ => cases hcall

theorem Inv.sound {s s' : St} {a : Act} (h : Inv c s) (hs : Reactor.step c s a = some s')
    (h' : Inv c s') : Sound s' := by
  rcases step_parts hs with ⟨hio, -, hcalling⟩
  constructor
  · intro fd events heq
    rw [hcalling] at heq
    cases a with
    | io a => cases heq
    | handler => cases heq
    | ev a =>
      have hsame : s.io = s'.io := Option.some.inj (Option.ite_none_right_eq_some.1 hio).2
      have hactive : active s'.io fd = true := by
        rw [← hsame, active_iff h.agree]
        exact h.called heq
      exact ⟨hactive, h'.served.handler_isSome hactive events⟩
  · intro fd hcopied
    rw [active_iff h'.agree]
    exact (h'.rep.armed_of_copied h'.shape hcopied).1

/-- A descriptor is deleted that is in the copy. -/
theorem spares_of_sound {s s' : St} {a : Act} (h : Inv c s) (hs : step c s a = some s')
    (hsound : Sound s') : Spares s a := by
  rcases step_parts hs with ⟨hio, hev, -⟩
  intro fd hmem
  by_contra hcopied
  have hdel : call s a = some (.del fd) := by
    rcases Option.bind_eq_some_iff.1 hmem with ⟨b, hb, hfd⟩
    cases b with
    | del x =>
      cases hfd
      exact hb
    | _ => cases hfd
  have htable : io_table s'.io = ev_table s'.ev := by
    rw [after_io_step hio, after_move hev, h.agree]
  have hev' : Picoev.step c s.ev (.del fd) = some s'.ev := by
    rw [hdel] at hev
    exact hev
  have hstill := Picoev.still_of_call hev' rfl
  have hcopied' : s'.ev.pc.copied fd = true := by
    rw [hstill.pc]
    exact Bool.eq_true_of_not_eq_false hcopied
  have hactive := (active_iff htable fd).1 (hsound.copied fd hcopied')
  have hgone : ev_table s'.ev fd = (0, ⟨false, false⟩) := by
    rw [after_ev_step hev']
    exact update_self fd _ _
  have hzero : (s'.ev.fds fd).loop_id = 0 := congrArg Prod.fst hgone
  rw [hzero] at hactive
  exact absurd hactive Nat.zero_ne_one

/-- Every handler that picoev calls finds a live argument of a registered
descriptor, exactly as long as no wait ends whose descriptor is in the copy. -/
theorem served_iff_spares {greenlet parent : Gid} {base_time now : Int} {s : St} {as : List Act}
    (honce : Steps (step c) (Once c) (init greenlet parent base_time now) as)
    (hrun : run (step c) (init greenlet parent base_time now) as = some s) :
    Always (step c) Sound (init greenlet parent base_time now) as ↔
      Steps (step c) Spares (init greenlet parent base_time now) as := by
  refine always_iff_steps_of (fun s a s' hs hpre hok (h : Inv c s) hsound => ?_)
    (fun s a s' hs hpre h hsound => ?_) (inv_init greenlet parent base_time now)
    (sound_init greenlet parent base_time now) honce hrun
  · exact h.step hs hpre hok hsound
  · constructor
    · exact spares_of_sound h hs
    · intro hok
      exact h.sound hs (h.step hs hpre hok hsound)

/-- The main greenlet waits for a second, which is called three seconds later. -/
def waits : List Act :=
  [.ev (.opens 5), .io (.io_trampoline 1 5 ⟨true, false⟩ 1 none), .ev (.loop_once 3 []),
    .ev (.polled 3)]

def walks (n : Nat) : List Act := .replicate n (.ev .handle_timeout)

theorem served_iff_spares_timeout : ∃ s : St, s.calling = some (5, ⟨false, false, true, false⟩) ∧
    (Always (step Picoev.jega) Sound (init 0 1 0 0) (waits ++ walks 27) ↔
      Steps (step Picoev.jega) Spares (init 0 1 0 0) (waits ++ walks 27)) := by
  rcases run_any (p := fun s : St => s.calling == some (5, ⟨false, false, true, false⟩))
    (by decide +kernel : (run (step Picoev.jega) (init 0 1 0 0) (waits ++ walks 27)).any _ = true)
    with ⟨s, hs, hp⟩
  exact ⟨s, beq_iff_eq.1 hp, served_iff_spares (by decide +kernel) hs⟩

/-- Another greenlet waits for 3 just as long. Its timeout is thrown into the main
one, whose wait ends with it, and the walk calls that one's handler. -/
example :
    ((run (step Picoev.jega) (init 0 1 0 0)
      (.io (.io_trampoline 2 3 ⟨true, false⟩ 1 none) :: waits ++ walks 25 ++ [.handler] ++ walks 2)).map
        fun s => (s.calling, (handler s.io 5 ⟨false, false, true, false⟩).isSome)) =
      some (some (5, ⟨false, false, true, false⟩), false) := by
  decide +kernel

end Jega.Reactor
