import Jega.Io.Waiters

/-!
# Jega.Io.Private — a descriptor that one greenlet has to itself

What leads from slots to cells and from cells to greenlets is right in every run
(`Linked`). A greenlet that alone waits on a descriptor, and on no other one, then
keeps its registration as long as no step of the others is about the two.

## Main results

* `linked_step`: kept by every step.
* `Private.frame`: a step that is not about the two leaves both alone.
* `Private.begin`, `Private.ready`: a wait starts and ends.
* `Separate.begin`, `Separate.ready`: the same beside a second such greenlet.
-/

namespace Jega.Io

open Function Trace

/-- A greenlet is suspended with a cell of its own, and a cell, or an active slot,
leads to a greenlet that is suspended there. -/
structure Linked (s : St) : Prop where
  fresh : Fresh s
  cell : ∀ g fd event arg, s.loc g = .trampoline fd event arg →
    ∃ exc, s.mem arg = .switch_arg g exc
  leads : ∀ arg g exc, s.mem arg = .switch_arg g exc →
    ∃ fd event, s.loc g = .trampoline fd event arg
  taken : ∀ fd, active s fd = true → (s.fds fd).cb_arg < s.next
  slot : ∀ fd g exc, active s fd = true → s.mem (s.fds fd).cb_arg = .switch_arg g exc →
    ∃ event, s.loc g = .trampoline fd event (s.fds fd).cb_arg

section Linked

variable {s s' : St}

theorem linked_init (greenlet parent : Gid) : Linked (init greenlet parent) where
  fresh := fresh_init greenlet parent
  cell := fun _ _ _ _ h => by cases h
  leads := fun _ _ _ h => by cases h
  taken := fun _ h => by cases h
  slot := fun _ _ _ h => by cases h

theorem Linked.arg_lt (hl : Linked s) {g : Gid} {fd : Fd} {event : Events} {arg : Addr}
    (h : s.loc g = .trampoline fd event arg) : arg < s.next := by
  rcases hl.cell g fd event arg h with ⟨exc, hmem⟩
  apply hl.fresh
  rw [hmem]
  intro hc
  cases hc

/-- The argument of a wait is nobody else's. -/
theorem Linked.arg_ne (hl : Linked s) {g g' : Gid} {fd fd' : Fd} {event event' : Events}
    {arg arg' : Addr} (h : s.loc g = .trampoline fd event arg)
    (h' : s.loc g' = .trampoline fd' event' arg') (hne : g ≠ g') : arg ≠ arg' := by
  rintro rfl
  rcases hl.cell g fd event arg h with ⟨exc, hmem⟩
  rcases hl.cell g' fd' event' arg h' with ⟨exc', hmem'⟩
  rw [hmem, Cell.switch_arg.injEq] at hmem'
  exact hne hmem'.1

theorem active_del (s : St) (fd fd' : Fd) (h : fd' ≠ fd) :
    picoev_is_active loop_id (update s.fds fd (picoev_del (s.fds fd)) fd') = active s fd' := by
  rw [update_of_ne h, active]

theorem linked_resume (hl : Linked s) (g : Gid) (r : Resumption) : Linked (resume s g r) := by
  cases hloc : s.loc g with
  | other =>
    rw [resume_other hloc]
    exact ⟨hl.fresh, hl.cell, hl.leads, hl.taken, hl.slot⟩
  | trampoline fd event arg =>
    have hresumed : resume s g r = trampoline_resumed s g fd arg r := by
      simp [resume, hloc]
    -- a cell that is left leads to another greenlet
    have hcell : ∀ a g' exc, update s.mem arg .freed a = .switch_arg g' exc →
        s.mem a = .switch_arg g' exc ∧ g' ≠ g := by
      intro a g' exc ha
      have hne : a ≠ arg := by
        rintro rfl
        simp at ha
      rw [update_of_ne hne] at ha
      refine ⟨ha, ?_⟩
      rintro rfl
      rcases hl.leads a g' exc ha with ⟨fd', event', hloc'⟩
      rw [hloc, Where.trampoline.injEq] at hloc'
      exact hne hloc'.2.2.symm
    -- a slot that is left is as it was
    have hactive : ∀ fd', active (trampoline_resumed s g fd arg r) fd' = true →
        fd' ≠ fd ∧ active s fd' = true := by
      intro fd' hact
      have hne : fd' ≠ fd := by
        rintro rfl
        simp [active, trampoline_resumed, picoev_is_active, picoev_del, loop_id] at hact
      refine ⟨hne, ?_⟩
      rw [← active_del s fd fd' hne]
      exact hact
    rw [hresumed]
    constructor
    · rw [← hresumed]
      exact fresh_resume hl.fresh g r
    · intro g' fd' event' arg' hloc'
      have hne : g' ≠ g := by
        rintro rfl
        simp [trampoline_resumed] at hloc'
      have hold : s.loc g' = .trampoline fd' event' arg' := by
        simpa [trampoline_resumed, update_of_ne hne] using hloc'
      have harg := hl.arg_ne hold hloc hne
      rcases hl.cell g' fd' event' arg' hold with ⟨exc, hmem⟩
      exact ⟨exc, (update_of_ne harg _ _).trans hmem⟩
    · intro a g' exc ha
      rcases hcell a g' exc ha with ⟨hmem, hne⟩
      rcases hl.leads a g' exc hmem with ⟨fd', event', hold⟩
      exact ⟨fd', event', (update_of_ne hne _ _).trans hold⟩
    · intro fd' hact
      rcases hactive fd' hact with ⟨hne, hold⟩
      have hfds : (trampoline_resumed s g fd arg r).fds fd' = s.fds fd' := update_of_ne hne _ _
      rw [hfds]
      exact hl.taken fd' hold
    · intro fd' g' exc hact hmem
      rcases hactive fd' hact with ⟨hne, hold⟩
      have hfds : (trampoline_resumed s g fd arg r).fds fd' = s.fds fd' := update_of_ne hne _ _
      rw [hfds] at hmem ⊢
      rcases hcell _ g' exc hmem with ⟨hmem', hg⟩
      rcases hl.slot fd' g' exc hold hmem' with ⟨event', hloc'⟩
      exact ⟨event', (update_of_ne hg _ _).trans hloc'⟩

/-- A new cell is not yet led to. -/
theorem Linked.next_freed (hl : Linked s) : s.mem s.next = .freed := by
  by_contra h
  exact absurd (hl.fresh s.next h) (Nat.lt_irrefl _)

theorem linked_trampoline {g : Gid} {fd : Fd} {event : Events} {timeout : Nat}
    {exception : Option Exc} (hg : s.loc g = .other) (hl : Linked s) :
    Linked (internal_io_trampoline s g fd event timeout exception) := by
  -- an old cell leads to another greenlet
  have hother : ∀ a exc, s.mem a ≠ .switch_arg g exc := by
    intro a exc ha
    rcases hl.leads a g exc ha with ⟨fd', event', hloc⟩
    rw [hg] at hloc
    cases hloc
  constructor
  · refine hl.fresh.alloc rfl fun a ha hne => ?_
    simpa [internal_io_trampoline, update_of_ne ha] using hne
  · intro g' fd' event' arg' hloc
    by_cases hne : g' = g
    · subst hne
      simp only [internal_io_trampoline, update_self, Where.trampoline.injEq] at hloc
      rcases hloc with ⟨-, -, rfl⟩
      exact ⟨_, update_self _ _ _⟩
    · have hold : s.loc g' = .trampoline fd' event' arg' := by
        simpa [internal_io_trampoline, update_of_ne hne] using hloc
      rcases hl.cell g' fd' event' arg' hold with ⟨exc, hmem⟩
      exact ⟨exc, (update_of_ne (Nat.ne_of_lt (hl.arg_lt hold)) _ _).trans hmem⟩
  · intro a g' exc ha
    by_cases hnew : a = s.next
    · subst hnew
      simp only [internal_io_trampoline, update_self, Cell.switch_arg.injEq] at ha
      rcases ha with ⟨rfl, -⟩
      exact ⟨fd, event, update_self _ _ _⟩
    · have hmem : s.mem a = .switch_arg g' exc := by
        simpa [internal_io_trampoline, update_of_ne hnew] using ha
      rcases hl.leads a g' exc hmem with ⟨fd', event', hold⟩
      have hne : g' ≠ g := by
        rintro rfl
        exact hother a exc hmem
      exact ⟨fd', event', (update_of_ne hne _ _).trans hold⟩
  · intro fd' hact
    by_cases hfd : fd' = fd
    · subst hfd
      simp [internal_io_trampoline, picoev_add]
    · have hfds : (internal_io_trampoline s g fd event timeout exception).fds fd' = s.fds fd' :=
        update_of_ne hfd _ _
      have hold : active s fd' = true := by
        rwa [active, hfds] at hact
      rw [hfds]
      exact Nat.lt_succ_of_lt (hl.taken fd' hold)
  · intro fd' g' exc hact hmem
    by_cases hfd : fd' = fd
    · subst hfd
      simp only [internal_io_trampoline, update_self, picoev_add, Cell.switch_arg.injEq] at hmem ⊢
      rcases hmem with ⟨rfl, -⟩
      exact ⟨event, update_self _ _ _⟩
    · have hfds : (internal_io_trampoline s g fd event timeout exception).fds fd' = s.fds fd' :=
        update_of_ne hfd _ _
      have hold : active s fd' = true := by
        rwa [active, hfds] at hact
      rw [hfds] at hmem ⊢
      have hmem' : s.mem (s.fds fd').cb_arg = .switch_arg g' exc := by
        have hlt := Nat.ne_of_lt (hl.taken fd' hold)
        exact (update_of_ne hlt _ _).symm.trans hmem
      rcases hl.slot fd' g' exc hold hmem' with ⟨event', hloc⟩
      have hne : g' ≠ g := by
        rintro rfl
        exact hother _ exc hmem'
      exact ⟨event', (update_of_ne hne _ _).trans hloc⟩

/-- Cells of callbacks may come and go; the waits stay. -/
theorem Linked.callbacks (hl : Linked s) (hloc : s'.loc = s.loc) (hfresh : Fresh s')
    (hmem : ∀ a g exc, s'.mem a = .switch_arg g exc ↔ s.mem a = .switch_arg g exc)
    (htaken : ∀ fd, active s' fd = true → (s'.fds fd).cb_arg < s'.next)
    (hslot : ∀ fd g exc, active s' fd = true → s.mem (s'.fds fd).cb_arg = .switch_arg g exc →
      active s fd = true ∧ (s'.fds fd).cb_arg = (s.fds fd).cb_arg) : Linked s' where
  fresh := hfresh
  cell := by
    intro g fd event arg h
    rw [hloc] at h
    rcases hl.cell g fd event arg h with ⟨exc, hold⟩
    exact ⟨exc, (hmem arg g exc).2 hold⟩
  leads := by
    intro arg g exc h
    rw [hloc]
    exact hl.leads arg g exc ((hmem arg g exc).1 h)
  taken := htaken
  slot := by
    intro fd g exc hact h
    have hold := (hmem _ g exc).1 h
    rcases hslot fd g exc hact hold with ⟨hact', harg⟩
    rw [harg] at hold ⊢
    rw [hloc]
    exact hl.slot fd g exc hact' hold

/-- Where the cell of a callback is written, no wait is read. -/
theorem switch_arg_update {mem : Addr → Cell} {arg : Addr} {c : Cell}
    (hold : ∀ g exc, mem arg ≠ .switch_arg g exc) (hnew : ∀ g exc, c ≠ .switch_arg g exc)
    (a : Addr) (g : Gid) (exc : Exc) :
    update mem arg c a = .switch_arg g exc ↔ mem a = .switch_arg g exc := by
  by_cases h : a = arg
  · subst h
    rw [update_self]
    exact ⟨fun hc => absurd hc (hnew g exc), fun hc => absurd hc (hold g exc)⟩
  · rw [update_of_ne h]

theorem linked_register {fd : Fd} {event : Events} {rcb wcb : Option Callable}
    (h : register_fd_callback s fd event rcb wcb = some s') (hl : Linked s) : Linked s' := by
  have hfresh := fresh_register h hl.fresh
  have hnext : ∀ g exc, s.mem s.next ≠ .switch_arg g exc := by
    intro g exc
    rw [hl.next_freed]
    intro hc
    cases hc
  have hnew : ∀ r w (g : Gid) (exc : Exc), Cell.callback_arg r w ≠ .switch_arg g exc :=
    fun _ _ _ _ hc => by cases hc
  have htaken : ∀ fd', active s fd' = true → (s.fds fd').cb_arg < s.next + 1 :=
    fun fd' hact => Nat.lt_succ_of_lt (hl.taken fd' hact)
  rcases register_fd_callback_cases h with rfl | ⟨r, w, r', w', hmem, rfl⟩ | ⟨-, rfl⟩
  · -- Case: nothing is registered
    exact hl.callbacks rfl hfresh (switch_arg_update hnext (hnew rcb wcb)) htaken
      fun _ _ _ hact _ => ⟨hact, rfl⟩
  · -- Case: a merge, which keeps the argument of the slot
    have harg : ∀ fd', (update s.fds fd (picoev_set_events (s.fds fd) ⟨true, true⟩) fd').cb_arg =
        (s.fds fd').cb_arg := by
      intro fd'
      by_cases hfd : fd' = fd
      · subst hfd
        rw [update_self, picoev_set_events]
      · rw [update_of_ne hfd]
    have hact' : ∀ fd', picoev_is_active loop_id
        (update s.fds fd (picoev_set_events (s.fds fd) ⟨true, true⟩) fd') = active s fd' := by
      intro fd'
      by_cases hfd : fd' = fd
      · subst hfd
        rw [update_self]
        rfl
      · rw [update_of_ne hfd]
        rfl
    have hslot : ∀ g exc, update s.mem s.next (.callback_arg rcb wcb) (s.fds fd).cb_arg ≠
        .switch_arg g exc := by
      intro g exc hc
      rw [switch_arg_update hnext (hnew rcb wcb), hmem] at hc
      cases hc
    refine hl.callbacks rfl hfresh ?_ ?_ ?_
    · intro a g exc
      rw [switch_arg_update hslot (hnew r' w'), switch_arg_update hnext (hnew rcb wcb)]
    · intro fd' hact
      rw [active, hact'] at hact
      show (update s.fds fd _ fd').cb_arg < s.next + 1
      rw [harg]
      exact htaken fd' hact
    · intro fd' g exc hact _
      rw [active, hact'] at hact
      exact ⟨hact, harg fd'⟩
  · -- Case: a free slot is taken
    refine hl.callbacks rfl hfresh (switch_arg_update hnext (hnew rcb wcb)) ?_ ?_
    · intro fd' hact
      by_cases hfd : fd' = fd
      · subst hfd
        simp [picoev_add]
      · simp only [active, update_of_ne hfd] at hact ⊢
        exact htaken fd' hact
    · intro fd' g exc hact hmem
      by_cases hfd : fd' = fd
      · -- the new slot leads to the new cell
        subst hfd
        simp only [update_self, picoev_add] at hmem
        exact absurd hmem (hnext g exc)
      · simp only [active, update_of_ne hfd] at hact ⊢
        exact ⟨hact, trivial⟩

theorem linked_fd_callback {fd : Fd} {events : Revents} {r w : Option Callable}
    (hmem : s.mem (s.fds fd).cb_arg = .callback_arg r w) (hl : Linked s) :
    Linked (fd_callback s fd (s.fds fd).cb_arg events) := by
  have hfresh := fresh_fd_callback hl.fresh fd (s.fds fd).cb_arg events
  simp only [fd_callback] at hfresh ⊢
  by_cases hev : (events.timeout || events.read || events.write) = true
  · rw [if_pos hev]
    exact hl
  · rw [if_neg hev] at hfresh ⊢
    have hold : ∀ g exc, s.mem (s.fds fd).cb_arg ≠ .switch_arg g exc := by
      intro g exc hc
      rw [hmem] at hc
      cases hc
    have hkept : ∀ fd', picoev_is_active loop_id
        (update s.fds fd (picoev_del (s.fds fd)) fd') = true → fd' ≠ fd ∧ active s fd' = true := by
      intro fd' hact
      have hne : fd' ≠ fd := by
        rintro rfl
        simp [picoev_is_active, picoev_del, loop_id] at hact
      rw [active_del s fd fd' hne] at hact
      exact ⟨hne, hact⟩
    refine hl.callbacks rfl hfresh (switch_arg_update hold fun _ _ hc => by cases hc) ?_ ?_
    · intro fd' hact
      rcases hkept fd' hact with ⟨hne, hact'⟩
      simp only [update_of_ne hne]
      exact hl.taken fd' hact'
    · intro fd' g exc hact _
      rcases hkept fd' hact with ⟨hne, hact'⟩
      simp only [update_of_ne hne]
      exact ⟨hact', trivial⟩

theorem linked_switch_callback (hl : Linked s) (g : Gid) (exc : Exc) (events : Revents) :
    Linked (trampoline_switch_callback s g exc events) := by
  simp only [trampoline_switch_callback, loop_handle_timeout_error]
  split
  · -- Case: a deadline
    have hstop : Linked { s with loop := { s.loop with state := .L_STOP } } :=
      ⟨hl.fresh, hl.cell, hl.leads, hl.taken, hl.slot⟩
    exact linked_resume hstop s.loop.parent (.throw (PyErr_SetString exc))
  · split
    · exact linked_resume hl g _
    · exact hl

theorem linked_step {a : Act} (h : step s a = some s') (hl : Linked s) : Linked s' := by
  cases step_cases h with
  | io_trampoline hg => exact linked_trampoline hg.1 hl
  | add_reader hadd => exact linked_register hadd hl
  | add_writer hadd => exact linked_register hadd hl
  | report_wait _ _ => exact linked_switch_callback hl _ _ _
  | report_callback _ hmem => exact linked_fd_callback hmem hl
  | throw => exact linked_resume hl _ _
  | switch => exact linked_resume hl _ _

end Linked

/-! ## One greenlet, one descriptor -/

/-- `g` waits on `fd` only and nobody else does; while it waits, the slot leads
to it, and otherwise nothing is registered. -/
structure Private (s : St) (g : Gid) (fd : Fd) : Prop where
  alone : ∀ g' event arg, s.loc g' = .trampoline fd event arg → g' = g
  waits : ∀ fd' event arg, s.loc g = .trampoline fd' event arg →
    fd' = fd ∧ ∃ exc, Registered s g fd event arg exc
  idle : s.loc g = .other → active s fd = false

/-- A step that is not about the two: it starts no wait of `g` and registers
nothing on `fd`, and it resumes somebody else. -/
def Foreign (s : St) (g : Gid) (fd : Fd) : Act → Prop
  | .io_trampoline g' fd' _ _ _ => g' ≠ g ∧ fd' ≠ fd
  | .add_reader fd' _ | .add_writer fd' _ => fd' ≠ fd
  | .report fd' events => fd' ≠ fd ∧ (events.timeout = true → s.loop.parent ≠ g)
  | .throw g' _ | .switch g' _ => g' ≠ g

instance (s : St) (g : Gid) (fd : Fd) : ∀ a, Decidable (Foreign s g fd a)
  | .io_trampoline g' fd' _ _ _ => inferInstanceAs (Decidable (g' ≠ g ∧ fd' ≠ fd))
  | .add_reader fd' _ | .add_writer fd' _ => inferInstanceAs (Decidable (fd' ≠ fd))
  | .report fd' events =>
    inferInstanceAs (Decidable (fd' ≠ fd ∧ (events.timeout = true → s.loop.parent ≠ g)))
  | .throw g' _ | .switch g' _ => inferInstanceAs (Decidable (g' ≠ g))

section Private

variable {s s' : St} {g : Gid} {fd : Fd}

/-- It is enough that the greenlet, its slot and its cell are as they were, and
that nobody else has come to the descriptor. -/
theorem Private.congr (hp : Private s g fd) (hloc : s'.loc g = s.loc g)
    (hfd : s'.fds fd = s.fds fd)
    (hmem : ∀ event arg, s.loc g = .trampoline fd event arg → s'.mem arg = s.mem arg)
    (halone : ∀ g' event arg, g' ≠ g → s'.loc g' = .trampoline fd event arg →
      s.loc g' = .trampoline fd event arg) : Private s' g fd where
  alone := by
    intro g' event arg h
    by_contra hne
    exact hne (hp.alone g' event arg (halone g' event arg hne h))
  waits := by
    intro fd' event arg h
    rw [hloc] at h
    rcases hp.waits fd' event arg h with ⟨rfl, exc, hreg⟩
    exact ⟨rfl, exc, hreg.frame hloc hfd (hmem event arg h)⟩
  idle := by
    intro h
    rw [hloc] at h
    rw [active, hfd]
    exact hp.idle h

/-- Somebody else is resumed. -/
theorem Private.resume (hp : Private s g fd) (hl : Linked s) {g' : Gid} (hne : g' ≠ g)
    (r : Resumption) : Private (resume s g' r) g fd ∧ (Io.resume s g' r).loc g = s.loc g := by
  cases hloc : s.loc g' with
  | other =>
    rw [resume_other hloc]
    exact ⟨hp.congr rfl rfl (fun _ _ _ => rfl) fun _ _ _ _ h => h, rfl⟩
  | trampoline fd' event arg =>
    have hresumed : Io.resume s g' r = trampoline_resumed s g' fd' arg r := by
      simp [Io.resume, hloc]
    -- it does not wait on the descriptor
    have hfd : fd ≠ fd' := by
      rintro rfl
      exact hne (hp.alone g' event arg hloc)
    have hsame : (trampoline_resumed s g' fd' arg r).loc g = s.loc g := update_of_ne hne.symm _ _
    rw [hresumed]
    refine ⟨hp.congr hsame (update_of_ne hfd _ _) ?_ ?_, hsame⟩
    · intro event' arg' hwait
      exact update_of_ne (hl.arg_ne hwait hloc hne.symm) _ _
    · intro g'' event' arg' _ h
      by_cases hg : g'' = g'
      · subst hg
        simp [trampoline_resumed] at h
      · simpa only [trampoline_resumed, update_of_ne hg] using h

theorem Private.trampoline (hp : Private s g fd) (hl : Linked s) {g' : Gid} {fd' : Fd}
    (hne : g' ≠ g) (hfd : fd' ≠ fd) (event : Events) (timeout : Nat) (exception : Option Exc) :
    Private (internal_io_trampoline s g' fd' event timeout exception) g fd ∧
      (internal_io_trampoline s g' fd' event timeout exception).loc g = s.loc g := by
  have hsame : (internal_io_trampoline s g' fd' event timeout exception).loc g = s.loc g :=
    update_of_ne hne.symm _ _
  refine ⟨hp.congr hsame (update_of_ne hfd.symm _ _) ?_ ?_, hsame⟩
  · intro event' arg hwait
    exact update_of_ne (Nat.ne_of_lt (hl.arg_lt hwait)) _ _
  · intro g'' event' arg _ h
    by_cases hg : g'' = g'
    · subst hg
      simp only [internal_io_trampoline, update_self, Where.trampoline.injEq] at h
      exact absurd h.1 hfd
    · simpa only [internal_io_trampoline, update_of_ne hg] using h

theorem Private.register (hp : Private s g fd) (hl : Linked s) {fd' : Fd} {event : Events}
    {rcb wcb : Option Callable} (h : register_fd_callback s fd' event rcb wcb = some s')
    (hfd : fd' ≠ fd) : Private s' g fd ∧ s'.loc g = s.loc g := by
  have hnew : ∀ {event' arg}, s.loc g = .trampoline fd event' arg → arg ≠ s.next :=
    fun hwait => Nat.ne_of_lt (hl.arg_lt hwait)
  rcases register_fd_callback_cases h with rfl | ⟨r, w, r', w', hmem, rfl⟩ | ⟨-, rfl⟩
  · refine ⟨hp.congr rfl rfl ?_ fun _ _ _ _ h => h, rfl⟩
    intro event' arg hwait
    exact update_of_ne (hnew hwait) _ _
  · refine ⟨hp.congr rfl (update_of_ne hfd.symm _ _) ?_ fun _ _ _ _ h => h, rfl⟩
    intro event' arg hwait
    -- the cell of the wait is not one of callbacks
    have harg : arg ≠ (s.fds fd').cb_arg := by
      rintro rfl
      rcases hl.cell g fd event' _ hwait with ⟨exc, hcell⟩
      rw [hmem] at hcell
      cases hcell
    show update (update s.mem s.next _) (s.fds fd').cb_arg _ arg = s.mem arg
    rw [update_of_ne harg, update_of_ne (hnew hwait)]
  · refine ⟨hp.congr rfl (update_of_ne hfd.symm _ _) ?_ fun _ _ _ _ h => h, rfl⟩
    intro event' arg hwait
    exact update_of_ne (hnew hwait) _ _

/-- A step that is not about the two leaves both alone. -/
theorem Private.frame {a : Act} (h : step s a = some s') (hl : Linked s)
    (hf : Foreign s g fd a) (hp : Private s g fd) : Private s' g fd ∧ s'.loc g = s.loc g := by
  cases a with
  | io_trampoline g' fd' event timeout exception =>
    rcases Option.ite_none_right_eq_some.1 h with ⟨-, heq⟩
    cases heq
    exact hp.trampoline hl hf.1 hf.2 event timeout exception
  | add_reader fd' cb => exact hp.register hl h hf
  | add_writer fd' cb => exact hp.register hl h hf
  | throw g' e =>
    cases h
    exact hp.resume hl hf (.throw e)
  | switch g' v =>
    cases h
    exact hp.resume hl hf (.value v)
  | report fd' events =>
    rcases Option.ite_none_right_eq_some.1 h with ⟨⟨hact, _⟩, hrun⟩
    split at hrun
    next g' exc hcb hmem =>
      cases hrun
      -- the slot of another descriptor leads to somebody who waits there
      have hne : g' ≠ g := by
        rintro rfl
        rcases hl.slot fd' g' exc hact hmem with ⟨event, hloc⟩
        exact hf.1 (hp.waits fd' event _ hloc).1
      simp only [trampoline_switch_callback, loop_handle_timeout_error]
      split
      next htimeout =>
        have hstop : Private { s with loop := { s.loop with state := .L_STOP } } g fd :=
          hp.congr rfl rfl (fun _ _ _ => rfl) fun _ _ _ _ h => h
        have hlstop : Linked { s with loop := { s.loop with state := .L_STOP } } :=
          ⟨hl.fresh, hl.cell, hl.leads, hl.taken, hl.slot⟩
        exact hstop.resume hlstop (hf.2 htimeout) _
      next =>
        split
        · exact hp.resume hl hne _
        · exact ⟨hp, rfl⟩
    next read write hcb hmem =>
      cases hrun
      simp only [fd_callback]
      split
      · exact ⟨hp, rfl⟩
      · refine ⟨hp.congr rfl (update_of_ne hf.1.symm _ _) ?_ fun _ _ _ _ h => h, rfl⟩
        intro event arg hwait
        have harg : arg ≠ (s.fds fd').cb_arg := by
          rintro rfl
          rcases hl.cell g fd event _ hwait with ⟨exc, hcell⟩
          rw [hmem] at hcell
          cases hcell
        exact update_of_ne harg _ _
    · cases hrun

/-- A wait of its own starts. -/
theorem Private.begin (hp : Private s g fd) (event : Events)
    (timeout : Nat) (exception : Option Exc) :
    Private (internal_io_trampoline s g fd event timeout exception) g fd ∧
      (internal_io_trampoline s g fd event timeout exception).loc g =
        .trampoline fd event s.next := by
  have hself : (internal_io_trampoline s g fd event timeout exception).loc g =
      .trampoline fd event s.next := update_self _ _ _
  refine ⟨⟨?_, ?_, ?_⟩, hself⟩
  · intro g' event' arg h
    by_contra hne
    simp only [internal_io_trampoline, update_of_ne hne] at h
    exact hne (hp.alone g' event' arg h)
  · intro fd' event' arg h
    rw [hself, Where.trampoline.injEq] at h
    rcases h with ⟨rfl, rfl, rfl⟩
    refine ⟨rfl, exception.getD (.TimeoutException none), hself, ?_, ?_, ?_, update_self _ _ _⟩
    · simp [active, internal_io_trampoline, active_picoev_add]
    · simp [internal_io_trampoline, picoev_add]
    · simp [internal_io_trampoline, picoev_add]
  · intro h
    rw [hself] at h
    cases h

/-- A report that says it is ready ends the wait, normally. -/
theorem Private.ready (hp : Private s g fd) {event : Events} {arg : Addr}
    (hwait : s.loc g = .trampoline fd event arg) {events : Revents}
    (ht : events.timeout = false) (hrw : (events.write || events.read) = true) :
    ∃ s', step s (.report fd events) = some s' ∧ Private s' g fd ∧ s'.loc g = .other ∧
      s'.received = s.received ++ [(g, .value .empty_tuple)] := by
  rcases hp.waits fd event arg hwait with ⟨-, exc, hreg⟩
  have hne : events.nonzero = true := by
    rw [Bool.or_comm] at hrw
    simp [Revents.nonzero, hrw]
  have hresumed : trampoline_switch_callback s g exc events =
      Io.resume s g (.value .empty_tuple) := by
    simp [trampoline_switch_callback, ht, hrw]
  refine ⟨_, hreg.report hne, ?_⟩
  rw [hresumed, resume_registered hreg]
  have hother : update s.loc g .other g = .other := update_self _ _ _
  refine ⟨⟨?_, ?_, ?_⟩, hother, rfl⟩
  · intro g' event' arg' h
    by_contra hne
    simp only [update_of_ne hne] at h
    exact hne (hp.alone g' event' arg' h)
  · intro fd' event' arg' h
    simp at h
  · intro _
    simp [active, picoev_is_active, picoev_del, loop_id]

/-- Nothing is reported on the descriptor of a greenlet that does not wait. -/
theorem Private.not_reported (hp : Private s g fd) (hg : s.loc g = .other) (events : Revents) :
    step s (.report fd events) = none := by
  simp [step, hp.idle hg]

end Private

/-! ## Two of them -/

theorem step_greenlet {s s' : St} {a : Act} (h : step s a = some s') :
    s'.loop.greenlet = s.loop.greenlet := by
  have hresume : ∀ (r : St) g v, (resume r g v).loop.greenlet = r.loop.greenlet := by
    intro r g v
    unfold resume
    cases r.loc g <;> rfl
  have hregister : ∀ {fd event rcb wcb}, register_fd_callback s fd event rcb wcb = some s' →
      s'.loop.greenlet = s.loop.greenlet := by
    intro fd event rcb wcb hreg
    rcases register_fd_callback_cases hreg with rfl | ⟨_, _, _, _, _, rfl⟩ | ⟨-, rfl⟩ <;> rfl
  cases step_cases h with
  | io_trampoline _ => rfl
  | add_reader hadd => exact hregister hadd
  | add_writer hadd => exact hregister hadd
  | report_wait _ _ =>
    simp only [trampoline_switch_callback, loop_handle_timeout_error]
    split
    · exact hresume _ _ _
    · split
      · exact hresume _ _ _
      · rfl
  | report_callback _ _ =>
    simp only [fd_callback]
    split <;> rfl
  | throw => exact hresume _ _ _
  | switch => exact hresume _ _ _

/-- A deadline is reported. -/
def expires : Act → Bool
  | .report _ events => events.timeout
  | _ => false

/-- Nothing but a deadline stops the loop. -/
theorem step_running {s s' : St} {a : Act} (h : step s a = some s') (hno : expires a = false)
    (hrun : s.loop.state = .L_RUNNING) : s'.loop.state = .L_RUNNING := by
  have hresume : ∀ g v, (resume s g v).loop.state = .L_RUNNING := by
    intro g v
    unfold resume
    cases s.loc g <;> exact hrun
  have hregister : ∀ {fd event rcb wcb}, register_fd_callback s fd event rcb wcb = some s' →
      s'.loop.state = .L_RUNNING := by
    intro fd event rcb wcb hreg
    rcases register_fd_callback_cases hreg with rfl | ⟨_, _, _, _, _, rfl⟩ | ⟨-, rfl⟩ <;>
      exact hrun
  cases step_cases h with
  | io_trampoline _ => rfl
  | add_reader hadd => exact hregister hadd
  | add_writer hadd => exact hregister hadd
  | @report_wait fd events g exc _ _ =>
    have htimeout : events.timeout = false := hno
    simp only [trampoline_switch_callback, htimeout, Bool.false_eq_true, if_false]
    split
    · exact hresume _ _
    · exact hrun
  | report_callback _ _ =>
    simp only [fd_callback]
    split <;> exact hrun
  | throw => exact hresume _ _
  | switch => exact hresume _ _

/-- Two greenlets that have a descriptor each, neither of them the loop's. -/
structure Separate (s : St) (g g' : Gid) (fd fd' : Fd) : Prop where
  linked : Linked s
  mine : Private s g fd
  theirs : Private s g' fd'
  mine_ne : g ≠ s.loop.greenlet
  theirs_ne : g' ≠ s.loop.greenlet
  greenlets_ne : g ≠ g'
  fds_ne : fd ≠ fd'

section Separate

variable {s s' : St} {g g' : Gid} {fd fd' : Fd}

theorem Separate.symm (h : Separate s g g' fd fd') : Separate s g' g fd' fd :=
  ⟨h.linked, h.theirs, h.mine, h.theirs_ne, h.mine_ne, h.greenlets_ne.symm, h.fds_ne.symm⟩

theorem separate_init {greenlet parent : Gid} (hg : g ≠ greenlet) (hg' : g' ≠ greenlet)
    (hne : g ≠ g') (hfd : fd ≠ fd') : Separate (init greenlet parent) g g' fd fd' := by
  have hprivate : ∀ g fd, Private (init greenlet parent) g fd := by
    intro g fd
    exact ⟨fun _ _ _ h => (by cases h), fun _ _ _ h => (by cases h), fun _ => rfl⟩
  exact ⟨linked_init greenlet parent, hprivate g fd, hprivate g' fd', hg, hg', hne, hfd⟩

/-- A step that is not about the four leaves them alone. -/
theorem Separate.frame {a : Act} (h : step s a = some s') (hf : Foreign s g fd a)
    (hf' : Foreign s g' fd' a) (hs : Separate s g g' fd fd') :
    Separate s' g g' fd fd' ∧ s'.loc g = s.loc g ∧ s'.loc g' = s.loc g' := by
  rcases Private.frame h hs.linked hf hs.mine with ⟨hmine, hloc⟩
  rcases Private.frame h hs.linked hf' hs.theirs with ⟨htheirs, hloc'⟩
  have hgreenlet := step_greenlet h
  refine ⟨⟨linked_step h hs.linked, hmine, htheirs, ?_, ?_, hs.greenlets_ne, hs.fds_ne⟩,
    hloc, hloc'⟩
  · rw [hgreenlet]
    exact hs.mine_ne
  · rw [hgreenlet]
    exact hs.theirs_ne

/-- A step of the first leaves the second alone. -/
theorem Separate.mine_step {a : Act} (h : step s a = some s') (hmine : Private s' g fd)
    (hf' : Foreign s g' fd' a) (hs : Separate s g g' fd fd') :
    Separate s' g g' fd fd' ∧ s'.loc g' = s.loc g' := by
  rcases Private.frame h hs.linked hf' hs.theirs with ⟨htheirs, hloc'⟩
  have hgreenlet := step_greenlet h
  refine ⟨⟨linked_step h hs.linked, hmine, htheirs, ?_, ?_, hs.greenlets_ne, hs.fds_ne⟩, hloc'⟩
  · rw [hgreenlet]
    exact hs.mine_ne
  · rw [hgreenlet]
    exact hs.theirs_ne

/-- The first starts to wait. -/
theorem Separate.begin (hs : Separate s g g' fd fd') (hg : s.loc g = .other) (event : Events)
    (timeout : Nat) (exception : Option Exc) :
    ∃ s', step s (.io_trampoline g fd event timeout exception) = some s' ∧
      Separate s' g g' fd fd' ∧ (∃ arg, s'.loc g = .trampoline fd event arg) ∧
      s'.loc g' = s.loc g' := by
  have hstep : step s (.io_trampoline g fd event timeout exception) =
      some (internal_io_trampoline s g fd event timeout exception) := if_pos ⟨hg, hs.mine_ne⟩
  rcases hs.mine.begin event timeout exception with ⟨hmine, hloc⟩
  rcases hs.mine_step hstep hmine ⟨hs.greenlets_ne, hs.fds_ne⟩ with ⟨hs', hloc'⟩
  exact ⟨_, hstep, hs', ⟨s.next, hloc⟩, hloc'⟩

/-- The first is resumed, for its descriptor is ready. -/
theorem Separate.ready (hs : Separate s g g' fd fd') {event : Events} {arg : Addr}
    (hwait : s.loc g = .trampoline fd event arg) (events : Revents)
    (ht : events.timeout = false) (hrw : (events.write || events.read) = true) :
    ∃ s', step s (.report fd events) = some s' ∧ Separate s' g g' fd fd' ∧
      s'.loc g = .other ∧ s'.loc g' = s.loc g' ∧
      s'.received = s.received ++ [(g, .value .empty_tuple)] := by
  rcases hs.mine.ready hwait ht hrw with ⟨s', hstep, hmine, hloc, hrec⟩
  have hforeign : Foreign s g' fd' (.report fd events) := by
    refine ⟨hs.fds_ne, fun h => ?_⟩
    rw [ht] at h
    cases h
  rcases hs.mine_step hstep hmine hforeign with ⟨hs', hloc'⟩
  exact ⟨s', hstep, hs', hloc, hloc', hrec⟩

end Separate

end Jega.Io
