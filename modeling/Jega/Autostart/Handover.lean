import Jega.Autostart.Greenlets

/-!
# Jega.Autostart.Handover — control comes back to who starts the loop

A function that is to wait starts the loop with `run()` first and registers
afterwards, so it has to get control back before the loop does anything. That is
what `suspend_thread` is for: the first thing a new greenlet of the loop does is
to switch back there. When the greenlet is not new, because the loop has been
stopped in a pass and lives, nobody looks at `suspend_thread`.

## Main result

* `prompt_iff`: the exact condition for every start to come back at once and for
  every wait to go to a living loop.
-/

namespace Jega.Autostart

open Loop (Caller)
open Trace

variable {s s' : St} {g h : Gid} {a : Act}

/-! ## The statement -/

/-- In a `run` that was called to get the loop going for a wait. -/
def Pc.Starts : Pc → Prop
  | .run_on_main_task caller => caller ≠ .run
  | _ => False

def Starting (s : St) (g : Gid) : Prop := (s.pc g).Starts

/-- The loop's greenlet, made by `g`, is about to hand over to it or just has. -/
def HandsOver (s : St) (g : Gid) : Prop :=
  ∃ loop, s.greenlet = some loop ∧ s.parent loop = g ∧
    (s.current = loop ∧ s.pc loop = .new ∨
      s.current = g ∧ s.exc = false ∧ s.pc loop = .suspend_thread)

/-- Control is handed back to a greenlet that starts the loop, and nothing else
runs before; every wait has gone to a greenlet of the loop that was alive. -/
structure Prompt (s : St) : Prop where
  starting : ∀ g, Starting s g → HandsOver s g
  registered : ∀ r ∈ s.registered, r.2.2 = true

/-- The loop has been stopped, and its greenlet has not ended. -/
def Stopped (s : St) : Prop := s.state = .L_STOP ∧ s.greenlet_dead s.greenlet = false

/-- `start_loop` and `io_trampoline` do not come on a loop that is stopped in a
pass. `loop_switch` may: it finds the greenlet alive and starts nothing. -/
def Timely (s : St) : Act → Prop
  | .start_loop _ | .io_trampoline _ => ¬ Stopped s
  | _ => True

/-! ## The invariant of such runs -/

/-- `suspend_thread` is set from the start to the end of the hand-over. -/
structure Handing (s : St) : Prop where
  suspended : ∀ g, s.suspend_thread = some g → ∃ loop, s.greenlet = some loop ∧
    (s.pc loop = .suspend_thread ∨ s.pc loop = .new ∧ s.parent loop = g ∧ Starting s g)
  owed : ∀ loop g, s.pc loop = .new → Starting s g → s.suspend_thread = some g

/-- All that is known of the states of such a run. -/
structure Good (s : St) : Prop extends Inv s, Handing s, Prompt s

theorem good_init : Good init where
  toInv := inv_init
  suspended := by simp [init]
  owed := by simp [init, St.pc]
  starting := by simp [init, Starting, St.pc, Pc.Starts]
  registered := by simp [init]

/-- Nobody is starting the loop. -/
def Idle (s : St) : Prop := ∀ g, ¬ Starting s g

/-- While someone is, he runs, or the greenlet that he has made. -/
theorem Good.idle (h : Good s) (hnew : s.pc s.current ≠ .new)
    (hrun : ¬ Starting s s.current) : Idle s := by
  intro g hg
  rcases h.starting g hg with ⟨loop, -, -, ⟨hcur, hpc⟩ | ⟨hcur, -, -⟩⟩
  · exact hnew (hcur ▸ hpc)
  · exact hrun (hcur ▸ hg)

/-- Nobody is starting the loop, and `suspend_thread` is set at most while its
greenlet stands in the switch there. -/
structure Quiet (s : St) : Prop where
  idle : Idle s
  hangs : ∀ g, s.suspend_thread = some g →
    ∃ loop, s.greenlet = some loop ∧ s.pc loop = .suspend_thread
  registered : ∀ r ∈ s.registered, r.2.2 = true

theorem Quiet.good (h : Quiet s) (hinv : Inv s) : Good s where
  toInv := hinv
  suspended := by
    intro g hg
    rcases h.hangs g hg with ⟨loop, hloop, hpc⟩
    exact ⟨loop, hloop, Or.inl hpc⟩
  owed := fun loop g _ hg => absurd hg (h.idle g)
  starting := fun g hg => absurd hg (h.idle g)
  registered := h.registered

theorem Good.quiet (h : Good s) (hnew : s.pc s.current ≠ .new)
    (hrun : ¬ Starting s s.current) : Quiet s where
  idle := h.idle hnew hrun
  hangs := by
    intro g hg
    rcases h.suspended g hg with ⟨loop, hloop, hpc | ⟨hpc, -⟩⟩
    · exact ⟨loop, hloop, hpc⟩
    · exact absurd hpc (h.not_new hnew loop)
  registered := h.registered

/-! ## What keeps a quiet state quiet -/

theorem Idle.update (h : Idle s) {pc : Pc} (hpc : ¬ pc.Starts) {t : St}
    (ht : t.pc = Function.update s.pc g pc) : Idle t := by
  intro k hk
  rw [Starting, ht] at hk
  rcases eq_or_ne k g with rfl | hne
  · rw [Function.update_self] at hk
    exact hpc hk
  · rw [Function.update_of_ne hne] at hk
    exact h k hk

theorem Quiet.congr (h : Quiet s) {t : St} (hpc : t.pc = s.pc) (hgreenlet : t.greenlet = s.greenlet)
    (hsuspend : t.suspend_thread = s.suspend_thread) (hregistered : t.registered = s.registered) :
    Quiet t where
  idle := by
    intro k hk
    rw [Starting, hpc] at hk
    exact h.idle k hk
  hangs := by
    rw [hpc, hgreenlet, hsuspend]
    exact h.hangs
  registered := by
    rw [hregistered]
    exact h.registered

theorem Quiet.goto (h : Quiet s) {pc : Pc}
    (hpc : ¬ pc.Starts)
    (hs : s.pc s.current = .suspend_thread → s.suspend_thread = none) :
    Quiet (s.goto s.current pc) where
  idle := h.idle.update hpc (St.pc_goto s s.current pc)
  hangs := by
    intro g hg
    have hg' : s.suspend_thread = some g := hg
    rcases h.hangs g hg' with ⟨loop, hloop, hat⟩
    refine ⟨loop, hloop, ?_⟩
    rcases eq_or_ne loop s.current with rfl | hne
    · rw [hs hat] at hg'
      cases hg'
    · rw [St.pc_goto_of_ne s pc hne]
      exact hat
  registered := h.registered

theorem Quiet.switch (h : Quiet s) (hs : s.greenlet_switch g = some s') : Quiet s' := by
  rcases Option.map_eq_some_iff.1 hs with ⟨t, -, rfl⟩
  exact h.congr rfl rfl rfl rfl

theorem Quiet.throw (h : Quiet s) (hs : s.greenlet_throw g = some s') : Quiet s' := by
  rcases Option.map_eq_some_iff.1 hs with ⟨t, -, rfl⟩
  exact h.congr rfl rfl rfl rfl

theorem Quiet.set (h : Quiet s) (state : loop_state) : Quiet { s with state := state } :=
  h.congr rfl rfl rfl rfl

theorem Quiet.ended (h : Quiet s) (hat : s.pc s.current = .suspend_thread → s.suspend_thread = none)
    {exc : Bool} (hs : s.ended exc = some s') : Quiet s' := by
  have hgoto : Quiet (s.goto s.current .dead) := h.goto (by simp [Pc.Starts]) hat
  simp only [St.ended] at hs
  split at hs
  · exact hgoto.throw hs
  · exact hgoto.switch hs

theorem Quiet.greenlet_new (h : Quiet s) (hinv : Inv s) (cb : Option Caller) (parent : Gid)
    {pc : Pc} (hpc : ¬ pc.Starts) :
    Quiet (s.greenlet_new cb parent pc) where
  idle := h.idle.update hpc (St.pc_greenlet_new s cb parent pc)
  hangs := by
    intro g hg
    rcases h.hangs g hg with ⟨loop, hloop, hat⟩
    refine ⟨loop, hloop, ?_⟩
    rw [St.pc_greenlet_new, Function.update_of_ne (Nat.ne_of_lt (hinv.greenlet_lt loop hloop))]
    exact hat
  registered := h.registered

theorem setparent_fields {p : Gid} (hs : s.greenlet_setparent g p = some s') :
    s'.pc = s.pc ∧ s'.greenlet = s.greenlet ∧ s'.suspend_thread = s.suspend_thread ∧
      s'.registered = s.registered ∧ s'.current = s.current := by
  unfold St.greenlet_setparent at hs
  split at hs
  · cases hs
  · cases hs
    refine ⟨?_, rfl, rfl, rfl, rfl⟩
    funext k
    rcases eq_or_ne k g with rfl | hne <;> simp_all [St.pc]

theorem Quiet.setparent (h : Quiet s) {p : Gid} (hs : s.greenlet_setparent g p = some s') :
    Quiet s' := by
  rcases setparent_fields hs with ⟨hpc, hgreenlet, hsuspend, hregistered, -⟩
  exact h.congr hpc hgreenlet hsuspend hregistered

/-! ## Starting the loop -/

/-- With the loop alive, nothing has to be started. -/
theorem Quiet.passed (h : Quiet s) {pc : Pc}
    (hpc : ¬ pc.Starts)
    (hat : s.pc s.current = .suspend_thread → s.suspend_thread = none) (loop : Gid) :
    Quiet (passed s pc loop) :=
  (h.goto hpc hat).congr rfl rfl rfl rfl

theorem pc_created (s : St) (cb : Caller) (caller : Call) : (created s cb caller).pc =
    Function.update (Function.update s.pc s.next .new) s.current (.run_on_main_task caller) := by
  rw [← St.pc_greenlet_new s (some cb) s.current .new]
  exact St.pc_goto _ _ _

/-- `run()` of the program. -/
theorem Quiet.run (h : Quiet s) (hpc : s.pc s.current = .code) {cb : Caller}
    (hs : run_on_main_task s cb .run = some s') : Quiet s' := by
  have hat : s.pc s.current = .suspend_thread → s.suspend_thread = none := by simp [hpc]
  cases hdead : s.greenlet_dead s.greenlet with
  | false =>
    rcases St.not_greenlet_dead hdead with ⟨loop, hg, hloop⟩
    rw [run_on_main_task_alive hg hloop] at hs
    cases hs
    exact h.passed (by simp [Pc.Starts]) hat loop
  | true =>
    rw [run_on_main_task_dead hdead] at hs
    cases hs
    have hnone : s.suspend_thread = none := by
      rw [Option.eq_none_iff_forall_not_mem]
      intro g hg
      rcases h.hangs g hg with ⟨loop, hloop, hat⟩
      rw [hloop, St.greenlet_dead_iff, hat] at hdead
      cases hdead
    constructor
    · have hnew : Idle (s.greenlet_new (some cb) s.current .new) :=
        h.idle.update (by simp [Pc.Starts]) (St.pc_greenlet_new s (some cb) s.current .new)
      have hpcs : (created s cb .run).pc = Function.update
          (s.greenlet_new (some cb) s.current .new).pc s.current (.run_on_main_task .run) := by
        rw [pc_created, St.pc_greenlet_new]
      exact hnew.update (by simp [Pc.Starts]) hpcs
    · intro g hg
      rw [show (created s cb .run).suspend_thread = s.suspend_thread from rfl, hnone] at hg
      cases hg
    · exact h.registered

/-- A wait makes a greenlet for the loop, which will hand over. -/
theorem Quiet.start (h : Quiet s) (hinv : Inv s)
    (hdead : s.greenlet_dead s.greenlet = true) {caller : Call} (hcaller : caller ≠ .run)
    (hs : run_on_main_task { s with greenlet := none, suspend_thread := some s.current } .run
      caller = some s') : Good s' := by
  have hforget := hinv.forget hdead
  have hinv' : Inv s' := hforget.run_on_main_task hs
  rw [run_on_main_task_dead rfl] at hs
  cases hs
  set t : St := { s with greenlet := none, suspend_thread := some s.current } with ht
  have hne : s.current ≠ s.next := Nat.ne_of_lt hinv.current_lt
  have hpcs : (created t .run caller).pc = Function.update (Function.update s.pc s.next .new)
      s.current (.run_on_main_task caller) := pc_created t .run caller
  have hnew : (created t .run caller).pc s.next = .new := by
    rw [hpcs, Function.update_of_ne hne.symm, Function.update_self]
  have hself : (created t .run caller).pc s.current = .run_on_main_task caller := by
    rw [hpcs, Function.update_self]
  have hparent : (created t .run caller).parent s.next = s.current := by
    change ((t.greenlet_new (some .run) s.current .new).goto s.current _).parent s.next = s.current
    rw [St.parent_goto, St.parent_greenlet_new]
    exact Function.update_self _ _ _
  have hstart : Starting (created t .run caller) s.current := by
    rw [Starting, hself]
    exact hcaller
  -- nobody else is starting
  have honly : ∀ g, Starting (created t .run caller) g → g = s.current := by
    intro g hg
    by_contra hgc
    rw [Starting, hpcs, Function.update_of_ne hgc] at hg
    rcases eq_or_ne g s.next with rfl | hgn
    · rw [Function.update_self] at hg
      exact hg
    · rw [Function.update_of_ne hgn] at hg
      exact h.idle g hg
  constructor
  · exact hinv'
  · constructor
    · intro g hg
      cases hg
      exact ⟨s.next, rfl, Or.inr ⟨hnew, hparent, hstart⟩⟩
    · intro loop g _ hg
      rw [honly g hg]
      rfl
  · constructor
    · intro g hg
      rw [honly g hg]
      exact ⟨s.next, rfl, hparent, Or.inl ⟨rfl, hnew⟩⟩
    · exact h.registered

/-- The caller of `ready_trampoline` goes on with the loop alive. -/
theorem readied_quiet (h : Quiet (s.goto s.current .code))
    (halive : s.greenlet_dead s.greenlet = false) {caller : Call}
    (hs : readied s caller = some s') : Quiet s' := by
  cases caller with
  | run => cases hs; exact h
  | start_loop => cases hs; exact h
  | loop_switch => cases hs; exact h
  | io_trampoline fd =>
    simp only [readied, internal_io_trampoline, halive] at hs
    rcases Option.bind_eq_some_iff.1 hs with ⟨loop, hloop, hs⟩
    refine Quiet.switch ?_ hs
    have hgoto : Quiet ((s.goto s.current .code).goto s.current (.internal_io_trampoline fd)) :=
      h.goto (by simp [Pc.Starts]) (by
        rw [show (s.goto s.current .code).current = s.current from rfl, St.pc_goto_self]
        intro hat
        cases hat)
    have hpcs : ((s.goto s.current .code).goto s.current (.internal_io_trampoline fd)).pc =
        (s.goto s.current (.internal_io_trampoline fd)).pc := by
      rw [St.pc_goto, St.pc_goto, St.pc_goto, Function.update_idem]
    constructor
    · intro k hk
      refine hgoto.idle k ?_
      rw [Starting, hpcs]
      exact hk
    · intro g hg
      rcases hgoto.hangs g hg with ⟨loop, hloop, hat⟩
      rw [hpcs] at hat
      exact ⟨loop, hloop, hat⟩
    · intro r hr
      rcases List.mem_append.1 hr with hr | hr
      · exact h.registered r hr
      · rw [List.mem_singleton.1 hr]
        rfl

/-! ## Every step -/

theorem Quiet.ready_trampoline (h : Quiet s) (hinv : Inv s) (hpc : s.pc s.current = .code)
    (hok : ¬ Stopped s) {loop_check : Bool} {caller : Call} (hcaller : caller ≠ .run)
    (hs : ready_trampoline s loop_check caller = some s') : Good s' := by
  have hinv' : Inv s' := hinv.ready_trampoline hs
  have hcode : Quiet (s.goto s.current .code) := h.goto (by simp [Pc.Starts]) (by simp [hpc])
  unfold Autostart.ready_trampoline at hs
  split at hs
  · next hdead => exact h.start hinv hdead hcaller hs
  · next halive =>
    rw [Bool.not_eq_true] at halive
    split at hs
    · next hstop => exact absurd ⟨hstop, halive⟩ hok
    · split at hs
      · cases hs
        exact h.good hinv
      · exact (readied_quiet hcode halive hs).good hinv'

theorem Quiet.loop_switch (h : Quiet s) (hinv : Inv s) (hpc : s.pc s.current = .code)
    (hs : loop_switch s = some s') : Good s' := by
  have hinv' : Inv s' := hinv.loop_switch hs
  unfold Autostart.loop_switch at hs
  split at hs
  · have hgoto : Quiet (s.goto s.current .loop_switch) :=
      h.goto (by simp [Pc.Starts]) (by simp [hpc])
    exact (hgoto.switch hs).good hinv'
  · split at hs
    · next hdead => exact h.start hinv hdead (by simp) hs
    · rcases Option.bind_eq_some_iff.1 hs with ⟨loop, -, hs⟩
      rcases Option.bind_eq_some_iff.1 hs with ⟨t, ht, hs⟩
      have hset : Quiet t ∧ t.pc t.current = .code := by
        split at ht
        · rcases setparent_fields ht with ⟨hpcs, -, -, -, hcur⟩
          refine ⟨h.setparent ht, ?_⟩
          rw [hpcs, hcur, hpc]
        · cases ht
          exact ⟨h, hpc⟩
      have hgoto : Quiet (t.goto t.current .loop_switch) :=
        hset.1.goto (by simp [Pc.Starts]) (by simp [hset.2])
      exact (hgoto.switch hs).good hinv'

theorem Quiet.started (h : Quiet s)
    (hat : s.pc s.current = .suspend_thread → s.suspend_thread = none) (cb : Caller) :
    Quiet (started s cb) := by
  cases cb <;> exact h.goto (by simp [Pc.Starts]) hat

theorem Quiet.resumed (h : Quiet s) {cb : Caller} (hs : resumed s cb = some s') : Quiet s' := by
  have hset : Quiet { s with suspend_thread := none } := by
    constructor
    · exact h.idle
    · intro g hg
      cases hg
    · exact h.registered
  unfold Autostart.resumed at hs
  simp only at hs
  split at hs
  · exact hset.ended (fun _ => rfl) hs
  · cases hs
    exact hset.started (fun _ => rfl) cb

theorem Quiet.pass_ended (h : Quiet s) (hpc : s.pc s.current = .passing) {exc abort : Bool}
    {cb : Caller} (hs : pass_ended s exc abort cb = some s') : Quiet s' := by
  have hat : s.pc s.current = .suspend_thread → s.suspend_thread = none := by simp [hpc]
  cases cb with
  | run =>
    simp only [Autostart.pass_ended] at hs
    split at hs
    · exact (h.set .L_STOP).ended hat hs
    · cases hs
      exact h.goto (by simp [Pc.Starts]) hat
  | run_once => exact h.ended hat hs

theorem Good.set (h : Good s) (state : loop_state) : Good { s with state := state } where
  toInv := h.toInv.set state s.registered h.suspend_lt
  suspended := h.suspended
  owed := h.owed
  starting := h.starting
  registered := h.registered

/-- The switch to `suspend_thread` goes to the greenlet that is starting the loop. -/
theorem Good.hand_over (h : Good s) (hpc : s.pc s.current = .new) (hg : s.suspend_thread = some g)
    (hs : (s.goto s.current .suspend_thread).greenlet_switch g = some s') (hinv' : Inv s') :
    Good s' := by
  have hcb : s.cb s.current ≠ none := h.own s.current (by simp [hpc, Pc.Own])
  have hself : s.greenlet = some s.current := h.one s.current hcb (by simp [hpc])
  obtain ⟨hparent, hstart⟩ : s.parent s.current = g ∧ Starting s g := by
    rcases h.suspended g hg with ⟨loop, hloop, hat⟩
    rw [hself, Option.some.injEq] at hloop
    subst hloop
    rcases hat with hat | ⟨-, hat⟩
    · rw [hpc] at hat
      cases hat
    · exact hat
  have hne : g ≠ s.current := by
    rintro rfl
    rw [Starting, hpc] at hstart
    exact hstart
  have hold : ∀ k, k ≠ s.current → (s.goto s.current .suspend_thread).pc k = s.pc k :=
    fun k hk => St.pc_goto_of_ne s .suspend_thread hk
  have halive : (s.goto s.current .suspend_thread).pc g ≠ .dead := by
    rw [hold g hne]
    intro hdead
    rw [Starting, hdead] at hstart
    exact hstart
  unfold St.greenlet_switch at hs
  rw [St.target_of_alive halive] at hs
  cases hs
  have hat : (s.goto s.current .suspend_thread).pc s.current = .suspend_thread :=
    St.pc_goto_self s s.current .suspend_thread
  constructor
  · exact hinv'
  · constructor
    · intro k hk
      exact ⟨s.current, hself, Or.inl hat⟩
    · intro loop k hnew
      exact absurd hnew (h.not_new_goto (by simp) loop)
  · constructor
    · intro k hk
      -- whoever is starting the loop has made this greenlet
      have hk' : Starting s k := by
        change ((s.goto s.current .suspend_thread).pc k).Starts at hk
        rcases eq_or_ne k s.current with rfl | hkc
        · rw [hat] at hk
          exact hk.elim
        · rw [hold k hkc] at hk
          exact hk
      have hkg : k = g := by
        have howed := h.owed s.current k hpc hk'
        rw [hg, Option.some.injEq] at howed
        exact howed.symm
      refine ⟨s.current, hself, ?_, Or.inr ⟨hkg.symm, rfl, hat⟩⟩
      rw [hkg, ← hparent]
      exact congrFun (St.parent_goto s s.current .suspend_thread) s.current
    · exact h.registered

theorem Good.entered (h : Good s) (hpc : s.pc s.current = .new) {cb : Caller}
    (hs : entered s cb = some s') (hinv' : Inv s') : Good s' := by
  have hset : Good (if cb = .run then { s with state := .L_RUNNING } else s) := by
    split
    · exact h.set _
    · exact h
  have hpcs : (if cb = .run then { s with state := .L_RUNNING } else s).pc
      (if cb = .run then { s with state := .L_RUNNING } else s).current = .new := by
    split <;> exact hpc
  unfold Autostart.entered at hs
  simp only at hs
  generalize (if cb = .run then { s with state := .L_RUNNING } else s) = t at hset hpcs hs
  split at hs
  · next g hg => exact hset.hand_over hpcs hg hs hinv'
  · next hnone =>
    cases hs
    have hquiet : Quiet t := by
      constructor
      · intro g hg
        have howed := hset.owed t.current g hpcs hg
        rw [hnone] at howed
        cases howed
      · intro g hg
        rw [hnone] at hg
        cases hg
      · exact hset.registered
    exact (hquiet.started (fun _ => hnone) cb).good hinv'

/-- `run` has come back to the greenlet that was starting the loop. -/
theorem Good.run_on_main_task_returned (h : Good s) {caller : Call}
    (hpc : s.pc s.current = .run_on_main_task caller)
    (hs : run_on_main_task_returned s caller = some s') (hinv' : Inv s') : Good s' := by
  have hnew : s.pc s.current ≠ .new := by simp [hpc]
  rcases eq_or_ne caller .run with rfl | hcaller
  · have hquiet : Quiet s := h.quiet hnew (by simp [Starting, hpc, Pc.Starts])
    have hset : Quiet (if s.greenlet_dead s.greenlet then { s with state := .L_STOP } else s) ∧
        (if s.greenlet_dead s.greenlet then { s with state := .L_STOP } else s).pc
          (if s.greenlet_dead s.greenlet then { s with state := .L_STOP } else s).current =
            .run_on_main_task .run := by
      split
      · exact ⟨hquiet.set _, hpc⟩
      · exact ⟨hquiet, hpc⟩
    unfold Autostart.run_on_main_task_returned at hs
    simp only at hs
    generalize (if s.greenlet_dead s.greenlet then { s with state := .L_STOP } else s) = t
      at hset hs
    have hcode : Quiet (t.goto t.current .code) :=
      hset.1.goto (by simp [Pc.Starts]) (by simp [hset.2])
    split at hs <;> cases hs <;> exact hcode.good hinv'
  · -- the loop's greenlet stands in its first switch, and nobody has thrown
    have hstart : Starting s s.current := by
      rw [Starting, hpc]
      exact hcaller
    rcases h.starting s.current hstart with ⟨loop, hloop, hparent, ⟨hcur, hat⟩ | ⟨-, hexc, hat⟩⟩
    · rw [← hcur, hpc] at hat
      cases hat
    · have halive : s.greenlet_dead s.greenlet = false := by
        simp [hloop, St.greenlet_dead, hat]
      have honly : ∀ k, Starting s k → k = s.current := by
        intro k hk
        rcases h.starting k hk with ⟨loop', hloop', hparent', -⟩
        rw [hloop, Option.some.injEq] at hloop'
        rw [← hparent', ← hloop', hparent]
      have hcode : Quiet (s.goto s.current .code) := by
        constructor
        · intro k hk
          rcases eq_or_ne k s.current with rfl | hne
          · rw [Starting, St.pc_goto_self] at hk
            exact hk
          · rw [Starting, St.pc_goto_of_ne s .code hne] at hk
            exact hne (honly k hk)
        · intro k _
          refine ⟨loop, hloop, ?_⟩
          rw [St.pc_goto_of_ne s .code ?_]
          · exact hat
          · rintro rfl
            rw [hpc] at hat
            cases hat
        · exact h.registered
      simp only [Autostart.run_on_main_task_returned, halive, hexc, Bool.false_eq_true, if_false]
        at hs
      exact (readied_quiet hcode halive hs).good hinv'

theorem Good.quiet_of_code (h : Good s) (hpc : s.pc s.current = .code) : Quiet s :=
  h.quiet (by simp [hpc]) (by simp [Starting, hpc, Pc.Starts])

theorem Good.quiet_of_open (h : Good s) (hopen : s.open) : Quiet s := by
  rcases hopen with hpc | hpc <;> exact h.quiet (by simp [hpc]) (by simp [Starting, hpc, Pc.Starts])

theorem good_step (hs : step s a = some s') (hok : Timely s a) (h : Good s) : Good s' := by
  have hinv' : Inv s' := step_inv hs h.toInv
  cases a with
  | run cb =>
    simp only [step, Option.ite_none_right_eq_some] at hs
    exact ((h.quiet_of_code hs.1).run hs.1 hs.2).good hinv'
  | start_loop loop_check =>
    simp only [step, Option.ite_none_right_eq_some] at hs
    exact (h.quiet_of_code hs.1).ready_trampoline h.toInv hs.1 hok (by simp) hs.2
  | io_trampoline fd =>
    simp only [step, Option.ite_none_right_eq_some] at hs
    exact (h.quiet_of_code hs.1).ready_trampoline h.toInv hs.1 hok (by simp) hs.2
  | loop_switch =>
    simp only [step, Option.ite_none_right_eq_some] at hs
    exact (h.quiet_of_code hs.1).loop_switch h.toInv hs.1 hs.2
  | greenlet_new =>
    simp only [step, Option.ite_none_right_eq_some, Option.some.injEq] at hs
    rcases hs with ⟨hpc, rfl⟩
    exact ((h.quiet_of_code hpc).greenlet_new h.toInv _ _ (by simp [Pc.Starts])).good hinv'
  | greenlet_setparent =>
    simp only [step, Option.ite_none_right_eq_some] at hs
    rcases Option.bind_eq_some_iff.1 hs.2 with ⟨loop, -, hset⟩
    exact ((h.quiet_of_code hs.1.1).setparent hset).good hinv'
  | greenlet_switch g =>
    simp only [step, Option.ite_none_right_eq_some] at hs
    exact ((h.quiet_of_open hs.1.1).switch hs.2).good hinv'
  | greenlet_throw g =>
    simp only [step, Option.ite_none_right_eq_some] at hs
    exact ((h.quiet_of_open hs.1.1).throw hs.2).good hinv'
  | stop =>
    simp only [step, Option.ite_none_right_eq_some, Option.some.injEq] at hs
    rcases hs with ⟨hopen, rfl⟩
    exact h.set _
  | handle_error =>
    simp only [step, handle_error, Option.ite_none_right_eq_some] at hs
    rcases hs with ⟨hopen, hs⟩
    split at hs
    · split at hs
      · exact (((h.quiet_of_open hopen).set .L_STOP).throw hs).good hinv'
      · cases hs
        exact h
    · cases hs
      exact h
  | returned =>
    simp only [step] at hs
    split at hs
    · next caller hpc => exact h.run_on_main_task_returned hpc hs hinv'
    · next fd hpc =>
      cases hs
      have hquiet : Quiet s := h.quiet (by simp [hpc]) (by simp [Starting, hpc, Pc.Starts])
      exact (hquiet.goto (by simp [Pc.Starts]) (by simp [hpc])).good hinv'
    · next hpc =>
      cases hs
      have hquiet : Quiet s := h.quiet (by simp [hpc]) (by simp [Starting, hpc, Pc.Starts])
      exact (hquiet.goto (by simp [Pc.Starts]) (by simp [hpc])).good hinv'
    · next hpc =>
      rcases Option.bind_eq_some_iff.1 hs with ⟨cb, -, hs⟩
      have hquiet : Quiet s := h.quiet (by simp [hpc]) (by simp [Starting, hpc, Pc.Starts])
      exact (hquiet.resumed hs).good hinv'
    · cases hs
  | code_ended exc =>
    simp only [step, code_ended, Option.ite_none_right_eq_some] at hs
    have hquiet := h.quiet_of_code hs.1
    rcases hs with ⟨hpc, hs⟩
    split at hs
    · cases hs
      exact (hquiet.goto (by simp [Pc.Starts]) (by simp [hpc])).good hinv'
    · split at hs
      · cases hs
      · exact (hquiet.ended (by simp [hpc]) hs).good hinv'
  | enter =>
    simp only [step, Option.ite_none_right_eq_some] at hs
    rcases Option.bind_eq_some_iff.1 hs.2 with ⟨cb, -, hcb⟩
    exact h.entered hs.1 hcb hinv'
  | test work interrupted =>
    simp only [step, test, Option.ite_none_right_eq_some] at hs
    rcases hs with ⟨hpc, hs⟩
    have hquiet : Quiet s := h.quiet (by simp [hpc]) (by simp [Starting, hpc, Pc.Starts])
    split at hs
    · cases hs
      exact (hquiet.goto (by simp [Pc.Starts]) (by simp [hpc])).good hinv'
    · refine ((hquiet.set .L_STOP).ended ?_ hs).good hinv'
      intro hat
      rw [show s.pc s.current = .suspend_thread from hat] at hpc
      cases hpc
  | call =>
    simp only [step, Option.ite_none_right_eq_some, Option.some.injEq] at hs
    rcases hs with ⟨hpc, rfl⟩
    have hquiet := h.quiet_of_open (Or.inr hpc)
    exact (hquiet.goto (by simp [Pc.Starts]) (by simp [hpc])).good hinv'
  | pass_ended exc abort =>
    simp only [step, Option.ite_none_right_eq_some] at hs
    rcases Option.bind_eq_some_iff.1 hs.2 with ⟨cb, -, hend⟩
    exact ((h.quiet_of_open (Or.inr hs.1)).pass_ended hs.1 hend).good hinv'

/-! ## A wait on a stopped loop -/

/-- A living greenlet of the loop just goes on, and nobody hands over. -/
theorem not_prompt (h : Inv s) (hstop : Stopped s)
    {loop_check : Bool} {caller : Call} (hcaller : caller ≠ .run)
    (hs : ready_trampoline s loop_check caller = some s') : ¬ Prompt s' := by
  intro hprompt
  rcases St.not_greenlet_dead hstop.2 with ⟨loop, hg, hloop⟩
  unfold ready_trampoline at hs
  rw [if_neg (by simp [hstop.2]), if_pos hstop.1,
    run_on_main_task_alive (s := { s with suspend_thread := some s.current }) hg hloop] at hs
  cases hs
  set t := passed { s with suspend_thread := some s.current } (.run_on_main_task caller) loop
    with ht
  have hpcs : t.pc = Function.update s.pc s.current (.run_on_main_task caller) :=
    St.pc_goto _ _ _
  have hstart : Starting t s.current := by
    rw [Starting, hpcs, Function.update_self]
    exact hcaller
  rcases hprompt.starting s.current hstart with ⟨loop', hloop', -, ⟨-, hnew⟩ | ⟨hcur, -, hat⟩⟩
  · have heq : loop' = loop := by
      rw [show t.greenlet = some loop from hg, Option.some.injEq] at hloop'
      exact hloop'.symm
    rw [heq, hpcs] at hnew
    rcases eq_or_ne loop s.current with rfl | hne
    · rw [Function.update_self] at hnew
      cases hnew
    · rw [Function.update_of_ne hne] at hnew
      exact hne (h.new loop hnew).symm
  · -- the greenlet of the loop waits itself
    rw [show t.greenlet = some loop from hg, Option.some.injEq] at hloop'
    rw [← hloop', show loop = s.current from hcur, hpcs, Function.update_self] at hat
    cases hat

theorem prompt_step (hs : step s a = some s') (h : Good s) : Prompt s' ↔ Timely s a := by
  constructor
  · intro hprompt
    cases a with
    | start_loop loop_check =>
      intro hstop
      simp only [step, Option.ite_none_right_eq_some] at hs
      exact not_prompt h.toInv hstop (by simp) hs.2 hprompt
    | io_trampoline fd =>
      intro hstop
      simp only [step, Option.ite_none_right_eq_some] at hs
      exact not_prompt h.toInv hstop (by simp) hs.2 hprompt
    | _ => trivial
  · intro hok
    exact (good_step hs hok h).toPrompt

/-- Every start comes back at once, and every wait goes to a living loop, exactly
if no `start_loop` or `io_trampoline` meets a loop that is stopped in a pass. -/
theorem prompt_iff {as : List Act} (hrun : run step init as = some s) :
    Always step Prompt init as ↔ Steps step Timely init as :=
  always_iff_steps (fun _ _ _ hs hok (h : Good _) _ => good_step hs hok h)
    (fun _ _ _ hs h _ => prompt_step hs h) good_init good_init.toPrompt hrun

/-- The main greenlet waits for a descriptor, is resumed, and waits again. -/
def waitsTwice : List Act :=
  [.io_trampoline 3, .enter, .returned, .returned, .test true false, .greenlet_switch 0, .returned,
    .io_trampoline 3]

theorem prompt_iff_twice : ∃ s : St, s.registered = [(0, 3, true), (0, 3, true)] ∧
    (Always step Prompt init waitsTwice ↔ Steps step Timely init waitsTwice) := by
  rcases run_any (p := fun s : St => s.registered == [(0, 3, true), (0, 3, true)])
    (by decide +kernel : (run step init waitsTwice).any _ = true) with ⟨s, hs, hp⟩
  exact ⟨s, beq_iff_eq.1 hp, prompt_iff hs⟩

/-- Its first wait times out. The second one is not registered before the loop has
ended, and then it returns at once. -/
example : ((run step init
    [.io_trampoline 3, .enter, .returned, .returned, .test true false, .handle_error, .returned,
      .io_trampoline 3, .pass_ended false false, .test false false, .returned]).map
        fun s => (s.registered, s.current)) = some ([(0, 3, true), (0, 3, false)], 0) := by
  decide +kernel

end Jega.Autostart
