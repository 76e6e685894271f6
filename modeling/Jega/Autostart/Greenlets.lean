import Jega.Autostart.Model
import Jega.Trace.Rules

/-!
# Jega.Autostart.Greenlets — one greenlet for the loop

`run_on_main_task` makes a greenlet when the one of the loop is dead, and
`ready_trampoline` and `loop_switch` forget it only then.

## Main result

* `one_loop`: in every run a greenlet made for the loop is the loop's own as long
  as it lives.
-/

namespace Jega.Autostart

open Loop (Caller)
open Jega.Tree (Rooted)
open Trace

variable {s s' : St} {g h : Gid}

/-! ## Updates -/

namespace St

@[simp] theorem parent_goto (s : St) (g : Gid) (pc : Pc) : (s.goto g pc).parent = s.parent := by
  funext h
  rcases eq_or_ne h g with rfl | hne <;> simp_all [parent, goto]

@[simp] theorem cb_goto (s : St) (g : Gid) (pc : Pc) : (s.goto g pc).cb = s.cb := by
  funext h
  rcases eq_or_ne h g with rfl | hne <;> simp_all [cb, goto]

theorem pc_goto (s : St) (g : Gid) (pc : Pc) : (s.goto g pc).pc = Function.update s.pc g pc := by
  funext h
  rcases eq_or_ne h g with rfl | hne <;> simp_all [St.pc, goto]

@[simp] theorem pc_goto_self (s : St) (g : Gid) (pc : Pc) : (s.goto g pc).pc g = pc := by
  rw [pc_goto, Function.update_self]

theorem pc_goto_of_ne (s : St) (pc : Pc) (hne : h ≠ g) : (s.goto g pc).pc h = s.pc h := by
  rw [pc_goto, Function.update_of_ne hne]

theorem parent_greenlet_new (s : St) (cb : Option Caller) (parent : Gid) (pc : Pc) :
    (s.greenlet_new cb parent pc).parent = Function.update s.parent s.next parent := by
  funext h
  rcases eq_or_ne h s.next with rfl | hne <;> simp_all [St.parent, greenlet_new]

theorem cb_greenlet_new (s : St) (cb : Option Caller) (parent : Gid) (pc : Pc) :
    (s.greenlet_new cb parent pc).cb = Function.update s.cb s.next cb := by
  funext h
  rcases eq_or_ne h s.next with rfl | hne <;> simp_all [St.cb, greenlet_new]

theorem pc_greenlet_new (s : St) (cb : Option Caller) (parent : Gid) (pc : Pc) :
    (s.greenlet_new cb parent pc).pc = Function.update s.pc s.next pc := by
  funext h
  rcases eq_or_ne h s.next with rfl | hne <;> simp_all [St.pc, greenlet_new]

theorem greenlet_dead_iff : s.greenlet_dead (some g) = true ↔ s.pc g = .dead := by
  simp [greenlet_dead]

theorem not_greenlet_dead (h : s.greenlet_dead s.greenlet = false) :
    ∃ loop, s.greenlet = some loop ∧ s.pc loop ≠ .dead := by
  cases hg : s.greenlet with
  | none => simp [hg, greenlet_dead] at h
  | some loop => exact ⟨loop, rfl, by simpa [hg, greenlet_dead] using h⟩

/-- A living greenlet is switched to itself. -/
theorem target_of_alive (hg : s.pc g ≠ .dead) : s.target g = some g :=
  Tree.heir_of_alive (by simpa [greenlet_dead] using hg)

theorem alive_of_target (hg : s.target g = some h) : s.pc h ≠ .dead := by
  simpa [greenlet_dead] using Tree.alive_of_heir hg

end St

/-! ## The invariant -/

/-- The places in `LoopObject_run`. -/
def Pc.Own : Pc → Prop
  | .new | .suspend_thread | .testing | .passing => True
  | _ => False

/-- What holds between the steps, and while a greenlet ends. -/
structure Base (s : St) : Prop where
  tree : Rooted s.parent 0 (Finset.range s.next)
  current_lt : s.current < s.next
  main_alive : s.pc 0 ≠ .dead
  main_cb : s.cb 0 = none
  suspend_lt : ∀ g, s.suspend_thread = some g → g < s.next
  greenlet_lt : ∀ g, s.greenlet = some g → g < s.next
  greenlet_cb : ∀ g, s.greenlet = some g → s.cb g ≠ none
  unused : ∀ g, s.next ≤ g → s.cb g = none
  own : ∀ g, (s.pc g).Own → s.cb g ≠ none
  one : ∀ g, s.cb g ≠ none → s.pc g ≠ .dead → s.greenlet = some g

structure Inv (s : St) : Prop extends Base s where
  alive : s.pc s.current ≠ .dead
  new : ∀ g, s.pc g = .new → s.current = g

theorem inv_init : Inv init where
  tree := by
    constructor
    · simp [init]
    · rfl
    · intro a _
      simp [init, St.parent]
    · intro a _
      exact ⟨1, rfl⟩
  current_lt := by simp [init]
  main_alive := by simp [init, St.pc]
  main_cb := rfl
  suspend_lt := by simp [init]
  greenlet_lt := by simp [init]
  greenlet_cb := by simp [init]
  unused := fun _ _ => rfl
  own := by simp [init, St.pc, Pc.Own]
  one := by simp [init, St.cb]
  alive := by simp [init, St.pc]
  new := by simp [init, St.pc]

theorem Base.mem (_ : Base s) (hg : g < s.next) : g ∈ Finset.range s.next := Finset.mem_range.2 hg

/-- A switch finds a greenlet: the parents lead to the main one. -/
theorem Base.target_isSome (h : Base s) (hg : g < s.next) : (s.target g).isSome := by
  refine h.tree.heir_isSome (by simp) ?_ (h.mem hg)
  simpa [St.greenlet_dead] using h.main_alive

theorem Base.target_lt (h : Base s) (hg : g < s.next) {t : Gid} (ht : s.target g = some t) :
    t < s.next :=
  Finset.mem_range.1 (h.tree.heir_mem (h.mem hg) ht)

theorem Base.parent_lt (h : Base s) (hg : g < s.next) : s.parent g < s.next :=
  Finset.mem_range.1 (h.tree.parent_mem g (h.mem hg))

/-- Greenlet `g` goes from one place to another one. -/
theorem Base.goto (h : Base s) {pc : Pc} (hg : s.pc g ≠ .dead) (hmain : pc = .dead → g ≠ 0)
    (hown : pc.Own → s.cb g ≠ none) : Base (s.goto g pc) where
  tree := by rw [St.parent_goto]; exact h.tree
  current_lt := h.current_lt
  main_alive := by
    rcases eq_or_ne 0 g with rfl | hne
    · rw [St.pc_goto_self]
      intro hd
      exact hmain hd rfl
    · rw [St.pc_goto_of_ne s pc hne]
      exact h.main_alive
  main_cb := by rw [St.cb_goto]; exact h.main_cb
  suspend_lt := h.suspend_lt
  greenlet_lt := h.greenlet_lt
  greenlet_cb := by rw [St.cb_goto]; exact h.greenlet_cb
  unused := by rw [St.cb_goto]; exact h.unused
  own := by
    intro k hk
    rw [St.cb_goto]
    rcases eq_or_ne k g with rfl | hne
    · rw [St.pc_goto_self] at hk
      exact hown hk
    · rw [St.pc_goto_of_ne s pc hne] at hk
      exact h.own k hk
  one := by
    intro k hcb hk
    rw [St.cb_goto] at hcb
    rcases eq_or_ne k g with rfl | hne
    · exact h.one k hcb hg
    · rw [St.pc_goto_of_ne s pc hne] at hk
      exact h.one k hcb hk

/-- The current greenlet does. -/
theorem Inv.goto (h : Inv s) {pc : Pc} (hdead : pc ≠ .dead)
    (hown : pc.Own → s.cb s.current ≠ none) : Inv (s.goto s.current pc) where
  toBase := h.toBase.goto h.alive (fun hd => absurd hd hdead) hown
  alive := by
    rw [show (s.goto s.current pc).current = s.current from rfl, St.pc_goto_self]
    exact hdead
  new := by
    intro k hk
    rcases eq_or_ne k s.current with rfl | hne
    · rfl
    · rw [St.pc_goto_of_ne s pc hne] at hk
      exact h.new k hk

/-- The invariant does not speak of the other fields. -/
theorem Base.congr (h : Base s) {t : St} (hgreenlets : t.greenlets = s.greenlets)
    (hnext : t.next = s.next) (hgreenlet : t.greenlet = s.greenlet) (hcurrent : t.current < s.next)
    (hsuspend : ∀ g, t.suspend_thread = some g → g < s.next) : Base t := by
  rcases t with ⟨_, _, _, _, _, _, _, _⟩
  simp only at hgreenlets hnext hgreenlet hcurrent hsuspend
  subst hgreenlets hnext hgreenlet
  exact
    { tree := h.tree
      current_lt := hcurrent
      main_alive := h.main_alive
      main_cb := h.main_cb
      suspend_lt := hsuspend
      greenlet_lt := h.greenlet_lt
      greenlet_cb := h.greenlet_cb
      unused := h.unused
      own := h.own
      one := h.one }

/-- Another greenlet goes on. -/
theorem Base.resume (h : Base s) (hnew : ∀ k, s.pc k ≠ .new) (hg : g < s.next) {t : Gid}
    (ht : s.target g = some t) (exc : Bool) : Inv { s with current := t, exc := exc } where
  toBase := h.congr rfl rfl rfl (h.target_lt hg ht) h.suspend_lt
  alive := St.alive_of_target ht
  new := fun k hk => absurd hk (hnew k)

theorem Base.switch (h : Base s) (hnew : ∀ k, s.pc k ≠ .new) (hg : g < s.next)
    (hs : s.greenlet_switch g = some s') : Inv s' := by
  rcases Option.map_eq_some_iff.1 hs with ⟨t, ht, rfl⟩
  exact h.resume hnew hg ht false

theorem Base.throw (h : Base s) (hnew : ∀ k, s.pc k ≠ .new) (hg : g < s.next)
    (hs : s.greenlet_throw g = some s') : Inv s' := by
  rcases Option.map_eq_some_iff.1 hs with ⟨t, ht, rfl⟩
  exact h.resume hnew hg ht true

/-- No greenlet is new while one runs that is not. -/
theorem Inv.not_new (h : Inv s) (hpc : s.pc s.current ≠ .new) (k : Gid) : s.pc k ≠ .new := by
  intro hk
  exact hpc (h.new k hk ▸ hk)

theorem Inv.not_new_goto (h : Inv s) {pc : Pc} (hpc : pc ≠ .new) (k : Gid) :
    (s.goto s.current pc).pc k ≠ .new := by
  rcases eq_or_ne k s.current with rfl | hne
  · rw [St.pc_goto_self]
    exact hpc
  · rw [St.pc_goto_of_ne s pc hne]
    intro hk
    exact hne (h.new k hk).symm

/-- The loop runs, stops or notes whom to hand over to. -/
theorem Inv.set (h : Inv s) (state : loop_state) (registered : List (Gid × Io.Fd × Bool))
    {suspend_thread : Option Gid} (hs : ∀ g, suspend_thread = some g → g < s.next) :
    Inv { s with
      state := state, registered := registered, suspend_thread := suspend_thread } where
  toBase := h.toBase.congr rfl rfl rfl h.current_lt hs
  alive := h.alive
  new := h.new

theorem Inv.ended (h : Inv s) (hmain : s.current ≠ 0) {exc : Bool}
    (hs : s.ended exc = some s') : Inv s' := by
  have hbase : Base (s.goto s.current .dead) :=
    h.toBase.goto h.alive (fun _ => hmain) (by simp [Pc.Own])
  have hnew := h.not_new_goto (show Pc.dead ≠ .new by simp)
  have hlt : (s.goto s.current .dead).parent s.current < s.next := hbase.parent_lt h.current_lt
  simp only [St.ended] at hs
  split at hs
  · exact hbase.throw hnew hlt hs
  · exact hbase.switch hnew hlt hs

/-- A new greenlet, of the program or of the loop. -/
theorem Base.greenlet_new (h : Base s) {cb : Option Caller} (hg : g < s.next) {pc : Pc}
    (hpc : pc ≠ .dead) (hown : pc.Own → cb ≠ none) {greenlet : Option Gid}
    (hgreenlet : cb = none ∧ greenlet = s.greenlet ∨
      cb ≠ none ∧ s.greenlet_dead s.greenlet = true ∧ greenlet = some s.next) :
    Base { s.greenlet_new cb g pc with greenlet := greenlet } where
  tree := by
    have htree := h.tree.leaf (a := s.next) (by simp) (h.mem hg)
    change Rooted (s.greenlet_new cb g pc).parent 0 (Finset.range (s.next + 1))
    rw [Finset.range_add_one, St.parent_greenlet_new]
    exact htree
  current_lt := Nat.lt_succ_of_lt h.current_lt
  main_alive := by
    change (s.greenlet_new cb g pc).pc 0 ≠ .dead
    rw [St.pc_greenlet_new]
    rcases eq_or_ne 0 s.next with heq | hne
    · rw [heq, Function.update_self]
      exact hpc
    · rw [Function.update_of_ne hne]
      exact h.main_alive
  main_cb := by
    have hne : 0 ≠ s.next := Nat.ne_of_lt (Nat.zero_lt_of_lt h.current_lt)
    change (s.greenlet_new cb g pc).cb 0 = none
    rw [St.cb_greenlet_new, Function.update_of_ne hne]
    exact h.main_cb
  suspend_lt := fun k hk => Nat.lt_succ_of_lt (h.suspend_lt k hk)
  greenlet_lt := by
    intro k hk
    rcases hgreenlet with ⟨-, rfl⟩ | ⟨-, -, rfl⟩
    · exact Nat.lt_succ_of_lt (h.greenlet_lt k hk)
    · cases hk
      exact Nat.lt_succ_self _
  greenlet_cb := by
    intro k hk
    change (s.greenlet_new cb g pc).cb k ≠ none
    rw [St.cb_greenlet_new]
    rcases hgreenlet with ⟨-, rfl⟩ | ⟨hcb, -, rfl⟩
    · rw [Function.update_of_ne (Nat.ne_of_lt (h.greenlet_lt k hk))]
      exact h.greenlet_cb k hk
    · cases hk
      rw [Function.update_self]
      exact hcb
  unused := by
    intro k hk
    change (s.greenlet_new cb g pc).cb k = none
    rw [St.cb_greenlet_new, Function.update_of_ne (Nat.ne_of_gt hk)]
    exact h.unused k (Nat.le_of_succ_le hk)
  own := by
    intro k hk
    change ((s.greenlet_new cb g pc).pc k).Own at hk
    change (s.greenlet_new cb g pc).cb k ≠ none
    rw [St.pc_greenlet_new] at hk
    rw [St.cb_greenlet_new]
    rcases eq_or_ne k s.next with rfl | hne
    · rw [Function.update_self] at hk ⊢
      exact hown hk
    · rw [Function.update_of_ne hne] at hk ⊢
      exact h.own k hk
  one := by
    intro k hcb hk
    change (s.greenlet_new cb g pc).cb k ≠ none at hcb
    change (s.greenlet_new cb g pc).pc k ≠ .dead at hk
    rw [St.cb_greenlet_new] at hcb
    rw [St.pc_greenlet_new] at hk
    rcases eq_or_ne k s.next with rfl | hne
    · rw [Function.update_self] at hcb
      rcases hgreenlet with ⟨hnone, -⟩ | ⟨-, -, heq⟩
      · exact absurd hnone hcb
      · exact heq
    · rw [Function.update_of_ne hne] at hcb hk
      have hold := h.one k hcb hk
      rcases hgreenlet with ⟨-, heq⟩ | ⟨-, hdead, -⟩
      · exact heq.trans hold
      · rw [hold, St.greenlet_dead_iff] at hdead
        exact absurd hdead hk

theorem Inv.greenlet_setparent (h : Inv s) (hg : g < s.next) {p : Gid} (hp : p < s.next)
    (hs : s.greenlet_setparent g p = some s') : Inv s' := by
  unfold St.greenlet_setparent at hs
  split at hs
  · cases hs
  · next hline =>
    cases hs
    have hparent : ∀ t : St, t.greenlets =
        Function.update s.greenlets g { s.greenlets g with parent := p } →
        t.parent = Function.update s.parent g p ∧ t.cb = s.cb ∧ t.pc = s.pc := by
      intro t ht
      refine ⟨?_, ?_, ?_⟩ <;> funext k <;>
        rcases eq_or_ne k g with rfl | hne <;> simp_all [St.parent, St.cb, St.pc]
    obtain ⟨hpar, hcb, hpc⟩ := hparent
      { s with greenlets := Function.update s.greenlets g { s.greenlets g with parent := p } } rfl
    constructor
    · constructor
      · rw [hpar]
        exact h.tree.graft (by simp) (h.mem hg) (h.mem hp) hline
      · exact h.current_lt
      · rw [hpc]; exact h.main_alive
      · rw [hcb]; exact h.main_cb
      · exact h.suspend_lt
      · exact h.greenlet_lt
      · rw [hcb]; exact h.greenlet_cb
      · rw [hcb]; exact h.unused
      · rw [hpc, hcb]; exact h.own
      · rw [hpc, hcb]; exact h.one
    · rw [hpc]; exact h.alive
    · rw [hpc]; exact h.new

/-! ## What the functions of the loop do -/

/-- Greenlet `loop` goes on, and the current one stands at `pc`. -/
def passed (s : St) (pc : Pc) (loop : Gid) : St :=
  { s.goto s.current pc with state := .L_RUNNING, current := loop, exc := false }

/-- The loop has a new greenlet. -/
def created (s : St) (cb : Caller) (caller : Call) : St :=
  passed { s.greenlet_new (some cb) s.current .new with greenlet := some s.next }
    (.run_on_main_task caller) s.next

theorem passed_eq {pc : Pc} (hpc : pc ≠ .dead) (hg : s.pc g ≠ .dead) :
    St.greenlet_switch ({ s with state := .L_RUNNING }.goto s.current pc) g =
      some (passed s pc g) := by
  have halive : ({ s with state := .L_RUNNING }.goto s.current pc).pc g ≠ .dead := by
    rcases eq_or_ne g s.current with rfl | hne
    · rw [St.pc_goto_self]
      exact hpc
    · rw [St.pc_goto_of_ne _ pc hne]
      exact hg
  unfold St.greenlet_switch
  rw [St.target_of_alive halive]
  rfl

theorem run_on_main_task_alive {cb : Caller} {caller : Call} {loop : Gid}
    (hg : s.greenlet = some loop) (hloop : s.pc loop ≠ .dead) :
    run_on_main_task s cb caller = some (passed s (.run_on_main_task caller) loop) := by
  have hdead : s.greenlet_dead s.greenlet = false := by
    simpa [hg, St.greenlet_dead] using hloop
  simp only [run_on_main_task, hdead, Bool.false_eq_true, if_false]
  rw [show (St.goto { s with state := .L_RUNNING } s.current (.run_on_main_task caller)).greenlet =
    some loop from hg, Option.bind_some]
  exact passed_eq (by simp) hloop

theorem run_on_main_task_dead {cb : Caller} {caller : Call}
    (hdead : s.greenlet_dead s.greenlet = true) :
    run_on_main_task s cb caller = some (created s cb caller) := by
  simp only [run_on_main_task, hdead, if_true]
  refine passed_eq (s := { s.greenlet_new (some cb) s.current .new with greenlet := some s.next })
    (by simp) ?_
  change (s.greenlet_new (some cb) s.current .new).pc s.next ≠ .dead
  rw [St.pc_greenlet_new, Function.update_self]
  simp

theorem Inv.passed (h : Inv s) {pc : Pc} (hpc : pc ≠ .dead) (hnew : pc ≠ .new)
    (hown : pc.Own → s.cb s.current ≠ none) {loop : Gid}
    (hg : s.greenlet = some loop) (hloop : s.pc loop ≠ .dead) : Inv (passed s pc loop) := by
  have hgoto := (h.set .L_RUNNING s.registered h.suspend_lt).goto hpc hown
  have hswitch := passed_eq (s := s) hpc hloop
  exact hgoto.toBase.switch (h.not_new_goto hnew) (h.greenlet_lt loop hg) hswitch

theorem Inv.created (h : Inv s)
    (hdead : s.greenlet_dead s.greenlet = true) (cb : Caller) (caller : Call) :
    Inv (Autostart.created s cb caller) := by
  have hbase : Base { s.greenlet_new (some cb) s.current .new with greenlet := some s.next } :=
    h.toBase.greenlet_new h.current_lt (by simp) (fun _ => by simp)
      (Or.inr ⟨by simp, hdead, rfl⟩)
  have hne : s.current ≠ s.next := Nat.ne_of_lt h.current_lt
  have hold : ∀ k, k ≠ s.next → (s.greenlet_new (some cb) s.current .new).pc k = s.pc k := by
    intro k hk
    rw [St.pc_greenlet_new, Function.update_of_ne hk]
  have hpcs : (Autostart.created s cb caller).pc =
      Function.update (Function.update s.pc s.next .new) s.current (.run_on_main_task caller) := by
    rw [← St.pc_greenlet_new s (some cb) s.current .new]
    exact St.pc_goto _ _ _
  have hself : (Autostart.created s cb caller).pc s.next = .new := by
    rw [hpcs, Function.update_of_ne hne.symm, Function.update_self]
  constructor
  · have hgoto : Base (St.goto _ s.current (.run_on_main_task caller)) := hbase.goto
      (fun hd => h.alive ((hold s.current hne).symm.trans hd)) (by simp) (by simp [Pc.Own])
    exact hgoto.congr rfl rfl rfl (Nat.lt_succ_self _) hgoto.suspend_lt
  · change (Autostart.created s cb caller).pc s.next ≠ .dead
    rw [hself]
    simp
  · intro k hk
    change s.next = k
    by_contra hkn
    rw [hpcs] at hk
    rcases eq_or_ne k s.current with rfl | hkc
    · rw [Function.update_self] at hk
      cases hk
    · rw [Function.update_of_ne hkc, Function.update_of_ne (Ne.symm hkn)] at hk
      exact hkc (h.new k hk).symm

/-- A dead greenlet is forgotten, and the caller noted. -/
theorem Inv.forget (h : Inv s) (hdead : s.greenlet_dead s.greenlet = true) :
    Inv { s with greenlet := none, suspend_thread := some s.current } where
  tree := h.tree
  current_lt := h.current_lt
  main_alive := h.main_alive
  main_cb := h.main_cb
  suspend_lt := by
    intro g hg
    cases hg
    exact h.current_lt
  greenlet_lt := by simp
  greenlet_cb := by simp
  unused := h.unused
  own := h.own
  one := by
    intro g hcb hg
    rw [h.one g hcb hg, St.greenlet_dead_iff] at hdead
    exact absurd hdead hg
  alive := h.alive
  new := h.new

theorem Inv.run_on_main_task (h : Inv s) {cb : Caller} {caller : Call}
    (hs : run_on_main_task s cb caller = some s') : Inv s' := by
  cases hdead : s.greenlet_dead s.greenlet with
  | true =>
    rw [run_on_main_task_dead hdead] at hs
    cases hs
    exact h.created hdead cb caller
  | false =>
    rcases St.not_greenlet_dead hdead with ⟨loop, hg, hloop⟩
    rw [run_on_main_task_alive hg hloop] at hs
    cases hs
    exact h.passed (by simp) (by simp) (by simp [Pc.Own]) hg hloop

theorem Inv.readied (h : Inv s) {caller : Call} (hs : readied s caller = some s') : Inv s' := by
  have hcode : Inv (s.goto s.current .code) := h.goto (by simp) (by simp [Pc.Own])
  cases caller with
  | run => cases hs; exact hcode
  | start_loop => cases hs; exact hcode
  | loop_switch => cases hs; exact hcode
  | io_trampoline fd =>
    rcases Option.bind_eq_some_iff.1 hs with ⟨loop, hg, hs⟩
    have hset := h.set .L_RUNNING
      (s.registered ++ [(s.current, fd, !s.greenlet_dead s.greenlet)]) h.suspend_lt
    have hgoto : Inv (St.goto _ s.current (.internal_io_trampoline fd)) :=
      hset.goto (by simp) (by simp [Pc.Own])
    refine hgoto.toBase.switch (hset.not_new_goto (by simp)) ?_ hs
    exact h.greenlet_lt loop hg

theorem Inv.ready_trampoline (h : Inv s) {loop_check : Bool} {caller : Call}
    (hs : ready_trampoline s loop_check caller = some s') : Inv s' := by
  unfold Autostart.ready_trampoline at hs
  split at hs
  · next hdead => exact (h.forget hdead).run_on_main_task hs
  · split at hs
    · have hlt : ∀ g, some s.current = some g → g < s.next := by
        intro g hg
        cases hg
        exact h.current_lt
      exact (h.set s.state s.registered hlt).run_on_main_task hs
    · split at hs
      · cases hs
        exact h
      · exact h.readied hs

theorem Inv.run_on_main_task_returned (h : Inv s) {caller : Call}
    (hs : run_on_main_task_returned s caller = some s') : Inv s' := by
  have hset : Inv (if s.greenlet_dead s.greenlet then { s with state := .L_STOP } else s) := by
    split
    · exact h.set _ _ h.suspend_lt
    · exact h
  unfold Autostart.run_on_main_task_returned at hs
  simp only at hs
  generalize (if s.greenlet_dead s.greenlet then { s with state := .L_STOP } else s) = t
    at hset hs
  split at hs
  · cases hs
    exact hset.goto (by simp) (by simp [Pc.Own])
  · exact hset.readied hs

theorem Inv.loop_switch (h : Inv s) (hs : loop_switch s = some s') : Inv s' := by
  have hgoto : Inv (s.goto s.current .loop_switch) := h.goto (by simp) (by simp [Pc.Own])
  unfold Autostart.loop_switch at hs
  split at hs
  · exact hgoto.toBase.switch (h.not_new_goto (by simp)) (h.parent_lt h.current_lt) hs
  · split at hs
    · next hdead => exact (h.forget hdead).run_on_main_task hs
    · rcases Option.bind_eq_some_iff.1 hs with ⟨loop, hg, hs⟩
      rcases Option.bind_eq_some_iff.1 hs with ⟨t, ht, hs⟩
      have hlt := h.greenlet_lt loop hg
      have htinv : Inv t ∧ t.current = s.current ∧ t.next = s.next := by
        split at ht
        · refine ⟨h.greenlet_setparent h.current_lt hlt ht, ?_⟩
          unfold St.greenlet_setparent at ht
          split at ht
          · cases ht
          · cases ht
            exact ⟨rfl, rfl⟩
        · cases ht
          exact ⟨h, rfl, rfl⟩
      rcases htinv with ⟨htinv, hcur, hnext⟩
      have hgoto : Inv (t.goto t.current .loop_switch) :=
        htinv.goto (by simp) (by simp [Pc.Own])
      refine hgoto.toBase.switch (htinv.not_new_goto (by simp)) ?_ hs
      rw [← hnext] at hlt
      exact hlt

/-! ## Every step -/

theorem Inv.current_ne_main (h : Inv s) {cb : Caller} (hcb : s.cb s.current = some cb) :
    s.current ≠ 0 := by
  intro heq
  rw [heq, h.main_cb] at hcb
  cases hcb

/-- A worker is a greenlet of the program. -/
theorem Inv.worker (h : Inv s) :
    Inv (s.greenlet_new none (s.greenlet.getD s.current) .code) := by
  have hparent : s.greenlet.getD s.current < s.next := by
    cases hg : s.greenlet with
    | none => exact h.current_lt
    | some g => exact h.greenlet_lt g hg
  have hbase : Base (s.greenlet_new none (s.greenlet.getD s.current) .code) :=
    h.toBase.greenlet_new hparent (by simp) (by simp [Pc.Own])
      (Or.inl ⟨rfl, rfl⟩)
  have hne : s.current ≠ s.next := Nat.ne_of_lt h.current_lt
  constructor
  · exact hbase
  · rw [St.pc_greenlet_new]
    change Function.update s.pc s.next .code s.current ≠ .dead
    rw [Function.update_of_ne hne]
    exact h.alive
  · intro k hk
    rw [St.pc_greenlet_new] at hk
    rcases eq_or_ne k s.next with rfl | hkn
    · rw [Function.update_self] at hk
      cases hk
    · rw [Function.update_of_ne hkn] at hk
      exact h.new k hk

theorem Inv.started (h : Inv s) {cb cb' : Caller} (hcb : s.cb s.current = some cb) :
    Inv (started s cb') := by
  cases cb' <;> exact h.goto (by simp) (fun _ => by simp [hcb])

theorem Inv.entered (h : Inv s) {cb : Caller} (hcb : s.cb s.current = some cb)
    (hs : entered s cb = some s') : Inv s' := by
  have hset : Inv (if cb = .run then { s with state := .L_RUNNING } else s) := by
    split
    · exact h.set _ _ h.suspend_lt
    · exact h
  have hfields : (if cb = .run then { s with state := .L_RUNNING } else s).current = s.current ∧
      (if cb = .run then { s with state := .L_RUNNING } else s).cb = s.cb := by
    split <;> exact ⟨rfl, rfl⟩
  unfold Autostart.entered at hs
  simp only at hs
  generalize (if cb = .run then { s with state := .L_RUNNING } else s) = t at hset hfields hs
  have hcbt : t.cb t.current = some cb := by rw [hfields.2, hfields.1, hcb]
  split at hs
  · next g hg =>
    have hgoto : Inv (t.goto t.current .suspend_thread) :=
      hset.goto (by simp) (fun _ => by simp [hcbt])
    exact hgoto.toBase.switch (hset.not_new_goto (by simp)) (hset.suspend_lt g hg) hs
  · cases hs
    exact hset.started hcbt

theorem Inv.resumed (h : Inv s) {cb : Caller} (hcb : s.cb s.current = some cb)
    (hs : resumed s cb = some s') : Inv s' := by
  have hset : Inv { s with suspend_thread := none } := h.set _ _ (by simp)
  unfold Autostart.resumed at hs
  simp only at hs
  split at hs
  · exact hset.ended (h.current_ne_main hcb) hs
  · cases hs
    exact hset.started hcb

theorem Inv.test (h : Inv s) (hpc : s.pc s.current = .testing) {work interrupted : Bool}
    (hs : test s work interrupted = some s') : Inv s' := by
  have hcb := h.own s.current (by rw [hpc]; trivial)
  unfold Autostart.test at hs
  split at hs
  · cases hs
    exact h.goto (by simp) (fun _ => hcb)
  · refine (h.set .L_STOP s.registered h.suspend_lt).ended ?_ hs
    intro heq
    exact hcb (by rw [heq]; exact h.main_cb)

theorem Inv.pass_ended (h : Inv s) {cb : Caller} (hcb : s.cb s.current = some cb)
    {exc abort : Bool} (hs : pass_ended s exc abort cb = some s') : Inv s' := by
  have hmain := h.current_ne_main hcb
  cases cb with
  | run =>
    simp only [Autostart.pass_ended] at hs
    split at hs
    · exact (h.set .L_STOP s.registered h.suspend_lt).ended hmain hs
    · cases hs
      exact h.goto (by simp) (fun _ => by simp [hcb])
  | run_once => exact h.ended hmain hs

theorem Inv.code_ended (h : Inv s) {exc : Bool} (hs : code_ended s exc = some s') : Inv s' := by
  unfold Autostart.code_ended at hs
  split at hs
  · next cb hcb =>
    cases hs
    exact h.goto (by simp) (fun _ => by simp [hcb])
  · split at hs
    · cases hs
    · next hmain => exact h.ended hmain hs

theorem not_new_of_open (h : s.open) : s.pc s.current ≠ .new := by
  rcases h with h | h <;> simp [h]

theorem step_inv {a : Act} (hs : step s a = some s') (h : Inv s) : Inv s' := by
  cases a with
  | run cb =>
    simp only [step, Option.ite_none_right_eq_some] at hs
    exact h.run_on_main_task hs.2
  | start_loop loop_check =>
    simp only [step, Option.ite_none_right_eq_some] at hs
    exact h.ready_trampoline hs.2
  | io_trampoline fd =>
    simp only [step, Option.ite_none_right_eq_some] at hs
    exact h.ready_trampoline hs.2
  | loop_switch =>
    simp only [step, Option.ite_none_right_eq_some] at hs
    exact h.loop_switch hs.2
  | greenlet_new =>
    simp only [step, Option.ite_none_right_eq_some, Option.some.injEq] at hs
    rcases hs with ⟨-, rfl⟩
    exact h.worker
  | greenlet_setparent =>
    simp only [step, Option.ite_none_right_eq_some] at hs
    rcases Option.bind_eq_some_iff.1 hs.2 with ⟨loop, hg, hs⟩
    exact h.greenlet_setparent h.current_lt (h.greenlet_lt loop hg) hs
  | greenlet_switch g =>
    simp only [step, Option.ite_none_right_eq_some] at hs
    exact h.toBase.switch (h.not_new (not_new_of_open hs.1.1)) hs.1.2 hs.2
  | greenlet_throw g =>
    simp only [step, Option.ite_none_right_eq_some] at hs
    exact h.toBase.throw (h.not_new (not_new_of_open hs.1.1)) hs.1.2 hs.2
  | stop =>
    simp only [step, Option.ite_none_right_eq_some, Option.some.injEq] at hs
    exact hs.2 ▸ h.set _ _ h.suspend_lt
  | handle_error =>
    simp only [step, handle_error, Option.ite_none_right_eq_some] at hs
    rcases hs with ⟨hopen, hs⟩
    have hset := h.set .L_STOP s.registered h.suspend_lt
    split at hs
    · next loop hloop =>
      split at hs
      · have hlt := h.parent_lt (h.greenlet_lt loop hloop)
        exact hset.toBase.throw (h.not_new (not_new_of_open hopen)) hlt hs
      · cases hs
        exact h
    · cases hs
      exact h
  | returned =>
    simp only [step] at hs
    split at hs
    · exact h.run_on_main_task_returned hs
    · cases hs
      exact h.goto (by simp) (by simp [Pc.Own])
    · cases hs
      exact h.goto (by simp) (by simp [Pc.Own])
    · rcases Option.bind_eq_some_iff.1 hs with ⟨cb, hcb, hs⟩
      exact h.resumed hcb hs
    · cases hs
  | code_ended exc =>
    simp only [step, Option.ite_none_right_eq_some] at hs
    exact h.code_ended hs.2
  | enter =>
    simp only [step, Option.ite_none_right_eq_some] at hs
    rcases Option.bind_eq_some_iff.1 hs.2 with ⟨cb, hcb, hs⟩
    exact h.entered hcb hs
  | test work interrupted =>
    simp only [step, Option.ite_none_right_eq_some] at hs
    exact h.test hs.1 hs.2
  | call =>
    simp only [step, Option.ite_none_right_eq_some, Option.some.injEq] at hs
    exact hs.2 ▸ h.goto (by simp) (by simp [Pc.Own])
  | pass_ended exc abort =>
    simp only [step, Option.ite_none_right_eq_some] at hs
    rcases Option.bind_eq_some_iff.1 hs.2 with ⟨cb, hcb, hs⟩
    exact h.pass_ended hcb hs

/-! ## One greenlet -/

/-- A greenlet made for the loop is the loop's own as long as it lives. -/
def OneLoop (s : St) : Prop := ∀ g, s.cb g ≠ none → s.pc g ≠ .dead → s.greenlet = some g

theorem one_loop (as : List Act) : Always step OneLoop init as := by
  refine always_of_steps (fun _ _ _ hs _ (h : Inv _) => step_inv hs h) ?_ inv_init
    (steps_true init as)
  intro s h
  exact h.one

end Jega.Autostart
