import Jega.Lookup.Model
import Jega.Trace.Rules

/-!
# Jega.Lookup.LifeCycle — a `lookup_ctx_t` between its greenlet and c-ares

The greenlet that waits frees its `ctx`, and c-ares has a pointer to it until it
has called the callback. The callback resumes the greenlet, unless it is told
that the query or the channel goes away.

Each step is about one greenlet and one `ctx` (`Local`), except for the end of
the channel, which runs the callbacks of all its queries.

## Main result

* `lookups_iff`: the exact condition, along every run, for each `ctx` to outlive
  its query and for each greenlet to be resumed by its callback.
-/

namespace Jega.Lookup

open Trace

/-- A `ctx` that c-ares was given is freed only after its callback has run, and
nobody waits for a callback that has run. -/
structure LifeCycle (s : St) : Prop where
  freed : ∀ ctx, s.asked ctx = true → s.mem ctx = .freed → s.ran ctx = true
  resumed : ∀ g ctx, s.waiting g = some ctx → s.ran ctx = false

/-- c-ares answers at once, or the greenlet can wait: no error is pending. -/
def Answered (s : St) : Option Answer → Prop
  | none => s.error = false
  | some a => a.Dropped → s.error = true

/-- The greenlet waits after it has made its query. -/
def Waits (s : St) : Option Answer → Prop
  | none => s.error = false
  | some a => a.Dropped ∧ s.error = false

/-- What a step must meet. -/
def Proper (s : St) : Act → Prop
  | .gethostbyname _ answer => Answered s answer
  | .gethostbyname_ex _ answer => Answered s answer
  | .gethostbyaddr _ is_address answer => is_address = true → Answered s answer
  | .getsockaddr _ _ answer => Answered s answer
  | .getnameinfo _ answer => Answered s answer
  | .getnameinfo_ex _ flag answer =>
    (convert_nameinfo_flag flag).isSome = true → Answered s answer
  | .process_fd _ a => ¬ a.Dropped
  | .picoev_err => s.channel = []
  | .throw g => s.waiting g = none
  | .switch g => s.waiting g ≠ none → s.error = false
  | .set_error _ => True

/-! ## The invariant -/

structure Inv (s : St) : Prop where
  /-- Who waits has a `ctx` of its own that was not called back. -/
  waiting : ∀ g ctx, s.waiting g = some ctx → s.asked ctx = true ∧
    ∃ c, s.mem ctx = .ctx c ∧ c.greenlet = g ∧ c.called = false
  /-- A query is waited for. -/
  channel : ∀ q ∈ s.channel, s.ran q.arg = false ∧
    ∃ c, s.mem q.arg = .ctx c ∧ s.waiting c.greenlet = some q.arg
  fresh : ∀ ctx, s.next ≤ ctx → s.mem ctx = .freed ∧ s.asked ctx = false ∧ s.ran ctx = false

theorem inv_init : Inv init where
  waiting := nofun
  channel := nofun
  fresh := fun _ _ => ⟨rfl, rfl, rfl⟩

theorem lifeCycle_init : LifeCycle init where
  freed := nofun
  resumed := nofun

/-- The step is about one greenlet and one `ctx`, which no other one waits for. -/
structure Local (s s' : St) (g : Gid) (ctx : Addr) : Prop where
  mem : ∀ x, x ≠ ctx → s'.mem x = s.mem x
  asked : ∀ x, x ≠ ctx → s'.asked x = s.asked x
  ran : ∀ x, x ≠ ctx → s'.ran x = s.ran x
  waiting : ∀ h, h ≠ g → s'.waiting h = s.waiting h
  channel : ∀ q ∈ s'.channel, q.arg ≠ ctx → q ∈ s.channel
  own : s.waiting g = some ctx ∨ s.waiting g = none ∧ s.next ≤ ctx
  after : s'.waiting g = some ctx ∨ s'.waiting g = none
  lt : ctx < s'.next
  next : s.next ≤ s'.next

section Local

variable {s s' : St} {g : Gid} {ctx : Addr}

/-- Nobody else waits for the `ctx`. -/
theorem Local.not_waiting (hl : Local s s' g ctx) (hi : Inv s) {h : Gid} (hne : h ≠ g) :
    s.waiting h ≠ some ctx := by
  intro hw
  obtain ⟨_, c, hc, hgreenlet, _⟩ := hi.waiting h ctx hw
  rcases hl.own with hown | ⟨_, hfresh⟩
  · obtain ⟨_, c', hc', hgreenlet', _⟩ := hi.waiting g ctx hown
    rw [hc, Cell.ctx.injEq] at hc'
    rw [hc', hgreenlet'] at hgreenlet
    exact hne hgreenlet.symm
  · rw [(hi.fresh ctx hfresh).1] at hc
    cases hc

/-- What a local step has to meet is about its greenlet and its `ctx`. -/
theorem Local.lifeCycle_iff (hl : Local s s' g ctx) (hi : Inv s) (hp : LifeCycle s) :
    LifeCycle s' ↔ (s'.asked ctx = true → s'.mem ctx = .freed → s'.ran ctx = true) ∧
      (s'.waiting g = some ctx → s'.ran ctx = false) := by
  constructor
  · intro h
    exact ⟨h.freed ctx, h.resumed g ctx⟩
  · rintro ⟨hfreed, hresumed⟩
    constructor
    · intro x hasked hmem
      by_cases hx : x = ctx
      · subst hx
        exact hfreed hasked hmem
      · rw [hl.asked x hx] at hasked
        rw [hl.mem x hx] at hmem
        rw [hl.ran x hx]
        exact hp.freed x hasked hmem
    · intro h x hw
      by_cases hh : h = g
      · subst hh
        rcases hl.after with hsome | hnone
        · rw [hsome, Option.some.injEq] at hw
          subst hw
          exact hresumed hsome
        · rw [hnone] at hw
          cases hw
      · rw [hl.waiting h hh] at hw
        have hx : x ≠ ctx := by
          rintro rfl
          exact hl.not_waiting hi hh hw
        rw [hl.ran x hx]
        exact hp.resumed h x hw

/-- A local step keeps the invariant if it does at its greenlet and `ctx`. -/
theorem Local.inv (hl : Local s s' g ctx) (hi : Inv s)
    (hwaiting : s'.waiting g = some ctx → s'.asked ctx = true ∧
      ∃ c, s'.mem ctx = .ctx c ∧ c.greenlet = g ∧ c.called = false)
    (hchannel : ∀ q ∈ s'.channel, q.arg = ctx → s'.ran ctx = false ∧ s'.waiting g = some ctx) :
    Inv s' where
  waiting := by
    intro h x hw
    by_cases hh : h = g
    · subst hh
      rcases hl.after with hsome | hnone
      · rw [hsome, Option.some.injEq] at hw
        subst hw
        exact hwaiting hsome
      · rw [hnone] at hw
        cases hw
    · rw [hl.waiting h hh] at hw
      have hx : x ≠ ctx := by
        rintro rfl
        exact hl.not_waiting hi hh hw
      rw [hl.asked x hx, hl.mem x hx]
      exact hi.waiting h x hw
  channel := by
    intro q hq
    by_cases hx : q.arg = ctx
    · obtain ⟨hran, hw⟩ := hchannel q hq hx
      obtain ⟨_, c, hc, hgreenlet, _⟩ := hwaiting hw
      rw [hx]
      exact ⟨hran, c, hc, hgreenlet ▸ hw⟩
    · obtain ⟨hran, c, hc, hw⟩ := hi.channel q (hl.channel q hq hx)
      have hh : c.greenlet ≠ g := by
        intro hh
        rw [hh] at hw
        rcases hl.own with hown | ⟨hnone, _⟩
        · rw [hown, Option.some.injEq] at hw
          exact hx hw.symm
        · rw [hnone] at hw
          cases hw
      rw [hl.ran _ hx, hl.mem _ hx]
      refine ⟨hran, c, hc, ?_⟩
      rw [hl.waiting _ hh]
      exact hw
  fresh := by
    intro x hx
    have hne : x ≠ ctx := Nat.ne_of_gt (Nat.lt_of_lt_of_le hl.lt hx)
    rw [hl.mem x hne, hl.asked x hne, hl.ran x hne]
    exact hi.fresh x (Nat.le_trans hl.next hx)

end Local

/-! ## Callbacks -/

section Callbacks

variable {s s' : St} {g : Gid} {arg ctx : Addr} {a : Answer} {c : lookup_ctx_t}

/-- The six callbacks differ in what they make of the answer. -/
theorem call_eq (cb : Callback) : ∃ (α : Type) (answer : Answer → Option α)
    (build : lookup_ctx_t → α → Option (Option Obj)), cb.call = callback answer build := by
  cases cb with
  | gethostbyname_cb =>
    unfold Callback.call Lookup.gethostbyname_cb
    exact ⟨_, _, _, rfl⟩
  | gethostbyname_ex_cb =>
    unfold Callback.call Lookup.gethostbyname_ex_cb
    exact ⟨_, _, _, rfl⟩
  | getnameinfo_cb =>
    unfold Callback.call Lookup.getnameinfo_cb
    exact ⟨_, _, _, rfl⟩
  | getnameinfo_ex_cb =>
    unfold Callback.call Lookup.getnameinfo_ex_cb
    exact ⟨_, _, _, rfl⟩
  | getsockaddr_cb =>
    unfold Callback.call Lookup.getsockaddr_cb
    exact ⟨_, _, _, rfl⟩
  | gethostbyaddr_cb =>
    unfold Callback.call Lookup.gethostbyaddr_cb
    exact ⟨_, _, _, rfl⟩

/-- A callback that is told of the end does nothing but run. -/
theorem call_dropped (cb : Callback) (s : St) (arg : Addr) (h : a.Dropped) :
    cb.call s arg a = some { s with ran := Function.update s.ran arg true } := by
  obtain ⟨α, answer, build, hcall⟩ := call_eq cb
  rw [hcall]
  exact if_pos h

/-- Any other callback marks the `ctx`, and switches into its greenlet. -/
theorem call_live (cb : Callback) (hc : s.mem arg = .ctx c) (h : ¬ a.Dropped) :
    ∃ c' error, c'.greenlet = c.greenlet ∧ c'.called = true ∧
      cb.call s arg a = some (greenlet_switch
        { s with
          ran := Function.update s.ran arg true
          mem := Function.update s.mem arg (.ctx c')
          error := error } c.greenlet) := by
  obtain ⟨α, answer, build, hcall⟩ := call_eq cb
  simp only [hcall, callback, if_neg h, hc]
  cases if a.status = ARES_SUCCESS then answer a else none with
  | none => exact ⟨{ c with called := true, retval := -1 }, true, rfl, rfl, rfl⟩
  | some x =>
    simp only
    cases build { c with called := true } x with
    | none => exact ⟨{ c with called := true }, true, rfl, rfl, rfl⟩
    | some obj => exact ⟨{ c with called := true, result := obj }, s.error, rfl, rfl, rfl⟩

/-- Once the `ctx` is marked the wait is over. -/
theorem wait_lookup_called (hc : s.mem ctx = .ctx c) (h : c.called = true) :
    wait_lookup s g ctx = finish s g ctx := by
  have hcalled : called s ctx = true := by
    rw [called, hc]
    exact h
  rw [wait_lookup, hcalled, Bool.true_or, if_pos rfl]

/-- Until then it goes on, unless an error is pending. -/
theorem wait_lookup_uncalled (hc : s.mem ctx = .ctx c) (h : c.called = false) :
    wait_lookup s g ctx =
      if s.error then finish s g ctx
      else { s with waiting := Function.update s.waiting g (some ctx) } := by
  have hcalled : called s ctx = false := by
    rw [called, hc]
    exact h
  rw [wait_lookup, hcalled, Bool.false_or]

end Callbacks

/-! ## Lookups -/

section Lookups

variable {s s' : St} {g : Gid}

/-- A step that writes one `ctx` and the wait of one greenlet. -/
theorem local_of_update {ctx : Addr} {cell : Cell} {asked ran : Bool} {wait : Option Addr}
    (hmem : s'.mem = Function.update s.mem ctx cell)
    (hasked : s'.asked = Function.update s.asked ctx asked)
    (hran : s'.ran = Function.update s.ran ctx ran)
    (hwaiting : s'.waiting = Function.update s.waiting g wait)
    (hchannel : ∀ q ∈ s'.channel, q.arg ≠ ctx → q ∈ s.channel)
    (hown : s.waiting g = some ctx ∨ s.waiting g = none ∧ s.next ≤ ctx)
    (hafter : wait = some ctx ∨ wait = none) (hlt : ctx < s'.next) (hnext : s.next ≤ s'.next) :
    Local s s' g ctx where
  mem x hx := hmem ▸ Function.update_of_ne hx _ _
  asked x hx := hasked ▸ Function.update_of_ne hx _ _
  ran x hx := hran ▸ Function.update_of_ne hx _ _
  waiting h hh := hwaiting ▸ Function.update_of_ne hh _ _
  channel := hchannel
  own := hown
  after := by
    rw [hwaiting, Function.update_self]
    exact hafter
  lt := hlt
  next := hnext

/-- What a lookup comes to: it waits, or it is over. -/
structure Looked (s s' : St) (g : Gid) (answer : Option Answer) : Prop where
  loc : Local s s' g s.next
  asked : s'.asked s.next = true
  ran : s'.ran s.next = answer.isSome
  channel : ∀ q ∈ s'.channel, q.arg = s.next → answer = none
  waits : Waits s answer → s'.waiting g = some s.next ∧
    ∃ c, s'.mem s.next = .ctx c ∧ c.greenlet = g ∧ c.called = false
  gone : ¬ Waits s answer → s'.waiting g = none ∧ s'.mem s.next = .freed

/-- `wait_lookup` of the new `ctx`, after the query. -/
theorem looked_wait (hi : Inv s) {t : St} {c : lookup_ctx_t} {answer : Option Answer}
    (hw : s.waiting g = none) (hmem : t.mem = Function.update s.mem s.next (.ctx c))
    (hgreenlet : c.greenlet = g) (hasked : t.asked = Function.update s.asked s.next true)
    (hran : t.ran = Function.update s.ran s.next answer.isSome) (hwaiting : t.waiting = s.waiting)
    (hchannel : ∀ q ∈ t.channel, q ∈ s.channel ∨ q.arg = s.next ∧ answer = none)
    (hnext : t.next = s.next + 1) (hwaits : Waits s answer ↔ (c.called || t.error) = false) :
    Looked s (wait_lookup t g s.next) g answer := by
  have hlt : s.next < t.next := hnext ▸ Nat.lt_succ_self _
  have hold : ∀ q ∈ t.channel, q.arg ≠ s.next → q ∈ s.channel := by
    intro q hq hne
    rcases hchannel q hq with hq' | ⟨heq, _⟩
    · exact hq'
    · exact absurd heq hne
  have hnew : ∀ q ∈ t.channel, q.arg = s.next → answer = none := by
    intro q hq heq
    rcases hchannel q hq with hq' | ⟨_, hnone⟩
    · -- an older query has an older `ctx`
      obtain ⟨_, c', hc', _⟩ := hi.channel q hq'
      rw [heq, (hi.fresh s.next (Nat.le_refl _)).1] at hc'
      cases hc'
    · exact hnone
  have hloc : ∀ {s' : St} {cell : Cell} {wait : Option Addr},
      s'.mem = Function.update t.mem s.next cell → s'.asked = t.asked → s'.ran = t.ran →
      s'.waiting = Function.update t.waiting g wait → s'.channel = t.channel →
      s'.next = t.next → wait = some s.next ∨ wait = none → Local s s' g s.next := by
    intro s' cell wait hmem' hasked' hran' hwaiting' hchannel' hnext' hafter
    rw [hmem, Function.update_idem] at hmem'
    rw [hwaiting] at hwaiting'
    rw [← hnext'] at hlt
    rw [← hchannel'] at hold
    exact local_of_update hmem' (hasked'.trans hasked) (hran'.trans hran) hwaiting' hold
      (.inr ⟨hw, Nat.le_refl _⟩) hafter hlt (Nat.le_of_lt hlt)
  have hasked' : t.asked s.next = true := by
    rw [hasked, Function.update_self]
  have hran' : t.ran s.next = answer.isSome := by
    rw [hran, Function.update_self]
  have hcalled : called t s.next = c.called := by
    rw [called, hmem, Function.update_self]
  rw [wait_lookup, hcalled]
  cases hgo : c.called || t.error with
  | false =>
    -- Case: the greenlet is suspended
    refine ⟨?_, hasked', hran', hnew, fun _ => ⟨Function.update_self _ _ _, c, ?_, hgreenlet, ?_⟩,
      fun hnot => absurd (hwaits.2 hgo) hnot⟩
    · exact hloc (Function.update_eq_self _ _).symm rfl rfl rfl rfl rfl (.inl rfl)
    · show t.mem s.next = _
      rw [hmem, Function.update_self]
    · exact (Bool.or_eq_false_iff.1 hgo).1
  | true =>
    -- Case: the lookup is over
    refine ⟨?_, hasked', hran', hnew, fun hyes => ?_,
      fun _ => ⟨Function.update_self _ _ _, Function.update_self _ _ _⟩⟩
    · exact hloc rfl rfl rfl rfl rfl rfl (.inr rfl)
    · rw [hwaits.1 hyes] at hgo
      cases hgo

theorem looked (hi : Inv s) {cb : Callback} {family : Nat} {answer : Option Answer}
    (hw : s.waiting g = none) (h : lookup cb family s g answer = some s') :
    Looked s s' g answer := by
  obtain ⟨t, hquery, rfl⟩ := Option.map_eq_some_iff.1 h
  have hran : (init_ctx s g family).ran s.next = false := (hi.fresh s.next (Nat.le_refl _)).2.2
  cases answer with
  | none =>
    cases hquery
    refine looked_wait hi hw rfl rfl rfl ?_ rfl (fun q hq => ?_) rfl ?_
    · exact (Function.update_eq_self_iff.2 hran.symm).symm
    · rw [List.mem_append, List.mem_singleton] at hq
      rcases hq with hq | rfl
      · exact .inl hq
      · exact .inr ⟨rfl, rfl⟩
    · exact Iff.rfl
  | some a =>
    simp only [ares_query] at hquery
    by_cases hd : a.Dropped
    · -- Case: the callback does nothing
      rw [call_dropped _ _ _ hd] at hquery
      cases hquery
      refine looked_wait hi hw rfl rfl rfl rfl rfl (fun q hq => .inl hq) rfl ?_
      exact and_iff_right hd
    · -- Case: the callback switches to the greenlet itself
      have hc : ({ init_ctx s g family with
          asked := Function.update (init_ctx s g family).asked s.next true } : St).mem s.next =
          .ctx ⟨none, family, g, 1, false⟩ := Function.update_self _ _ _
      obtain ⟨c', error, hgreenlet, hcalled, hcall⟩ := call_live cb hc hd
      rw [hcall] at hquery
      cases hquery
      have hself : ∀ t : St, t.waiting g = none → greenlet_switch t g = t := by
        intro t ht
        rw [greenlet_switch, ht]
      rw [hself]
      · refine looked_wait hi hw (Function.update_idem _ _ _) hgreenlet rfl rfl rfl
          (fun q hq => .inl hq) rfl ?_
        rw [hcalled, Bool.true_or]
        exact iff_of_false (fun hwaits => hd hwaits.1) nofun
      · exact hw

/-- A lookup is good if c-ares answers it at once, or the greenlet can wait. -/
theorem Looked.lifeCycle_iff {answer : Option Answer} (h : Looked s s' g answer) (hi : Inv s)
    (hp : LifeCycle s) : LifeCycle s' ↔ Answered s answer := by
  rw [h.loc.lifeCycle_iff hi hp, h.asked, h.ran]
  cases answer with
  | none =>
    simp only [Option.isSome_none, Answered, forall_const, Bool.false_eq_true, imp_false]
    constructor
    · rintro ⟨hfreed, _⟩
      by_contra herror
      exact hfreed (h.gone herror).2
    · intro herror
      obtain ⟨_, c, hc, _⟩ := h.waits herror
      rw [hc]
      exact ⟨nofun, fun _ => trivial⟩
  | some a =>
    simp only [Option.isSome_some, Answered, implies_true, true_and, Bool.true_eq_false, imp_false]
    constructor
    · intro hresumed hd
      by_contra herror
      exact hresumed (h.waits ⟨hd, Bool.not_eq_true _ ▸ herror⟩).1
    · intro hd hsome
      have hnot : ¬ Waits s (some a) := by
        rintro ⟨hdropped, herror⟩
        rw [hd hdropped] at herror
        cases herror
      rw [(h.gone hnot).1] at hsome
      cases hsome

theorem Looked.inv {answer : Option Answer} (h : Looked s s' g answer) (hi : Inv s)
    (hok : Answered s answer) : Inv s' := by
  refine h.loc.inv hi (fun hwaiting => ⟨h.asked, ?_⟩) (fun q hq heq => ?_)
  · have hwaits : Waits s answer := by
      by_contra hnot
      rw [(h.gone hnot).1] at hwaiting
      cases hwaiting
    exact (h.waits hwaits).2
  · have hnone := h.channel q hq heq
    subst hnone
    exact ⟨h.ran, (h.waits hok).1⟩

/-- A `ctx` that c-ares is never given. -/
theorem unasked (hi : Inv s) (hp : LifeCycle s) {cell : Cell} (hw : s.waiting g = none)
    (hmem : s'.mem = Function.update s.mem s.next cell) (hasked : s'.asked = s.asked)
    (hran : s'.ran = s.ran) (hwaiting : s'.waiting = s.waiting) (hchannel : s'.channel = s.channel)
    (hnext : s'.next = s.next + 1) : LifeCycle s' ∧ Inv s' := by
  have hasked' : s'.asked s.next = false := by
    rw [hasked]
    exact (hi.fresh s.next (Nat.le_refl _)).2.1
  have hlt : s.next < s'.next := hnext ▸ Nat.lt_succ_self _
  have hloc : Local s s' g s.next := by
    refine local_of_update hmem (hasked.trans (Function.update_eq_self s.next _).symm)
      (hran.trans (Function.update_eq_self s.next _).symm) ?_ (fun q hq _ => hchannel ▸ hq)
      (.inr ⟨hw, Nat.le_refl _⟩) (.inr rfl) hlt (Nat.le_of_lt hlt)
    rw [hwaiting, ← hw, Function.update_eq_self]
  have hnone : s'.waiting g ≠ some s.next := by
    rw [hwaiting, hw]
    exact nofun
  refine ⟨(hloc.lifeCycle_iff hi hp).2 ⟨fun ha => ?_, fun h => absurd h hnone⟩,
    hloc.inv hi (fun h => absurd h hnone) (fun q hq heq => ?_)⟩
  · rw [hasked'] at ha
    cases ha
  · rw [hchannel] at hq
    obtain ⟨_, c, hc, _⟩ := hi.channel q hq
    rw [heq, (hi.fresh s.next (Nat.le_refl _)).1] at hc
    cases hc

/-- A text that is no address. -/
theorem gethostbyaddr_unasked (hi : Inv s) (hp : LifeCycle s) {answer : Option Answer}
    (hw : s.waiting g = none) (h : async_gethostbyaddr s g false answer = some s') :
    LifeCycle s' ∧ Inv s' := by
  have hs' := Option.some.inj h
  rw [← hs']
  exact unasked hi hp hw (Function.update_idem _ _ _) rfl rfl rfl rfl rfl

/-- Flags that c-ares does not have. -/
theorem getnameinfo_ex_unasked (hi : Inv s) (hp : LifeCycle s) {flag : UInt32}
    {answer : Option Answer} (hw : s.waiting g = none) (hflag : convert_nameinfo_flag flag = none)
    (h : async_getnameinfo_ex s g flag answer = some s') : LifeCycle s' ∧ Inv s' := by
  rw [async_getnameinfo_ex, hflag] at h
  have hs' := Option.some.inj h
  rw [← hs']
  exact unasked hi hp hw rfl rfl rfl rfl rfl rfl

theorem getnameinfo_ex_asked {flag ares_flag : UInt32} {answer : Option Answer}
    (hflag : convert_nameinfo_flag flag = some ares_flag) :
    async_getnameinfo_ex s g flag answer = lookup .getnameinfo_ex_cb 0 s g answer := by
  rw [async_getnameinfo_ex, hflag]

end Lookups

/-! ## Steps -/

section Steps

variable {s s' : St}

/-- The error indicator and what the lookups returned do not matter. -/
theorem LifeCycle.congr (hp : LifeCycle s) (hmem : s'.mem = s.mem) (hasked : s'.asked = s.asked)
    (hran : s'.ran = s.ran) (hwaiting : s'.waiting = s.waiting) : LifeCycle s' where
  freed := by
    rw [hmem, hasked, hran]
    exact hp.freed
  resumed := by
    rw [hwaiting, hran]
    exact hp.resumed

theorem Inv.congr (hi : Inv s) (hmem : s'.mem = s.mem) (hasked : s'.asked = s.asked)
    (hran : s'.ran = s.ran) (hwaiting : s'.waiting = s.waiting) (hchannel : s'.channel = s.channel)
    (hnext : s'.next = s.next) : Inv s' where
  waiting := by
    rw [hwaiting, hasked, hmem]
    exact hi.waiting
  channel := by
    rw [hchannel, hran, hmem, hwaiting]
    exact hi.channel
  fresh := by
    rw [hnext, hmem, hasked, hran]
    exact hi.fresh

/-- The end of the channel runs every callback and resumes nobody. -/
theorem destroy_queries_eq (qs : List Query) (s : St) : destroy_queries qs s =
    some { s with ran := fun x => s.ran x || decide (∃ q ∈ qs, q.arg = x) } := by
  induction qs generalizing s with
  | nil => simp [destroy_queries]
  | cons q qs ih =>
    have hd : Answer.Dropped ⟨ARES_EDESTRUCTION, none, none, none⟩ := .inr rfl
    rw [destroy_queries, call_dropped _ _ _ hd, Option.bind_some, ih]
    congr 2
    funext x
    by_cases hx : x = q.arg
    · simp [hx]
    · simp [hx, Ne.symm hx]

/-- What an answer does to the query it is for. -/
theorem process_fd_spec (hi : Inv s) {arg : Addr} {a : Answer}
    (h : ares_process_fd s arg a = some s') : ∃ g, s.waiting g = some arg ∧
      (a.Dropped → s'.waiting g = some arg ∧ s'.ran arg = true) ∧
      (¬ a.Dropped → Local s s' g arg ∧ s'.waiting g = none ∧ s'.ran arg = true ∧
        ∀ q ∈ s'.channel, q.arg ≠ arg) := by
  obtain ⟨q, hfind, hcall⟩ := Option.bind_eq_some_iff.1 h
  have hq : q ∈ s.channel := List.mem_of_find?_eq_some hfind
  have harg : q.arg = arg := by
    simpa using List.find?_some hfind
  obtain ⟨_, c, hc, hw⟩ := hi.channel q hq
  rw [harg] at hc hw
  have hlt : arg < s.next := by
    by_contra hle
    rw [(hi.fresh arg (Nat.le_of_not_lt hle)).1] at hc
    cases hc
  refine ⟨c.greenlet, hw, fun hd => ?_, fun hd => ?_⟩
  · rw [call_dropped _ _ _ hd] at hcall
    cases hcall
    exact ⟨hw, Function.update_self _ _ _⟩
  · have hc₁ : ({ s with channel := s.channel.filter fun q => q.arg ≠ arg } : St).mem arg =
        .ctx c := hc
    obtain ⟨c', error, _, hcalled, hlive⟩ := call_live q.callback hc₁ hd
    rw [hlive, Option.some.injEq] at hcall
    -- the switch comes back to `wait_lookup`, which sees the mark
    unfold greenlet_switch at hcall
    simp only [hw] at hcall
    rw [wait_lookup_called (Function.update_self _ _ _) hcalled] at hcall
    have hchannel : ∀ q ∈ s'.channel, q ∈ s.channel ∧ q.arg ≠ arg := by
      intro q hq
      rw [← hcall] at hq
      simpa [finish] using hq
    refine ⟨?_, ?_, ?_, fun q hq => (hchannel q hq).2⟩
    · rw [← hcall]
      exact local_of_update (Function.update_idem _ _ _) (Function.update_eq_self arg s.asked).symm
        rfl rfl (fun q hq _ => (hchannel q (hcall ▸ hq)).1) (.inl hw) (.inr rfl) hlt (Nat.le_refl _)
    · rw [← hcall]
      exact Function.update_self _ _ _
    · rw [← hcall]
      exact Function.update_self _ _ _

/-- A wait that ends without its callback. -/
theorem not_lifeCycle_finish (hi : Inv s) (hp : LifeCycle s) {g : Gid} {ctx : Addr}
    (hw : s.waiting g = some ctx) {t : St} (hasked : t.asked = s.asked) (hran : t.ran = s.ran) :
    ¬ LifeCycle (finish t g ctx) := by
  intro h
  have hasked' : t.asked ctx = true := by
    rw [hasked]
    exact (hi.waiting g ctx hw).1
  have hran' := h.freed ctx hasked' (Function.update_self _ _ _)
  rw [show (finish t g ctx).ran = s.ran from hran, hp.resumed g ctx hw] at hran'
  cases hran'

theorem switch_cases (hi : Inv s) (g : Gid) :
    (s.waiting g = none ∨ s.error = false) ∧ (greenlet_switch s g).waiting = s.waiting ∧
        (greenlet_switch s g) = { s with waiting := (greenlet_switch s g).waiting } ∨
      s.error = true ∧ ∃ ctx, s.waiting g = some ctx ∧ greenlet_switch s g = finish s g ctx := by
  unfold greenlet_switch
  cases hw : s.waiting g with
  | none => exact .inl ⟨.inl rfl, rfl, rfl⟩
  | some ctx =>
    obtain ⟨_, c, hc, _, hcalled⟩ := hi.waiting g ctx hw
    simp only [wait_lookup_uncalled hc hcalled]
    cases herror : s.error with
    | true => exact .inr ⟨rfl, ctx, rfl, rfl⟩
    | false =>
      have hsame : Function.update s.waiting g (some ctx) = s.waiting := by
        rw [← hw, Function.update_eq_self]
      exact .inl ⟨.inr rfl, hsame, rfl⟩

theorem calling_eq {t : Option St} {g : Gid} (h : calling s g t = some s') :
    s.waiting g = none ∧ t = some s' := Option.ite_none_right_eq_some.1 h

/-- Whether a step is good is told before it. -/
theorem step_lifeCycle_iff {a : Act} (h : step s a = some s') (hi : Inv s) (hp : LifeCycle s) :
    LifeCycle s' ↔ Proper s a := by
  cases a with
  | gethostbyname g answer | gethostbyname_ex g answer | getnameinfo g answer =>
    obtain ⟨hw, hl⟩ := calling_eq h
    exact (looked hi hw hl).lifeCycle_iff hi hp
  | getsockaddr g family answer =>
    obtain ⟨hw, hl⟩ := calling_eq h
    exact (looked hi hw hl).lifeCycle_iff hi hp
  | gethostbyaddr g is_address answer =>
    obtain ⟨hw, hl⟩ := calling_eq h
    cases is_address with
    | true =>
      simp only [Proper, forall_const]
      exact (looked hi hw hl).lifeCycle_iff hi hp
    | false => exact iff_of_true (gethostbyaddr_unasked hi hp hw hl).1 nofun
  | getnameinfo_ex g flag answer =>
    obtain ⟨hw, hl⟩ := calling_eq h
    simp only [Proper]
    cases hflag : convert_nameinfo_flag flag with
    | some ares_flag =>
      rw [getnameinfo_ex_asked hflag] at hl
      simp only [Option.isSome_some, forall_const]
      exact (looked hi hw hl).lifeCycle_iff hi hp
    | none => exact iff_of_true (getnameinfo_ex_unasked hi hp hw hflag hl).1 nofun
  | process_fd arg a =>
    obtain ⟨g, _, hdropped, hdone⟩ := process_fd_spec hi h
    simp only [Proper]
    by_cases hd : a.Dropped
    · -- Case: the greenlet waits on
      obtain ⟨hw', hran⟩ := hdropped hd
      refine iff_of_false (fun hp' => ?_) (fun hnot => hnot hd)
      rw [hp'.resumed g arg hw'] at hran
      cases hran
    · obtain ⟨hloc, hw', hran, _⟩ := hdone hd
      refine iff_of_true ((hloc.lifeCycle_iff hi hp).2 ⟨fun _ _ => hran, fun hsome => ?_⟩) hd
      rw [hw'] at hsome
      cases hsome
  | picoev_err =>
    have hdestroy : destroy_queries s.channel { s with error := true, channel := [] } = some s' := h
    rw [destroy_queries_eq] at hdestroy
    cases hdestroy
    constructor
    · intro hp'
      rw [Proper, List.eq_nil_iff_forall_not_mem]
      intro q hq
      obtain ⟨_, c, _, hw⟩ := hi.channel q hq
      have hran := hp'.resumed c.greenlet q.arg hw
      simp only [Bool.or_eq_false_iff, decide_eq_false_iff_not] at hran
      exact hran.2 ⟨q, hq, rfl⟩
    · intro hnil
      rw [Proper] at hnil
      refine hp.congr rfl rfl ?_ rfl
      simp [hnil]
  | throw g =>
    cases h
    simp only [Proper, greenlet_throw]
    cases hw : s.waiting g with
    | none => exact iff_of_true hp rfl
    | some ctx => exact iff_of_false (not_lifeCycle_finish hi hp hw rfl rfl) nofun
  | switch g =>
    cases h
    rcases switch_cases hi g with ⟨hok, hsame, heq⟩ | ⟨herror, ctx, hw, heq⟩
    · refine iff_of_true ?_ (fun hne => hok.resolve_left hne)
      rw [heq]
      exact hp.congr rfl rfl rfl hsame
    · rw [heq]
      refine iff_of_false (not_lifeCycle_finish hi hp hw rfl rfl) (fun hok => ?_)
      rw [hok (hw ▸ nofun)] at herror
      cases herror
  | set_error error =>
    cases h
    exact iff_of_true (hp.congr rfl rfl rfl rfl) trivial

theorem step_inv {a : Act} (h : step s a = some s') (hi : Inv s) (hp : LifeCycle s)
    (hok : Proper s a) : Inv s' := by
  cases a with
  | gethostbyname g answer | gethostbyname_ex g answer | getnameinfo g answer =>
    obtain ⟨hw, hl⟩ := calling_eq h
    exact (looked hi hw hl).inv hi hok
  | getsockaddr g family answer =>
    obtain ⟨hw, hl⟩ := calling_eq h
    exact (looked hi hw hl).inv hi hok
  | gethostbyaddr g is_address answer =>
    obtain ⟨hw, hl⟩ := calling_eq h
    cases is_address with
    | true => exact (looked hi hw hl).inv hi (hok rfl)
    | false => exact (gethostbyaddr_unasked hi hp hw hl).2
  | getnameinfo_ex g flag answer =>
    obtain ⟨hw, hl⟩ := calling_eq h
    cases hflag : convert_nameinfo_flag flag with
    | some ares_flag =>
      rw [getnameinfo_ex_asked hflag] at hl
      refine (looked hi hw hl).inv hi (hok ?_)
      rw [hflag]
      rfl
    | none => exact (getnameinfo_ex_unasked hi hp hw hflag hl).2
  | process_fd arg a =>
    obtain ⟨g, _, _, hdone⟩ := process_fd_spec hi h
    obtain ⟨hloc, hw', _, hchannel⟩ := hdone hok
    refine hloc.inv hi (fun hsome => ?_) (fun q hq heq => absurd heq (hchannel q hq))
    rw [hw'] at hsome
    cases hsome
  | picoev_err =>
    have hnil : s.channel = [] := hok
    have hdestroy : destroy_queries s.channel { s with error := true, channel := [] } = some s' := h
    rw [hnil] at hdestroy
    cases hdestroy
    exact hi.congr rfl rfl rfl rfl hnil.symm rfl
  | throw g =>
    cases h
    have hnone : s.waiting g = none := hok
    rw [greenlet_throw, hnone]
    exact hi
  | switch g =>
    cases h
    rcases switch_cases hi g with ⟨_, hsame, heq⟩ | ⟨herror, ctx, hw, _⟩
    · rw [heq]
      exact hi.congr rfl rfl rfl hsame rfl rfl
    · rw [hok (hw ▸ nofun)] at herror
      cases herror
  | set_error error =>
    cases h
    exact hi.congr rfl rfl rfl rfl rfl rfl

end Steps

/-! ## Main result -/

/-- Along a run no `ctx` is freed before its callback has run, and nobody waits for
a callback that has, exactly when nothing but its callback ends a wait, no
callback is told of the end, and no wait begins with an error pending. -/
theorem lookups_iff (as : List Act) (s : St) (h : run step init as = some s) :
    Always step LifeCycle init as ↔ Steps step Proper init as :=
  always_iff_steps (fun _ _ _ hs hok hi hp => step_inv hs hi hp hok)
    (fun _ _ _ hs hi hp => step_lifeCycle_iff hs hi hp) inv_init lifeCycle_init h

/-- Two lookups wait at once, one of them is switched into before its answer, and
a third is answered by an error at once. -/
theorem lookups_iff_three : ∃ s, run step init
    [.gethostbyname 1 none, .getnameinfo_ex 2 1 none, .switch 1,
      .process_fd 1 ⟨0, none, some "a", some "http"⟩,
      .gethostbyname_ex 3 (some ⟨4, none, none, none⟩), .set_error false,
      .process_fd 0 ⟨0, some (.mk "b" [] 2 "10.0.0.1" []), none, none⟩, .picoev_err] = some s ∧
    (Always step LifeCycle init
        [.gethostbyname 1 none, .getnameinfo_ex 2 1 none, .switch 1,
          .process_fd 1 ⟨0, none, some "a", some "http"⟩,
          .gethostbyname_ex 3 (some ⟨4, none, none, none⟩), .set_error false,
          .process_fd 0 ⟨0, some (.mk "b" [] 2 "10.0.0.1" []), none, none⟩, .picoev_err] ↔
      Steps step Proper init
        [.gethostbyname 1 none, .getnameinfo_ex 2 1 none, .switch 1,
          .process_fd 1 ⟨0, none, some "a", some "http"⟩,
          .gethostbyname_ex 3 (some ⟨4, none, none, none⟩), .set_error false,
          .process_fd 0 ⟨0, some (.mk "b" [] 2 "10.0.0.1" []), none, none⟩, .picoev_err]) := by
  have h : (run step init
      [.gethostbyname 1 none, .getnameinfo_ex 2 1 none, .switch 1,
        .process_fd 1 ⟨0, none, some "a", some "http"⟩,
        .gethostbyname_ex 3 (some ⟨4, none, none, none⟩), .set_error false,
        .process_fd 0 ⟨0, some (.mk "b" [] 2 "10.0.0.1" []), none, none⟩, .picoev_err]).any
        (fun s => s.returned 1 = [some (.str "10.0.0.1")]) = true := by
    decide
  obtain ⟨s, hs, _⟩ := run_any h
  exact ⟨s, hs, lookups_iff _ s hs⟩

/-- An exception is thrown into a greenlet that waits, and its `ctx` is freed while
c-ares still has the query. -/
theorem interrupted_lookup_freed :
    ¬ ∀ as s, run step init as = some s → Always step LifeCycle init as := by
  intro hall
  have h : (run step init [.gethostbyname 1 none, .throw 1]).any
      (fun s => s.asked 0 = true ∧ s.mem 0 = .freed ∧ s.ran 0 = false) = true := by
    decide
  obtain ⟨s, hs, hend⟩ := run_any h
  obtain ⟨hasked, hfreed, hran⟩ := of_decide_eq_true hend
  have hgood := (hall _ s hs).last hs
  rw [hgood.freed 0 hasked hfreed] at hran
  cases hran

end Jega.Lookup
