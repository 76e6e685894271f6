import Jega.Locks.Permits

/-!
# Jega.Locks.Bounded — `BoundedSemaphoreObject` and `LockObject`

The two types that inherit from `SemaphoreObject`, and what a call on each of
them runs: the method table of its own type, then that of its base. Only
`release` of a bounded semaphore tests the bound. `__exit__` of a bounded
semaphore is the inherited one, and a lock has no table of its own, so its
`release` and its `__exit__` are the inherited ones too.

A run stays in bounds exactly when these give a permit back only below the
bound (`Within`).
-/

namespace Jega.Locks.Bounded

/-! ## Method tables -/

inductive LockType where
  | Semaphore
  | BoundedSemaphore
  | Lock
deriving DecidableEq, Repr

inductive Name where
  | acquire
  | release
  | enter
  | exit
deriving DecidableEq, Repr

inductive Method where
  | SemaphoreObject_acquire
  | SemaphoreObject_release
  | SemaphoreObject_enter
  | SemaphoreObject_exit
  | BoundedSemaphoreObject_release
deriving DecidableEq, Repr

/-- `tp_methods`; `_notify_waiter` is left to the loop. -/
def tp_methods : LockType → List (Name × Method)
  | .Semaphore =>
    [(.acquire, .SemaphoreObject_acquire), (.release, .SemaphoreObject_release),
      (.enter, .SemaphoreObject_enter), (.exit, .SemaphoreObject_exit)]
  | .BoundedSemaphore => [(.release, .BoundedSemaphoreObject_release)]
  | .Lock => []

/-- `tp_base`. -/
def tp_base : LockType → Option LockType
  | .Semaphore => none
  | .BoundedSemaphore | .Lock => some .Semaphore

/-- The method of a type: its own, or that of its base, which has no base. -/
def lookup (type : LockType) (name : Name) : Option Method :=
  match (tp_methods type).lookup name with
  | some m => some m
  | none => (tp_base type).bind fun base => (tp_methods base).lookup name

/-! ## The system -/

structure St where
  locks : Locks.St
  type : Sid → LockType
  /-- `init_counter` of the bounded semaphores. -/
  init_counter : Sid → UInt32

/-- `LockObject_init` stores one permit, the others what they are given. -/
def init (type : Sid → LockType) (value : Sid → Int) : St where
  locks := Locks.init fun sem => if type sem = .Lock then 1 else value sem
  type := type
  init_counter := fun sem => UInt32.ofInt (value sem)

/-- A method runs: it raises, or the semaphores have changed. -/
def invoke (s : St) (self : Sid) (current : Gid) (blocking : Bool) (timeout : Nat) :
    Method → Except String Locks.St
  | .SemaphoreObject_acquire => .ok (semaphore_acquire s.locks self current blocking timeout).1
  | .SemaphoreObject_enter => .ok (semaphore_acquire s.locks self current true 0).1
  | .SemaphoreObject_release | .SemaphoreObject_exit => .ok (semaphore_release s.locks self current)
  | .BoundedSemaphoreObject_release =>
    if (s.locks.sems self).counter ≥ s.init_counter self then
      .error "Semaphore released too many times"
    else .ok (semaphore_release s.locks self current)

/-- A call by name. -/
def call (s : St) (self : Sid) (current : Gid) (name : Name) (blocking : Bool) (timeout : Nat) :
    Except String Locks.St :=
  match lookup (s.type self) name with
  | some m => invoke s self current blocking timeout m
  | none => .error "AttributeError"

inductive Act where
  /-- A call of a method; `acquire` alone reads the arguments. -/
  | call (g : Gid) (sem : Sid) (name : Name) (blocking : Bool) (timeout : Nat)
  /-- The loop fires the head of its queue. -/
  | fire (waiter : Gid)
  /-- A timer of the heap is due. -/
  | due (timer : Hid)
  /-- An exception is thrown into a greenlet. -/
  | throw (g : Gid) (e : Exc)
  /-- Some other code switches into a greenlet. -/
  | switch (g : Gid)
  /-- Some other code schedules a call. -/
  | call_soon (n : Nat)
deriving DecidableEq, Repr

def step (s : St) : Act → Option St
  | .call g sem name blocking timeout =>
    if s.locks.frames g = none then
      match call s sem g name blocking timeout with
      | .ok locks => some { s with locks := locks }
      | .error _ => some s
    else none
  | .fire waiter => (fire s.locks waiter).map fun r => { s with locks := r.1 }
  | .due timer =>
    (s.locks.loop.fire_timers_next timer).map fun loop =>
      { s with locks := { s.locks with loop := loop } }
  | .throw g e => some { s with locks := (resume s.locks g (.throw e)).1 }
  | .switch g => some { s with locks := (resume s.locks g (.value .loop_switch_value)).1 }
  | .call_soon n =>
    let loop := (s.locks.loop.loop_schedule_call 0 (some (.other n)) none).1
    some { s with locks := { s.locks with loop := loop } }

/-! ## The statement -/

/-- The acquires that returned `True` and were not given back. -/
def outstanding (l : List Entry) : Nat :=
  l.foldl (fun n e => if e.took then n + 1 else if e.released then n - 1 else n) 0

/-- The bound of a bounded semaphore is its first value, that of a lock is one. -/
def bound (type : Sid → LockType) (value : Sid → Int) (sem : Sid) : Option Nat :=
  match type sem with
  | .Semaphore => none
  | .BoundedSemaphore => some (value sem).toNat
  | .Lock => some 1

variable (type : Sid → LockType) (value : Sid → Int)

/-- No counter is above its bound, and no more acquires are outstanding. -/
def InBounds (s : St) : Prop :=
  ∀ sem b, bound type value sem = some b →
    (s.locks.sems sem).counter.toNat ≤ b ∧ outstanding (s.locks.log sem) ≤ b

/-- The names that give a permit back. -/
def Name.gives_back : Name → Bool
  | .release | .exit => true
  | .acquire | .enter => false

/-- A call that would push a counter over its bound raises, and changes nothing. -/
def Refuses (s : St) : Act → Prop
  | .call g sem name blocking timeout =>
    name.gives_back = true → ∀ b, bound type value sem = some b →
      b ≤ (s.locks.sems sem).counter.toNat →
      call s sem g name blocking timeout = .error "Semaphore released too many times" ∧
        step s (.call g sem name blocking timeout) = some s
  | _ => True

/-- The calls that give a permit back without a test do so below the bound. -/
def Within (s : St) : Act → Prop
  | .call _ sem name _ _ =>
    name.gives_back = true → lookup (type sem) name ≠ some .BoundedSemaphoreObject_release →
      ∀ b, bound type value sem = some b → (s.locks.sems sem).counter.toNat < b
  | _ => True

/-! ## The invariant -/

/-- The types and the bounds of the objects do not change, and of the permits of
each the ones that are not there are outstanding. -/
structure Balanced (s : St) : Prop where
  same : s.type = type
  init_counter : ∀ sem, type sem = .BoundedSemaphore →
    (s.init_counter sem).toNat = (value sem).toNat
  balance : ∀ sem b, bound type value sem = some b →
    outstanding (s.locks.log sem) + (s.locks.sems sem).counter.toNat = b

/-- The first values of the bounded semaphores are those of a C `int`. -/
def Values : Prop := ∀ sem, type sem = .BoundedSemaphore → 0 ≤ value sem ∧ value sem < 2 ^ 31

variable {type} {value} {s s' : St}

theorem bound_lt (hv : Values type value) {sem : Sid} {b : Nat}
    (hb : bound type value sem = some b) : b < 2 ^ 31 := by
  unfold bound at hb
  split at hb
  · cases hb
  next htype =>
    have hsem := hv sem htype
    cases hb
    omega
  · cases hb
    decide

theorem Balanced.inBounds (hb : Balanced type value s) : InBounds type value s := by
  intro sem b hbound
  have hbalance := hb.balance sem b hbound
  constructor
  · omega
  · omega

theorem init_balanced (hv : Values type value) : Balanced type value (init type value) := by
  have hcounter : ∀ v : Int, 0 ≤ v → v < 2 ^ 31 → (UInt32.ofInt v).toNat = v.toNat := by
    intro v h0 hlt
    simp only [UInt32.ofInt, UInt32.toNat_ofNat']
    omega
  refine ⟨rfl, fun sem htype => ?_, fun sem b hb => ?_⟩
  · exact hcounter _ (hv sem htype).1 (hv sem htype).2
  · simp only [init, Locks.init, SemaphoreObject.init, outstanding, List.foldl_nil, Nat.zero_add]
    unfold bound at hb
    split at hb
    · cases hb
    next htype =>
      cases hb
      rw [htype, if_neg (by simp)]
      exact hcounter _ (hv sem htype).1 (hv sem htype).2
    next htype =>
      cases hb
      rw [htype, if_pos rfl]
      rfl

theorem outstanding_append (l : List Entry) (e : Entry) :
    outstanding (l ++ [e]) = if e.took then outstanding l + 1
      else if e.released then outstanding l - 1 else outstanding l := by
  rw [outstanding, List.foldl_append]
  rfl

/-- A step that gives no permit back. -/
theorem Balanced.effect (hb : Balanced type value s) {l : Locks.St} (he : Effect s.locks l) :
    Balanced type value { s with locks := l } := by
  refine ⟨hb.same, hb.init_counter, fun sem b hbound => ?_⟩
  have hold := hb.balance sem b hbound
  have hcounter : ∀ {l' : Locks.St} (sem : Sid), counters l' sem = (l'.sems sem).counter :=
    fun _ => rfl
  rw [← hcounter] at hold ⊢
  cases he with
  | none hc hl =>
    rw [hc, hl]
    exact hold
  | failed sem' g res hres hc hl =>
    rw [hc, hl, logged]
    rcases eq_or_ne sem sem' with rfl | hne
    · rw [Function.update_self, outstanding_append, took_eq_false hres]
      exact hold
    · rw [Function.update_of_ne hne]
      exact hold
  | took sem' g hpos hc hl =>
    simp only
    rw [hc, hl, logged]
    rcases eq_or_ne sem sem' with rfl | hne
    · -- one permit less, one acquire more
      have hpred := counter_pred hpos
      rw [Function.update_self, Function.update_self, outstanding_append]
      simp only [Entry.took, if_true]
      omega
    · rw [Function.update_of_ne hne, Function.update_of_ne hne]
      exact hold

/-- A permit that is given back must have room. -/
theorem Balanced.release_iff (hv : Values type value) (hb : Balanced type value s) {l : Locks.St}
    {sem : Sid} {g : Gid} (hr : Released s.locks l sem g) :
    (InBounds type value { s with locks := l } ↔
        ∀ b, bound type value sem = some b → (s.locks.sems sem).counter.toNat < b) ∧
      ((∀ b, bound type value sem = some b → (s.locks.sems sem).counter.toNat < b) →
        Balanced type value { s with locks := l }) := by
  have hcounter : ∀ {l' : Locks.St} (sem : Sid), counters l' sem = (l'.sems sem).counter :=
    fun _ => rfl
  have hone : (1 : UInt32).toNat = 1 := rfl
  have hsucc : ∀ b, bound type value sem = some b →
      (counters l sem).toNat = (s.locks.sems sem).counter.toNat + 1 := by
    intro b hbound
    have hlt := bound_lt hv hbound
    have hold := hb.balance sem b hbound
    rw [hr.counter, Function.update_self, hcounter, UInt32.toNat_add, hone]
    omega
  have hkeep : (∀ b, bound type value sem = some b → (s.locks.sems sem).counter.toNat < b) →
      Balanced type value { s with locks := l } := by
    intro hroom
    refine ⟨hb.same, hb.init_counter, fun sem' b hbound => ?_⟩
    have hold := hb.balance sem' b hbound
    simp only
    rcases eq_or_ne sem' sem with rfl | hne
    · -- one permit more, one acquire less
      have hplus := hsucc b hbound
      have hlt := hroom b hbound
      rw [hcounter] at hplus
      rw [hr.log, logged, Function.update_self, outstanding_append, hplus]
      simp only [Entry.took, Entry.released, Bool.false_eq_true, if_false, if_true]
      omega
    · rw [← hcounter, hr.counter, hr.log, logged, Function.update_of_ne hne,
        Function.update_of_ne hne]
      exact hold
  refine ⟨⟨fun hin b hbound => ?_, fun hroom => (hkeep hroom).inBounds⟩, hkeep⟩
  have hle := (hin sem b hbound).1
  have hplus := hsucc b hbound
  rw [hcounter] at hplus
  simp only [hplus] at hle
  omega

/-! ## Calls -/

/-- What a call by name runs: no give-back, the one with a test, or one without. -/
theorem call_cases (s : St) (sem : Sid) (g : Gid) (name : Name) (blocking : Bool) (timeout : Nat) :
    (name.gives_back = false ∧
        ∃ l, call s sem g name blocking timeout = .ok l ∧ Effect s.locks l) ∨
      (name.gives_back = true ∧
        lookup (s.type sem) name = some .BoundedSemaphoreObject_release ∧
        s.type sem = .BoundedSemaphore ∧
        call s sem g name blocking timeout =
          if (s.locks.sems sem).counter ≥ s.init_counter sem then
            .error "Semaphore released too many times"
          else .ok (semaphore_release s.locks sem g)) ∨
      (name.gives_back = true ∧
        lookup (s.type sem) name ≠ some .BoundedSemaphoreObject_release ∧
        call s sem g name blocking timeout = .ok (semaphore_release s.locks sem g)) := by
  cases name with
  | acquire =>
    refine Or.inl ⟨rfl, _, ?_, acquire_effect s.locks sem g blocking timeout⟩
    cases htype : s.type sem <;> simp only [call, htype] <;> rfl
  | enter =>
    refine Or.inl ⟨rfl, _, ?_, acquire_effect s.locks sem g true 0⟩
    cases htype : s.type sem <;> simp only [call, htype] <;> rfl
  | release =>
    right
    cases htype : s.type sem with
    | BoundedSemaphore =>
      refine Or.inl ⟨rfl, rfl, rfl, ?_⟩
      simp only [call, htype]
      rfl
    | Semaphore | Lock =>
      refine Or.inr ⟨rfl, by decide, ?_⟩
      simp only [call, htype]
      rfl
  | exit =>
    right
    cases htype : s.type sem <;> refine Or.inr ⟨rfl, by decide, ?_⟩ <;> simp only [call, htype] <;>
      rfl

section CallStep

variable {g : Gid} {sem : Sid} {name : Name} {blocking : Bool} {timeout : Nat}

theorem call_step_ok (h : step s (.call g sem name blocking timeout) = some s') {l : Locks.St}
    (hcall : call s sem g name blocking timeout = .ok l) : s' = { s with locks := l } := by
  obtain ⟨_, hs'⟩ := Option.ite_none_right_eq_some.1 h
  rw [hcall] at hs'
  exact (Option.some.inj hs').symm

/-- A call that raises an error changes nothing. -/
theorem call_step_error (h : step s (.call g sem name blocking timeout) = some s') {e : String}
    (hcall : call s sem g name blocking timeout = .error e) : s' = s := by
  obtain ⟨_, hs'⟩ := Option.ite_none_right_eq_some.1 h
  rw [hcall] at hs'
  exact (Option.some.inj hs').symm

end CallStep

/-- The bound a bounded semaphore tests is its own. -/
theorem Balanced.tested (hb : Balanced type value s) {sem : Sid}
    (htype : s.type sem = .BoundedSemaphore) {b : Nat} (hbound : bound type value sem = some b) :
    (s.locks.sems sem).counter ≥ s.init_counter sem ↔ b ≤ (s.locks.sems sem).counter.toNat := by
  rw [hb.same] at htype
  have hinit := hb.init_counter sem htype
  simp only [bound, htype, Option.some.injEq] at hbound
  rw [ge_iff_le, UInt32.le_iff_toNat_le, hinit, hbound]

/-- A step that gives nothing back keeps to the bounds. -/
theorem Balanced.quiet (hb : Balanced type value s) {a : Act} {l : Locks.St}
    (hok : Within type value s a) (hrefuses : Refuses type value s a) (he : Effect s.locks l) :
    (InBounds type value { s with locks := l } ↔ Within type value s a) ∧
      (Within type value s a →
        Balanced type value { s with locks := l } ∧ Refuses type value s a) :=
  ⟨iff_of_true (hb.effect he).inBounds hok, fun _ => ⟨hb.effect he, hrefuses⟩⟩

theorem step_within (hv : Values type value) (s : St) (a : Act) (s' : St) (h : step s a = some s')
    (hb : Balanced type value s) :
    (InBounds type value s' ↔ Within type value s a) ∧
      (Within type value s a → Balanced type value s' ∧ Refuses type value s a) := by
  cases a with
  | call g sem name blocking timeout =>
    rcases call_cases s sem g name blocking timeout with
      ⟨hname, l, hcall, he⟩ | ⟨hname, hlook, htype, hcall⟩ | ⟨hname, hlook, hcall⟩
    · -- Case: the call gives nothing back
      rw [call_step_ok h hcall]
      refine hb.quiet (fun hgives => ?_) (fun hgives => ?_) he
      · rw [hname] at hgives
        cases hgives
      · rw [hname] at hgives
        cases hgives
    · -- Case: the call tests the bound
      rw [hb.same] at hlook
      have hok : Within type value s (.call g sem name blocking timeout) :=
        fun _ hnot => absurd hlook hnot
      by_cases hfull : (s.locks.sems sem).counter ≥ s.init_counter sem
      · rw [if_pos hfull] at hcall
        obtain rfl : s' = s := call_step_error h hcall
        exact ⟨iff_of_true hb.inBounds hok, fun _ => ⟨hb, fun _ _ _ _ => ⟨hcall, h⟩⟩⟩
      · rw [if_neg hfull] at hcall
        have hroom : ∀ b, bound type value sem = some b →
            (s.locks.sems sem).counter.toNat < b := by
          intro b hbound
          rw [hb.tested htype hbound] at hfull
          omega
        obtain ⟨_, hkeep⟩ := hb.release_iff hv (release_effect s.locks sem g)
        rw [call_step_ok h hcall]
        refine ⟨iff_of_true (hkeep hroom).inBounds hok, fun _ => ⟨hkeep hroom, ?_⟩⟩
        intro _ b hbound hle
        have hlt := hroom b hbound
        omega
    · -- Case: the call gives a permit back without a test
      rw [hb.same] at hlook
      obtain ⟨hiff, hkeep⟩ := hb.release_iff hv (release_effect s.locks sem g)
      rw [call_step_ok h hcall, hiff]
      refine ⟨⟨fun hroom _ _ => hroom, fun hok => hok hname hlook⟩, fun hok => ?_⟩
      refine ⟨hkeep (hok hname hlook), fun _ b hbound hle => ?_⟩
      have hlt := hok hname hlook b hbound
      omega
  | fire waiter =>
    rcases Option.map_eq_some_iff.1 h with ⟨r, hr, rfl⟩
    exact hb.quiet trivial trivial (fire_effect hr)
  | due timer =>
    rcases Option.map_eq_some_iff.1 h with ⟨loop, _, rfl⟩
    exact hb.quiet trivial trivial (.none rfl rfl)
  | throw g e =>
    cases h
    exact hb.quiet trivial trivial (resume_effect s.locks g (.throw e))
  | switch g =>
    cases h
    exact hb.quiet trivial trivial (resume_effect s.locks g (.value .loop_switch_value))
  | call_soon n =>
    cases h
    exact hb.quiet trivial trivial (.none rfl rfl)

/-! ## Runs -/

/-- A run stays in bounds, and its calls are refused at the bound, exactly if
the calls without a test give back below the bound. -/
theorem in_bounds_iff (hv : Values type value) {as : List Act} {t : St}
    (h : Trace.run step (init type value) as = some t) :
    (Trace.Always step (InBounds type value) (init type value) as ∧
        Trace.Steps step (Refuses type value) (init type value) as) ↔
      Trace.Steps step (Within type value) (init type value) as := by
  have hinit := init_balanced hv
  have hkeep : ∀ s a s', step s a = some s' → Within type value s a → Balanced type value s →
      Balanced type value s' := fun s a s' hs hok hb => ((step_within hv s a s' hs hb).2 hok).1
  have hiff := Trace.always_iff_steps (fun s a s' hs hok hb _ => hkeep s a s' hs hok hb)
    (fun s a s' hs hb _ => (step_within hv s a s' hs hb).1) hinit hinit.inBounds h
  constructor
  · intro hboth
    exact hiff.1 hboth.1
  · intro hok
    refine ⟨hiff.2 hok, ?_⟩
    exact Trace.Steps.imp hkeep (fun s a s' hs hok hb => ((step_within hv s a s' hs hb).2 hok).2)
      hinit h hok

/-- A bounded semaphore and a lock, both of one permit. -/
def pairType (sem : Sid) : LockType := if sem = 0 then .BoundedSemaphore else .Lock

theorem pairType_values : Values pairType fun _ => 1 := by
  intro sem _
  exact ⟨Int.one_nonneg, (by decide : (1 : Int) < 2 ^ 31)⟩

/-- A block with each of them, and one release too many that is refused. -/
def pairRun : List Act :=
  [.call 1 0 .enter true 0, .call 2 1 .enter true 0, .call 1 0 .exit true 0,
    .call 1 0 .release true 0, .call 2 1 .exit true 0]

theorem in_bounds_iff_pair :
    (Trace.Always step (InBounds pairType fun _ => 1) (init pairType fun _ => 1) pairRun ∧
        Trace.Steps step (Refuses pairType fun _ => 1) (init pairType fun _ => 1) pairRun) ↔
      Trace.Steps step (Within pairType fun _ => 1) (init pairType fun _ => 1) pairRun := by
  obtain ⟨t, ht, _⟩ := Trace.run_any (p := fun t : St => decide ((t.locks.sems 0).counter = 1))
    (by decide : (Trace.run step (init pairType fun _ => 1) pairRun).any _ = true)
  exact in_bounds_iff pairType_values ht

/-- A block that releases its bounded semaphore by itself, and a lock that is
released before it is acquired. -/
def overRun : List Act :=
  [.call 1 0 .enter true 0, .call 1 0 .release true 0, .call 1 0 .exit true 0,
    .call 1 1 .release true 0, .call 2 1 .acquire true 0, .call 3 1 .acquire true 0]

/-- The bounded semaphore of one permit has two, and the lock is acquired by two
greenlets. -/
theorem exit_unbounded : ∃ t, Trace.run step (init pairType fun _ => 1) overRun = some t ∧
    (t.locks.sems 0).counter = 2 ∧ outstanding (t.locks.log 1) = 2 ∧
      ¬ InBounds pairType (fun _ => 1) t := by
  obtain ⟨t, ht, hcheck⟩ := Trace.run_any
    (p := fun t : St => decide ((t.locks.sems 0).counter = 2 ∧ outstanding (t.locks.log 1) = 2))
    (by decide : (Trace.run step (init pairType fun _ => 1) overRun).any _ = true)
  rw [decide_eq_true_eq] at hcheck
  refine ⟨t, ht, hcheck.1, hcheck.2, fun hin => ?_⟩
  have hle := (hin 1 1 rfl).2
  omega

end Jega.Locks.Bounded
