import Jega.Local.Model
import Jega.Trace.History

/-!
# Jega.Local.Isolation — what an attribute of a local object is

A local object is meant to have attributes of its own in every greenlet. The
dictionary belongs to the greenlet, and the object is no part of the key: the
greenlets are isolated, also from the executor, and the objects are not. So
attributes are right as long as there is one object at a time and the next one
finds the dictionaries empty.

They are objects only as long as the references suffice. A read hands out a
reference that is not counted, so a value may be given back while it is set.

## Main result

* `isolated_iff`: the exact condition for every attribute to be the object's own,
  and an object, along every run.
-/

namespace Jega.Local

open Trace

variable {V : Type}

/-! ## The statement -/

/-- The attributes that each object should have in each greenlet. -/
abbrev Own (V : Type) := Oid → Gid → Dict V

def no_attributes : Own V := fun _ _ _ => none

/-- The history: what was set and not deleted since. -/
def note (_ : St V) (a : Act V) (_ : St V) (own : Own V) : Own V :=
  match a with
  | .setattribute self current attr value =>
    Function.update own self
      (Function.update (own self) current (Function.update (own self current) attr value))
  | _ => own

/-- Every attribute of every object, read in any greenlet that can run, is the
object's own and was not given back. -/
def Isolated [DecidableEq V] (t : Watched (St V) (Own V)) : Prop :=
  ∀ self ∈ t.st.objects, ∀ g, Runs t.st g → ∀ attr,
    (LocalObject_getattribute t.st self g attr).2 = t.hist self g attr ∧
      ∀ v ∈ t.hist self g attr, 0 < t.st.ob_refcnt v

/-- Nothing is set in a greenlet that can run. -/
def Unset (s : St V) : Prop := ∀ g, Runs s g → ∀ attr, entries s g attr = none

/-- An object is made when nothing is set, and an attribute is set when there is
no other object. -/
def Apart (s : St V) : Act V → Prop
  | .new => Unset s
  | .setattribute self _ _ (some _) => ∀ other ∈ s.objects, other = self
  | _ => True

/-- The attribute can be read, and it is set to `v`. -/
structure Reads (s : St V) (g : Gid) (attr : String) (v : V) : Prop where
  object : s.objects ≠ []
  runs : Runs s g
  set : entries s g attr = some v

/-- The object that a step gives up a reference to, and the attribute that was set
to it if that is changed. -/
def gives_up [DecidableEq V] (s : St V) : Act V → Option (V × Option (Gid × String))
  | .decref v => some (v, none)
  | .setattribute _ current attr value =>
    if value = entries s current attr then none
    else (entries s current attr).map fun old => (old, some (current, attr))
  | .start greenlet => (entries s greenlet "handle").map fun handle => (handle, none)
  | _ => none

/-- The last reference that is counted is given up only if nothing else can be read
that is set to the object. -/
def Keeps [DecidableEq V] (s : St V) (a : Act V) : Prop :=
  ∀ v place, gives_up s a = some (v, place) → s.ob_refcnt v = 1 →
    ∀ g attr, Reads s g attr v → some (g, attr) = place

/-! ## The invariant -/

/-- What holds between two steps that keep objects apart. -/
structure Kept (s : St V) (own : Own V) : Prop where
  objects_lt : ∀ self ∈ s.objects, self < s.next_object
  /-- A new object has no attributes. -/
  new_object : ∀ self, s.next_object ≤ self → ∀ g attr, own self g attr = none
  /-- Nor has a greenlet that has not run. -/
  new_greenlet : ∀ g, ¬ Runs s g → ∀ self attr, own self g attr = none
  unmade : ∀ g, s.next_greenlet ≤ g → s.unstarted g = false ∧ ∀ attr, entries s g attr = none
  unstarted : ∀ g, s.unstarted g = true → ∀ attr, attr ≠ "handle" → entries s g attr = none
  own : ∀ self ∈ s.objects, ∀ g, Runs s g → entries s g = own self g
  alone : ∀ self ∈ s.objects, ∀ other ∈ s.objects, other ≠ self → Unset s

/-- No attribute that can be read is set to memory that was given back. -/
def Alive (s : St V) : Prop := ∀ g attr v, Reads s g attr v → 0 < s.ob_refcnt v

theorem init_kept : Kept (init V) no_attributes where
  objects_lt := by simp [init]
  new_object := by
    intro self _ g attr
    rfl
  new_greenlet := by
    intro g _ self attr
    rfl
  unmade := by
    intro g _
    exact ⟨rfl, fun attr => rfl⟩
  unstarted := by
    intro g hg
    cases hg
  own := by simp [init]
  alone := by simp [init]

variable {s s' : St V} {own : Own V} {g : Gid}

theorem Stores.runs {dict : Dict V} (h : Stores s s' g dict) (g' : Gid) : Runs s' g' ↔ Runs s g' := by
  rw [Runs, Runs, h.next_greenlet, h.unstarted]

/-- A read only makes the dictionary. -/
theorem Kept.reads (hk : Kept s own) (h : Stores s s' g (entries s g)) : Kept s' own := by
  have hentries : entries s' = entries s := by rw [h.entries, Function.update_eq_self]
  constructor
  · rw [h.objects, h.next_object]
    exact hk.objects_lt
  · rw [h.next_object]
    exact hk.new_object
  · simp only [h.runs]
    exact hk.new_greenlet
  · rw [h.next_greenlet, h.unstarted, hentries]
    exact hk.unmade
  · rw [h.unstarted, hentries]
    exact hk.unstarted
  · simp only [h.runs, h.objects, hentries]
    exact hk.own
  · simp only [Unset, h.runs, h.objects, hentries]
    exact hk.alone

/-- What the history holds after a store. -/
theorem own_store (own : Own V) (self : Oid) (g : Gid) (dict : Dict V) (self' : Oid) (g' : Gid) :
    Function.update own self (Function.update (own self) g dict) self' g' =
      if self' = self ∧ g' = g then dict else own self' g' := by
  by_cases hself : self' = self
  · subst hself
    by_cases hg : g' = g
    · subst hg
      simp
    · simp [hg]
  · simp [hself]

/-- A store into the dictionary of `g` through `self`, where no other object is
in the way. -/
theorem Kept.stores (hk : Kept s own) {self : Oid} (hself : self ∈ s.objects) (hg : Runs s g)
    {dict : Dict V} (h : Stores s s' g dict)
    (hother : ∀ other ∈ s.objects, other ≠ self → ∀ attr, dict attr = none) :
    Kept s' (Function.update own self (Function.update (own self) g dict)) := by
  have hentries : ∀ g', g' ≠ g → entries s' g' = entries s g' := by
    intro g' hne
    rw [h.entries, Function.update_of_ne hne]
  have hdict : entries s' g = dict := by rw [h.entries, Function.update_self]
  constructor
  · rw [h.objects, h.next_object]
    exact hk.objects_lt
  · intro self' hnew g' attr
    rw [h.next_object] at hnew
    have hne : self' ≠ self := by
      rintro rfl
      exact absurd (hk.objects_lt self' hself) (not_lt.2 hnew)
    rw [own_store, if_neg fun hand => hne hand.1]
    exact hk.new_object self' hnew g' attr
  · intro g' hnot self' attr
    rw [h.runs] at hnot
    have hne : g' ≠ g := by
      rintro rfl
      exact hnot hg
    rw [own_store, if_neg fun hand => hne hand.2]
    exact hk.new_greenlet g' hnot self' attr
  · intro g' hle
    rw [h.next_greenlet] at hle
    rw [h.unstarted, hentries g' (by rintro rfl; exact absurd hg.1 (not_lt.2 hle))]
    exact hk.unmade g' hle
  · intro g' hun
    rw [h.unstarted] at hun
    rw [hentries g' (by rintro rfl; simp [hg.2] at hun)]
    exact hk.unstarted g' hun
  · intro self' hself' g' hg'
    rw [h.objects] at hself'
    rw [h.runs] at hg'
    rw [own_store]
    by_cases hgg : g' = g
    · -- the greenlet that stores
      subst hgg
      rw [hdict]
      by_cases hss : self' = self
      · rw [if_pos ⟨hss, rfl⟩]
      · -- another object is there only if nothing is set
        rw [if_neg fun hand => hss hand.1, ← hk.own self' hself' g' hg']
        funext attr
        rw [hother self' hself' hss attr, hk.alone self hself self' hself' hss g' hg' attr]
    · rw [if_neg fun hand => hgg hand.2, hentries g' hgg]
      exact hk.own self' hself' g' hg'
  · intro self' hself' other hother' hne g' hg' attr
    rw [h.objects] at hself' hother'
    rw [h.runs] at hg'
    by_cases hgg : g' = g
    · subst hgg
      rw [hdict]
      -- one of the two is not the object stored through
      by_cases hss : self' = self
      · exact hother other hother' (hss ▸ hne) attr
      · exact hother self' hself' hss attr
    · rw [hentries g' hgg]
      exact hk.alone self' hself' other hother' hne g' hg' attr

/-! ## Greenlets and objects come and go -/

theorem Kept.greenlet (hk : Kept s own) :
    Kept { s with next_greenlet := s.next_greenlet + 1 } own := by
  -- the new greenlet has no dictionary
  have hcases : ∀ g', Runs { s with next_greenlet := s.next_greenlet + 1 } g' →
      Runs s g' ∨ g' = s.next_greenlet := by
    intro g' hg'
    rcases Nat.lt_succ_iff_lt_or_eq.1 hg'.1 with hlt | heq
    · exact Or.inl ⟨hlt, hg'.2⟩
    · exact Or.inr heq
  have hnew : ¬ Runs s s.next_greenlet := fun hr => Nat.lt_irrefl _ hr.1
  refine ⟨hk.objects_lt, hk.new_object, fun g' hnot => hk.new_greenlet g' ?_,
    fun g' hle => hk.unmade g' (Nat.le_of_succ_le hle), hk.unstarted, fun self hself g' hg' => ?_,
    fun self hself other hother hne g' hg' => ?_⟩
  · intro hr
    exact hnot ⟨Nat.lt_succ_of_lt hr.1, hr.2⟩
  · rcases hcases g' hg' with hr | rfl
    · exact hk.own self hself g' hr
    · funext attr
      exact ((hk.unmade _ le_rfl).2 attr).trans (hk.new_greenlet _ hnew self attr).symm
  · rcases hcases g' hg' with hr | rfl
    · exact hk.alone self hself other hother hne g' hr
    · exact (hk.unmade _ le_rfl).2

theorem Kept.new (hk : Kept s own) (hunset : Unset s) :
    Kept { s with objects := s.next_object :: s.objects, next_object := s.next_object + 1 } own := by
  refine ⟨fun self hself => ?_, fun self hle => hk.new_object self (Nat.le_of_succ_le hle),
    hk.new_greenlet, hk.unmade, hk.unstarted, fun self hself g' hg' => ?_, fun _ _ _ _ _ => hunset⟩
  · rcases List.mem_cons.1 hself with rfl | hself
    · exact Nat.lt_succ_self _
    · exact Nat.lt_succ_of_lt (hk.objects_lt self hself)
  · rcases List.mem_cons.1 hself with rfl | hself
    · funext attr
      exact (hunset g' hg' attr).trans (hk.new_object _ le_rfl g' attr).symm
    · exact hk.own self hself g' hg'

theorem Kept.dealloc (hk : Kept s own) (self : Oid) :
    Kept { s with objects := s.objects.filter (· ≠ self) } own := by
  have hsub : ∀ self', self' ∈ s.objects.filter (· ≠ self) → self' ∈ s.objects :=
    fun self' hself' => (List.mem_filter.1 hself').1
  exact ⟨fun self' hself' => hk.objects_lt self' (hsub self' hself'), hk.new_object,
    hk.new_greenlet, hk.unmade, hk.unstarted, fun self' hself' => hk.own self' (hsub self' hself'),
    fun self' hself' other hother => hk.alone self' (hsub self' hself') other (hsub other hother)⟩

/-! ## The executor -/

section Executor

variable [DecidableEq V]

/-- A new worker is not running yet. -/
theorem submit_runs (s : St V) (handle : V) (g' : Gid) :
    Runs (adjust_thread_count s handle) g' ↔ Runs s g' := by
  have h := adjust_thread_count_spec s handle
  have hnext : (adjust_thread_count s handle).next_greenlet = s.next_greenlet + 1 := h.next_greenlet
  have hunstarted : (adjust_thread_count s handle).unstarted =
      Function.update s.unstarted s.next_greenlet true := h.unstarted
  rw [Runs, Runs, hnext, hunstarted]
  by_cases hg' : g' = s.next_greenlet
  · subst hg'
    simp
  · rw [Function.update_of_ne hg', Nat.lt_succ_iff_lt_or_eq, or_iff_left hg']

/-- A new worker has its handle in its dictionary, and runs no code that could
read it. -/
theorem Kept.submit (hk : Kept s own) (handle : V) : Kept (adjust_thread_count s handle) own := by
  have h := adjust_thread_count_spec s handle
  have hnext : (adjust_thread_count s handle).next_greenlet = s.next_greenlet + 1 := h.next_greenlet
  have hunstarted : (adjust_thread_count s handle).unstarted =
      Function.update s.unstarted s.next_greenlet true := h.unstarted
  have hentries : ∀ g', g' ≠ s.next_greenlet →
      entries (adjust_thread_count s handle) g' = entries s g' := by
    intro g' hne
    rw [h.entries, Function.update_of_ne hne]
    rfl
  have hnew : ¬ Runs s s.next_greenlet := fun hr => Nat.lt_irrefl _ hr.1
  have hruns := submit_runs s handle
  constructor
  · rw [h.objects, h.next_object]
    exact hk.objects_lt
  · rw [h.next_object]
    exact hk.new_object
  · simp only [hruns]
    exact hk.new_greenlet
  · intro g' hle
    rw [hnext] at hle
    have hne : g' ≠ s.next_greenlet := (Nat.lt_of_succ_le hle).ne'
    rw [hunstarted, hentries g' hne, Function.update_of_ne hne]
    exact hk.unmade g' (Nat.le_of_succ_le hle)
  · intro g' hun attr hattr
    by_cases hg' : g' = s.next_greenlet
    · -- the dictionary of the new worker has its handle and nothing else
      subst hg'
      rw [h.entries, Function.update_self, Function.update_of_ne hattr]
      exact (hk.unmade _ le_rfl).2 attr
    · rw [hunstarted, Function.update_of_ne hg'] at hun
      rw [hentries g' hg']
      exact hk.unstarted g' hun attr hattr
  · intro self hself g' hg'
    rw [h.objects] at hself
    rw [hruns] at hg'
    rw [hentries g' (by rintro rfl; exact hnew hg')]
    exact hk.own self hself g' hg'
  · intro self hself other hother hne g' hg'
    rw [h.objects] at hself hother
    rw [hruns] at hg'
    rw [hentries g' (by rintro rfl; exact hnew hg')]
    exact hk.alone self hself other hother hne g' hg'

theorem start_runs (s : St V) {g' : Gid} (hg : g' ≠ g) : Runs (worker s g) g' ↔ Runs s g' := by
  have h := worker_spec s g
  have hnext : (worker s g).next_greenlet = s.next_greenlet := h.next_greenlet
  have hunstarted : (worker s g).unstarted = Function.update s.unstarted g false := h.unstarted
  rw [Runs, Runs, hnext, hunstarted, Function.update_of_ne hg]

theorem start_empty (hk : Kept s own) (hun : s.unstarted g = true) (attr : String) :
    entries (worker s g) g attr = none := by
  rw [(worker_spec s g).entries, Function.update_self]
  by_cases hattr : attr = "handle"
  · rw [hattr, Function.update_self]
  · rw [Function.update_of_ne hattr]
    exact hk.unstarted g hun attr hattr

/-- A worker takes its handle out of the dictionary before it runs any code. -/
theorem Kept.start (hk : Kept s own) (hun : s.unstarted g = true) : Kept (worker s g) own := by
  have h := worker_spec s g
  have hnext : (worker s g).next_greenlet = s.next_greenlet := h.next_greenlet
  have hunstarted : (worker s g).unstarted = Function.update s.unstarted g false := h.unstarted
  have hentries : ∀ g', g' ≠ g → entries (worker s g) g' = entries s g' := by
    intro g' hne
    rw [h.entries, Function.update_of_ne hne]
    rfl
  have hempty := start_empty hk hun
  have hnot : ¬ Runs s g := fun hr => by simp [hr.2] at hun
  have hruns : ∀ g', Runs (worker s g) g' → Runs s g' ∨ g' = g := by
    intro g' hg'
    by_cases hgg : g' = g
    · exact Or.inr hgg
    · exact Or.inl ((start_runs s hgg).1 hg')
  constructor
  · rw [h.objects, h.next_object]
    exact hk.objects_lt
  · rw [h.next_object]
    exact hk.new_object
  · intro g' hg'
    refine hk.new_greenlet g' fun hr => hg' ?_
    have hne : g' ≠ g := by
      rintro rfl
      exact hnot hr
    exact (start_runs s hne).2 hr
  · intro g' hle
    rw [hnext] at hle
    have hne : g' ≠ g := by
      rintro rfl
      rw [(hk.unmade g' hle).1] at hun
      cases hun
    rw [hunstarted, hentries g' hne, Function.update_of_ne hne]
    exact hk.unmade g' hle
  · intro g' hun' attr hattr
    by_cases hgg : g' = g
    · rw [hgg]
      exact hempty attr
    · rw [hunstarted, Function.update_of_ne hgg] at hun'
      rw [hentries g' hgg]
      exact hk.unstarted g' hun' attr hattr
  · intro self hself g' hg'
    rw [h.objects] at hself
    by_cases hgg : g' = g
    · -- it can run now, and nobody has set anything in it
      rw [hgg]
      funext attr
      rw [hempty attr, hk.new_greenlet g hnot self attr]
    · rw [hentries g' hgg]
      exact hk.own self hself g' ((hruns g' hg').resolve_right hgg)
  · intro self hself other hother hne g' hg'
    rw [h.objects] at hself hother
    by_cases hgg : g' = g
    · rw [hgg]
      exact hempty
    · rw [hentries g' hgg]
      exact hk.alone self hself other hother hne g' ((hruns g' hg').resolve_right hgg)

end Executor

/-! ## One step -/

section Steps

variable [DecidableEq V] {a : Act V}

theorem step_kept (h : step s a = some s') (hok : Apart s a) (hk : Kept s own) :
    Kept s' (note s a s' own) := by
  cases a with
  | greenlet =>
    cases h
    exact hk.greenlet
  | new =>
    cases h
    exact hk.new hok
  | dealloc self =>
    obtain ⟨_, heq⟩ := Option.ite_none_right_eq_some.1 h
    cases heq
    exact hk.dealloc self
  | make v | incref v | decref v =>
    obtain ⟨_, heq⟩ := Option.ite_none_right_eq_some.1 h
    cases heq
    exact { hk with }
  | getattribute self current attr =>
    obtain ⟨_, heq⟩ := Option.ite_none_right_eq_some.1 h
    cases heq
    exact hk.reads (getattribute_spec s self current attr).1
  | setattribute self current attr value =>
    obtain ⟨⟨hself, hruns, -⟩, heq⟩ := Option.ite_none_right_eq_some.1 h
    cases heq
    have hstores := setattribute_spec s self current attr value
    rw [hk.own self hself current hruns] at hstores
    refine hk.stores hself hruns hstores fun other hother hne attr' => ?_
    have hnone : own self current attr' = none := by
      rw [← hk.own self hself current hruns]
      exact hk.alone self hself other hother hne current hruns attr'
    cases value with
    | some v => exact absurd (hok other hother) hne
    | none =>
      -- a deletion leaves nothing for the other object
      by_cases hattr : attr' = attr
      · rw [hattr, Function.update_self]
      · rw [Function.update_of_ne hattr, hnone]
  | submit handle =>
    obtain ⟨_, heq⟩ := Option.ite_none_right_eq_some.1 h
    cases heq
    exact hk.submit handle
  | start greenlet =>
    obtain ⟨hun, heq⟩ := Option.ite_none_right_eq_some.1 h
    cases heq
    exact hk.start hun

/-- The dictionaries hold the objects' own attributes. -/
def Owned (s : St V) (own : Own V) : Prop :=
  ∀ self ∈ s.objects, ∀ g, Runs s g → entries s g = own self g

theorem isolated_iff_own {t : Watched (St V) (Own V)} :
    Isolated t ↔ Owned t.st t.hist ∧ Alive t.st := by
  constructor
  · intro h
    have hown : Owned t.st t.hist := by
      intro self hself g hg
      funext attr
      rw [← (h self hself g hg attr).1]
      exact (getattribute_spec t.st self g attr).2.1.symm
    refine ⟨hown, fun g attr v hreads => ?_⟩
    obtain ⟨self, hself⟩ := List.exists_mem_of_ne_nil _ hreads.object
    refine (h self hself g hreads.runs attr).2 v ?_
    rw [← hown self hself g hreads.runs, hreads.set]
    rfl
  · rintro ⟨hown, halive⟩ self hself g hg attr
    rw [(getattribute_spec t.st self g attr).2.1, hown self hself g hg]
    refine ⟨rfl, fun v hv => halive g attr v ⟨List.ne_nil_of_mem hself, hg, ?_⟩⟩
    rw [hown self hself g hg]
    exact hv

/-- Any other step shows an object what was set through another. -/
theorem step_shared (h : step s a = some s') (hk : Kept s own) (hnot : ¬ Apart s a) :
    ¬ Owned s' (note s a s' own) := by
  intro hall
  cases a with
  | new =>
    -- the new object has what is set
    cases h
    refine hnot fun g hg attr => ?_
    have hown := hall s.next_object List.mem_cons_self g hg
    have hnew := hk.new_object s.next_object le_rfl g attr
    exact (congrFun hown attr).trans hnew
  | setattribute self current attr value =>
    obtain ⟨⟨hself, hruns, -⟩, heq⟩ := Option.ite_none_right_eq_some.1 h
    cases heq
    cases value with
    | none => exact hnot trivial
    | some v =>
      -- another object has what is stored
      refine hnot fun other hother => ?_
      by_contra hne
      have hstores := setattribute_spec s self current attr (some v)
      have hown := hall other (hstores.objects ▸ hother) current ((hstores.runs current).2 hruns)
      have hread := congrFun hown attr
      have hnone : own other current attr = none := by
        rw [← hk.own other hother current hruns]
        exact hk.alone self hself other hother hne current hruns attr
      simp only [note] at hread
      rw [hstores.entries, Function.update_self, Function.update_self, own_store,
        if_neg fun hand => hne hand.1, hnone] at hread
      cases hread
  | _ => exact hnot trivial

/-! ## References -/

theorem gives_up_setattribute {self : Oid} {current : Gid} {attr : String} {value : Option V}
    {v : V} {place : Option (Gid × String)}
    (h : gives_up s (.setattribute self current attr value) = some (v, place)) :
    value ≠ entries s current attr ∧ entries s current attr = some v ∧
      place = some (current, attr) := by
  simp only [gives_up] at h
  split at h
  · cases h
  · next hne =>
    rcases Option.map_eq_some_iff.1 h with ⟨old, hold, heq⟩
    cases heq
    exact ⟨hne, hold, rfl⟩

/-- An object is given back by the step that gives up its last counted reference. -/
theorem refcnt_eq_zero_iff (h : step s a = some s') (hk : Kept s own) {v : V}
    (hv : 0 < s.ob_refcnt v) :
    s'.ob_refcnt v = 0 ↔ ∃ place, gives_up s a = some (v, place) ∧ s.ob_refcnt v = 1 := by
  have hmore : s.ob_refcnt v ≤ s'.ob_refcnt v → gives_up s a = none →
      (s'.ob_refcnt v = 0 ↔ ∃ place, gives_up s a = some (v, place) ∧ s.ob_refcnt v = 1) := by
    intro hle hnone
    refine iff_of_false (by omega) ?_
    rintro ⟨place, hplace, -⟩
    rw [hnone] at hplace
    cases hplace
  cases a with
  | greenlet | new =>
    cases h
    exact hmore le_rfl rfl
  | dealloc self =>
    obtain ⟨_, heq⟩ := Option.ite_none_right_eq_some.1 h
    cases heq
    exact hmore le_rfl rfl
  | make w | incref w =>
    obtain ⟨_, heq⟩ := Option.ite_none_right_eq_some.1 h
    cases heq
    refine hmore ?_ rfl
    rw [show ∀ held, ({ Py_INCREF s w with held := held } : St V).ob_refcnt v =
      (Py_INCREF s w).ob_refcnt v from fun _ => rfl, refcnt_incref]
    exact Nat.le_add_right _ _
  | decref w =>
    obtain ⟨_, heq⟩ := Option.ite_none_right_eq_some.1 h
    cases heq
    rw [show ∀ held, ({ Py_DECREF s w with held := held } : St V).ob_refcnt v =
      (Py_DECREF s w).ob_refcnt v from fun _ => rfl, refcnt_decref]
    by_cases hw : w = v
    · subst hw
      rw [if_pos rfl]
      constructor
      · intro hzero
        exact ⟨none, rfl, by omega⟩
      · rintro ⟨-, -, hone⟩
        rw [hone]
    · rw [if_neg hw]
      refine iff_of_false (Nat.ne_of_gt hv) ?_
      rintro ⟨place, hplace, -⟩
      cases hplace
      exact hw rfl
  | getattribute self current attr =>
    obtain ⟨_, heq⟩ := Option.ite_none_right_eq_some.1 h
    cases heq
    refine hmore ?_ rfl
    rw [(getattribute_spec s self current attr).2.2]
  | setattribute self current attr value =>
    obtain ⟨_, heq⟩ := Option.ite_none_right_eq_some.1 h
    cases heq
    rw [setattribute_refs]
    by_cases hsame : value = entries s current attr
    · -- what is stored is what was there
      have hrefs : s.ob_refcnt v + (if value = some v then 1 else 0) -
          (if entries s current attr = some v then 1 else 0) = s.ob_refcnt v := by
        rw [hsame, Nat.add_sub_cancel]
      rw [hrefs]
      refine iff_of_false (Nat.ne_of_gt hv) ?_
      rintro ⟨place, hplace, -⟩
      exact (gives_up_setattribute hplace).1 hsame
    · by_cases hold : entries s current attr = some v
      · have hvalue : ¬ value = some v := fun heq => hsame (heq.trans hold.symm)
        rw [if_pos hold, if_neg hvalue]
        constructor
        · intro hzero
          refine ⟨some (current, attr), ?_, by omega⟩
          simp only [gives_up, hold, if_neg hvalue, Option.map_some]
        · rintro ⟨-, -, hone⟩
          rw [hone]
      · rw [if_neg hold]
        refine iff_of_false (by omega) ?_
        rintro ⟨place, hplace, -⟩
        exact hold (gives_up_setattribute hplace).2.1
  | submit handle =>
    obtain ⟨_, heq⟩ := Option.ite_none_right_eq_some.1 h
    cases heq
    refine hmore ?_ rfl
    rw [adjust_thread_count_refs s handle v ((hk.unmade _ le_rfl).2 "handle")]
    exact Nat.le_add_right _ _
  | start greenlet =>
    obtain ⟨_, heq⟩ := Option.ite_none_right_eq_some.1 h
    cases heq
    rw [worker_refs]
    simp only [gives_up, Option.map_eq_some_iff, Prod.mk.injEq]
    by_cases hhandle : entries s greenlet "handle" = some v
    · simp only [hhandle, if_true, Option.some.injEq]
      constructor
      · intro hzero
        exact ⟨none, ⟨v, rfl, rfl, rfl⟩, by omega⟩
      · rintro ⟨-, -, hone⟩
        omega
    · rw [if_neg hhandle]
      refine iff_of_false (by omega) ?_
      rintro ⟨-, ⟨handle, hset, rfl, -⟩, -⟩
      exact hhandle hset

/-- What can be read after the step could be read before it from an attribute that
is kept, or was stored just now. -/
theorem reads_back (h : step s a = some s') (hk : Kept s own) (hok : Apart s a) {attr : String}
    {v : V} (hr : Reads s' g attr v) :
    0 < s'.ob_refcnt v ∨ Reads s g attr v ∧ ∀ u, gives_up s a ≠ some (u, some (g, attr)) := by
  cases a with
  | greenlet =>
    cases h
    rcases Nat.lt_succ_iff_lt_or_eq.1 hr.runs.1 with hlt | rfl
    · exact Or.inr ⟨⟨hr.object, ⟨hlt, hr.runs.2⟩, hr.set⟩, nofun⟩
    · have hnone := (hk.unmade _ le_rfl).2 attr
      exact absurd (hr.set.symm.trans hnone) nofun
  | new =>
    cases h
    have hnone := hok g hr.runs attr
    exact absurd (hr.set.symm.trans hnone) nofun
  | dealloc self =>
    obtain ⟨_, heq⟩ := Option.ite_none_right_eq_some.1 h
    cases heq
    have hobject : s.objects ≠ [] := by
      intro hnil
      exact hr.object (by simp [hnil])
    exact Or.inr ⟨⟨hobject, hr.runs, hr.set⟩, nofun⟩
  | make w | incref w | decref w =>
    obtain ⟨_, heq⟩ := Option.ite_none_right_eq_some.1 h
    cases heq
    exact Or.inr ⟨⟨hr.object, hr.runs, hr.set⟩, nofun⟩
  | getattribute self current attr' =>
    obtain ⟨_, heq⟩ := Option.ite_none_right_eq_some.1 h
    cases heq
    have hstores := (getattribute_spec s self current attr').1
    have hset := hr.set
    rw [hstores.entries, Function.update_eq_self] at hset
    exact Or.inr ⟨⟨hstores.objects ▸ hr.object, (hstores.runs g).1 hr.runs, hset⟩, nofun⟩
  | setattribute self current attr' value =>
    obtain ⟨⟨-, -, hhas⟩, heq⟩ := Option.ite_none_right_eq_some.1 h
    cases heq
    have hstores := setattribute_spec s self current attr' value
    have hset := hr.set
    rw [hstores.entries] at hset
    by_cases hplace : g = current ∧ attr = attr'
    · -- the attribute that is set
      obtain ⟨rfl, rfl⟩ := hplace
      rw [Function.update_self, Function.update_self] at hset
      have hpos : 0 < s.ob_refcnt v := (hhas v hset).2
      rw [setattribute_refs, if_pos hset]
      left
      split <;> omega
    · right
      have hkept : entries s g attr = some v := by
        by_cases hg : g = current
        · subst hg
          have hattr : attr ≠ attr' := fun hattr => hplace ⟨rfl, hattr⟩
          rwa [Function.update_self, Function.update_of_ne hattr] at hset
        · rwa [Function.update_of_ne hg] at hset
      refine ⟨⟨hstores.objects ▸ hr.object, (hstores.runs g).1 hr.runs, hkept⟩, fun u hu => ?_⟩
      have heq := (gives_up_setattribute hu).2.2
      rw [Option.some.injEq, Prod.mk.injEq] at heq
      exact hplace heq
  | submit handle =>
    obtain ⟨_, heq⟩ := Option.ite_none_right_eq_some.1 h
    cases heq
    have hstores := adjust_thread_count_spec s handle
    have hruns := (submit_runs s handle g).1 hr.runs
    have hne : g ≠ s.next_greenlet := Nat.ne_of_lt hruns.1
    have hset := hr.set
    rw [hstores.entries, Function.update_of_ne hne] at hset
    exact Or.inr ⟨⟨hstores.objects ▸ hr.object, hruns, hset⟩, nofun⟩
  | start greenlet =>
    obtain ⟨hun, heq⟩ := Option.ite_none_right_eq_some.1 h
    cases heq
    have hstores := worker_spec s greenlet
    have hset := hr.set
    right
    by_cases hg : g = greenlet
    · -- nothing is left in the dictionary of the worker
      subst hg
      rw [start_empty hk hun attr] at hset
      cases hset
    · rw [hstores.entries, Function.update_of_ne hg] at hset
      refine ⟨⟨hstores.objects ▸ hr.object, (start_runs s hg).1 hr.runs, hset⟩, fun u hu => ?_⟩
      rcases Option.map_eq_some_iff.1 hu with ⟨handle, -, heq⟩
      cases heq

/-- An attribute is left alone by a step that gives up a reference elsewhere. -/
theorem reads_kept (h : step s a = some s') {u v : V} {place : Option (Gid × String)}
    (hgives : gives_up s a = some (u, place)) {attr : String} (hr : Reads s g attr v)
    (hne : some (g, attr) ≠ place) : Reads s' g attr v := by
  cases a with
  | decref w =>
    obtain ⟨_, heq⟩ := Option.ite_none_right_eq_some.1 h
    cases heq
    exact ⟨hr.object, hr.runs, hr.set⟩
  | setattribute self current attr' value =>
    obtain ⟨_, heq⟩ := Option.ite_none_right_eq_some.1 h
    cases heq
    have hstores := setattribute_spec s self current attr' value
    have hplace : place = some (current, attr') := (gives_up_setattribute hgives).2.2
    refine ⟨hstores.objects ▸ hr.object, (hstores.runs g).2 hr.runs, ?_⟩
    rw [hstores.entries]
    by_cases hg : g = current
    · subst hg
      have hattr : attr ≠ attr' := by
        rintro rfl
        exact hne hplace.symm
      rw [Function.update_self, Function.update_of_ne hattr]
      exact hr.set
    · rw [Function.update_of_ne hg]
      exact hr.set
  | start greenlet =>
    obtain ⟨hun, heq⟩ := Option.ite_none_right_eq_some.1 h
    cases heq
    have hstores := worker_spec s greenlet
    have hg : g ≠ greenlet := by
      rintro rfl
      exact absurd hun (by simp [hr.runs.2])
    refine ⟨hstores.objects ▸ hr.object, (start_runs s hg).2 hr.runs, ?_⟩
    rw [hstores.entries, Function.update_of_ne hg]
    exact hr.set
  | _ => cases hgives

theorem alive_step_iff (h : step s a = some s') (hk : Kept s own) (hok : Apart s a)
    (ha : Alive s) : Alive s' ↔ Keeps s a := by
  constructor
  · intro ha' v place hgives hone g attr hr
    by_contra hne
    have hzero := (refcnt_eq_zero_iff h hk (ha g attr v hr)).2 ⟨place, hgives, hone⟩
    have hpos := ha' g attr v (reads_kept h hgives hr hne)
    omega
  · intro hkeeps g attr v hr
    rcases reads_back h hk hok hr with hpos | ⟨hr', hplace⟩
    · exact hpos
    · by_contra hzero
      rw [Nat.not_lt, Nat.le_zero, refcnt_eq_zero_iff h hk (ha g attr v hr')] at hzero
      obtain ⟨place, hgives, hone⟩ := hzero
      rw [← hkeeps v place hgives hone g attr hr'] at hgives
      exact hplace v hgives

end Steps

/-! ## Runs -/

/-- Along every run every attribute of every object, read in any greenlet, is
the object's own, and an object, exactly as long as no object is made when
something is set, nothing is set when there is another object, and no last
reference is given up to a value that is set. -/
theorem isolated_iff [DecidableEq V] {as : List (Act V)} {t : St V}
    (h : run step (init V) as = some t) :
    Always (watch step note) Isolated ⟨init V, no_attributes⟩ as ↔
      Steps step (fun s a => Apart s a ∧ Keeps s a) (init V) as := by
  have hwatch : ∃ hist, run (watch step note) ⟨init V, no_attributes⟩ as = some ⟨t, hist⟩ :=
    run_watch_iff.2 h
  obtain ⟨hist, hrun⟩ := hwatch
  have hinit : Isolated (⟨init V, no_attributes⟩ : Watched (St V) (Own V)) := by
    intro self hself
    cases hself
  have hstep : ∀ (t : Watched (St V) (Own V)) a t', watch step note t a = some t' →
      Apart t.st a ∧ Keeps t.st a → Kept t.st t.hist → Isolated t → Kept t'.st t'.hist := by
    intro t a t' ht hok hk _
    obtain ⟨hs, hhist⟩ := watch_eq_some.1 ht
    rw [hhist]
    exact step_kept hs hok.1 hk
  have hiff : ∀ (t : Watched (St V) (Own V)) a t', watch step note t a = some t' →
      Kept t.st t.hist → Isolated t → (Isolated t' ↔ Apart t.st a ∧ Keeps t.st a) := by
    intro t a t' ht hk hP
    obtain ⟨hs, hhist⟩ := watch_eq_some.1 ht
    have halive := (isolated_iff_own.1 hP).2
    rw [isolated_iff_own, hhist]
    constructor
    · rintro ⟨hown, hafter⟩
      have hok : Apart t.st a := by
        by_contra hnot
        exact step_shared hs hk hnot hown
      exact ⟨hok, (alive_step_iff hs hk hok halive).1 hafter⟩
    · rintro ⟨hok, hkeeps⟩
      exact ⟨(step_kept hs hok hk).own, (alive_step_iff hs hk hok halive).2 hkeeps⟩
  have hall := always_iff_steps hstep hiff init_kept hinit hrun
  exact hall.trans (steps_watch (p := fun s a => Apart s a ∧ Keeps s a))

/-- Two greenlets and a worker set the same attribute of one object, and a value
that is read is given up while the first reference to it is held. -/
def oneObject : List (Act Nat) :=
  [.new, .make 1, .make 2, .make 3, .make 7, .setattribute 0 0 "a" (some 1), .greenlet,
    .setattribute 0 1 "a" (some 2), .submit 7, .getattribute 0 0 "handle", .start 2,
    .setattribute 0 2 "handle" (some 3), .getattribute 0 0 "a", .decref 1,
    .setattribute 0 1 "a" none]

theorem isolated_iff_one :
    Always (watch step note) Isolated ⟨init Nat, no_attributes⟩ oneObject ↔
      Steps step (fun s a => Apart s a ∧ Keeps s a) (init Nat) oneObject := by
  obtain ⟨t, ht, _⟩ := run_any (p := fun t : St Nat => decide (t.next_greenlet = 3))
    (by decide : (run step (init Nat) oneObject).any _ = true)
  exact isolated_iff ht

/-- An attribute that was set on one object is there on another. -/
theorem attribute_shared : ∃ t,
    run step (init Nat) [.new, .new, .make 1, .setattribute 0 0 "a" (some 1)] = some t ∧
    ¬ Always (watch step note) Isolated ⟨init Nat, no_attributes⟩
      [.new, .new, .make 1, .setattribute 0 0 "a" (some 1)] := by
  obtain ⟨t, ht, hcheck⟩ := run_any
    (p := fun t : Watched (St Nat) (Own Nat) => decide (1 ∈ t.st.objects ∧ Runs t.st 0) &&
      decide ((LocalObject_getattribute t.st 1 0 "a").2 = some 1 ∧ t.hist 1 0 "a" = none))
    (by decide : (run (watch step note) ⟨init Nat, no_attributes⟩
      [.new, .new, .make 1, .setattribute 0 0 "a" (some 1)]).any _ = true)
  obtain ⟨hpos, hread⟩ := Bool.and_eq_true_iff.1 hcheck
  obtain ⟨hobject, hruns⟩ := of_decide_eq_true hpos
  obtain ⟨hread, hown⟩ := of_decide_eq_true hread
  refine ⟨t.st, run_watch ht, fun hall => ?_⟩
  have hsame := (hall.last ht 1 hobject 0 hruns "a").1
  rw [hread, hown] at hsame
  cases hsame

/-- One object and one greenlet: the value is set and given up, read, and what was
read is given up, and then the attribute is memory that was given back. -/
example : ((run step (init Nat) [.new, .make 1, .setattribute 0 0 "a" (some 1), .decref 1,
    .getattribute 0 0 "a", .decref 1]).map fun s => (entries s 0 "a", s.ob_refcnt 1)) =
      some (some 1, 0) := by
  decide

end Jega.Local
