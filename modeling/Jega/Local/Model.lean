import Jega.Greenlet
import Jega.Trace.Rules

/-!
# Jega.Local.Model — the local objects of `local.c`

Any number of greenlets that read, set and delete attributes of local objects,
and `executor.c`, which passes a worker its handle in the same dictionaries. A
label names the greenlet that runs. A worker runs `_worker` before anything
else.

A value is an object, by address, and its references are counted: `held` are
those that code outside of this file believes it has. Each read hands out one
that the object does not count. `get_local_dict` leaks a reference to the
dictionary, which is not followed. No greenlet is deallocated.
-/

namespace Jega.Local

/-- A `LocalObject`, by address. It has no fields. -/
abbrev Oid := Nat

/-- A Python dictionary. -/
abbrev Dict (V : Type) := String → Option V

structure St (V : Type) where
  /-- The attribute `_jega_local_dict__` of a greenlet. -/
  dict_key : Gid → Option (Dict V)
  /-- Greenlets are numbered as they are made. -/
  next_greenlet : Gid
  /-- The workers that have not been switched to. -/
  unstarted : Gid → Bool
  objects : List Oid
  next_object : Oid
  /-- 0 for memory that was given back. -/
  ob_refcnt : V → Nat
  held : V → Nat

variable {V : Type}

/-- Only the main greenlet is there. -/
def init (V : Type) : St V where
  dict_key := fun _ => none
  next_greenlet := 1
  unstarted := fun _ => false
  objects := []
  next_object := 0
  ob_refcnt := fun _ => 0
  held := fun _ => 0

/-- `PyObject_SetAttr` of the dictionary, or a store into it. -/
def St.set_dict (s : St V) (current : Gid) (dict : Dict V) : St V :=
  { s with dict_key := Function.update s.dict_key current (some dict) }

/-- `get_thread_local`. -/
def get_thread_local (s : St V) (current : Gid) : St V × Dict V :=
  match s.dict_key current with
  | some dict => (s, dict)
  | none => (s.set_dict current fun _ => none, fun _ => none)

/-- `get_local_dict`: the same for the greenlet that runs. -/
def get_local_dict (s : St V) (current : Gid) : St V × Dict V :=
  match s.dict_key current with
  | some dict => (s, dict)
  | none => (s.set_dict current fun _ => none, fun _ => none)

section Steps

variable [DecidableEq V]

def Py_INCREF (s : St V) (v : V) : St V :=
  { s with ob_refcnt := Function.update s.ob_refcnt v (s.ob_refcnt v + 1) }

def Py_DECREF (s : St V) (v : V) : St V :=
  { s with ob_refcnt := Function.update s.ob_refcnt v (s.ob_refcnt v - 1) }

/-- `PyDict_SetItem` on the dictionary of `current`. -/
def PyDict_SetItem (s : St V) (current : Gid) (dict : Dict V) (key : String) (v : V) : St V :=
  let s := (Py_INCREF s v).set_dict current (Function.update dict key (some v))
  match dict key with
  | some old => Py_DECREF s old
  | none => s

/-- `PyDict_DelItem`, `none` for a `KeyError`. -/
def PyDict_DelItem (s : St V) (current : Gid) (dict : Dict V) (key : String) : Option (St V) :=
  (dict key).map fun old => Py_DECREF (s.set_dict current (Function.update dict key none)) old

/-- `LocalObject_getattribute`. What `PyDict_GetItem` lends is returned as the
caller's own. -/
def LocalObject_getattribute (s : St V) (_self : Oid) (current : Gid) (attr : String) :
    St V × Option V :=
  let r := get_local_dict s current
  match r.2 attr with
  | some v => ({ r.1 with held := Function.update r.1.held v (r.1.held v + 1) }, some v)
  | none => (r.1, none)

/-- `LocalObject_setattribute`; without a value it deletes. -/
def LocalObject_setattribute (s : St V) (_self : Oid) (current : Gid) (attr : String)
    (value : Option V) : St V × Int :=
  let r := get_local_dict s current
  match value with
  | some v => (PyDict_SetItem r.1 current r.2 attr v, 0)
  | none =>
    match PyDict_DelItem r.1 current r.2 attr with
    | some s => (s, 0)
    | none => (r.1, -1)

/-- `adjust_thread_count`, as far as the dictionary of the new worker goes. -/
def adjust_thread_count (s : St V) (handle : V) : St V :=
  let greenlet := s.next_greenlet
  let r := get_thread_local
    { s with next_greenlet := greenlet + 1, unstarted := Function.update s.unstarted greenlet true }
    greenlet
  PyDict_SetItem r.1 greenlet r.2 "handle" handle

/-- `_worker` up to its loop. -/
def worker (s : St V) (greenlet : Gid) : St V :=
  let s := { s with unstarted := Function.update s.unstarted greenlet false }
  let r := get_thread_local s greenlet
  match PyDict_DelItem r.1 greenlet r.2 "handle" with
  | some s => s
  | none => r.1 -- returns `NULL`

inductive Act (V : Type) where
  /-- A greenlet that is no worker is made. -/
  | greenlet
  | new
  | dealloc (self : Oid)
  /-- An object is made in free memory. -/
  | make (v : V)
  /-- Code takes another reference to an object. -/
  | incref (v : V)
  /-- It gives one up. -/
  | decref (v : V)
  | getattribute (self : Oid) (current : Gid) (attr : String)
  /-- An attribute is set, or deleted. -/
  | setattribute (self : Oid) (current : Gid) (attr : String) (value : Option V)
  /-- `internal_submit` makes a worker. -/
  | submit (handle : V)
  /-- The loop switches to a worker for the first time. -/
  | start (greenlet : Gid)

/-- Code runs in a greenlet that was made, a worker's first code aside. -/
def Runs (s : St V) (g : Gid) : Prop := g < s.next_greenlet ∧ s.unstarted g = false

instance (s : St V) (g : Gid) : Decidable (Runs s g) := inferInstanceAs (Decidable (_ ∧ _))

/-- The code outside has a reference, and it leads to an object. -/
def Has (s : St V) (v : V) : Prop := 0 < s.held v ∧ 0 < s.ob_refcnt v

instance (s : St V) (v : V) : Decidable (Has s v) := inferInstanceAs (Decidable (_ ∧ _))

def step (s : St V) : Act V → Option (St V)
  | .greenlet => some { s with next_greenlet := s.next_greenlet + 1 }
  | .new =>
    some { s with objects := s.next_object :: s.objects, next_object := s.next_object + 1 }
  | .dealloc self =>
    if self ∈ s.objects then some { s with objects := s.objects.filter (· ≠ self) } else none
  | .make v =>
    if s.ob_refcnt v = 0 ∧ s.held v = 0 then
      some { Py_INCREF s v with held := Function.update s.held v 1 }
    else none
  | .incref v =>
    if Has s v then some { Py_INCREF s v with held := Function.update s.held v (s.held v + 1) }
    else none
  | .decref v =>
    if Has s v then some { Py_DECREF s v with held := Function.update s.held v (s.held v - 1) }
    else none
  | .getattribute self current attr =>
    if self ∈ s.objects ∧ Runs s current then some (LocalObject_getattribute s self current attr).1
    else none
  | .setattribute self current attr value =>
    if self ∈ s.objects ∧ Runs s current ∧ ∀ v ∈ value, Has s v then
      some (LocalObject_setattribute s self current attr value).1
    else none
  | .submit handle => if Has s handle then some (adjust_thread_count s handle) else none
  | .start greenlet => if s.unstarted greenlet then some (worker s greenlet) else none

end Steps

/-! ## The dictionaries -/

/-- The dictionary of a greenlet; one that has none yet gets an empty one. -/
def entries (s : St V) (g : Gid) : Dict V := (s.dict_key g).getD fun _ => none

/-- The dictionary of one greenlet changes, and nothing else but the counts. -/
structure Stores (s s' : St V) (g : Gid) (dict : Dict V) : Prop where
  entries : entries s' = Function.update (entries s) g dict
  next_greenlet : s'.next_greenlet = s.next_greenlet
  unstarted : s'.unstarted = s.unstarted
  objects : s'.objects = s.objects
  next_object : s'.next_object = s.next_object

variable {s s' : St V} {g : Gid} {attr : String}

theorem entries_set_dict (s : St V) (g : Gid) (dict : Dict V) :
    entries (s.set_dict g dict) = Function.update (entries s) g dict := by
  funext g'
  by_cases hg : g' = g
  · subst hg
    simp [entries, St.set_dict]
  · simp [entries, St.set_dict, hg]

theorem stores_set_dict (s : St V) (g : Gid) (dict : Dict V) : Stores s (s.set_dict g dict) g dict :=
  ⟨entries_set_dict s g dict, rfl, rfl, rfl, rfl⟩

theorem Stores.trans {t : St V} {dict dict' : Dict V} (h : Stores s s' g dict)
    (h' : Stores s' t g dict') : Stores s t g dict' where
  entries := by rw [h'.entries, h.entries, Function.update_idem]
  next_greenlet := h'.next_greenlet.trans h.next_greenlet
  unstarted := h'.unstarted.trans h.unstarted
  objects := h'.objects.trans h.objects
  next_object := h'.next_object.trans h.next_object

theorem get_thread_local_spec (s : St V) (g : Gid) :
    Stores s (get_thread_local s g).1 g (entries s g) ∧ (get_thread_local s g).2 = entries s g := by
  unfold get_thread_local
  split
  next dict hdict =>
    refine ⟨⟨?_, rfl, rfl, rfl, rfl⟩, by simp [entries, hdict]⟩
    rw [Function.update_eq_self]
  next hdict =>
    have hempty : entries s g = fun _ => none := by simp [entries, hdict]
    rw [hempty]
    exact ⟨stores_set_dict s g _, rfl⟩

theorem get_local_dict_eq (s : St V) (g : Gid) : get_local_dict s g = get_thread_local s g := rfl

theorem get_thread_local_refs (s : St V) (g : Gid) :
    (get_thread_local s g).1.ob_refcnt = s.ob_refcnt := by
  unfold get_thread_local
  split
  · rfl
  · rfl

@[simp] theorem refcnt_set_dict (s : St V) (g : Gid) (dict : Dict V) :
    (s.set_dict g dict).ob_refcnt = s.ob_refcnt := rfl

section Counts

variable [DecidableEq V]

@[simp] theorem refcnt_incref (s : St V) (v w : V) :
    (Py_INCREF s v).ob_refcnt w = s.ob_refcnt w + (if v = w then 1 else 0) := by
  by_cases h : v = w
  · subst h
    simp [Py_INCREF]
  · simp [Py_INCREF, h, Ne.symm h]

@[simp] theorem refcnt_decref (s : St V) (v w : V) :
    (Py_DECREF s v).ob_refcnt w = s.ob_refcnt w - (if v = w then 1 else 0) := by
  by_cases h : v = w
  · subst h
    simp [Py_DECREF]
  · simp [Py_DECREF, h, Ne.symm h]

theorem stores_set_item (s : St V) (g : Gid) (dict : Dict V) (key : String) (v : V) :
    Stores s (PyDict_SetItem s g dict key v) g (Function.update dict key (some v)) := by
  have hentries := entries_set_dict (Py_INCREF s v) g (Function.update dict key (some v))
  unfold PyDict_SetItem
  simp only
  split
  · exact ⟨hentries, rfl, rfl, rfl, rfl⟩
  · exact ⟨hentries, rfl, rfl, rfl, rfl⟩

theorem stores_del_item {s : St V} {dict : Dict V} {key : String}
    (h : PyDict_DelItem s g dict key = some s') :
    Stores s s' g (Function.update dict key none) := by
  rcases Option.map_eq_some_iff.1 h with ⟨old, -, rfl⟩
  exact ⟨entries_set_dict s g (Function.update dict key none), rfl, rfl, rfl, rfl⟩

/-- A missing key is not there afterwards either. -/
theorem del_item_none {s : St V} {dict : Dict V} {key : String}
    (h : PyDict_DelItem s g dict key = none) : Function.update dict key none = dict := by
  have hmissing : dict key = none := Option.map_eq_none_iff.1 h
  rw [← hmissing, Function.update_eq_self]

theorem getattribute_spec (s : St V) (self : Oid) (g : Gid) (attr : String) :
    Stores s (LocalObject_getattribute s self g attr).1 g (entries s g) ∧
      (LocalObject_getattribute s self g attr).2 = entries s g attr ∧
      (LocalObject_getattribute s self g attr).1.ob_refcnt = s.ob_refcnt := by
  obtain ⟨hstores, hdict⟩ := get_thread_local_spec s g
  have hrefs := get_thread_local_refs s g
  unfold LocalObject_getattribute
  simp only [get_local_dict_eq, hdict]
  cases entries s g attr with
  | some v =>
    refine ⟨?_, rfl, hrefs⟩
    exact ⟨hstores.entries, hstores.next_greenlet, hstores.unstarted, hstores.objects,
      hstores.next_object⟩
  | none => exact ⟨hstores, rfl, hrefs⟩

/-- The object is not part of the key. -/
theorem setattribute_spec (s : St V) (self : Oid) (g : Gid) (attr : String) (value : Option V) :
    Stores s (LocalObject_setattribute s self g attr value).1 g
      (Function.update (entries s g) attr value) := by
  obtain ⟨hstores, hdict⟩ := get_thread_local_spec s g
  unfold LocalObject_setattribute
  simp only [get_local_dict_eq, hdict]
  cases value with
  | some v => exact hstores.trans (stores_set_item _ g _ attr v)
  | none =>
    simp only
    split
    next hdel => exact hstores.trans (stores_del_item hdel)
    next hmissing =>
      rw [del_item_none hmissing]
      exact hstores

/-- One reference more to what is stored, and one less to what was there. -/
theorem setattribute_refs (s : St V) (self : Oid) (g : Gid) (attr : String) (value : Option V)
    (w : V) :
    (LocalObject_setattribute s self g attr value).1.ob_refcnt w =
      s.ob_refcnt w + (if value = some w then 1 else 0) -
        (if entries s g attr = some w then 1 else 0) := by
  obtain ⟨-, hdict⟩ := get_thread_local_spec s g
  have hrefs := get_thread_local_refs s g
  unfold LocalObject_setattribute
  simp only [get_local_dict_eq, hdict]
  cases value with
  | some v =>
    simp only [PyDict_SetItem, Option.some.injEq]
    cases entries s g attr with
    | some old => simp [hrefs]
    | none => simp [hrefs]
  | none =>
    simp only [PyDict_DelItem]
    cases entries s g attr with
    | some old => simp [hrefs]
    | none => simp [hrefs]

theorem adjust_thread_count_spec (s : St V) (handle : V) :
    Stores { s with
      next_greenlet := s.next_greenlet + 1
      unstarted := Function.update s.unstarted s.next_greenlet true }
      (adjust_thread_count s handle) s.next_greenlet
      (Function.update (entries s s.next_greenlet) "handle" (some handle)) := by
  obtain ⟨hstores, hdict⟩ := get_thread_local_spec
    { s with
      next_greenlet := s.next_greenlet + 1
      unstarted := Function.update s.unstarted s.next_greenlet true } s.next_greenlet
  unfold adjust_thread_count
  simp only [hdict]
  exact hstores.trans (stores_set_item _ _ _ _ _)

theorem adjust_thread_count_refs (s : St V) (handle w : V)
    (hnone : entries s s.next_greenlet "handle" = none) :
    (adjust_thread_count s handle).ob_refcnt w =
      s.ob_refcnt w + (if handle = w then 1 else 0) := by
  have hdict := (get_thread_local_spec
    { s with
      next_greenlet := s.next_greenlet + 1
      unstarted := Function.update s.unstarted s.next_greenlet true } s.next_greenlet).2
  have hrefs := get_thread_local_refs
    { s with
      next_greenlet := s.next_greenlet + 1
      unstarted := Function.update s.unstarted s.next_greenlet true } s.next_greenlet
  have hentries : entries { s with
      next_greenlet := s.next_greenlet + 1
      unstarted := Function.update s.unstarted s.next_greenlet true } s.next_greenlet "handle" =
      none := hnone
  unfold adjust_thread_count
  simp [PyDict_SetItem, hdict, hentries, hrefs]

theorem worker_spec (s : St V) (g : Gid) :
    Stores { s with unstarted := Function.update s.unstarted g false } (worker s g) g
      (Function.update (entries s g) "handle" none) := by
  obtain ⟨hstores, hdict⟩ := get_thread_local_spec
    { s with unstarted := Function.update s.unstarted g false } g
  have hentries : entries { s with unstarted := Function.update s.unstarted g false } g =
      entries s g := rfl
  rw [hentries] at hstores hdict
  unfold worker
  simp only [hdict]
  split
  next hdel => exact hstores.trans (stores_del_item hdel)
  next hmissing =>
    rw [del_item_none hmissing]
    exact hstores

theorem worker_refs (s : St V) (g : Gid) (w : V) :
    (worker s g).ob_refcnt w =
      s.ob_refcnt w - (if entries s g "handle" = some w then 1 else 0) := by
  obtain ⟨-, hdict⟩ := get_thread_local_spec
    { s with unstarted := Function.update s.unstarted g false } g
  have hrefs := get_thread_local_refs { s with unstarted := Function.update s.unstarted g false } g
  have hentries : entries { s with unstarted := Function.update s.unstarted g false } g =
      entries s g := rfl
  rw [hentries] at hdict
  unfold worker
  simp only [hdict, PyDict_DelItem]
  cases entries s g "handle" with
  | some old => simp [hrefs]
  | none => simp [hrefs]

end Counts

end Jega.Local
