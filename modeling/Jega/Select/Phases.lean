import Jega.Select.Model
import Mathlib.Data.List.TakeWhile

/-!
# Jega.Select.Phases — the map of callbacks during a `select`

What each part of `select` does to the readers and writers of a loop on which
nothing but those is registered: an object gets a callback for its descriptor
if there is none yet, a report with an error alone takes both callbacks, and
`close` takes those of the descriptors that were asked for, whoever they are of.
-/

namespace Jega.Select

open Io hiding active init
open Io.Registry

/-! ## One side of the callbacks -/

/-- The callback that a method is registered as. -/
def Method.side : Method → Callbacks → Option Callable
  | ._on_read, cbs => cbs.1
  | ._on_write, cbs => cbs.2

/-- The callbacks with one more, unless there is one. -/
def Method.or : Method → Callbacks → Option Callable → Callbacks
  | ._on_read, cbs, cb => (cbs.1.or cb, cbs.2)
  | ._on_write, cbs, cb => (cbs.1, cbs.2.or cb)

/-- The callbacks without one. -/
def Method.clear : Method → Callbacks → Callbacks
  | ._on_read, cbs => (none, cbs.2)
  | ._on_write, cbs => (cbs.1, none)

theorem callbacks_ext {a b : Callbacks} (h : ∀ method : Method, method.side a = method.side b) :
    a = b := Prod.ext (h ._on_read) (h ._on_write)

@[simp] theorem Method.side_or (method other : Method) (cbs : Callbacks) (cb : Option Callable) :
    other.side (method.or cbs cb) =
      if other = method then (other.side cbs).or cb else other.side cbs := by
  cases method <;> cases other <;> rfl

@[simp] theorem Method.side_clear (method other : Method) (cbs : Callbacks) :
    other.side (method.clear cbs) = if other = method then none else other.side cbs := by
  cases method <;> cases other <;> rfl

@[simp] theorem Method.side_none (method : Method) : method.side (none, none) = none := by
  cases method <;> rfl

@[simp] theorem Method.or_none (method : Method) (cbs : Callbacks) : method.or cbs none = cbs := by
  cases method <;> simp [Method.or]

@[simp] theorem Method.or_or (method : Method) (cbs : Callbacks) (cb cb' : Option Callable) :
    method.or (method.or cbs cb) cb' = method.or cbs (cb.or cb') := by
  cases method <;> simp [Method.or, Option.or_assoc]

@[simp] theorem Method.clear_clear (method : Method) (cbs : Callbacks) :
    method.clear (method.clear cbs) = method.clear cbs := by
  cases method <;> rfl

/-! ## The two lists -/

section Lists

variable (fileno : Fdobj → Option Slot)

/-- The objects of a list before the first one that raises. -/
def accepted (fdobjs : List Fdobj) : List Fdobj := fdobjs.takeWhile fun fdobj => (fileno fdobj).isSome

/-- Every object of the list has a descriptor. -/
def opens (fdobjs : List Fdobj) : Bool := fdobjs.all fun fdobj => (fileno fdobj).isSome

/-- The descriptors of a list. -/
def fds (fdobjs : List Fdobj) : List Slot := fdobjs.filterMap fileno

/-- The objects of a list that have the descriptor. -/
def requests (fdobjs : List Fdobj) (fd : Slot) : List Fdobj :=
  fdobjs.filter fun fdobj => fileno fdobj = some fd

variable {fileno}

theorem accepted_of_opens {fdobjs : List Fdobj} (h : opens fileno fdobjs = true) :
    accepted fileno fdobjs = fdobjs := by
  rw [opens, List.all_eq_true] at h
  exact List.takeWhile_eq_self_iff.2 h

theorem mem_fds_iff {fdobjs : List Fdobj} {fd : Slot} :
    fd ∈ fds fileno fdobjs ↔ requests fileno fdobjs fd ≠ [] := by
  simp [fds, requests]

end Lists

/-! ## Installation -/

section Phases

variable (methods : Methods) (fileno : Fdobj → Option Slot)

/-- `SelectHelper.add_reader` or `SelectHelper.add_writer`. -/
def Method.add : Method → St → Fdobj → Option St
  | ._on_read => add_reader methods fileno
  | ._on_write => add_writer methods fileno

/-- The field that `close` goes through. -/
def Method.fds (self : SelectHelper) : Method → List Slot
  | ._on_read => self._read_fds
  | ._on_write => self._write_fds

/-- The map after a loop over a list: the first object of a descriptor counts. -/
def Method.install (method : Method) (m : Map) (fdobjs : List Fdobj) : Map := fun fd =>
  method.or (m fd) ((requests fileno fdobjs fd).head?.map (methods.bound method))

variable {methods fileno} {s s' : St} {m : Map} {method : Method}

/-- An object that has a descriptor. -/
theorem add_spec (h : Represents Set.univ s.registry m) {fdobj : Fdobj}
    (hadd : method.add methods fileno s fdobj = some s') :
    ∃ fd, fileno fdobj = some fd ∧
      Represents Set.univ s'.registry
        (Function.update m fd (method.or (m fd) (some (methods.bound method fdobj)))) ∧
      method.fds s'.helper = method.fds s.helper ++ [fd] ∧
      (∀ other, other ≠ method → other.fds s'.helper = other.fds s.helper) ∧
      s'.helper._event = s.helper._event ∧
      ∀ other, s'.helper.ready other = s.helper.ready other := by
  cases method with
  | _on_read =>
    obtain ⟨fd, hfd, rfl⟩ := Option.map_eq_some_iff.1 hadd
    refine ⟨fd, hfd, ?_, rfl, ?_, rfl, fun other => by cases other <;> rfl⟩
    · exact represents_step h
        (a := .add_reader fd (methods.bound ._on_read fdobj) (none, none) s.registry.ssock)
        (Set.mem_univ fd) rfl
    · intro other hother
      cases other with
      | _on_read => exact absurd rfl hother
      | _on_write => rfl
  | _on_write =>
    obtain ⟨fd, hfd, rfl⟩ := Option.map_eq_some_iff.1 hadd
    refine ⟨fd, hfd, ?_, rfl, ?_, rfl, fun other => by cases other <;> rfl⟩
    · exact represents_step h
        (a := .add_writer fd (methods.bound ._on_write fdobj) (none, none) s.registry.ssock)
        (Set.mem_univ fd) rfl
    · intro other hother
      cases other with
      | _on_read => rfl
      | _on_write => exact absurd rfl hother

theorem add_isSome (methods : Methods) (fileno : Fdobj → Option Slot) (method : Method) (s : St)
    (fdobj : Fdobj) :
    (method.add methods fileno s fdobj).isSome = (fileno fdobj).isSome := by
  cases method <;> simp [Method.add, add_reader, add_writer]

/-- What a loop over one of the lists did. -/
structure Installed (methods : Methods) (fileno : Fdobj → Option Slot) (method : Method) (s : St)
    (m : Map) (fdobjs : List Fdobj) (r : St × Bool) : Prop where
  raised : r.2 = !opens fileno fdobjs
  represents : Represents Set.univ r.1.registry
    (method.install methods fileno m (accepted fileno fdobjs))
  fds : method.fds r.1.helper = method.fds s.helper ++ fds fileno (accepted fileno fdobjs)
  other : ∀ other, other ≠ method → other.fds r.1.helper = other.fds s.helper
  event : r.1.helper._event = s.helper._event
  ready : ∀ other, r.1.helper.ready other = s.helper.ready other

theorem installed_add_each (methods : Methods) (fileno : Fdobj → Option Slot) (method : Method)
    (h : Represents Set.univ s.registry m) (fdobjs : List Fdobj) :
    Installed methods fileno method s m fdobjs
      (add_each (method.add methods fileno) s fdobjs) := by
  induction fdobjs generalizing s m with
  | nil =>
    have hsame : method.install methods fileno m [] = m := by
      funext fd
      simp [Method.install, requests]
    exact ⟨rfl, hsame.symm ▸ h, (List.append_nil _).symm, fun _ _ => rfl, rfl, fun _ => rfl⟩
  | cons fdobj fdobjs ih =>
    cases hadd : method.add methods fileno s fdobj with
    | none =>
      -- Case: the object has no descriptor, and the loop ends
      have hnone : fileno fdobj = none := by
        rw [← Option.not_isSome_iff_eq_none, ← add_isSome methods fileno method s, hadd]
        exact Bool.false_ne_true
      have hsame : method.install methods fileno m [] = m := by
        funext fd
        simp [Method.install, requests]
      have hempty : accepted fileno (fdobj :: fdobjs) = [] := by
        simp [accepted, List.takeWhile, hnone]
      have heq : add_each (method.add methods fileno) s (fdobj :: fdobjs) = (s, true) := by
        simp only [add_each, hadd]
      rw [heq]
      refine ⟨by simp [opens, hnone], ?_, ?_, fun _ _ => rfl, rfl, fun _ => rfl⟩
      · rw [hempty, hsame]
        exact h
      · rw [hempty]
        exact (List.append_nil _).symm
    | some s₁ =>
      obtain ⟨fd, hfd, hrep, hfds, hother, hevent, hready⟩ := add_spec h hadd
      have hrest := ih hrep
      have haccepted : accepted fileno (fdobj :: fdobjs) = fdobj :: accepted fileno fdobjs := by
        simp [accepted, List.takeWhile, hfd]
      have heq : add_each (method.add methods fileno) s (fdobj :: fdobjs) =
          add_each (method.add methods fileno) s₁ fdobjs := by
        simp only [add_each, hadd]
      rw [heq]
      refine ⟨?_, ?_, ?_, ?_, hrest.event.trans hevent, fun other => ?_⟩
      · rw [hrest.raised]
        simp [opens, hfd]
      · have hmap : method.install methods fileno m (fdobj :: accepted fileno fdobjs) =
            method.install methods fileno
              (Function.update m fd (method.or (m fd) (some (methods.bound method fdobj))))
              (accepted fileno fdobjs) := by
          funext x
          by_cases hx : x = fd
          · subst hx
            simp [Method.install, requests, hfd]
          · have hne : ¬ fd = x := fun h => hx h.symm
            simp [Method.install, requests, hfd, hx, hne]
        rw [haccepted, hmap]
        exact hrest.represents
      · rw [hrest.fds, hfds, haccepted, List.append_assoc]
        simp [Select.fds, hfd]
      · exact fun other hne => (hrest.other other hne).trans (hother other hne)
      · exact (hrest.ready other).trans (hready other)

/-! ## Reports -/

/-- Picoev reports an error and nothing else. -/
def error_only (events : Revents) : Bool := !events.timeout && !events.read && !events.write

/-- The descriptor is reported with an error and nothing else. -/
def Fails (reports : List (Slot × Revents)) (fd : Slot) : Prop :=
  ∃ r ∈ reports, r.1 = fd ∧ error_only r.2 = true

instance (reports : List (Slot × Revents)) (fd : Slot) : Decidable (Fails reports fd) :=
  inferInstanceAs (Decidable (∃ r ∈ reports, _))

/-- On a loop with readers and writers alone, registered is registered with
`fd_callback`. -/
theorem reads_iff {t : Registry.St} (h : Represents Set.univ t m) (fd : Slot) :
    Reads t fd ↔ active t fd = true := by
  constructor
  · exact And.left
  · exact fun hact => ⟨hact, (h.slot fd (Set.mem_univ fd)).callback hact⟩

/-- `fd_callback` on an error. -/
theorem represents_err {t : Registry.St} (h : Represents Set.univ t m) {fd : Slot}
    (hact : active t fd = true) :
    Represents Set.univ (fd_callback_err t fd) (Function.update m fd (none, none)) := by
  have hstep : step t (.fd_error fd) = some (fd_callback_err t fd) :=
    if_pos ((reads_iff h fd).2 hact)
  have hchange := step_change hstep
  refine h.destroy (Set.mem_univ fd) hact ?_ rfl
  rw [hchange.ioactivecnt, hchange.registered]
  exact (counted_unregister_iff h.counted).2 (mem_registered.2 hact)

/-- The map after a report. -/
def reported (m : Map) (r : Slot × Revents) : Map :=
  if error_only r.2 then Function.update m r.1 (none, none) else m

theorem represents_report (methods : Methods) (h : Represents Set.univ s.registry m)
    (r : Slot × Revents) :
    Represents Set.univ (report methods s r).registry (reported m r) := by
  obtain ⟨fd, events⟩ := r
  unfold report
  split
  next hreads =>
    have hact := (reads_iff h fd).1 hreads
    unfold fd_callback reported error_only
    cases events.timeout
    · cases events.read
      · cases events.write
        · exact represents_err h hact
        · exact h
      · exact h
    · exact h
  next hreads =>
    -- Case: the descriptor has no callbacks that could go
    rw [reads_iff h fd] at hreads
    have hsame : reported m (fd, events) = m := by
      unfold reported
      split
      · exact Function.update_eq_self_iff.2 (h.none_of_inactive (Set.mem_univ fd) hreads).symm
      · rfl
    rw [hsame]
    exact h

theorem report_fds (s : St) (r : Slot × Revents) :
    method.fds (report methods s r).helper = method.fds s.helper := by
  have hcall : ∀ callback, method.fds (call methods s.helper callback) = method.fds s.helper := by
    intro callback
    unfold call
    split <;> cases method <;> rfl
  unfold report fd_callback
  split
  · dsimp only
    split
    · rfl
    · split
      · exact hcall _
      · split
        · exact hcall _
        · rfl
  · rfl

/-- The reports of a wait. -/
theorem represents_reports (methods : Methods) (h : Represents Set.univ s.registry m)
    (reports : List (Slot × Revents)) :
    Represents Set.univ (reports.foldl (report methods) s).registry
        (fun fd => if Fails reports fd then (none, none) else m fd) ∧
      ∀ method : Method, method.fds (reports.foldl (report methods) s).helper = method.fds s.helper := by
  induction reports generalizing s m with
  | nil =>
    refine ⟨?_, fun _ => rfl⟩
    have hsame : (fun fd => if Fails [] fd then (none, none) else m fd) = m := by
      funext fd
      simp [Fails]
    rw [hsame]
    exact h
  | cons r reports ih =>
    obtain ⟨hrep, hfds⟩ := ih (represents_report methods h r)
    refine ⟨?_, fun method => (hfds method).trans (report_fds s r)⟩
    have hmap : (fun fd => if Fails (r :: reports) fd then (none, none) else m fd) =
        fun fd => if Fails reports fd then (none, none) else reported m r fd := by
      funext fd
      by_cases hrest : Fails reports fd
      · have hall : Fails (r :: reports) fd := by
          obtain ⟨r', hr', h'⟩ := hrest
          exact ⟨r', List.mem_cons_of_mem r hr', h'⟩
        rw [if_pos hall, if_pos hrest]
      · have hiff : Fails (r :: reports) fd ↔ r.1 = fd ∧ error_only r.2 = true := by
          unfold Fails at hrest ⊢
          rw [List.exists_mem_cons_iff]
          exact or_iff_left hrest
        rw [if_neg hrest]
        simp only [hiff, reported]
        cases error_only r.2
        · simp
        · by_cases hfd : r.1 = fd
          · subst hfd
            simp
          · have hne : ¬ fd = r.1 := fun h => hfd h.symm
            simp [hfd, hne]
    rw [hmap]
    exact hrep

/-! ## `close` -/

/-- `LoopObject_remove_reader` or `LoopObject_remove_writer`. -/
def Method.remove : Method → Registry.St → Slot → Registry.St
  | ._on_read, t, fd => LoopObject_remove_reader t fd (none, none)
  | ._on_write, t, fd => LoopObject_remove_writer t fd (none, none)

theorem represents_remove {t : Registry.St} (h : Represents Set.univ t m) (method : Method)
    (fd : Slot) :
    Represents Set.univ (method.remove t fd) (Function.update m fd (method.clear (m fd))) := by
  cases method with
  | _on_read => exact represents_step h (a := .remove_reader fd (none, none)) (Set.mem_univ fd) rfl
  | _on_write => exact represents_step h (a := .remove_writer fd (none, none)) (Set.mem_univ fd) rfl

theorem represents_removes {t : Registry.St} (h : Represents Set.univ t m) (method : Method)
    (l : List Slot) :
    Represents Set.univ (l.foldl method.remove t)
      fun fd => if fd ∈ l then method.clear (m fd) else m fd := by
  induction l generalizing t m with
  | nil => simpa using h
  | cons fd l ih =>
    have hrest := ih (represents_remove h method fd)
    have hmap : (fun x => if x ∈ fd :: l then method.clear (m x) else m x) =
        fun x =>
          if x ∈ l then method.clear (Function.update m fd (method.clear (m fd)) x)
          else Function.update m fd (method.clear (m fd)) x := by
      funext x
      by_cases hx : x = fd
      · subst hx
        simp
      · simp [hx]
    rw [hmap]
    exact hrest

theorem represents_close (h : Represents Set.univ s.registry m) :
    Represents Set.univ (close s) fun fd =>
      let cbs := if fd ∈ s.helper._read_fds then Method._on_read.clear (m fd) else m fd
      if fd ∈ s.helper._write_fds then Method._on_write.clear cbs else cbs :=
  represents_removes (represents_removes h ._on_read s.helper._read_fds) ._on_write _

end Phases

end Jega.Select
