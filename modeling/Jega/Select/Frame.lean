import Jega.Select.Phases

/-!
# Jega.Select.Frame — what `select` leaves behind

`close` removes the readers of the descriptors of `read_list` and the writers of
those of `write_list`, and not what the call has installed: where somebody else
had a callback, the call installs nothing and removes it. And the objects are
added before the `try`, so an object that raises leaves the callbacks of those
before it.

## Main result

* `select_restores_iff`: when the registry and `ioactivecnt` are what they were.
-/

namespace Jega.Select

open Io hiding active init
open Io.Registry Trace

/-! ## The registry as it is seen -/

/-- The callbacks of a descriptor. -/
def callbacks_of (s : Registry.St) (fd : Slot) : Callbacks :=
  if active s fd then callbacks s.mem (none, none) (s.fds fd).cb_arg else (none, none)

/-- The registry is as before. -/
structure Restored (s s' : Registry.St) : Prop where
  active : ∀ fd, active s' fd = active s fd
  callbacks : ∀ fd, callbacks_of s' fd = callbacks_of s fd
  events : ∀ fd, (s'.fds fd).events = (s.fds fd).events
  ioactivecnt : s'.ioactivecnt = s.ioactivecnt

theorem callbacks_of_eq {s : Registry.St} {m : Map} (h : Represents Set.univ s m) (fd : Slot) :
    callbacks_of s fd = m fd := by
  unfold callbacks_of
  split
  next hact => exact h.callbacks_eq (Set.mem_univ fd) hact (none, none)
  next hact => exact (h.none_of_inactive (Set.mem_univ fd) hact).symm

/-- A registry is as before when its map is. -/
theorem restored_iff {s s' : Registry.St} {m m' : Map} (h : Represents Set.univ s m)
    (h' : Represents Set.univ s' m') : Restored s s' ↔ m' = m := by
  constructor
  · intro hr
    funext fd
    rw [← callbacks_of_eq h fd, ← callbacks_of_eq h' fd]
    exact hr.callbacks fd
  · intro heq
    subst heq
    have hact : ∀ fd, active s' fd = active s fd := by
      intro fd
      exact (h'.slot fd (Set.mem_univ fd)).active.trans (h.slot fd (Set.mem_univ fd)).active.symm
    have hreg : registered s' = registered s := by
      ext fd
      rw [mem_registered, mem_registered, hact]
    refine ⟨hact, fun fd => ?_, fun fd => ?_, ?_⟩
    · rw [callbacks_of_eq h, callbacks_of_eq h']
    · exact (h'.slot fd (Set.mem_univ fd)).events.trans (h.slot fd (Set.mem_univ fd)).events.symm
    · rw [← UInt32.toNat_inj, h.counted, h'.counted, hreg]

/-! ## When nothing changes -/

/-- Nobody else's callbacks are in the way, or those before the object that
raises all are. -/
def Undisturbed (fileno : Fdobj → Option Slot) (s : Registry.St)
    (read_list write_list : List Fdobj) (timeout : Option (Option Int))
    (reports : List (Slot × Revents)) : Prop :=
  timeout = none ∨
    if opens fileno read_list && opens fileno write_list then
      (∀ fd ∈ fds fileno read_list, (callbacks_of s fd).1 = none) ∧
        (∀ fd ∈ fds fileno write_list, (callbacks_of s fd).2 = none) ∧
        ∀ r ∈ reports, error_only r.2 = true → active s r.1 = false
    else
      (∀ fd ∈ fds fileno (accepted fileno read_list), (callbacks_of s fd).1.isSome = true) ∧
        (opens fileno read_list = true →
          ∀ fd ∈ fds fileno (accepted fileno write_list), (callbacks_of s fd).2.isSome = true)

section Frame

variable (methods : Methods) {fileno : Fdobj → Option Slot} {m : Map}

theorem install_side (method other : Method) (l : List Fdobj) (fd : Slot) :
    other.side (method.install methods fileno m l fd) =
      if other = method then
        (other.side (m fd)).or ((requests fileno l fd).head?.map (methods.bound method))
      else other.side (m fd) := by
  unfold Method.install
  rw [Method.side_or]

/-- A loop over a list changes nothing if the callbacks are there already. -/
theorem install_eq_iff (method : Method) (l : List Fdobj) :
    method.install methods fileno m l = m ↔
      ∀ fd ∈ fds fileno l, (method.side (m fd)).isSome = true := by
  constructor
  · intro heq fd hfd
    have hside := congrArg (fun m => method.side (m fd)) heq
    simp only [install_side, if_true] at hside
    cases hm : method.side (m fd) with
    | some cb => rfl
    | none =>
      rw [hm, Option.none_or, Option.map_eq_none_iff, List.head?_eq_none_iff] at hside
      exact absurd hside (mem_fds_iff.1 hfd)
  · intro hall
    funext fd
    refine callbacks_ext fun other => ?_
    rw [install_side]
    split
    next heq =>
      subst heq
      by_cases hfd : fd ∈ fds fileno l
      · rw [Option.or_of_isSome (hall fd hfd)]
      · rw [mem_fds_iff, not_not] at hfd
        rw [hfd, List.head?_nil, Option.map_none, Option.or_none]
    · rfl

/-- The map when the `try` is reached or an object raises. -/
def installed (fileno : Fdobj → Option Slot) (m : Map) (read_list write_list : List Fdobj) : Map :=
  let r := Method._on_read.install methods fileno m (accepted fileno read_list)
  if opens fileno read_list then
    Method._on_write.install methods fileno r (accepted fileno write_list)
  else r

/-- What the two loops did. -/
structure Entered (fileno : Fdobj → Option Slot) (m : Map) (read_list write_list : List Fdobj)
    (r : St × Bool) : Prop where
  represents :
    Represents Set.univ r.1.registry (installed methods fileno m read_list write_list)
  raised : r.2 = !(opens fileno read_list && opens fileno write_list)
  read_fds : r.1.helper._read_fds = fds fileno (accepted fileno read_list)
  write_fds : opens fileno read_list = true →
    r.1.helper._write_fds = fds fileno (accepted fileno write_list)
  event : r.1.helper._event = false
  ready : ∀ method, r.1.helper.ready method = []

theorem entered_install (fileno : Fdobj → Option Slot) {s : Registry.St}
    (h : Represents Set.univ s m) (read_list write_list : List Fdobj) :
    Entered methods fileno m read_list write_list
      (install methods fileno s read_list write_list) := by
  let s₀ : St := ⟨s, .init⟩
  have h₀ : Represents Set.univ s₀.registry m := h
  have hread : Installed methods fileno ._on_read s₀ m read_list
      (add_each (add_reader methods fileno) s₀ read_list) :=
    installed_add_each methods fileno ._on_read h₀ read_list
  have hinit : ∀ method, SelectHelper.init.ready method = [] := by
    intro method
    cases method <;> rfl
  have hraised := hread.raised
  cases hopens : opens fileno read_list with
  | false =>
    -- Case: an object of `read_list` raises
    rw [hopens] at hraised
    have heq : install methods fileno s read_list write_list =
        add_each (add_reader methods fileno) s₀ read_list := if_pos hraised
    rw [heq]
    refine ⟨?_, ?_, hread.fds, ?_, hread.event, fun method => ?_⟩
    · rw [installed, if_neg (by rw [hopens]; exact Bool.false_ne_true)]
      exact hread.represents
    · rw [hopens]
      exact hraised
    · rw [hopens]
      exact fun h => nomatch h
    · exact (hread.ready method).trans (hinit method)
  | true =>
    rw [hopens] at hraised
    have hwrite : Installed methods fileno ._on_write _ _ write_list
        (add_each (add_writer methods fileno) _ write_list) :=
      installed_add_each methods fileno ._on_write hread.represents write_list
    have heq : install methods fileno s read_list write_list =
        add_each (add_writer methods fileno) (add_each (add_reader methods fileno) s₀ read_list).1
          write_list := if_neg (ne_true_of_eq_false hraised)
    rw [heq]
    refine ⟨?_, ?_, ?_, fun _ => ?_, hwrite.event.trans hread.event, fun method => ?_⟩
    · rw [installed, if_pos hopens]
      exact hwrite.represents
    · rw [hopens, Bool.true_and]
      exact hwrite.raised
    · exact (hwrite.other ._on_read (fun h => nomatch h)).trans hread.fds
    · exact hwrite.fds.trans (congrArg (· ++ _) (hread.other ._on_write (fun h => nomatch h)))
    · exact (hwrite.ready method).trans ((hread.ready method).trans (hinit method))

/-! ## The map after `select` -/

/-- The list that a method is for. -/
def Method.list (read_list write_list : List Fdobj) : Method → List Fdobj
  | ._on_read => read_list
  | ._on_write => write_list

/-- The map after the wait and `close`. -/
def closed (fileno : Fdobj → Option Slot) (m : Map) (read_list write_list : List Fdobj)
    (reports : List (Slot × Revents)) : Map := fun fd =>
  let cbs :=
    if Fails reports fd then (none, none) else installed methods fileno m read_list write_list fd
  let cbs := if requests fileno read_list fd ≠ [] then Method._on_read.clear cbs else cbs
  if requests fileno write_list fd ≠ [] then Method._on_write.clear cbs else cbs

/-- A descriptor has the first object of each list, unless it had a callback. -/
theorem installed_side {read_list write_list : List Fdobj} (hr : opens fileno read_list = true)
    (hw : opens fileno write_list = true) (method : Method) (fd : Slot) :
    method.side (installed methods fileno m read_list write_list fd) =
      (method.side (m fd)).or ((requests fileno (method.list read_list write_list) fd).head?.map
        (methods.bound method)) := by
  rw [installed, if_pos hr, accepted_of_opens hr, accepted_of_opens hw]
  cases method with
  | _on_read => simp [install_side, Method.list]
  | _on_write => simp [install_side, Method.list]

theorem side_ite_clear (method other : Method) (cbs : Callbacks) (p : Prop) [Decidable p] :
    method.side (if p then other.clear cbs else cbs) =
      if method = other ∧ p then none else method.side cbs := by
  by_cases hp : p <;> simp [hp]

/-- The callbacks of the descriptors that were asked for are gone, and so are
those of the descriptors that were reported with an error. -/
theorem closed_side {read_list write_list : List Fdobj} (hr : opens fileno read_list = true)
    (hw : opens fileno write_list = true) (reports : List (Slot × Revents)) (method : Method)
    (fd : Slot) :
    method.side (closed methods fileno m read_list write_list reports fd) =
      if fd ∈ fds fileno (method.list read_list write_list) ∨ Fails reports fd then none
      else method.side (m fd) := by
  have hside : fd ∉ fds fileno (method.list read_list write_list) →
      method.side (installed methods fileno m read_list write_list fd) = method.side (m fd) := by
    intro hfd
    rw [mem_fds_iff, not_not] at hfd
    rw [installed_side methods hr hw, hfd, List.head?_nil, Option.map_none, Option.or_none]
  have hnone : method.side (if Fails reports fd then (none, none)
      else installed methods fileno m read_list write_list fd) =
      if Fails reports fd then none
      else method.side (installed methods fileno m read_list write_list fd) := by
    split
    · exact Method.side_none method
    · rfl
  simp only [closed, ← mem_fds_iff, side_ite_clear, hnone]
  by_cases hfd : fd ∈ fds fileno (method.list read_list write_list)
  · rw [if_pos (Or.inl hfd)]
    cases method with
    | _on_read => exact (if_neg (fun h => nomatch h.1)).trans (if_pos ⟨rfl, hfd⟩)
    | _on_write => exact if_pos ⟨rfl, hfd⟩
  · rw [← hside hfd]
    simp only [hfd, false_or]
    cases method with
    | _on_read => exact (if_neg (fun h => nomatch h.1)).trans (if_neg (fun h => hfd h.2))
    | _on_write => exact (if_neg (fun h => hfd h.2)).trans (if_neg (fun h => nomatch h.1))

theorem represents_select {s : Registry.St} (h : Represents Set.univ s m)
    (read_list write_list : List Fdobj) (timeout : Option Int) (reports : List (Slot × Revents))
    (raises : Bool) :
    Represents Set.univ (select methods fileno s read_list write_list (some timeout) reports raises).1
      (if opens fileno read_list && opens fileno write_list then
        closed methods fileno m read_list write_list reports
      else installed methods fileno m read_list write_list) := by
  have hentered := entered_install methods fileno h read_list write_list
  cases hopens : opens fileno read_list && opens fileno write_list with
  | false =>
    have hraised : (install methods fileno s read_list write_list).2 = true := by
      rw [hentered.raised, hopens, Bool.not_false]
    have heq : select methods fileno s read_list write_list (some timeout) reports raises =
        ((install methods fileno s read_list write_list).1.registry, .raised) := if_pos hraised
    rw [heq]
    exact hentered.represents
  | true =>
    rw [Bool.and_eq_true] at hopens
    have hraised : ¬ (install methods fileno s read_list write_list).2 = true := by
      rw [hentered.raised, hopens.1, hopens.2]
      exact Bool.false_ne_true
    obtain ⟨hwait, hfds⟩ := represents_reports methods hentered.represents reports
    have hclose := represents_close hwait
    have hread := (hfds ._on_read).trans hentered.read_fds
    have hwrite := (hfds ._on_write).trans (hentered.write_fds hopens.1)
    rw [accepted_of_opens hopens.1] at hread
    rw [accepted_of_opens hopens.2] at hwrite
    have heq : (select methods fileno s read_list write_list (some timeout) reports raises).1 =
        close (reports.foldl (report methods) (install methods fileno s read_list write_list).1) :=
      congrArg Prod.fst (if_neg hraised)
    rw [heq, if_pos rfl]
    rw [show SelectHelper._read_fds _ = _ from hread,
      show SelectHelper._write_fds _ = _ from hwrite] at hclose
    simp only [mem_fds_iff] at hclose
    exact hclose

/-- The objects before the one that raises change nothing. -/
theorem installed_eq_iff (read_list write_list : List Fdobj) :
    installed methods fileno m read_list write_list = m ↔
      (∀ fd ∈ fds fileno (accepted fileno read_list), (m fd).1.isSome = true) ∧
        (opens fileno read_list = true →
          ∀ fd ∈ fds fileno (accepted fileno write_list), (m fd).2.isSome = true) := by
  let r := Method._on_read.install methods fileno m (accepted fileno read_list)
  have hread : r = m ↔ ∀ fd ∈ fds fileno (accepted fileno read_list), (m fd).1.isSome = true :=
    install_eq_iff methods ._on_read (accepted fileno read_list)
  rw [← hread]
  cases hopens : opens fileno read_list with
  | false =>
    have heq : installed methods fileno m read_list write_list = r :=
      if_neg (ne_true_of_eq_false hopens)
    rw [heq]
    exact (and_iff_left fun h => nomatch h).symm
  | true =>
    have heq : installed methods fileno m read_list write_list =
        Method._on_write.install methods fileno r (accepted fileno write_list) := if_pos hopens
    have hwrite : Method._on_write.install methods fileno m (accepted fileno write_list) = m ↔
        ∀ fd ∈ fds fileno (accepted fileno write_list), (m fd).2.isSome = true :=
      install_eq_iff methods ._on_write (accepted fileno write_list)
    rw [heq, ← hwrite]
    constructor
    · intro hm
      -- writers do not touch the readers, so each loop has changed nothing
      have hr : r = m := by
        funext fd
        refine callbacks_ext fun method => ?_
        cases method with
        | _on_read =>
          have hside := congrArg (fun m => Method._on_read.side (m fd)) hm
          simpa only [install_side, if_neg (fun h : Method._on_read = ._on_write => nomatch h)]
            using hside
        | _on_write => exact install_side methods ._on_read ._on_write _ fd
      rw [hr] at hm
      exact ⟨hr, fun _ => hm⟩
    · rintro ⟨hr, hw⟩
      rw [hr]
      exact hw rfl

/-- Nothing was there that `close` or an error takes. -/
theorem closed_eq_iff {read_list write_list : List Fdobj} (hr : opens fileno read_list = true)
    (hw : opens fileno write_list = true) (reports : List (Slot × Revents)) :
    closed methods fileno m read_list write_list reports = m ↔
      (∀ fd ∈ fds fileno read_list, (m fd).1 = none) ∧
        (∀ fd ∈ fds fileno write_list, (m fd).2 = none) ∧
        ∀ r ∈ reports, error_only r.2 = true → m r.1 = (none, none) := by
  have hside : closed methods fileno m read_list write_list reports = m ↔
      ∀ (method : Method) (fd : Slot),
        fd ∈ fds fileno (method.list read_list write_list) ∨ Fails reports fd →
          method.side (m fd) = none := by
    constructor
    · intro heq method fd hfd
      rw [← heq, closed_side methods hr hw, if_pos hfd]
    · intro hall
      funext fd
      refine callbacks_ext fun method => ?_
      rw [closed_side methods hr hw]
      split
      next hfd => exact (hall method fd hfd).symm
      · rfl
  rw [hside]
  constructor
  · intro hall
    refine ⟨fun fd hfd => hall ._on_read fd (Or.inl hfd),
      fun fd hfd => hall ._on_write fd (Or.inl hfd), fun r hr' herr => ?_⟩
    exact callbacks_ext fun method =>
      (hall method r.1 (Or.inr ⟨r, hr', rfl, herr⟩)).trans method.side_none.symm
  · rintro ⟨hreads, hwrites, herrs⟩ method fd (hfd | ⟨r, hr', rfl, herr⟩)
    · cases method with
      | _on_read => exact hreads fd hfd
      | _on_write => exact hwrites fd hfd
    · rw [herrs r hr' herr]
      exact method.side_none

end Frame

/-! ## Main result -/

/-- On any loop to which readers and writers were added and from which they were
removed, `select` leaves the registry as it was exactly when no descriptor of
`read_list` had a reader, none of `write_list` a writer and no registered one was
reported with an error alone, or, where it raises before the wait, when what it
would have installed was there. -/
theorem select_restores_iff (methods : Methods) (fileno : Fdobj → Option Slot) (ssock : Slot)
    (as : List Registry.Act) (s : Registry.St) (has : ∀ a ∈ as, Registers Set.univ a)
    (hrun : run Registry.step (Registry.init ssock) as = some s) (read_list write_list : List Fdobj)
    (timeout : Option (Option Int)) (reports : List (Slot × Revents)) (raises : Bool) :
    Restored s (select methods fileno s read_list write_list timeout reports raises).1 ↔
      Undisturbed fileno s read_list write_list timeout reports := by
  have h := represents_run (represents_init Set.univ ssock) has hrun
  cases timeout with
  | none => exact iff_of_true ((restored_iff h h).2 rfl) (Or.inl rfl)
  | some timeout =>
    rw [restored_iff h (represents_select methods h read_list write_list timeout reports raises)]
    simp only [Undisturbed, callbacks_of_eq h, reduceCtorEq, false_or]
    cases hopens : opens fileno read_list && opens fileno write_list with
    | false =>
      simp only [Bool.false_eq_true, if_false]
      exact installed_eq_iff methods read_list write_list
    | true =>
      have hactive : ∀ fd, active s fd = false ↔
          ((self_pipe ssock).after as) fd = (none, none) := by
        intro fd
        rw [← Bool.not_eq_true]
        constructor
        · exact h.none_of_inactive (Set.mem_univ fd)
        · intro hnone hact
          rw [h.active_iff (Set.mem_univ fd), hnone] at hact
          rcases hact with hsome | hsome <;> cases hsome
      rw [Bool.and_eq_true] at hopens
      simp only [if_true, hactive]
      exact closed_eq_iff methods hopens.1 hopens.2 reports

/-- A socket that is somebody else's, with a reader of its owner. -/
theorem select_restores_iff_writer : ∃ s,
    run Registry.step (Registry.init 5) [.add_reader 7 100 (none, none) 5] = some s ∧
      (Restored s (select numbered int_fileno s [] [7] (some none)
          [(7, ⟨false, true, false, false⟩)] false).1 ↔
        Undisturbed int_fileno s [] [7] (some none) [(7, ⟨false, true, false, false⟩)]) := by
  refine ⟨_, rfl, select_restores_iff numbered int_fileno 5 [.add_reader 7 100 (none, none) 5] _ ?_ rfl
    [] [7] (some none) [(7, ⟨false, true, false, false⟩)] false⟩
  intro a ha
  rw [List.mem_singleton] at ha
  subst ha
  exact Set.mem_univ 7

/-- A descriptor has a reader, and another `select` for its readiness times
out: the reader is gone, and the descriptor with it. -/
theorem reader_removed : ∃ s,
    run Registry.step (Registry.init 5) [.add_reader 7 100 (none, none) 5] = some s ∧
      callbacks_of s 7 = (some 100, none) ∧
      (select numbered int_fileno s [7] [] (some (some 1)) [] false).2 = .returned [] [] ∧
      ¬ Restored s (select numbered int_fileno s [7] [] (some (some 1)) [] false).1 := by
  refine ⟨_, rfl, by decide, by decide, fun h => ?_⟩
  have hcnt := h.ioactivecnt
  exact absurd hcnt (by decide)

end Jega.Select
