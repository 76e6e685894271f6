import Jega.Select.Frame

/-!
# Jega.Select.Ready — what `select` returns

In one poll round `fd_callback` is called once for a descriptor, and calls one
callback, the reader if there is something to read. And a descriptor has one
reader and one writer, with one object as the argument. So an object that is
ready is not reported when another one of its list has the descriptor and was
added before it, or when it is to be written and the descriptor can be read as
well.

## Main result

* `select_reports_iff`: when `rlist` and `wlist` are what is ready.
-/

namespace Jega.Select

open Io hiding active init
open Io.Registry Trace

/-! ## Lists -/

section Lists

variable {α β : Type} {f g : α → List β}

theorem flatMap_length_le {l : List α} (h : ∀ x ∈ l, (f x).Sublist (g x)) :
    (l.flatMap f).length ≤ (l.flatMap g).length := by
  induction l with
  | nil => exact Nat.le_refl _
  | cons a l ih =>
    rw [List.flatMap_cons, List.flatMap_cons, List.length_append, List.length_append]
    exact Nat.add_le_add (h a List.mem_cons_self).length_le
      (ih fun x hx => h x (List.mem_cons_of_mem a hx))

/-- Parts of lists make up all that the lists do only if they are the lists. -/
theorem flatMap_perm_iff {l : List α} (h : ∀ x ∈ l, (f x).Sublist (g x)) :
    (l.flatMap f).Perm (l.flatMap g) ↔ ∀ x ∈ l, f x = g x := by
  constructor
  · intro hperm
    induction l with
    | nil => exact fun x hx => nomatch hx
    | cons a l ih =>
      have htail : ∀ x ∈ l, (f x).Sublist (g x) := fun x hx => h x (List.mem_cons_of_mem a hx)
      have hle := (h a List.mem_cons_self).length_le
      have hrest := flatMap_length_le htail
      have hlen := hperm.length_eq
      rw [List.flatMap_cons, List.flatMap_cons] at hperm
      simp only [List.flatMap_cons, List.length_append] at hlen
      have ha : f a = g a := (h a List.mem_cons_self).eq_of_length (by omega)
      rw [ha, List.perm_append_left_iff] at hperm
      intro x hx
      rcases List.mem_cons.1 hx with rfl | hx
      · exact ha
      · exact ih htail hperm x hx
  · intro heq
    rw [List.flatMap_congr heq]

/-- Elements that have one of some distinct keys, key by key. -/
theorem filter_any_perm {κ ε : Type} [DecidableEq κ] (key : β → Option κ) (p : ε → Bool)
    (elements : List β) {l : List (κ × ε)} (hnodup : (l.map Prod.fst).Nodup) :
    (elements.filter fun b => l.any fun r => key b = some r.1 && p r.2).Perm
      (l.flatMap fun r => if p r.2 then elements.filter fun b => key b = some r.1 else []) := by
  induction l with
  | nil => simp
  | cons r l ih =>
    rw [List.map_cons, List.nodup_cons] at hnodup
    let here : β → Bool := fun b => key b = some r.1 && p r.2
    let rest : β → Bool := fun b => l.any fun r' => key b = some r'.1 && p r'.2
    have hapart : ∀ b, here b = true → rest b = false := by
      intro b hb
      simp only [here, Bool.and_eq_true, decide_eq_true_eq] at hb
      simp only [rest, List.any_eq_false, Bool.and_eq_true, decide_eq_true_eq]
      rintro r' hr' ⟨hkey, _⟩
      rw [hb.1, Option.some.injEq] at hkey
      exact hnodup.1 (hkey ▸ List.mem_map_of_mem hr')
    have hsplit := List.filter_append_perm here (elements.filter fun b => here b || rest b)
    have hhere : (elements.filter fun b => here b || rest b).filter here =
        if p r.2 then elements.filter fun b => key b = some r.1 else [] := by
      rw [List.filter_filter]
      have habsorb : (fun b => here b && (here b || rest b)) = here := by
        funext b
        cases here b <;> rfl
      rw [habsorb]
      cases hp : p r.2 <;> simp [here, hp]
    have hrest : ((elements.filter fun b => here b || rest b).filter fun b => !here b) =
        elements.filter rest := by
      rw [List.filter_filter]
      refine List.filter_congr fun b _ => ?_
      cases hb : here b with
      | false => simp
      | true => simp [hapart b hb]
    rw [hhere, hrest] at hsplit
    exact hsplit.symm.trans ((ih hnodup.2).append_left _)

end Lists

/-! ## The statement -/

/-- The events that a method is for. -/
def Method.seen : Method → Revents → Bool
  | ._on_read, events => events.read
  | ._on_write, events => events.write

/-- A poll round of epoll: every descriptor is reported once, with events that
were asked for, or with an error. -/
def Polled (s : Registry.St) (round : List (Slot × Revents)) : Prop :=
  (round.map Prod.fst).Nodup ∧
    ∀ r ∈ round, r.2.timeout = false ∧ Events.Subset ⟨r.2.read, r.2.write⟩ (s.fds r.1).events

/-- No callback of the helper is registered. -/
def Foreign (methods : Methods) : Registry.Act → Prop
  | .add_reader _ cb _ _ => methods.callee cb = none
  | .add_writer _ cb _ _ => methods.callee cb = none
  | _ => True

/-- The wait of `select` after some reports. -/
def waiting (methods : Methods) (fileno : Fdobj → Option Slot) (s : Registry.St)
    (read_list write_list : List Fdobj) (reports : List (Slot × Revents)) : St :=
  reports.foldl (report methods) (install methods fileno s read_list write_list).1

/-- The objects of a list whose descriptors were reported ready, each as often
as it is in the list. -/
def ready_objects (fileno : Fdobj → Option Slot) (round : List (Slot × Revents)) (method : Method)
    (fdobjs : List Fdobj) : List Fdobj :=
  fdobjs.filter fun fdobj => round.any fun r => fileno fdobj = some r.1 && method.seen r.2

/-- A descriptor that is to be read has one object of `read_list`, and one that
is to be written has one of `write_list` and is not to be read. -/
def Distinct (fileno : Fdobj → Option Slot) (read_list write_list : List Fdobj)
    (round : List (Slot × Revents)) : Prop :=
  ∀ r ∈ round, (r.2.read = true → (requests fileno read_list r.1).length ≤ 1) ∧
    (r.2.write = true → (requests fileno write_list r.1).length ≤ if r.2.read then 0 else 1)

/-! ## Calls -/

section Calls

variable {methods : Methods} {s : St} {m : Map}

/-- The call of the helper that a report makes. -/
def told (methods : Methods) (m : Map) (r : Slot × Revents) : Option (Method × Fdobj) :=
  if r.2.timeout then none
  else if r.2.read then (m r.1).1.bind methods.callee
  else if r.2.write then (m r.1).2.bind methods.callee
  else none

/-- What a call adds to a list. -/
def Method.heard (method : Method) : Option (Method × Fdobj) → List Fdobj
  | some (called, fdobj) => if called = method then [fdobj] else []
  | none => []

/-- A report calls the helper, which is woken, or leaves it. -/
theorem report_helper (methods : Methods) (h : Represents Set.univ s.registry m) (r : Slot × Revents) :
    (told methods m r = none ∧ (report methods s r).helper = s.helper) ∨
      ∃ called fdobj, told methods m r = some (called, fdobj) ∧
        (report methods s r).helper._event = true ∧
        ∀ method, (report methods s r).helper.ready method =
          s.helper.ready method ++ method.heard (some (called, fdobj)) := by
  have hcall : ∀ callback : Option Callable,
      (callback.bind methods.callee = none ∧ call methods s.helper callback = s.helper) ∨
        ∃ called fdobj, callback.bind methods.callee = some (called, fdobj) ∧
          (call methods s.helper callback)._event = true ∧
          ∀ method, (call methods s.helper callback).ready method =
            s.helper.ready method ++ method.heard (some (called, fdobj)) := by
    intro callback
    unfold call
    rcases callback.bind methods.callee with _ | ⟨called, fdobj⟩
    · exact Or.inl ⟨rfl, rfl⟩
    · refine Or.inr ⟨called, fdobj, rfl, ?_⟩
      cases called with
      | _on_read =>
        refine ⟨rfl, fun method => ?_⟩
        cases method with
        | _on_read => rfl
        | _on_write => exact (List.append_nil _).symm
      | _on_write =>
        refine ⟨rfl, fun method => ?_⟩
        cases method with
        | _on_read => exact (List.append_nil _).symm
        | _on_write => rfl
  obtain ⟨fd, events⟩ := r
  unfold report
  split
  next hreads =>
    have hcbs := h.callbacks_eq (Set.mem_univ fd) ((reads_iff h fd).1 hreads) (none, none)
    unfold fd_callback told
    simp only [hcbs]
    split
    · exact Or.inl ⟨rfl, rfl⟩
    · split
      · exact hcall (m fd).1
      · split
        · exact hcall (m fd).2
        · exact Or.inl ⟨rfl, rfl⟩
  next hreads =>
    rw [reads_iff h fd] at hreads
    have hnone := h.none_of_inactive (Set.mem_univ fd) hreads
    refine Or.inl ⟨?_, rfl⟩
    simp [told, hnone]

theorem report_ready (h : Represents Set.univ s.registry m) (r : Slot × Revents) (method : Method) :
    (report methods s r).helper.ready method =
      s.helper.ready method ++ method.heard (told methods m r) := by
  rcases report_helper methods h r with ⟨hnone, hsame⟩ | ⟨called, fdobj, htold, _, hready⟩
  · rw [hnone, hsame]
    exact (List.append_nil _).symm
  · rw [htold]
    exact hready method

/-- A round that reports each descriptor once adds to the lists what the
callbacks before it are for. -/
theorem round_ready (h : Represents Set.univ s.registry m) {round : List (Slot × Revents)}
    (hnodup : (round.map Prod.fst).Nodup) (method : Method) :
    (round.foldl (report methods) s).helper.ready method =
      s.helper.ready method ++ round.flatMap fun r => method.heard (told methods m r) := by
  induction round generalizing s m with
  | nil => exact (List.append_nil _).symm
  | cons r round ih =>
    rw [List.map_cons, List.nodup_cons] at hnodup
    have hsame : round.flatMap (fun r' => method.heard (told methods (reported m r) r')) =
        round.flatMap fun r' => method.heard (told methods m r') := by
      refine List.flatMap_congr fun r' hr' => ?_
      have hne : r'.1 ≠ r.1 := by
        intro heq
        exact hnodup.1 (heq ▸ List.mem_map_of_mem hr')
      have hmap : reported m r r'.1 = m r'.1 := by
        unfold reported
        split
        · exact Function.update_of_ne hne _ _
        · rfl
      rw [told, told, hmap]
    rw [List.foldl_cons, ih (represents_report methods h r) hnodup.2, hsame,
      report_ready h r method, List.append_assoc, List.flatMap_cons]

/-- As long as the helper is not woken nothing is in the lists. -/
theorem asleep_ready (h : Represents Set.univ s.registry m) {reports : List (Slot × Revents)}
    (hasleep : (reports.foldl (report methods) s).helper._event = false) :
    (reports.foldl (report methods) s).helper = s.helper := by
  induction reports generalizing s m with
  | nil => rfl
  | cons r reports ih =>
    have hrest := ih (represents_report methods h r) hasleep
    rw [List.foldl_cons] at hasleep ⊢
    rw [hrest] at hasleep ⊢
    rcases report_helper methods h r with ⟨_, hsame⟩ | ⟨_, _, _, hwoken, _⟩
    · exact hsame
    · rw [hwoken] at hasleep
      exact absurd hasleep (by decide)

end Calls

/-! ## What is heard of a report -/

/-- A loop to which no callback of the helper was added has none. -/
theorem foreign_after {methods : Methods} {as : List Registry.Act} {m : Map}
    (hm : ∀ (method : Method) (fd : Slot), (method.side (m fd)).bind methods.callee = none)
    (has : ∀ a ∈ as, Foreign methods a) (method : Method) (fd : Slot) :
    (method.side (m.after as fd)).bind methods.callee = none := by
  induction as generalizing m with
  | nil => exact hm method fd
  | cons a as ih =>
    have ha := has a List.mem_cons_self
    refine ih (fun method fd => ?_) fun b hb => has b (List.mem_cons_of_mem a hb)
    have hput : ∀ (x : Slot) (cbs : Callbacks),
        (∀ method : Method, (method.side cbs).bind methods.callee = none) →
          (method.side (Function.update m x cbs fd)).bind methods.callee = none := by
      intro x cbs hcbs
      by_cases hfd : fd = x
      · rw [hfd, Function.update_self]
        exact hcbs method
      · rw [Function.update_of_ne hfd]
        exact hm method fd
    have hor : ∀ {cb₀ : Option Callable} {cb : Callable}, cb₀.bind methods.callee = none →
        methods.callee cb = none → (cb₀.or (some cb)).bind methods.callee = none := by
      intro cb₀ cb h₀ h
      cases cb₀ with
      | none => exact h
      | some _ => exact h₀
    cases a with
    | add_reader x cb _ _ =>
      refine hput x _ fun method => ?_
      cases method with
      | _on_read => exact hor (hm ._on_read x) ha
      | _on_write => exact hm ._on_write x
    | add_writer x cb _ _ =>
      refine hput x _ fun method => ?_
      cases method with
      | _on_read => exact hm ._on_read x
      | _on_write => exact hor (hm ._on_write x) ha
    | remove_reader x _ =>
      refine hput x _ fun method => ?_
      cases method with
      | _on_read => rfl
      | _on_write => exact hm ._on_write x
    | remove_writer x _ =>
      refine hput x _ fun method => ?_
      cases method with
      | _on_read => exact hm ._on_read x
      | _on_write => rfl
    | _ => exact hm method fd

theorem foreign_self_pipe (methods : Methods) (ssock : Slot) (method : Method) (fd : Slot) :
    (method.side (self_pipe ssock fd)).bind methods.callee = none := by
  unfold self_pipe
  by_cases hfd : fd = ssock
  · rw [hfd, Function.update_self]
    cases method with
    | _on_read => exact methods.callee_self_pipe
    | _on_write => rfl
  · rw [Function.update_of_ne hfd, Method.side_none]
    rfl

/-- The events on which `fd_callback` calls a method. -/
def Method.called : Method → Revents → Bool
  | ._on_read, events => events.read
  | ._on_write, events => !events.read && events.write

section Round

variable {methods : Methods} {fileno : Fdobj → Option Slot} {m : Map}
variable {read_list write_list : List Fdobj}

/-- A callback that is there for a descriptor of the lists is that of its first object. -/
theorem callee_side {m₂ : Map} (hr : opens fileno read_list = true)
    (hw : opens fileno write_list = true)
    (hforeign : ∀ (method : Method) (fd : Slot), (method.side (m fd)).bind methods.callee = none)
    (hvacant : ∀ (method : Method), ∀ fd ∈ fds fileno (method.list read_list write_list),
      m fd = (none, none))
    (hm₂ : ∀ fd, m₂ fd = (none, none) ∨ m₂ fd = installed methods fileno m read_list write_list fd)
    (method : Method) {fd : Slot} (hsome : (method.side (m₂ fd)).isSome = true) :
    (method.side (m₂ fd)).bind methods.callee =
      (requests fileno (method.list read_list write_list) fd).head?.map fun fdobj =>
        (method, fdobj) := by
  rcases hm₂ fd with hnone | hinstalled
  · rw [hnone, method.side_none] at hsome
    exact nomatch hsome
  · rw [hinstalled, installed_side methods hr hw]
    by_cases hfd : fd ∈ fds fileno (method.list read_list write_list)
    · rw [hvacant method fd hfd, method.side_none, Option.none_or]
      cases (requests fileno (method.list read_list write_list) fd).head? with
      | none => rfl
      | some fdobj => exact methods.callee_bound method fdobj
    · rw [mem_fds_iff, not_not] at hfd
      rw [hfd, List.head?_nil, Option.map_none, Option.or_none]
      exact hforeign method fd

/-- What a method hears of a report. -/
theorem heard_told {m₂ : Map} {r : Slot × Revents}
    (hcallee : ∀ method : Method, (method.side (m₂ r.1)).isSome = true →
      (method.side (m₂ r.1)).bind methods.callee =
        (requests fileno (method.list read_list write_list) r.1).head?.map fun fdobj =>
          (method, fdobj))
    (htimeout : r.2.timeout = false)
    (hwatched : Events.Subset ⟨r.2.read, r.2.write⟩ (Callbacks.events (m₂ r.1))) (method : Method) :
    method.heard (told methods m₂ r) =
      if method.called r.2 then
        (requests fileno (method.list read_list write_list) r.1).head?.toList
      else [] := by
  have hheard : ∀ (called : Method) (fdobj : Option Fdobj),
      method.heard (fdobj.map fun fdobj => (called, fdobj)) =
        if called = method then fdobj.toList else [] := by
    intro called fdobj
    cases fdobj with
    | none => exact (ite_self _).symm
    | some fdobj => rfl
  unfold told
  rw [htimeout, if_neg Bool.false_ne_true]
  cases hread : r.2.read with
  | true =>
    -- Case: whatever else is ready, the reader is called
    rw [if_pos rfl, show (m₂ r.1).1.bind methods.callee = _ from
      hcallee ._on_read (hwatched.1 hread), hheard]
    cases method <;> simp [Method.called, hread]
  | false =>
    rw [if_neg Bool.false_ne_true]
    cases hwrite : r.2.write with
    | true =>
      rw [if_pos rfl, show (m₂ r.1).2.bind methods.callee = _ from
        hcallee ._on_write (hwatched.2 hwrite), hheard]
      cases method <;> simp [Method.called, hread, hwrite]
    | false => cases method <;> simp [Method.called, Method.heard, hread, hwrite]

/-- The lists after the round that wakes the caller. -/
theorem round_lists {s : Registry.St} (h : Represents Set.univ s m)
    (hr : opens fileno read_list = true) (hw : opens fileno write_list = true)
    (hforeign : ∀ (method : Method) (fd : Slot), (method.side (m fd)).bind methods.callee = none)
    (hvacant : ∀ (method : Method), ∀ fd ∈ fds fileno (method.list read_list write_list),
      m fd = (none, none))
    {earlier round : List (Slot × Revents)}
    (hasleep : (waiting methods fileno s read_list write_list earlier).helper._event = false)
    (hround : Polled (waiting methods fileno s read_list write_list earlier).registry round)
    (method : Method) :
    (waiting methods fileno s read_list write_list (earlier ++ round)).helper.ready method =
      round.flatMap fun r => if method.called r.2 then
        (requests fileno (method.list read_list write_list) r.1).head?.toList
      else [] := by
  have hentered := entered_install methods fileno h read_list write_list
  let t : St := waiting methods fileno s read_list write_list earlier
  -- the map when the round begins
  let m₂ : Map := fun fd =>
    if Fails earlier fd then (none, none) else installed methods fileno m read_list write_list fd
  have hm₂ : ∀ fd,
      m₂ fd = (none, none) ∨ m₂ fd = installed methods fileno m read_list write_list fd := by
    intro fd
    unfold m₂
    split
    · exact Or.inl rfl
    · exact Or.inr rfl
  have hwait : Represents Set.univ t.registry m₂ :=
    (represents_reports methods hentered.represents earlier).1
  have hready₀ : t.helper.ready method = [] := by
    rw [show t.helper = _ from asleep_ready hentered.represents hasleep]
    exact hentered.ready method
  have hheard : ∀ r ∈ round, method.heard (told methods m₂ r) =
      if method.called r.2 then
        (requests fileno (method.list read_list write_list) r.1).head?.toList
      else [] := by
    intro r hmem
    refine heard_told (fun method hsome => ?_) (hround.2 r hmem).1 ?_ method
    · exact callee_side hr hw hforeign hvacant hm₂ method hsome
    · rw [← (hwait.slot r.1 (Set.mem_univ r.1)).events]
      exact (hround.2 r hmem).2
  have hfold : waiting methods fileno s read_list write_list (earlier ++ round) =
      round.foldl (report methods) t := List.foldl_append
  rw [hfold, round_ready hwait hround.1 method, hready₀, List.nil_append]
  exact List.flatMap_congr hheard

end Round

theorem head_sublist {α : Type} (l : List α) : l.head?.toList.Sublist l := by
  cases l with
  | nil => exact List.Sublist.refl _
  | cons a l => exact List.singleton_sublist.2 List.mem_cons_self

theorem head_eq_iff {α : Type} (l : List α) : l.head?.toList = l ↔ l.length ≤ 1 := by
  rcases l with _ | ⟨a, _ | ⟨b, l⟩⟩ <;> simp

/-! ## Main result -/

section Reported

variable {fileno : Fdobj → Option Slot} {read_list write_list : List Fdobj}

/-- What is heard of a report is a part of what is ready. -/
theorem called_sublist (method : Method) (events : Revents) (l : List Fdobj) :
    (if method.called events then l.head?.toList else []).Sublist
      (if method.seen events then l else []) := by
  cases hcalled : method.called events with
  | false => exact List.nil_sublist _
  | true =>
    have hseen : method.seen events = true := by
      cases method with
      | _on_read => exact hcalled
      | _on_write => exact ((Bool.and_eq_true _ _).mp hcalled).2
    rw [hseen]
    exact head_sublist l

/-- All that is ready is heard of when it is one object, read or written. -/
theorem distinct_iff (round : List (Slot × Revents)) :
    Distinct fileno read_list write_list round ↔
      ∀ method : Method, ∀ r ∈ round,
        (if method.called r.2 then
          (requests fileno (method.list read_list write_list) r.1).head?.toList
        else []) =
          if method.seen r.2 then requests fileno (method.list read_list write_list) r.1 else [] := by
  have hread : ∀ (r : Slot × Revents) (l : List Fdobj),
      ((if Method._on_read.called r.2 then l.head?.toList else []) =
        if Method._on_read.seen r.2 then l else []) ↔ (r.2.read = true → l.length ≤ 1) := by
    intro r l
    rw [← head_eq_iff]
    cases hr : r.2.read <;> simp [Method.called, Method.seen, hr]
  have hwrite : ∀ (r : Slot × Revents) (l : List Fdobj),
      ((if Method._on_write.called r.2 then l.head?.toList else []) =
        if Method._on_write.seen r.2 then l else []) ↔
          (r.2.write = true → l.length ≤ if r.2.read then 0 else 1) := by
    intro r l
    cases hr : r.2.read with
    | true => cases hw : r.2.write <;> simp [Method.called, Method.seen, hr, hw, eq_comm]
    | false => cases hw : r.2.write <;> simp [Method.called, Method.seen, hr, hw, head_eq_iff]
  constructor
  · intro hdistinct method r hr
    cases method with
    | _on_read => exact (hread r _).2 (hdistinct r hr).1
    | _on_write => exact (hwrite r _).2 (hdistinct r hr).2
  · intro hall r hr
    exact ⟨(hread r _).1 (hall ._on_read r hr), (hwrite r _).1 (hall ._on_write r hr)⟩

end Reported

/-- The caller of `select` has asked for descriptors that nobody else uses, and
sleeps when a poll round begins. It gets the objects that are ready exactly when
each descriptor that can be read has one object in `read_list`, and each that can
be written one in `write_list` and cannot be read. -/
theorem select_reports_iff (methods : Methods) (fileno : Fdobj → Option Slot) (ssock : Slot)
    (as : List Registry.Act) (s : Registry.St) (has : ∀ a ∈ as, Registers Set.univ a)
    (hforeign : ∀ a ∈ as, Foreign methods a)
    (hrun : run Registry.step (Registry.init ssock) as = some s) (read_list write_list : List Fdobj)
    (hopens : ∀ fdobj ∈ read_list ++ write_list, (fileno fdobj).isSome = true)
    (hvacant : ∀ fd ∈ fds fileno (read_list ++ write_list), active s fd = false)
    (timeout : Option Int) (earlier round : List (Slot × Revents))
    (hasleep : (waiting methods fileno s read_list write_list earlier).helper._event = false)
    (hround : Polled (waiting methods fileno s read_list write_list earlier).registry round) :
    ∃ rlist wlist,
      (select methods fileno s read_list write_list (some timeout) (earlier ++ round) false).2 =
          .returned rlist wlist ∧
        (rlist.Perm (ready_objects fileno round ._on_read read_list) ∧
            wlist.Perm (ready_objects fileno round ._on_write write_list) ↔
          Distinct fileno read_list write_list round) := by
  have h := represents_run (represents_init Set.univ ssock) has hrun
  let m : Map := (self_pipe ssock).after as
  have hr : opens fileno read_list = true :=
    List.all_eq_true.2 fun fdobj hmem => hopens fdobj (List.mem_append_left write_list hmem)
  have hw : opens fileno write_list = true :=
    List.all_eq_true.2 fun fdobj hmem => hopens fdobj (List.mem_append_right read_list hmem)
  have hnone : ∀ (method : Method), ∀ fd ∈ fds fileno (method.list read_list write_list),
      m fd = (none, none) := by
    intro method fd hfd
    refine h.none_of_inactive (Set.mem_univ fd) (ne_true_of_eq_false (hvacant fd ?_))
    rw [fds, List.filterMap_append, List.mem_append]
    cases method with
    | _on_read => exact Or.inl hfd
    | _on_write => exact Or.inr hfd
  let t : St := waiting methods fileno s read_list write_list (earlier ++ round)
  have hperm : ∀ method : Method,
      (t.helper.ready method).Perm
          (ready_objects fileno round method (method.list read_list write_list)) ↔
        ∀ r ∈ round,
          (if method.called r.2 then
            (requests fileno (method.list read_list write_list) r.1).head?.toList
          else []) =
            if method.seen r.2 then requests fileno (method.list read_list write_list) r.1
            else [] := by
    intro method
    have hready := filter_any_perm fileno method.seen (method.list read_list write_list) hround.1
    have hlists := round_lists h hr hw (foreign_after (foreign_self_pipe methods ssock) hforeign)
      hnone hasleep hround method
    rw [hlists, ready_objects, hready.congr_right]
    exact flatMap_perm_iff fun r _ => called_sublist method r.2 _
  have hselect : (select methods fileno s read_list write_list (some timeout) (earlier ++ round)
      false).2 = .returned (t.helper.ready ._on_read) (t.helper.ready ._on_write) := by
    have hraised : ¬ (install methods fileno s read_list write_list).2 = true := by
      rw [(entered_install methods fileno h read_list write_list).raised, hr, hw]
      exact Bool.false_ne_true
    exact congrArg Prod.snd (if_neg hraised)
  refine ⟨_, _, hselect, ?_⟩
  rw [distinct_iff]
  constructor
  · rintro ⟨hread, hwrite⟩ method
    cases method with
    | _on_read => exact (hperm ._on_read).1 hread
    | _on_write => exact (hperm ._on_write).1 hwrite
  · intro hall
    exact ⟨(hperm ._on_read).2 (hall ._on_read), (hperm ._on_write).2 (hall ._on_write)⟩

/-- One socket to read, one to write, and a round in which both are ready. -/
theorem select_reports_iff_both : ∃ rlist wlist,
    (select numbered int_fileno (Registry.init 5) [7] [8] (some none)
        ([] ++ [(7, ⟨true, false, false, false⟩), (8, ⟨false, true, false, false⟩)]) false).2 =
        .returned rlist wlist ∧
      (rlist.Perm (ready_objects int_fileno
            [(7, ⟨true, false, false, false⟩), (8, ⟨false, true, false, false⟩)] ._on_read [7]) ∧
          wlist.Perm (ready_objects int_fileno
            [(7, ⟨true, false, false, false⟩), (8, ⟨false, true, false, false⟩)] ._on_write [8]) ↔
        Distinct int_fileno [7] [8]
          [(7, ⟨true, false, false, false⟩), (8, ⟨false, true, false, false⟩)]) := by
  refine select_reports_iff numbered int_fileno 5 [] _ (fun a ha => nomatch ha)
    (fun a ha => nomatch ha) rfl [7] [8] (by decide) ?_ none [] _ rfl ⟨by decide, ?_⟩
  · have hfds : fds int_fileno ([7] ++ [8]) = [7, 8] := by decide
    rw [hfds, List.forall_mem_cons, List.forall_mem_singleton]
    decide
  · unfold Events.Subset
    decide

/-- A connected socket that is in both lists and can be both read and written:
`wlist` is empty. -/
theorem writable_not_reported :
    (∀ fd ∈ fds int_fileno ([7] ++ [7]), active (Registry.init 5) fd = false) ∧
      (waiting numbered int_fileno (Registry.init 5) [7] [7] []).helper._event = false ∧
      Polled (waiting numbered int_fileno (Registry.init 5) [7] [7] []).registry
        [(7, ⟨true, true, false, false⟩)] ∧
      (select numbered int_fileno (Registry.init 5) [7] [7] (some none)
        [(7, ⟨true, true, false, false⟩)] false).2 = .returned [7] [] ∧
      ¬ ([] : List Fdobj).Perm
        (ready_objects int_fileno [(7, ⟨true, true, false, false⟩)] ._on_write [7]) := by
  refine ⟨?_, rfl, ⟨by decide, ?_⟩, by decide, ?_⟩
  · have hfds : fds int_fileno ([7] ++ [7]) = [7, 7] := by decide
    rw [hfds, List.forall_mem_cons, List.forall_mem_singleton]
    decide
  · unfold Events.Subset
    decide
  · intro hperm
    exact absurd hperm.length_eq (by decide)

end Jega.Select
