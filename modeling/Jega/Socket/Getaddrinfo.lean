import Jega.Socket.Addrinfo

/-!
# Jega.Socket.Getaddrinfo — `getaddrinfo` of `socket.c`

The whole call, from its arguments to the entries. The lookups are c-ares and
the services database, and both are parameters: a lookup may answer differently
each time, so the answer depends on the lookups before it. What
`SocketMod_getaddrinfo` hands to the `getaddrinfo` of the module `socket` is an
outcome of its own.

## Main results

* `getaddrinfo_result_exact`: when the call succeeds, which lookups it makes, and
  the entries it gives.
* `service_name_decides`: the entries for a service name have the protocol that
  the name was found for, whatever was asked.
-/

namespace Jega.Socket

/-- A C `int`. -/
abbrev CInt := BitVec 32

def SOCK_STREAM : CInt := 1
def SOCK_DGRAM : CInt := 2
def SOCK_RAW : CInt := 3
def AI_NUMERICHOST : CInt := 4

/-- An exception: of `socket.c`, or raised by a lookup or by a codec. -/
inductive PyErr where
  | gaierror (message : String)
  | error (message : String)
  | TypeError (message : String)
  | raised (n : Nat)
deriving DecidableEq, Repr

/-- The end of a function that returns an object: `none` is `NULL` without an
exception. -/
abbrev Returned (α : Type) := Except (Option PyErr) α

/-! ## Socket types -/

/-- `match_proto`, with the type it stores. -/
def match_proto (proto : CInt) : Except PyErr CInt :=
  if proto ≠ 0 then
    if proto = 6 then .ok SOCK_STREAM
    else if proto = 17 then .ok SOCK_DGRAM
    else .error (.gaierror "ai_socktype not supported")
  else .ok 0

/-- `match_socktype`. -/
def match_socktype (socktype : CInt) : Except PyErr CInt :=
  if socktype ≠ 0 then
    if socktype &&& SOCK_STREAM ≠ 0 ∨ socktype &&& SOCK_DGRAM ≠ 0 ∨ socktype &&& SOCK_RAW ≠ 0 then
      .ok socktype
    else .error (.gaierror "ai_socktype not supported")
  else .ok socktype

/-- `append_addrinfo_result`. -/
def append_addrinfo_result (list : List (Int × Int)) (socktype : CInt) :
    Returned (List (Int × Int)) :=
  if socktype &&& SOCK_STREAM ≠ 0 then .ok (list ++ [(1, 6)])
  else if socktype &&& SOCK_DGRAM ≠ 0 then .ok (list ++ [(2, 17)])
  else if socktype &&& SOCK_RAW ≠ 0 then .ok (list ++ [(3, 0)])
  else .error (some (.gaierror "ai_socktype not supported"))

/-- `getsocktype_list`. -/
def getsocktype_list (socktype proto : CInt) : Returned (List (Int × Int)) :=
  match match_socktype socktype with
  | .error e => .error (some e)
  | .ok r =>
    -- a negative type with one of the bits: no exception is set
    if r.slt 0 then .error none
    else
      match match_proto proto with
      | .error e => .error (some e)
      | .ok s =>
        if (0 : CInt).slt socktype then append_addrinfo_result [] socktype
        else if (0 : CInt).slt proto then append_addrinfo_result [] s
        else
          (append_addrinfo_result [] SOCK_STREAM).bind fun list =>
            (append_addrinfo_result list SOCK_DGRAM).bind fun list =>
              append_addrinfo_result list SOCK_RAW

/-! ## Addresses -/

/-- A call of `async_gethostbyname_ex`. -/
structure Query where
  name : Text
  family : Int
deriving DecidableEq, Repr

/-- The addresses that a call is answered with, after the calls before it. -/
abbrev Answers := List Query → Query → Except PyErr (List Text)

section Hosts

variable (answers : Answers)

/-- `async_gethostbyname_ex`. -/
def async_gethostbyname_ex (log : List Query) (name : Text) (family : Int) :
    Except PyErr (List Text) × List Query :=
  (answers log ⟨name, family⟩, log ++ [⟨name, family⟩])

/-- `append_iplists`. -/
def append_iplists (list iplist : List Text) (check : Bool) : List Text :=
  iplist.foldl (fun list item => if check && list.contains item then list else list ++ [item]) list

/-- `getaddrinfohosts`. -/
def getaddrinfohosts (log : List Query) (name : Text) (family : Int) :
    Except PyErr (List Text) × List Query :=
  if family = AF_UNSPEC then
    let namev4 := if name = [] then "0.0.0.0".toList else name
    match async_gethostbyname_ex answers log namev4 AF_INET with
    | (.error e, log) => (.error e, log)
    | (.ok iplist, log) =>
      let list := append_iplists [] iplist false
      let namev6 := if name = [] then "::1".toList else name
      match async_gethostbyname_ex answers log namev6 AF_INET6 with
      | (.ok iplist, log) => (.ok (append_iplists list iplist true), log)
      | (.error _, log) => (.ok list, log) -- `PyErr_Clear`
  else if family = AF_INET then
    let name := if name = [] then "0.0.0.0".toList else name
    match async_gethostbyname_ex answers log name AF_INET with
    | (.error e, log) => (.error e, log)
    | (.ok iplist, log) => (.ok (append_iplists [] iplist false), log)
  else if family = AF_INET6 then
    let name := if name = [] then "::1".toList else name
    match async_gethostbyname_ex answers log name AF_INET6 with
    | (.error e, log) => (.error e, log)
    | (.ok iplist, log) => (.ok (append_iplists [] iplist false), log)
  else (.error (.error "Not support family"), log)

/-- `getaddrinfo_result`. -/
def getaddrinfo_result {π : Type} (behind : Nat → UInt8) (log : List Query) (name : Text)
    (port : π) (family : Int) (socktype proto : CInt) :
    Returned (List (Addrinfo π)) × List Query :=
  match getsocktype_list socktype proto with
  | .error e => (.error e, log)
  | .ok socktypes =>
    match getaddrinfohosts answers log name family with
    | (.error e, log) => (.error (some e), log)
    | (.ok hosts, log) => (.ok (convert_getaddrifo_result behind hosts socktypes port family), log)

end Hosts

/-! ## Arguments -/

inductive Proto where
  | tcp
  | udp
deriving DecidableEq, Repr

/-- `getservbyname`: the port. -/
abbrev Services := Text → Proto → Option Nat

/-- `getservbyname_socktype`, with what it leaves in `*socktype`. -/
def getservbyname_socktype (getservbyname : Services) (socktype : CInt) (name : Text) :
    Except PyErr (Nat × CInt) :=
  let r : Option Nat × CInt :=
    if socktype = 0 then
      match getservbyname name .tcp with
      | some s => (some s, SOCK_STREAM)
      | none => (getservbyname name .udp, SOCK_DGRAM)
    else if socktype = SOCK_STREAM then (getservbyname name .tcp, socktype)
    else if socktype = SOCK_DGRAM then (getservbyname name .udp, socktype)
    else (none, socktype)
  match r.1 with
  | some s => .ok (s, r.2)
  | none => .error (.error "service/proto not found")

/-- The first argument of `getaddrinfo`, by its type. -/
inductive HostObj where
  | None
  | str (s : Text)
  | bytes (b : Text)
  | other
deriving DecidableEq, Repr

/-- The second one. -/
inductive PortObj where
  | int (n : Int)
  | bytes (b : Text)
  | None
  | other
deriving DecidableEq, Repr

/-- `PyBytes_AsString`, read as a C string. -/
def cstring (b : Text) : Text := b.takeWhile (· ≠ '\x00')

/-- How `SocketMod_getaddrinfo` ends; `origin` is `call_origin_getaddrinfo`. -/
inductive Called where
  | returned (r : Returned (List (Addrinfo Int)))
  | origin

/-- `SocketMod_getaddrinfo`. `encode` is the codec `idna`. -/
def SocketMod_getaddrinfo (answers : Answers) (getservbyname : Services)
    (encode : Text → Except PyErr Text) (behind : Nat → UInt8) (log : List Query)
    (hostObj : HostObj) (portObj : PortObj) (family : Int) (socktype proto flags : CInt) :
    Called × List Query :=
  let fail (e : PyErr) : Called × List Query := (.returned (.error (some e)), log)
  let host : Except PyErr (Option Text) :=
    match hostObj with
    | .None => .ok none
    | .str s => (encode s).map fun idna => some (cstring idna)
    | .bytes b => .ok (some (cstring b))
    | .other => .error (.TypeError "getaddrinfo() argument 1 must be string or None")
  match host with
  | .error e => fail e
  | .ok host =>
    let port : Except PyErr (Option Text × Int) :=
      match portObj with
      | .int n => .ok (none, n)
      | .bytes b => .ok (some (cstring b), 0)
      | .None => .ok (none, 0)
      | .other => .error (.error "Int or String expected")
    match port with
    | .error e => fail e
    | .ok (port, portObj) =>
      match host with
      | none => (.origin, log)
      | some host =>
        if flags &&& AI_NUMERICHOST ≠ 0 then (.origin, log)
        else
          match port with
          | none =>
            let r := getaddrinfo_result answers behind log host portObj family socktype proto
            (.returned r.1, r.2)
          | some port =>
            match getservbyname_socktype getservbyname socktype port with
            | .error e => fail e
            | .ok (portObj, socktype) =>
              let r := getaddrinfo_result answers behind log host (portObj : Int) family socktype proto
              (.returned r.1, r.2)

/-! ## Which types -/

/-- The lowest bit of a type, and the next one. -/
def streams (socktype : CInt) : Bool := socktype.getLsbD 0
def dgrams (socktype : CInt) : Bool := socktype.getLsbD 1

/-- The arguments that `getsocktype_list` takes. -/
def Supported (socktype proto : CInt) : Prop :=
  (proto = 0 ∨ proto = 6 ∨ proto = 17) ∧
    (socktype = 0 ∨ socktype.msb = false ∧ (streams socktype = true ∨ dgrams socktype = true))

instance (socktype proto : CInt) : Decidable (Supported socktype proto) :=
  inferInstanceAs (Decidable (_ ∧ _))

/-- The type for a stream, or else for datagrams. -/
def sort (socktype : CInt) : Int × Int := if streams socktype then (1, 6) else (2, 17)

/-- What it makes of them: the protocol counts only without a type, and without
both there is the stream twice. -/
def wanted (socktype proto : CInt) : List (Int × Int) :=
  if socktype = 0 then
    if proto = 0 then [(1, 6), (2, 17), (1, 6)]
    else if proto = 6 then [(1, 6)]
    else [(2, 17)]
  else [sort socktype]

theorem and_STREAM (x : CInt) : x &&& SOCK_STREAM ≠ 0 ↔ streams x = true := by
  rw [show SOCK_STREAM = BitVec.twoPow 32 0 from rfl, BitVec.and_twoPow, streams]
  cases x.getLsbD 0 <;> decide

theorem and_DGRAM (x : CInt) : x &&& SOCK_DGRAM ≠ 0 ↔ dgrams x = true := by
  rw [show SOCK_DGRAM = BitVec.twoPow 32 1 from rfl, BitVec.and_twoPow, dgrams]
  cases x.getLsbD 1 <;> decide

/-- The raw type has the bits of the other two. -/
theorem and_RAW (x : CInt) : x &&& SOCK_RAW ≠ 0 ↔ streams x = true ∨ dgrams x = true := by
  rw [show SOCK_RAW = SOCK_STREAM ||| SOCK_DGRAM from rfl, BitVec.and_or_distrib_left,
    ← and_STREAM, ← and_DGRAM]
  exact (not_congr BitVec.or_eq_zero_iff).trans Classical.not_and_iff_not_or_not

/-- What `match_socktype` lets pass. -/
def Passes (socktype : CInt) : Prop := socktype = 0 ∨ streams socktype = true ∨ dgrams socktype = true

instance (socktype : CInt) : Decidable (Passes socktype) := inferInstanceAs (Decidable (_ ∨ _))

theorem match_socktype_eq (socktype : CInt) : match_socktype socktype =
    if Passes socktype then .ok socktype
    else .error (.gaierror "ai_socktype not supported") := by
  unfold match_socktype
  simp only [and_STREAM, and_DGRAM, and_RAW]
  by_cases hzero : socktype = 0
  · rw [if_neg (not_not.2 hzero)]
    exact (if_pos (Or.inl hzero)).symm
  · rw [if_pos hzero]
    refine if_congr ?_ rfl rfl
    unfold Passes
    tauto

theorem append_addrinfo_result_eq (list : List (Int × Int)) {socktype : CInt}
    (h : streams socktype = true ∨ dgrams socktype = true) :
    append_addrinfo_result list socktype = .ok (list ++ [sort socktype]) := by
  unfold append_addrinfo_result sort
  simp only [and_STREAM, and_DGRAM]
  by_cases h0 : streams socktype = true
  · rw [if_pos h0, if_pos h0]
  · rw [if_neg h0, if_pos (h.resolve_left h0), if_neg h0]

theorem slt_zero (x : CInt) : x.slt 0 = x.msb := BitVec.slt_zero_eq_msb

theorem zero_slt {x : CInt} (h : x ≠ 0) : (0 : CInt).slt x = !x.msb := by
  have hsle := BitVec.zero_sle_eq_not_msb (x := x)
  have hne : ((0 : CInt) != x) = true := by simpa using Ne.symm h
  rw [BitVec.slt_eq_sle_and_ne, hne, Bool.and_true]
  exact hsle

theorem match_proto_ok_iff {proto s : CInt} : match_proto proto = .ok s ↔
    proto = 0 ∧ s = 0 ∨ proto = 6 ∧ s = SOCK_STREAM ∨ proto = 17 ∧ s = SOCK_DGRAM := by
  unfold match_proto
  by_cases h0 : proto = 0
  · subst h0
    constructor
    · intro h
      cases h
      exact Or.inl ⟨rfl, rfl⟩
    · rintro (⟨-, rfl⟩ | ⟨h, -⟩ | ⟨h, -⟩)
      · rfl
      · exact absurd h (by decide)
      · exact absurd h (by decide)
  · rw [if_pos h0]
    split
    · next h6 =>
      subst h6
      constructor
      · intro h
        cases h
        exact Or.inr (Or.inl ⟨rfl, rfl⟩)
      · rintro (⟨h, -⟩ | ⟨-, rfl⟩ | ⟨h, -⟩)
        · exact absurd h h0
        · rfl
        · exact absurd h (by decide)
    · next h6 =>
      split
      · next h17 =>
        subst h17
        constructor
        · intro h
          cases h
          exact Or.inr (Or.inr ⟨rfl, rfl⟩)
        · rintro (⟨h, -⟩ | ⟨h, -⟩ | ⟨-, rfl⟩)
          · exact absurd h h0
          · exact absurd h h6
          · rfl
      · next h17 =>
        refine iff_of_false (fun h => nomatch h) ?_
        rintro (⟨h, -⟩ | ⟨h, -⟩ | ⟨h, -⟩)
        · exact h0 h
        · exact h6 h
        · exact h17 h

/-- What `getsocktype_list` takes, it makes this list of. -/
theorem getsocktype_list_supported {socktype proto : CInt} (h : Supported socktype proto) :
    getsocktype_list socktype proto = .ok (wanted socktype proto) := by
  obtain ⟨hproto, htype⟩ := h
  by_cases hzero : socktype = 0
  · subst hzero
    rcases hproto with rfl | rfl | rfl
    · decide
    · decide
    · decide
  · obtain ⟨hmsb, hbits⟩ := htype.resolve_left hzero
    obtain ⟨s, hs⟩ : ∃ s, match_proto proto = .ok s := by
      rcases hproto with rfl | rfl | rfl
      · exact ⟨_, match_proto_ok_iff.2 (Or.inl ⟨rfl, rfl⟩)⟩
      · exact ⟨_, match_proto_ok_iff.2 (Or.inr (Or.inl ⟨rfl, rfl⟩))⟩
      · exact ⟨_, match_proto_ok_iff.2 (Or.inr (Or.inr ⟨rfl, rfl⟩))⟩
    have hpass : Passes socktype := Or.inr hbits
    unfold getsocktype_list wanted
    rw [match_socktype_eq, if_pos hpass, hs, if_neg hzero]
    simp only [slt_zero, zero_slt hzero, hmsb, Bool.not_false, if_true, Bool.false_eq_true, if_false]
    exact append_addrinfo_result_eq [] hbits

/-- Whatever else it is given, it fails. -/
theorem getsocktype_list_unsupported {socktype proto : CInt} (h : ¬ Supported socktype proto) :
    ∃ e, getsocktype_list socktype proto = .error e := by
  unfold getsocktype_list
  rw [match_socktype_eq]
  by_cases hpass : Passes socktype
  · rw [if_pos hpass]
    simp only [slt_zero]
    by_cases hmsb : socktype.msb = true
    · rw [if_pos hmsb]
      exact ⟨none, rfl⟩
    · rw [if_neg hmsb]
      cases hs : match_proto proto with
      | error e => exact ⟨some e, rfl⟩
      | ok s =>
        -- everything is supported after all
        refine absurd ⟨?_, ?_⟩ h
        · rcases match_proto_ok_iff.1 hs with ⟨h, -⟩ | ⟨h, -⟩ | ⟨h, -⟩
          · exact Or.inl h
          · exact Or.inr (Or.inl h)
          · exact Or.inr (Or.inr h)
        · rcases hpass with hzero | hbits
          · exact Or.inl hzero
          · exact Or.inr ⟨by simpa using hmsb, hbits⟩
  · rw [if_neg hpass]
    exact ⟨_, rfl⟩

/-! ## Which addresses -/

/-- The name that is looked up. -/
def named (name : Text) (family : Int) : Text :=
  if name = [] then if family = AF_INET then "0.0.0.0".toList else "::1".toList else name

/-- The lookups of a successful call, in their order. -/
def lookups (name : Text) (family : Int) : List Query :=
  (if family = AF_UNSPEC then [AF_INET, AF_INET6]
    else if family = AF_INET ∨ family = AF_INET6 then [family] else []).map
    fun family => ⟨named name family, family⟩

/-- Both answers for `AF_UNSPEC`: the second adds what is new. -/
def merged (first : List Text) (second : Except PyErr (List Text)) : List Text :=
  match second with
  | .ok second => first ++ (second.filter (fun ip => !first.contains ip)).eraseDups
  | .error _ => first

theorem append_iplists_all (list iplist : List Text) :
    append_iplists list iplist false = list ++ iplist := by
  unfold append_iplists
  induction iplist generalizing list with
  | nil => simp
  | cons ip iplist ih =>
    rw [List.foldl_cons]
    simp only [Bool.false_and, Bool.false_eq_true, if_false] at ih ⊢
    rw [ih, List.append_assoc]
    rfl

/-- The addresses that are in the list already are left out, and a new one that
comes twice is added once. -/
theorem append_iplists_new (list iplist : List Text) :
    append_iplists list iplist true =
      list ++ (iplist.filter (fun ip => !list.contains ip)).eraseDups := by
  unfold append_iplists
  induction iplist generalizing list with
  | nil => simp
  | cons ip iplist ih =>
    rw [List.foldl_cons, List.filter_cons]
    by_cases hin : list.contains ip = true
    · -- Case: an old one
      rw [if_pos (by rw [hin]; rfl), ih, if_neg (by rw [hin]; decide)]
    · -- Case: a new one
      have hout : list.contains ip = false := by simpa using hin
      rw [if_neg (by rw [hout]; decide), ih, if_pos (by rw [hout]; rfl), List.eraseDups_cons,
        List.filter_filter, List.append_assoc, List.singleton_append]
      have hfilter : (fun x => !(list ++ [ip]).contains x) =
          fun x => (!x == ip) && !list.contains x := by
        funext x
        by_cases hx : x = ip
        · simp [hx]
        · simp [hx]
      rw [hfilter]

/-- The addresses that the entries are for. For `AF_UNSPEC` the second lookup
need not succeed, and the first one must. -/
inductive Addresses (answers : Answers) (log : List Query) (name : Text) : Int → List Text → Prop where
  | unspec {first : List Text} (h : answers log ⟨named name AF_INET, AF_INET⟩ = .ok first) :
    Addresses answers log name AF_UNSPEC
      (merged first (answers (log ++ [⟨named name AF_INET, AF_INET⟩]) ⟨named name AF_INET6, AF_INET6⟩))
  | inet {first : List Text} (h : answers log ⟨named name AF_INET, AF_INET⟩ = .ok first) :
    Addresses answers log name AF_INET first
  | inet6 {first : List Text} (h : answers log ⟨named name AF_INET6, AF_INET6⟩ = .ok first) :
    Addresses answers log name AF_INET6 first

section Lookups

variable {answers : Answers} {log log' : List Query} {name : Text} {family : Int} {hosts : List Text}

theorem named_inet (name : Text) :
    named name AF_INET = if name = [] then "0.0.0.0".toList else name := rfl

theorem named_inet6 (name : Text) :
    named name AF_INET6 = if name = [] then "::1".toList else name := rfl

/-- A family of its own takes one lookup. -/
theorem one_lookup {name : Text} :
    (match async_gethostbyname_ex answers log name family with
      | (.error e, log) => (.error e, log)
      | (.ok iplist, log) => (Except.ok (append_iplists [] iplist false), log)) = (.ok hosts, log') ↔
      answers log ⟨name, family⟩ = .ok hosts ∧ log' = log ++ [⟨name, family⟩] := by
  unfold async_gethostbyname_ex
  cases answers log ⟨name, family⟩ with
  | error e => simp
  | ok first => simp [append_iplists_all, eq_comm]

/-- `AF_UNSPEC` takes two, and the second may fail. -/
theorem two_lookups {namev4 namev6 : Text} :
    (match async_gethostbyname_ex answers log namev4 AF_INET with
      | (.error e, log) => (.error e, log)
      | (.ok iplist, log) =>
        let list := append_iplists [] iplist false
        match async_gethostbyname_ex answers log namev6 AF_INET6 with
        | (.ok iplist, log) => (Except.ok (append_iplists list iplist true), log)
        | (.error _, log) => (.ok list, log)) = (.ok hosts, log') ↔
      (∃ first, answers log ⟨namev4, AF_INET⟩ = .ok first ∧
        hosts = merged first (answers (log ++ [⟨namev4, AF_INET⟩]) ⟨namev6, AF_INET6⟩)) ∧
        log' = log ++ [⟨namev4, AF_INET⟩, ⟨namev6, AF_INET6⟩] := by
  unfold async_gethostbyname_ex
  cases answers log ⟨namev4, AF_INET⟩ with
  | error e => simp
  | ok first =>
    dsimp only
    cases answers (log ++ [⟨namev4, AF_INET⟩]) ⟨namev6, AF_INET6⟩ with
    | error e => simp [append_iplists_all, merged, eq_comm]
    | ok second => simp [append_iplists_all, append_iplists_new, merged, eq_comm]

theorem getaddrinfohosts_ok_iff : getaddrinfohosts answers log name family = (.ok hosts, log') ↔
    Addresses answers log name family hosts ∧ log' = log ++ lookups name family := by
  unfold getaddrinfohosts lookups
  by_cases hunspec : family = AF_UNSPEC
  · subst hunspec
    rw [if_pos rfl, if_pos rfl, two_lookups]
    refine and_congr ?_ Iff.rfl
    constructor
    · rintro ⟨first, hfirst, rfl⟩
      exact .unspec hfirst
    · intro h
      cases h with
      | unspec hfirst => exact ⟨_, hfirst, rfl⟩
  · rw [if_neg hunspec, if_neg hunspec]
    by_cases hinet : family = AF_INET
    · subst hinet
      rw [if_pos rfl, if_pos (Or.inl rfl), one_lookup]
      refine and_congr ?_ Iff.rfl
      constructor
      · exact .inet
      · intro h
        cases h with
        | inet hfirst => exact hfirst
    · rw [if_neg hinet]
      by_cases hinet6 : family = AF_INET6
      · subst hinet6
        rw [if_pos rfl, if_pos (Or.inr rfl), one_lookup]
        refine and_congr ?_ Iff.rfl
        constructor
        · exact .inet6
        · intro h
          cases h with
          | inet6 hfirst => exact hfirst
      · -- Case: no other family is supported
        rw [if_neg hinet6]
        refine iff_of_false (by simp) ?_
        rintro ⟨h, -⟩
        cases h with
        | unspec _ => exact hunspec rfl
        | inet _ => exact hinet rfl
        | inet6 _ => exact hinet6 rfl

end Lookups

/-! ## The entries -/

section Entries

variable {π : Type}

theorem wanted_ne_nil (socktype proto : CInt) : wanted socktype proto ≠ [] := by
  unfold wanted
  split_ifs <;> simp

theorem mem_wanted {socktype proto : CInt} {s : Int × Int} (h : s ∈ wanted socktype proto) :
    s = (1, 6) ∨ s = (2, 17) := by
  unfold wanted sort at h
  split_ifs at h <;> simp only [List.mem_cons, List.not_mem_nil, or_false] at h <;> tauto

/-- The entries of a list of addresses: with `AF_UNSPEC` all are `AF_INET`. -/
theorem convert_result_eq (behind : Nat → UInt8) (hosts : List Text) {socktypes : List (Int × Int)}
    (hsock : socktypes ≠ []) (port : π) (family : Int) :
    convert_getaddrifo_result behind hosts socktypes port family =
      hosts.flatMap (entries socktypes port (if family = AF_UNSPEC then AF_INET else family)) := by
  unfold convert_getaddrifo_result
  by_cases hunspec : family = AF_UNSPEC
  · subst hunspec
    rw [if_pos rfl]
    cases hosts with
    | nil => rfl
    | cons hitem hosts =>
      rw [convert_unspec hsock, found, is_af_inet_address_true, if_pos rfl]
  · rw [if_neg hunspec, convert, convert_fixed hunspec]
    rfl

/-- For every resolver, and all arguments: the call succeeds exactly if the type
and the protocol are supported and the first lookup for the family succeeds. Then
it has made the lookups of the family, and its entries are those of the wanted
types for each address. Without lookups it fails if the type or the protocol is
not supported, and it never gives a raw socket. -/
theorem getaddrinfo_result_exact (answers : Answers) (behind : Nat → UInt8) (log : List Query)
    (name : Text) (port : π) (family : Int) (socktype proto : CInt) :
    (∀ l log', getaddrinfo_result answers behind log name port family socktype proto = (.ok l, log') ↔
      Supported socktype proto ∧ log' = log ++ lookups name family ∧
        ∃ hosts, Addresses answers log name family hosts ∧
          l = hosts.flatMap (entries (wanted socktype proto) port
            (if family = AF_UNSPEC then AF_INET else family))) ∧
    (¬ Supported socktype proto →
      (getaddrinfo_result answers behind log name port family socktype proto).2 = log) ∧
    ∀ l log', getaddrinfo_result answers behind log name port family socktype proto = (.ok l, log') →
      ∀ r ∈ l, (r.socktype, r.proto) = (1, 6) ∨ (r.socktype, r.proto) = (2, 17) := by
  have hexact : ∀ l log',
      getaddrinfo_result answers behind log name port family socktype proto = (.ok l, log') ↔
      Supported socktype proto ∧ log' = log ++ lookups name family ∧
        ∃ hosts, Addresses answers log name family hosts ∧
          l = hosts.flatMap (entries (wanted socktype proto) port
            (if family = AF_UNSPEC then AF_INET else family)) := by
    intro l log'
    unfold getaddrinfo_result
    by_cases hsupported : Supported socktype proto
    · rw [getsocktype_list_supported hsupported]
      dsimp only
      constructor
      · intro h
        split at h
        · cases h
        · next hosts log'' hhosts =>
          cases h
          obtain ⟨haddresses, hlog⟩ := getaddrinfohosts_ok_iff.1 hhosts
          exact ⟨hsupported, hlog, hosts, haddresses,
            convert_result_eq behind hosts (wanted_ne_nil socktype proto) port family⟩
      · rintro ⟨-, hlog, hosts, haddresses, rfl⟩
        rw [getaddrinfohosts_ok_iff.2 ⟨haddresses, hlog⟩]
        dsimp only
        rw [convert_result_eq behind hosts (wanted_ne_nil socktype proto)]
    · obtain ⟨e, he⟩ := getsocktype_list_unsupported hsupported
      rw [he]
      refine iff_of_false (by simp) ?_
      rintro ⟨h, -⟩
      exact hsupported h
  refine ⟨hexact, ?_, ?_⟩
  · intro hsupported
    obtain ⟨e, he⟩ := getsocktype_list_unsupported hsupported
    unfold getaddrinfo_result
    rw [he]
  · intro l log' h r hr
    obtain ⟨-, -, hosts, -, rfl⟩ := (hexact l log').1 h
    obtain ⟨ip, -, hr⟩ := List.mem_flatMap.1 hr
    obtain ⟨s, hs, rfl⟩ := List.mem_map.1 hr
    exact mem_wanted hs

end Entries

/-! ## Service names -/

/-- The type that a protocol stands for, with the protocol's number. -/
def Proto.kind : Proto → Int × Int
  | .tcp => (1, 6)
  | .udp => (2, 17)

/-- The type that was asked for allows the protocol, and `udp` is not preferred. -/
structure Decided (getservbyname : Services) (name : Text) (socktype : CInt) (p : Proto) :
    Prop where
  supported : socktype = 0 ∨ socktype = SOCK_STREAM ∨ socktype = SOCK_DGRAM
  stream : socktype = SOCK_STREAM → p = .tcp
  dgram : socktype = SOCK_DGRAM → p = .udp
  tcp_first : socktype = 0 → p = .udp → getservbyname name .tcp = none

/-- Without a type the name is looked for under `tcp` first. -/
theorem getservbyname_socktype_ok {getservbyname : Services} {socktype socktype' : CInt}
    {name : Text} {n : Nat}
    (h : getservbyname_socktype getservbyname socktype name = .ok (n, socktype')) :
    ∃ p, getservbyname name p = some n ∧ (∀ proto, wanted socktype' proto = [p.kind]) ∧
      Decided getservbyname name socktype p := by
  have htcp : ∀ proto, wanted SOCK_STREAM proto = [Proto.tcp.kind] := fun _ => rfl
  have hudp : ∀ proto, wanted SOCK_DGRAM proto = [Proto.udp.kind] := fun _ => rfl
  unfold getservbyname_socktype at h
  dsimp only at h
  by_cases hzero : socktype = 0
  · have hdecided (p : Proto) (hp : p = .udp → getservbyname name .tcp = none) :
        Decided getservbyname name socktype p := by
      subst hzero
      exact ⟨Or.inl rfl, nofun, nofun, fun _ => hp⟩
    rw [if_pos hzero] at h
    cases hs : getservbyname name .tcp with
    | some s =>
      rw [hs] at h
      cases h
      exact ⟨.tcp, hs, htcp, hdecided .tcp nofun⟩
    | none =>
      rw [hs] at h
      split at h
      · next s hs' =>
        cases h
        exact ⟨.udp, hs', hudp, hdecided .udp fun _ => hs⟩
      · cases h
  · rw [if_neg hzero] at h
    by_cases hstream : socktype = SOCK_STREAM
    · rw [if_pos hstream] at h
      split at h
      · next s hs' =>
        cases h
        subst hstream
        exact ⟨.tcp, hs', htcp, Or.inr (Or.inl rfl), fun _ => rfl, nofun, nofun⟩
      · cases h
    · rw [if_neg hstream] at h
      by_cases hdgram : socktype = SOCK_DGRAM
      · rw [if_pos hdgram] at h
        split at h
        · next s hs' =>
          cases h
          subst hdgram
          exact ⟨.udp, hs', hudp, Or.inr (Or.inr rfl), nofun, fun _ => rfl, nofun⟩
        · cases h
      · rw [if_neg hdgram] at h
        cases h

/-- All entries for a service name have its port, and the one protocol that the
name was found for: that of the type or, without a type, `tcp` if the name has it
and else `udp`. The protocol that was asked for does not count. -/
theorem service_name_decides {answers : Answers} {getservbyname : Services}
    {encode : Text → Except PyErr Text} {behind : Nat → UInt8} {log log' : List Query}
    {hostObj : HostObj} {b : Text} {family : Int} {socktype proto flags : CInt}
    {l : List (Addrinfo Int)}
    (h : SocketMod_getaddrinfo answers getservbyname encode behind log hostObj (.bytes b) family
      socktype proto flags = (.returned (.ok l), log')) :
    ∃ p n, getservbyname (cstring b) p = some n ∧
      Decided getservbyname (cstring b) socktype p ∧
      ∀ r ∈ l, r.sockaddr.2 = n ∧ (r.socktype, r.proto) = p.kind := by
  unfold SocketMod_getaddrinfo at h
  dsimp only at h
  split at h
  · cases h
  · next host hhost =>
    split at h
    · cases h
    · next host =>
      split at h
      · cases h
      · split at h
        · cases h
        · next n socktype' hserv =>
          obtain ⟨p, hp, hwanted, htcp⟩ := getservbyname_socktype_ok hserv
          refine ⟨p, n, hp, htcp, ?_⟩
          have hresult : getaddrinfo_result answers behind log host (n : Int) family socktype' proto =
              (.ok l, log') := by
            have h1 := (Prod.mk.inj h).1
            have h2 := (Prod.mk.inj h).2
            rw [Called.returned.injEq] at h1
            exact Prod.ext h1 h2
          obtain ⟨-, -, hosts, -, rfl⟩ :=
            ((getaddrinfo_result_exact answers behind log host (n : Int) family socktype' proto).1
              l log').1 hresult
          intro r hr
          obtain ⟨ip, -, hr⟩ := List.mem_flatMap.1 hr
          rw [hwanted, entries, List.map_singleton, List.mem_singleton] at hr
          rw [hr]
          exact ⟨rfl, rfl⟩

/-- A name that is known under `tcp` only, and `udp` is asked for. -/
theorem service_name_decides_tcp : ∃ (p : Proto) (n : Nat),
    (if p = .tcp then some 80 else none) = some n ∧
      ∀ r ∈ [(⟨2, 1, 6, [], (['a'], 80)⟩ : Addrinfo Int)], r.sockaddr.2 = (n : Int) ∧
        (r.socktype, r.proto) = p.kind := by
  have h : SocketMod_getaddrinfo
      (fun _ q => if q.family = AF_INET then .ok [['a']] else .error (.gaierror "no address"))
      (fun _ p => if p = Proto.tcp then some 80 else none) .ok (fun _ => 0) []
      (.bytes ['b']) (.bytes ['h']) AF_UNSPEC 0 17 0 =
      (.returned (.ok [⟨2, 1, 6, [], (['a'], 80)⟩]), [⟨['b'], 2⟩, ⟨['b'], 10⟩]) := rfl
  obtain ⟨p, n, hn, -, hl⟩ := service_name_decides h
  exact ⟨p, n, hn, hl⟩

end Jega.Socket
