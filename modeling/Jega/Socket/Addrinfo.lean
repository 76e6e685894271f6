import Mathlib.Data.List.Basic

/-!
# Jega.Socket.Addrinfo — the entries of `getaddrinfo`

`convert_getaddrifo_result` of `socket.c`, with `is_af_inet_address` of
`lookup.c` and the `inet_ntop4` of c-ares it ends in. The classifier gives
`inet_ntop4` the characters of a literal for the four bytes of an address, and
these are always four bytes that can be formatted. The loop writes the family of
its first entry to the variable it tests.

## Main results

* `convert_unspec`: whatever the classifier, all entries have the family of the
  first address.
* `families_match_iff`: the exact condition for the families to be those of the
  addresses.
-/

namespace Jega.Socket

/-- A Python string that Latin-1 can encode. -/
abbrev Text := List Char

def AF_UNSPEC : Int := 0
def AF_INET : Int := 2
def AF_INET6 : Int := 10

/-! ## The classifier -/

/-- `"%u.%u.%u.%u"` of four bytes. -/
def dotted (src : Nat → UInt8) : Text :=
  Nat.toDigits 10 (src 0).toNat ++ '.' :: Nat.toDigits 10 (src 1).toNat ++
    '.' :: Nat.toDigits 10 (src 2).toNat ++ '.' :: Nat.toDigits 10 (src 3).toNat

/-- `inet_ntop4`, `none` for `ENOSPC`. -/
def inet_ntop4 (src : Nat → UInt8) (size : Nat) : Option Text :=
  let tmp := dotted src
  if tmp.length ≥ size then none else some tmp

/-- What `PyBytes_AsString` of the encoded string points to: its characters, a
terminator, and whatever is behind. -/
def latin_item (ip : Text) (behind : Nat → UInt8) (i : Nat) : UInt8 :=
  if h : i < ip.length then UInt8.ofNat ip[i].toNat
  else if i = ip.length then 0
  else behind (i - ip.length)

/-- `sizeof "255.255.255.255"`. -/
def tmp_size : Nat := 16

/-- `is_af_inet_address`. -/
def is_af_inet_address (behind : Nat → UInt8) (ip : Text) : Bool :=
  (inet_ntop4 (latin_item ip behind) tmp_size).isSome

/-! ## The conversion -/

/-- One entry of the result, with a port of any type. -/
structure Addrinfo (π : Type) where
  family : Int
  socktype : Int
  proto : Int
  canonname : Text
  sockaddr : Text × π
deriving DecidableEq, Repr

section Convert

variable {π : Type} (is_inet : Text → Bool)

/-- One round of the inner loop, on the variable `family` and the list. -/
def convert_sitem (port : π) (hitem : Text) (s : Int × List (Addrinfo π)) (sitem : Int × Int) :
    Int × List (Addrinfo π) :=
  let family :=
    if s.1 = AF_UNSPEC then if is_inet hitem then AF_INET else AF_INET6
    else s.1
  (family, s.2 ++ [⟨family, sitem.1, sitem.2, [], (hitem, port)⟩])

/-- One round of the outer loop. -/
def convert_hitem (socktypes : List (Int × Int)) (port : π) (s : Int × List (Addrinfo π))
    (hitem : Text) : Int × List (Addrinfo π) :=
  socktypes.foldl (convert_sitem is_inet port hitem) s

/-- The two loops, for any classifier. -/
def convert (hosts : List Text) (socktypes : List (Int × Int)) (port : π) (family : Int) :
    List (Addrinfo π) :=
  (hosts.foldl (convert_hitem is_inet socktypes port) (family, [])).2

/-- `convert_getaddrifo_result`. -/
def convert_getaddrifo_result (behind : Nat → UInt8) (hosts : List Text)
    (socktypes : List (Int × Int)) (port : π) (family : Int) : List (Addrinfo π) :=
  convert (is_af_inet_address behind) hosts socktypes port family

/-! ## What it should give -/

/-- A literal as c-ares writes it. -/
def IPv4 (ip : Text) : Prop := ∃ src, ip = dotted src

/-- One entry for each pair, in address-major order, with the family of its own
address. -/
structure FamiliesMatch (hosts : List Text) (socktypes : List (Int × Int)) (port : π)
    (result : List (Addrinfo π)) : Prop where
  entries : result.map (fun r => (r.sockaddr, r.socktype, r.proto)) =
    hosts.flatMap fun ip => socktypes.map fun s => ((ip, port), s.1, s.2)
  inet : ∀ r ∈ result, r.family = AF_INET ↔ IPv4 r.sockaddr.1
  inet6 : ∀ r ∈ result, ¬ IPv4 r.sockaddr.1 → r.family = AF_INET6

/-! ## The loops -/

/-- The entries of one address, all with one family. -/
def entries (socktypes : List (Int × Int)) (port : π) (family : Int) (hitem : Text) :
    List (Addrinfo π) :=
  socktypes.map fun s => ⟨family, s.1, s.2, [], (hitem, port)⟩

variable {is_inet} {socktypes : List (Int × Int)} {port : π} {family : Int}

theorem convert_hitem_cons (sitem : Int × Int) (s : Int × List (Addrinfo π)) (hitem : Text) :
    convert_hitem is_inet (sitem :: socktypes) port s hitem =
      convert_hitem is_inet socktypes port (convert_sitem is_inet port hitem s sitem) hitem := rfl

/-- A family that is given or found stays. -/
theorem convert_hitem_fixed (hfamily : family ≠ AF_UNSPEC) (hitem : Text)
    (acc : List (Addrinfo π)) :
    convert_hitem is_inet socktypes port (family, acc) hitem =
      (family, acc ++ entries socktypes port family hitem) := by
  induction socktypes generalizing acc with
  | nil => simp [convert_hitem, entries]
  | cons sitem socktypes ih =>
    have hround : convert_sitem is_inet port hitem (family, acc) sitem =
        (family, acc ++ [⟨family, sitem.1, sitem.2, [], (hitem, port)⟩]) := by
      simp [convert_sitem, hfamily]
    rw [convert_hitem_cons, hround, ih, entries, entries, List.map_cons, List.append_assoc,
      List.singleton_append]

theorem convert_fixed (hfamily : family ≠ AF_UNSPEC) (hosts : List Text)
    (acc : List (Addrinfo π)) :
    hosts.foldl (convert_hitem is_inet socktypes port) (family, acc) =
      (family, acc ++ hosts.flatMap (entries socktypes port family)) := by
  induction hosts generalizing acc with
  | nil => simp
  | cons hitem hosts ih =>
    rw [List.foldl_cons, convert_hitem_fixed hfamily, ih, List.flatMap_cons, List.append_assoc]

/-- The family that the classifier finds. -/
def found (is_inet : Text → Bool) (hitem : Text) : Int :=
  if is_inet hitem then AF_INET else AF_INET6

theorem found_ne_unspec (hitem : Text) : found is_inet hitem ≠ AF_UNSPEC := by
  unfold found
  split
  · decide
  · decide

/-- The first entry decides the family of the rest. -/
theorem convert_hitem_unspec (hsock : socktypes ≠ []) (hitem : Text) (acc : List (Addrinfo π)) :
    convert_hitem is_inet socktypes port (AF_UNSPEC, acc) hitem =
      (found is_inet hitem, acc ++ entries socktypes port (found is_inet hitem) hitem) := by
  cases socktypes with
  | nil => exact absurd rfl hsock
  | cons sitem socktypes =>
    have hround : convert_sitem is_inet port hitem (AF_UNSPEC, acc) sitem =
        (found is_inet hitem,
          acc ++ [⟨found is_inet hitem, sitem.1, sitem.2, [], (hitem, port)⟩]) := rfl
    rw [convert_hitem_cons, hround, convert_hitem_fixed (found_ne_unspec hitem), entries, entries,
      List.map_cons, List.append_assoc, List.singleton_append]

/-- All entries have the family of the first address. -/
theorem convert_unspec (hsock : socktypes ≠ []) (hitem : Text) (hosts : List Text) :
    convert is_inet (hitem :: hosts) socktypes port AF_UNSPEC =
      (hitem :: hosts).flatMap (entries socktypes port (found is_inet hitem)) := by
  unfold convert
  rw [List.foldl_cons, convert_hitem_unspec hsock, convert_fixed (found_ne_unspec hitem),
    List.nil_append, List.flatMap_cons]

/-- Without socket types there are no entries. -/
theorem convert_no_socktypes (hosts : List Text) :
    convert is_inet hosts [] port family = [] := by
  have hround : ∀ s, hosts.foldl (convert_hitem is_inet [] port) s = s := by
    intro s
    induction hosts with
    | nil => rfl
    | cons hitem hosts ih => exact ih
  unfold convert
  rw [hround]

end Convert

/-! ## The classifier at work -/

theorem length_dotted_lt (src : Nat → UInt8) : (dotted src).length < tmp_size := by
  have hdigits : ∀ b : UInt8, (Nat.toDigits 10 b.toNat).length ≤ 3 := by
    intro b
    have hlt := b.toNat_lt
    exact (Nat.length_toDigits_le_iff (by decide) (by decide)).2 (by omega)
  have h0 := hdigits (src 0)
  have h1 := hdigits (src 1)
  have h2 := hdigits (src 2)
  have h3 := hdigits (src 3)
  simp only [dotted, List.length_append, List.length_cons, tmp_size]
  omega

/-- Any four bytes can be formatted. -/
theorem is_af_inet_address_true (behind : Nat → UInt8) (ip : Text) :
    is_af_inet_address behind ip = true := by
  have hfits : ¬ (dotted (latin_item ip behind)).length ≥ tmp_size :=
    Nat.not_le.2 (length_dotted_lt _)
  rw [is_af_inet_address, inet_ntop4, if_neg hfits]
  rfl

/-- An IPv4 literal has no colon. -/
theorem IPv4.no_colon {ip : Text} (h : IPv4 ip) : ':' ∉ ip := by
  obtain ⟨src, rfl⟩ := h
  have hdigits : ∀ b : UInt8, ':' ∉ Nat.toDigits 10 b.toNat := by
    intro b hmem
    have hdigit := Nat.isDigit_of_mem_toDigits (by decide) (by decide) hmem
    exact absurd hdigit (by decide)
  simp [dotted, hdigits]

/-! ## Main result -/

/-- With `AF_UNSPEC` the entries have the families of their addresses exactly if
there is no entry at all for an address that is not an IPv4 literal. -/
theorem families_match_iff {π : Type} (behind : Nat → UInt8) (hosts : List Text)
    (socktypes : List (Int × Int)) (port : π) :
    FamiliesMatch hosts socktypes port
        (convert_getaddrifo_result behind hosts socktypes port AF_UNSPEC) ↔
      socktypes = [] ∨ ∀ ip ∈ hosts, IPv4 ip := by
  unfold convert_getaddrifo_result
  by_cases hsock : socktypes = []
  · -- Case: no socket type, no entry
    subst hsock
    rw [convert_no_socktypes]
    refine iff_of_true ⟨?_, nofun, nofun⟩ (.inl rfl)
    simp
  · have hresult : convert (is_af_inet_address behind) hosts socktypes port AF_UNSPEC =
        hosts.flatMap (entries socktypes port AF_INET) := by
      cases hosts with
      | nil => rfl
      | cons hitem hosts =>
        rw [convert_unspec hsock, found, is_af_inet_address_true, if_pos rfl]
    rw [hresult]
    have hmem : ∀ r ∈ hosts.flatMap (entries socktypes port AF_INET),
        r.family = AF_INET ∧ r.sockaddr.1 ∈ hosts := by
      intro r hr
      obtain ⟨ip, hip, hr⟩ := List.mem_flatMap.1 hr
      obtain ⟨s, _, rfl⟩ := List.mem_map.1 hr
      exact ⟨rfl, hip⟩
    constructor
    · intro h
      refine .inr fun ip hip => ?_
      -- every address has an entry, and it says `AF_INET`
      obtain ⟨sitem, hsitem⟩ := List.exists_mem_of_ne_nil socktypes hsock
      have hentry : (⟨AF_INET, sitem.1, sitem.2, [], (ip, port)⟩ : Addrinfo π) ∈
          hosts.flatMap (entries socktypes port AF_INET) :=
        List.mem_flatMap.2 ⟨ip, hip, List.mem_map.2 ⟨sitem, hsitem, rfl⟩⟩
      exact (h.inet _ hentry).1 rfl
    · rintro (hnil | hall)
      · exact absurd hnil hsock
      · refine ⟨?_, fun r hr => ?_, fun r hr hnot => ?_⟩
        · simp [List.map_flatMap, entries, Function.comp_def]
        · have hr' := hmem r hr
          exact iff_of_true hr'.1 (hall _ hr'.2)
        · exact absurd (hall _ (hmem r hr).2) hnot

/-- An IPv6 address after an IPv4 address gets `AF_INET`. -/
theorem inet6_address_as_inet : ¬ FamiliesMatch ["127.0.0.1".toList, "::1".toList] [(1, 6)] 80
    (convert_getaddrifo_result (fun _ => 0) ["127.0.0.1".toList, "::1".toList] [(1, 6)] 80
      AF_UNSPEC) := by
  intro h
  have hentry : (⟨AF_INET, 1, 6, [], ("::1".toList, 80)⟩ : Addrinfo Nat) ∈
      convert_getaddrifo_result (fun _ => 0) ["127.0.0.1".toList, "::1".toList] [(1, 6)] 80
        AF_UNSPEC := by
    decide
  have hcolon := ((h.inet _ hentry).1 rfl).no_colon
  exact absurd hcolon (by decide)

end Jega.Socket
