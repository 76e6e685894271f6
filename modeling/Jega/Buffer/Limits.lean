import Jega.Buffer.Model
import Jega.Trace.History

/-!
# Jega.Buffer.Limits — what a buffer makes of its writes

A buffer is for the text of all writes up to its limit. `write2buf` has the new
size in `buf_size` before there is a block of it, takes it and the length through
an `int`, and looks at the limit only where it needs a larger block.

## Main result

* `writes_respected_iff`: the exact condition for every call to keep the bounds
  and the text, along every sequence of writes.
-/

namespace Jega.Buffer

open Memory Trace

/-! ## The statement -/

/-- A call of `write2buf`, and whether there is memory for a new block. -/
structure Write where
  c : Bytes
  alloc : Bool

def step (s : buffer_t) (w : Write) : Option buffer_t :=
  (write2buf s w.alloc w.c).map Prod.fst

/-- The accepted writes, in their order. -/
abbrev Accepted := List (List UInt8)

def accept (c : Bytes) (r : buffer_result) (accepted : Accepted) : Accepted :=
  if r = .MEMORY_ERROR then accepted else accepted ++ [c.1]

def note (s : buffer_t) (w : Write) (_ : buffer_t) (accepted : Accepted) : Accepted :=
  match write2buf s w.alloc w.c with
  | some (_, r) => accept w.c r accepted
  | none => accepted

/-- The calls of `write2buf`, with what they accept. -/
abbrev writes : Watched buffer_t Accepted → Write → Option (Watched buffer_t Accepted) :=
  watch step note

/-- The accepted writes, one behind the other, up to the limit. -/
def text (limit : ℕ) (accepted : Accepted) : List UInt8 := accepted.flatten.take limit

/-- What a call returns, and the buffer that it leaves. -/
structure Respects (t : Watched buffer_t Accepted) (c : Bytes) (s : buffer_t)
    (r : buffer_result) : Prop where
  room : s.len < s.buf_size
  block : s.buf_size.toNat = s.buf.length
  limit : s.len ≤ s.limit
  same_limit : s.limit = t.st.limit
  contents : getPyString s = (text t.st.limit.toNat (accept c r t.hist)).map some
  /-- The write is truncated if it goes over the limit. -/
  truncated : r ≠ .MEMORY_ERROR →
    (r = .LIMIT_OVER ↔ t.st.limit.toNat < t.st.len.toNat + c.1.length)
  unchanged : r = .MEMORY_ERROR → s = t.st

/-- The call returns, and does as it should. -/
def Returns (t : Watched buffer_t Accepted) (c : Bytes) : Option (buffer_t × buffer_result) → Prop
  | some (s, r) => Respects t c s r
  | none => False

def Respected (t : Watched buffer_t Accepted) (w : Write) : Prop :=
  Returns t w.c (write2buf t.st w.alloc w.c)

/-- How much of `l` bytes is within the limit. -/
def within (s : buffer_t) (l : ℕ) : ℕ := min l (s.limit.toNat - s.len.toNat)

/-- The size that goes through the `int` where twice the size is not enough. -/
def sum (s : buffer_t) (l : ℕ) : ℕ := 2 * s.buf_size.toNat + (s.len.toNat + l) + 1

/-- The `int` cannot hold the size, and what it holds is not above the limit. -/
def Narrowed (s : buffer_t) (l : ℕ) : Prop :=
  2 * s.buf_size.toNat ≤ s.len.toNat + l ∧ 2 ^ 31 ≤ sum s l ∧
    int (BitVec.ofNat 64 (sum s l)) ≤ s.limit

/-- There is memory, and the size is one for which the allocator may have it. -/
def Given (s : buffer_t) (w : Write) : Prop :=
  w.alloc = true ∧
    (s.limit < PY_SSIZE_T_MAX ∨
      if s.len.toNat + w.c.1.length < 2 * s.buf_size.toNat then
        2 * s.buf_size.toNat ≤ PY_SSIZE_T_MAX.toNat
      else sum s w.c.1.length < 2 ^ 31)

instance (s : buffer_t) (l : ℕ) : Decidable (Narrowed s l) :=
  inferInstanceAs (Decidable (_ ∧ _ ∧ _))

instance (s : buffer_t) (w : Write) : Decidable (Given s w) :=
  inferInstanceAs (Decidable (_ ∧ _))

/-- The write fits within the limit, or a block for it is to be had. -/
def Sound (s : buffer_t) (w : Write) : Prop :=
  s.len.toNat + w.c.1.length < 2 ^ 64 ∧
    if s.len.toNat + w.c.1.length < s.buf_size.toNat then
      s.len.toNat + w.c.1.length ≤ s.limit.toNat ∧ w.c.1.length < 2 ^ 31
    else if Narrowed s w.c.1.length then
      -- by chance the size is the one that the buffer has
      w.alloc = false ∧ int (BitVec.ofNat 64 (sum s w.c.1.length)) = s.buf_size
    else if Given s w then
      within s w.c.1.length < 2 ^ 31
    else s.buf_size.toNat = s.limit.toNat + 1

instance (s : buffer_t) (w : Write) : Decidable (Sound s w) :=
  inferInstanceAs (Decidable (_ ∧ _))

/-! ## The text -/

theorem length_text (limit : ℕ) (accepted : Accepted) :
    (text limit accepted).length = min limit accepted.flatten.length := List.length_take

/-- Of one more write what is left of the limit is taken. -/
theorem text_concat (limit : ℕ) (accepted : Accepted) (c : List UInt8) :
    text limit (accepted ++ [c]) =
      text limit accepted ++ c.take (limit - (text limit accepted).length) := by
  have hleft : limit - accepted.flatten.length = limit - (text limit accepted).length := by
    rw [length_text]
    omega
  rw [text, List.flatten_append, List.flatten_singleton, List.take_append, hleft]
  rfl

/-- The buffer is within its bounds, and has the text of what was accepted. -/
structure Good (t : Watched buffer_t Accepted) : Prop where
  room : t.st.len.toNat < t.st.buf_size.toNat
  block : t.st.buf_size.toNat = t.st.buf.length
  size : t.st.buf_size.toNat ≤ 2 ^ 63 - 1
  limit : t.st.len.toNat ≤ t.st.limit.toNat
  contents : Holds t.st.buf (text t.st.limit.toNat t.hist)
  len : t.st.len.toNat = (text t.st.limit.toNat t.hist).length

theorem length_getPyString {s : buffer_t} (h : s.len.toNat ≤ s.buf.length) :
    (getPyString s).length = s.len.toNat := by
  rw [getPyString, List.length_take, Nat.min_eq_left h]

/-- A call that is respected leaves a good buffer. -/
theorem Respects.good {t : Watched buffer_t Accepted} {c : Bytes} {s : buffer_t}
    {r : buffer_result} (h : Respects t c s r) (hsize : s.buf_size.toNat ≤ 2 ^ 63 - 1) :
    Good ⟨s, accept c r t.hist⟩ := by
  have hroom := BitVec.lt_def.1 h.room
  have hlen : s.len.toNat = (text s.limit.toNat (accept c r t.hist)).length := by
    have hlength := congrArg List.length h.contents
    rw [length_getPyString (by rw [← h.block]; exact Nat.le_of_lt hroom), List.length_map] at hlength
    rw [h.same_limit]
    exact hlength
  refine ⟨hroom, h.block, hsize, BitVec.le_def.1 h.limit, ?_, hlen⟩
  show s.buf.take (text s.limit.toNat (accept c r t.hist)).length = _
  rw [← hlen, h.same_limit]
  exact h.contents

/-! ## The copy -/

/-- A length goes through the `int` unharmed if it is below 2³¹. -/
theorem len_iff {len k : size_t} (h : len.toNat + k.toNat < 2 ^ 63) :
    (len + int k).toNat = len.toNat + k.toNat ↔ k.toNat < 2 ^ 31 := by
  have hint := int_ofNat k.toNat
  rw [BitVec.ofNat_toNat, BitVec.setWidth_eq] at hint
  rw [BitVec.toNat_add]
  rcases hint with ⟨hlt, heq⟩ | ⟨hge, hneg⟩ | ⟨hge, hlow, _⟩
  · rw [heq]
    exact iff_of_true (Nat.mod_eq_of_lt (by omega)) hlt
  · refine iff_of_false ?_ (by omega)
    intro heq
    omega
  · refine iff_of_false ?_ (by omega)
    intro heq
    omega

section Store

variable {t : Watched buffer_t Accepted} {c : Bytes} {block : Block UInt8} {buf_size newl : size_t}

/-- What is stored of a write that is accepted. -/
theorem text_accept (hg : Good t) {r : buffer_result} (hr : r ≠ .MEMORY_ERROR) :
    text t.st.limit.toNat (accept c r t.hist) =
      text t.st.limit.toNat t.hist ++ c.1.take (within t.st c.1.length) := by
  rw [accept, if_neg hr, text_concat, ← hg.len, within, List.take_eq_take_min, Nat.min_comm]

/-- What a write leaves that was not refused, if `k` bytes of it were copied. -/
theorem respects_iff {k : ℕ} {len : size_t} {r : buffer_result} (hg : Good t)
    (hr : r ≠ .MEMORY_ERROR) (hblock : block.length = buf_size.toNat)
    (hholds : Holds block (text t.st.limit.toNat t.hist ++ c.1.take k))
    (hk : t.st.len.toNat + within t.st c.1.length < buf_size.toNat → within t.st c.1.length ≤ k) :
    Respects t c ⟨block, buf_size, len, t.st.limit⟩ r ↔
      len.toNat = t.st.len.toNat + within t.st c.1.length ∧ len.toNat < buf_size.toNat ∧
      (r = .LIMIT_OVER ↔ t.st.limit.toNat < t.st.len.toNat + c.1.length) := by
  have hwithin : within t.st c.1.length ≤ c.1.length := Nat.min_le_left _ _
  have hlimit : t.st.len.toNat + within t.st c.1.length ≤ t.st.limit.toNat := by
    have hle := hg.limit
    rw [within]
    omega
  have htext := text_accept (c := c) hg hr
  have hlength : (text t.st.limit.toNat (accept c r t.hist)).length =
      t.st.len.toNat + within t.st c.1.length := by
    rw [htext, List.length_append, List.length_take, Nat.min_eq_left hwithin, hg.len]
  constructor
  · intro h
    have hroom : len.toNat < buf_size.toNat := BitVec.lt_def.1 h.room
    have hcontents := congrArg List.length h.contents
    rw [length_getPyString (by rw [hblock]; exact Nat.le_of_lt hroom), List.length_map,
      hlength] at hcontents
    exact ⟨hcontents, hroom, h.truncated hr⟩
  · rintro ⟨hlen, hroom, htrunc⟩
    refine ⟨BitVec.lt_def.2 hroom, hblock.symm, BitVec.le_def.2 ?_, rfl, ?_, fun _ => htrunc,
      fun h => absurd h hr⟩
    · show len.toNat ≤ t.st.limit.toNat
      omega
    · have hle := hk (by omega)
      have hcut : len.toNat = (text t.st.limit.toNat t.hist).length + within t.st c.1.length := by
        rw [hlen, hg.len]
      show block.take len.toNat = _
      rw [hholds.take, hcut, htext, List.take_length_add_append, List.take_take,
        Nat.min_eq_left hle]
      rw [hcut, List.length_append, List.length_take]
      omega

/-- What `memcpy` leaves of a write that was not refused. -/
theorem copied_iff {k : size_t} {r : buffer_result} (hg : Good t) (hr : r ≠ .MEMORY_ERROR)
    (hblock : block.length = buf_size.toNat)
    (hholds : Holds block (text t.st.limit.toNat t.hist)) (hc : k.toNat ≤ c.1.length)
    (hin : t.st.len.toNat + k.toNat < buf_size.toNat)
    (hk : t.st.len.toNat + within t.st c.1.length < buf_size.toNat →
      within t.st c.1.length ≤ k.toNat) :
    Returns t c ((memcpy block t.st.len.toNat c.1 k.toNat).map fun b =>
        (⟨b, buf_size, t.st.len + int k, t.st.limit⟩, r)) ↔
      (t.st.len + int k).toNat = t.st.len.toNat + within t.st c.1.length ∧
      (t.st.len + int k).toNat < buf_size.toNat ∧
      (r = .LIMIT_OVER ↔ t.st.limit.toNat < t.st.len.toNat + c.1.length) := by
  have hfits : t.st.len.toNat + k.toNat ≤ block.length := by omega
  obtain ⟨block', hcopy, hlength⟩ := memcpy_eq_some hfits hc
  have hholds' : Holds block' (text t.st.limit.toNat t.hist ++ c.1.take k.toNat) := by
    rw [hg.len] at hcopy
    exact hholds.memcpy hcopy
  rw [hcopy, Option.map_some]
  exact respects_iff hg hr (hlength.trans hblock) hholds' hk

/-- The write is all copied. -/
theorem store_whole_iff (hg : Good t) (hblock : block.length = buf_size.toNat)
    (hholds : Holds block (text t.st.limit.toNat t.hist)) (hsize : buf_size.toNat ≤ 2 ^ 63 - 1)
    (hnewl : newl.toNat = t.st.len.toNat + c.1.length) (hfits : newl.toNat < buf_size.toNat) :
    Returns t c (store ⟨block, buf_size, t.st.len, t.st.limit⟩ c newl) ↔
      t.st.len.toNat + c.1.length ≤ t.st.limit.toNat ∧ c.1.length < 2 ^ 31 := by
  have hlimit := hg.limit
  have hl := toNat_l c
  have hover : ¬ newl ≥ buf_size := by
    rw [ge_iff_le, BitVec.le_def]
    omega
  have hlen : (t.st.len + int c.l).toNat = t.st.len.toNat + c.l.toNat ↔ c.l.toNat < 2 ^ 31 :=
    len_iff (by omega)
  have hk : within t.st c.1.length ≤ c.l.toNat := by
    rw [hl]
    exact Nat.min_le_left _ _
  have hr : buffer_result.WRITE_OK ≠ .MEMORY_ERROR := by decide
  unfold store
  simp only [if_neg hover]
  rw [copied_iff hg hr hblock hholds (by omega) (by omega) fun _ => hk, within]
  constructor
  · rintro ⟨heq, hroom, htrunc⟩
    have hle : t.st.len.toNat + c.1.length ≤ t.st.limit.toNat := by
      by_contra hgt
      have hcut := htrunc.2 (Nat.lt_of_not_le hgt)
      cases hcut
    have hint := hlen.1 (by omega)
    exact ⟨hle, by omega⟩
  · rintro ⟨hle, hint⟩
    have heq := hlen.2 (by omega)
    exact ⟨by omega, by omega, iff_of_false (by decide) (by omega)⟩

/-- The write is copied up to the end of the block. -/
theorem store_cut_iff (hg : Good t) (hblock : block.length = max buf_size.toNat 1)
    (hholds : t.st.len.toNat < buf_size.toNat → Holds block (text t.st.limit.toNat t.hist))
    (hsize : buf_size.toNat ≤ 2 ^ 63 - 1)
    (hnewl : newl.toNat = t.st.len.toNat + c.1.length) (hover : buf_size.toNat ≤ newl.toNat)
    (hmax : buf_size.toNat ≤ t.st.limit.toNat + 1) :
    Returns t c (store ⟨block, buf_size, t.st.len, t.st.limit⟩ c newl) ↔
      buf_size.toNat = t.st.limit.toNat + 1 ∧ within t.st c.1.length < 2 ^ 31 := by
  have hlimit := hg.limit
  have hover' : newl ≥ buf_size := BitVec.le_def.2 hover
  have hone : (1 : size_t).toNat = 1 := rfl
  unfold store
  simp only [if_pos hover']
  by_cases hroom : t.st.len.toNat < buf_size.toNat
  · -- Case: there is room for some of it
    have hleft : (buf_size - t.st.len - 1).toNat = buf_size.toNat - 1 - t.st.len.toNat := by
      rw [BitVec.toNat_sub, BitVec.toNat_sub]
      omega
    have hlen : (t.st.len + int (buf_size - t.st.len - 1)).toNat =
        t.st.len.toNat + (buf_size - t.st.len - 1).toNat ↔
        (buf_size - t.st.len - 1).toNat < 2 ^ 31 := len_iff (by omega)
    have hblock' : block.length = buf_size.toNat := by omega
    have hr : buffer_result.LIMIT_OVER ≠ .MEMORY_ERROR := by decide
    rw [copied_iff hg hr hblock' (hholds hroom) (by omega) (by omega) fun h => by omega, within]
    constructor
    · rintro ⟨heq, hlt, htrunc⟩
      have hgt := htrunc.1 rfl
      have hfull : buf_size.toNat = t.st.limit.toNat + 1 := by omega
      have hint := hlen.1 (by omega)
      exact ⟨hfull, by omega⟩
    · rintro ⟨hfull, hint⟩
      have heq := hlen.2 (by omega)
      exact ⟨by omega, by omega, iff_of_true rfl (by omega)⟩
  · -- Case: the block ends before the text, and the difference is a huge size
    have hleft : t.st.len.toNat + (buf_size - t.st.len - 1).toNat =
        2 ^ 64 + buf_size.toNat - 1 := by
      have hlt := t.st.len.isLt
      rw [BitVec.toNat_sub, BitVec.toNat_sub]
      omega
    rw [memcpy_eq_none (by omega), Option.map_none]
    exact iff_of_false id (fun h => by omega)

/-- The length does not fit into a size, and the block is too small for the copy. -/
theorem store_long (hg : Good t) (hlong : 2 ^ 64 ≤ t.st.len.toNat + c.1.length)
    (hfits : newl.toNat < t.st.buf_size.toNat) : store t.st c newl = none := by
  have hover : ¬ newl ≥ t.st.buf_size := by
    rw [ge_iff_le, BitVec.le_def]
    omega
  have hblock := hg.block
  have hsize := hg.size
  unfold store
  simp only [if_neg hover, toNat_l]
  rw [memcpy_eq_none (by omega), Option.map_none]

/-- A call without memory has to leave the size. -/
theorem refused_iff (hg : Good t) :
    Respects t c { t.st with buf_size := buf_size } .MEMORY_ERROR ↔ buf_size = t.st.buf_size := by
  constructor
  · intro h
    exact congrArg buffer_t.buf_size (h.unchanged rfl)
  · rintro rfl
    refine ⟨BitVec.lt_def.2 hg.room, hg.block, BitVec.le_def.2 hg.limit, rfl, ?_, ?_, fun _ => rfl⟩
    · show t.st.buf.take t.st.len.toNat = _
      rw [hg.len]
      exact hg.contents
    · intro h
      exact absurd rfl h

end Store

/-! ## The growth -/

section Growth

variable {t : Watched buffer_t Accepted} {w : Write} {newl : size_t}

theorem toNat_PY_SSIZE_T_MAX : PY_SSIZE_T_MAX.toNat = 2 ^ 63 - 1 := by decide

theorem PyMem_Realloc_cases (alloc : Bool) (b : Block UInt8) (size : size_t) :
    (alloc = true ∧ size.toNat ≤ 2 ^ 63 - 1 ∧
      PyMem_Realloc alloc b size = some (realloc b (max size.toNat 1))) ∨
    ((alloc = false ∨ 2 ^ 63 - 1 < size.toNat) ∧ PyMem_Realloc alloc b size = none) := by
  have hle : size ≤ PY_SSIZE_T_MAX ↔ size.toNat ≤ 2 ^ 63 - 1 := by
    rw [BitVec.le_def, toNat_PY_SSIZE_T_MAX]
  unfold PyMem_Realloc
  split
  next h => exact .inl ⟨h.1, hle.1 h.2, rfl⟩
  next h =>
    refine .inr ⟨?_, rfl⟩
    cases alloc with
    | false => exact .inl rfl
    | true => exact .inr (Nat.lt_of_not_le fun hsize => h ⟨rfl, hle.2 hsize⟩)

/-- Twice the size or, where that is not enough, the sum as an `int`, but no more
than the limit needs. -/
theorem toNat_new_size (hg : Good t) {l : ℕ} (hnewl : newl.toNat = t.st.len.toNat + l) :
    (new_size t.st newl).toNat =
      min (if t.st.len.toNat + l < 2 * t.st.buf_size.toNat then 2 * t.st.buf_size.toNat
        else (int (BitVec.ofNat 64 (sum t.st l))).toNat) (t.st.limit.toNat + 1) := by
  have hsize := hg.size
  have htwo : (2 : size_t).toNat = 2 := rfl
  have hone : (1 : size_t).toNat = 1 := rfl
  have hdouble : (t.st.buf_size * 2).toNat = 2 * t.st.buf_size.toNat := by
    rw [BitVec.toNat_mul, htwo, Nat.mul_comm]
    exact Nat.mod_eq_of_lt (by omega)
  have hsum : t.st.buf_size * 2 + newl + 1 = BitVec.ofNat 64 (sum t.st l) := by
    apply BitVec.eq_of_toNat_eq
    rw [BitVec.toNat_add, BitVec.toNat_add, BitVec.toNat_ofNat, hdouble, hnewl, hone, sum]
    omega
  have hclamp : ∀ size : size_t, (if size > t.st.limit then t.st.limit + 1 else size).toNat =
      min size.toNat (t.st.limit.toNat + 1) := by
    intro size
    have hlt := size.isLt
    split
    next h =>
      rw [gt_iff_lt, BitVec.lt_def] at h
      rw [BitVec.toNat_add, hone]
      omega
    next h =>
      rw [gt_iff_lt, BitVec.lt_def] at h
      omega
  unfold new_size
  simp only [hclamp, hsum, BitVec.le_def, hdouble, hnewl]
  congr 1
  split
  · rw [if_neg (by omega)]
  · rw [if_pos (by omega), hdouble]

/-- A call that needs a larger block. -/
theorem grown_iff (hg : Good t) (hnewl : newl.toNat = t.st.len.toNat + w.c.1.length)
    (hgrow : t.st.buf_size.toNat ≤ newl.toNat) :
    Returns t w.c
        (match PyMem_Realloc w.alloc t.st.buf (new_size t.st newl) with
        | none => some ({ t.st with buf_size := new_size t.st newl }, .MEMORY_ERROR)
        | some newbuf =>
          store ⟨newbuf, new_size t.st newl, t.st.len, t.st.limit⟩ w.c newl) ↔
      if w.alloc = true ∧ (new_size t.st newl).toNat ≤ 2 ^ 63 - 1 then
        (newl.toNat < (new_size t.st newl).toNat ∨
          (new_size t.st newl).toNat = t.st.limit.toNat + 1) ∧
        within t.st w.c.1.length < 2 ^ 31
      else (new_size t.st newl).toNat = t.st.buf_size.toNat := by
  have hlimit := hg.limit
  have hroom := hg.room
  have hmax : (new_size t.st newl).toNat ≤ t.st.limit.toNat + 1 := by
    rw [toNat_new_size hg hnewl]
    exact Nat.min_le_right _ _
  rcases PyMem_Realloc_cases w.alloc t.st.buf (new_size t.st newl) with
    ⟨halloc, hsize, heq⟩ | ⟨hno, heq⟩
  · -- Case: there is a new block
    have hholds : t.st.len.toNat < (new_size t.st newl).toNat →
        Holds (realloc t.st.buf (max (new_size t.st newl).toNat 1))
          (text t.st.limit.toNat t.hist) := by
      intro hlt
      rw [hg.len] at hlt hroom
      exact hg.contents.realloc (by rw [← hg.block]; omega) (by omega)
    rw [heq, if_pos ⟨halloc, hsize⟩]
    by_cases hfits : newl.toNat < (new_size t.st newl).toNat
    · have hblock : (realloc t.st.buf (max (new_size t.st newl).toNat 1)).length =
          (new_size t.st newl).toNat := by
        rw [length_realloc]
        omega
      refine (store_whole_iff hg hblock (hholds (by omega)) hsize hnewl hfits).trans ?_
      rw [within]
      omega
    · refine (store_cut_iff hg (length_realloc _ _) hholds hsize hnewl (by omega) hmax).trans ?_
      rw [or_iff_right hfits]
  · -- Case: there is none
    rw [heq, if_neg]
    · refine (refused_iff hg).trans ?_
      rw [BitVec.toNat_inj]
    · rintro ⟨halloc, hsize⟩
      rcases hno with hno | hno
      · rw [halloc] at hno
        cases hno
      · omega

/-- A size that was narrowed is the new size, and too small. -/
theorem Narrowed.new_size (h : Narrowed t.st w.c.1.length) (hg : Good t)
    (hnewl : newl.toNat = t.st.len.toNat + w.c.1.length) :
    new_size t.st newl = int (BitVec.ofNat 64 (sum t.st w.c.1.length)) ∧
      (2 ^ 63 - 1 < (new_size t.st newl).toNat ∨ (new_size t.st newl).toNat ≤ newl.toNat) ∧
      (new_size t.st newl).toNat ≤ t.st.limit.toNat := by
  obtain ⟨hdouble, hsum, hle⟩ := h
  rw [BitVec.le_def] at hle
  have hnew := toNat_new_size hg hnewl
  rw [if_neg (by omega), Nat.min_eq_left (by omega)] at hnew
  refine ⟨BitVec.eq_of_toNat_eq hnew, ?_, by omega⟩
  have hint := int_ofNat (sum t.st w.c.1.length)
  rw [hnew]
  rcases hint with ⟨hlt, _⟩ | ⟨_, hneg⟩ | ⟨_, hlow, hlack⟩
  · omega
  · left
    omega
  · right
    rw [sum] at hlack
    omega

/-- A size that was not narrowed is large enough, or as large as the limit needs. -/
theorem new_size_of_not_narrowed (h : ¬ Narrowed t.st w.c.1.length) (hg : Good t)
    (hnewl : newl.toNat = t.st.len.toNat + w.c.1.length)
    (hgrow : t.st.buf_size.toNat ≤ newl.toNat) :
    (newl.toNat < (new_size t.st newl).toNat ∨
        (new_size t.st newl).toNat = t.st.limit.toNat + 1) ∧
      (w.alloc = true ∧ (new_size t.st newl).toNat ≤ 2 ^ 63 - 1 ↔ Given t.st w) ∧
      ((new_size t.st newl).toNat = t.st.buf_size.toNat ↔
        t.st.buf_size.toNat = t.st.limit.toNat + 1) := by
  have hroom := hg.room
  have hlimit := hg.limit
  have hsize := hg.size
  have hnew := toNat_new_size hg hnewl
  have hint := int_ofNat (sum t.st w.c.1.length)
  unfold Narrowed at h
  unfold Given
  rw [BitVec.le_def] at h
  rw [BitVec.lt_def, toNat_PY_SSIZE_T_MAX]
  by_cases hdouble : t.st.len.toNat + w.c.1.length < 2 * t.st.buf_size.toNat
  · -- Case: twice the size is enough
    rw [if_pos hdouble] at hnew ⊢
    refine ⟨by omega, and_congr_right fun _ => ?_, ?_⟩
    · omega
    · omega
  · -- Case: the size is the sum, or the `int` is above the limit
    rw [if_neg hdouble] at hnew ⊢
    have hsum : sum t.st w.c.1.length =
        2 * t.st.buf_size.toNat + (t.st.len.toNat + w.c.1.length) + 1 := rfl
    refine ⟨by omega, and_congr_right fun _ => ?_, ?_⟩
    · omega
    · omega

/-- The new size against the sum and the limit. -/
theorem grown_sound_iff (hg : Good t) (hnewl : newl.toNat = t.st.len.toNat + w.c.1.length)
    (hgrow : t.st.buf_size.toNat ≤ newl.toNat) :
    (if w.alloc = true ∧ (new_size t.st newl).toNat ≤ 2 ^ 63 - 1 then
      (newl.toNat < (new_size t.st newl).toNat ∨
        (new_size t.st newl).toNat = t.st.limit.toNat + 1) ∧
      within t.st w.c.1.length < 2 ^ 31
    else (new_size t.st newl).toNat = t.st.buf_size.toNat) ↔
      if Narrowed t.st w.c.1.length then
        w.alloc = false ∧ int (BitVec.ofNat 64 (sum t.st w.c.1.length)) = t.st.buf_size
      else if Given t.st w then within t.st w.c.1.length < 2 ^ 31
      else t.st.buf_size.toNat = t.st.limit.toNat + 1 := by
  by_cases hnarrow : Narrowed t.st w.c.1.length
  · have hsize := hg.size
    obtain ⟨heq, hsmall, hle⟩ := hnarrow.new_size hg hnewl
    rw [if_pos hnarrow, ← heq, ← BitVec.toNat_inj]
    cases halloc : w.alloc with
    | false => simp
    | true =>
      -- the copy would be cut before the limit
      refine iff_of_false ?_ (fun h => Bool.false_ne_true h.1.symm)
      split
      next h => omega
      next h =>
        have hmax : ¬ (new_size t.st newl).toNat ≤ 2 ^ 63 - 1 := fun hle => h ⟨rfl, hle⟩
        omega
  · obtain ⟨hlarge, hgiven, hsame⟩ := new_size_of_not_narrowed hnarrow hg hnewl hgrow
    rw [if_neg hnarrow]
    by_cases h : Given t.st w
    · rw [if_pos (hgiven.2 h), if_pos h, and_iff_right hlarge]
    · rw [if_neg (mt hgiven.1 h), if_neg h]
      exact hsame

theorem respected_iff (hg : Good t) : Respected t w ↔ Sound t.st w := by
  have hroom := hg.room
  have hsize := hg.size
  have hlimit := hg.limit
  have hlong := (t.st.len + w.c.l).isLt
  have hnewl : (t.st.len + w.c.l).toNat = (t.st.len.toNat + w.c.1.length) % 2 ^ 64 := by
    rw [BitVec.toNat_add, toNat_l]
  unfold Respected write2buf Sound
  by_cases hfit : t.st.len.toNat + w.c.1.length < 2 ^ 64
  · rw [Nat.mod_eq_of_lt hfit] at hnewl
    rw [and_iff_right hfit]
    by_cases hsmall : t.st.len.toNat + w.c.1.length < t.st.buf_size.toNat
    · -- Case: the block is large enough
      have hfits : (t.st.len + w.c.l).toNat < t.st.buf_size.toNat := by omega
      have hgo : ¬ t.st.len + w.c.l ≥ t.st.buf_size := by
        rw [ge_iff_le, BitVec.le_def]
        omega
      simp only [if_neg hgo, if_pos hsmall]
      exact store_whole_iff hg hg.block.symm hg.contents hsize hnewl hfits
    · -- Case: the block is too small
      have hgrow : t.st.buf_size.toNat ≤ (t.st.len + w.c.l).toNat := by omega
      have hgo : t.st.len + w.c.l ≥ t.st.buf_size := BitVec.le_def.2 hgrow
      simp only [if_pos hgo, if_neg hsmall]
      refine (grown_iff hg hnewl hgrow).trans ?_
      exact grown_sound_iff hg hnewl hgrow
  · -- Case: the length of both is not a size
    have hfits : (t.st.len + w.c.l).toNat < t.st.buf_size.toNat := by
      have hlt := w.c.2
      omega
    have hgo : ¬ t.st.len + w.c.l ≥ t.st.buf_size := by
      rw [ge_iff_le, BitVec.le_def]
      omega
    simp only [if_neg hgo]
    rw [store_long hg (by omega) hfits]
    exact iff_of_false id (fun h => hfit h.1)

end Growth

/-! ## Main result -/

theorem length_store {s s' : buffer_t} {c : Bytes} {newl : size_t} {r : buffer_result}
    (h : store s c newl = some (s', r)) : s'.buf.length = s.buf.length := by
  obtain ⟨block, hcopy, heq⟩ := Option.map_eq_some_iff.1 h
  cases heq
  exact length_memcpy hcopy

/-- No block is larger than what the allocator gives. -/
theorem length_write2buf {s s' : buffer_t} {alloc : Bool} {c : Bytes} {r : buffer_result}
    (h : write2buf s alloc c = some (s', r)) (hs : s.buf.length ≤ 2 ^ 63 - 1) :
    s'.buf.length ≤ 2 ^ 63 - 1 := by
  unfold write2buf at h
  dsimp only at h
  split at h
  · split at h
    next hno =>
      cases h
      exact hs
    next newbuf hnewbuf =>
      rw [length_store h]
      rcases PyMem_Realloc_cases alloc s.buf (new_size s (s.len + c.l)) with
        ⟨_, hsize, heq⟩ | ⟨_, heq⟩
      · rw [hnewbuf, Option.some.injEq] at heq
        rw [heq, length_realloc]
        omega
      · rw [hnewbuf] at heq
        cases heq
  · rw [length_store h]
    exact hs

theorem new_buffer_good {alloc : Bool} {buf_size limit : size_t} {s : buffer_t}
    (h : new_buffer alloc buf_size limit = some s) (hpos : 0 < buf_size) : Good ⟨s, []⟩ := by
  obtain ⟨hbuf_size, hlen, hsize, hlength⟩ := new_buffer_eq_some h
  rw [BitVec.lt_def] at hpos
  rw [BitVec.le_def, toNat_PY_SSIZE_T_MAX] at hsize
  have hzero : s.len.toNat = 0 := congrArg BitVec.toNat hlen
  have hempty : text s.limit.toNat [] = [] := List.take_nil
  have hone : (0 : size_t).toNat = 0 := rfl
  refine ⟨?_, ?_, ?_, ?_, ?_, ?_⟩
  · show s.len.toNat < s.buf_size.toNat
    rw [hzero, hbuf_size]
    omega
  · show s.buf_size.toNat = s.buf.length
    rw [hlength, hbuf_size]
    omega
  · show s.buf_size.toNat ≤ 2 ^ 63 - 1
    rw [hbuf_size]
    exact hsize
  · show s.len.toNat ≤ s.limit.toNat
    omega
  · show Holds s.buf (text s.limit.toNat [])
    rw [hempty]
    exact holds_nil s.buf
  · show s.len.toNat = (text s.limit.toNat []).length
    rw [hempty, hzero]
    rfl

/-- A call that is respected leaves a good buffer. -/
theorem good_step {t t' : Watched buffer_t Accepted} {w : Write} (h : writes t w = some t')
    (hr : Respected t w) (hg : Good t) : Good t' := by
  obtain ⟨hs, hhist⟩ := watch_eq_some.1 h
  obtain ⟨⟨s, r⟩, hcall, heq⟩ := Option.map_eq_some_iff.1 hs
  have hlength := length_write2buf hcall (by rw [← hg.block]; exact hg.size)
  unfold Respected at hr
  rw [hcall] at hr
  have hresp : Respects t w.c s r := hr
  have hgood := hresp.good (by rw [hresp.block]; exact hlength)
  have hnote : t'.hist = accept w.c r t.hist := by
    rw [hhist]
    simp only [note, hcall]
  have heq' : t' = ⟨s, accept w.c r t.hist⟩ := by
    cases t'
    cases heq
    cases hnote
    rfl
  rw [heq']
  exact hgood

/-- Along every sequence of writes to a new buffer, with or without memory for
each, all calls keep the bounds and the text exactly if each fits within the
limit or gets its block, and no `int` is too small. -/
theorem writes_respected_iff {alloc : Bool} {buf_size limit : size_t} {s : buffer_t}
    (hpos : 0 < buf_size) (hnew : new_buffer alloc buf_size limit = some s) (ws : List Write) :
    Steps writes Respected ⟨s, []⟩ ws ↔ Steps step Sound s ws := by
  have hiff : Steps writes Respected ⟨s, []⟩ ws ↔
      Steps writes (fun t w => Sound t.st w) ⟨s, []⟩ ws := by
    refine steps_congr ?_ ?_ (new_buffer_good hnew hpos)
    · intro t w t' h hsound hg
      exact good_step h ((respected_iff hg).2 hsound) hg
    · intro t w hg
      exact respected_iff hg
  exact hiff.trans steps_watch

/-- A buffer that grows up to its limit, is written over it, and has no memory
for what is written then. -/
theorem writes_respected_up_to_limit : ∃ s, new_buffer true 4 10 = some s ∧
    Steps writes Respected ⟨s, []⟩
      [⟨⟨[1, 2, 3], by decide⟩, true⟩, ⟨⟨[4, 5, 6, 7, 8], by decide⟩, true⟩,
        ⟨⟨[9, 10, 11], by decide⟩, true⟩, ⟨⟨[12], by decide⟩, false⟩,
        ⟨⟨[], by decide⟩, false⟩] := by
  have hpos : (0 : size_t) < 4 := by decide
  have hnew : new_buffer true 4 10 = some ⟨[none, none, none, none], 4, 0, 10⟩ := rfl
  refine ⟨_, hnew, (writes_respected_iff hpos hnew _).2 ?_⟩
  decide

/-- Without memory for 17 bytes the buffer has a block of 4 and the size 17, and
the same write goes over the end of the block when it is made again. -/
theorem failed_growth_kept : ∃ s c, new_buffer true 4 100 = some s ∧
    write2buf s false c = some ({ s with buf_size := 17 }, .MEMORY_ERROR) ∧
    s.buf.length = 4 ∧ write2buf { s with buf_size := 17 } true c = none ∧
    ¬ Steps writes Respected ⟨s, []⟩ [⟨c, false⟩] := by
  refine ⟨_, ⟨[1, 2, 3, 4, 5, 6, 7, 8], by decide⟩, rfl, rfl, rfl, rfl, ?_⟩
  intro h
  have hsame : (17 : size_t) = 4 := congrArg buffer_t.buf_size (h.1.unchanged rfl)
  exact absurd hsame (by decide)

end Jega.Buffer
