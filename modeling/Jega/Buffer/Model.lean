import Jega.Memory.Block

/-!
# Jega.Buffer.Model — the buffer that grows

`buffer.c`. The sizes are numbers of 64 bits, and two of them go through an
`int`. The allocator may have no memory (`alloc`), and never gives a block of
more than `PY_SSIZE_T_MAX` bytes. A call is `none` where `memcpy` leaves the
block.
-/

namespace Jega.Buffer

open Memory

abbrev size_t := BitVec 64

/-- `(int)` of a size, as a size. -/
def int (x : size_t) : size_t := narrow 32 x

def LIMIT_MAX : size_t := 1024 * 1024 * 1024

def PY_SSIZE_T_MAX : size_t := 0x7fffffffffffffff

/-- A string that has its length in a `size_t`. -/
abbrev Bytes := { c : List UInt8 // c.length < 2 ^ 64 }

def Bytes.l (c : Bytes) : size_t := BitVec.ofNat 64 c.1.length

inductive buffer_result where
  | WRITE_OK
  | MEMORY_ERROR
  | LIMIT_OVER
deriving DecidableEq, Repr

structure buffer_t where
  /-- The block that `buf` points to. -/
  buf : Block UInt8
  buf_size : size_t
  len : size_t
  limit : size_t
deriving DecidableEq, Repr

/-- `PyMem_Realloc`. -/
def PyMem_Realloc (alloc : Bool) (b : Block UInt8) (size : size_t) : Option (Block UInt8) :=
  if alloc = true ∧ size ≤ PY_SSIZE_T_MAX then
    -- a size of 0 is taken for 1
    some (realloc b (max size.toNat 1))
  else none

/-- `PyMem_Malloc`. -/
def PyMem_Malloc (alloc : Bool) (size : size_t) : Option (Block UInt8) :=
  PyMem_Realloc alloc [] size

/-- The structure of `alloc_buffer`, all zero. -/
def alloc_buffer : buffer_t := ⟨[], 0, 0, 0⟩

/-- `new_buffer` once it has its structure; `alloc` is about the block. -/
def new_buffer (alloc : Bool) (buf_size limit : size_t) : Option buffer_t :=
  match PyMem_Malloc alloc buf_size with
  | none => none
  | some block =>
    some
      { alloc_buffer with
        buf := block
        buf_size := buf_size
        limit := if limit ≠ 0 then limit else LIMIT_MAX }

/-- The `buf_size` of `write2buf` for which it calls `PyMem_Realloc`. -/
def new_size (buf : buffer_t) (newl : size_t) : size_t :=
  let buf_size := buf.buf_size * 2
  let buf_size := if buf_size ≤ newl then int (buf_size + newl + 1) else buf_size
  if buf_size > buf.limit then buf.limit + 1 else buf_size

/-- `write2buf` from its second test on. -/
def store (buf : buffer_t) (c : Bytes) (newl : size_t) : Option (buffer_t × buffer_result) :=
  let l := if newl ≥ buf.buf_size then buf.buf_size - buf.len - 1 else c.l
  (memcpy buf.buf buf.len.toNat c.1 l.toNat).map fun block =>
    ({ buf with buf := block, len := buf.len + int l },
      if newl ≥ buf.buf_size then .LIMIT_OVER else .WRITE_OK)

/-- `write2buf`, with the string `c` and its length `l`. -/
def write2buf (buf : buffer_t) (alloc : Bool) (c : Bytes) : Option (buffer_t × buffer_result) :=
  let newl := buf.len + c.l
  if newl ≥ buf.buf_size then
    let buf := { buf with buf_size := new_size buf newl }
    match PyMem_Realloc alloc buf.buf buf.buf_size with
    | none => some (buf, .MEMORY_ERROR)
    | some newbuf => store { buf with buf := newbuf } c newl
  else store buf c newl

/-- `getPyString`: the bytes that `PyBytes_FromStringAndSize` copies. -/
def getPyString (buf : buffer_t) : List (Option UInt8) := buf.buf.take buf.len.toNat

/-! ## Sizes -/

theorem toNat_l (c : Bytes) : c.l.toNat = c.1.length := by
  rw [Bytes.l, BitVec.toNat_ofNat]
  exact Nat.mod_eq_of_lt c.2

/-- Below 2³¹ the cast keeps a number. Above, what is left is negative, and so a
size of more than 2⁶⁴ - 2³¹, or lacks some multiple of 2³². -/
theorem int_ofNat (m : ℕ) :
    (m < 2 ^ 31 ∧ (int (BitVec.ofNat 64 m)).toNat = m) ∨
    (2 ^ 31 ≤ m ∧ 2 ^ 64 - 2 ^ 31 ≤ (int (BitVec.ofNat 64 m)).toNat) ∨
    (2 ^ 31 ≤ m ∧ (int (BitVec.ofNat 64 m)).toNat < 2 ^ 31 ∧
      (int (BitVec.ofNat 64 m)).toNat + 2 ^ 32 ≤ m) := by
  have hmod : m % 2 ^ 64 % 2 ^ 32 = m % 2 ^ 32 := Nat.mod_mod_of_dvd m (by decide)
  have h := toNat_narrow (v := 32) (by decide) (BitVec.ofNat 64 m)
  rw [BitVec.toNat_ofNat, hmod] at h
  rw [int, h]
  split <;> omega

theorem new_buffer_eq_some {alloc : Bool} {buf_size limit : size_t} {s : buffer_t}
    (h : new_buffer alloc buf_size limit = some s) :
    s.buf_size = buf_size ∧ s.len = 0 ∧ buf_size ≤ PY_SSIZE_T_MAX ∧
      s.buf.length = max buf_size.toNat 1 := by
  unfold new_buffer PyMem_Malloc PyMem_Realloc at h
  split at h
  · cases h
  next block hblock =>
    obtain ⟨⟨_, hsize⟩, heq⟩ := Option.ite_none_right_eq_some.1 hblock
    rw [Option.some.injEq] at h heq
    subst h
    refine ⟨rfl, rfl, hsize, ?_⟩
    rw [← heq, length_realloc]

end Jega.Buffer
