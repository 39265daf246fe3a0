import Mathlib.Data.List.GetD
import Mathlib.Data.List.TakeWhile
import Mathlib.Tactic

/-!
# NUL-terminated strings and byte buffers

A C string is the list of bytes before its terminator. A `char[cap]` array that
holds a string leaves room for the terminator, so an unterminated array cannot
be built. Byte buffers are lists; a copy never changes a buffer's length.
-/
namespace MeshChat

/-- A `const char *`: the bytes before the terminator, none of them NUL. -/
structure CStr where
  bytes : List UInt8
  nul_free : 0 ∉ bytes
  deriving DecidableEq

/-- A `char[cap]` array that holds a terminated string. -/
structure CharArray (cap : ℕ) extends CStr where
  fits : bytes.length < cap
  deriving DecidableEq

@[ext] theorem CStr.ext {s t : CStr} (h : s.bytes = t.bytes) : s = t := by
  cases s; cases t; simp_all

@[ext] theorem CharArray.ext {cap : ℕ} {s t : CharArray cap} (h : s.bytes = t.bytes) :
    s = t := by
  cases s; cases t
  congr
  exact CStr.ext h

def strlen (s : CStr) : ℕ := s.bytes.length

/-- `strcmp(s, t) == 0`. -/
def strcmpEq (s t : CStr) : Bool := decide (s.bytes = t.bytes)

/-- The string a reader finds in `bytes` followed by a terminator. -/
def CStr.ofBytes (bytes : List UInt8) : CStr where
  bytes := bytes.takeWhile (· != 0)
  nul_free h := by simpa using List.mem_takeWhile_imp h

/-- `bytes` copied to the front of a `char[cap]` array and terminated there. -/
def CharArray.ofBytes {cap : ℕ} (bytes : List UInt8) (h : bytes.length < cap) :
    CharArray cap where
  toCStr := CStr.ofBytes bytes
  fits := lt_of_le_of_lt (List.takeWhile_prefix _).length_le h

/-- `strncpy(dst, s, sizeof dst - 1)` into a zeroed or then terminated array. -/
def strncpy {cap : ℕ} [NeZero cap] (s : CStr) : CharArray cap where
  bytes := s.bytes.take (cap - 1)
  nul_free h := s.nul_free (List.mem_of_mem_take h)
  fits := by
    have := NeZero.pos cap
    rw [List.length_take]
    omega

@[simp] theorem ofBytes_bytes_of_nul_free {bytes : List UInt8} (h : 0 ∉ bytes) :
    (CStr.ofBytes bytes).bytes = bytes := by
  apply List.takeWhile_eq_self_iff.mpr
  intro b hb
  simpa using ne_of_mem_of_not_mem hb h

/-- Copying a string's own bytes gives the string back. -/
theorem charArray_ofBytes_eq {cap : ℕ} {bytes : List UInt8} (s : CharArray cap)
    (h : bytes.length < cap) (hs : bytes = s.bytes) : CharArray.ofBytes bytes h = s := by
  subst hs
  exact CharArray.ext (ofBytes_bytes_of_nul_free s.nul_free)

/-- A string that fits is copied whole. -/
@[simp] theorem strncpy_self {cap : ℕ} [NeZero cap] (s : CharArray cap) :
    strncpy s.toCStr = s := by
  apply CharArray.ext
  have := s.fits
  exact List.take_of_length_le (by omega)

@[simp] theorem strcmpEq_iff {cap : ℕ} (s t : CharArray cap) :
    strcmpEq s.toCStr t.toCStr = true ↔ s = t := by
  simp only [strcmpEq, decide_eq_true_eq]
  exact ⟨CharArray.ext, fun h => h ▸ rfl⟩

/-- `memcpy(&dst[off], src, n)` with `n` the length of `src`; bytes past the end
of `dst` are not written. -/
def memcpy (dst : List UInt8) (off : ℕ) (src : List UInt8) : List UInt8 :=
  (dst.take off ++ src ++ dst.drop (off + src.length)).take dst.length

@[simp] theorem memcpy_length (dst : List UInt8) (off : ℕ) (src : List UInt8) :
    (memcpy dst off src).length = dst.length := by
  simp only [memcpy, List.length_take, List.length_append, List.length_drop]
  omega

/-- Copying right behind what was copied before extends it. -/
theorem memcpy_take (dst : List UInt8) (off : ℕ) (src : List UInt8)
    (h : off + src.length ≤ dst.length) :
    (memcpy dst off src).take (off + src.length) = dst.take off ++ src := by
  have hoff : (dst.take off).length = off := by simp; omega
  rw [memcpy, List.take_take, min_eq_left h]
  exact List.take_left' (by rw [List.length_append, hoff])

end MeshChat
