import Mathlib.Data.List.TakeWhile
import Mathlib.Algebra.Group.Nat.Defs

/-!
# C strings and fixed buffers

A C string is a list of bytes without the terminating zero.  A `Buffer n` is
the content of a `char[n]`, and a `BoundedStr n` the string such an array can
hold, which leaves room for the terminator.  The copying functions of the C
library that the modelled code uses (`snprintf "%s"` and `strncpy` into a
cleared array) all store the longest initial segment that fits.
-/

namespace Cix.Lib

open List

variable {n : Nat}

/-- The part of a byte sequence before its first zero byte: what a `char *`
into that sequence denotes. -/
def cstrAt (bytes : List UInt8) : List UInt8 :=
  bytes.takeWhile (· ≠ 0)

def afterNul (bytes : List UInt8) : List UInt8 :=
  (bytes.dropWhile (· ≠ 0)).tail

structure CStr where
  bytes : List UInt8
  nulFree : (0 : UInt8) ∉ bytes
  deriving DecidableEq, Repr

namespace CStr

@[ext]
theorem ext {left right : CStr} (equal : left.bytes = right.bytes) :
    left = right := by
  cases left
  cases right
  simpa using equal

def ofBytes (bytes : List UInt8) : CStr where
  bytes := cstrAt bytes
  nulFree := by
    intro mem
    have nonzero := mem_takeWhile_imp mem
    simp at nonzero

def ofString (text : String) : CStr :=
  ofBytes (text.toList.map fun c => UInt8.ofNat c.toNat)

instance : Coe String CStr := ⟨ofString⟩

instance : Inhabited CStr := ⟨⟨[], by simp⟩⟩

def empty : CStr := ⟨[], by simp⟩

def length (s : CStr) : Nat := s.bytes.length

theorem ne_zero_of_mem {s : CStr} {byte : UInt8} (mem : byte ∈ s.bytes) : byte ≠ 0 := by
  rintro rfl
  exact s.nulFree mem

@[simp]
theorem ofBytes_bytes (s : CStr) : ofBytes s.bytes = s := by
  apply CStr.ext
  apply takeWhile_eq_self_iff.mpr
  intro byte mem
  simpa using ne_zero_of_mem mem

/-- The longest initial segment that a `char[n]` can hold. -/
def truncate (n : Nat) (s : CStr) : CStr where
  bytes := s.bytes.take (n - 1)
  nulFree := fun mem => s.nulFree (mem_of_mem_take mem)

theorem truncate_of_fits {s : CStr} (fits : s.length < n) : s.truncate n = s := by
  apply CStr.ext
  exact take_of_length_le (by
    have := fits
    simp only [length] at this
    omega)

end CStr

theorem cstrAt_append_zero (s : CStr) (rest : List UInt8) :
    cstrAt (s.bytes ++ 0 :: rest) = s.bytes := by
  unfold cstrAt
  rw [takeWhile_append_of_pos]
  · simp
  · intro byte mem
    simpa using CStr.ne_zero_of_mem mem

theorem afterNul_append_zero (s : CStr) (rest : List UInt8) :
    afterNul (s.bytes ++ 0 :: rest) = rest := by
  unfold afterNul
  rw [dropWhile_append_of_pos]
  · simp
  · intro byte mem
    simpa using CStr.ne_zero_of_mem mem

/-- The content of a `char[n]`. -/
structure Buffer (n : Nat) where
  bytes : List UInt8
  size : bytes.length = n
  deriving DecidableEq, Repr

namespace Buffer

@[ext]
theorem ext {left right : Buffer n} (equal : left.bytes = right.bytes) :
    left = right := by
  cases left
  cases right
  simpa using equal

/-- `memset(buf, 0, n)`. -/
def zero (n : Nat) : Buffer n :=
  ⟨List.replicate n 0, by simp⟩

def ofPrefix (n : Nat) (written : List UInt8) : Buffer n :=
  ⟨(written ++ List.replicate n 0).take n, by simp⟩

theorem ofPrefix_bytes {written : List UInt8} (fits : written.length ≤ n) :
    (ofPrefix n written).bytes = written ++ List.replicate (n - written.length) 0 := by
  simp only [ofPrefix, take_append]
  rw [take_of_length_le fits, take_replicate, Nat.min_eq_left (Nat.sub_le _ _)]

/-- `snprintf(buf, n, "%s", s)` into a cleared array. -/
def ofCStr (n : Nat) (s : CStr) : Buffer n :=
  ofPrefix n (s.truncate n).bytes

theorem ofCStr_bytes {s : CStr} (fits : s.length < n) : (ofCStr n s).bytes =
      s.bytes ++ 0 :: List.replicate (n - s.length - 1) 0 := by
  have lengthLe : s.bytes.length ≤ n := Nat.le_of_lt fits
  rw [ofCStr, CStr.truncate_of_fits fits, ofPrefix_bytes lengthLe]
  have positive : n - s.bytes.length = (n - s.length - 1) + 1 := by
    simp only [CStr.length] at fits ⊢
    omega
  rw [positive, replicate_succ]

def cstr {n : Nat} (buffer : Buffer n) : CStr :=
  CStr.ofBytes buffer.bytes

theorem cstr_ofCStr {s : CStr} (fits : s.length < n) : (ofCStr n s).cstr = s := by
  apply CStr.ext
  change cstrAt (ofCStr n s).bytes = s.bytes
  rw [ofCStr_bytes fits, cstrAt_append_zero]

end Buffer

/-- A string that a `char[n]` holds together with its terminator. -/
structure BoundedStr (n : Nat) where
  str : CStr
  fits : str.length < n
  deriving DecidableEq, Repr

/-! The sizes of the arrays that hold names.  A definition names the proof of its
size, so that no proof stands in it. -/

theorem pos_8 : 0 < 8 := by decide

theorem pos_16 : 0 < 16 := by decide

theorem pos_32 : 0 < 32 := by decide

theorem pos_61 : 0 < 61 := by decide

theorem pos_64 : 0 < 64 := by decide

theorem pos_65 : 0 < 65 := by decide

theorem pos_72 : 0 < 72 := by decide

theorem pos_128 : 0 < 128 := by decide

theorem pos_192 : 0 < 192 := by decide

theorem pos_256 : 0 < 256 := by decide

theorem pos_512 : 0 < 512 := by decide

theorem pos_1024 : 0 < 1024 := by decide

theorem pos_4096 : 0 < 4096 := by decide

namespace BoundedStr

@[ext]
theorem ext {left right : BoundedStr n} (equal : left.str = right.str) :
    left = right := by
  cases left
  cases right
  simpa using equal

/-- `strncpy(field, s, n - 1)` into a cleared field. -/
def store (n : Nat) (positive : 0 < n) (s : CStr) : BoundedStr n where
  str := s.truncate n
  fits := by
    simp only [CStr.length, CStr.truncate, length_take]
    omega

theorem store_str (positive : 0 < n) (held : BoundedStr n) : store n positive held.str = held := by
  apply BoundedStr.ext
  exact CStr.truncate_of_fits held.fits

end BoundedStr

end Cix.Lib
