import Kryptan.Machinery.Utf8

/-!
# Core/SecureString — the bytes behind a `CoreSecureStringHandler`

A handler holds a native `SecureString`, reached byte by byte.  Every copy in the Java code is a
loop `AddByte(src.GetByte(i))` over an index range; `copyBytes` is that loop, and
`copyBytes_getLength` and `copyBytes_pred` say what its two uses in the code compute.
-/

namespace Kryptan

/-- The contents of a native `SecureString`. -/
abbrev SecureString := List UInt8

namespace CoreSecureStringHandler

/-- `NewSecureString`. -/
def newSecureString : SecureString := []

/-- `GetLength`. -/
def getLength (s : SecureString) : ℕ := s.length

/-- `GetByte`: a NUL byte outside of the string. -/
def getByte (s : SecureString) (i : ℤ) : UInt8 :=
  if (getLength s : ℤ) ≤ i ∨ i < 0 then 0 else s.getD i.toNat 0

/-- `AddByte`. -/
def addByte (s : SecureString) (c : UInt8) : SecureString := s ++ [c]

/-- `Clear`. -/
def clear (_ : SecureString) : SecureString := []

/-- The loop `for(i = 0; i < n; i++) dst.AddByte(src.GetByte(i))`. -/
def copyBytes (src dst : SecureString) (n : ℕ) : SecureString :=
  (List.range n).foldl (fun acc (i : ℕ) => addByte acc (getByte src i)) dst

/-- `Append(CoreSecureStringHandler)`. -/
def append (s toAppend : SecureString) : SecureString := copyBytes toAppend s (getLength toAppend)

/-- `Append(String)`: the bytes of the text in UTF-8, one by one. -/
def appendString (s : SecureString) (toAppend : List Char) : SecureString :=
  (Utf8.encode toAppend).foldl addByte s

/-! ## What the byte loops compute -/

theorem getByte_natCast (s : SecureString) (i : ℕ) : getByte s i = s.getD i 0 := by
  unfold getByte getLength
  split
  · next h =>
    have hi : s.length ≤ i := by omega
    rw [List.getD_eq_getElem?_getD, List.getElem?_eq_none hi, Option.getD_none]
  · rw [Int.toNat_natCast]

/-- **The byte loop appends a prefix of its source.** -/
theorem copyBytes_eq (src dst : SecureString) {n : ℕ} (h : n ≤ src.length) :
    copyBytes src dst n = dst ++ src.take n := by
  induction n with
  | zero => simp [copyBytes]
  | succ n ih =>
    have hlt : n < src.length := h
    have hstep : copyBytes src dst (n + 1) = addByte (copyBytes src dst n) (getByte src n) := by
      rw [copyBytes, List.range_succ, List.foldl_append]
      rfl
    rw [hstep, ih (Nat.le_of_succ_le h), addByte, getByte_natCast, List.getD_eq_getElem?_getD,
      List.getElem?_eq_getElem hlt, Option.getD_some, List.append_assoc,
      List.take_concat_get' src n hlt]

/-- Run over the whole source, the loop appends it. -/
theorem copyBytes_getLength (src dst : SecureString) :
    copyBytes src dst (getLength src) = dst ++ src := by
  rw [getLength, copyBytes_eq src dst (Nat.le_refl _), List.take_length]

/-- Stopped one byte early, the loop drops the last **byte** of its source. -/
theorem copyBytes_pred (src : SecureString) :
    copyBytes src newSecureString (getLength src - 1) = src.dropLast := by
  rw [getLength, copyBytes_eq src _ (Nat.sub_le _ _), newSecureString, List.nil_append,
    List.dropLast_eq_take]

@[simp] theorem append_eq (s toAppend : SecureString) : append s toAppend = s ++ toAppend :=
  copyBytes_getLength toAppend s

@[simp] theorem appendString_eq (s : SecureString) (toAppend : List Char) :
    appendString s toAppend = s ++ Utf8.encode toAppend := by
  unfold appendString
  induction Utf8.encode toAppend generalizing s with
  | nil => simp
  | cons b bs ih => rw [List.foldl_cons, ih, addByte, List.append_assoc, List.singleton_append]

end CoreSecureStringHandler

end Kryptan
