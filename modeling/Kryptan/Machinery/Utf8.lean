import Mathlib.Algebra.BigOperators.Group.List.Basic
import Mathlib.Algebra.GroupWithZero.Nat
import Mathlib.Algebra.Order.BigOperators.Group.List
import Mathlib.Data.List.Infix
import Mathlib.Logic.Function.Defs

/-!
# Machinery/Utf8 — the bytes of a text, counted per character

A text is a list of Unicode scalar values and `encode` its UTF-8 bytes.  A character takes one to
four bytes, so characters and bytes can be counted interchangeably only on texts of one-byte
characters (`length_encode_eq_iff`), and taking off the last byte takes off the last character only
when that character is one byte long (`dropLast_encode_concat`).  `decode` reads the bytes back
(`decode_encode`), so that a text is known by its bytes (`encode_injective`), and so are its
beginnings (`prefix_of_encode_prefix`).
-/

namespace Kryptan.Utf8

/-- The UTF-8 bytes of a text. -/
def encode (cs : List Char) : List UInt8 := cs.flatMap String.utf8EncodeChar

@[simp] theorem encode_nil : encode [] = [] := rfl

theorem encode_cons (c : Char) (cs : List Char) :
    encode (c :: cs) = String.utf8EncodeChar c ++ encode cs := List.flatMap_cons

@[simp] theorem encode_append (cs ds : List Char) : encode (cs ++ ds) = encode cs ++ encode ds :=
  List.flatMap_append

theorem encode_singleton (c : Char) : encode [c] = String.utf8EncodeChar c := by
  rw [encode_cons, encode_nil, List.append_nil]

/-! ## Counting -/

/-- A character takes at least one byte. -/
theorem length_le_length_encode (cs : List Char) : cs.length ≤ (encode cs).length := by
  induction cs with
  | nil => exact Nat.le_refl 0
  | cons c cs ih =>
    have hc : 0 < c.utf8Size := Char.utf8Size_pos c
    rw [encode_cons, List.length_append, String.length_utf8EncodeChar, List.length_cons]
    omega

/-- **Bytes and characters agree in number exactly on texts of one-byte characters.** -/
theorem length_encode_eq_iff (cs : List Char) :
    (encode cs).length = cs.length ↔ ∀ c ∈ cs, c.utf8Size = 1 := by
  induction cs with
  | nil => simp
  | cons c cs ih =>
    have hc : 0 < c.utf8Size := Char.utf8Size_pos c
    have hcs := length_le_length_encode cs
    rw [encode_cons, List.length_append, String.length_utf8EncodeChar, List.length_cons,
      List.forall_mem_cons, ← ih]
    omega

@[simp] theorem encode_eq_nil_iff {cs : List Char} : encode cs = [] ↔ cs = [] := by
  refine ⟨fun h => List.eq_nil_of_length_eq_zero ?_, fun h => h ▸ encode_nil⟩
  have := length_le_length_encode cs
  rw [h] at this
  exact Nat.le_zero.mp this

/-- **Dropping the last byte drops the last character exactly when that is one byte long.** -/
theorem dropLast_encode_concat (cs : List Char) (c : Char) :
    (encode (cs ++ [c])).dropLast = encode cs ↔ c.utf8Size = 1 := by
  rw [encode_append, encode_singleton]
  constructor
  · intro h
    have hlen := congrArg List.length h
    have hc : 0 < c.utf8Size := Char.utf8Size_pos c
    rw [List.length_dropLast, List.length_append, String.length_utf8EncodeChar] at hlen
    omega
  · intro h
    rw [String.utf8EncodeChar_eq_singleton h, List.dropLast_concat]

/-! ## Reading the bytes back -/

/-- The text whose UTF-8 bytes are given, if there is one. -/
def decode (bs : List UInt8) : Option (List Char) := bs.toByteArray.utf8Decode?.map Array.toList

theorem decode_encode (cs : List Char) : decode (encode cs) = some cs := by
  rw [decode, encode, ← List.utf8Encode, List.utf8Decode?_utf8Encode]
  rfl

/-- **A text is known by its bytes.** -/
theorem encode_injective : Function.Injective encode := fun cs ds h =>
  Option.some.inj ((decode_encode cs).symm.trans ((congrArg decode h).trans (decode_encode ds)))

/-- **Bytes are read back exactly when they are those of a text.** -/
theorem isSome_decode_iff {bs : List UInt8} :
    (decode bs).isSome = true ↔ ∃ cs, encode cs = bs := by
  rw [decode, Option.isSome_map, ByteArray.isSome_utf8Decode?_iff]
  constructor
  · rintro ⟨cs, hcs⟩
    exact ⟨cs, List.toByteArray_inj.mp hcs.symm⟩
  · rintro ⟨cs, rfl⟩
    exact ⟨cs, rfl⟩

/-! ## Taking a text apart -/

/-- **UTF-8 is a prefix code**: a text whose bytes begin those of another begins it. -/
theorem prefix_of_encode_prefix {cs ds : List Char} (h : encode cs <+: encode ds) : cs <+: ds := by
  have hhead (c : Char) (bs : List UInt8) :
      (String.utf8EncodeChar c ++ bs).toByteArray.utf8DecodeChar? 0 = some c := by
    rw [List.toByteArray_append, ByteArray.utf8DecodeChar?_utf8EncodeChar_append]
  induction cs generalizing ds with
  | nil => exact List.nil_prefix
  | cons c cs ih =>
    obtain ⟨r, hr⟩ := h
    cases ds with
    | nil =>
      have hnil : encode (c :: cs) = [] := (List.append_eq_nil_iff.mp hr).1
      exact absurd (encode_eq_nil_iff.mp hnil) (List.cons_ne_nil c cs)
    | cons d ds =>
      rw [encode_cons, encode_cons, List.append_assoc] at hr
      -- both begin with the character that is decoded first
      obtain rfl : c = d := Option.some.inj
        ((hhead c _).symm.trans ((congrArg (·.toByteArray.utf8DecodeChar? 0) hr).trans (hhead d _)))
      exact List.prefix_cons_inj c |>.mpr (ih ⟨r, List.append_cancel_left hr⟩)

/-- **Without its last byte a text is one exactly when its last character is one byte long.** -/
theorem exists_encode_eq_dropLast_iff (cs : List Char) (c : Char) :
    (∃ ds, encode ds = (encode (cs ++ [c])).dropLast) ↔ c.utf8Size = 1 := by
  refine ⟨fun ⟨ds, hds⟩ => ?_, fun h => ⟨cs, ((dropLast_encode_concat cs c).mpr h).symm⟩⟩
  have hc : 0 < c.utf8Size := Char.utf8Size_pos c
  have hlen := congrArg List.length hds
  rw [encode_append, encode_singleton, List.length_dropLast, List.length_append,
    String.length_utf8EncodeChar] at hlen
  have hprefix : ds <+: cs ++ [c] := prefix_of_encode_prefix (hds ▸ List.dropLast_prefix _)
  rcases List.prefix_concat_iff.mp hprefix with rfl | hds'
  · rw [encode_append, encode_singleton, List.length_append, String.length_utf8EncodeChar] at hlen
    omega
  · obtain ⟨r, rfl⟩ := hds'
    rw [encode_append, List.length_append] at hlen
    omega

end Kryptan.Utf8
