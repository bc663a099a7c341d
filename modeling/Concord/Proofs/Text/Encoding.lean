import Concord.Text.Utf8

/-!
# The bytes of a text

A text and its bytes determine each other, and the bytes below 0x80 stand for themselves: such a
byte is never part of the encoding of another character. So a text has a character of ASCII where
its bytes have it, and bytes spell a text whether or not a character of ASCII follows them.

Main statements: `decode?_eq_some_iff`; `mem_encode_iff`; `decode?_concat`.
-/

namespace Concord.Text

theorem encode_push (s : String) (c : Char) :
    encode (s.push c) = encode s ++ String.utf8EncodeChar c := by
  simp [encode]

/-- Bytes spell the text whose encoding they are. -/
theorem decode?_eq_some_iff {bytes : Bytes} {s : String} :
    decode? bytes = some s ↔ encode s = bytes := by
  constructor
  · intro h
    unfold decode? String.fromUTF8? at h
    split at h
    · have hs : s.toByteArray = bytes.toByteArray := by
        rw [← Option.some.inj h]
        rfl
      have hencode : (encode s).toByteArray = s.toByteArray := String.utf8Encode_toList
      have hlist := congrArg (fun bytes => bytes.data.toList) (hencode.trans hs)
      simpa using hlist
    · simp at h
  · rintro rfl
    exact decode?_encode s

theorem encode_injective {s t : String} (h : encode s = encode t) : s = t :=
  Option.some.inj ((decode?_encode s).symm.trans (decode?_eq_some_iff.2 h.symm))

/-! ## ASCII -/

theorem le_toNat_or {a k : UInt8} (hk : 0x80 ≤ k.toNat) : 0x80 ≤ (a ||| k).toNat := by
  rw [UInt8.toNat_or]
  exact Nat.le_trans hk Nat.right_le_or

/-- A byte of ASCII is all of the encoding of a character. -/
theorem utf8EncodeChar_of_mem {b : UInt8} {c : Char} (hb : b.toNat < 0x80)
    (h : b ∈ String.utf8EncodeChar c) : String.utf8EncodeChar c = [b] := by
  have hhigh {a k : UInt8} (hk : 0x80 ≤ k.toNat) : b ≠ a ||| k := by
    rintro rfl
    exact Nat.not_le.2 hb (le_toNat_or hk)
  -- All bytes of a longer encoding have their highest bit set.
  rcases Char.utf8Size_eq c with hsize | hsize | hsize | hsize
  · rw [String.utf8EncodeChar_eq_singleton hsize] at h ⊢
    rw [List.mem_singleton.1 h]
  · rw [String.utf8EncodeChar_eq_cons_cons hsize] at h
    simp [hhigh] at h
  · rw [String.utf8EncodeChar_eq_cons_cons_cons hsize] at h
    simp [hhigh] at h
  · rw [String.utf8EncodeChar_eq_cons_cons_cons_cons hsize] at h
    simp [hhigh] at h

theorem utf8EncodeChar_injective {c d : Char}
    (h : String.utf8EncodeChar c = String.utf8EncodeChar d) : c = d := by
  have hbytes : (String.ofList [c]).toByteArray = (String.ofList [d]).toByteArray := by
    simp [List.utf8Encode_singleton, h]
  have hlist := String.ofList_injective (String.toByteArray_inj.1 hbytes)
  simpa using hlist

section Ascii

variable {b : UInt8} {c : Char} (hb : b.toNat < 0x80) (hc : String.utf8EncodeChar c = [b])
include hb hc

/-- A text has a character of ASCII where its bytes have it. -/
theorem mem_encode_iff {s : String} : b ∈ encode s ↔ c ∈ s.toList := by
  rw [encode, List.mem_flatMap]
  constructor
  · rintro ⟨d, hd, hmem⟩
    have hsame : c = d := utf8EncodeChar_injective (by rw [hc, utf8EncodeChar_of_mem hb hmem])
    exact hsame ▸ hd
  · intro h
    exact ⟨c, h, by simp [hc]⟩

/-- Bytes spell a text whether or not a character of ASCII follows them. -/
theorem decode?_concat (bytes : Bytes) :
    decode? (bytes ++ [b]) = (decode? bytes).map fun s => s.push c := by
  cases hbytes : decode? bytes with
  | some s =>
    rw [Option.map_some, decode?_eq_some_iff, encode_push, decode?_eq_some_iff.1 hbytes, hc]
  | none =>
    rw [Option.map_none, Option.eq_none_iff_forall_ne_some]
    intro s hs
    have hencode : encode s = bytes ++ [b] := decode?_eq_some_iff.1 hs
    obtain hnil | ⟨front, last, hlist⟩ := List.eq_nil_or_concat s.toList
    · simp [encode, hnil] at hencode
    -- The last byte belongs to the last character and is all of its encoding.
    rw [encode, hlist, List.concat_eq_append, List.flatMap_append,
      List.flatMap_singleton] at hencode
    have hmem : b ∈ String.utf8EncodeChar last := by
      have hlast := congrArg List.getLast? hencode
      rw [List.getLast?_concat, List.getLast?_append,
        List.getLast?_eq_some_getLast String.utf8EncodeChar_ne_nil, Option.some_or] at hlast
      rw [← Option.some.inj hlast]
      exact List.getLast_mem String.utf8EncodeChar_ne_nil
    rw [utf8EncodeChar_of_mem hb hmem] at hencode
    have hspelled : decode? bytes = some (.ofList front) := by
      rw [decode?_eq_some_iff, encode, String.toList_ofList, List.append_cancel_right hencode]
    simp [hspelled] at hbytes

end Ascii

end Concord.Text
