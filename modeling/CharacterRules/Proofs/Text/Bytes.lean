import Mathlib.Data.String.Basic
import CharacterRules.Text.Basic

/-!
Places in the UTF-8 form of a text. Where characters end, a text can be cut, and what stands between
two such places is again a text; a character of one byte is that byte.
-/

namespace CharacterRules.Text

theorem byteLength_cons (c : Char) (text : List Char) :
    byteLength (c :: text) = c.utf8Size + byteLength text := rfl

theorem utf8Len_eq_byteLength (text : List Char) : String.utf8Len text = byteLength text := by
  induction text with
  | nil => rfl
  | cons c rest ih => rw [String.utf8Len_cons, ih, byteLength_cons, Nat.add_comm]

theorem byteLength_append (text more : List Char) :
    byteLength (text ++ more) = byteLength text + byteLength more := by
  simp only [← utf8Len_eq_byteLength, String.utf8Len_append]

theorem byteLength_cons_pos (c : Char) (text : List Char) : 0 < byteLength (c :: text) :=
  Nat.lt_of_lt_of_le c.utf8Size_pos (Nat.le_add_right _ _)

theorem utf8ByteSize_eq (text : String) : text.utf8ByteSize = byteLength text.toList := by
  rw [← utf8Len_eq_byteLength, ← String.utf8ByteSize_ofList, String.ofList_toList]

section

variable {text : String} {before : List Char}

theorem isValid_of_split {after : List Char} (split : text.toList = before ++ after) :
    String.Pos.Raw.IsValid text ⟨byteLength before⟩ := by
  rw [← text.ofList_toList, split, String.Pos.Raw.isValid_iff_exists_append]
  refine ⟨String.ofList before, String.ofList after, String.ofList_append, ?_⟩
  rw [String.rawEndPos_ofList, utf8Len_eq_byteLength]

theorem extract_of_split {middle after : List Char} (split : text.toList = before ++ middle ++ after) :
    String.Pos.Raw.extract text ⟨byteLength before⟩ ⟨byteLength before + byteLength middle⟩ =
      String.ofList middle := by
  rw [← text.ofList_toList, split, ← utf8Len_eq_byteLength, ← utf8Len_eq_byteLength]
  exact String.extract_of_valid before middle after

/-- A character of one byte is its own byte. -/
theorem getUTF8Byte_of_split {c : Char} {after : List Char} (split : text.toList = before ++ c :: after)
    (single : c.utf8Size = 1) (inside : (⟨byteLength before⟩ : String.Pos.Raw) < text.rawEndPos) :
    text.getUTF8Byte ⟨byteLength before⟩ inside = c.val.toUInt8 := by
  obtain rfl : text = String.ofList (before ++ c :: after) := by rw [← split, String.ofList_toList]
  have bytes : (String.ofList (before ++ c :: after)).toByteArray =
      before.utf8Encode ++ ([c.val.toUInt8].toByteArray ++ after.utf8Encode) := by
    rw [String.toByteArray_ofList, List.utf8Encode_append, List.utf8Encode_cons,
      List.utf8Encode_singleton, String.utf8EncodeChar_eq_singleton single]
  have start : before.utf8Encode.size = byteLength before := by
    rw [← String.toByteArray_ofList, String.size_toByteArray, String.utf8ByteSize_ofList,
      utf8Len_eq_byteLength]
  simp only [String.getUTF8Byte, bytes]
  rw [ByteArray.getElem_append_right (Nat.le_of_eq start)]
  simp only [start, Nat.sub_self]
  rw [ByteArray.getElem_append_left (by simp), List.getElem_toByteArray, List.getElem_cons_zero]

end

end CharacterRules.Text
