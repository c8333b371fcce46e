import SnapLisp.Source.Bytes

/-!
# ASCII texts and their bytes

On ASCII characters `Bytes.utf8` and `Bytes.ofAscii` are inverse to each other (`utf8_ofAscii`,
`ofAscii_utf8`): such a character is the one byte that is its code point. Of bytes and of characters
alike, a reader cuts off the longest run of a class (`takeWhile_dropWhile_of_stop`).
-/

namespace SnapLisp

/-- The longest run of elements of a class is cut off. -/
theorem takeWhile_dropWhile_of_stop {α : Type} {p : α → Bool} {body rest : List α}
    (hbody : ∀ b ∈ body, p b = true) (hstop : ∀ b ∈ rest.head?, p b = false) :
    (body ++ rest).takeWhile p = body ∧ (body ++ rest).dropWhile p = rest := by
  have hrest : rest.takeWhile p = [] ∧ rest.dropWhile p = rest := by
    cases rest with
    | nil => exact ⟨rfl, rfl⟩
    | cons b tail => simp [hstop b rfl]
  rw [List.takeWhile_append_of_pos hbody, List.dropWhile_append_of_pos hbody, hrest.1, hrest.2,
    List.append_nil]
  exact ⟨rfl, rfl⟩

/-- What is behind a longest run is all that is left. -/
theorem dropWhile_of_takeWhile {α : Type} {p : α → Bool} {body rest : List α}
    (h : (body ++ rest).takeWhile p = body) : (body ++ rest).dropWhile p = rest := by
  have hsplit : (body ++ rest).takeWhile p ++ (body ++ rest).dropWhile p = body ++ rest :=
    List.takeWhile_append_dropWhile
  rw [h] at hsplit
  exact List.append_cancel_left hsplit

namespace Bytes

@[simp] theorem utf8_append (s t : String) : utf8 (s ++ t) = utf8 s ++ utf8 t := by
  simp [utf8, String.toByteArray_append]

theorem utf8_join (texts : List String) : utf8 (String.join texts) = texts.flatMap utf8 := by
  induction texts with
  | nil => rfl
  | cons text texts ih => rw [String.join_cons, utf8_append, ih, List.flatMap_cons]

theorem length_utf8 (text : String) : (utf8 text).length = text.utf8ByteSize := by
  rw [utf8, Array.length_toList]
  rfl

theorem utf8_injective {s t : String} (h : utf8 s = utf8 t) : s = t := by
  have hbytes : s.toByteArray = t.toByteArray := ByteArray.ext (Array.toList_inj.mp h)
  exact String.toByteArray_inj.mp hbytes

/-- The bytes of a text are the text. -/
theorem decode?_utf8 (text : String) : decode? (utf8 text) = some text := by
  have hvalid : text.toByteArray.IsValidUTF8 := text.isValidUTF8
  have hbytes : (⟨(utf8 text).toArray⟩ : ByteArray) = text.toByteArray := rfl
  rw [decode?, hbytes, String.fromUTF8?, dif_pos hvalid]
  rfl

theorem utf8_ofList (cs : List Char) :
    utf8 (String.ofList cs) = cs.flatMap String.utf8EncodeChar := by
  simp [utf8, List.utf8Encode]

/-- An ASCII character is one byte. -/
theorem utf8EncodeChar_of_lt {c : Char} (h : c.toNat < 128) :
    String.utf8EncodeChar c = [UInt8.ofNat c.toNat] := by
  have hle : c.val.toNat ≤ 127 := Nat.le_of_lt_succ h
  simp only [String.utf8EncodeChar, if_pos hle, Char.toNat]

theorem utf8_ofList_of_ascii {cs : List Char} (h : ∀ c ∈ cs, c.toNat < 128) :
    utf8 (String.ofList cs) = cs.map fun c => UInt8.ofNat c.toNat := by
  rw [utf8_ofList]
  induction cs with
  | nil => rfl
  | cons c rest ih =>
    rw [List.flatMap_cons, List.map_cons, utf8EncodeChar_of_lt (h c (.head _)),
      ih fun d hd => h d (.tail _ hd)]
    rfl

theorem toNat_charOfNat {b : UInt8} (h : b < 128) :
    (Char.ofNat b.toNat).toNat = b.toNat := by
  have hlt : b.toNat < 128 := h
  have hvalid : b.toNat.isValidChar := .inl (by omega)
  rw [Char.ofNat, dif_pos hvalid]
  rfl

theorem utf8_ofAscii {bytes : List UInt8} (h : ∀ b ∈ bytes, b < 128) :
    utf8 (ofAscii bytes) = bytes := by
  have hchars : ∀ c ∈ bytes.map (Char.ofNat ·.toNat), c.toNat < 128 := by
    intro c hc
    obtain ⟨b, hb, rfl⟩ := List.mem_map.mp hc
    rw [toNat_charOfNat (h b hb)]
    exact h b hb
  rw [ofAscii, utf8_ofList_of_ascii hchars, List.map_map]
  conv => rhs; rw [← List.map_id bytes]
  refine List.map_congr_left fun b hb => ?_
  simp [toNat_charOfNat (h b hb)]

theorem ofAscii_utf8 {text : String} (h : ∀ b ∈ utf8 text, b < 128) : ofAscii (utf8 text) = text :=
  utf8_injective (utf8_ofAscii h)

end Bytes

end SnapLisp
