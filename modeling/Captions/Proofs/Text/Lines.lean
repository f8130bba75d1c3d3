import Captions.Text.Lines

/-! # Reading back written lines

Lines that hold no line ends themselves, each written with a line feed behind it,
are read back as they were.
-/

namespace Captions.Text

/-- The bytes of a text. -/
def utf8 (text : String) : List UInt8 :=
  text.toUTF8.data.toList

/-- Lines with a line feed behind each of them. -/
def joinLines (lines : List String) : String :=
  String.join (lines.map (· ++ "\n"))

theorem joinLines_cons (line : String) (lines : List String) :
    joinLines (line :: lines) = line ++ "\n" ++ joinLines lines := by
  rw [joinLines, List.map_cons, String.join_cons]
  rfl

theorem utf8_append (first second : String) :
    utf8 (first ++ second) = utf8 first ++ utf8 second := by
  simp [utf8, String.toByteArray_append]

theorem utf8_eq_flatMap (text : String) :
    utf8 text = text.toList.flatMap String.utf8EncodeChar := by
  have hbytes := String.toByteArray_ofList (l := text.toList)
  rw [String.ofList_toList] at hbytes
  rw [utf8, String.toUTF8_eq_toByteArray, hbytes, List.utf8Encode, List.toList_data_toByteArray]

/-- The only characters with a byte below 128 are those that consist of it. -/
theorem toNat_of_mem_utf8EncodeChar {c : Char} {b : UInt8} (hmem : b ∈ String.utf8EncodeChar c)
    (hb : b.toNat < 128) : c.toNat = b.toNat := by
  have hval : c.toNat = c.val.toNat := rfl
  simp only [String.utf8EncodeChar] at hmem
  repeat' split at hmem
  all_goals simp only [List.mem_cons, List.not_mem_nil, or_false] at hmem
  · subst hmem
    rw [UInt8.toNat_ofNat'] at hb ⊢
    omega
  · rcases hmem with rfl | rfl <;> rw [UInt8.toNat_ofNat'] at hb <;> omega
  · rcases hmem with rfl | rfl | rfl <;> rw [UInt8.toNat_ofNat'] at hb <;> omega
  · rcases hmem with rfl | rfl | rfl | rfl <;> rw [UInt8.toNat_ofNat'] at hb <;> omega

/-- A byte below 128 stands in a text only as the character with that number. -/
theorem ofNat_mem_of_mem_utf8 {text : String} {b : UInt8} (hmem : b ∈ utf8 text)
    (hb : b.toNat < 128) : Char.ofNat b.toNat ∈ text.toList := by
  rw [utf8_eq_flatMap, List.mem_flatMap] at hmem
  obtain ⟨c, hc, hbyte⟩ := hmem
  rw [← toNat_of_mem_utf8EncodeChar hbyte hb, Char.ofNat_toNat]
  exact hc

theorem decodeLine_utf8 (line : String) : decodeLine (utf8 line) = .ok line := by
  have hbytes : (⟨(utf8 line).toArray⟩ : ByteArray) = line.toByteArray := by
    simp [utf8]
  have hvalid : line.toByteArray.IsValidUTF8 := line.isValidUTF8
  have hdecoded : String.fromUTF8? line.toByteArray = some line := by
    rw [String.fromUTF8?, dif_pos hvalid]
    rfl
  rw [decodeLine, hbytes, hdecoded]

/-- Lines written one after the other are read back. -/
theorem readLines_joinLines {lines : List String}
    (h : ∀ line ∈ lines, '\n' ∉ line.toList ∧ '\r' ∉ line.toList) :
    readLines (utf8 (joinLines lines)) = lines.map .ok := by
  induction lines with
  | nil => rfl
  | cons line rest ih =>
      obtain ⟨hfeed, hreturn⟩ := h line List.mem_cons_self
      -- Both line ends are below 128, so as bytes they could only be characters of the line.
      have hbytes : ∀ b ∈ utf8 line, b ≠ lineFeed ∧ b ≠ carriageReturn := by
        intro b hmem
        constructor
        · rintro rfl
          exact hfeed (ofNat_mem_of_mem_utf8 hmem (by decide))
        · rintro rfl
          exact hreturn (ofNat_mem_of_mem_utf8 hmem (by decide))
      have hend : utf8 "\n" = [lineFeed] := by decide
      have hrest := ih fun other hmem => h other (List.mem_cons_of_mem _ hmem)
      rw [readLines, joinLines_cons, utf8_append, utf8_append, hend, List.append_assoc,
        List.singleton_append, splitLines_line _ _ hbytes, List.map_cons, List.map_cons,
        decodeLine_utf8, ← hrest]
      rfl

end Captions.Text
