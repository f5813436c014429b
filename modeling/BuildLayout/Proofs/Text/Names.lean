import BuildLayout.Proofs.Text.Utf8
import BuildLayout.Text.Stray

/-!
# Names keep their bytes

Bytes without NUL are the bytes of the name that is kept for them (`nameBytes_ofNameBytes`), so
different bytes are different names, and the name is text exactly when they spell one
(`isText_ofNameBytes_iff`).
-/

namespace BuildLayout.Text

/-! ## Characters before a byte in none -/

theorem length_flatMap_utf8EncodeChar (cs : List Char) :
    (cs.flatMap String.utf8EncodeChar).length = byteLength cs := by
  induction cs with
  | nil => rfl
  | cons c cs ih =>
    rw [List.flatMap_cons, List.length_append, String.length_utf8EncodeChar, ih, byteLength]

/-- Characters are read up to a byte that is in none. -/
theorem charsBefore_byteLength (cs : List Char) (rest : Bytes) :
    charsBefore (byteLength cs) (cs.flatMap String.utf8EncodeChar ++ rest) = cs := by
  have h := decodeFrom_flatMap 0 [] cs []
  rw [List.append_nil] at h
  unfold charsBefore
  rw [← length_flatMap_utf8EncodeChar cs, List.take_left, h]
  simp [decodeFrom]

/-! ## The parts of a name -/

theorem strayByte?_ofStrayByte {b : UInt8} (h : ¬ b < 0x80) :
    strayByte? (Char.ofNat (0x100 + b.toNat)) = some b := by
  have hb : 128 ≤ b.toNat := Nat.le_of_not_lt h
  have hlt := b.toNat_lt
  have hn : (Char.ofNat (0x100 + b.toNat)).toNat = 0x100 + b.toNat := val_ofNat (.inl (by omega))
  unfold strayByte?
  rw [hn, if_pos (by omega)]
  congr 1
  exact UInt8.toNat_inj.1 (by rw [UInt8.toNat_ofNat']; omega)

theorem nameParts_ofStrayByte {b : UInt8} (h : ¬ b < 0x80) (cs : List Char) :
    nameParts (ofStrayByte b ++ cs) = .stray b :: nameParts cs := by
  unfold ofStrayByte
  rw [List.cons_append, List.singleton_append, nameParts, if_pos rfl, strayByte?_ofStrayByte h]

theorem flatMap_bytes_char (cs : List Char) :
    (cs.map NamePart.char).flatMap NamePart.bytes = cs.flatMap String.utf8EncodeChar := by
  rw [List.flatMap_map]
  exact List.flatMap_congr fun c _ => encode_singleton c

theorem not_mark_mem {cs : List Char} (h : 0 ∉ cs.flatMap String.utf8EncodeChar) : mark ∉ cs := by
  intro hm
  exact h (List.mem_flatMap.2 ⟨mark, hm, by decide⟩)

/-! ## Names of bytes -/

/-- **The name of bytes** is made of the characters and the bytes in none that they hold. -/
theorem nameParts_nameChars (bytes : Bytes) (h : 0 ∉ bytes) :
    (nameParts (nameChars bytes)).flatMap NamePart.bytes = bytes ∧
      ((nameParts (nameChars bytes)).all NamePart.isChar ↔ ∃ s, bytes = encode s) := by
  fun_induction nameChars bytes with
  | case1 => exact ⟨rfl, by simpa [nameParts] using ⟨"", rfl⟩⟩
  | case2 b rest cs hcs =>
    have hbytes := eq_of_decodeFrom hcs
    rw [hbytes] at h
    rw [nameParts_of_not_mem (not_mark_mem h), flatMap_bytes_char]
    refine ⟨hbytes.symm, fun _ => ⟨String.ofList cs, hbytes.trans (encode_ofList cs).symm⟩, ?_⟩
    simp [NamePart.isChar]
  | case3 b rest fault hfault stray ih =>
    obtain ⟨cs, c, tail, hb, hindex, hc⟩ := exists_of_decodeFrom_error hfault
    have hlength := length_flatMap_utf8EncodeChar cs
    have hstray : stray = c := by
      show (b :: rest)[fault.index]?.getD b = c
      rw [hb, hindex, ← hlength, List.getElem?_append_right (Nat.le_refl _), Nat.sub_self]
      rfl
    have htail : rest.drop fault.index = tail := by
      have hdrop : (b :: rest).drop (fault.index + 1) = tail := by
        rw [hb, hindex, ← hlength, List.drop_append, Nat.add_sub_cancel_left]
        simp
      exact hdrop
    rw [hb] at h ⊢
    rw [hstray, htail, hindex, charsBefore_byteLength, List.append_assoc]
    have hcs : mark ∉ cs := not_mark_mem fun hm => h (List.mem_append_left _ hm)
    rw [nameParts_append_of_not_mem hcs, nameParts_ofStrayByte hc]
    have hall : (nameParts (nameChars tail)).flatMap NamePart.bytes = tail := by
      rw [htail] at ih
      exact (ih fun hm => h (List.mem_append_right _ (.tail _ hm))).1
    refine ⟨?_, fun h => ?_, ?_⟩
    · rw [List.flatMap_append, flatMap_bytes_char, List.flatMap_cons, hall]
      rfl
    · simp [NamePart.isChar] at h
    · -- What spells a text is read without a fault.
      rintro ⟨s, hs⟩
      have hok := decode_encode s
      rw [← hs, ← hb, decode, hfault] at hok
      cases hok

theorem nameBytes_ofNameBytes {bytes : Bytes} (h : 0 ∉ bytes) :
    nameBytes (ofNameBytes bytes) = bytes := by
  unfold nameBytes ofNameBytes
  rw [String.toList_ofList]
  exact (nameParts_nameChars bytes h).1

/-- **The name of bytes is text** exactly when they spell one. -/
theorem isText_ofNameBytes_iff {bytes : Bytes} (h : 0 ∉ bytes) :
    isText (ofNameBytes bytes) ↔ ∃ s, bytes = encode s := by
  unfold isText ofNameBytes
  rw [String.toList_ofList]
  exact (nameParts_nameChars bytes h).2

/-- The size of a name is the number of its bytes. -/
theorem nameSize_eq_length (s : String) : nameSize s = (nameBytes s).length := by
  have hpart : ∀ part : NamePart, part.size = part.bytes.length := by
    rintro (c | b)
    · exact (congrArg List.length (encode_singleton c)).trans (String.length_utf8EncodeChar c) |>.symm
    · rfl
  unfold nameSize nameBytes
  induction nameParts s.toList with
  | nil => rfl
  | cons part parts ih => rw [partsSize, List.flatMap_cons, List.length_append, hpart, ih]

end BuildLayout.Text
