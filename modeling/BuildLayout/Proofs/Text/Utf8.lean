import BuildLayout.Text.Utf8
import Mathlib.Data.List.Basic

/-!
# Bytes are text when they are its spelling

`decode` gives a text exactly for the bytes that spell it (`decode_eq_ok_iff`): every text is read
back from its bytes, and no other bytes are read as text, so neither overlong forms nor surrogates are.
-/

namespace BuildLayout.Text

/-! ## Bytes of a character -/

section
variable {a b : UInt8} {n : Nat}

theorem toNat_ofNat (h : n < 256) : (UInt8.ofNat n).toNat = n :=
  UInt8.toNat_ofNat_of_lt' h

theorem isContinuation_iff : isContinuation b ↔ 128 ≤ b.toNat ∧ b.toNat ≤ 191 := by
  simp [isContinuation, UInt8.le_iff_toNat_le]

/-- With the lead byte, a second byte spells a character that is neither too small for three bytes nor
a surrogate. -/
theorem isSecondOfThree_iff :
    isSecondOfThree a b ↔ 128 ≤ b.toNat ∧ b.toNat ≤ 191 ∧ (a.toNat = 224 → 160 ≤ b.toNat) ∧
      (a.toNat = 237 → b.toNat ≤ 159) := by
  unfold isSecondOfThree
  simp only [beq_iff_eq, ← UInt8.toNat_inj, UInt8.reduceToNat]
  split_ifs
  · simp only [UInt8.le_iff_toNat_le, Bool.and_eq_true, decide_eq_true_eq, UInt8.reduceToNat]
    omega
  · simp only [UInt8.le_iff_toNat_le, Bool.and_eq_true, decide_eq_true_eq, UInt8.reduceToNat]
    omega
  · rw [isContinuation_iff]
    omega

/-- With the lead byte, a second byte spells a character that is neither too small for four bytes nor
too great. -/
theorem isSecondOfFour_iff :
    isSecondOfFour a b ↔ 128 ≤ b.toNat ∧ b.toNat ≤ 191 ∧ (a.toNat = 240 → 144 ≤ b.toNat) ∧
      (a.toNat = 244 → b.toNat ≤ 143) := by
  unfold isSecondOfFour
  simp only [beq_iff_eq, ← UInt8.toNat_inj, UInt8.reduceToNat]
  split_ifs
  · simp only [UInt8.le_iff_toNat_le, Bool.and_eq_true, decide_eq_true_eq, UInt8.reduceToNat]
    omega
  · simp only [UInt8.le_iff_toNat_le, Bool.and_eq_true, decide_eq_true_eq, UInt8.reduceToNat]
    omega
  · rw [isContinuation_iff]
    omega

theorem isContinuation_ofNat (h : n < 64) : isContinuation (UInt8.ofNat (n + 128)) := by
  rw [isContinuation_iff, toNat_ofNat (by omega)]
  omega

theorem payload_ofNat (h : n < 64) : payload (UInt8.ofNat (n + 128)) = n := by
  unfold payload
  rw [toNat_ofNat (by omega)]
  omega

end

/-! ## A character is read from its bytes -/

section
variable (index : Nat) (done : List Char) (rest : Bytes) {hi mid low lo : Nat}

theorem decodeFrom_one (hlo : lo < 128) :
    decodeFrom index done (UInt8.ofNat lo :: rest) =
      decodeFrom (index + 1) (Char.ofNat lo :: done) rest := by
  have hn := toNat_ofNat (show lo < 256 by omega)
  conv_lhs => unfold decodeFrom
  rw [if_pos (by simp only [UInt8.lt_iff_toNat_lt, hn, UInt8.reduceToNat]; omega), hn]

theorem decodeFrom_two (h : 2 ≤ hi) (hhi : hi < 32) (hlo : lo < 64) :
    decodeFrom index done (UInt8.ofNat (hi + 192) :: UInt8.ofNat (lo + 128) :: rest) =
      decodeFrom (index + 2) (Char.ofNat (hi * 64 + lo) :: done) rest := by
  have hn := toNat_ofNat (show hi + 192 < 256 by omega)
  conv_lhs => unfold decodeFrom
  dsimp only
  rw [if_neg, if_pos, if_pos (isContinuation_ofNat hlo), payload_ofNat hlo, hn,
    show (hi + 192) % 32 = hi by omega]
  all_goals
    simp only [UInt8.lt_iff_toNat_lt, UInt8.le_iff_toNat_le, hn, Bool.and_eq_true,
      decide_eq_true_eq, UInt8.reduceToNat]
    omega

theorem decodeFrom_three (hhi : hi < 16) (hmid : mid < 64) (hlo : lo < 64)
    (h : 32 ≤ hi * 64 + mid) (hs : hi * 64 + mid < 864 ∨ 896 ≤ hi * 64 + mid) :
    decodeFrom index done
        (UInt8.ofNat (hi + 224) :: UInt8.ofNat (mid + 128) :: UInt8.ofNat (lo + 128) :: rest) =
      decodeFrom (index + 3) (Char.ofNat ((hi * 64 + mid) * 64 + lo) :: done) rest := by
  have hn := toNat_ofNat (show hi + 224 < 256 by omega)
  have hsecond : isSecondOfThree (UInt8.ofNat (hi + 224)) (UInt8.ofNat (mid + 128)) := by
    rw [isSecondOfThree_iff, hn, toNat_ofNat (by omega)]
    omega
  conv_lhs => unfold decodeFrom
  dsimp only
  rw [if_neg, if_neg, if_pos, if_pos hsecond,
    if_pos (isContinuation_ofNat hlo), payload_ofNat hmid, payload_ofNat hlo, hn,
    show (hi + 224) % 16 = hi by omega]
  all_goals
    simp only [UInt8.lt_iff_toNat_lt, UInt8.le_iff_toNat_le, hn, Bool.and_eq_true,
      decide_eq_true_eq, UInt8.reduceToNat]
    omega

theorem decodeFrom_four (hhi : hi < 5) (hmid : mid < 64) (hlow : low < 64) (hlo : lo < 64)
    (h : 16 ≤ hi * 64 + mid) (hs : hi * 64 + mid < 272) :
    decodeFrom index done (UInt8.ofNat (hi + 240) :: UInt8.ofNat (mid + 128) ::
        UInt8.ofNat (low + 128) :: UInt8.ofNat (lo + 128) :: rest) =
      decodeFrom (index + 4) (Char.ofNat (((hi * 64 + mid) * 64 + low) * 64 + lo) :: done) rest := by
  have hn := toNat_ofNat (show hi + 240 < 256 by omega)
  have hsecond : isSecondOfFour (UInt8.ofNat (hi + 240)) (UInt8.ofNat (mid + 128)) := by
    rw [isSecondOfFour_iff, hn, toNat_ofNat (by omega)]
    omega
  conv_lhs => unfold decodeFrom
  dsimp only
  rw [if_neg, if_neg, if_neg, if_pos, if_pos hsecond,
    if_pos (isContinuation_ofNat hlow), if_pos (isContinuation_ofNat hlo), payload_ofNat hmid,
    payload_ofNat hlow, payload_ofNat hlo, hn, show (hi + 240) % 8 = hi by omega]
  all_goals
    simp only [UInt8.lt_iff_toNat_lt, UInt8.le_iff_toNat_le, hn, Bool.and_eq_true,
      decide_eq_true_eq, UInt8.reduceToNat]
    omega

theorem decodeFrom_utf8EncodeChar (c : Char) :
    decodeFrom index done (String.utf8EncodeChar c ++ rest) =
      decodeFrom (index + c.utf8Size) (c :: done) rest := by
  have hv : c.val.toNat < 0xD800 ∨ 0xDFFF < c.val.toNat ∧ c.val.toNat < 0x110000 := c.valid
  have hc : Char.ofNat c.val.toNat = c := Char.ofNat_toNat c
  rw [← String.length_utf8EncodeChar]
  unfold String.utf8EncodeChar
  dsimp only
  generalize c.val.toNat = n at hv hc
  subst hc
  split_ifs with h1 h2 h3
  · exact decodeFrom_one index done rest (show n < 128 by omega)
  · refine (decodeFrom_two index done rest (by omega) (by omega) (by omega)).trans ?_
    rw [show n / 64 % 32 * 64 + n % 64 = n by omega]
    rfl
  · refine (decodeFrom_three index done rest (by omega) (by omega) (by omega) (by omega)
      (by omega)).trans ?_
    rw [show (n / 4096 % 16 * 64 + n / 64 % 64) * 64 + n % 64 = n by omega]
    rfl
  · refine (decodeFrom_four index done rest (by omega) (by omega) (by omega) (by omega) (by omega)
      (by omega)).trans ?_
    rw [show ((n / 262144 % 8 * 64 + n / 4096 % 64) * 64 + n / 64 % 64) * 64 + n % 64 = n by omega]
    rfl

end

/-! ## A character is spelled by the bytes that it is read from -/

theorem val_ofNat {n : Nat} (h : n.isValidChar) : (Char.ofNat n).val.toNat = n := by
  unfold Char.ofNat
  rw [dif_pos h]
  rfl

theorem ofNat_eq {n : Nat} {b : UInt8} (h : n = b.toNat) : UInt8.ofNat n = b := by
  rw [h, UInt8.ofNat_toNat]

section
variable {a b c d : UInt8}

theorem utf8EncodeChar_one (ha : a < 0x80) :
    String.utf8EncodeChar (Char.ofNat a.toNat) = [a] := by
  replace ha : a.toNat < 128 := ha
  unfold String.utf8EncodeChar
  dsimp only
  rw [val_ofNat (.inl (by omega)), if_pos (by omega), UInt8.ofNat_toNat]

theorem utf8EncodeChar_two (ha : 0xC2 ≤ a && a ≤ 0xDF) (hb : isContinuation b) :
    String.utf8EncodeChar (Char.ofNat (a.toNat % 32 * 64 + payload b)) = [a, b] := by
  simp only [UInt8.le_iff_toNat_le, Bool.and_eq_true, decide_eq_true_eq, UInt8.reduceToNat] at ha
  rw [isContinuation_iff] at hb
  unfold String.utf8EncodeChar payload
  dsimp only
  rw [val_ofNat (.inl (by omega)), if_neg (by omega), if_pos (by omega), ofNat_eq (b := a) (by omega),
    ofNat_eq (b := b) (by omega)]

theorem utf8EncodeChar_three (ha : 0xE0 ≤ a && a ≤ 0xEF) (hb : isSecondOfThree a b)
    (hc : isContinuation c) :
    String.utf8EncodeChar (Char.ofNat ((a.toNat % 16 * 64 + payload b) * 64 + payload c)) =
      [a, b, c] := by
  simp only [UInt8.le_iff_toNat_le, Bool.and_eq_true, decide_eq_true_eq, UInt8.reduceToNat] at ha
  rw [isSecondOfThree_iff] at hb
  rw [isContinuation_iff] at hc
  have hvalid : ((a.toNat % 16 * 64 + b.toNat % 64) * 64 + c.toNat % 64).isValidChar := by
    unfold Nat.isValidChar
    omega
  unfold String.utf8EncodeChar payload
  dsimp only
  rw [val_ofNat hvalid, if_neg (by omega), if_neg (by omega), if_pos (by omega),
    ofNat_eq (b := a) (by omega), ofNat_eq (b := b) (by omega), ofNat_eq (b := c) (by omega)]

theorem utf8EncodeChar_four (ha : 0xF0 ≤ a && a ≤ 0xF4) (hb : isSecondOfFour a b)
    (hc : isContinuation c) (hd : isContinuation d) :
    String.utf8EncodeChar
        (Char.ofNat (((a.toNat % 8 * 64 + payload b) * 64 + payload c) * 64 + payload d)) =
      [a, b, c, d] := by
  simp only [UInt8.le_iff_toNat_le, Bool.and_eq_true, decide_eq_true_eq, UInt8.reduceToNat] at ha
  rw [isSecondOfFour_iff] at hb
  rw [isContinuation_iff] at hc hd
  have hvalid : (((a.toNat % 8 * 64 + b.toNat % 64) * 64 + c.toNat % 64) * 64 +
      d.toNat % 64).isValidChar := by
    unfold Nat.isValidChar
    omega
  unfold String.utf8EncodeChar payload
  dsimp only
  rw [val_ofNat hvalid, if_neg (by omega), if_neg (by omega), if_neg (by omega),
    ofNat_eq (b := a) (by omega), ofNat_eq (b := b) (by omega), ofNat_eq (b := c) (by omega),
    ofNat_eq (b := d) (by omega)]

end

/-! ## Texts -/

/-- Characters are read from their bytes, whatever comes before them. -/
theorem decodeFrom_flatMap (index : Nat) (done cs : List Char) (rest : Bytes) :
    decodeFrom index done (cs.flatMap String.utf8EncodeChar ++ rest) =
      decodeFrom (index + byteLength cs) (cs.reverse ++ done) rest := by
  induction cs generalizing index done with
  | nil => rfl
  | cons c cs ih =>
    rw [List.flatMap_cons, List.append_assoc, decodeFrom_utf8EncodeChar, ih, byteLength,
      Nat.add_assoc, List.reverse_cons, List.append_assoc, List.singleton_append]

/-- What comes of reading bytes from an index on, behind characters that were read: the characters that
they spell, or a fault at the first byte behind characters that they begin with. -/
inductive Reads (index : Nat) (done : List Char) (bytes : Bytes) :
    Except Utf8Fault (List Char) → Prop
  | whole (cs : List Char) {read : List Char}
      (hbytes : bytes = cs.flatMap String.utf8EncodeChar) (hread : read = done.reverse ++ cs) :
      Reads index done bytes (.ok read)
  | fault (cs : List Char) {b : UInt8} {rest : Bytes} {fault : Utf8Fault}
      (hbytes : bytes = cs.flatMap String.utf8EncodeChar ++ b :: rest)
      (hindex : fault.index = index + byteLength cs) (hb : ¬ b < 0x80) :
      Reads index done bytes (.error fault)

/-- A character is read before what is read behind it. -/
theorem Reads.cons {index : Nat} {done : List Char} {c : Char} {spelling bytes : Bytes}
    {result : Except Utf8Fault (List Char)} (hc : String.utf8EncodeChar c = spelling)
    (h : Reads (index + spelling.length) (c :: done) bytes result) :
    Reads index done (spelling ++ bytes) result := by
  cases h with
  | whole cs hbytes hread =>
    refine .whole (c :: cs) ?_ ?_
    · rw [hbytes, List.flatMap_cons, hc]
    · rw [hread, List.reverse_cons, List.append_assoc, List.singleton_append]
  | @fault cs b rest _ hbytes hindex hb =>
    have hbytes : spelling ++ bytes = (c :: cs).flatMap String.utf8EncodeChar ++ b :: rest := by
      rw [hbytes, List.flatMap_cons, hc, List.append_assoc]
    refine .fault (c :: cs) hbytes ?_ hb
    rw [hindex, ← hc, String.length_utf8EncodeChar, byteLength, Nat.add_assoc]

/-- **Reading bytes** gives the characters that they spell, up to the first byte in none. -/
theorem reads_decodeFrom (index : Nat) (done : List Char) (bytes : Bytes) :
    Reads index done bytes (decodeFrom index done bytes) := by
  fun_induction decodeFrom index done bytes with
  | case1 => exact .whole [] rfl (List.append_nil _).symm
  | case2 _ _ _ _ ha ih => exact .cons (utf8EncodeChar_one ha) ih
  | case4 _ _ _ _ ha _ _ hb ih => exact .cons (utf8EncodeChar_two ha hb) ih
  | case8 _ _ _ _ _ ha _ hb _ _ hc ih => exact .cons (utf8EncodeChar_three ha hb hc) ih
  | case14 _ _ _ _ _ _ ha _ hb _ hc _ _ hd ih => exact .cons (utf8EncodeChar_four ha hb hc hd) ih
  | _ => exact .fault [] rfl rfl ‹_›

theorem eq_of_decodeFrom {bytes : Bytes} {cs : List Char} (h : decodeFrom 0 [] bytes = .ok cs) :
    bytes = cs.flatMap String.utf8EncodeChar := by
  have hreads := reads_decodeFrom 0 [] bytes
  rw [h] at hreads
  cases hreads with
  | whole _ hbytes hread => rw [hbytes, hread, List.reverse_nil, List.nil_append]

theorem exists_of_decodeFrom_error {bytes : Bytes} {fault : Utf8Fault}
    (h : decodeFrom 0 [] bytes = .error fault) :
    ∃ cs b rest, bytes = cs.flatMap String.utf8EncodeChar ++ b :: rest ∧
      fault.index = byteLength cs ∧ ¬ b < 0x80 := by
  have hreads := reads_decodeFrom 0 [] bytes
  rw [h] at hreads
  cases hreads with
  | fault _ hbytes hindex hb => exact ⟨_, _, _, hbytes, hindex.trans (Nat.zero_add _), hb⟩

theorem encode_ofList (cs : List Char) :
    encode (String.ofList cs) = cs.flatMap String.utf8EncodeChar := by
  unfold encode
  rw [String.toUTF8_eq_toByteArray, String.toByteArray_ofList, List.utf8Encode,
    List.toList_data_toByteArray]

theorem encode_singleton (c : Char) : encode (String.singleton c) = String.utf8EncodeChar c := by
  have h := encode_ofList [c]
  rwa [List.flatMap_singleton] at h

theorem encode_append (s t : String) : encode (s ++ t) = encode s ++ encode t := by
  have hs := encode_ofList s.toList
  have ht := encode_ofList t.toList
  have hst := encode_ofList (s.toList ++ t.toList)
  rw [String.ofList_toList] at hs ht
  rwa [String.ofList_append, String.ofList_toList, String.ofList_toList, List.flatMap_append, ← hs,
    ← ht] at hst

/-- A byte of ASCII spells a character and is in the spelling of no other one. -/
theorem mem_utf8EncodeChar_iff {b : UInt8} (hb : b < 0x80) {c : Char} :
    b ∈ String.utf8EncodeChar c ↔ c = Char.ofNat b.toNat := by
  constructor
  · have hlt : b.toNat < 128 := hb
    have hother : ∀ {n : Nat}, 128 ≤ n → n < 256 → b ≠ UInt8.ofNat n := by
      rintro n hn hn' rfl
      rw [toNat_ofNat hn'] at hlt
      omega
    have hc : Char.ofNat c.val.toNat = c := Char.ofNat_toNat c
    have hv : c.val.toNat < 0xD800 ∨ 0xDFFF < c.val.toNat ∧ c.val.toNat < 0x110000 := c.valid
    unfold String.utf8EncodeChar
    dsimp only
    generalize c.val.toNat = n at hc hv
    intro hm
    split_ifs at hm with h1 h2 h3
    · rw [← hc, List.mem_singleton.1 hm, toNat_ofNat (by omega)]
    all_goals simp only [List.mem_cons, List.not_mem_nil, or_false] at hm
    · rcases hm with hm | hm <;> exact absurd hm (hother (by omega) (by omega))
    · rcases hm with hm | hm | hm <;> exact absurd hm (hother (by omega) (by omega))
    · rcases hm with hm | hm | hm | hm <;> exact absurd hm (hother (by omega) (by omega))
  · rintro rfl
    rw [utf8EncodeChar_one hb]
    exact .head _

theorem mem_encode_iff {b : UInt8} (hb : b < 0x80) {s : String} :
    b ∈ encode s ↔ Char.ofNat b.toNat ∈ s.toList := by
  rw [← String.ofList_toList (s := s), encode_ofList, String.ofList_toList, List.mem_flatMap]
  simp only [mem_utf8EncodeChar_iff hb, exists_eq_right]

theorem getLast?_of_encode {b : UInt8} (hb : b < 0x80) {s : String}
    (h : (encode s).getLast? = some b) : s.toList.getLast? = some (Char.ofNat b.toNat) := by
  rw [← String.ofList_toList (s := s), encode_ofList] at h
  rcases List.eq_nil_or_concat s.toList with hs | ⟨cs, c, hs⟩
  · rw [hs] at h
    cases h
  · rw [hs, List.concat_eq_append, List.flatMap_append, List.flatMap_singleton,
      List.getLast?_append_of_ne_nil _ String.utf8EncodeChar_ne_nil] at h
    rw [hs, List.concat_eq_append, List.getLast?_concat,
      (mem_utf8EncodeChar_iff hb).1 (List.mem_of_getLast? h)]

/-- **Bytes are text** exactly when they spell it. -/
theorem decode_eq_ok_iff {bytes : Bytes} {s : String} :
    decode bytes = .ok s ↔ bytes = encode s := by
  constructor
  · intro h
    unfold decode at h
    cases hcs : decodeFrom 0 [] bytes with
    | ok cs =>
      rw [hcs] at h
      cases h
      rw [encode_ofList, ← eq_of_decodeFrom hcs]
    | error fault =>
      rw [hcs] at h
      cases h
  · rintro rfl
    have h := decodeFrom_flatMap 0 [] s.toList []
    rw [← encode_ofList, String.ofList_toList, List.append_nil] at h
    unfold decode
    rw [h]
    simp [decodeFrom]

theorem decode_encode (s : String) : decode (encode s) = .ok s :=
  decode_eq_ok_iff.2 rfl

end BuildLayout.Text
