import BuildLayout.Proofs.Json.Grammar

/-!
# What words, strings and numerals are read as

What a reader gives does not depend on the line and column that it has reached. `Numeral.value?` and
`bodyText?` say what a numeral and the body of a string are read as, when they are read as anything:
a number may be out of range, and a string may hold half of a pair of code units. The readers of
numbers and strings give these and leave what stands behind (`given_readNumber`,
`outcome_readString`).
-/

namespace BuildLayout.Json

/-- What a reader gives, with what it leaves of the text; of a fault nothing is kept. -/
def outcome {c : Cursor} {α : Type} : Except Fault (Step c α) → Option (α × List Char)
  | .ok s => some (s.value, s.next.rest)
  | .error _ => none

/-- The same of a reader that gives the cursor where it stops. -/
def given : Except Fault (Number × Cursor) → Option (Number × List Char)
  | .ok (n, d) => some (n, d.rest)
  | .error _ => none

/-- The text goes on with none of the characters of a word or a numeral. -/
def Stops (rest : List Char) : Prop :=
  ∀ ch ∈ rest.head?, isAtomic ch = false

/-! ## Cursors -/

theorem Cursor.next?_eq {c : Cursor} {ch : Char} {rest : List Char} (h : c.rest = ch :: rest) :
    ∃ s, c.next? = some s ∧ s.value = ch ∧ s.next.rest = rest := by
  unfold next?
  split
  · next hnil => cases hnil.symm.trans h
  · next ch' rest' hcons =>
    obtain ⟨rfl, rfl⟩ := List.cons.inj (hcons.symm.trans h)
    refine ⟨_, rfl, rfl, ?_⟩
    unfold past
    dsimp only
    split <;> rfl

theorem Cursor.rest_skipBlank (c : Cursor) : c.skipBlank.rest = c.rest.dropWhile isBlank := by
  have key : ∀ cs line column, (skipBlankFrom line column cs).rest = cs.dropWhile isBlank := by
    intro cs
    induction cs with
    | nil => exact fun _ _ => rfl
    | cons ch cs ih =>
      intro line column
      rw [skipBlankFrom]
      by_cases h : isBlank ch
      · rw [if_pos h, List.dropWhile_cons_of_pos h]
        split <;> exact ih _ _
      · rw [if_neg h, List.dropWhile_cons_of_neg h]
  exact key _ _ _

/-! ## Numerals -/

/-- A number that is no integer, unless it is out of range. -/
def realNumber? (positive : Bool) (significand : Nat) (exponent : Int) : Option Number :=
  (Binary64.ofDecimal significand exponent).map fun x => .real (if positive then x else x.neg)

/-- A number with an exponent; one that is too long is zero or out of range. -/
def exponentNumber? (positive : Bool) (significand : Nat) (exponent : Int) (e : Exponent) :
    Option Number :=
  let (n, beyond) := gather maxExponent 0 e.digits.chars
  if beyond.isEmpty then
    realNumber? positive significand (if e.sign = ['-'] then exponent - n else exponent + n)
  else if significand = 0 ∨ e.sign = ['-'] then
    some (.real (if positive then .zero else Binary64.zero.neg))
  else none

/-- A number with a fraction, and perhaps with an exponent. -/
def fractionNumber? (positive : Bool) (significand : Nat) (exponent : Int) (ds : Digits)
    (x : Option Exponent) : Option Number :=
  let (significand, beyond) := gather maxSignificand significand ds.chars
  let exponent := exponent - ((ds.chars.length - beyond.length : Nat) : Int)
  match x with
  | some e => exponentNumber? positive significand exponent e
  | none => realNumber? positive significand exponent

/-- The number that a numeral stands for, unless it is out of range. -/
def Numeral.value? (n : Numeral) : Option Number :=
  let (significand, beyond) := gather maxSignificand 0 n.whole.chars
  match n.fraction, n.exponent with
  | some ds, x => fractionNumber? (!n.negative) significand beyond.length ds x
  | none, some e => exponentNumber? (!n.negative) significand beyond.length e
  | none, none =>
    if beyond.length = 0 then some (integerNumber (!n.negative) significand)
    else realNumber? (!n.negative) significand beyond.length

theorem given_realAt (c : Cursor) (positive : Bool) (significand : Nat) (exponent : Int)
    (d : Cursor) :
    given (match realAt c positive significand exponent with
      | .error f => .error f
      | .ok n => .ok (n, d)) = (realNumber? positive significand exponent).map (·, d.rest) := by
  unfold realAt realNumber?
  cases Binary64.ofDecimal significand exponent <;> rfl

theorem not_isDigit_of_stops {rest : List Char} (h : Stops rest) :
    ∀ ch ∈ rest.head?, isDigit ch = false := by
  intro ch hch
  rw [Bool.eq_false_iff]
  intro hd
  exact absurd (isAtomic_of_isDigit hd) (by simp [h ch hch])

theorem digitsAt_eq {c : Cursor} {ds rest : List Char} (hc : c.rest = ds ++ rest)
    (hd : ∀ d ∈ ds, isDigit d) (hr : ∀ ch ∈ rest.head?, isDigit ch = false) :
    digitsAt c = ds ∧ (afterDigits c).rest = rest := by
  have htake : digitsAt c = ds := by
    unfold digitsAt
    rw [hc, List.takeWhile_append_of_pos hd]
    cases rest with
    | nil => simp
    | cons ch rest => rw [List.takeWhile_cons_of_neg (by simpa using hr ch rfl), List.append_nil]
  refine ⟨htake, ?_⟩
  unfold afterDigits Cursor.ahead
  rw [htake, hc]
  simp

theorem Digits.exists_cons (ds : Digits) : ∃ d rest, ds.chars = d :: rest ∧ isDigit d := by
  obtain ⟨d, rest, h⟩ := List.exists_cons_of_ne_nil ds.ne_nil
  exact ⟨d, rest, h, ds.digit d (h ▸ .head _)⟩

/-- The sign of an exponent is read with its letter. -/
theorem afterExponentSign_eq {c : Cursor} {rest : List Char} (e : Exponent)
    (hc : c.rest = e.chars ++ rest) :
    (afterExponentSign c).rest = e.digits.chars ++ rest ∧
      ((c.ahead 1).peek? == some '-') = (e.sign == ['-']) := by
  have hahead : (c.ahead 1).rest = e.sign ++ (e.digits.chars ++ rest) := by
    unfold Cursor.ahead
    rw [hc]
    simp [Exponent.chars]
  obtain ⟨d, tail, hcons, hd⟩ := e.digits.exists_cons
  unfold afterExponentSign Cursor.peek?
  dsimp only
  rw [hahead]
  rcases e.sign_eq with hs | hs | hs <;> rw [hs] at hahead ⊢
  · have h1 : d ≠ '+' := by rintro rfl; exact absurd hd (by decide)
    have h2 : d ≠ '-' := by rintro rfl; exact absurd hd (by decide)
    simp [hcons, h1, h2, hahead]
  · simp [Cursor.ahead, hc, Exponent.chars, hs]
  · simp [Cursor.ahead, hc, Exponent.chars, hs]

section
variable {c : Cursor} {rest : List Char} (hr : Stops rest)
include hr

theorem given_readExponent (e : Exponent) (hc : c.rest = e.chars ++ rest) (positive : Bool)
    (significand : Nat) (exponent : Int) :
    given (readExponent c positive significand exponent) =
      (exponentNumber? positive significand exponent e).map (·, rest) := by
  obtain ⟨hdigits, hsign⟩ := afterExponentSign_eq e hc
  obtain ⟨d, tail, hcons, hd⟩ := e.digits.exists_cons
  have hpeek : (afterExponentSign c).peek? = some d := by
    unfold Cursor.peek?
    rw [hdigits, hcons]
    rfl
  obtain ⟨hat, hafter⟩ := digitsAt_eq hdigits e.digits.digit (not_isDigit_of_stops hr)
  unfold readExponent readExponentDigits exponentNumber?
  simp only [hpeek, hd, if_true, hat, hsign, beq_iff_eq]
  split
  · exact (given_realAt _ _ _ _ _).trans (by rw [hafter])
  · split
    · simp only [given, hafter, Option.map_some]
    · rfl

/-- What is behind the digits of a numeral begins with no digit. -/
theorem not_isDigit_exponentText (x : Option Exponent) :
    ∀ ch ∈ (exponentText x ++ rest).head?, isDigit ch = false := by
  cases x with
  | none => exact not_isDigit_of_stops hr
  | some e =>
    intro ch hch
    obtain rfl : e.letter = ch := Option.some.inj hch
    rcases e.letter_eq with he | he <;> rw [he] <;> decide

theorem not_isDigit_fractionText (f : Option Digits) (x : Option Exponent) :
    ∀ ch ∈ (fractionText f ++ (exponentText x ++ rest)).head?, isDigit ch = false := by
  cases f with
  | none => exact not_isDigit_exponentText hr x
  | some ds =>
    intro ch hch
    obtain rfl : '.' = ch := Option.some.inj hch
    decide

/-- The letter of an exponent tells that there is one. -/
theorem letter_eq_isSome {x : Option Exponent} (hc : c.rest = exponentText x ++ rest) :
    (c.peek? == some 'e' || c.peek? == some 'E') = x.isSome := by
  unfold Cursor.peek?
  rw [hc]
  cases x with
  | none =>
    cases rest with
    | nil => rfl
    | cons ch rest =>
      have hch := hr ch rfl
      have h1 : ch ≠ 'e' := by rintro rfl; exact absurd hch (by decide)
      have h2 : ch ≠ 'E' := by rintro rfl; exact absurd hch (by decide)
      simp [exponentText, h1, h2]
  | some e => rcases e.letter_eq with he | he <;> simp [exponentText, Exponent.chars, he]

/-- The point of a fraction tells that there is one. -/
theorem point_eq_isSome {f : Option Digits} {x : Option Exponent}
    (hc : c.rest = fractionText f ++ (exponentText x ++ rest)) :
    (c.peek? == some '.') = f.isSome := by
  unfold Cursor.peek?
  rw [hc]
  cases f with
  | some ds => rfl
  | none =>
    cases x with
    | some e => rcases e.letter_eq with he | he <;> simp [fractionText, exponentText, Exponent.chars, he]
    | none =>
      cases rest with
      | nil => rfl
      | cons ch rest =>
        have hch := hr ch rfl
        have hne : ch ≠ '.' := by rintro rfl; exact absurd hch (by decide)
        simp [fractionText, exponentText, hne]

theorem given_readFraction (ds : Digits) (x : Option Exponent)
    (hc : c.rest = '.' :: (ds.chars ++ (exponentText x ++ rest))) (positive : Bool)
    (significand : Nat) (exponent : Int) :
    given (readFraction c positive significand exponent) =
      (fractionNumber? positive significand exponent ds x).map (·, rest) := by
  have hahead : (c.ahead 1).rest = ds.chars ++ (exponentText x ++ rest) := by
    unfold Cursor.ahead
    rw [hc]
    rfl
  obtain ⟨hat, hafter⟩ := digitsAt_eq hahead ds.digit (not_isDigit_exponentText hr x)
  have hempty : ds.chars.isEmpty = false := by
    rw [List.isEmpty_eq_false_iff]
    exact ds.ne_nil
  unfold readFraction fractionNumber?
  simp only [hat, hempty, letter_eq_isSome hr hafter]
  cases x with
  | none => exact (given_realAt _ _ _ _ _).trans (by rw [hafter]; rfl)
  | some e => exact given_readExponent hr e hafter _ _ _

theorem given_readAfterInteger (n : Numeral)
    (hc : c.rest = fractionText n.fraction ++ (exponentText n.exponent ++ rest)) :
    given (readAfterInteger c (!n.negative) (gather maxSignificand 0 n.whole.chars).1
        (gather maxSignificand 0 n.whole.chars).2.length) =
      n.value?.map (·, rest) := by
  unfold readAfterInteger Numeral.value?
  rw [point_eq_isSome hr hc]
  cases hf : n.fraction with
  | some ds =>
    rw [hf] at hc
    exact given_readFraction hr ds _ hc _ _ _
  | none =>
    rw [hf] at hc
    rw [letter_eq_isSome hr hc]
    cases hx : n.exponent with
    | some e =>
      rw [hx] at hc
      exact given_readExponent hr e hc _ _ _
    | none =>
      rw [hx] at hc
      have hc : c.rest = rest := hc
      simp only [Option.isSome_none, Bool.false_eq_true, if_false]
      split
      · rw [given, hc]
        rfl
      · exact (given_realAt _ _ _ _ _).trans (by rw [hc])

theorem given_readMagnitude (n : Numeral) (hc : c.rest = n.magnitude ++ rest) :
    given (readMagnitude c (!n.negative)) = n.value?.map (·, rest) := by
  unfold Numeral.magnitude at hc
  simp only [List.append_assoc] at hc
  obtain ⟨d, tail, hcons, hd⟩ := n.whole.exists_cons
  have hpeek : c.peek? = some d := by
    unfold Cursor.peek?
    rw [hc, hcons]
    rfl
  unfold readMagnitude
  simp only [hpeek]
  rcases n.whole_eq with hzero | hne
  · have hd : d = '0' := by
      rw [hcons] at hzero
      exact (List.cons.inj hzero).1
    have hahead : (c.ahead 1).rest =
        fractionText n.fraction ++ (exponentText n.exponent ++ rest) := by
      unfold Cursor.ahead
      rw [hc, hzero]
      rfl
    have hany : (c.ahead 1).peek?.any isDigit = false := by
      rw [Option.any_eq_false]
      unfold Cursor.peek?
      rw [hahead]
      exact fun ch hch => by simp [not_isDigit_fractionText hr _ _ ch hch]
    have hgather : gather maxSignificand 0 n.whole.chars = (0, []) := by
      rw [hzero]
      rfl
    have hafter := given_readAfterInteger hr n hahead
    rw [hgather] at hafter
    rw [if_pos hd, if_neg (by simp [hany])]
    exact hafter
  · have hne : d ≠ '0' := by
      rintro rfl
      exact hne (by rw [hcons]; rfl)
    obtain ⟨hat, hafter⟩ := digitsAt_eq hc n.whole.digit (not_isDigit_fractionText hr _ _)
    rw [if_neg hne, if_pos hd, hat]
    exact given_readAfterInteger hr n hafter

/-- **A numeral** is read as its number, unless that is out of range. -/
theorem given_readNumber (n : Numeral) (hc : c.rest = n.chars ++ rest) :
    given (readNumber c) = n.value?.map (·, rest) := by
  unfold Numeral.chars at hc
  simp only [List.append_assoc] at hc
  have hmagnitude := fun c' hc' => given_readMagnitude (c := c') hr n hc'
  obtain ⟨d, tail, hcons, hd⟩ := n.whole.exists_cons
  unfold readNumber Cursor.peek?
  cases hn : n.negative with
  | true =>
    rw [hn, if_pos rfl] at hc
    rw [hn] at hmagnitude
    rw [hc]
    exact hmagnitude _ (by unfold Cursor.ahead; rw [hc]; rfl)
  | false =>
    rw [hn, if_neg (by simp), List.nil_append] at hc
    rw [hn] at hmagnitude
    have hne : d ≠ '-' := by rintro rfl; exact absurd hd (by decide)
    rw [hc]
    unfold Numeral.magnitude
    rw [hcons, if_neg (by simp [hne])]
    exact hmagnitude _ hc

end

/-! ## Words -/

theorem outcome_readWord {α : Type} {c : Cursor} {word rest : List Char} (value : α)
    (hne : word ≠ []) (hc : c.rest = word ++ rest) :
    outcome (readWord c word value) = some (value, rest) := by
  have key : ∀ word (c : Cursor), c.rest = word ++ rest →
      ∃ d, expectWord c word = .ok d ∧ d.rest = rest := by
    intro word
    induction word with
    | nil => exact fun c hc => ⟨c, rfl, hc⟩
    | cons w word ih =>
      intro c hc
      obtain ⟨s, hs, hv, hr⟩ := Cursor.next?_eq hc
      obtain ⟨d, hd, hrest⟩ := ih s.next hr
      refine ⟨d, ?_, hrest⟩
      rw [expectWord, hs]
      dsimp only
      rw [if_pos hv, hd]
  obtain ⟨w, word, rfl⟩ := List.exists_cons_of_ne_nil hne
  obtain ⟨s, hs, -, hr⟩ := Cursor.next?_eq hc
  obtain ⟨d, hd, hrest⟩ := key word s.next hr
  unfold readWord
  rw [hs]
  dsimp only [List.drop_succ_cons, List.drop_zero]
  split
  · next he => cases he.symm.trans hd
  · next d' he =>
    obtain rfl := Except.ok.inj (he.symm.trans hd)
    rw [outcome, hrest]

/-! ## Strings -/

/-- A character, or a code unit that may be half a character. -/
def Piece.value : Piece → Char ⊕ Nat
  | .plain c _ => .inl c
  | .short letter _ => .inl ((shortEscape? letter).getD letter)
  | .unit d0 d1 d2 d3 _ => .inr ((fourHex? d0 d1 d2 d3).getD 0)

/-- The characters that the body of a string stands for, unless half a pair of code units is left
over. -/
def bodyText? : List Piece → Option (List Char)
  | [] => some []
  | p :: pieces =>
    match p.value with
    | .inl ch => (bodyText? pieces).map (ch :: ·)
    | .inr n =>
      if isTrailing n then none
      else if isLeading n then
        match pieces with
        | [] => none
        | q :: pieces =>
          match q.value with
          | .inl _ => none
          | .inr m => if isTrailing m then (bodyText? pieces).map (pairChar n m :: ·) else none
      else (bodyText? pieces).map (Char.ofNat n :: ·)

theorem shortEscape?_eq {letter : Char} (h : letter ∈ ['"', '\\', '/', 'b', 'f', 'n', 'r', 't']) :
    letter ≠ 'u' ∧ shortEscape? letter = some ((shortEscape? letter).getD letter) := by
  simp only [List.mem_cons, List.not_mem_nil, or_false] at h
  rcases h with rfl | rfl | rfl | rfl | rfl | rfl | rfl | rfl <;> decide

theorem exists_hexValue? {d : Char} (h : IsHex d) : ∃ v, hexValue? d = some v := by
  unfold hexValue?
  rcases h with h | h | h
  · exact ⟨_, if_pos h⟩
  · by_cases h0 : '0' ≤ d ∧ d ≤ '9'
    · exact ⟨_, if_pos h0⟩
    · exact ⟨_, by rw [if_neg h0, if_pos h]⟩
  · by_cases h0 : '0' ≤ d ∧ d ≤ '9'
    · exact ⟨_, if_pos h0⟩
    · by_cases h1 : 'a' ≤ d ∧ d ≤ 'f'
      · exact ⟨_, by rw [if_neg h0, if_pos h1]⟩
      · exact ⟨_, by rw [if_neg h0, if_neg h1, if_pos h]⟩

theorem fourHex?_eq {d0 d1 d2 d3 : Char} (h : IsHex d0 ∧ IsHex d1 ∧ IsHex d2 ∧ IsHex d3) :
    fourHex? d0 d1 d2 d3 = some ((fourHex? d0 d1 d2 d3).getD 0) := by
  obtain ⟨v0, h0⟩ := exists_hexValue? h.1
  obtain ⟨v1, h1⟩ := exists_hexValue? h.2.1
  obtain ⟨v2, h2⟩ := exists_hexValue? h.2.2.1
  obtain ⟨v3, h3⟩ := exists_hexValue? h.2.2.2
  simp [fourHex?, h0, h1, h2, h3]

theorem outcome_readFourHex {c : Cursor} {d0 d1 d2 d3 : Char} {rest : List Char}
    (h : IsHex d0 ∧ IsHex d1 ∧ IsHex d2 ∧ IsHex d3) (hc : c.rest = d0 :: d1 :: d2 :: d3 :: rest) :
    ∃ s : Step c Nat, readFourHex c = .ok s ∧ s.value = (fourHex? d0 d1 d2 d3).getD 0 ∧
      s.next.rest = rest := by
  unfold readFourHex
  dsimp only
  split
  · next c0 c1 c2 c3 rest' hc' =>
    obtain ⟨rfl, rfl, rfl, rfl, rfl⟩ : c0 = d0 ∧ c1 = d1 ∧ c2 = d2 ∧ c3 = d3 ∧ rest' = rest := by
      simpa using hc'.symm.trans hc
    split
    · next n hn => exact ⟨_, rfl, by rw [hn]; rfl, rfl⟩
    · next hn =>
      rw [fourHex?_eq h] at hn
      cases hn
  · next hne => exact absurd hc (hne _ _ _ _ _)

theorem readInPair_eq {c : Cursor} {ch : Char} {rest : List Char} (hc : c.rest = ch :: rest) :
    ∃ s, readInPair c ch = .ok s ∧ s.next.rest = rest := by
  obtain ⟨s, hs, hv, hr⟩ := Cursor.next?_eq hc
  unfold readInPair
  rw [hs]
  dsimp only
  rw [if_pos hv]
  exact ⟨_, rfl, hr⟩

theorem readInPair_eq_error {c : Cursor} {ch ch' : Char} {rest : List Char}
    (hc : c.rest = ch' :: rest) (hne : ch' ≠ ch) : ∃ f, readInPair c ch = .error f := by
  obtain ⟨s, hs, hv, -⟩ := Cursor.next?_eq hc
  unfold readInPair
  rw [hs]
  dsimp only
  rw [if_neg (hv ▸ hne)]
  exact ⟨_, rfl⟩

/-- What an escape of a code unit is read as, by the pieces behind it. -/
def unitChar? (n : Nat) (pieces : List Piece) : Option (Char × List Piece) :=
  if isTrailing n then none
  else if isLeading n then
    match pieces with
    | [] => none
    | q :: pieces =>
      match q.value with
      | .inl _ => none
      | .inr m => if isTrailing m then some (pairChar n m, pieces) else none
  else some (Char.ofNat n, pieces)

/-- The character that pieces begin with, and the pieces behind it. -/
def Piece.read? (p : Piece) (pieces : List Piece) : Option (Char × List Piece) :=
  match p.value with
  | .inl ch => some (ch, pieces)
  | .inr n => unitChar? n pieces

theorem bodyText?_cons (p : Piece) (pieces : List Piece) :
    bodyText? (p :: pieces) =
      match p.read? pieces with
      | none => none
      | some (ch, pieces) => (bodyText? pieces).map (ch :: ·) := by
  rw [bodyText?]
  unfold Piece.read? unitChar?
  cases p.value with
  | inl ch => rfl
  | inr n =>
    dsimp only
    by_cases ht : isTrailing n
    · rw [if_pos ht, if_pos ht]
    rw [if_neg ht, if_neg ht]
    by_cases hl : isLeading n
    · rw [if_pos hl, if_pos hl]
      cases pieces with
      | nil => rfl
      | cons q pieces =>
        dsimp only
        cases q.value with
        | inl ch => rfl
        | inr m => by_cases hm : isTrailing m <;> simp [hm]
    · rw [if_neg hl, if_neg hl]

theorem Piece.length_of_read? {p : Piece} {pieces pieces' : List Piece} {ch : Char}
    (h : p.read? pieces = some (ch, pieces')) : pieces'.length ≤ pieces.length := by
  unfold read? unitChar? at h
  split at h
  · obtain ⟨-, rfl⟩ := Prod.mk.inj (Option.some.inj h)
    exact Nat.le_refl _
  split at h
  · cases h
  split at h
  · cases pieces with
    | nil => cases h
    | cons q pieces =>
      dsimp only at h
      split at h
      · cases h
      · split at h
        · obtain ⟨-, rfl⟩ := Prod.mk.inj (Option.some.inj h)
          exact Nat.le_succ _
        · cases h
  · obtain ⟨-, rfl⟩ := Prod.mk.inj (Option.some.inj h)
    exact Nat.le_refl _

theorem bodyChars_cons (p : Piece) (pieces : List Piece) :
    bodyChars (p :: pieces) = p.chars ++ bodyChars pieces := List.flatMap_cons

/-- **An escape of a code unit** is read with the one behind it when they are a pair. -/
theorem outcome_readUnicode {c : Cursor} {d0 d1 d2 d3 : Char} {pieces : List Piece}
    {rest : List Char} (h : IsHex d0 ∧ IsHex d1 ∧ IsHex d2 ∧ IsHex d3)
    (hc : c.rest = d0 :: d1 :: d2 :: d3 :: (bodyChars pieces ++ '"' :: rest)) :
    outcome (readUnicode c) = (unitChar? ((fourHex? d0 d1 d2 d3).getD 0) pieces).map
      fun read => (read.1, bodyChars read.2 ++ '"' :: rest) := by
  obtain ⟨s, hs, hv, hnext⟩ := outcome_readFourHex h hc
  unfold readUnicode unitChar?
  rw [hs]
  dsimp only
  rw [hv]
  by_cases ht : isTrailing ((fourHex? d0 d1 d2 d3).getD 0)
  · rw [if_pos ht, if_pos ht]
    rfl
  rw [if_neg ht, if_neg ht]
  by_cases hl : isLeading ((fourHex? d0 d1 d2 d3).getD 0)
  · rw [if_pos hl, if_pos hl]
    -- anything but a second escape of a code unit is refused where it does not go on as one
    cases pieces with
    | nil =>
      obtain ⟨f, hf⟩ := readInPair_eq_error hnext (by decide : '"' ≠ '\\')
      rw [hf]
      rfl
    | cons q pieces =>
      rw [bodyChars_cons, List.append_assoc] at hnext
      cases q with
      | plain ch hch =>
        obtain ⟨f, hf⟩ := readInPair_eq_error hnext hch.2.2
        rw [hf]
        rfl
      | short letter hletter =>
        obtain ⟨slash, hslash, hnext⟩ := readInPair_eq hnext
        obtain ⟨f, hf⟩ := readInPair_eq_error hnext (shortEscape?_eq hletter).1
        rw [hslash]
        dsimp only
        rw [hf]
        rfl
      | unit e0 e1 e2 e3 he =>
        obtain ⟨slash, hslash, hnext⟩ := readInPair_eq hnext
        obtain ⟨u, hu, hnext⟩ := readInPair_eq hnext
        obtain ⟨t, ht, htv, hnext⟩ := outcome_readFourHex he hnext
        rw [hslash]
        dsimp only
        rw [hu]
        dsimp only
        rw [ht]
        dsimp only [Piece.value]
        rw [htv]
        by_cases hm : isTrailing ((fourHex? e0 e1 e2 e3).getD 0)
        · rw [if_pos hm, if_pos hm]
          have hrest : t.next.rest = bodyChars pieces ++ '"' :: rest := hnext
          simp only [outcome, Step.map, Step.andThen, Option.map_some, hrest]
        · rw [if_neg hm, if_neg hm]
          rfl
  · rw [if_neg hl, if_neg hl]
    simp only [outcome, Step.map, Option.map_some, hnext, hv]

/-- An escape is read after its back-slash. -/
theorem outcome_readEscape {c : Cursor} {p : Piece} {pieces : List Piece} {rest : List Char}
    (hc : '\\' :: c.rest = p.chars ++ (bodyChars pieces ++ '"' :: rest)) :
    outcome (readEscape c) =
      (p.read? pieces).map fun read => (read.1, bodyChars read.2 ++ '"' :: rest) := by
  unfold readEscape
  cases p with
  | plain ch hch => exact absurd (List.cons.inj hc).1.symm hch.2.2
  | short letter hletter =>
    obtain ⟨s, hs, hv, hnext⟩ := Cursor.next?_eq (List.cons.inj hc).2
    have hnext : s.next.rest = bodyChars pieces ++ '"' :: rest := hnext
    obtain ⟨hne, heq⟩ := shortEscape?_eq hletter
    rw [hs]
    dsimp only
    rw [hv, if_neg hne, heq]
    simp only [outcome, Step.map, hnext]
    rfl
  | unit d0 d1 d2 d3 h =>
    obtain ⟨s, hs, hv, hnext⟩ := Cursor.next?_eq (List.cons.inj hc).2
    have hread := outcome_readUnicode h hnext
    rw [hs]
    dsimp only [Piece.read?, Piece.value]
    rw [if_pos hv, ← hread]
    cases readUnicode s.next <;> rfl

/-- One escape in the body of a string. -/
theorem readChars_escape {origin c : Cursor} (h : c.left ≤ origin.left) (done : List Char)
    {tail : List Char} (hc : c.rest = '\\' :: tail) :
    ∃ d : Cursor, d.rest = tail ∧
      (outcome (readEscape d) = none → outcome (readChars c h done) = none) ∧
      ∀ ch rest, outcome (readEscape d) = some (ch, rest) →
        ∃ (e : Cursor) (he : e.left ≤ origin.left), e.rest = rest ∧
          readChars c h done = readChars e he (ch :: done) := by
  obtain ⟨s, hs, hv, hnext⟩ := Cursor.next?_eq hc
  have hslash : ('\\' : Char) ≠ '"' := by decide
  refine ⟨s.next, hnext, fun hnone => ?_, fun ch rest hsome => ?_⟩
  · rw [readChars]
    simp only [hs, hv, if_neg hslash, if_true]
    cases hread : readEscape s.next with
    | error f => rfl
    | ok e =>
      rw [hread] at hnone
      cases hnone
  · cases hread : readEscape s.next with
    | error f =>
      rw [hread] at hsome
      cases hsome
    | ok e =>
      rw [hread] at hsome
      obtain ⟨rfl, rfl⟩ := Prod.mk.inj (Option.some.inj hsome)
      have hshort := e.shorter
      have hshort' := s.shorter
      refine ⟨e.next, by omega, rfl, ?_⟩
      rw [readChars]
      simp only [hs, hv, if_neg hslash, if_true, hread]

/-- **The body of a string** is read as its text. -/
theorem outcome_readChars (pieces : List Piece) {rest : List Char} {origin c : Cursor}
    (h : c.left ≤ origin.left) (done : List Char)
    (hc : c.rest = bodyChars pieces ++ '"' :: rest) :
    outcome (readChars c h done) =
      (bodyText? pieces).map fun cs => (String.ofList (done.reverse ++ cs), rest) := by
  induction hn : pieces.length using Nat.strongRecOn generalizing pieces c done with
  | _ n ih =>
    have hmap : ∀ (ch : Char) (text : Option (List Char)),
        (text.map (ch :: ·)).map (fun cs => (String.ofList (done.reverse ++ cs), rest)) =
          text.map fun cs => (String.ofList ((ch :: done).reverse ++ cs), rest) := by
      intro ch text
      cases text <;> simp
    cases pieces with
    | nil =>
      obtain ⟨s, hs, hv, hnext⟩ := Cursor.next?_eq hc
      rw [readChars]
      simp [hs, hv, outcome, Step.ofLater, Step.map, hnext, bodyText?]
    | cons p pieces =>
      rw [bodyChars_cons, List.append_assoc] at hc
      rw [List.length_cons] at hn
      rw [bodyText?_cons]
      by_cases hplain : ∃ ch hch, p = .plain ch hch
      · obtain ⟨ch, hch, rfl⟩ := hplain
        obtain ⟨s, hs, hv, hnext⟩ := Cursor.next?_eq hc
        rw [readChars]
        simp only [hs, hv, if_neg hch.2.1, if_neg hch.2.2, if_neg (Nat.not_lt.2 hch.1)]
        rw [ih _ (by omega) pieces _ _ hnext rfl]
        exact (hmap _ _).symm
      · -- an escape, which may take the next piece with it
        obtain ⟨tail, htail⟩ : ∃ tail, c.rest = '\\' :: tail := by
          cases p with
          | plain ch hch => exact absurd ⟨ch, hch, rfl⟩ hplain
          | short letter hletter => exact ⟨_, hc⟩
          | unit d0 d1 d2 d3 hex => exact ⟨_, hc⟩
        obtain ⟨d, hd, hnone, hsome⟩ := readChars_escape h done htail
        have hread := outcome_readEscape (c := d) (hd ▸ htail.symm.trans hc)
        cases hp : p.read? pieces with
        | none =>
          rw [hp] at hread
          exact hnone hread
        | some read =>
          rw [hp] at hread
          obtain ⟨e, he, hrest, heq⟩ := hsome _ _ hread
          have hle := Piece.length_of_read? hp
          rw [heq, ih _ (by omega) read.2 he (read.1 :: done) hrest rfl]
          exact (hmap _ _).symm

/-- **A string** is read as the text of its body. -/
theorem outcome_readString {c : Cursor} {pieces : List Piece} {rest : List Char}
    (hc : c.rest = '"' :: (bodyChars pieces ++ '"' :: rest)) :
    outcome (readString c) = ((bodyText? pieces).map String.ofList).map (·, rest) := by
  obtain ⟨s, hs, -, hnext⟩ := Cursor.next?_eq hc
  unfold readString
  rw [hs, Option.map_map]
  exact outcome_readChars pieces _ [] hnext

end BuildLayout.Json
