import BuildLayout.Json.Cursor
import BuildLayout.Json.Value

/-! # Words, strings and numbers of a JSON text

Each kind of scalar has a reader, which gives its value, and a skipper, which only checks its
spelling: a skipped string may hold an unpaired surrogate, and a skipped number may be of any size.
-/

namespace BuildLayout.Json

/-! ## Words -/

/-- Reads the characters of a word one after the other. -/
def expectWord (c : Cursor) : List Char → Except Fault Cursor
  | [] => .ok c
  | w :: word =>
    match c.next? with
    | none => .error (c.fault .endInValue)
    | some s => if s.value = w then expectWord s.next word else .error (c.faultPast .expectedWord)

theorem left_expectWord {word : List Char} {c d : Cursor} (h : expectWord c word = .ok d) :
    d.left ≤ c.left := by
  induction word generalizing c with
  | nil =>
    rw [expectWord] at h
    cases h
    exact Nat.le_refl _
  | cons w word ih =>
    rw [expectWord] at h
    split at h
    · cases h
    · next s _ =>
      split at h
      · exact Nat.le_of_lt (Nat.lt_of_le_of_lt (ih h) s.shorter)
      · cases h

/-- Reads a word whose first character was looked at and is consumed here; the value is given. -/
def readWord {α : Type} (c : Cursor) (word : List Char) (value : α) : Except Fault (Step c α) :=
  match c.next? with
  | none => .error (c.fault .endInValue)
  | some s =>
    match h : expectWord s.next (word.drop 1) with
    | .error f => .error f
    | .ok d => .ok ⟨value, d, Nat.lt_of_le_of_lt (left_expectWord h) s.shorter⟩

/-! ## Strings -/

/-- The value of a digit in base sixteen. -/
def hexValue? (ch : Char) : Option Nat :=
  if '0' ≤ ch ∧ ch ≤ '9' then some (ch.toNat - 0x30)
  else if 'a' ≤ ch ∧ ch ≤ 'f' then some (ch.toNat - 0x57)
  else if 'A' ≤ ch ∧ ch ≤ 'F' then some (ch.toNat - 0x37)
  else none

/-- The value of four digits in base sixteen. -/
def fourHex? (c0 c1 c2 c3 : Char) : Option Nat := do
  let v0 ← hexValue? c0
  let v1 ← hexValue? c1
  let v2 ← hexValue? c2
  let v3 ← hexValue? c3
  return ((v0 * 16 + v1) * 16 + v2) * 16 + v3

/-- Reads four digits in base sixteen. They are taken as four bytes: when there are fewer, the text
ends in the string, and when they are no digits the fault is after them. -/
def readFourHex (c : Cursor) : Except Fault (Step c Nat) :=
  let refused : Except Fault (Step c Nat) :=
    if c.bytesLeft < 4 then .error (c.faultAfter c.bytesLeft .endInString)
    else .error (c.faultAfter 4 .invalidEscape)
  match h : c.rest with
  | c0 :: c1 :: c2 :: c3 :: rest =>
    match fourHex? c0 c1 c2 c3 with
    | some n => .ok ⟨n, ⟨rest, c.line, c.column + 4⟩, by simp [Cursor.left, h]; omega⟩
    | none => refused
  | _ => refused

/-- A code unit that begins a pair. -/
def isLeading (n : Nat) : Bool := 0xD800 ≤ n && n ≤ 0xDBFF

/-- A code unit that ends a pair. -/
def isTrailing (n : Nat) : Bool := 0xDC00 ≤ n && n ≤ 0xDFFF

/-- The character of a pair of code units. -/
def pairChar (n m : Nat) : Char :=
  Char.ofNat (0x10000 + (n - 0xD800) * 0x400 + (m - 0xDC00))

/-- Consumes a character that must come next in a pair of escapes. -/
def readInPair (c : Cursor) (ch : Char) : Except Fault (Step c Unit) :=
  match c.next? with
  | none => .error (c.fault .endInString)
  | some s => if s.value = ch then .ok (s.map fun _ => ()) else .error (c.faultPast .endOfHexEscape)

/-- Reads the escape of a code point after its `u`: one unit, or a pair of two escapes. -/
def readUnicode (c : Cursor) : Except Fault (Step c Char) :=
  match readFourHex c with
  | .error f => .error f
  | .ok s =>
    if isTrailing s.value then .error (s.next.fault .loneSurrogate)
    else if isLeading s.value then
      match readInPair s.next '\\' with
      | .error f => .error f
      | .ok slash =>
        match readInPair slash.next 'u' with
        | .error f => .error f
        | .ok u =>
          match readFourHex u.next with
          | .error f => .error f
          | .ok t =>
            if isTrailing t.value then
              .ok ((s.andThen (slash.andThen (u.andThen t))).map fun _ => pairChar s.value t.value)
            else .error (t.next.fault .loneSurrogate)
    else .ok (s.map Char.ofNat)

/-- The character that a letter after a back-slash stands for. -/
def shortEscape? (ch : Char) : Option Char :=
  if ch = '"' ∨ ch = '\\' ∨ ch = '/' then some ch
  else if ch = 'b' then some '\x08'
  else if ch = 'f' then some '\x0C'
  else if ch = 'n' then some '\n'
  else if ch = 'r' then some '\r'
  else if ch = 't' then some '\t'
  else none

/-- Reads an escape after its back-slash. -/
def readEscape (c : Cursor) : Except Fault (Step c Char) :=
  match c.next? with
  | none => .error (c.fault .endInString)
  | some s =>
    if s.value = 'u' then
      match readUnicode s.next with
      | .error f => .error f
      | .ok t => .ok (s.andThen t)
    else match shortEscape? s.value with
      | some ch => .ok (s.map fun _ => ch)
      | none => .error (c.faultPast .invalidEscape)

/-- Reads the characters of a string up to the quote that ends it, as a part of a step from
`origin`; `done` holds those before, last first. -/
def readChars {origin : Cursor} (c : Cursor) (h : c.left ≤ origin.left) (done : List Char) :
    Except Fault (Step origin String) :=
  match c.next? with
  | none => .error (c.fault .endInString)
  | some s =>
    have hs := s.shorter
    if s.value = '"' then .ok ((s.map fun _ => String.ofList done.reverse).ofLater h)
    else if s.value = '\\' then
      match readEscape s.next with
      | .error f => .error f
      | .ok e =>
        have he := e.shorter
        readChars e.next (by omega) (e.value :: done)
    else if s.value.toNat < 0x20 then .error (c.faultPast .controlCharacter)
    else readChars s.next (by omega) (s.value :: done)
termination_by c.left

/-- Checks an escape after its back-slash. -/
def skipEscape (c : Cursor) : Except Fault (Step c Unit) :=
  match c.next? with
  | none => .error (c.fault .endInString)
  | some s =>
    if s.value = 'u' then
      match readFourHex s.next with
      | .error f => .error f
      | .ok t => .ok ((s.andThen t).map fun _ => ())
    else match shortEscape? s.value with
      | some _ => .ok (s.map fun _ => ())
      | none => .error (c.faultPast .invalidEscape)

/-- Checks the characters of a string up to the quote that ends it, as a part of a step from
`origin`. -/
def skipChars {origin : Cursor} (c : Cursor) (h : c.left ≤ origin.left) :
    Except Fault (Step origin Unit) :=
  match c.next? with
  | none => .error (c.fault .endInString)
  | some s =>
    have hs := s.shorter
    if s.value = '"' then .ok ((s.map fun _ => ()).ofLater h)
    else if s.value = '\\' then
      match skipEscape s.next with
      | .error f => .error f
      | .ok e =>
        have he := e.shorter
        skipChars e.next (by omega)
    else if s.value.toNat < 0x20 then .error (c.fault .controlCharacter)
    else skipChars s.next (by omega)
termination_by c.left

/-- Reads a string, from its first quote on. -/
def readString (c : Cursor) : Except Fault (Step c String) :=
  match c.next? with
  | none => .error (c.fault .endInValue)
  | some s => readChars s.next (Nat.le_of_lt s.shorter) []

/-- Checks a string, from its first quote on. -/
def skipString (c : Cursor) : Except Fault (Step c Unit) :=
  match c.next? with
  | none => .error (c.fault .endInValue)
  | some s => skipChars s.next (Nat.le_of_lt s.shorter)

/-! ## Numbers -/

/-- A decimal digit. -/
def isDigit (ch : Char) : Bool := '0' ≤ ch && ch ≤ '9'

/-- The digits at the cursor. -/
def digitsAt (c : Cursor) : List Char := c.rest.takeWhile isDigit

/-- The cursor after the digits at it. -/
def afterDigits (c : Cursor) : Cursor := c.ahead (digitsAt c).length

/-- The greatest significand that is kept exactly. -/
def maxSignificand : Nat := Nat.pow 2 64 - 1

/-- The greatest exponent that is kept exactly. -/
def maxExponent : Nat := Nat.pow 2 31 - 1

/-- Appends digits to a number as long as it stays within a bound; gives it with the digits left
out. -/
def gather (bound : Nat) : Nat → List Char → Nat × List Char
  | n, [] => (n, [])
  | n, d :: ds =>
    let m := n * 10 + (d.toNat - 0x30)
    if bound < m then (n, d :: ds) else gather bound m ds

/-- The number with a significand and an exponent, read up to the cursor. -/
def realAt (c : Cursor) (positive : Bool) (significand : Nat) (exponent : Int) :
    Except Fault Number :=
  match Binary64.ofDecimal significand exponent with
  | none => .error (c.fault .numberOutOfRange)
  | some x => .ok (.real (if positive then x else x.neg))

/-- The integer with a significand; one that is too small, and a negative zero, is no integer. -/
def integerNumber (positive : Bool) (significand : Nat) : Number :=
  if positive then .integer significand
  else if significand = 0 ∨ Nat.pow 2 63 < significand then .real (Binary64.ofNat significand).neg
  else .integer (-(significand : Int))

/-- The cursor after the letter of an exponent and its sign, if there is one. -/
def afterExponentSign (c : Cursor) : Cursor :=
  let c := c.ahead 1
  if c.peek? == some '+' || c.peek? == some '-' then c.ahead 1 else c

/-- Reads the digits of an exponent. -/
def readExponentDigits (c : Cursor) (positive negative : Bool) (significand : Nat)
    (exponent : Int) : Except Fault (Number × Cursor) :=
  match c.peek? with
  | none => .error (c.fault .endInValue)
  | some ch =>
    if isDigit ch then
      let ds := digitsAt c
      let (e, beyond) := gather maxExponent 0 ds
      if beyond.isEmpty then
        match realAt (afterDigits c) positive significand
            (if negative then exponent - e else exponent + e) with
        | .error f => .error f
        | .ok n => .ok (n, afterDigits c)
      else if significand = 0 ∨ negative = true then
        .ok (.real (if positive then .zero else Binary64.zero.neg), afterDigits c)
      else .error ((c.ahead (ds.length - beyond.length + 1)).fault .numberOutOfRange)
    else .error (c.faultPast .invalidNumber)

/-- Reads the exponent of a number, at its letter. -/
def readExponent (c : Cursor) (positive : Bool) (significand : Nat) (exponent : Int) :
    Except Fault (Number × Cursor) :=
  readExponentDigits (afterExponentSign c) positive ((c.ahead 1).peek? == some '-') significand
    exponent

/-- Reads the fraction of a number, at its point. -/
def readFraction (c : Cursor) (positive : Bool) (significand : Nat) (exponent : Int) :
    Except Fault (Number × Cursor) :=
  let c := c.ahead 1
  let ds := digitsAt c
  if ds.isEmpty then
    match c.peek? with
    | none => .error (c.fault .endInValue)
    | some _ => .error (c.faultPast .invalidNumber)
  else
    let (significand, beyond) := gather maxSignificand significand ds
    let exponent := exponent - ((ds.length - beyond.length : Nat) : Int)
    let last := afterDigits c
    if last.peek? == some 'e' || last.peek? == some 'E' then
      readExponent last positive significand exponent
    else match realAt last positive significand exponent with
      | .error f => .error f
      | .ok n => .ok (n, last)

/-- Reads what follows the integral digits of a number; `beyond` counts those that the significand
left out. -/
def readAfterInteger (c : Cursor) (positive : Bool) (significand beyond : Nat) :
    Except Fault (Number × Cursor) :=
  if c.peek? == some '.' then readFraction c positive significand beyond
  else if c.peek? == some 'e' || c.peek? == some 'E' then
    readExponent c positive significand beyond
  else if beyond = 0 then .ok (integerNumber positive significand, c)
  else match realAt c positive significand beyond with
    | .error f => .error f
    | .ok n => .ok (n, c)

/-- Reads a number after its sign. -/
def readMagnitude (c : Cursor) (positive : Bool) : Except Fault (Number × Cursor) :=
  match c.peek? with
  | none => .error (c.fault .endInValue)
  | some ch =>
    if ch = '0' then
      let c := c.ahead 1
      if c.peek?.any isDigit then .error (c.faultPast .invalidNumber)
      else readAfterInteger c positive 0 0
    else if isDigit ch then
      let (significand, beyond) := gather maxSignificand 0 (digitsAt c)
      readAfterInteger (afterDigits c) positive significand beyond.length
    else .error (c.faultPast .invalidNumber)

/-- Reads a number, from its sign or first digit on. -/
def readNumber (c : Cursor) : Except Fault (Number × Cursor) :=
  if c.peek? == some '-' then readMagnitude (c.ahead 1) false else readMagnitude c true

/-- Checks the exponent of a number, at its letter. -/
def skipExponent (c : Cursor) : Except Fault Cursor :=
  let c := afterExponentSign c
  if c.peek?.any isDigit then .ok (afterDigits c) else .error (c.faultPast .invalidNumber)

/-- Checks the fraction of a number, at its point. -/
def skipFraction (c : Cursor) : Except Fault Cursor :=
  let c := c.ahead 1
  if (digitsAt c).isEmpty then .error (c.faultPast .invalidNumber)
  else
    let last := afterDigits c
    if last.peek? == some 'e' || last.peek? == some 'E' then skipExponent last else .ok last

/-- Checks the integral digits of a number. -/
def skipInteger (c : Cursor) : Except Fault Cursor :=
  match c.peek? with
  | none => .error (c.fault .invalidNumber)
  | some ch =>
    if ch = '0' then
      let c := c.ahead 1
      if c.peek?.any isDigit then .error (c.faultPast .invalidNumber) else .ok c
    else if isDigit ch then .ok (afterDigits c)
    else .error (c.faultPast .invalidNumber)

/-- Checks a number, from its sign or first digit on. -/
def skipNumber (c : Cursor) : Except Fault Cursor :=
  match skipInteger (if c.peek? == some '-' then c.ahead 1 else c) with
  | .error f => .error f
  | .ok last =>
    if last.peek? == some '.' then skipFraction last
    else if last.peek? == some 'e' || last.peek? == some 'E' then skipExponent last
    else .ok last

/-! A number consumes something. -/

theorem left_ahead_lt {c : Cursor} {ch : Char} {n : Nat} (hc : c.peek? = some ch) (hn : 0 < n) :
    (c.ahead n).left < c.left := by
  unfold Cursor.peek? at hc
  unfold Cursor.ahead Cursor.left
  cases hr : c.rest with
  | nil => rw [hr] at hc; cases hc
  | cons a rest => simp; omega

theorem left_afterDigits_lt {c : Cursor} {ch : Char} (hc : c.peek? = some ch)
    (hd : isDigit ch = true) : (afterDigits c).left < c.left := by
  refine left_ahead_lt hc ?_
  unfold Cursor.peek? at hc
  unfold digitsAt
  cases hr : c.rest with
  | nil => rw [hr] at hc; cases hc
  | cons a rest =>
    rw [hr] at hc
    cases hc
    simp [hd]

theorem left_afterDigits (c : Cursor) : (afterDigits c).left ≤ c.left :=
  Cursor.left_ahead _ _

theorem left_afterExponentSign (c : Cursor) : (afterExponentSign c).left ≤ c.left := by
  have h := Cursor.left_ahead c 1
  unfold afterExponentSign
  dsimp only
  split
  · exact Nat.le_trans (Cursor.left_ahead _ _) h
  · exact h

theorem left_readExponent {c d : Cursor} {positive : Bool} {m : Nat} {e : Int} {n : Number}
    (h : readExponent c positive m e = .ok (n, d)) : d.left ≤ c.left := by
  have h1 := left_afterExponentSign c
  have h2 := left_afterDigits (afterExponentSign c)
  unfold readExponent readExponentDigits at h
  dsimp only at h
  split at h
  · cases h
  · split at h
    · split at h
      · split at h
        · cases h
        · cases h; omega
      · split at h
        · cases h; omega
        · cases h
    · cases h

theorem left_readFraction {c d : Cursor} {positive : Bool} {m : Nat} {e : Int} {n : Number}
    (h : readFraction c positive m e = .ok (n, d)) : d.left ≤ c.left := by
  have h1 := Cursor.left_ahead c 1
  have h2 := left_afterDigits (c.ahead 1)
  unfold readFraction at h
  dsimp only at h
  split at h
  · split at h <;> cases h
  · split at h
    · have := left_readExponent h
      omega
    · split at h
      · cases h
      · cases h; omega

theorem left_readAfterInteger {c d : Cursor} {positive : Bool} {m b : Nat} {n : Number}
    (h : readAfterInteger c positive m b = .ok (n, d)) : d.left ≤ c.left := by
  unfold readAfterInteger at h
  split at h
  · exact left_readFraction h
  · split at h
    · exact left_readExponent h
    · split at h
      · cases h; exact Nat.le_refl _
      · split at h
        · cases h
        · cases h; exact Nat.le_refl _

theorem left_readMagnitude {c d : Cursor} {positive : Bool} {n : Number}
    (h : readMagnitude c positive = .ok (n, d)) : d.left < c.left := by
  unfold readMagnitude at h
  split at h
  · cases h
  · next ch hc =>
    split at h
    · dsimp only at h
      split at h
      · cases h
      · exact Nat.lt_of_le_of_lt (left_readAfterInteger h) (left_ahead_lt hc (by decide))
    · split at h
      · next hd => exact Nat.lt_of_le_of_lt (left_readAfterInteger h) (left_afterDigits_lt hc hd)
      · cases h

theorem left_readNumber {c d : Cursor} {n : Number} (h : readNumber c = .ok (n, d)) :
    d.left < c.left := by
  unfold readNumber at h
  split at h
  · exact Nat.lt_of_lt_of_le (left_readMagnitude h) (Cursor.left_ahead _ _)
  · exact left_readMagnitude h

theorem left_skipExponent {c d : Cursor} (h : skipExponent c = .ok d) : d.left ≤ c.left := by
  have h1 := left_afterExponentSign c
  have h2 := left_afterDigits (afterExponentSign c)
  unfold skipExponent at h
  dsimp only at h
  split at h
  · cases h; omega
  · cases h

theorem left_skipFraction {c d : Cursor} (h : skipFraction c = .ok d) : d.left ≤ c.left := by
  have h1 := Cursor.left_ahead c 1
  have h2 := left_afterDigits (c.ahead 1)
  unfold skipFraction at h
  dsimp only at h
  split at h
  · cases h
  · split at h
    · have := left_skipExponent h
      omega
    · cases h; omega

theorem left_skipInteger {c d : Cursor} (h : skipInteger c = .ok d) : d.left < c.left := by
  unfold skipInteger at h
  split at h
  · cases h
  · next ch hc =>
    split at h
    · dsimp only at h
      split at h
      · cases h
      · cases h; exact left_ahead_lt hc (by decide)
    · split at h
      · next hd => cases h; exact left_afterDigits_lt hc hd
      · cases h

theorem left_skipNumber {c d : Cursor} (h : skipNumber c = .ok d) : d.left < c.left := by
  have hs : (if c.peek? == some '-' then c.ahead 1 else c).left ≤ c.left := by
    split
    · exact Cursor.left_ahead _ _
    · exact Nat.le_refl _
  unfold skipNumber at h
  split at h
  · cases h
  · next last hl =>
    have hl := left_skipInteger hl
    split at h
    · have := left_skipFraction h
      omega
    · split at h
      · have := left_skipExponent h
        omega
      · cases h; omega

/-- Reads a number as a step. -/
def stepNumber (c : Cursor) : Except Fault (Step c Number) :=
  match h : readNumber c with
  | .error f => .error f
  | .ok (n, d) => .ok ⟨n, d, left_readNumber h⟩

/-- Checks a number as a step. -/
def stepPastNumber (c : Cursor) : Except Fault (Step c Unit) :=
  match h : skipNumber c with
  | .error f => .error f
  | .ok d => .ok ⟨(), d, left_skipNumber h⟩

end BuildLayout.Json
