import BuildLayout.Text.Utf8

/-! # Names that need not be text

The name of a file is bytes, which need not spell a text. It is kept as a text all the same: bytes in
UTF-8 as the characters that they spell, and a byte that belongs to no character as two characters,
`mark` and one for the byte. `mark` is NUL, which no name of a file holds.

`isText` says that a name has no such byte. `nameBytes` and `nameSize` are the bytes of a name and
their number, and `ofNameBytes` is the name with given bytes. `shown` is how a name is printed: a
replacement character stands for bytes that are no character.
-/

namespace BuildLayout.Text

/-- Stands before the character of a byte that belongs to no character. -/
def mark : Char := '\x00'

/-- The byte that a character behind `mark` stands for; those of ASCII are characters themselves. -/
def strayByte? (c : Char) : Option UInt8 :=
  if 0x180 ≤ c.toNat ∧ c.toNat < 0x200 then some (UInt8.ofNat c.toNat) else none

/-- A byte that belongs to no character, as it is kept. -/
def ofStrayByte (b : UInt8) : List Char := [mark, Char.ofNat (0x100 + b.toNat)]

/-- What a name is made of. -/
inductive NamePart where
  | char (c : Char)
  | stray (b : UInt8)
deriving DecidableEq, Repr

namespace NamePart

def isChar : NamePart → Bool
  | char _ => true
  | stray _ => false

def bytes : NamePart → Bytes
  | char c => encode (String.singleton c)
  | stray b => [b]

/-- The number of bytes. -/
def size : NamePart → Nat
  | char c => c.utf8Size
  | stray _ => 1

end NamePart

/-- The parts of a name. -/
def nameParts : List Char → List NamePart
  | [] => []
  | [c] => [.char c]
  | c :: next :: cs =>
    match if c = mark then strayByte? next else none with
    | some b => .stray b :: nameParts cs
    | none => .char c :: nameParts (next :: cs)

/-- Every byte of the name belongs to a character. -/
def isText (s : String) : Bool := (nameParts s.toList).all NamePart.isChar

/-- The bytes of a name. -/
def nameBytes (s : String) : Bytes := (nameParts s.toList).flatMap NamePart.bytes

/-- The number of bytes of the parts of a name. -/
def partsSize : List NamePart → Nat
  | [] => 0
  | part :: parts => part.size + partsSize parts

/-- The number of bytes of a name. -/
def nameSize (s : String) : Nat := partsSize (nameParts s.toList)

/-! ## From bytes -/

/-- The characters of the first bytes, which are in UTF-8. -/
def charsBefore (index : Nat) (bytes : Bytes) : List Char :=
  match decodeFrom 0 [] (bytes.take index) with
  | .ok cs => cs
  | .error _ => []

/-- The characters of the name with these bytes. -/
def nameChars (bytes : Bytes) : List Char :=
  match bytes with
  | [] => []
  | b :: rest =>
    match decodeFrom 0 [] (b :: rest) with
    | .ok cs => cs
    | .error fault =>
      let stray := (b :: rest)[fault.index]?.getD b
      charsBefore fault.index (b :: rest) ++ ofStrayByte stray ++ nameChars (rest.drop fault.index)
termination_by bytes.length
decreasing_by simp only [List.length_cons, List.length_drop]; omega

/-- The name with these bytes. -/
def ofNameBytes (bytes : Bytes) : String := String.ofList (nameChars bytes)

/-! ## In print -/

/-- Stands for bytes that are no character. -/
def replacement : Char := '\uFFFD'

/-- The characters of bytes, with one replacement for each sequence that begins like a character and
is none. -/
def replacedChars (bytes : Bytes) : List Char :=
  match bytes with
  | [] => []
  | b :: rest =>
    match decodeFrom 0 [] (b :: rest) with
    | .ok cs => cs
    | .error (.incomplete index) => charsBefore index (b :: rest) ++ [replacement]
    | .error (.invalid length index) =>
      charsBefore index (b :: rest) ++
        replacement :: replacedChars (rest.drop (index + length - 1))
termination_by bytes.length
decreasing_by simp only [List.length_cons, List.length_drop]; omega

/-- The name as it is printed. -/
def shown (s : String) : String :=
  if isText s then s else String.ofList (replacedChars (nameBytes s))

/-! ## Names of characters -/

theorem nameParts_append_of_not_mem {cs : List Char} (h : mark ∉ cs) (ds : List Char) :
    nameParts (cs ++ ds) = cs.map NamePart.char ++ nameParts ds := by
  induction cs with
  | nil => rfl
  | cons c cs ih =>
    have hc : c ≠ mark := fun hc => h (hc ▸ .head _)
    have ih := ih fun hm => h (.tail _ hm)
    rw [List.cons_append, List.map_cons, List.cons_append, ← ih]
    cases cs ++ ds with
    | nil => rfl
    | cons next tail => rw [nameParts, if_neg hc]

theorem nameParts_of_not_mem {cs : List Char} (h : mark ∉ cs) :
    nameParts cs = cs.map NamePart.char := by
  have hparts := nameParts_append_of_not_mem h []
  rwa [List.append_nil, nameParts, List.append_nil] at hparts

/-- Without a mark every byte belongs to a character. -/
theorem isText_of_not_mem {s : String} (h : mark ∉ s.toList) : isText s := by
  unfold isText
  rw [nameParts_of_not_mem h]
  simp [NamePart.isChar]

/-! ## Names put together -/

/-- A character that is kept for no byte begins a part of its own. -/
theorem nameParts_append (cs ds : List Char) (h : ∀ d ∈ ds.head?, strayByte? d = none) :
    nameParts (cs ++ ds) = nameParts cs ++ nameParts ds := by
  fun_induction nameParts cs with
  | case1 => rfl
  | case2 c =>
    cases ds with
    | nil => rfl
    | cons d ds => simp [nameParts, h d rfl]
  | case3 c next cs b hb ih =>
    rw [List.cons_append, List.cons_append, nameParts, hb, ih, List.cons_append]
  | case4 c next cs hb ih =>
    rw [List.cons_append, List.cons_append, nameParts, hb, ← List.cons_append, ih,
      List.cons_append]

theorem isText_append {s t : String} (h : ∀ d ∈ t.toList.head?, strayByte? d = none) :
    isText (s ++ t) = (isText s && isText t) := by
  unfold isText
  rw [String.toList_append, nameParts_append _ _ h, List.all_append]

/-- A name only grows with what is put behind it. -/
theorem nameSize_le_append (s t : String) : nameSize s ≤ nameSize (s ++ t) := by
  have hparts : ∀ cs ds : List Char,
      partsSize (nameParts cs) ≤ partsSize (nameParts (cs ++ ds)) := by
    intro cs ds
    fun_induction nameParts cs with
    | case1 => exact Nat.zero_le _
    | case2 c =>
      cases ds with
      | nil => exact Nat.le_refl _
      | cons d ds =>
        rw [List.singleton_append, nameParts]
        by_cases hc : c = mark
        · subst hc
          cases hb : strayByte? d with
          | none => simp [partsSize]
          | some b => simp [partsSize, NamePart.size, show mark.utf8Size = 1 by decide]
        · simp [partsSize, hc]
    | case3 c next cs b hb ih =>
      rw [List.cons_append, List.cons_append, nameParts, hb]
      exact Nat.add_le_add_left ih _
    | case4 c next cs hb ih =>
      rw [List.cons_append, List.cons_append, nameParts, hb, ← List.cons_append]
      exact Nat.add_le_add_left ih _
  unfold nameSize
  rw [String.toList_append]
  exact hparts _ _

end BuildLayout.Text
