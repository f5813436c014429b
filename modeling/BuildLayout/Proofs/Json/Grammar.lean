import BuildLayout.Json.Reader
import Mathlib.Data.List.Chain

/-!
# The grammar of JSON texts

A `Tree` is a JSON value as it is spelled: numerals and strings keep their characters, and objects
keep their members in order, with the keys as they are written. `Denotes text v` says that the text
is the tokens of `v` with blanks before, between and after them; which texts between the tokens count
as blank is a parameter of `Spread`.

Two tokens that stand side by side in a value are in the relation `Token.follows`
(`isChain_tokens`): no comma stands before a closing bracket, and no word or numeral beside another.
-/

namespace BuildLayout.Json

/-! ## Strings and numerals -/

/-- A digit in base sixteen. -/
def IsHex (c : Char) : Prop :=
  ('0' ≤ c ∧ c ≤ '9') ∨ ('a' ≤ c ∧ c ≤ 'f') ∨ ('A' ≤ c ∧ c ≤ 'F')

/-- What a string is made of: characters, and escapes of one letter or of a code unit. -/
inductive Piece where
  | plain (c : Char) (h : 0x20 ≤ c.toNat ∧ c ≠ '"' ∧ c ≠ '\\')
  | short (letter : Char) (h : letter ∈ ['"', '\\', '/', 'b', 'f', 'n', 'r', 't'])
  | unit (d0 d1 d2 d3 : Char) (h : IsHex d0 ∧ IsHex d1 ∧ IsHex d2 ∧ IsHex d3)

def Piece.chars : Piece → List Char
  | .plain c _ => [c]
  | .short letter _ => ['\\', letter]
  | .unit d0 d1 d2 d3 _ => ['\\', 'u', d0, d1, d2, d3]

/-- What stands between the quotes of a string. -/
def bodyChars (pieces : List Piece) : List Char :=
  pieces.flatMap Piece.chars

/-- A text of digits, at least one. -/
structure Digits where
  chars : List Char
  ne_nil : chars ≠ []
  digit : ∀ c ∈ chars, isDigit c

/-- The exponent of a numeral. -/
structure Exponent where
  letter : Char
  letter_eq : letter = 'e' ∨ letter = 'E'
  sign : List Char
  sign_eq : sign = [] ∨ sign = ['+'] ∨ sign = ['-']
  digits : Digits

def Exponent.chars (e : Exponent) : List Char :=
  e.letter :: (e.sign ++ e.digits.chars)

/-- A number as it is spelled. -/
structure Numeral where
  negative : Bool
  whole : Digits
  /-- Zero is a single digit, and nothing else begins with it. -/
  whole_eq : whole.chars = ['0'] ∨ whole.chars.head? ≠ some '0'
  fraction : Option Digits
  exponent : Option Exponent

/-- The fraction of a numeral with its point, if there is one. -/
def fractionText : Option Digits → List Char
  | none => []
  | some ds => '.' :: ds.chars

def exponentText : Option Exponent → List Char
  | none => []
  | some e => e.chars

/-- The numeral after its sign. -/
def Numeral.magnitude (n : Numeral) : List Char :=
  n.whole.chars ++ (fractionText n.fraction ++ exponentText n.exponent)

def Numeral.chars (n : Numeral) : List Char :=
  (if n.negative then ['-'] else []) ++ n.magnitude

/-! ## Tokens -/

/-- A value without parts. -/
inductive Scalar where
  | null
  | bool (b : Bool)
  | number (n : Numeral)
  | string (pieces : List Piece)

def Scalar.text : Scalar → List Char
  | .null => ['n', 'u', 'l', 'l']
  | .bool true => ['t', 'r', 'u', 'e']
  | .bool false => ['f', 'a', 'l', 's', 'e']
  | .number n => n.chars
  | .string pieces => '"' :: (bodyChars pieces ++ ['"'])

/-- The character that begins a list or an object. -/
def Frame.opener : Frame → Char
  | .list => '['
  | .object => '\x7b'

inductive Token where
  | opening (frame : Frame)
  | closing (frame : Frame)
  | comma
  | colon
  | scalar (s : Scalar)

namespace Token

def text : Token → List Char
  | .opening frame => [frame.opener]
  | .closing frame => [frame.closer]
  | .comma => [',']
  | .colon => [':']
  | .scalar s => s.text

/-- A value may begin with the token. -/
def startsValue : Token → Bool
  | .opening _ | .scalar _ => true
  | _ => false

/-- A value may end with the token. -/
def endsValue : Token → Bool
  | .closing _ | .scalar _ => true
  | _ => false

def isClosing : Token → Bool
  | .closing _ => true
  | _ => false

/-- The token may stand behind a value. -/
def afterValue : Token → Bool
  | .closing _ | .comma => true
  | _ => false

/-- The second token may stand right behind the first. -/
def follows : Token → Token → Bool
  | .opening _, u => u.startsValue || u.isClosing
  | .closing _, u => u.afterValue
  | .comma, u | .colon, u => u.startsValue
  | .scalar _, .colon => true
  | .scalar _, u => u.afterValue

end Token

/-! ## Values -/

/-- A value as it is spelled. -/
inductive Tree where
  | scalar (s : Scalar)
  | list (items : List Tree)
  | object (members : List (List Piece × Tree))

mutual

/-- The tokens of a value. -/
def Tree.tokens : Tree → List Token
  | .scalar s => [.scalar s]
  | .list items => .opening .list :: (itemTokens true items ++ [.closing .list])
  | .object members => .opening .object :: (memberTokens true members ++ [.closing .object])

/-- The tokens of items, each after a comma but the one that `first` stands for. -/
def itemTokens (first : Bool) : List Tree → List Token
  | [] => []
  | v :: rest => (if first then [] else [.comma]) ++ (v.tokens ++ itemTokens false rest)

/-- The tokens of members, each after a comma but the one that `first` stands for. -/
def memberTokens (first : Bool) : List (List Piece × Tree) → List Token
  | [] => []
  | (key, v) :: rest =>
    (if first then [] else [.comma]) ++
      (.scalar (.string key) :: .colon :: (v.tokens ++ memberTokens false rest))

end

/-- Tokens one after the other, each behind a gap. -/
inductive Spread (Gap : List Char → Prop) : List Token → List Char → Prop
  | nil : Spread Gap [] []
  | cons {gap : List Char} {t : Token} {ts : List Token} {text : List Char} :
      Gap gap → Spread Gap ts text → Spread Gap (t :: ts) (gap ++ (t.text ++ text))

/-- Nothing but the blanks of JSON. -/
def Blank (gap : List Char) : Prop :=
  ∀ c ∈ gap, Cursor.isBlank c

/-- The text is that of the value, with blanks before, between and after the tokens. -/
def Denotes (text : List Char) (v : Tree) : Prop :=
  ∃ body gap, text = body ++ gap ∧ Spread Blank v.tokens body ∧ Blank gap

/-! ## Texts of tokens -/

theorem blank_nil : Blank [] := fun _ hc => absurd hc List.not_mem_nil

theorem blank_cons {c : Char} {cs : List Char} :
    Blank (c :: cs) ↔ Cursor.isBlank c ∧ Blank cs := List.forall_mem_cons

theorem blank_append {cs ds : List Char} : Blank (cs ++ ds) ↔ Blank cs ∧ Blank ds :=
  List.forall_mem_append

theorem spread_cons {Gap : List Char → Prop} {t : Token} {ts : List Token} {text : List Char} :
    Spread Gap (t :: ts) text ↔
      ∃ gap rest, text = gap ++ (t.text ++ rest) ∧ Gap gap ∧ Spread Gap ts rest := by
  constructor
  · rintro (_ | ⟨hg, hs⟩)
    exact ⟨_, _, rfl, hg, hs⟩
  · rintro ⟨gap, rest, rfl, hg, hs⟩
    exact .cons hg hs

theorem spread_append {Gap : List Char → Prop} {ts us : List Token} {text : List Char} :
    Spread Gap (ts ++ us) text ↔
      ∃ first rest, text = first ++ rest ∧ Spread Gap ts first ∧ Spread Gap us rest := by
  induction ts generalizing text with
  | nil =>
    constructor
    · intro h
      exact ⟨[], text, rfl, .nil, h⟩
    · rintro ⟨first, rest, rfl, h, hr⟩
      cases h
      exact hr
  | cons t ts ih =>
    rw [List.cons_append, spread_cons]
    constructor
    · rintro ⟨gap, rest, rfl, hg, hs⟩
      obtain ⟨first, rest, rfl, hf, hr⟩ := ih.1 hs
      exact ⟨gap ++ (t.text ++ first), rest, by simp, .cons hg hf, hr⟩
    · rintro ⟨first, rest, rfl, hs, hr⟩
      obtain ⟨gap, first, rfl, hg, hf⟩ := spread_cons.1 hs
      exact ⟨gap, first ++ rest, by simp, hg, ih.2 ⟨first, rest, rfl, hf, hr⟩⟩

/-- A character of a word or a numeral. -/
def isAtomic (c : Char) : Bool :=
  'A' ≤ c && c ≤ 'Z' || 'a' ≤ c && c ≤ 'z' || isDigit c || c == '+' || c == '-' || c == '.'

theorem isAtomic_of_isDigit {c : Char} (h : isDigit c) : isAtomic c := by
  unfold isAtomic
  simp [h]

theorem Numeral.isAtomic_of_mem {n : Numeral} {c : Char} (h : c ∈ n.chars) : isAtomic c := by
  unfold chars magnitude at h
  rcases List.mem_append.1 h with h | h
  · split at h
    · obtain rfl := List.mem_singleton.1 h
      decide
    · cases h
  rcases List.mem_append.1 h with h | h
  · exact isAtomic_of_isDigit (n.whole.digit c h)
  rcases List.mem_append.1 h with h | h
  · cases hf : n.fraction with
    | none =>
      rw [hf] at h
      cases h
    | some ds =>
      rw [hf] at h
      rcases List.mem_cons.1 h with rfl | h
      · decide
      · exact isAtomic_of_isDigit (ds.digit c h)
  · cases he : n.exponent with
    | none =>
      rw [he] at h
      cases h
    | some e =>
      rw [he] at h
      rcases List.mem_cons.1 h with rfl | h
      · rcases e.letter_eq with hl | hl <;> rw [hl] <;> decide
      rcases List.mem_append.1 h with h | h
      · rcases e.sign_eq with hs | hs | hs <;> rw [hs] at h
        · cases h
        · obtain rfl := List.mem_singleton.1 h
          decide
        · obtain rfl := List.mem_singleton.1 h
          decide
      · exact isAtomic_of_isDigit (e.digits.digit c h)

theorem Numeral.chars_ne_nil (n : Numeral) : n.chars ≠ [] := by
  intro h
  unfold chars magnitude at h
  exact n.whole.ne_nil (List.append_eq_nil_iff.1 (List.append_eq_nil_iff.1 h).2).1

/-- The text of a scalar is a string, or its characters are those of a word or a numeral. -/
theorem Scalar.text_cases (s : Scalar) :
    (∃ pieces, s.text = '"' :: (bodyChars pieces ++ ['"'])) ∨
      s.text ≠ [] ∧ ∀ c ∈ s.text, isAtomic c := by
  cases s with
  | null => exact .inr ⟨List.cons_ne_nil _ _, List.all_eq_true.1 rfl⟩
  | bool b => cases b <;> exact .inr ⟨List.cons_ne_nil _ _, List.all_eq_true.1 rfl⟩
  | number n => exact .inr ⟨n.chars_ne_nil, fun _ => Numeral.isAtomic_of_mem⟩
  | string pieces => exact .inl ⟨pieces, rfl⟩

/-! ## Tokens side by side -/

theorem Token.follows_afterValue {t u : Token} (ht : t.endsValue) (hu : u.afterValue) :
    t.follows u := by
  cases t <;> cases u <;> simp_all [endsValue, afterValue, follows]

/-- The token may stand after an opening bracket, when no item was there yet, or after an item. -/
def Token.continues (first : Bool) (u : Token) : Bool :=
  if first then u.startsValue || u.isClosing else u.afterValue

theorem Token.continues_of_isClosing {u : Token} (h : u.isClosing) (first : Bool) :
    u.continues first := by
  cases u <;> cases first <;> simp_all [isClosing, continues, afterValue]

/-- A comma is put before an item when there is one before it. -/
theorem isChain_separated {first : Bool} {ts : List Token} (h : ts.IsChain (·.follows ·))
    (hh : ∀ u ∈ ts.head?, u.startsValue) :
    ((if first then [] else [Token.comma]) ++ ts).IsChain (·.follows ·) ∧
      ∀ u ∈ ((if first then [] else [Token.comma]) ++ ts).head?, u.continues first := by
  cases first with
  | true => exact ⟨h, fun u hu => by simp [Token.continues, hh u hu]⟩
  | false => exact ⟨List.isChain_cons.2 ⟨hh, h⟩, by simp [Token.continues, Token.afterValue]⟩

mutual

/-- **Behind a value** may stand what may stand behind its last token. -/
theorem isChain_tokens (v : Tree) {rest : List Token} (hr : rest.IsChain (·.follows ·))
    (hh : ∀ u ∈ rest.head?, u.afterValue) :
    (v.tokens ++ rest).IsChain (·.follows ·) ∧ ∀ u ∈ (v.tokens ++ rest).head?, u.startsValue := by
  have hclosing : ∀ frame, (Token.closing frame :: rest).IsChain (·.follows ·) := fun frame =>
    List.isChain_cons.2 ⟨fun u hu => hh u hu, hr⟩
  cases v with
  | scalar s =>
    unfold Tree.tokens
    refine ⟨List.isChain_cons.2 ⟨fun u hu => ?_, hr⟩, by simp [Token.startsValue]⟩
    exact Token.follows_afterValue rfl (hh u hu)
  | list items =>
    obtain ⟨hc, hs⟩ := isChain_itemTokens true items (hclosing .list) (by simp [Token.isClosing])
    unfold Tree.tokens
    simp only [List.cons_append, List.append_assoc, List.nil_append]
    exact ⟨List.isChain_cons.2 ⟨hs, hc⟩, by simp [Token.startsValue]⟩
  | object members =>
    obtain ⟨hc, hs⟩ :=
      isChain_memberTokens true members (hclosing .object) (by simp [Token.isClosing])
    unfold Tree.tokens
    simp only [List.cons_append, List.append_assoc, List.nil_append]
    exact ⟨List.isChain_cons.2 ⟨hs, hc⟩, by simp [Token.startsValue]⟩

theorem isChain_itemTokens (first : Bool) (items : List Tree) {rest : List Token}
    (hr : rest.IsChain (·.follows ·)) (hh : ∀ u ∈ rest.head?, u.isClosing) :
    (itemTokens first items ++ rest).IsChain (·.follows ·) ∧
      ∀ u ∈ (itemTokens first items ++ rest).head?, u.continues first := by
  cases items with
  | nil => exact ⟨hr, fun u hu => Token.continues_of_isClosing (hh u hu) first⟩
  | cons v items =>
    obtain ⟨hc, hs⟩ := isChain_itemTokens false items hr hh
    obtain ⟨hc, hs⟩ := isChain_tokens v hc hs
    unfold itemTokens
    simp only [List.append_assoc]
    exact isChain_separated hc hs

theorem isChain_memberTokens (first : Bool) (members : List (List Piece × Tree)) {rest : List Token}
    (hr : rest.IsChain (·.follows ·)) (hh : ∀ u ∈ rest.head?, u.isClosing) :
    (memberTokens first members ++ rest).IsChain (·.follows ·) ∧
      ∀ u ∈ (memberTokens first members ++ rest).head?, u.continues first := by
  match members with
  | [] => exact ⟨hr, fun u hu => Token.continues_of_isClosing (hh u hu) first⟩
  | (key, v) :: members =>
    obtain ⟨hc, hs⟩ := isChain_memberTokens false members hr hh
    obtain ⟨hc, hs⟩ := isChain_tokens v hc hs
    unfold memberTokens
    simp only [List.append_assoc, List.cons_append]
    refine isChain_separated (List.isChain_cons_cons.2 ⟨rfl, List.isChain_cons.2 ⟨hs, hc⟩⟩) ?_
    simp [Token.startsValue]

end

end BuildLayout.Json
