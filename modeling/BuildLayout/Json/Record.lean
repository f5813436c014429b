import BuildLayout.Json.Reader

/-! # Records in a JSON text

A `Shape` says how a record with named members is read: from an object, member by member in any
order, or from a list with one item for each member in order. Members that the shape does not name
are skipped. A member that is read may turn out not to fit although its spelling is right; such a
`Problem` is placed where the record has been closed, as far as it can be.
-/

namespace BuildLayout.Json

/-- The value read at a cursor, or a problem that has no place yet. -/
abbrev Outcome (c : Cursor) (α : Type) := Except Fault (Step c (Except Problem α))

/-- A member of a record: its name, and how its value is read into the record, with a number of
levels left for nesting. -/
structure Member (σ : Type) where
  name : String
  read : (levels : Nat) → (record : σ) → (c : Cursor) → Outcome c σ

/-- How a record is read. -/
structure Shape (σ : Type) where
  /-- What the record is called where something else was found. -/
  title : String
  blank : σ
  members : List (Member σ)

/-! ## Single values -/

/-- What a value is called, where one of another kind was expected. It is read when it is a scalar;
of a list or an object only the bracket is looked at. -/
def describeAt (c : Cursor) : Except Fault (String × Cursor) :=
  match c.peek? with
  | none => .error (c.fault .endInValue)
  | some ch =>
    if ch = '[' then .ok ("sequence", c)
    else if ch = '\x7b' then .ok ("map", c)
    else if ch = 'n' ∨ ch = 't' ∨ ch = 'f' ∨ ch = '-' ∨ ch = '"' ∨ isDigit ch = true then
      match readValue 0 c with
      | .error f => .error f
      | .ok s => .ok (s.value.found, s.next)
    else .error (c.faultPast .expectedValue)

/-- The fault of a value of the wrong kind. -/
def wrongKind (c : Cursor) (expected : String) : Fault :=
  match describeAt c with
  | .error f => f
  | .ok (found, d) => d.fault (.invalidType found expected)

/-- Reads a text. -/
def readText (c : Cursor) : Except Fault (Step c String) :=
  let d := c.skipBlank
  match d.peek? with
  | none => .error (d.fault .endInValue)
  | some ch =>
    if ch = '"' then
      match readString d with
      | .error f => .error f
      | .ok s => .ok (s.ofLater (Cursor.left_skipBlank c))
    else .error (wrongKind d "a string")

/-- Reads a truth value. -/
def readFlag (c : Cursor) : Except Fault (Step c Bool) :=
  let d := c.skipBlank
  let step? : Except Fault (Step d Bool) :=
    match d.peek? with
    | none => .error (d.fault .endInValue)
    | some ch =>
      if ch = 't' then readWord d ['t', 'r', 'u', 'e'] true
      else if ch = 'f' then readWord d ['f', 'a', 'l', 's', 'e'] false
      else .error (wrongKind d "a boolean")
  match step? with
  | .error f => .error f
  | .ok s => .ok (s.ofLater (Cursor.left_skipBlank c))

/-- Reads the texts of a list up to its closing bracket; `done` holds those before, last first. -/
def readTextItems (first : Bool) (done : List String) (c : Cursor) :
    Except Fault (Step c (List String)) :=
  match startItem c first with
  | .error f => .error f
  | .ok look =>
    have hl := look.within
    if look.more then
      match readText look.at' with
      | .error f => .error f
      | .ok t =>
        have _ht := t.shorter
        match readTextItems false (t.value :: done) t.next with
        | .error f => .error f
        | .ok ts => .ok ((t.andThen ts).ofLater hl)
    else match closeList look.at' with
      | .error f => .error f
      | .ok s => .ok ((s.map fun _ => done.reverse).ofLater hl)
termination_by c.left

/-- Reads a list of texts. -/
def readTexts (levels : Nat) (c : Cursor) : Except Fault (Step c (List String)) :=
  let d := c.skipBlank
  match d.next? with
  | none => .error (d.fault .endInValue)
  | some s =>
    if s.value = '[' then
      match levels with
      | 0 => .error (d.faultPast .tooDeep)
      | _ + 1 =>
        match readTextItems true [] s.next with
        | .error f => .error f
        | .ok ts => .ok ((s.andThen ts).ofLater (Cursor.left_skipBlank c))
    else .error (wrongKind d "a sequence")

/-! ## Members -/

/-- Reads a value that may be `null`, into a record. -/
def readOptional {σ α : Type} (read : (c : Cursor) → Outcome c α) (set : σ → α → σ) (record : σ)
    (c : Cursor) : Outcome c σ :=
  let d := c.skipBlank
  let step? : Outcome d σ :=
    if d.peek? = some 'n' then readWord d ['n', 'u', 'l', 'l'] (.ok record)
    else
      match read d with
      | .error f => .error f
      | .ok s => .ok (s.map fun r => r.map (set record))
  match step? with
  | .error f => .error f
  | .ok s => .ok (s.ofLater (Cursor.left_skipBlank c))

/-- A reader whose values always fit. -/
def fitting {α : Type} (read : (c : Cursor) → Except Fault (Step c α)) (c : Cursor) : Outcome c α :=
  match read c with
  | .error f => .error f
  | .ok s => .ok (s.map .ok)

/-- A member that holds a text. -/
def Member.text {σ : Type} (name : String) (set : σ → String → σ) : Member σ :=
  ⟨name, fun _ => readOptional (fitting readText) set⟩

/-- A member that holds a truth value. -/
def Member.flag {σ : Type} (name : String) (set : σ → Bool → σ) : Member σ :=
  ⟨name, fun _ => readOptional (fitting readFlag) set⟩

/-- A member that holds a list of texts. -/
def Member.texts {σ : Type} (name : String) (set : σ → List String → σ) : Member σ :=
  ⟨name, fun levels => readOptional (fitting (readTexts levels)) set⟩

/-! ## Records -/

/-- Reads the members of an object; `seen` holds the names of those before. It stops before the
closing brace, or at a member that does not fit. -/
def readMembers {σ : Type} (shape : Shape σ) (levels : Nat) (seen : List String) (record : σ)
    (first : Bool) (c : Cursor) :
    Except Fault (Except Problem σ × { d : Cursor // d.left ≤ c.left }) :=
  match startKey c first with
  | .error f => .error f
  | .ok look =>
    have hl := look.within
    if look.more then
      match readString look.at' with
      | .error f => .error f
      | .ok key =>
        have hk := key.shorter
        let member? := shape.members.find? (·.name = key.value)
        if member?.isSome && seen.contains key.value then
          .ok (.error (.duplicateField key.value), ⟨key.next, by omega⟩)
        else
          match readColon key.next with
          | .error f => .error f
          | .ok colon =>
            have hc := colon.shorter
            let value? : Outcome colon.next σ :=
              match member? with
              | some m => m.read levels record colon.next
              | none =>
                match skipValue colon.next with
                | .error f => .error f
                | .ok s => .ok (s.map fun _ => .ok record)
            match value? with
            | .error f => .error f
            | .ok v =>
              have hv := v.shorter
              match v.value with
              | .error problem => .ok (.error problem, ⟨v.next, by omega⟩)
              | .ok record =>
                match readMembers shape levels (key.value :: seen) record false v.next with
                | .error f => .error f
                | .ok (r, d) => .ok (r, ⟨d.1, by have := d.2; omega⟩)
    else .ok (.ok record, ⟨look.at', hl⟩)
termination_by c.left

/-- Reads the members of a list in order; `index` counts those before. It stops before the closing
bracket, or at a member that is missing or does not fit. -/
def readInOrder {σ : Type} (title : String) (count : Nat) (levels : Nat) (index : Nat) (record : σ) :
    List (Member σ) → (c : Cursor) →
      Except Fault (Except Problem σ × { d : Cursor // d.left ≤ c.left })
  | [], c => .ok (.ok record, ⟨c, Nat.le_refl _⟩)
  | m :: ms, c =>
    match startItem c (index == 0) with
    | .error f => .error f
    | .ok look =>
      have hl := look.within
      if look.more then
        match m.read levels record look.at' with
        | .error f => .error f
        | .ok v =>
          have hv := v.shorter
          match v.value with
          | .error problem => .ok (.error problem, ⟨v.next, by omega⟩)
          | .ok record =>
            match readInOrder title count levels (index + 1) record ms v.next with
            | .error f => .error f
            | .ok (r, d) => .ok (r, ⟨d.1, by have := d.2; omega⟩)
      else
        .ok (.error (.invalidLength index (title ++ s!" with {count} elements")),
          ⟨look.at', hl⟩)

/-- How far the end of a list is read for a problem to be placed there. -/
def settleList (c : Cursor) : Cursor :=
  let d := c.skipBlank
  match d.next? with
  | none => d
  | some s =>
    if s.value = ']' then s.next else if s.value = ',' then s.next.skipBlank else d

/-- How far the end of an object is read for a problem to be placed there. -/
def settleObject (c : Cursor) : Cursor :=
  let d := c.skipBlank
  match d.eat? '\x7d' with
  | none => d
  | some s => s.next

/-- Reads a record. -/
def readRecord {σ : Type} (shape : Shape σ) (levels : Nat) (c : Cursor) :
    Except Fault (Step c σ) :=
  let d := c.skipBlank
  have hd : d.left ≤ c.left := Cursor.left_skipBlank c
  match d.next? with
  | none => .error (d.fault .endInValue)
  | some s =>
    have hs := s.shorter
    if s.value = '[' then
      match levels with
      | 0 => .error (d.faultPast .tooDeep)
      | levels + 1 =>
        match readInOrder shape.title shape.members.length levels 0 shape.blank shape.members
            s.next with
        | .error f => .error f
        | .ok (.error problem, e) => .error ((settleList e.1).fault problem)
        | .ok (.ok record, e) =>
          match closeList e.1 with
          | .error f => .error f
          | .ok t =>
            have ht := t.shorter
            have he := e.2
            .ok ⟨record, t.next, by omega⟩
    else if s.value = '\x7b' then
      match levels with
      | 0 => .error (d.faultPast .tooDeep)
      | levels + 1 =>
        match readMembers shape levels [] shape.blank true s.next with
        | .error f => .error f
        | .ok (.error problem, e) => .error ((settleObject e.1).fault problem)
        | .ok (.ok record, e) =>
          match closeObject e.1 with
          | .error f => .error f
          | .ok t =>
            have ht := t.shorter
            have he := e.2
            .ok ⟨record, t.next, by omega⟩
    else .error (wrongKind d shape.title)

/-- The record that a whole text holds. -/
def parseRecord {σ : Type} (shape : Shape σ) (text : List Char) : Except Fault σ :=
  match readRecord shape maxDepth (Cursor.start text) with
  | .error f => .error f
  | .ok s =>
    match finish s.next with
    | .error f => .error f
    | .ok () => .ok s.value

end BuildLayout.Json
