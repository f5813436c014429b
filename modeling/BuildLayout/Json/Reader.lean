import BuildLayout.Json.Scalar

/-! # Reading JSON values

* `readValue`: the value at a cursor, nested at most `maxDepth` levels deep.
* `skipValue`: checks the spelling of the value at a cursor, at any depth.
* `Json.parse`: the value of a whole text.

The steps of a reader through lists and objects (`startItem`, `startKey`, `readColon`, `closeList`,
`closeObject`) are shared with the readers of records.
-/

namespace BuildLayout.Json

/-- The number of lists and objects that may stand inside one another in a value. -/
def maxDepth : Nat := 127

/-! ## Steps through lists and objects -/

/-- Whether an item follows, and the cursor at it or at the closing bracket. -/
structure Lookahead (c : Cursor) where
  more : Bool
  at' : Cursor
  within : at'.left ≤ c.left

/-- Looks for the next item of a list; `first` says that none was read yet. -/
def startItem (c : Cursor) (first : Bool) : Except Fault (Lookahead c) :=
  let d := c.skipBlank
  have hd : d.left ≤ c.left := Cursor.left_skipBlank c
  match d.next? with
  | none => .error (d.fault .endInList)
  | some s =>
    if s.value = ']' then .ok ⟨false, d, hd⟩
    else if first then .ok ⟨true, d, hd⟩
    else if s.value = ',' then
      let e := s.next.skipBlank
      have he : e.left ≤ s.next.left := Cursor.left_skipBlank _
      have hs := s.shorter
      match e.peek? with
      | none => .error (e.fault .endInValue)
      | some ch =>
        if ch = ']' then .error (e.faultPast .trailingComma)
        else .ok ⟨true, e, Nat.le_trans he (Nat.le_trans (Nat.le_of_lt hs) hd)⟩
    else .error (d.faultPast .expectedListEnd)

/-- Looks for the next key of an object; `first` says that none was read yet. -/
def startKey (c : Cursor) (first : Bool) : Except Fault (Lookahead c) :=
  let d := c.skipBlank
  have hd : d.left ≤ c.left := Cursor.left_skipBlank c
  match d.next? with
  | none => .error (d.fault .endInObject)
  | some s =>
    if s.value = '\x7d' then .ok ⟨false, d, hd⟩
    else if first then
      if s.value = '"' then .ok ⟨true, d, hd⟩ else .error (d.faultPast .keyNotString)
    else if s.value = ',' then
      let e := s.next.skipBlank
      have he : e.left ≤ s.next.left := Cursor.left_skipBlank _
      have hs := s.shorter
      match e.peek? with
      | none => .error (e.fault .endInValue)
      | some ch =>
        if ch = '"' then .ok ⟨true, e, Nat.le_trans he (Nat.le_trans (Nat.le_of_lt hs) hd)⟩
        else if ch = '\x7d' then .error (e.faultPast .trailingComma)
        else .error (e.faultPast .keyNotString)
    else .error (d.faultPast .expectedObjectEnd)

/-- Reads the colon after a key. -/
def readColon (c : Cursor) : Except Fault (Step c Unit) :=
  let d := c.skipBlank
  match d.next? with
  | none => .error (d.fault .endInObject)
  | some s =>
    if s.value = ':' then .ok ((s.map fun _ => ()).ofLater (Cursor.left_skipBlank c))
    else .error (d.faultPast .expectedColon)

/-- Reads the closing bracket of a list. -/
def closeList (c : Cursor) : Except Fault (Step c Unit) :=
  let d := c.skipBlank
  match d.next? with
  | none => .error (d.fault .endInList)
  | some s =>
    if s.value = ']' then .ok ((s.map fun _ => ()).ofLater (Cursor.left_skipBlank c))
    else if s.value = ',' then
      let e := s.next.skipBlank
      if e.peek? = some ']' then .error (e.faultPast .trailingComma)
      else .error (e.faultPast .trailingCharacters)
    else .error (d.faultPast .trailingCharacters)

/-- Reads the closing brace of an object. -/
def closeObject (c : Cursor) : Except Fault (Step c Unit) :=
  let d := c.skipBlank
  match d.next? with
  | none => .error (d.fault .endInObject)
  | some s =>
    if s.value = '\x7d' then .ok ((s.map fun _ => ()).ofLater (Cursor.left_skipBlank c))
    else if s.value = ',' then .error (d.faultPast .trailingComma)
    else .error (d.faultPast .trailingCharacters)

/-- Nothing but blanks is left. -/
def finish (c : Cursor) : Except Fault Unit :=
  let d := c.skipBlank
  match d.peek? with
  | none => .ok ()
  | some _ => .error (d.faultPast .trailingCharacters)

/-! ## Values -/

mutual

/-- Reads the value at a cursor, nested at most `levels` deep. -/
def readValue (levels : Nat) (c : Cursor) : Except Fault (Step c Json) :=
  let d := c.skipBlank
  have hd : d.left ≤ c.left := Cursor.left_skipBlank c
  match d.next? with
  | none => .error (d.fault .endInValue)
  | some s =>
    have _hs := s.shorter
    let step? : Except Fault (Step d Json) :=
      if s.value = 'n' then readWord d ['n', 'u', 'l', 'l'] .null
      else if s.value = 't' then readWord d ['t', 'r', 'u', 'e'] (.bool true)
      else if s.value = 'f' then readWord d ['f', 'a', 'l', 's', 'e'] (.bool false)
      else if s.value = '-' ∨ isDigit s.value = true then
        match stepNumber d with
        | .error f => .error f
        | .ok n => .ok (n.map .number)
      else if s.value = '"' then
        match readString d with
        | .error f => .error f
        | .ok t => .ok (t.map .string)
      else if s.value = '[' then
        match levels with
        | 0 => .error (d.faultPast .tooDeep)
        | levels + 1 =>
          match readItems levels true [] s.next with
          | .error f => .error f
          | .ok items => .ok ((s.andThen items).map .array)
      else if s.value = '\x7b' then
        match levels with
        | 0 => .error (d.faultPast .tooDeep)
        | levels + 1 =>
          match readFields levels true [] s.next with
          | .error f => .error f
          | .ok fields => .ok ((s.andThen fields).map ofFields)
      else .error (d.faultPast .expectedValue)
    match step? with
    | .error f => .error f
    | .ok t => .ok (t.ofLater hd)
termination_by 2 * c.left

/-- Reads the items of a list up to its closing bracket; `done` holds those before, last first. -/
def readItems (levels : Nat) (first : Bool) (done : List Json) (c : Cursor) :
    Except Fault (Step c (List Json)) :=
  match startItem c first with
  | .error f => .error f
  | .ok look =>
    have hl := look.within
    if look.more then
      match readValue levels look.at' with
      | .error f => .error f
      | .ok v =>
        have _hv := v.shorter
        match readItems levels false (v.value :: done) v.next with
        | .error f => .error f
        | .ok items => .ok ((v.andThen items).ofLater hl)
    else match closeList look.at' with
      | .error f => .error f
      | .ok s => .ok ((s.map fun _ => done.reverse).ofLater hl)
termination_by 2 * c.left + 1

/-- Reads the fields of an object up to its closing brace; `done` holds those before, last
first. -/
def readFields (levels : Nat) (first : Bool) (done : List (String × Json)) (c : Cursor) :
    Except Fault (Step c (List (String × Json))) :=
  match startKey c first with
  | .error f => .error f
  | .ok look =>
    have hl := look.within
    if look.more then
      match readString look.at' with
      | .error f => .error f
      | .ok key =>
        have _hk := key.shorter
        match readColon key.next with
        | .error f => .error f
        | .ok colon =>
          have _hc := colon.shorter
          match readValue levels colon.next with
          | .error f => .error f
          | .ok v =>
            have _hv := v.shorter
            match readFields levels false ((key.value, v.value) :: done) v.next with
            | .error f => .error f
            | .ok fields => .ok ((key.andThen (colon.andThen (v.andThen fields))).ofLater hl)
    else match closeObject look.at' with
      | .error f => .error f
      | .ok s => .ok ((s.map fun _ => done.reverse).ofLater hl)
termination_by 2 * c.left + 1

end

/-- The value that a whole text holds. -/
def parse (text : String) : Except Fault Json :=
  match readValue maxDepth (Cursor.start text.toList) with
  | .error f => .error f
  | .ok s =>
    match finish s.next with
    | .error f => .error f
    | .ok () => .ok s.value

/-! ## Skipping -/

/-- What a value that is being skipped stands in. -/
inductive Frame where
  | list
  | object
deriving DecidableEq, Repr

namespace Frame

/-- The character that ends it. -/
def closer : Frame → Char
  | .list => ']'
  | .object => '\x7d'

/-- The text ends inside it. -/
def ended : Frame → Problem
  | .list => .endInList
  | .object => .endInObject

/-- Neither a comma nor its end follows an item. -/
def unseparated : Frame → Problem
  | .list => .expectedListEnd
  | .object => .expectedObjectEnd

end Frame

/-- Checks a key and the colon after it. -/
def skipKey (c : Cursor) : Except Fault (Step c Unit) :=
  let d := c.skipBlank
  match d.peek? with
  | none => .error (d.fault .endInObject)
  | some ch =>
    if ch = '"' then
      match skipString d with
      | .error f => .error f
      | .ok key =>
        match readColon key.next with
        | .error f => .error f
        | .ok colon => .ok ((key.andThen colon).ofLater (Cursor.left_skipBlank c))
    else .error (d.faultPast .keyNotString)

mutual

/-- Checks the value at a cursor, which stands in `frames`, and what follows it up to the end of
the outermost of them. -/
def skipIn {origin : Cursor} (frames : List Frame) (c : Cursor) (h : c.left ≤ origin.left) :
    Except Fault (Step origin Unit) :=
  let d := c.skipBlank
  have hd : d.left ≤ c.left := Cursor.left_skipBlank c
  match d.next? with
  | none => .error (d.fault .endInValue)
  | some s =>
    have hs := s.shorter
    if s.value = '[' then skipOpened .list frames s.next (by omega)
    else if s.value = '\x7b' then skipOpened .object frames s.next (by omega)
    else
      let scalar : Except Fault (Step d Unit) :=
        if s.value = 'n' then readWord d ['n', 'u', 'l', 'l'] ()
        else if s.value = 't' then readWord d ['t', 'r', 'u', 'e'] ()
        else if s.value = 'f' then readWord d ['f', 'a', 'l', 's', 'e'] ()
        else if s.value = '-' ∨ isDigit s.value = true then stepPastNumber d
        else if s.value = '"' then skipString d
        else .error (d.faultPast .expectedValue)
      match scalar with
      | .error f => .error f
      | .ok t =>
        have ht := t.shorter
        skipAfter frames t.next (by omega)
termination_by 2 * c.left

/-- Checks what follows an opening bracket. -/
def skipOpened {origin : Cursor} (frame : Frame) (frames : List Frame) (c : Cursor)
    (h : c.left < origin.left) : Except Fault (Step origin Unit) :=
  let d := c.skipBlank
  have hd : d.left ≤ c.left := Cursor.left_skipBlank c
  have _hc : c.skipBlank.left ≤ c.left := hd
  match d.next? with
  | none => .error (d.fault frame.ended)
  | some s =>
    have hs := s.shorter
    if s.value = frame.closer then skipAfter frames s.next (by omega)
    else match frame with
      | .list => skipIn (.list :: frames) d (by omega)
      | .object =>
        match skipKey d with
        | .error f => .error f
        | .ok key =>
          have hk := key.shorter
          skipIn (.object :: frames) key.next (by omega)
termination_by 2 * c.left + 1

/-- Checks what follows a value that stands in `frames`. -/
def skipAfter {origin : Cursor} (frames : List Frame) (c : Cursor) (h : c.left < origin.left) :
    Except Fault (Step origin Unit) :=
  match frames with
  | [] => .ok ⟨(), c, h⟩
  | frame :: outer =>
    let d := c.skipBlank
    have hd : d.left ≤ c.left := Cursor.left_skipBlank c
    match d.next? with
    | none => .error (d.fault frame.ended)
    | some s =>
      have hs := s.shorter
      have hn : s.next.left < origin.left := Nat.lt_trans (Nat.lt_of_lt_of_le hs hd) h
      if s.value = ',' then
        match frame with
        | .list => skipIn (.list :: outer) s.next (Nat.le_of_lt hn)
        | .object =>
          match skipKey s.next with
          | .error f => .error f
          | .ok key =>
            have hk := key.shorter
            skipIn (.object :: outer) key.next (Nat.le_of_lt (Nat.lt_trans hk hn))
      else if s.value = frame.closer then skipAfter outer s.next hn
      else .error (d.faultPast frame.unseparated)
termination_by 2 * c.left

end

/-- Checks the value at a cursor. -/
def skipValue (c : Cursor) : Except Fault (Step c Unit) :=
  skipIn [] c (Nat.le_refl _)

end BuildLayout.Json
