import BuildLayout.Proofs.Json.Scalar

/-!
# What a JSON text is read as

`Tree.value?` is the value that a tree stands for, when it is nested no deeper than the reader goes
and its scalars can be read. A text that denotes a tree is read as that value, whatever blanks stand
in it (`parse_eq_ok_iff`).
-/

namespace BuildLayout.Json

/-! ## Values of trees -/

def Scalar.value? : Scalar → Option Json
  | .null => some .null
  | .bool b => some (.bool b)
  | .number n => n.value?.map .number
  | .string pieces => ((bodyText? pieces).map String.ofList).map .string

mutual

/-- The value that a tree stands for, nested at most so deep. -/
def Tree.value? : Nat → Tree → Option Json
  | _, .scalar s => s.value?
  | 0, .list _ => none
  | levels + 1, .list items => (itemValues? levels items).map .array
  | 0, .object _ => none
  | levels + 1, .object members => (memberValues? levels members).map ofFields

def itemValues? : Nat → List Tree → Option (List Json)
  | _, [] => some []
  | levels, v :: rest =>
    match v.value? levels with
    | none => none
    | some j => (itemValues? levels rest).map (j :: ·)

def memberValues? : Nat → List (List Piece × Tree) → Option (List (String × Json))
  | _, [] => some []
  | levels, (key, v) :: rest =>
    match (bodyText? key).map String.ofList with
    | none => none
    | some name =>
      match v.value? levels with
      | none => none
      | some j => (memberValues? levels rest).map ((name, j) :: ·)

end

/-! ## Cursors at tokens -/

theorem not_isAtomic_of_isBlank {ch : Char} (h : Cursor.isBlank ch) : isAtomic ch = false := by
  simp only [Cursor.isBlank, Bool.or_eq_true, beq_iff_eq] at h
  rcases h with ((rfl | rfl) | rfl) | rfl <;> decide

/-- The first character of a token is no blank, and tells what the token may be. -/
theorem Token.exists_cons (t : Token) : ∃ ch rest, t.text = ch :: rest ∧
    Cursor.isBlank ch = false ∧ (t.isClosing = false → ch ≠ ']' ∧ ch ≠ '\x7d') ∧
    (t.startsValue = false → isAtomic ch = false) := by
  cases t with
  | opening frame => cases frame <;> exact ⟨_, _, rfl, by decide⟩
  | closing frame => cases frame <;> exact ⟨_, _, rfl, by decide⟩
  | comma => exact ⟨_, _, rfl, by decide⟩
  | colon => exact ⟨_, _, rfl, by decide⟩
  | scalar s =>
    obtain ⟨pieces, hs⟩ | ⟨hne, hs⟩ := s.text_cases
    · exact ⟨_, _, hs, by decide, fun _ => by decide, nofun⟩
    · obtain ⟨ch, rest, hcons⟩ := List.exists_cons_of_ne_nil hne
      have hch := hs ch (hcons ▸ .head _)
      refine ⟨ch, rest, hcons, ?_, fun _ => ⟨?_, ?_⟩, nofun⟩
      · rw [Bool.eq_false_iff]
        intro hb
        rw [not_isAtomic_of_isBlank hb] at hch
        cases hch
      · rintro rfl
        exact absurd hch (by decide)
      · rintro rfl
        exact absurd hch (by decide)

theorem dropWhile_blank {gap : List Char} (h : Blank gap) (cs : List Char) :
    (gap ++ cs).dropWhile Cursor.isBlank = cs.dropWhile Cursor.isBlank :=
  List.dropWhile_append_of_pos h

/-- **The blanks before a token** are skipped. -/
theorem dropWhile_spread {t : Token} {ts : List Token} {text : List Char}
    (hs : Spread Blank (t :: ts) text) (rest : List Char) :
    ∃ after, (text ++ rest).dropWhile Cursor.isBlank = t.text ++ (after ++ rest) ∧
      Spread Blank ts after := by
  obtain ⟨gap, after, rfl, hg, hs⟩ := spread_cons.1 hs
  refine ⟨after, ?_, hs⟩
  obtain ⟨ch, tail, hcons, hch, -⟩ := t.exists_cons
  rw [List.append_assoc, dropWhile_blank hg, hcons]
  simp only [List.cons_append, List.append_assoc]
  rw [List.dropWhile_cons_of_neg (by simp [hch])]

theorem rest_skipBlank_of_spread {c : Cursor} {t : Token} {ts : List Token}
    {text rest : List Char} (hc : c.rest = text ++ rest) (hs : Spread Blank (t :: ts) text) :
    ∃ after, c.skipBlank.rest = t.text ++ (after ++ rest) ∧ Spread Blank ts after := by
  rw [c.rest_skipBlank, hc]
  exact dropWhile_spread hs rest

/-- What stands behind a value stops a numeral. -/
theorem stops_of_spread {ts : List Token} {text rest : List Char} (hs : Spread Blank ts text)
    (hne : ts ≠ []) (hh : ∀ u ∈ ts.head?, u.startsValue = false) : Stops (text ++ rest) := by
  cases hs with
  | nil => exact absurd rfl hne
  | @cons gap t ts text hg hs =>
    obtain ⟨ch, tail, hcons, -, -, hatomic⟩ := t.exists_cons
    cases gap with
    | nil =>
      intro ch' hch'
      rw [hcons] at hch'
      obtain rfl : ch = ch' := Option.some.inj hch'
      exact hatomic (hh t rfl)
    | cons b gap =>
      intro ch' hch'
      obtain rfl : b = ch' := Option.some.inj hch'
      exact not_isAtomic_of_isBlank (hg b (.head _))

/-- A value begins with a token that may begin one. -/
theorem exists_tokens_eq_cons (v : Tree) : ∃ t ts, v.tokens = t :: ts ∧ t.startsValue := by
  cases v with
  | scalar s => exact ⟨_, _, rfl, rfl⟩
  | list items => exact ⟨_, _, rfl, rfl⟩
  | object members => exact ⟨_, _, rfl, rfl⟩

theorem Token.not_isClosing {t : Token} (h : t.startsValue) : t.isClosing = false := by
  cases t <;> simp_all [startsValue, isClosing]

/-- What a reader gives, by cases. -/
theorem outcome_eq_map {c : Cursor} {α : Type} {r : Except Fault (Step c α)} {value? : Option α}
    {rest : List Char} (h : outcome r = value?.map (·, rest)) :
    (∃ f, r = .error f ∧ value? = none) ∨
      ∃ s, r = .ok s ∧ value? = some s.value ∧ s.next.rest = rest := by
  cases r with
  | error f =>
    cases value? with
    | none => exact .inl ⟨f, rfl, rfl⟩
    | some value => cases h
  | ok s =>
    cases value? with
    | none => cases h
    | some value =>
      obtain ⟨rfl, rfl⟩ := Prod.mk.inj (Option.some.inj h)
      exact .inr ⟨s, rfl, rfl, rfl⟩

/-! ## Steps through lists and objects -/

section
variable {c : Cursor} {text rest : List Char} (hc : c.rest = text ++ rest)
include hc

/-- A token of one character that stands next. -/
theorem next?_skipBlank_of_spread {t : Token} {ts : List Token} {ch : Char}
    (hs : Spread Blank (t :: ts) text) (ht : t.text = [ch]) :
    ∃ s, c.skipBlank.next? = some s ∧ s.value = ch ∧
      ∃ after, s.next.rest = after ++ rest ∧ Spread Blank ts after := by
  obtain ⟨after, hrest, hs⟩ := rest_skipBlank_of_spread hc hs
  rw [ht] at hrest
  obtain ⟨s, hnext, hv, hr⟩ := Cursor.next?_eq hrest
  exact ⟨s, hnext, hv, after, hr, hs⟩

theorem startItem_closing (first : Bool) (hs : Spread Blank [.closing .list] text) :
    ∃ look, startItem c first = .ok look ∧ look.more = false ∧
      look.at'.rest = ']' :: rest := by
  obtain ⟨after, hrest, hs⟩ := rest_skipBlank_of_spread hc hs
  cases hs
  obtain ⟨s, hnext, hv, -⟩ := Cursor.next?_eq hrest
  unfold startItem
  simp only [hnext, hv]
  exact ⟨_, rfl, rfl, hrest⟩

theorem startItem_more (first : Bool) {t : Token} {ts : List Token} (ht : t.startsValue)
    (hs : Spread Blank ((if first then [] else [.comma]) ++ t :: ts) text) :
    ∃ look, startItem c first = .ok look ∧ look.more = true ∧
      ∃ text', look.at'.rest = text' ++ rest ∧ Spread Blank (t :: ts) text' := by
  obtain ⟨ch, tail, hcons, hblank, hclose, -⟩ := t.exists_cons
  have hne := (hclose (Token.not_isClosing ht)).1
  unfold startItem
  cases first with
  | true =>
    obtain ⟨after, hrest, hs⟩ := rest_skipBlank_of_spread hc hs
    obtain ⟨s, hnext, hv, -⟩ := Cursor.next?_eq (hrest.trans (by rw [hcons]; rfl))
    simp only [hnext, hv, if_neg hne, if_true]
    refine ⟨_, rfl, rfl, t.text ++ after, ?_, .cons blank_nil hs⟩
    rw [hrest, List.append_assoc]
  | false =>
    obtain ⟨s, hnext, hv, after, hafter, hs⟩ := next?_skipBlank_of_spread hc hs rfl
    obtain ⟨after', hrest, hs⟩ := rest_skipBlank_of_spread hafter hs
    have hpeek : s.next.skipBlank.peek? = some ch := by
      unfold Cursor.peek?
      rw [hrest, hcons]
      rfl
    simp only [hnext, hv, hpeek, if_neg hne, if_neg (by decide : ',' ≠ ']')]
    refine ⟨_, rfl, rfl, t.text ++ after', ?_, .cons blank_nil hs⟩
    rw [hrest, List.append_assoc]

theorem startKey_closing (first : Bool) (hs : Spread Blank [.closing .object] text) :
    ∃ look, startKey c first = .ok look ∧ look.more = false ∧
      look.at'.rest = '\x7d' :: rest := by
  obtain ⟨after, hrest, hs⟩ := rest_skipBlank_of_spread hc hs
  cases hs
  obtain ⟨s, hnext, hv, -⟩ := Cursor.next?_eq hrest
  unfold startKey
  simp only [hnext, hv]
  exact ⟨_, rfl, rfl, hrest⟩

theorem startKey_more (first : Bool) {key : List Piece} {ts : List Token}
    (hs : Spread Blank ((if first then [] else [.comma]) ++ .scalar (.string key) :: ts) text) :
    ∃ look, startKey c first = .ok look ∧ look.more = true ∧
      ∃ after, look.at'.rest = '"' :: (bodyChars key ++ '"' :: (after ++ rest)) ∧
        Spread Blank ts after := by
  have htext : ∀ cs, (Token.scalar (.string key)).text ++ cs = '"' :: (bodyChars key ++ '"' :: cs) :=
    fun cs => by simp [Token.text, Scalar.text]
  unfold startKey
  cases first with
  | true =>
    obtain ⟨after, hrest, hs⟩ := rest_skipBlank_of_spread hc hs
    rw [htext] at hrest
    obtain ⟨s, hnext, hv, -⟩ := Cursor.next?_eq hrest
    simp only [hnext, hv, if_neg (by decide : '"' ≠ '\x7d'), if_true]
    exact ⟨_, rfl, rfl, after, hrest, hs⟩
  | false =>
    obtain ⟨s, hnext, hv, after, hafter, hs⟩ := next?_skipBlank_of_spread hc hs rfl
    obtain ⟨after', hrest, hs⟩ := rest_skipBlank_of_spread hafter hs
    rw [htext] at hrest
    have hpeek : s.next.skipBlank.peek? = some '"' := by
      unfold Cursor.peek?
      rw [hrest]
      rfl
    simp only [hnext, hv, hpeek, if_neg (by decide : ',' ≠ '\x7d'), if_true]
    exact ⟨_, rfl, rfl, after', hrest, hs⟩

theorem readColon_eq {ts : List Token} (hs : Spread Blank (.colon :: ts) text) :
    ∃ s after, readColon c = .ok s ∧ s.next.rest = after ++ rest ∧ Spread Blank ts after := by
  obtain ⟨s, hnext, hv, after, hafter, hs⟩ := next?_skipBlank_of_spread hc hs rfl
  unfold readColon
  simp only [hnext, hv]
  exact ⟨_, after, rfl, hafter, hs⟩

end

theorem rest_skipBlank_cons {c : Cursor} {ch : Char} {rest : List Char} (hc : c.rest = ch :: rest)
    (hch : Cursor.isBlank ch = false) : c.skipBlank.rest = ch :: rest := by
  rw [c.rest_skipBlank, hc, List.dropWhile_cons_of_neg (by simp [hch])]

theorem closeList_eq {c : Cursor} {rest : List Char} (hc : c.rest = ']' :: rest) :
    ∃ s, closeList c = .ok s ∧ s.next.rest = rest := by
  obtain ⟨s, hnext, hv, hr⟩ := Cursor.next?_eq (rest_skipBlank_cons hc (by decide))
  unfold closeList
  simp only [hnext, hv]
  exact ⟨_, rfl, hr⟩

theorem closeObject_eq {c : Cursor} {rest : List Char} (hc : c.rest = '\x7d' :: rest) :
    ∃ s, closeObject c = .ok s ∧ s.next.rest = rest := by
  obtain ⟨s, hnext, hv, hr⟩ := Cursor.next?_eq (rest_skipBlank_cons hc (by decide))
  unfold closeObject
  simp only [hnext, hv]
  exact ⟨_, rfl, hr⟩

/-! ## Reading values -/

theorem outcome_eq_some {c : Cursor} {α : Type} {r : Except Fault (Step c α)} {value : α}
    {rest : List Char} (h : outcome r = some (value, rest)) :
    ∃ s, r = .ok s ∧ s.value = value ∧ s.next.rest = rest := by
  cases r with
  | error f => cases h
  | ok s =>
    obtain ⟨rfl, rfl⟩ := Prod.mk.inj (Option.some.inj h)
    exact ⟨s, rfl, rfl, rfl⟩

theorem outcome_stepNumber (c : Cursor) : outcome (stepNumber c) = given (readNumber c) := by
  unfold stepNumber
  split
  · next f h => rw [h, outcome, given]
  · next n d h => simp only [h, outcome, given]

theorem Numeral.exists_cons (n : Numeral) :
    ∃ ch rest, n.chars = ch :: rest ∧ (ch = '-' ∨ isDigit ch = true) := by
  obtain ⟨d, tail, hcons, hd⟩ := n.whole.exists_cons
  unfold chars magnitude
  cases n.negative with
  | true => exact ⟨_, _, rfl, .inl rfl⟩
  | false => exact ⟨d, _, by rw [hcons]; rfl, .inr hd⟩

/-- **A scalar** is read as its value. -/
theorem outcome_readValue_scalar (s : Scalar) (levels : Nat) {c : Cursor} {rest : List Char}
    (hc : c.skipBlank.rest = s.text ++ rest) (hr : Stops rest) :
    outcome (readValue levels c) = s.value?.map (·, rest) := by
  rw [readValue]
  cases s with
  | null =>
    obtain ⟨s, hnext, hv, -⟩ := Cursor.next?_eq hc
    obtain ⟨t, ht, htv, htr⟩ := outcome_eq_some (outcome_readWord Json.null (by decide) hc)
    have ht : readWord c.skipBlank ['n', 'u', 'l', 'l'] Json.null = .ok t := ht
    simp only [hnext, hv, ht, if_true]
    simp [outcome, Step.ofLater, htv, htr, Scalar.value?]
  | bool b =>
    cases b with
    | true =>
      obtain ⟨s, hnext, hv, -⟩ := Cursor.next?_eq hc
      obtain ⟨t, ht, htv, htr⟩ := outcome_eq_some (outcome_readWord (Json.bool true) (by decide) hc)
      have ht : readWord c.skipBlank ['t', 'r', 'u', 'e'] (Json.bool true) = .ok t := ht
      simp only [hnext, hv, ht, if_true, if_neg (by decide : 't' ≠ 'n')]
      simp [outcome, Step.ofLater, htv, htr, Scalar.value?]
    | false =>
      obtain ⟨s, hnext, hv, -⟩ := Cursor.next?_eq hc
      obtain ⟨t, ht, htv, htr⟩ := outcome_eq_some (outcome_readWord (Json.bool false) (by decide) hc)
      have ht : readWord c.skipBlank ['f', 'a', 'l', 's', 'e'] (Json.bool false) = .ok t := ht
      simp only [hnext, hv, ht, if_true, if_neg (by decide : 'f' ≠ 'n'),
        if_neg (by decide : 'f' ≠ 't')]
      simp [outcome, Step.ofLater, htv, htr, Scalar.value?]
  | number n =>
    obtain ⟨ch, tail, hcons, hch⟩ := n.exists_cons
    have hc : c.skipBlank.rest = n.chars ++ rest := hc
    obtain ⟨s, hnext, hv, -⟩ := Cursor.next?_eq (hc.trans (by rw [hcons]; rfl))
    have hne : ch ≠ 'n' ∧ ch ≠ 't' ∧ ch ≠ 'f' := by
      refine ⟨?_, ?_, ?_⟩ <;> rintro rfl <;> exact absurd hch (by decide)
    simp only [hnext, hv, if_neg hne.1, if_neg hne.2.1, if_neg hne.2.2, if_pos hch]
    rcases outcome_eq_map ((outcome_stepNumber _).trans (given_readNumber hr n hc)) with
      ⟨f, hf, hnone⟩ | ⟨t, ht, hsome, htr⟩
    · simp [hf, outcome, Scalar.value?, hnone]
    · simp [ht, outcome, Step.ofLater, Step.map, Scalar.value?, hsome, htr]
  | string pieces =>
    have hc : c.skipBlank.rest = '"' :: (bodyChars pieces ++ '"' :: rest) :=
      hc.trans (by simp [Scalar.text])
    obtain ⟨s, hnext, hv, -⟩ := Cursor.next?_eq hc
    simp only [hnext, hv, if_true, if_neg (by decide : '"' ≠ 'n'), if_neg (by decide : '"' ≠ 't'),
      if_neg (by decide : '"' ≠ 'f'), if_neg (by decide : ¬ ('"' = '-' ∨ isDigit '"' = true))]
    rcases outcome_eq_map (outcome_readString hc) with ⟨f, hf, hnone⟩ | ⟨t, ht, hsome, htr⟩
    · simp only [hf, outcome, Scalar.value?, hnone, Option.map_none]
    · simp only [ht, outcome, Step.ofLater, Step.map, Scalar.value?, hsome, htr, Option.map_some]

theorem Token.not_startsValue {t : Token} (h : t.afterValue) : t.startsValue = false := by
  cases t <;> simp_all [startsValue, afterValue]

/-- What follows an item of a list begins with a comma or a closing bracket. -/
theorem stops_items {items : List Tree} {text rest : List Char}
    (hs : Spread Blank (itemTokens false items ++ [.closing .list]) text) :
    Stops (text ++ rest) := by
  obtain ⟨-, hh⟩ := isChain_itemTokens false items (.singleton (Token.closing .list)) (fun _ hu =>
    Option.some.inj hu ▸ rfl)
  exact stops_of_spread hs (by simp) fun u hu => Token.not_startsValue (hh u hu)

theorem stops_members {members : List (List Piece × Tree)} {text rest : List Char}
    (hs : Spread Blank (memberTokens false members ++ [.closing .object]) text) :
    Stops (text ++ rest) := by
  obtain ⟨-, hh⟩ := isChain_memberTokens false members (.singleton (Token.closing .object))
    (fun _ hu => Option.some.inj hu ▸ rfl)
  exact stops_of_spread hs (by simp) fun u hu => Token.not_startsValue (hh u hu)

mutual

/-- **A value** is read as what its tree stands for, as deep as the reader goes. -/
theorem outcome_readValue (v : Tree) (levels : Nat) {c : Cursor} {text rest : List Char}
    (hc : c.rest = text ++ rest) (hs : Spread Blank v.tokens text) (hr : Stops rest) :
    outcome (readValue levels c) = (v.value? levels).map (·, rest) := by
  cases v with
  | scalar s =>
    unfold Tree.tokens at hs
    obtain ⟨after, hrest, hs⟩ := rest_skipBlank_of_spread hc hs
    cases hs
    unfold Tree.value?
    exact outcome_readValue_scalar s levels hrest hr
  | list items =>
    unfold Tree.tokens at hs
    obtain ⟨s, hnext, hv, after, hafter, hs⟩ := next?_skipBlank_of_spread hc hs rfl
    have hv : s.value = '[' := hv
    have hdigit : isDigit '[' = false := by decide
    rw [readValue]
    simp only [hnext, hv]
    cases levels with
    | zero => rfl
    | succ levels =>
      unfold Tree.value?
      rcases outcome_eq_map (outcome_readItems items levels true [] hafter hs) with
        ⟨f, hf, hnone⟩ | ⟨t, ht, hsome, hrest⟩
      · have hnone : itemValues? levels items = none := by simpa using hnone
        simp [hf, hnone, hdigit, outcome]
      · have hsome : itemValues? levels items = some t.value := by simpa using hsome
        simp [ht, hsome, hdigit, outcome, Step.ofLater, Step.map, Step.andThen, hrest]
  | object members =>
    unfold Tree.tokens at hs
    obtain ⟨s, hnext, hv, after, hafter, hs⟩ := next?_skipBlank_of_spread hc hs rfl
    have hv : s.value = '\x7b' := hv
    have hdigit : isDigit '\x7b' = false := by decide
    rw [readValue]
    simp only [hnext, hv]
    cases levels with
    | zero => rfl
    | succ levels =>
      unfold Tree.value?
      rcases outcome_eq_map (outcome_readFields members levels true [] hafter hs) with
        ⟨f, hf, hnone⟩ | ⟨t, ht, hsome, hrest⟩
      · have hnone : memberValues? levels members = none := by simpa using hnone
        simp [hf, hnone, hdigit, outcome]
      · have hsome : memberValues? levels members = some t.value := by simpa using hsome
        simp [ht, hsome, hdigit, outcome, Step.ofLater, Step.map, Step.andThen, hrest]

theorem outcome_readItems (items : List Tree) (levels : Nat) (first : Bool) (done : List Json)
    {c : Cursor} {text rest : List Char} (hc : c.rest = text ++ rest)
    (hs : Spread Blank (itemTokens first items ++ [.closing .list]) text) :
    outcome (readItems levels first done c) =
      ((itemValues? levels items).map (done.reverse ++ ·)).map (·, rest) := by
  cases items with
  | nil =>
    unfold itemTokens at hs
    obtain ⟨look, hlook, hmore, hat⟩ := startItem_closing hc first hs
    obtain ⟨s, hclose, hrest⟩ := closeList_eq hat
    rw [readItems]
    simp [hlook, hmore, hclose, outcome, Step.ofLater, Step.map, hrest, itemValues?]
  | cons v items =>
    obtain ⟨t, ts, htokens, ht⟩ := exists_tokens_eq_cons v
    unfold itemTokens at hs
    rw [htokens] at hs
    simp only [List.append_assoc, List.cons_append] at hs
    obtain ⟨look, hlook, hmore, text', hat, hs⟩ := startItem_more hc first ht hs
    rw [← List.cons_append, ← htokens] at hs
    obtain ⟨text1, text2, rfl, hs1, hs2⟩ := spread_append.1 hs
    rw [List.append_assoc] at hat
    have hvalue := outcome_readValue v levels hat hs1 (stops_items hs2)
    rw [readItems]
    simp only [hlook, hmore, if_true]
    unfold itemValues?
    rcases outcome_eq_map hvalue with ⟨f, hf, hnone⟩ | ⟨s, hs', hsome, hrest⟩
    · simp only [hf, hnone]
      rfl
    · have hitems := outcome_readItems items levels false (s.value :: done) hrest hs2
      have hrev : ∀ js : List Json, (s.value :: done).reverse ++ js =
          done.reverse ++ s.value :: js := by simp
      simp only [hs', hsome]
      simp only [hrev] at hitems
      rw [Option.map_map, Option.map_map]
      rw [Option.map_map] at hitems
      refine Eq.trans ?_ hitems
      cases readItems levels false (s.value :: done) s.next <;> rfl

theorem outcome_readFields (members : List (List Piece × Tree)) (levels : Nat) (first : Bool)
    (done : List (String × Json)) {c : Cursor} {text rest : List Char} (hc : c.rest = text ++ rest)
    (hs : Spread Blank (memberTokens first members ++ [.closing .object]) text) :
    outcome (readFields levels first done c) =
      ((memberValues? levels members).map (done.reverse ++ ·)).map (·, rest) := by
  match members with
  | [] =>
    unfold memberTokens at hs
    obtain ⟨look, hlook, hmore, hat⟩ := startKey_closing hc first hs
    obtain ⟨s, hclose, hrest⟩ := closeObject_eq hat
    rw [readFields]
    simp [hlook, hmore, hclose, outcome, Step.ofLater, Step.map, hrest, memberValues?]
  | (key, v) :: members =>
    unfold memberTokens at hs
    simp only [List.append_assoc, List.cons_append] at hs
    obtain ⟨look, hlook, hmore, after, hat, hs⟩ := startKey_more hc first hs
    rw [readFields]
    simp only [hlook, hmore, if_true]
    unfold memberValues?
    rcases outcome_eq_map (outcome_readString hat) with ⟨f, hf, hnone⟩ | ⟨k, hk, hname, hrest⟩
    · simp only [hf, hnone]
      rfl
    obtain ⟨colon, after, hcolon, hafter, hs⟩ := readColon_eq hrest hs
    obtain ⟨text1, text2, rfl, hs1, hs2⟩ := spread_append.1 hs
    rw [List.append_assoc] at hafter
    have hvalue := outcome_readValue v levels hafter hs1 (stops_members hs2)
    simp only [hk, hname, hcolon]
    rcases outcome_eq_map hvalue with ⟨f, hf, hnone⟩ | ⟨s, hs', hsome, hrest⟩
    · simp only [hf, hnone]
      rfl
    · have hfields := outcome_readFields members levels false ((k.value, s.value) :: done) hrest hs2
      have hrev : ∀ fields : List (String × Json), ((k.value, s.value) :: done).reverse ++ fields =
          done.reverse ++ (k.value, s.value) :: fields := by simp
      simp only [hs', hsome]
      simp only [hrev] at hfields
      rw [Option.map_map, Option.map_map]
      rw [Option.map_map] at hfields
      refine Eq.trans ?_ hfields
      cases readFields levels false ((k.value, s.value) :: done) s.next <;> rfl

end

/-! ## Whole texts -/

/-- **A text that denotes a tree** is read as its value. -/
theorem parse_eq_ok_iff {text : List Char} {v : Tree} (h : Denotes text v) {j : Json} :
    parse (String.ofList text) = .ok j ↔ v.value? maxDepth = some j := by
  obtain ⟨body, gap, rfl, hs, hg⟩ := h
  have hstart : (Cursor.start (String.ofList (body ++ gap)).toList).rest = body ++ gap := by
    simp [Cursor.start]
  have hstops : Stops gap := fun ch hch => not_isAtomic_of_isBlank (hg ch (List.mem_of_mem_head? hch))
  unfold parse
  rcases outcome_eq_map (outcome_readValue v maxDepth hstart hs hstops) with
    ⟨f, hf, hnone⟩ | ⟨s, hs', hsome, hrest⟩
  · simp [hf, hnone]
  · have hfinish : finish s.next = .ok () := by
      have hpeek : s.next.skipBlank.peek? = none := by
        have hdrop := dropWhile_blank hg []
        rw [List.append_nil] at hdrop
        unfold Cursor.peek?
        rw [Cursor.rest_skipBlank, hrest, hdrop]
        rfl
      unfold finish
      simp only [hpeek]
    simp [hs', hsome, hfinish]

end BuildLayout.Json
