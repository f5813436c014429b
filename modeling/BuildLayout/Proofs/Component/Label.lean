import BuildLayout.Component.Label

/-!
# Where the spaces of a label stand

The scan that makes a label carries what it knows about the characters it has passed. That is no
more than what the next two characters are (`startsWord_spaced`, `startsNumberWord_spaced`), so
whether a space follows a character is a matter of three characters in a row (`Parts`,
`spaceAfter_spaced`), and the label is the name spread out by these spaces
(`toList_label_eq_spread`).
-/

namespace BuildLayout.Label

/-! ## The rule -/

/-- An ASCII letter in lower case. -/
def isLower (c : Char) : Bool := 'a' ≤ c && c ≤ 'z'

/-- A space belongs after `c`, which `next` follows and then, if the text goes on, `beyond`: where
an upper-case letter follows one in lower case, where a word begins, where a number begins a word,
and where a number follows a letter in lower case. -/
def Parts (c next : Char) (beyond : Option Char) : Prop :=
  ¬ isSpacer c ∧
    (isLower c ∧ isUpper next ∨
      (isLetter c ∨ isDigit c) ∧ isUpper next ∧ (∃ b ∈ beyond, isLower b) ∨
      ¬ isDigit c ∧ isDigit next ∧ (∃ b ∈ beyond, isLower b) ∨
      isLower c ∧ isDigit next)

instance (c next : Char) (beyond : Option Char) : Decidable (Parts c next beyond) :=
  inferInstanceAs (Decidable (_ ∧ _))

/-- A space belongs between the character at `i` and the next one. -/
def PartsAt (s : List Char) (i : Nat) : Prop :=
  ∃ c ∈ s[i]?, ∃ next ∈ s[i + 1]?, Parts c next s[i + 2]?

instance (s : List Char) : DecidablePred (PartsAt s) := fun i =>
  inferInstanceAs (Decidable (∃ c ∈ s[i]?, ∃ next ∈ s[i + 1]?, Parts c next s[i + 2]?))

/-- The characters in order, with a space after each that is at one of the places. -/
def spread (gap : Nat → Prop) [DecidablePred gap] (cs : List Char) : List Char :=
  (cs.mapIdx fun i c => c :: if gap i then [' '] else []).flatten

/-- What a name is without its prefix: one `_`, or else `m_`. -/
inductive Unprefixed : List Char → List Char → Prop
  | underscore (s : List Char) : Unprefixed ('_' :: s) s
  | member (s : List Char) : Unprefixed ('m' :: '_' :: s) s
  | plain {s : List Char} (h : ¬ ['_'] <+: s) (hm : ¬ ['m', '_'] <+: s) : Unprefixed s s

theorem unprefixed_withoutPrefix (cs : List Char) : Unprefixed cs (withoutPrefix cs) := by
  unfold withoutPrefix
  split
  · exact .underscore _
  · exact .member _
  · next h hm =>
    refine .plain (fun hp => ?_) fun hp => ?_
    · obtain ⟨s, rfl⟩ := hp
      exact h s rfl
    · obtain ⟨s, rfl⟩ := hp
      exact hm s rfl

/-! ## Spreading characters out -/

section
variable (gap : Nat → Prop) [DecidablePred gap]

theorem spread_cons (c : Char) (cs : List Char) :
    spread gap (c :: cs) =
      c :: ((if gap 0 then [' '] else []) ++ spread (fun i => gap (i + 1)) cs) := by
  unfold spread
  rw [List.mapIdx_cons, List.flatten_cons, List.cons_append]

/-- No character is lost, and their order is kept. -/
theorem sublist_spread (cs : List Char) : cs.Sublist (spread gap cs) := by
  induction cs generalizing gap with
  | nil => exact List.Sublist.refl _
  | cons c cs ih =>
    rw [spread_cons]
    exact .cons_cons c ((ih _).trans (List.sublist_append_right _ _))

/-- Nothing but spaces is added. -/
theorem filter_spread (cs : List Char) :
    (spread gap cs).filter (· ≠ ' ') = cs.filter (· ≠ ' ') := by
  induction cs generalizing gap with
  | nil => rfl
  | cons c cs ih =>
    have hgap : (if gap 0 then [' '] else []).filter (· ≠ ' ') = [] := by
      split <;> rfl
    rw [spread_cons, List.filter_cons, List.filter_cons, List.filter_append, hgap, ih,
      List.nil_append]

/-- Only where the spaces are is asked of the characters that are spread out. -/
theorem spread_capitalized (cs : List Char) :
    spread gap (capitalized cs) = capitalized (spread gap cs) := by
  cases cs with
  | nil => rfl
  | cons c cs => rw [capitalized, spread_cons, spread_cons, capitalized]

end

/-! ## What the scan knows -/

theorem isUpper_of_isLower {c : Char} (h : isLower c) : isUpper c = false := by
  unfold isLower at h
  rw [Bool.and_eq_true, decide_eq_true_eq, decide_eq_true_eq] at h
  have hc : ¬ c ≤ 'Z' := fun hz => absurd (Char.le_trans h.1 hz) (by decide)
  simp [isUpper, hc]

/-- A letter that is not in upper case is in lower case. -/
theorem isLetter_and_not_isUpper (c : Char) : (isLetter c && !isUpper c) = isLower c := by
  have hletter : isLetter c = (isLower c || isUpper c) := rfl
  rw [hletter]
  cases h : isLower c with
  | true => simp [isUpper_of_isLower h]
  | false => simp

/-- The scan knows whether a letter in lower case is next. -/
theorem lower_spaced (cs : List Char) :
    ((spaced cs).2.letter && !(spaced cs).2.upper) = true ↔ ∃ b ∈ cs[0]?, isLower b := by
  cases cs with
  | nil => simp [spaced, Ahead.none]
  | cons b cs => simp [spaced, Ahead.pass, ← isLetter_and_not_isUpper]

theorem startsWord_spaced (next : Char) (cs : List Char) :
    (spaced (next :: cs)).2.startsWord ↔ isUpper next ∧ ∃ b ∈ cs[0]?, isLower b := by
  rw [← lower_spaced]
  simp [spaced, Ahead.pass, and_assoc]

theorem startsNumberWord_spaced (next : Char) (cs : List Char) :
    (spaced (next :: cs)).2.startsNumberWord ↔ isDigit next ∧ ∃ b ∈ cs[0]?, isLower b := by
  rw [← lower_spaced]
  simp [spaced, Ahead.pass, and_assoc]

/-- **Whether a space follows** is a matter of three characters in a row. -/
theorem spaceAfter_spaced (c : Char) (cs : List Char) :
    spaceAfter c (spaced cs).2 ↔ ∃ next ∈ cs[0]?, Parts c next cs[1]? := by
  unfold spaceAfter
  rw [isLetter_and_not_isUpper]
  cases cs with
  | nil => simp [spaced, Ahead.none]
  | cons next cs =>
    have hupper : (spaced (next :: cs)).2.upper = isUpper next := rfl
    have hdigit : (spaced (next :: cs)).2.digit = isDigit next := rfl
    have hword := startsWord_spaced next cs
    have hnumber := startsNumberWord_spaced next cs
    simp only [Bool.and_eq_true, Bool.or_eq_true, Bool.not_eq_true', hupper, hdigit, hword,
      hnumber, List.getElem?_cons_zero, List.getElem?_cons_succ, Option.mem_def,
      Option.some.injEq, exists_eq_left', Parts, Bool.not_eq_true]
    -- a word begins after a letter or after a digit by one rule, which the scan has twice
    simp only [and_assoc, and_self_left, or_and_right, or_assoc]

/-- The scan puts the spaces where they belong. -/
theorem spaced_eq_spread (cs : List Char) : (spaced cs).1 = spread (PartsAt cs) cs := by
  induction cs with
  | nil => rfl
  | cons c cs ih =>
    have hhere : PartsAt (c :: cs) 0 ↔ spaceAfter c (spaced cs).2 := by
      rw [spaceAfter_spaced]
      simp [PartsAt]
    have hlater : spread (fun i => PartsAt (c :: cs) (i + 1)) cs = spread (PartsAt cs) cs := rfl
    rw [spread_cons, hlater, ← ih, spaced]
    simp only [hhere]
    split <;> rfl

/-! ## The main result -/

/-- **A label** is the name without its prefix, its first character in upper case, with a space
between two characters exactly where these and the one behind them ask for it. No character is lost
or moved, and only spaces are added. -/
theorem toList_label_eq_spread (name : String) :
    ∃ s, Unprefixed name.toList s ∧ (label name).toList = spread (PartsAt s) (capitalized s) ∧
      (capitalized s).Sublist (label name).toList ∧
      (label name).toList.filter (· ≠ ' ') = (capitalized s).filter (· ≠ ' ') := by
  have hlabel : (label name).toList =
      spread (PartsAt (withoutPrefix name.toList)) (capitalized (withoutPrefix name.toList)) := by
    rw [label, String.toList_ofList, spaced_eq_spread, spread_capitalized]
  refine ⟨withoutPrefix name.toList, unprefixed_withoutPrefix _, hlabel, ?_, ?_⟩
  · rw [hlabel]
    exact sublist_spread _ _
  · rw [hlabel]
    exact filter_spread _ _

example : label "m_HTTPServer2go 7up" = "HTTP Server 2go 7up" := by decide

end BuildLayout.Label
