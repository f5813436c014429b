import BuildLayout.Proofs.Component.ClassName
import BuildLayout.Proofs.Component.Label

/-!
# Where the words of a label are parted

A label shows a name of letters and digits as it is, with its first letter in upper case and spaces
in between (`toList_label_of_word`). Where a space stands is read off the text that is shown:
`SpaceBehind` counts the other characters before it, and finds the places at which a text is spread
out (`spaceBehind_spread`).

The rule that is promised (`PartsWords`) has a space wherever an upper-case letter follows one in
lower case and wherever a letter and a digit meet, and keeps acronyms together. Labels follow it but
for the numbers of `JoinedAt` (`partsWords_label_iff`).
-/

namespace BuildLayout.Label

open Component (isWordChar)

/-! ## Where spaces stand -/

/-- A space stands in a text that is shown, behind the first `n` of its other characters. -/
def SpaceBehind (shown : List Char) (n : Nat) : Prop :=
  ∃ front back, shown = front ++ ' ' :: back ∧ (front.filter (· ≠ ' ')).length = n

theorem not_spaceBehind_nil (n : Nat) : ¬ SpaceBehind [] n := by
  rintro ⟨front, back, h, -⟩
  simp at h

theorem spaceBehind_space {shown : List Char} {n : Nat} :
    SpaceBehind (' ' :: shown) n ↔ n = 0 ∨ SpaceBehind shown n := by
  constructor
  · rintro ⟨front, back, h, hn⟩
    cases front with
    | nil => exact .inl hn.symm
    | cons c front =>
      obtain ⟨rfl, htail⟩ := List.cons.inj h
      exact .inr ⟨front, back, htail, by simpa using hn⟩
  · rintro (rfl | ⟨front, back, rfl, hn⟩)
    · exact ⟨[], shown, rfl, rfl⟩
    · exact ⟨' ' :: front, back, rfl, by simpa using hn⟩

theorem spaceBehind_cons {c : Char} (hc : c ≠ ' ') {shown : List Char} {n : Nat} :
    SpaceBehind (c :: shown) n ↔ ∃ m, n = m + 1 ∧ SpaceBehind shown m := by
  constructor
  · rintro ⟨front, back, h, hn⟩
    cases front with
    | nil => exact absurd (List.cons.inj h).1 hc
    | cons b front =>
      obtain ⟨rfl, htail⟩ := List.cons.inj h
      rw [List.filter_cons_of_pos (by simpa using hc), List.length_cons] at hn
      exact ⟨_, hn.symm, front, back, htail, rfl⟩
  · rintro ⟨m, rfl, front, back, rfl, hn⟩
    refine ⟨c :: front, back, rfl, ?_⟩
    rw [List.filter_cons_of_pos (by simpa using hc), List.length_cons, hn]

/-- **The spaces of a text that is spread out** stand at its gaps. -/
theorem spaceBehind_spread (gap : Nat → Prop) [DecidablePred gap] {cs : List Char}
    (hcs : ' ' ∉ cs) {n : Nat} :
    SpaceBehind (spread gap cs) n ↔ ∃ i < cs.length, n = i + 1 ∧ gap i := by
  induction cs generalizing gap n with
  | nil =>
    have hnone : ¬ SpaceBehind (spread gap []) n := not_spaceBehind_nil n
    simp [hnone]
  | cons c cs ih =>
    obtain ⟨hc, hcs⟩ := not_or.1 (mt List.mem_cons.2 hcs)
    have hrest : ∀ m, SpaceBehind ((if gap 0 then [' '] else []) ++
        spread (fun i => gap (i + 1)) cs) m ↔
          gap 0 ∧ m = 0 ∨ ∃ i < cs.length, m = i + 1 ∧ gap (i + 1) := by
      intro m
      by_cases h0 : gap 0
      · simp [h0, spaceBehind_space, ih _ hcs]
      · simp [h0, ih _ hcs]
    rw [spread_cons, spaceBehind_cons (Ne.symm hc)]
    simp only [hrest]
    constructor
    · rintro ⟨m, rfl, ⟨h0, rfl⟩ | ⟨i, hi, rfl, hgap⟩⟩
      · exact ⟨0, by simp, rfl, h0⟩
      · exact ⟨i + 1, by simpa using hi, rfl, hgap⟩
    · rintro ⟨i, hi, rfl, hgap⟩
      refine ⟨i, rfl, ?_⟩
      cases i with
      | zero => exact .inl ⟨hgap, rfl⟩
      | succ i => exact .inr ⟨i, by simpa using hi, rfl, hgap⟩

theorem filter_spread_of_not_mem (gap : Nat → Prop) [DecidablePred gap] {cs : List Char}
    (hcs : ' ' ∉ cs) : (spread gap cs).filter (· ≠ ' ') = cs := by
  rw [filter_spread, List.filter_eq_self]
  intro c hc
  exact decide_eq_true fun heq => hcs (heq ▸ hc)

/-! ## Names of letters and digits -/

theorem toNat_lt_of_word {c : Char} (h : isWordChar c) : c.toNat < 0x80 := by
  unfold isWordChar isLetter isDigit at h
  simp only [Bool.or_eq_true, Bool.and_eq_true, decide_eq_true_eq] at h
  rcases h with (⟨-, h⟩ | ⟨-, h⟩) | ⟨-, h⟩
  · exact toNat_lt_of_le h (by decide)
  · exact toNat_lt_of_le h (by decide)
  · exact toNat_lt_of_le h (by decide)

theorem not_isSpacer_of_word {c : Char} (h : isWordChar c) : isSpacer c = false :=
  forall_ascii (P := fun c => isWordChar c → isSpacer c = false) (by decide) (toNat_lt_of_word h) h

/-- A letter or digit is a letter in lower case, one in upper case or a digit. -/
theorem word_cases {c : Char} (h : isWordChar c) :
    isLower c ∧ isUpper c = false ∧ isDigit c = false ∧ isLetter c ∨
      isLower c = false ∧ isUpper c ∧ isDigit c = false ∧ isLetter c ∨
      isLower c = false ∧ isUpper c = false ∧ isDigit c ∧ isLetter c = false := by
  have hkinds : isLetter c = (isLower c || isUpper c) := rfl
  cases hdigit : isDigit c with
  | true =>
    have hletter := isLetter_of_isDigit hdigit
    rw [hkinds, Bool.or_eq_false_iff] at hletter
    exact .inr (.inr ⟨hletter.1, hletter.2, rfl, isLetter_of_isDigit hdigit⟩)
  | false =>
    have hletter : isLetter c := by simpa [isWordChar, hdigit] using h
    cases hlower : isLower c with
    | true => exact .inl ⟨rfl, isUpper_of_isLower hlower, rfl, hletter⟩
    | false => exact .inr (.inl ⟨rfl, by simpa [hkinds, hlower] using hletter, rfl, hletter⟩)

theorem withoutPrefix_of_word {cs : List Char} (h : ∀ c ∈ cs, isWordChar c) :
    withoutPrefix cs = cs := by
  have hline : '_' ∉ cs := fun hm => absurd (h _ hm) (by decide)
  unfold withoutPrefix
  split
  · exact absurd (List.mem_cons_self ..) hline
  · exact absurd (List.mem_cons_of_mem _ (List.mem_cons_self ..)) hline
  · rfl

/-- **The label of a name of letters and digits** is the name with its first letter in upper case,
spread out. -/
theorem toList_label_of_word {name : String} (h : ∀ c ∈ name.toList, isWordChar c) :
    (label name).toList = spread (PartsAt name.toList) (capitalized name.toList) := by
  rw [label, String.toList_ofList, withoutPrefix_of_word h, spaced_eq_spread, spread_capitalized]

theorem isWordChar_of_mem_capitalized {cs : List Char} (h : ∀ c ∈ cs, isWordChar c) :
    ∀ c ∈ capitalized cs, isWordChar c := by
  cases cs with
  | nil => exact h
  | cons c cs =>
    rw [capitalized, List.forall_mem_cons, Component.isWordChar_upper]
    exact List.forall_mem_cons.1 h

theorem length_capitalized (cs : List Char) : (capitalized cs).length = cs.length := by
  cases cs with
  | nil => rfl
  | cons c cs => rfl

theorem space_not_mem_of_word {cs : List Char} (h : ∀ c ∈ cs, isWordChar c) : ' ' ∉ cs :=
  fun hm => absurd (h _ hm) (by decide)

theorem PartsAt.lt_length {s : List Char} {i : Nat} (h : PartsAt s i) : i + 1 < s.length := by
  obtain ⟨-, -, next, hnext, -⟩ := h
  exact (List.getElem?_eq_some_iff.1 hnext).1

/-- The spaces of the label of a name of letters and digits. -/
theorem spaceBehind_label {name : String} (h : ∀ c ∈ name.toList, isWordChar c) {i : Nat} :
    SpaceBehind (label name).toList (i + 1) ↔ PartsAt name.toList i := by
  rw [toList_label_of_word h, spaceBehind_spread _
    (space_not_mem_of_word (isWordChar_of_mem_capitalized h)), length_capitalized]
  constructor
  · rintro ⟨j, -, hij, hparts⟩
    obtain rfl : i = j := by omega
    exact hparts
  · intro hparts
    have := hparts.lt_length
    exact ⟨i, by omega, rfl, hparts⟩

/-- Whether a space parts two letters or digits is a matter of their kinds, and of whether a letter
in lower case follows them. -/
theorem parts_iff_of_word {c next : Char} (hc : isWordChar c) (hnext : isWordChar next)
    {beyond : Option Char} :
    Parts c next beyond ↔
      isLower c ∧ (isUpper next ∨ isDigit next) ∨
        (∃ b ∈ beyond, isLower b) ∧ (isUpper next ∨ isLetter c ∧ isDigit next) := by
  have hspacer := not_isSpacer_of_word hc
  unfold Parts
  rcases word_cases hc with ⟨h1, h2, h3, h4⟩ | ⟨h1, h2, h3, h4⟩ | ⟨h1, h2, h3, h4⟩ <;>
    rcases word_cases hnext with ⟨k1, k2, k3, k4⟩ | ⟨k1, k2, k3, k4⟩ | ⟨k1, k2, k3, k4⟩ <;>
    simp [hspacer, h1, h3, h4, k2, k3]

/-! ## The rule that is promised -/

/-- Two characters stand next to each other in a text. -/
def Meet (s : List Char) (i : Nat) (c next : Char) : Prop :=
  s[i]? = some c ∧ s[i + 1]? = some next

/-- A letter in lower case stands at a place. -/
def LowerAt (s : List Char) (i : Nat) : Prop :=
  ∃ b ∈ s[i]?, isLower b

instance (s : List Char) (i : Nat) : Decidable (LowerAt s i) :=
  decidable_of_iff (s[i]?.any isLower) (by simp [LowerAt, Option.any_eq_true])

/-- A text is shown with its words parted: at every change from lower to upper case, and between
letters and digits. Two letters in upper case stay together unless a word begins with the second. -/
structure PartsWords (s shown : List Char) : Prop where
  capital {i : Nat} {c next : Char} : Meet s i c next → isLower c → isUpper next →
    SpaceBehind shown (i + 1)
  number {i : Nat} {c next : Char} : Meet s i c next →
    isLetter c ∧ isDigit next ∨ isDigit c ∧ isLetter next → SpaceBehind shown (i + 1)
  acronym {i : Nat} {c next : Char} : Meet s i c next → isUpper c → isUpper next →
    ¬ LowerAt s (i + 2) → ¬ SpaceBehind shown (i + 1)

/-- A letter and a digit that a label leaves together, given whether a letter in lower case is
behind them: one in upper case next to a digit where none is, or one in lower case after a
digit. -/
def Joined (c next : Char) (lowerBehind : Prop) : Prop :=
  (isUpper c ∧ isDigit next ∨ isDigit c ∧ isUpper next) ∧ ¬ lowerBehind ∨ isDigit c ∧ isLower next

/-- A letter and a digit that a label leaves together meet at a place. -/
def JoinedAt (s : List Char) (i : Nat) : Prop :=
  ∃ c ∈ s[i]?, ∃ next ∈ s[i + 1]?, Joined c next (LowerAt s (i + 2))

instance (c next : Char) (lowerBehind : Prop) [Decidable lowerBehind] :
    Decidable (Joined c next lowerBehind) :=
  inferInstanceAs (Decidable (_ ∨ _))

instance (s : List Char) (i : Nat) : Decidable (JoinedAt s i) :=
  decidable_of_iff
    (s[i]?.any fun c => s[i + 1]?.any fun next => decide (Joined c next (LowerAt s (i + 2))))
    (by simp [JoinedAt, Option.any_eq_true])

theorem Joined.number {c next : Char} {lowerBehind : Prop} (h : Joined c next lowerBehind) :
    isLetter c ∧ isDigit next ∨ isDigit c ∧ isLetter next := by
  have hletter : ∀ c, isLetter c = (isLower c || isUpper c) := fun _ => rfl
  simp only [hletter, Bool.or_eq_true]
  rcases h with ⟨⟨hc, hnext⟩ | ⟨hc, hnext⟩, -⟩ | ⟨hc, hnext⟩
  · exact .inl ⟨.inr hc, hnext⟩
  · exact .inr ⟨hc, .inr hnext⟩
  · exact .inr ⟨hc, .inl hnext⟩

section
variable {name : String} (h : ∀ c ∈ name.toList, isWordChar c) {i : Nat} {c next : Char}
  (hm : Meet name.toList i c next)
include h hm

theorem Meet.word : isWordChar c ∧ isWordChar next :=
  ⟨h c (List.mem_of_getElem? hm.1), h next (List.mem_of_getElem? hm.2)⟩

/-- Whether a space parts two letters or digits of a name. -/
theorem Meet.spaceBehind_iff :
    SpaceBehind (label name).toList (i + 1) ↔
      isLower c ∧ (isUpper next ∨ isDigit next) ∨
        LowerAt name.toList (i + 2) ∧ (isUpper next ∨ isLetter c ∧ isDigit next) := by
  obtain ⟨hc, hnext⟩ := hm.word h
  have hparts : PartsAt name.toList i ↔ Parts c next name.toList[i + 2]? := by
    simp [PartsAt, hm.1, hm.2]
  rw [spaceBehind_label h, hparts, parts_iff_of_word hc hnext]
  rfl

omit h in
theorem Meet.joinedAt_iff :
    JoinedAt name.toList i ↔ Joined c next (LowerAt name.toList (i + 2)) := by
  simp [JoinedAt, hm.1, hm.2]

/-- A letter and a digit are parted, or left together. -/
theorem Meet.spaceBehind_number (hnumber : isLetter c ∧ isDigit next ∨ isDigit c ∧ isLetter next) :
    SpaceBehind (label name).toList (i + 1) ↔ ¬ JoinedAt name.toList i := by
  obtain ⟨hc, hnext⟩ := hm.word h
  rw [hm.spaceBehind_iff h, hm.joinedAt_iff]
  unfold Joined
  rcases word_cases hc with ⟨h1, h2, h3, h4⟩ | ⟨h1, h2, h3, h4⟩ | ⟨h1, h2, h3, h4⟩ <;>
    rcases word_cases hnext with ⟨k1, k2, k3, k4⟩ | ⟨k1, k2, k3, k4⟩ | ⟨k1, k2, k3, k4⟩ <;>
    simp_all

end

/-- A letter and a digit that are left together break the rule. -/
theorem not_partsWords_of_joinedAt {name : String} (h : ∀ c ∈ name.toList, isWordChar c) {i : Nat}
    (hj : JoinedAt name.toList i) : ¬ PartsWords name.toList (label name).toList := by
  intro hparts
  obtain ⟨c, hc, next, hnext, hjoined⟩ := id hj
  have hm : Meet name.toList i c next := ⟨hc, hnext⟩
  exact (hm.spaceBehind_number h hjoined.number).1 (hparts.number hm hjoined.number) hj

/-! ## The main result -/

/-- **Where a label parts words.** The label of a name of letters and digits has no spaces but those
between its words, and it follows the rule that is promised exactly when no letter and digit that
meet are left together. -/
theorem partsWords_label_iff {name : String} (h : ∀ c ∈ name.toList, isWordChar c) :
    (label name).toList.filter (· ≠ ' ') = capitalized name.toList ∧
    (∀ i c next, Meet name.toList i c next → (SpaceBehind (label name).toList (i + 1) ↔
      isLower c ∧ (isUpper next ∨ isDigit next) ∨
        LowerAt name.toList (i + 2) ∧ (isUpper next ∨ isLetter c ∧ isDigit next))) ∧
    (PartsWords name.toList (label name).toList ↔
      ∀ i < name.toList.length, ¬ JoinedAt name.toList i) := by
  refine ⟨?_, fun i c next hm => hm.spaceBehind_iff h, ?_, fun hjoined => ?_⟩
  · rw [toList_label_of_word h]
    exact filter_spread_of_not_mem _ (space_not_mem_of_word (isWordChar_of_mem_capitalized h))
  · intro hparts i _ hj
    exact not_partsWords_of_joinedAt h hj hparts
  · exact {
      capital := by
        intro i c next hm hc hnext
        exact (hm.spaceBehind_iff h).2 (.inl ⟨hc, .inl hnext⟩)
      number := by
        intro i c next hm hnumber
        have hi : i < name.toList.length := (List.getElem?_eq_some_iff.1 hm.1).1
        exact (hm.spaceBehind_number h hnumber).2 (hjoined i hi)
      acronym := by
        intro i c next hm hc hnext hlower
        have hkind : isLower c = false := by
          by_contra hc'
          rw [isUpper_of_isLower (Bool.not_eq_false _ ▸ hc')] at hc
          cases hc
        simp [hm.spaceBehind_iff h, hkind, hlower] }

/-- A name with an acronym, and with a number between two words. -/
theorem partsWords_label_iff_server :
    (∀ c ∈ "HTTPServer2Max".toList, isWordChar c) ∧
      PartsWords "HTTPServer2Max".toList (label "HTTPServer2Max").toList := by
  have h : ∀ c ∈ "HTTPServer2Max".toList, isWordChar c := List.all_eq_true.1 (by decide)
  exact ⟨h, (partsWords_label_iff h).2.2.2 (by decide +kernel)⟩

/-- **Numbers that are not parted** from an acronym before them, from an upper-case letter and from
a word behind them. -/
theorem not_partsWords_label :
    (label "HTTP2" = "HTTP2" ∧ ¬ PartsWords "HTTP2".toList (label "HTTP2").toList) ∧
      (label "Vector3D" = "Vector 3D" ∧
        ¬ PartsWords "Vector3D".toList (label "Vector3D").toList) ∧
      label "7up" = "7up" ∧ ¬ PartsWords "7up".toList (label "7up").toList := by
  have hacronym : JoinedAt "HTTP2".toList 3 := by decide +kernel
  have hcapital : JoinedAt "Vector3D".toList 6 := by decide +kernel
  have hword : JoinedAt "7up".toList 0 := by decide +kernel
  refine ⟨⟨by decide, ?_⟩, ⟨by decide, ?_⟩, by decide, ?_⟩
  · exact not_partsWords_of_joinedAt (List.all_eq_true.1 (by decide)) hacronym
  · exact not_partsWords_of_joinedAt (List.all_eq_true.1 (by decide)) hcapital
  · exact not_partsWords_of_joinedAt (List.all_eq_true.1 (by decide)) hword

end BuildLayout.Label
