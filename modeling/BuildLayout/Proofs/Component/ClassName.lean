import BuildLayout.Proofs.Component.Outcome
import BuildLayout.Proofs.Emit.Places

/-!
# Class names of components

The class name of a component is made of the letters and digits of its name. It can be the name of a
class (`IsIdentifier`) exactly when the first of them is a letter (`isIdentifier_className_iff`):
`head?_joinRuns` says which one comes first, and that it is in upper case if it is a letter.
-/

namespace BuildLayout

namespace Label

/-! ## Letters and digits -/

/-- What holds of the ASCII characters one by one holds of each. -/
theorem forall_ascii {P : Char → Prop} (h : ∀ n < 0x80, P (Char.ofNat n)) {c : Char}
    (hc : c.toNat < 0x80) : P c :=
  Char.ofNat_toNat c ▸ h c.toNat hc

theorem toNat_lt_of_le {c bound : Char} (h : c ≤ bound) (hb : bound.toNat < 0x80) :
    c.toNat < 0x80 :=
  Nat.lt_of_le_of_lt h hb

/-- Upper case is a matter of ASCII. -/
theorem upper_eq_self {c : Char} (hc : ¬ c.toNat < 0x80) : upper c = c :=
  if_neg fun hlower => hc (toNat_lt_of_le hlower.2 (by decide))

/-- A class of characters that upper case keeps in ASCII is kept by it. -/
theorem kept_by_upper {P : Char → Bool}
    (h : ∀ n < 0x80, P (upper (Char.ofNat n)) = P (Char.ofNat n)) (c : Char) :
    P (upper c) = P c := by
  by_cases hc : c.toNat < 0x80
  · exact forall_ascii (P := fun c => P (upper c) = P c) h hc
  · rw [upper_eq_self hc]

theorem upper_upper (c : Char) : upper (upper c) = upper c := by
  by_cases hc : c.toNat < 0x80
  · exact forall_ascii (P := fun c => upper (upper c) = upper c) (by decide) hc
  · rw [upper_eq_self hc, upper_eq_self hc]

theorem isDigit_upper (c : Char) : isDigit (upper c) = isDigit c :=
  kept_by_upper (by decide) c

/-- No character is a letter and a digit. -/
theorem isLetter_of_isDigit {c : Char} (h : isDigit c) : isLetter c = false := by
  have hc : c.toNat < 0x80 := by
    unfold isDigit at h
    rw [Bool.and_eq_true, decide_eq_true_eq, decide_eq_true_eq] at h
    exact toNat_lt_of_le h.2 (by decide)
  exact forall_ascii (P := fun c => isDigit c → isLetter c = false) (by decide) hc h

end Label

namespace Component

open Label (isLetter isDigit upper isDigit_upper isLetter_of_isDigit)

theorem isWordChar_upper (c : Char) : isWordChar (upper c) = isWordChar c :=
  Label.kept_by_upper (by decide) c

/-! ## Runs of letters and digits -/

theorem isWordChar_of_mem_joinRuns {begun : Bool} {cs : List Char} {c : Char}
    (h : c ∈ joinRuns begun cs) : isWordChar c := by
  induction cs generalizing begun with
  | nil => cases h
  | cons b cs ih =>
    rw [joinRuns] at h
    split at h
    · next hb =>
      rcases List.mem_cons.1 h with rfl | h
      · split
        · exact hb
        · rw [isWordChar_upper, hb]
      · exact ih h
    · exact ih h

/-- **What a class name begins with**: the first letter or digit, a letter in upper case. -/
theorem head?_joinRuns (cs : List Char) :
    (joinRuns false cs).head? = (cs.find? isWordChar).map upper := by
  induction cs with
  | nil => rfl
  | cons c cs ih =>
    rw [joinRuns]
    cases hc : isWordChar c with
    | true => rw [List.find?_cons_of_pos hc]; rfl
    | false =>
      rw [List.find?_cons_of_neg (by simp [hc]), ← ih]
      rfl

theorem toList_className (name : String) : (className name).toList = joinRuns false name.toList :=
  String.toList_ofList

theorem head?_className (name : String) :
    (className name).toList.head? = (name.toList.find? isWordChar).map upper := by
  rw [toList_className, head?_joinRuns]

/-- An accepted name has a first letter or digit. -/
theorem exists_first_of_isValidName {name : String} (h : isValidName name) :
    ∃ c, name.toList.find? isWordChar = some c := by
  unfold isValidName at h
  rw [Bool.and_eq_true] at h
  exact Option.isSome_iff_exists.1 (List.find?_isSome.2 (List.any_eq_true.1 h.2))

/-! ## Names of classes -/

/-- A class can have the name: it is not empty, made of ASCII letters and digits, and does not begin
with a digit. -/
structure IsIdentifier (name : String) : Prop where
  ne_empty : name ≠ ""
  word : ∀ c ∈ name.toList, isWordChar c
  start : ∀ c ∈ name.toList.head?, isDigit c = false

theorem isIdentifier_iff {name : String} :
    IsIdentifier name ↔ name ≠ "" ∧ (∀ c ∈ name.toList, isWordChar c) ∧
      ∀ c ∈ name.toList.head?, isDigit c = false :=
  ⟨fun h => ⟨h.ne_empty, h.word, h.start⟩, fun h => ⟨h.1, h.2.1, h.2.2⟩⟩

/-- **The class name of a new component** is not empty and made of ASCII letters and digits. A class
can have it exactly when the first letter or digit of the component's name is a letter. -/
theorem isIdentifier_className_iff {name : String} (hname : validateName name = .ok ()) :
    (∀ d d' dir kind writing created, create d dir name kind writing = (.ok created, d') →
      created.className = className name) ∧
    className name ≠ "" ∧ (∀ c ∈ (className name).toList, isWordChar c) ∧
    (IsIdentifier (className name) ↔ ∃ c, IsFirst (isWordChar ·) name.toList c ∧ isLetter c) := by
  obtain ⟨first, hfirst⟩ := exists_first_of_isValidName (validateName_eq_ok_iff.1 hname)
  have hhead : (className name).toList.head? = some (upper first) := by
    rw [head?_className, hfirst, Option.map_some]
  have hne : className name ≠ "" := by
    intro hempty
    rw [hempty] at hhead
    cases hhead
  have hword : ∀ c ∈ (className name).toList, isWordChar c := fun c hc =>
    isWordChar_of_mem_joinRuns (toList_className name ▸ hc)
  have hiff : IsIdentifier (className name) ↔ isLetter first := by
    have hwordFirst : isWordChar first := List.find?_some hfirst
    rw [isIdentifier_iff, hhead]
    simp only [Option.mem_some_iff, forall_eq', isDigit_upper]
    constructor
    · rintro ⟨-, -, hdigit⟩
      unfold isWordChar at hwordFirst
      simpa [hdigit] using hwordFirst
    · intro hletter
      refine ⟨hne, hword, ?_⟩
      by_contra hdigit
      rw [isLetter_of_isDigit (Bool.not_eq_false _ ▸ hdigit)] at hletter
      cases hletter
  refine ⟨fun _ _ _ _ _ _ h => className_of_create h, hne, hword, hiff.trans ?_⟩
  constructor
  · exact fun hletter => ⟨first, isFirst_iff.2 (by simpa using hfirst), hletter⟩
  · rintro ⟨c, hc, hletter⟩
    have hsame := isFirst_iff.1 hc
    simp only [Bool.decide_eq_true, hfirst, Option.some.injEq] at hsame
    exact hsame ▸ hletter

/-- A class can be named for a component whose name begins with signs and holds digits. -/
theorem isIdentifier_className_iff_dashed :
    validateName "-my_door2.3d" = .ok () ∧ IsIdentifier (className "-my_door2.3d") := by
  have hname : validateName "-my_door2.3d" = .ok () := by decide
  refine ⟨hname, (isIdentifier_className_iff hname).2.2.2.2 ⟨'m', ?_, by decide⟩⟩
  exact isFirst_iff.2 (by decide)

/-- **A component whose class cannot have its name**: `2d-thing` is accepted, and the class is
`2dThing`. -/
theorem not_isIdentifier_className :
    validateName "2d-thing" = .ok () ∧ className "2d-thing" = "2dThing" ∧
      ¬ IsIdentifier (className "2d-thing") := by
  have hclass : className "2d-thing" = "2dThing" := by decide
  have hstart : '2' ∈ "2dThing".toList.head? := by decide
  refine ⟨by decide, hclass, fun h => ?_⟩
  rw [hclass] at h
  exact absurd (h.start '2' hstart) (by decide)

end Component

end BuildLayout
