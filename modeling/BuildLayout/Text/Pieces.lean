/-! # Pieces of a text

* `splitOn`: the pieces of a text between the occurrences of a separator; there is always at least
  one, and joining them again gives the text (`joinWith_splitOn`).
* `dropSuffix?`: what stands before a given ending (`dropSuffix?_eq_some_iff`).
-/

namespace BuildLayout.Text

/-- The pieces between the occurrences of a separator, in order; `n` separators give `n + 1`. -/
def splitOn (sep : Char) : List Char → List (List Char)
  | [] => [[]]
  | c :: cs =>
    if c = sep then [] :: splitOn sep cs
    else match splitOn sep cs with
      | [] => [[c]]
      | piece :: pieces => (c :: piece) :: pieces

/-- The pieces with the separator between each two. -/
def joinWith (sep : Char) : List (List Char) → List Char
  | [] => []
  | [piece] => piece
  | piece :: next :: pieces => piece ++ sep :: joinWith sep (next :: pieces)

theorem splitOn_ne_nil (sep : Char) (cs : List Char) : splitOn sep cs ≠ [] := by
  cases cs with
  | nil => simp [splitOn]
  | cons c cs =>
    rw [splitOn]
    split
    · simp
    · split <;> simp

theorem joinWith_cons_cons (sep c : Char) (piece : List Char) (pieces : List (List Char)) :
    joinWith sep ((c :: piece) :: pieces) = c :: joinWith sep (piece :: pieces) := by
  cases pieces <;> simp [joinWith]

/-- Splitting loses nothing. -/
theorem joinWith_splitOn (sep : Char) (cs : List Char) :
    joinWith sep (splitOn sep cs) = cs := by
  induction cs with
  | nil => rfl
  | cons c cs ih =>
    rw [splitOn]
    split
    · next h =>
      subst h
      cases hs : splitOn c cs with
      | nil => exact absurd hs (splitOn_ne_nil c cs)
      | cons piece pieces =>
        rw [joinWith, ← hs, ih]
        rfl
    · cases hs : splitOn sep cs with
      | nil => exact absurd hs (splitOn_ne_nil sep cs)
      | cons piece pieces =>
        simp only [joinWith_cons_cons, ← hs, ih]

/-- What stands before the ending `suffix`, when the text ends so. -/
def dropSuffix? (s suffix : String) : Option String :=
  if suffix.toList.isSuffixOf s.toList then
    some (String.ofList (s.toList.take (s.toList.length - suffix.toList.length)))
  else none

theorem dropSuffix?_eq_some_iff {s suffix rest : String} :
    dropSuffix? s suffix = some rest ↔ s = rest ++ suffix := by
  unfold dropSuffix?
  constructor
  · intro h
    split at h
    · next hs =>
      obtain ⟨front, hf⟩ := List.isSuffixOf_iff_suffix.1 hs
      have hr := Option.some.inj h
      apply String.toList_inj.1
      rw [← hr, String.toList_append, String.toList_ofList, ← hf]
      simp
    · cases h
  · rintro rfl
    rw [if_pos (by simp [List.isSuffixOf_iff_suffix])]
    congr 1
    apply String.toList_inj.1
    simp

end BuildLayout.Text
