import BuildLayout.Proofs.Component.Words
import Mathlib.Data.List.Chain

/-!
# Display names of components

The class name of a component joins the words of its name (`toList_className_eq_flatMap`), and its
display name is the label of the class name. A class name is made of letters and digits and begins
with no letter in lower case, so nothing is left out of it or changed in its label: the display name
is the class name with single spaces inside it (`SpacedInside`).
-/

namespace BuildLayout

namespace Label

/-! ## Texts with spaces inside them -/

/-- A text is shown with single spaces inside it: without its spaces the shown text is the text, and
no space stands at one of its ends or next to another. -/
structure SpacedInside (text shown : List Char) : Prop where
  kept : shown.filter (· ≠ ' ') = text
  head : shown.head? ≠ some ' '
  last : shown.getLast? ≠ some ' '
  single : shown.IsChain fun a b => a ≠ ' ' ∨ b ≠ ' '

section
variable (gap : Nat → Prop) [DecidablePred gap]

theorem head?_spread (cs : List Char) : (spread gap cs).head? = cs.head? := by
  cases cs with
  | nil => rfl
  | cons c cs => rw [spread_cons, List.head?_cons, List.head?_cons]

/-- Where no gap is behind the last character, that one stays the last. -/
theorem getLast?_spread {cs : List Char} (hgap : ∀ i, gap i → i + 1 < cs.length) :
    (spread gap cs).getLast? = cs.getLast? := by
  induction cs generalizing gap with
  | nil => rfl
  | cons c cs ih =>
    have hrest := ih (fun i => gap (i + 1)) fun i h => Nat.lt_of_succ_lt_succ (hgap _ h)
    rw [spread_cons, List.getLast?_cons, List.getLast?_cons, List.getLast?_append, hrest]
    cases cs with
    | nil =>
      have h0 : ¬ gap 0 := fun h => absurd (hgap 0 h) (by simp)
      simp [h0]
    | cons d cs => simp [List.getLast?_cons]

/-- No two spaces stand next to each other. -/
theorem isChain_spread {cs : List Char} (hcs : ' ' ∉ cs) :
    (spread gap cs).IsChain fun a b => a ≠ ' ' ∨ b ≠ ' ' := by
  induction cs generalizing gap with
  | nil => exact .nil
  | cons c cs ih =>
    obtain ⟨hc, hcs⟩ := not_or.1 (mt List.mem_cons.2 hcs)
    have hrest := ih (fun i => gap (i + 1)) hcs
    rw [spread_cons, List.isChain_cons]
    refine ⟨fun _ _ => .inl (Ne.symm hc), ?_⟩
    by_cases h0 : gap 0
    · rw [if_pos h0, List.singleton_append, List.isChain_cons, head?_spread]
      refine ⟨fun d hd => .inr ?_, hrest⟩
      rintro rfl
      exact hcs (List.mem_of_mem_head? hd)
    · rwa [if_neg h0, List.nil_append]

/-- **A text that is spread out between its characters** has single spaces inside it. -/
theorem spacedInside_spread {cs : List Char} (hcs : ' ' ∉ cs)
    (hgap : ∀ i, gap i → i + 1 < cs.length) : SpacedInside cs (spread gap cs) where
  kept := filter_spread_of_not_mem gap hcs
  head := by
    rw [head?_spread]
    exact fun h => hcs (List.mem_of_mem_head? h)
  last := by
    rw [getLast?_spread gap hgap]
    exact fun h => hcs (List.mem_of_getLast? h)
  single := isChain_spread gap hcs

end

end Label

namespace Component

open Label (capitalized SpacedInside)

/-! ## The words of a name -/

/-- The words of a name: its longest runs of letters and digits, in order. -/
def words (cs : List Char) : List (List Char) :=
  (cs.splitOnP fun c => !isWordChar c).filter (· ≠ [])

/-- Runs are joined as the words that they are; the first one may go on with what is before. -/
theorem exists_joinRuns (cs : List Char) :
    ∃ run runs, (cs.splitOnP fun c => !isWordChar c) = run :: runs ∧
      joinRuns true cs = run ++ runs.flatMap capitalized ∧
      joinRuns false cs = capitalized run ++ runs.flatMap capitalized := by
  induction cs with
  | nil => exact ⟨[], [], rfl, by simp [joinRuns], by simp [joinRuns, capitalized]⟩
  | cons c cs ih =>
    obtain ⟨run, runs, hsplit, hbegun, hnew⟩ := ih
    rw [List.splitOnP_cons_eq_if_modifyHead, hsplit]
    by_cases hc : isWordChar c
    · refine ⟨c :: run, runs, by simp [hc], ?_, ?_⟩
      · rw [joinRuns, if_pos hc, if_pos rfl, hbegun, List.cons_append]
      · rw [joinRuns, if_pos hc, if_neg (by simp), hbegun, capitalized, List.cons_append]
    · refine ⟨[], run :: runs, by simp [hc], ?_, ?_⟩
      · rw [joinRuns, if_neg hc, hnew, List.nil_append, List.flatMap_cons]
      · rw [joinRuns, if_neg hc, hnew, List.flatMap_cons, capitalized, List.nil_append]

theorem flatMap_capitalized_filter (runs : List (List Char)) :
    (runs.filter (· ≠ [])).flatMap capitalized = runs.flatMap capitalized := by
  induction runs with
  | nil => rfl
  | cons run runs ih =>
    by_cases hrun : run = []
    · rw [List.filter_cons_of_neg (by simp [hrun]), ih, hrun, List.flatMap_cons, capitalized,
        List.nil_append]
    · rw [List.filter_cons_of_pos (by simpa using hrun), List.flatMap_cons, List.flatMap_cons, ih]

/-- **A class name** is made of the words of the name, each with its first letter in upper case. -/
theorem toList_className_eq_flatMap (name : String) :
    (className name).toList = (words name.toList).flatMap capitalized := by
  obtain ⟨run, runs, hsplit, -, hnew⟩ := exists_joinRuns name.toList
  rw [toList_className, hnew, words, flatMap_capitalized_filter, hsplit, List.flatMap_cons]

/-! ## The main result -/

theorem className_ne_empty {name : String} (h : isValidName name) : className name ≠ "" := by
  obtain ⟨first, hfirst⟩ := exists_first_of_isValidName h
  have hhead := head?_className name
  rw [hfirst] at hhead
  intro hempty
  rw [hempty] at hhead
  cases hhead

theorem word_of_mem_className {name : String} : ∀ c ∈ (className name).toList, isWordChar c := by
  rw [toList_className]
  exact fun c hc => isWordChar_of_mem_joinRuns hc

/-- A class name does not begin with a letter in lower case. -/
theorem capitalized_className (name : String) :
    capitalized (className name).toList = (className name).toList := by
  have hhead := head?_className name
  cases hclass : (className name).toList with
  | nil => rfl
  | cons c cs =>
    rw [hclass, List.head?_cons] at hhead
    obtain ⟨first, -, rfl⟩ := Option.map_eq_some_iff.1 hhead.symm
    rw [capitalized, Label.upper_upper]

/-- The label of a class name is the class name, spread out. -/
theorem spacedInside_label_className (name : String) :
    SpacedInside (className name).toList (label (className name)).toList := by
  rw [Label.toList_label_of_word word_of_mem_className, capitalized_className]
  exact Label.spacedInside_spread _ (Label.space_not_mem_of_word word_of_mem_className)
    fun i hparts => hparts.lt_length

/-- **The names of a new component.** The class name is made of the words of the name, each with its
first letter in upper case, and is not empty. The display name is the class name with single spaces
inside it. -/
theorem names_of_component {name : String} (hname : validateName name = .ok ()) :
    (∀ d d' dir kind writing created, create d dir name kind writing = (.ok created, d') →
      created.className = className name ∧ created.displayName = label (className name)) ∧
    (className name).toList = (words name.toList).flatMap capitalized ∧ className name ≠ "" ∧
    SpacedInside (className name).toList (label (className name)).toList :=
  ⟨fun _ _ _ _ _ _ h => ⟨className_of_create h, displayName_of_create h⟩,
    toList_className_eq_flatMap name, className_ne_empty (validateName_eq_ok_iff.1 hname),
    spacedInside_label_className name⟩

/-- A name that begins like a prefix, with several words and signs between them. -/
theorem names_of_component_prefixed :
    validateName "m_my-HTTP.door2" = .ok () ∧ className "m_my-HTTP.door2" = "MMyHTTPDoor2" ∧
      label "MMyHTTPDoor2" = "M My HTTP Door 2" ∧
      SpacedInside "MMyHTTPDoor2".toList "M My HTTP Door 2".toList := by
  have hname : validateName "m_my-HTTP.door2" = .ok () := by decide
  have hclass : className "m_my-HTTP.door2" = "MMyHTTPDoor2" := by decide
  have hlabel : label "MMyHTTPDoor2" = "M My HTTP Door 2" := by decide
  obtain ⟨-, -, -, hspaced⟩ := names_of_component hname
  rw [hclass, hlabel] at hspaced
  exact ⟨hname, hclass, hlabel, hspaced⟩

end Component

end BuildLayout
