import BuildLayout.Disk.Basic
import BuildLayout.Path.Relative
import BuildLayout.Proofs.Path.Segments
import Mathlib.Data.List.Infix

/-!
# Absolute paths in normal form

An absolute path in normal form is `Disk.pathOf names` for a list of plain names
(`normalize_of_absolute`, `normal_plain`), so the operations on paths become operations on lists:

* `components_pathOf`, `same_pathOf`: such paths are the same place only when they are equal.
* `parent?_pathOf_concat`, `child_pathOf`, `fileName?_pathOf_concat`: the last name is dropped,
  added and read.
* `ancestors_pathOf`: the ancestors are the prefixes of the names, longest first (`upwards`).
* `isWithin_pathOf`: a path is within every prefix of it.
-/

namespace BuildLayout

open Disk (pathOf)

namespace Path

/-! ## The names of a normal form -/

theorem Normal.foldl_step_names {P : String → Prop} (cs : List Component) (n : Normal)
    (hn : ∀ s ∈ n.names, P s) (hc : ∀ s, .name s ∈ cs → P s) :
    ∀ s ∈ (cs.foldl Normal.step n).names, P s := by
  induction cs generalizing n with
  | nil => exact hn
  | cons c cs ih =>
    refine ih (n.step c) (fun s hs => ?_) fun s hs => hc s (.tail _ hs)
    cases c with
    | root => exact hn s hs
    | here => exact hn s hs
    | up =>
      simp only [Normal.step] at hs
      split at hs
      · split at hs <;> exact hn s hs
      · exact hn s (List.mem_of_mem_dropLast hs)
    | name t =>
      rcases List.mem_append.1 hs with hs | hs
      · exact hn s hs
      · obtain rfl := List.mem_singleton.1 hs
        exact hc s (.head _)

/-- **A normal form is made of plain names**. -/
theorem normal_plain (p : Path) : ∀ s ∈ p.normal.names, IsPlain s := by
  refine Normal.foldl_step_names _ _ (by simp [Normal.empty]) fun s hs => ?_
  obtain ⟨hm, hn⟩ := of_name_mem_components hs
  exact ⟨hn, fun h => not_mem_normalizeSeparators p ((of_mem_segments hm).2 _ h)⟩

theorem Normal.foldl_step_absolute (cs : List Component) (n : Normal) :
    (cs.foldl Normal.step n).absolute = (n.absolute || decide (.root ∈ cs)) := by
  induction cs generalizing n with
  | nil => simp
  | cons c cs ih =>
    rw [List.foldl_cons, ih]
    cases c with
    | root => simp [Normal.step]
    | here => simp [Normal.step]
    | name t => simp [Normal.step]
    | up =>
      have : (n.step .up).absolute = n.absolute := by
        simp only [Normal.step]
        split
        · split <;> rfl
        · rfl
      simp [this]

theorem root_not_mem_body (ss : List String) : .root ∉ body ss := by
  intro h
  obtain ⟨s, -, hs⟩ := List.mem_filterMap.1 h
  unfold Component.ofSegment? at hs
  split at hs
  · cases hs
  · split at hs <;> cases hs

theorem root_mem_components (p : Path) : .root ∈ p.components ↔ p.isAbsolute := by
  unfold components
  split
  · next h => exact absurd h p.segments_ne_nil
  · next first rest _ =>
    split
    · next h => simp [h]
    · next h =>
      split <;> simp [h, root_not_mem_body]

/-- The normal form starts at the root when the path, back-slashes read as slashes, does. -/
theorem normal_absolute (p : Path) : p.normal.absolute = p.normalizeSeparators.isAbsolute := by
  unfold normal Normal.ofComponents
  rw [Normal.foldl_step_absolute]
  simp [Normal.empty, root_mem_components]

theorem normal_absolute_of_isAbsolute {p : Path} (h : p.isAbsolute) : p.normal.absolute := by
  rw [normal_absolute]
  unfold isAbsolute normalizeSeparators at *
  rw [String.toList_ofList]
  cases hp : p.text.toList with
  | nil => simp [hp] at h
  | cons c cs =>
    obtain rfl : c = '/' := by simpa [hp] using h
    simp

/-! ## The path of a list of names -/

theorem pathOf_eq (names : Location) :
    pathOf names = ofSegments ("" :: if names = [] then [""] else names) := by
  cases names with
  | nil => rfl
  | cons s names => rfl

theorem normalize_of_absolute {p : Path} (h : p.normal.absolute) :
    p.normalize = pathOf p.normal.names := by
  rw [pathOf_eq, normalize, Normal.toPath, Normal.segments, if_pos h]

theorem isAbsolute_normalize_of_relative {p : Path} (h : p.normal.absolute = false) :
    p.normalize.isAbsolute = false := by
  have hp := normal_plain p
  unfold normalize Normal.toPath
  have key : ∀ {ss : List String}, (∀ s ∈ ss, s ≠ "" ∧ '/' ∉ s.toList) →
      (ofSegments ss).isAbsolute = false := by
    intro ss hss
    cases ss with
    | nil => rfl
    | cons s ss =>
      rw [isAbsolute_ofSegments_cons _ _ (hss s (.head _)).2]
      simp [(hss s (.head _)).1]
  refine key fun s hs => ?_
  unfold Normal.segments at hs
  rw [h, if_neg (by simp)] at hs
  split at hs
  · obtain rfl := List.mem_singleton.1 hs
    decide
  · rcases List.mem_append.1 hs with hs | hs
    · obtain rfl := List.eq_of_mem_replicate hs
      decide
    · exact ⟨(hp s hs).1.1, (hp s hs).1.2.2.2⟩

/-- What going up keeps holds of everything above a path. -/
theorem forall_mem_ancestorsUpTo {P : Path → Prop}
    (hup : ∀ {p q : Path}, P p → p.parent? = some q → P q) (n : Nat) {p : Path} (h : P p) :
    ∀ q ∈ ancestorsUpTo n p, P q := by
  induction n generalizing p with
  | zero => simpa [ancestorsUpTo] using h
  | succ n ih =>
    intro q hq
    rw [ancestorsUpTo] at hq
    split at hq
    · rwa [List.mem_singleton.1 hq]
    · next r hr =>
      rcases List.mem_cons.1 hq with rfl | hq
      · exact h
      · exact ih (hup h hr) q hq

section
variable {names : Location}

theorem segments_pathOf (h : ∀ s ∈ names, '/' ∉ s.toList) :
    (pathOf names).segments = "" :: if names = [] then [""] else names := by
  rw [pathOf_eq, segments_ofSegments (by simp)]
  intro s hs
  rcases List.mem_cons.1 hs with rfl | hs
  · simp
  · split at hs
    · obtain rfl := List.mem_singleton.1 hs
      simp
    · exact h s hs

theorem isAbsolute_pathOf (names : Location) : (pathOf names).isAbsolute := by
  rw [pathOf_eq, isAbsolute_ofSegments_cons _ _ (by simp)]
  split <;> simp_all

theorem components_pathOf (h : ∀ s ∈ names, IsName s) :
    (pathOf names).components = .root :: names.map .name := by
  unfold components
  rw [segments_pathOf fun s hs => (h s hs).2.2.2]
  simp only [isAbsolute_pathOf, if_true]
  split
  · next hn => simp [hn, body, Component.ofSegment?]
  · rw [body_of_isName h]

theorem name_injective : Function.Injective Component.name :=
  fun _ _ h => Component.name.inj h

theorem components_pathOf_inj {names' : Location} (h : ∀ s ∈ names, IsName s)
    (h' : ∀ s ∈ names', IsName s) (hc : (pathOf names).components = (pathOf names').components) :
    names = names' := by
  rw [components_pathOf h, components_pathOf h', List.cons.injEq] at hc
  exact List.map_injective_iff.2 name_injective hc.2

theorem pathOf_inj {names' : Location} (h : ∀ s ∈ names, IsPlain s)
    (h' : ∀ s ∈ names', IsPlain s) : pathOf names = pathOf names' ↔ names = names' := by
  refine ⟨fun he => ?_, fun he => he ▸ rfl⟩
  exact components_pathOf_inj (fun s hs => (h s hs).1) (fun s hs => (h' s hs).1) (he ▸ rfl)

/-- Paths of names are the same place only when the names are. -/
theorem same_pathOf {names' : Location} (h : ∀ s ∈ names, IsName s)
    (h' : ∀ s ∈ names', IsName s) : (pathOf names).same (pathOf names') ↔ names = names' := by
  unfold same
  rw [beq_iff_eq]
  exact ⟨components_pathOf_inj h h', fun he => he ▸ rfl⟩

theorem isIdle_of_isName {s : String} (h : IsName s) : isIdle s = false := by
  simp [isIdle, h.1, h.2.1]

theorem parent?_pathOf_nil : (pathOf []).parent? = none := by decide

/-- Segments that count without the last one. -/
theorem dropLastComponent_concat {s : String} (h : ∀ t ∈ names ++ [s], isIdle t = false) :
    dropLastComponent (names ++ [s]).reverse = some names := by
  have hn : ∀ t ∈ names, isIdle t = false := fun t ht => h t (by simp [ht])
  unfold dropLastComponent
  rw [List.reverse_concat, List.dropWhile_cons_of_neg (by simp [h s (by simp)])]
  have : names.reverse.dropWhile isIdle = names.reverse := by
    cases hr : names.reverse with
    | nil => rfl
    | cons t ts =>
      have ht : t ∈ names := List.mem_reverse.1 (hr ▸ .head _)
      rw [List.dropWhile_cons_of_neg (by simp [hn t ht])]
  simp [this]

theorem parent?_pathOf_concat {s : String} (h : ∀ t ∈ names ++ [s], IsName t) :
    (pathOf (names ++ [s])).parent? = some (pathOf names) := by
  unfold parent?
  rw [segments_pathOf fun t ht => (h t ht).2.2.2]
  simp only [isAbsolute_pathOf, if_true, List.append_eq_nil_iff, List.cons_ne_nil, and_false,
    if_false, dropLastComponent_concat fun t ht => isIdle_of_isName (h t ht)]
  cases names with
  | nil => rfl
  | cons t names => rfl

theorem ext_toList {p q : Path} (h : p.text.toList = q.text.toList) : p = q := by
  cases p; cases q
  exact congrArg Path.mk (String.toList_inj.1 h)

theorem isAbsolute_of_isName {s : String} (h : IsName s) : isAbsolute ⟨s⟩ = false := by
  unfold isAbsolute
  cases hl : s.toList with
  | nil => simp
  | cons c cs =>
    have : c ≠ '/' := by
      rintro rfl
      exact h.2.2.2 (by simp [hl])
    simp [this]

theorem toList_ofSegments_append {ss ts : List String} (hs : ss ≠ []) (ht : ts ≠ []) :
    (ofSegments (ss ++ ts)).text.toList =
      (ofSegments ss).text.toList ++ '/' :: (ofSegments ts).text.toList := by
  induction ss with
  | nil => exact absurd rfl hs
  | cons s ss ih =>
    rw [List.cons_append, toList_ofSegments_cons, toList_ofSegments_cons,
      if_neg (by simp [ht])]
    split
    · next hnil => simp [hnil]
    · next hne => simp [ih hne]

/-- What follows a segment that is not empty is put behind a slash. -/
theorem join_ofSegments {ss ts : List String} {t : String} (ht : t ≠ "" ∧ '/' ∉ t.toList)
    (hts : ts ≠ []) (ha : (ofSegments ts).isAbsolute = false) :
    (ofSegments (ss ++ [t])).join (ofSegments ts) = ofSegments (ss ++ [t] ++ ts) := by
  have hend : ∃ front, (ofSegments (ss ++ [t])).text.toList = front ++ t.toList := by
    by_cases hne : ss = []
    · subst hne
      exact ⟨[], by simp [ofSegments, Text.joinWith]⟩
    · refine ⟨(ofSegments ss).text.toList ++ ['/'], ?_⟩
      rw [toList_ofSegments_append hne (by simp)]
      simp [ofSegments, Text.joinWith]
  obtain ⟨front, hf⟩ := hend
  have htne : t.toList ≠ [] := fun he => ht.1 (String.toList_eq_nil_iff.1 he)
  have hslash : (ofSegments (ss ++ [t])).text.toList.getLast? ≠ some '/' := by
    rw [hf, List.getLast?_append_of_ne_nil _ htne]
    exact fun he => ht.2 (List.mem_of_getLast? he)
  have hempty : (ofSegments (ss ++ [t])).text ≠ "" := fun he => by
    rw [he] at hf
    simp_all
  apply ext_toList
  rw [toList_ofSegments_append (by simp) hts]
  unfold join
  rw [ha, if_neg (by simp), if_neg (by simpa using ⟨hempty, hslash⟩)]
  simp

theorem ofSegments_singleton (s : String) : ofSegments [s] = ⟨s⟩ := by
  simp [ofSegments, Text.joinWith]

/-- What is not absolute leads on from a path of names. -/
theorem join_pathOf {ts : List String} (h : ∀ t ∈ names, IsName t) (hts : ts ≠ [])
    (ha : (ofSegments ts).isAbsolute = false) :
    (pathOf names).join (ofSegments ts) = pathOf (names ++ ts) := by
  cases names using List.reverseRecOn with
  | nil =>
    apply ext_toList
    rw [List.nil_append, pathOf_eq, pathOf_eq, if_pos rfl, if_neg hts]
    unfold join
    rw [ha, if_neg (by simp), if_pos (by simp [ofSegments, Text.joinWith]),
      toList_ofSegments_cons, if_neg hts]
    simp [ofSegments, Text.joinWith]
  | append_singleton names t =>
    have ht := h t (by simp)
    have : (ofSegments ("" :: names ++ [t])).join (ofSegments ts) =
        ofSegments ("" :: names ++ [t] ++ ts) := join_ofSegments ⟨ht.1, ht.2.2.2⟩ hts ha
    simpa [pathOf_eq] using this

theorem child_pathOf {s : String} (h : ∀ t ∈ names, IsName t) (hs : isAbsolute ⟨s⟩ = false) :
    (pathOf names).child s = pathOf (names ++ [s]) := by
  rw [← ofSegments_singleton] at hs
  rw [child, ← ofSegments_singleton, join_pathOf h (by simp) hs]

theorem fileName?_pathOf_concat {s : String} (h : ∀ t ∈ names ++ [s], IsName t) :
    (pathOf (names ++ [s])).fileName? = some s := by
  unfold fileName?
  rw [components_pathOf h]
  simp [List.getLast?_cons]

/-! ## Normal forms of paths of names -/

theorem Normal.foldl_step_name (names : Location) (n : Normal) :
    (names.map .name).foldl Normal.step n = { n with names := n.names ++ names } := by
  induction names generalizing n with
  | nil => simp
  | cons s names ih => rw [List.map_cons, List.foldl_cons, ih]; simp [Normal.step]

theorem not_mem_ofSegments {c : Char} {ss : List String} (hc : c ≠ '/')
    (h : ∀ s ∈ ss, c ∉ s.toList) : c ∉ (ofSegments ss).text.toList := by
  induction ss with
  | nil => simp [ofSegments, Text.joinWith]
  | cons s ss ih =>
    rw [toList_ofSegments_cons]
    have h1 := h s (.head _)
    have h2 := ih fun t ht => h t (.tail _ ht)
    split <;> simp [h1, h2, hc]

theorem not_mem_pathOf {c : Char} (hc : c ≠ '/') (h : ∀ s ∈ names, c ∉ s.toList) :
    c ∉ (pathOf names).text.toList := by
  rw [pathOf_eq]
  refine not_mem_ofSegments hc fun s hs => ?_
  rcases List.mem_cons.1 hs with rfl | hs
  · simp
  · split at hs
    · obtain rfl := List.mem_singleton.1 hs
      simp
    · exact h s hs

theorem normal_pathOf (h : ∀ s ∈ names, IsPlain s) : (pathOf names).normal = ⟨true, 0, names⟩ := by
  unfold normal Normal.ofComponents
  rw [normalizeSeparators_of_not_mem (not_mem_pathOf (by decide) fun s hs => (h s hs).2),
    components_pathOf fun s hs => (h s hs).1, List.foldl_cons, Normal.foldl_step_name]
  simp [Normal.step, Normal.empty]

end

end Path

/-! ## Going up -/

/-- A list of names and its prefixes, longest first: the directories from a place up to the
root. -/
def Disk.upwards (names : Location) : List Location :=
  names.inits.reverse

namespace Disk

theorem upwards_nil : upwards [] = [[]] := rfl

theorem upwards_concat (names : Location) (s : String) :
    upwards (names ++ [s]) = (names ++ [s]) :: upwards names := by
  simp [upwards, List.inits_append]

theorem mem_upwards {dir names : Location} : dir ∈ upwards names ↔ dir <+: names := by
  simp [upwards]

end Disk

namespace Path

theorem ancestorsUpTo_pathOf {names : Location} (h : ∀ s ∈ names, IsName s) {n : Nat}
    (hn : names.length ≤ n) :
    ancestorsUpTo n (pathOf names) = (Disk.upwards names).map pathOf := by
  induction names using List.reverseRecOn generalizing n with
  | nil => cases n <;> simp [ancestorsUpTo, parent?_pathOf_nil, Disk.upwards_nil]
  | append_singleton names s ih =>
    obtain ⟨n, rfl⟩ : ∃ m, n = m + 1 := ⟨n - 1, by simp at hn; omega⟩
    rw [ancestorsUpTo, parent?_pathOf_concat h, Disk.upwards_concat, List.map_cons,
      ← ih (fun t ht => h t (by simp [ht])) (by simpa using hn)]

theorem ancestors_pathOf {names : Location} (h : ∀ s ∈ names, IsName s) :
    (pathOf names).ancestors = (Disk.upwards names).map pathOf := by
  unfold ancestors
  refine ancestorsUpTo_pathOf h ?_
  simp [components_pathOf h]

/-! ## Containment -/

theorem difference_append (begun rest : List Component) :
    difference false (begun ++ rest) begun = some rest := by
  induction begun with
  | nil => cases rest <;> rfl
  | cons c begun ih => rw [List.cons_append, difference]; simp [ih]

/-- Segments put one behind the other make the relative path of these segments. -/
theorem ofComponents_eq {cs : List Component} (h : ∀ c ∈ cs, c.text ≠ "" ∧ '/' ∉ c.text.toList) :
    ofComponents cs = ofSegments (cs.map Component.text) := by
  induction cs using List.reverseRecOn with
  | nil => rfl
  | append_singleton cs c ih =>
    unfold ofComponents at *
    rw [List.map_append, List.foldl_append, ih fun t ht => h t (by simp [ht])]
    have hc : (ofSegments [c.text]).isAbsolute = false := by
      rw [isAbsolute_ofSegments_cons _ _ (h c (by simp)).2]
      simp
    show (ofSegments _).join ⟨c.text⟩ = _
    rw [← ofSegments_singleton]
    cases cs using List.reverseRecOn with
    | nil =>
      unfold join
      rw [hc, if_neg (by simp), if_pos (by simp [ofSegments, Text.joinWith])]
      simp [ofSegments, Text.joinWith]
    | append_singleton cs b =>
      rw [List.map_append]
      exact join_ofSegments (h b (by simp)) (by simp) hc

/-- Names put one behind the other make the relative path of these names. -/
theorem ofComponents_name {names : List String} (h : ∀ s ∈ names, IsName s) :
    ofComponents (names.map .name) = ofSegments names := by
  have hmap : (names.map Component.name).map Component.text = names := by
    simp [Function.comp_def, Component.text]
  rw [ofComponents_eq, hmap]
  intro c hc
  obtain ⟨s, hs, rfl⟩ := List.mem_map.1 hc
  exact ⟨(h s hs).1, (h s hs).2.2.2⟩

/-- The relative path of names does not leave its base. -/
theorem isParentRelative_ofSegments {names : List String} (h : ∀ s ∈ names, IsName s) :
    (ofSegments names).isParentRelative = false := by
  cases names with
  | nil => rfl
  | cons s names =>
    have hs := h s (.head _)
    have ha : (ofSegments (s :: names)).isAbsolute = false := by
      rw [isAbsolute_ofSegments_cons s names hs.2.2.2]
      simp [hs.1]
    unfold isParentRelative components
    rw [segments_ofSegments (by simp) fun t ht => (h t ht).2.2.2]
    simp [ha, hs.2.1, body_of_isName h]

/-- A path is within every prefix of it. -/
theorem isWithin_pathOf {dir names : Location} (h : ∀ s ∈ names, IsPlain s) (hp : dir <+: names) :
    isWithin (pathOf dir) (pathOf names) := by
  obtain ⟨rest, rfl⟩ := hp
  have hd : ∀ s ∈ dir, IsPlain s := fun s hs => h s (by simp [hs])
  have hr : ∀ s ∈ rest, IsName s := fun s hs => (h s (by simp [hs])).1
  have : difference false (Normal.components ⟨true, 0, dir ++ rest⟩)
      (Normal.components ⟨true, 0, dir⟩) = some (rest.map .name) := by
    simp only [Normal.components, if_true, List.map_append]
    rw [← List.cons_append, difference_append]
  unfold isWithin relativeTo?
  rw [normal_pathOf hd, normal_pathOf h]
  simp [this, ofComponents_name hr, isParentRelative_ofSegments hr]

end Path

end BuildLayout
