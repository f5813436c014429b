import BuildLayout.Path.Normal

/-!
# Segments and components of a path

What the text of a path and its list of segments have to do with each other:

* `segments_ofSegments`: segments without a slash are read back from the text they make.
* `IsName`, `IsPlain`: a segment that is a component of its own, and one that also survives the
  reading of back-slashes as slashes. Normal forms are made of plain names (`normal_plain`).
* `isAbsolute_parent?`: going up never leaves the absolute or the relative paths.
-/

namespace BuildLayout

namespace Text

/-! ## Splitting -/

theorem splitOn_of_not_mem {sep : Char} {cs : List Char} (h : sep ∉ cs) :
    splitOn sep cs = [cs] := by
  induction cs with
  | nil => rfl
  | cons c cs ih =>
    simp only [List.mem_cons, not_or] at h
    rw [splitOn, if_neg (Ne.symm h.1), ih h.2]

theorem splitOn_append_cons {sep : Char} {piece : List Char} (h : sep ∉ piece)
    (cs : List Char) : splitOn sep (piece ++ sep :: cs) = piece :: splitOn sep cs := by
  induction piece with
  | nil => simp [splitOn]
  | cons c piece ih =>
    simp only [List.mem_cons, not_or] at h
    rw [List.cons_append, splitOn, if_neg (Ne.symm h.1), ih h.2]

/-- A text with separators ends in a piece after the last of them. -/
theorem exists_last_piece {sep : Char} {cs : List Char} (h : sep ∈ cs) :
    ∃ front piece, cs = front ++ sep :: piece ∧ sep ∉ piece := by
  obtain ⟨piece, front, hcs, hp⟩ := List.eq_append_cons_of_mem (List.mem_reverse.2 h)
  exact ⟨front.reverse, piece.reverse, by simpa using congrArg List.reverse hcs, by simpa using hp⟩

/-- Pieces without the separator are read back from the text they make. -/
theorem splitOn_joinWith {sep : Char} {pieces : List (List Char)} (hne : pieces ≠ [])
    (h : ∀ piece ∈ pieces, sep ∉ piece) : splitOn sep (joinWith sep pieces) = pieces := by
  induction pieces with
  | nil => exact absurd rfl hne
  | cons piece pieces ih =>
    have hp := h piece (.head _)
    cases pieces with
    | nil => exact splitOn_of_not_mem hp
    | cons next pieces =>
      rw [joinWith, splitOn_append_cons hp, ih (by simp) fun p hp => h p (.tail _ hp)]

/-- A piece holds no separator, and nothing that the text does not hold. -/
theorem of_mem_splitOn {sep : Char} {cs piece : List Char} (h : piece ∈ splitOn sep cs) :
    sep ∉ piece ∧ ∀ c ∈ piece, c ∈ cs := by
  induction cs generalizing piece with
  | nil => simp_all [splitOn]
  | cons c cs ih =>
    rw [splitOn] at h
    split at h
    · rcases List.mem_cons.1 h with rfl | h
      · simp
      · exact ⟨(ih h).1, fun x hx => .tail _ ((ih h).2 x hx)⟩
    · next hc =>
      cases hs : splitOn sep cs with
      | nil => exact absurd hs (splitOn_ne_nil sep cs)
      | cons first pieces =>
        rw [hs] at h ih
        rcases List.mem_cons.1 h with rfl | h
        · obtain ⟨h1, h2⟩ := ih (.head _)
          refine ⟨by simp [h1, Ne.symm hc], fun x hx => ?_⟩
          rcases List.mem_cons.1 hx with rfl | hx
          · exact .head _
          · exact .tail _ (h2 x hx)
        · obtain ⟨h1, h2⟩ := ih (.tail _ h)
          exact ⟨h1, fun x hx => .tail _ (h2 x hx)⟩

end Text

namespace Path

/-! ## Segments -/

theorem segments_ne_nil (p : Path) : p.segments ≠ [] := by
  unfold segments
  simpa using Text.splitOn_ne_nil '/' p.text.toList

/-- Segments without a slash are read back from the text they make. -/
theorem segments_ofSegments {ss : List String} (hne : ss ≠ []) (h : ∀ s ∈ ss, '/' ∉ s.toList) :
    (ofSegments ss).segments = ss := by
  unfold segments ofSegments
  rw [String.toList_ofList, Text.splitOn_joinWith (by simpa using hne) (by simpa using h)]
  simp

theorem ofSegments_segments (p : Path) : ofSegments p.segments = p := by
  unfold segments ofSegments
  simp [Text.joinWith_splitOn, Function.comp_def]

/-- A segment holds no slash, and nothing that the text does not hold. -/
theorem of_mem_segments {p : Path} {s : String} (h : s ∈ p.segments) :
    '/' ∉ s.toList ∧ ∀ c ∈ s.toList, c ∈ p.text.toList := by
  unfold segments at h
  obtain ⟨piece, hp, rfl⟩ := List.mem_map.1 h
  rw [String.toList_ofList]
  exact Text.of_mem_splitOn hp

theorem toList_ofSegments_cons (s : String) (ss : List String) :
    (ofSegments (s :: ss)).text.toList =
      s.toList ++ if ss = [] then [] else '/' :: (ofSegments ss).text.toList := by
  cases ss with
  | nil => simp [ofSegments, Text.joinWith]
  | cons t ss => simp [ofSegments, Text.joinWith]

/-- The path is absolute exactly when its first segment is empty and not the only one. -/
theorem isAbsolute_ofSegments_cons (s : String) (ss : List String) (h : '/' ∉ s.toList) :
    (ofSegments (s :: ss)).isAbsolute = (s = "" && ss ≠ []) := by
  unfold isAbsolute
  rw [toList_ofSegments_cons]
  cases hs : s.toList with
  | nil =>
    obtain rfl : s = "" := String.toList_eq_nil_iff.1 hs
    cases ss <;> simp
  | cons c cs =>
    have hne : s ≠ "" := by rintro rfl; simp at hs
    have hc : c ≠ '/' := by rintro rfl; simp [hs] at h
    simp [hne, hc]

theorem segments_of_isAbsolute {p : Path} (h : p.isAbsolute) :
    ∃ rest, p.segments = "" :: rest := by
  unfold isAbsolute at h
  unfold segments
  cases hp : p.text.toList with
  | nil => simp [hp] at h
  | cons c cs =>
    obtain rfl : c = '/' := by simpa [hp] using h
    exact ⟨(Text.splitOn '/' cs).map String.ofList, by simp [Text.splitOn]⟩

theorem dropLastComponent_eq {ss init : List String}
    (h : dropLastComponent ss.reverse = some init) : init <+: ss := by
  unfold dropLastComponent at h
  split at h
  · cases h
  · next last front hf =>
    cases h
    have h1 : front.dropWhile isIdle <:+ ss.reverse :=
      (List.dropWhile_suffix _).trans ((List.suffix_cons _ _).trans (hf ▸ List.dropWhile_suffix _))
    simpa using List.reverse_prefix.2 h1

/-- Going up from a relative path never leads to an absolute one. -/
theorem isAbsolute_parent? {p q : Path} (h : p.isAbsolute = false) (hq : p.parent? = some q) :
    q.isAbsolute = false := by
  have key : ∀ {first : String} {rest : List String}, first ≠ "" → '/' ∉ first.toList →
      (ofSegments (first :: rest)).isAbsolute = false := fun hne hs => by
    rw [isAbsolute_ofSegments_cons _ _ hs]
    simp [hne]
  unfold parent? at hq
  split at hq
  · cases hq
  next first rest hs =>
  have hslash : '/' ∉ first.toList := (of_mem_segments (p := p) (by simp [hs])).1
  rw [h, if_neg (by simp)] at hq
  split at hq
  · next hdot =>
    subst hdot
    split at hq <;> cases hq
    · rfl
    · exact key (by decide) hslash
  · obtain ⟨init, hi, rfl⟩ := Option.map_eq_some_iff.1 hq
    have hpre := dropLastComponent_eq hi
    cases init with
    | nil => rfl
    | cons s init =>
      obtain ⟨rfl, -⟩ := List.cons_prefix_cons.1 hpre
      refine key (fun hne => ?_) hslash
      subst hne
      rw [← ofSegments_segments p, hs, isAbsolute_ofSegments_cons _ _ (by simp)] at h
      obtain rfl : rest = [] := by simpa using h
      cases hi

/-! ## Names -/

/-- The segment is a component of its own: a name. -/
def IsName (s : String) : Prop :=
  s ≠ "" ∧ s ≠ "." ∧ s ≠ ".." ∧ '/' ∉ s.toList

/-- The name has no back-slash, which would be read as a slash. -/
def IsPlain (s : String) : Prop :=
  IsName s ∧ '\\' ∉ s.toList

theorem ofSegment?_eq_name {s t : String} (h : Component.ofSegment? s = some (.name t)) :
    t = s ∧ s ≠ "" ∧ s ≠ "." ∧ s ≠ ".." := by
  unfold Component.ofSegment? at h
  split at h
  · cases h
  · next h1 =>
    split at h
    · cases h
    · next h2 =>
      cases h
      simp only [not_or] at h1
      exact ⟨rfl, h1.1, h1.2, h2⟩

theorem ofSegment?_of_isName {s : String} (h : IsName s) :
    Component.ofSegment? s = some (.name s) := by
  obtain ⟨h1, h2, h3, -⟩ := h
  simp [Component.ofSegment?, h1, h2, h3]

theorem body_of_isName {ss : List String} (h : ∀ s ∈ ss, IsName s) : body ss = ss.map .name := by
  unfold body
  induction ss with
  | nil => rfl
  | cons s ss ih =>
    rw [List.filterMap_cons_some (ofSegment?_of_isName (h s (.head _))),
      ih fun t ht => h t (.tail _ ht), List.map_cons]

/-- A name among the components is a segment of the text, and a name. -/
theorem of_name_mem_components {p : Path} {s : String} (h : .name s ∈ p.components) :
    s ∈ p.segments ∧ IsName s := by
  have key : ∀ {ss : List String}, (∀ t ∈ ss, t ∈ p.segments) → .name s ∈ body ss →
      s ∈ p.segments ∧ IsName s := by
    intro ss hss hb
    obtain ⟨t, ht, ho⟩ := List.mem_filterMap.1 hb
    obtain ⟨rfl, h1, h2, h3⟩ := ofSegment?_eq_name ho
    exact ⟨hss _ ht, h1, h2, h3, (of_mem_segments (hss _ ht)).1⟩
  unfold components at h
  split at h
  · cases h
  · next first rest hs =>
    split at h
    · exact key (fun t ht => hs ▸ .tail _ ht) (by simpa using h)
    · split at h
      · exact key (fun t ht => hs ▸ .tail _ ht) (by simpa using h)
      · exact key (fun t ht => hs ▸ ht) h

theorem not_mem_normalizeSeparators (p : Path) : '\\' ∉ p.normalizeSeparators.text.toList := by
  unfold normalizeSeparators
  rw [String.toList_ofList]
  intro h
  obtain ⟨c, -, hc⟩ := List.mem_map.1 h
  split at hc
  · exact absurd hc (by decide)
  · contradiction

/-- A path without back-slashes is read as it stands. -/
theorem normalizeSeparators_of_not_mem {p : Path} (h : '\\' ∉ p.text.toList) :
    p.normalizeSeparators = p := by
  unfold normalizeSeparators
  have : p.text.toList.map (fun c => if c = '\\' then '/' else c) = p.text.toList := by
    refine (List.map_congr_left fun c hc => ?_).trans (List.map_id _)
    have : c ≠ '\\' := fun he => h (he ▸ hc)
    simp [this]
  rw [this, String.ofList_toList]

end Path

end BuildLayout
