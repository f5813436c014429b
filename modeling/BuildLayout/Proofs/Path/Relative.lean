import BuildLayout.Proofs.Path.Absolute

/-!
# Relative paths between absolute places

What leads from one absolute path to another, in terms of their names:

* `route`: the steps from place to place, up to where they part and then down by names.
  `relativeTo?_of_absolute`: these steps are what `relativeTo?` answers.
* `filter_relativeTo?`, `isWithin_iff`: the answer stays inside the directory exactly when the
  names of the target go on from those of the directory.
* `parent?_ofSegments_concat`, `fileName?_ofSegments_concat`, `child_join_pathOf`: a relative path
  of names is taken apart and put behind another directory.
* `IsSettled`: absolute and in normal form, as is everything that is resolved against an absolute
  base (`isSettled_resolveAgainst`).
-/

namespace BuildLayout

open Disk (pathOf)

namespace Path

/-! ## Steps -/

/-- A component that stands for itself anywhere in a relative path: `..` or a name. -/
def IsStep : Component → Prop
  | .up => True
  | .name s => IsName s
  | .root | .here => False

theorem IsStep.text {c : Component} (h : IsStep c) :
    c.text ≠ "" ∧ c.text ≠ "." ∧ '/' ∉ c.text.toList := by
  cases c with
  | up => decide
  | name s => exact ⟨h.1, h.2.1, h.2.2.2⟩
  | root => exact h.elim
  | here => exact h.elim

theorem IsStep.ofSegment?_text {c : Component} (h : IsStep c) :
    Component.ofSegment? c.text = some c := by
  cases c with
  | up => rfl
  | name s => exact ofSegment?_of_isName h
  | root => exact h.elim
  | here => exact h.elim

theorem body_text {cs : List Component} (h : ∀ c ∈ cs, IsStep c) :
    body (cs.map Component.text) = cs := by
  unfold body
  induction cs with
  | nil => rfl
  | cons c cs ih =>
    rw [List.map_cons, List.filterMap_cons_some (h c (.head _)).ofSegment?_text,
      ih fun b hb => h b (.tail _ hb)]

section
variable {cs : List Component} (h : ∀ c ∈ cs, IsStep c)
include h

theorem ofComponents_eq_of_isStep : ofComponents cs = ofSegments (cs.map Component.text) :=
  ofComponents_eq fun c hc => ⟨(h c hc).text.1, (h c hc).text.2.2⟩

theorem isAbsolute_ofComponents : (ofComponents cs).isAbsolute = false := by
  rw [ofComponents_eq_of_isStep h]
  cases cs with
  | nil => rfl
  | cons c cs =>
    have hc := (h c (.head _)).text
    rw [List.map_cons, isAbsolute_ofSegments_cons _ _ hc.2.2]
    simp [hc.1]

/-- Steps are read back from the path that goes through them. -/
theorem components_ofComponents : (ofComponents cs).components = cs := by
  have ha := isAbsolute_ofComponents h
  have hbody := body_text h
  have htext := fun c hc => (h c hc).text
  rw [ofComponents_eq_of_isStep h] at ha ⊢
  cases cs with
  | nil => decide
  | cons c cs =>
    have hslash : ∀ s ∈ (c :: cs).map Component.text, '/' ∉ s.toList := by
      intro s hs
      obtain ⟨b, hb, rfl⟩ := List.mem_map.1 hs
      exact (htext b hb).2.2
    unfold components
    rw [segments_ofSegments (by simp) hslash]
    simp only [List.map_cons] at ha hbody ⊢
    rw [ha, if_neg (by simp), if_neg (htext c (.head _)).2.1, hbody]

theorem isParentRelative_ofComponents :
    (ofComponents cs).isParentRelative = (cs.head? == some .up) := by
  rw [isParentRelative, isAbsolute_ofComponents h, components_ofComponents h, Bool.false_or]

end

theorem ofComponents_concat (cs : List Component) (c : Component) :
    ofComponents (cs ++ [c]) = (ofComponents cs).child c.text := by
  unfold ofComponents
  rw [List.foldl_append]
  rfl

/-- Going up from a path of steps takes back the last one. -/
theorem parent?_ofComponents_concat {cs : List Component} {c : Component}
    (h : ∀ b ∈ cs ++ [c], IsStep b) :
    (ofComponents (cs ++ [c])).parent? = some (ofComponents cs) := by
  have htext : ∀ s ∈ (cs ++ [c]).map Component.text, s ≠ "" ∧ s ≠ "." ∧ '/' ∉ s.toList := by
    intro s hs
    obtain ⟨b, hb, rfl⟩ := List.mem_map.1 hs
    exact (h b hb).text
  have hdrop : dropLastComponent ((cs ++ [c]).map Component.text).reverse =
      some (cs.map Component.text) := by
    rw [List.map_append, List.map_singleton] at htext ⊢
    exact dropLastComponent_concat fun s hs => by simp [isIdle, (htext s hs).1, (htext s hs).2.1]
  have ha := isAbsolute_ofComponents h
  have hsegments := segments_ofSegments (by simp) fun s hs => (htext s hs).2.2
  rw [ofComponents_eq_of_isStep h] at ha ⊢
  rw [ofComponents_eq_of_isStep fun b hb => h b (by simp [hb])]
  unfold parent?
  rw [hsegments, ha]
  cases hl : (cs ++ [c]).map Component.text with
  | nil => simp at hl
  | cons first rest =>
    rw [hl] at hdrop
    have hfirst : first ≠ "." := (htext first (hl ▸ .head _)).2.1
    simp only [Bool.false_eq_true, if_false, hfirst, hdrop, Option.map_some]

/-! ## The way from one place to another -/

/-- The steps from one place to another: up to where they part, then down. -/
def route : (start target : Location) → List Component
  | [], target => target.map .name
  | _ :: start, [] => List.replicate (start.length + 1) .up
  | s :: start, t :: target =>
    if s = t then route start target
    else List.replicate (start.length + 1) .up ++ (t :: target).map .name

theorem route_append (start rest : Location) : route start (start ++ rest) = rest.map .name := by
  induction start with
  | nil => rfl
  | cons s start ih => rw [List.cons_append, route, if_pos rfl, ih]

theorem head?_route {start target : Location} (h : ¬ start <+: target) :
    (route start target).head? = some .up := by
  induction start generalizing target with
  | nil => exact absurd (List.nil_prefix) h
  | cons s start ih =>
    cases target with
    | nil => rfl
    | cons t target =>
      rw [route]
      split
      · next he =>
        subst he
        exact ih fun hp => h (List.cons_prefix_cons.2 ⟨rfl, hp⟩)
      · rfl

theorem isStep_route {start target : Location} (h : ∀ s ∈ target, IsName s) :
    ∀ c ∈ route start target, IsStep c := by
  have hnames : ∀ {names : Location}, (∀ s ∈ names, IsName s) → ∀ c ∈ names.map .name, IsStep c := by
    intro names hn c hc
    obtain ⟨s, hs, rfl⟩ := List.mem_map.1 hc
    exact hn s hs
  have hups : ∀ n, ∀ c ∈ List.replicate n Component.up, IsStep c := by
    intro n c hc
    rw [List.eq_of_mem_replicate hc]
    trivial
  induction start generalizing target with
  | nil => exact hnames h
  | cons s start ih =>
    cases target with
    | nil => exact hups _
    | cons t target =>
      rw [route]
      split
      · exact ih fun s hs => h s (.tail _ hs)
      · intro c hc
        rcases List.mem_append.1 hc with hc | hc
        · exact hups _ c hc
        · exact hnames h c hc

theorem difference_climb (start : List Component) :
    difference true [] start = some (List.replicate start.length .up) := by
  induction start with
  | nil => rfl
  | cons c start ih => rw [difference, ih]; rfl

theorem difference_name (start target : Location) :
    difference false (target.map .name) (start.map .name) = some (route start target) := by
  induction start generalizing target with
  | nil => cases target <;> rfl
  | cons s start ih =>
    cases target with
    | nil =>
      rw [List.map_cons, List.map_nil, difference, difference_climb, List.length_map]
      rfl
    | cons t target =>
      rw [List.map_cons, List.map_cons, difference, route]
      by_cases he : s = t
      · subst he
        simp [ih]
      · have hne : Component.name t ≠ .name s := fun hc => he (Component.name.inj hc).symm
        simp [he, hne, Function.comp_def, List.map_const', List.replicate_succ]

/-- **What leads from one absolute path to another** is the way between their places. -/
theorem relativeTo?_of_absolute {start target : Path} (hs : start.normal.absolute)
    (ht : target.normal.absolute) :
    relativeTo? start target =
      some (ofComponents (route start.normal.names target.normal.names)) := by
  unfold relativeTo?
  simp only [Normal.components, hs, ht, if_true, ne_eq, not_true_eq_false, if_false]
  rw [difference]
  simp [difference_name]

theorem relativeTo?_of_relative {start target : Path} (hs : start.normal.absolute)
    (ht : target.normal.absolute = false) : relativeTo? start target = none := by
  unfold relativeTo?
  simp [hs, ht]

theorem isName_normal (p : Path) : ∀ s ∈ p.normal.names, IsName s :=
  fun s hs => (normal_plain p s hs).1

/-- **A path stays inside a directory** exactly when its names go on from those of the directory;
what leads there are the names that follow. -/
theorem filter_relativeTo? {dir p : Path} (hd : dir.normal.absolute) (hp : p.normal.absolute) :
    ((relativeTo? dir p).filter fun r => !r.isParentRelative) =
      if dir.normal.names <+: p.normal.names then
        some (ofSegments (p.normal.names.drop dir.normal.names.length))
      else none := by
  rw [relativeTo?_of_absolute hd hp]
  have hstep : ∀ c ∈ route dir.normal.names p.normal.names, IsStep c :=
    isStep_route (isName_normal p)
  split
  · next hpre =>
    obtain ⟨rest, he⟩ := hpre
    have hrest : ∀ s ∈ rest, IsName s := fun s hs => isName_normal p s (by simp [← he, hs])
    rw [← he, route_append, List.drop_left, ofComponents_name hrest,
      Option.filter_some_pos (by simp [isParentRelative_ofSegments hrest])]
  · next hpre =>
    refine Option.filter_some_neg ?_
    rw [isParentRelative_ofComponents hstep, head?_route hpre]
    decide

theorem isWithin_iff {dir p : Path} (hd : dir.normal.absolute) (hp : p.normal.absolute) :
    isWithin dir p ↔ dir.normal.names <+: p.normal.names := by
  have hw : isWithin dir p = ((relativeTo? dir p).filter fun r => !r.isParentRelative).isSome := by
    unfold isWithin
    cases relativeTo? dir p with
    | none => rfl
    | some r => cases hr : r.isParentRelative <;> simp [Option.filter, hr]
  rw [hw, filter_relativeTo? hd hp]
  split
  · next hpre => simp [hpre]
  · next hpre => simp [hpre]

/-! ## Relative paths of names -/

section
variable {names : Location} {s : String}

theorem text_ofSegments_eq_empty_iff (h : ∀ t ∈ names, IsName t) :
    (ofSegments names).text = "" ↔ names = [] := by
  constructor
  · intro he
    cases names with
    | nil => rfl
    | cons t names =>
      have hl := toList_ofSegments_cons t names
      rw [he, String.toList_empty] at hl
      have ht := String.toList_eq_nil_iff.1 (List.append_eq_nil_iff.1 hl.symm).1
      exact absurd ht (h t (.head _)).1
  · rintro rfl
    simp [ofSegments, Text.joinWith]

theorem components_ofSegments (h : ∀ t ∈ names, IsName t) :
    (ofSegments names).components = names.map .name := by
  rw [← ofComponents_name h]
  refine components_ofComponents fun c hc => ?_
  obtain ⟨t, ht, rfl⟩ := List.mem_map.1 hc
  exact h t ht

theorem isAbsolute_ofSegments (h : ∀ t ∈ names, IsName t) :
    (ofSegments names).isAbsolute = false := by
  rw [← ofComponents_name h]
  refine isAbsolute_ofComponents fun c hc => ?_
  obtain ⟨t, ht, rfl⟩ := List.mem_map.1 hc
  exact h t ht

theorem textName?_ofSegments_nil : (ofSegments []).textName? = none := by decide

theorem fileName?_ofSegments_concat (h : ∀ t ∈ names ++ [s], IsName t) :
    (ofSegments (names ++ [s])).fileName? = some s := by
  unfold fileName?
  rw [components_ofSegments h]
  simp

/-- The last name, if it is text. -/
theorem textName?_ofSegments_concat (h : ∀ t ∈ names ++ [s], IsName t) :
    (ofSegments (names ++ [s])).textName? = if Text.isText s then some s else none := by
  unfold textName?
  rw [fileName?_ofSegments_concat h, Option.filter_some]

theorem parent?_ofSegments_concat (h : ∀ t ∈ names ++ [s], IsName t) :
    (ofSegments (names ++ [s])).parent? = some (ofSegments names) := by
  have hstep : ∀ c ∈ names.map Component.name ++ [.name s], IsStep c := by
    intro c hc
    rw [← List.map_singleton, ← List.map_append] at hc
    obtain ⟨t, ht, rfl⟩ := List.mem_map.1 hc
    exact h t ht
  rw [← ofComponents_name h, ← ofComponents_name fun t ht => h t (by simp [ht]), List.map_append,
    List.map_singleton]
  exact parent?_ofComponents_concat hstep

/-- A slash at the end does not count for the name that follows. -/
theorem child_join_empty {p : Path} (hp : p.text ≠ "") (hs : isAbsolute ⟨s⟩ = false) :
    (p.join ⟨""⟩).child s = p.child s := by
  have hempty : isAbsolute ⟨""⟩ = false := rfl
  by_cases hl : p.text.toList.getLast? = some '/'
  · have hjoin : p.join ⟨""⟩ = p := by
      unfold join
      simp [hempty, hl]
    rw [hjoin]
  · have hjoin : p.join ⟨""⟩ = ⟨p.text ++ "/"⟩ := by
      unfold join
      simp [hempty, hl, hp]
    unfold child
    rw [hjoin]
    unfold join
    simp [hs, hl, hp]

/-- A name is put behind the directory that a relative path of names leads to. -/
theorem child_join_pathOf {dir : Location} (hd : ∀ t ∈ dir, IsName t)
    (h : ∀ t ∈ names, IsName t) (hs : isAbsolute ⟨s⟩ = false) :
    ((pathOf dir).join (ofSegments names)).child s = pathOf (dir ++ names ++ [s]) := by
  by_cases hne : names = []
  · subst hne
    have htext : (pathOf dir).text ≠ "" := by
      intro he
      have ha := isAbsolute_pathOf dir
      simp [isAbsolute, he] at ha
    rw [List.append_nil, ← child_pathOf hd hs, ← child_join_empty htext hs]
    rfl
  · rw [join_pathOf hd hne (isAbsolute_ofSegments h), child_pathOf _ hs]
    intro t ht
    rcases List.mem_append.1 ht with ht | ht
    · exact hd t ht
    · exact h t ht

end

/-! ## Absolute paths in normal form -/

/-- Absolute and in normal form: the path of its own names. -/
def IsSettled (p : Path) : Prop :=
  pathOf p.normal.names = p

theorem IsSettled.pathOf_names {p : Path} (h : p.IsSettled) : pathOf p.normal.names = p :=
  h

theorem IsSettled.isAbsolute {p : Path} (h : p.IsSettled) : p.isAbsolute :=
  h ▸ isAbsolute_pathOf p.normal.names

theorem IsSettled.absolute {p : Path} (h : p.IsSettled) : p.normal.absolute :=
  normal_absolute_of_isAbsolute h.isAbsolute

theorem normal_normalize {p : Path} (h : p.normal.absolute) :
    p.normalize.normal = ⟨true, 0, p.normal.names⟩ := by
  rw [normalize_of_absolute h, normal_pathOf (normal_plain p)]

theorem isSettled_normalize {p : Path} (h : p.normal.absolute) : p.normalize.IsSettled := by
  unfold IsSettled
  rw [normal_normalize h, normalize_of_absolute h]

/-- A name is put behind a directory below one in normal form. -/
theorem IsSettled.child_join {p : Path} (h : p.IsSettled) {dir : Location} {s : String}
    (hdir : ∀ t ∈ dir, IsName t) (hs : Path.isAbsolute ⟨s⟩ = false) :
    (p.join (ofSegments dir)).child s = pathOf (p.normal.names ++ dir ++ [s]) := by
  rw [← child_join_pathOf (isName_normal p) hdir hs, h]

theorem isAbsolute_join {base p : Path} (h : base.isAbsolute) : (base.join p).isAbsolute := by
  unfold join
  split
  · assumption
  · unfold isAbsolute at h ⊢
    cases hb : base.text.toList with
    | nil => simp [hb] at h
    | cons c cs =>
      rw [hb] at h
      split <;> simpa [hb] using h

/-- **What is resolved against an absolute base** is absolute and in normal form. -/
theorem isSettled_resolveAgainst {base : Path} (h : base.isAbsolute) (p : Path) :
    (base.resolveAgainst p).IsSettled := by
  unfold resolveAgainst
  dsimp only
  split
  · next ha => exact isSettled_normalize (normal_absolute_of_isAbsolute ha)
  · exact isSettled_normalize (normal_absolute_of_isAbsolute (isAbsolute_join h))

end Path

end BuildLayout
