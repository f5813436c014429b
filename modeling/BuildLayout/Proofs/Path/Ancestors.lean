import BuildLayout.Proofs.Path.Segments
import Mathlib.Data.List.Infix

/-!
# The directories above a path

The parent of any path, in whatever way it is written, is the path less its last component
(`components_of_parent?`): idle segments count for nothing on either side of it
(`filterMap_dropWhile_isIdle`). So the ancestors are the path followed by the ancestors of its
parent (`ancestors_of_parent?`), and what holds of them goes by induction on the way up
(`parent_induction`):

* `exists_mem_ancestors_iff`: their components are the beginnings of those of the path, less the
  empty one when the path is absolute.
* `findSome?_ancestors_eq_some_iff`: the first hit of a search through them is the one at the
  deepest of them that has any.
-/

namespace BuildLayout.Path

/-! ## Idle segments -/

theorem ofSegment?_eq_none_iff {s : String} : Component.ofSegment? s = none ↔ isIdle s := by
  unfold Component.ofSegment? isIdle
  split
  · simpa
  · split <;> simp_all

/-- Idle segments contribute no component. -/
theorem filterMap_dropWhile_isIdle (ss : List String) :
    (ss.dropWhile isIdle).filterMap Component.ofSegment? = ss.filterMap Component.ofSegment? := by
  induction ss with
  | nil => rfl
  | cons s ss ih =>
    rw [List.dropWhile_cons]
    split
    · next h => rw [ih, List.filterMap_cons_none (ofSegment?_eq_none_iff.2 h)]
    · rfl

theorem body_eq_reverse (ss : List String) :
    body ss = ((ss.reverse.dropWhile isIdle).filterMap Component.ofSegment?).reverse := by
  rw [filterMap_dropWhile_isIdle, List.filterMap_reverse, List.reverse_reverse, body]

/-- Segments without their last component make one component less. -/
theorem body_of_dropLastComponent {ss init : List String}
    (h : dropLastComponent ss.reverse = some init) : ∃ c, body ss = body init ++ [c] := by
  unfold dropLastComponent at h
  split at h
  · cases h
  · next last front hf =>
    cases h
    have hlast : ¬ isIdle last := by
      have := List.head?_dropWhile_not isIdle ss.reverse
      simpa [hf] using this
    obtain ⟨c, hc⟩ := Option.ne_none_iff_exists'.1 (mt ofSegment?_eq_none_iff.1 hlast)
    refine ⟨c, ?_⟩
    rw [body_eq_reverse ss, hf, List.filterMap_cons_some hc, List.reverse_cons, body,
      List.filterMap_reverse, filterMap_dropWhile_isIdle]

theorem body_of_dropLastComponent_eq_none {ss : List String}
    (h : dropLastComponent ss.reverse = none) : body ss = [] := by
  unfold dropLastComponent at h
  split at h
  · next hf => rw [body_eq_reverse, hf]; rfl
  · cases h

/-! ## The parent -/

/-- The components of a list of segments, by its first one. -/
theorem components_ofSegments_cons {first : String} {rest : List String}
    (h : ∀ s ∈ first :: rest, '/' ∉ s.toList) :
    (ofSegments (first :: rest)).components =
      if first = "" ∧ rest ≠ [] then .root :: body rest
      else if first = "." then .here :: body rest
      else body (first :: rest) := by
  unfold components
  rw [segments_ofSegments (List.cons_ne_nil _ _) h]
  dsimp only
  rw [isAbsolute_ofSegments_cons _ _ (h first (.head _))]
  simp

/-- The first segments of a path hold no slash. -/
theorem slash_not_mem_of_first {p : Path} {first : String} {rest init : List String}
    (hs : p.segments = first :: rest) (hpre : init <+: rest) :
    ∀ s ∈ first :: init, '/' ∉ s.toList := fun _ hm =>
  (of_mem_segments (p := p) (hs ▸ (List.cons_prefix_cons.2 ⟨rfl, hpre⟩).subset hm)).1

theorem components_of_parent?_of_isAbsolute {p q : Path} (ha : p.isAbsolute)
    (h : p.parent? = some q) : (∃ c, p.components = q.components ++ [c]) ∧ q.isAbsolute := by
  obtain ⟨rest, hs⟩ := segments_of_isAbsolute ha
  have hp : p.components = .root :: body rest := by simp [components, hs, ha]
  unfold parent? at h
  rw [hs] at h
  dsimp only at h
  rw [if_pos ha] at h
  split at h
  · cases h
  · next hd =>
    obtain ⟨c, hc⟩ := body_of_dropLastComponent hd
    cases h
    exact ⟨⟨c, by rw [hp, hc]; rfl⟩, by decide⟩
  · next init hinit hd =>
    obtain ⟨c, hc⟩ := body_of_dropLastComponent hd
    have hslash := slash_not_mem_of_first hs (dropLastComponent_eq hd)
    have hne : init ≠ [] := hinit
    cases h
    refine ⟨⟨c, ?_⟩, ?_⟩
    · rw [hp, hc, components_ofSegments_cons hslash, if_pos ⟨rfl, hne⟩, List.cons_append]
    · rw [isAbsolute_ofSegments_cons _ _ (by simp)]
      simp [hne]

theorem components_of_parent?_of_relative {p q : Path} (ha : p.isAbsolute = false)
    (h : p.parent? = some q) : ∃ c, p.components = q.components ++ [c] := by
  have hq := isAbsolute_parent? ha h
  unfold parent? at h
  split at h
  · cases h
  next first rest hs =>
  rw [ha, if_neg (by simp)] at h
  split at h
  · next hdot =>
    subst hdot
    have hp : p.components = .here :: body rest := by simp [components, hs, ha]
    split at h
    · next hd =>
      cases h
      exact ⟨.here, by rw [hp, body_of_dropLastComponent_eq_none hd]; rfl⟩
    · next init hd =>
      cases h
      obtain ⟨c, hc⟩ := body_of_dropLastComponent hd
      have hslash := slash_not_mem_of_first hs (dropLastComponent_eq hd)
      refine ⟨c, ?_⟩
      rw [hp, hc, components_ofSegments_cons hslash, if_neg (by simp), if_pos rfl,
        List.cons_append]
  · next hdot =>
    have hp : p.components = body (first :: rest) := by simp [components, hs, ha, hdot]
    obtain ⟨init, hd, rfl⟩ := Option.map_eq_some_iff.1 h
    obtain ⟨c, hc⟩ := body_of_dropLastComponent hd
    refine ⟨c, ?_⟩
    rw [hp, hc]
    cases init with
    | nil => rfl
    | cons s init =>
      obtain ⟨rfl, hpre⟩ := List.cons_prefix_cons.1 (dropLastComponent_eq hd)
      have hslash := slash_not_mem_of_first hs hpre
      have hroot : ¬ (s = "" ∧ init ≠ []) := by
        rw [isAbsolute_ofSegments_cons _ _ (hslash s (.head _))] at hq
        simpa using hq
      rw [components_ofSegments_cons hslash, if_neg hroot, if_neg hdot]

/-- **The parent** has the components of the path but the last, and is absolute when the path
is. -/
theorem components_of_parent? {p q : Path} (h : p.parent? = some q) :
    (∃ c, p.components = q.components ++ [c]) ∧ q.isAbsolute = p.isAbsolute := by
  cases ha : p.isAbsolute with
  | true => exact components_of_parent?_of_isAbsolute ha h
  | false => exact ⟨components_of_parent?_of_relative ha h, isAbsolute_parent? ha h⟩

/-- Only the root and a path without components have no parent. -/
theorem components_of_parent?_eq_none {p : Path} (h : p.parent? = none) :
    p.components = if p.isAbsolute then [.root] else [] := by
  unfold parent? at h
  split at h
  · next hs => exact absurd hs (segments_ne_nil p)
  next first rest hs =>
  unfold components
  rw [hs]
  dsimp only
  split at h
  · next ha =>
    split at h
    · next hd => rw [if_pos ha, if_pos ha, body_of_dropLastComponent_eq_none hd]
    · cases h
    · cases h
  · next ha =>
    split at h
    · split at h <;> cases h
    · next hdot =>
      rw [if_neg ha, if_neg ha, if_neg hdot]
      exact body_of_dropLastComponent_eq_none (Option.map_eq_none_iff.1 h)

/-! ## The way up -/

/-- Going up comes to an end. -/
theorem parent_induction {P : Path → Prop} (top : ∀ p, p.parent? = none → P p)
    (up : ∀ p q, p.parent? = some q → P q → P p) (p : Path) : P p := by
  induction hn : p.components.length generalizing p with
  | zero =>
    refine top p (Option.eq_none_iff_forall_ne_some.2 fun q hq => ?_)
    obtain ⟨⟨c, hc⟩, -⟩ := components_of_parent? hq
    simp [hc] at hn
  | succ n ih =>
    cases hq : p.parent? with
    | none => exact top p hq
    | some q =>
      obtain ⟨⟨c, hc⟩, -⟩ := components_of_parent? hq
      exact up p q hq (ih q (by simpa [hc] using hn))

theorem ancestors_of_parent?_eq_none {p : Path} (h : p.parent? = none) : p.ancestors = [p] := by
  unfold ancestors
  cases p.components.length with
  | zero => rfl
  | succ n => rw [ancestorsUpTo, h]

/-- **The ancestors** are the path and the ancestors of its parent. -/
theorem ancestors_of_parent? {p q : Path} (h : p.parent? = some q) :
    p.ancestors = p :: q.ancestors := by
  obtain ⟨⟨c, hc⟩, -⟩ := components_of_parent? h
  unfold ancestors
  rw [hc, List.length_append, List.length_singleton, ancestorsUpTo, h]

/-- **The components of the ancestors** are the beginnings of those of the path, of which the
empty one belongs to no absolute path. -/
theorem exists_mem_ancestors_iff {p : Path} {cs : List Component} :
    (∃ level ∈ p.ancestors, level.components = cs) ↔
      cs <+: p.components ∧ (p.isAbsolute → cs ≠ []) := by
  induction p using parent_induction with
  | top p h =>
    rw [ancestors_of_parent?_eq_none h, components_of_parent?_eq_none h]
    cases ha : p.isAbsolute with
    | true =>
      simp only [List.mem_singleton, exists_eq_left, components_of_parent?_eq_none h, ha, if_true,
        List.prefix_cons_iff, List.prefix_nil]
      constructor
      · rintro rfl
        simp
      · rintro ⟨rfl | ⟨_, rfl, rfl⟩, hne⟩
        · exact absurd rfl (hne trivial)
        · rfl
    | false => simp [components_of_parent?_eq_none h, ha, eq_comm]
  | up p q h ih =>
    obtain ⟨⟨c, hc⟩, ha⟩ := components_of_parent? h
    simp only [ancestors_of_parent? h, List.exists_mem_cons_iff, ih, hc, ha,
      List.prefix_concat_iff]
    constructor
    · rintro (rfl | ⟨hpre, hne⟩)
      · exact ⟨.inl rfl, by simp⟩
      · exact ⟨.inr hpre, hne⟩
    · rintro ⟨rfl | hpre, hne⟩
      · exact .inl rfl
      · exact .inr ⟨hpre, hne⟩

theorem length_le_of_mem_ancestors {p q : Path} (h : q ∈ p.ancestors) :
    q.components.length ≤ p.components.length :=
  (exists_mem_ancestors_iff.1 ⟨q, h, rfl⟩).1.length_le

/-- **A search upwards** ends at the deepest of the ancestors that has what it looks for. -/
theorem findSome?_ancestors_eq_some_iff {α : Type} {p : Path} {f : Path → Option α} {a : α} :
    p.ancestors.findSome? f = some a ↔ ∃ level ∈ p.ancestors, f level = some a ∧
      ∀ other ∈ p.ancestors, ∀ b, f other = some b →
        other.components.length ≤ level.components.length := by
  induction p using parent_induction with
  | top p h => simp [ancestors_of_parent?_eq_none h]
  | up p q h ih =>
    obtain ⟨⟨c, hc⟩, -⟩ := components_of_parent? h
    have hbelow : ∀ level ∈ q.ancestors, level.components.length < p.components.length :=
      fun level hl => by
        have := length_le_of_mem_ancestors hl
        rw [hc, List.length_append, List.length_singleton]
        omega
    rw [ancestors_of_parent? h, List.findSome?_cons]
    cases hf : f p with
    | some b =>
      -- the path itself is deeper than all that is above it
      constructor
      · rintro ⟨⟩
        refine ⟨p, .head _, hf, fun other ho _ _ => ?_⟩
        rcases List.mem_cons.1 ho with rfl | ho
        · exact le_rfl
        · exact (hbelow other ho).le
      · rintro ⟨level, hl, ha, hdeepest⟩
        rcases List.mem_cons.1 hl with rfl | hl
        · exact hf.symm.trans ha
        · exact absurd (hdeepest p (.head _) b hf) (hbelow level hl).not_ge
    | none =>
      dsimp only
      rw [ih]
      simp [hf]

end BuildLayout.Path
