import BuildLayout.Proofs.Path.Route

/-!
# The way between relative places

Two relative places may begin with `..`, and a `..` of the directory that the target does not share
cannot be taken back. Where the directory has no more of them than the target there is a way, and it
leads to the target (`exists_difference_of_le`). Where it has more, there is none
(`difference_of_lt`), except that a target of nothing but `..` is climbed away from.

* `difference_shared`, `exists_difference_name`: the walk passes over what is shared, and then
  climbs from the names of the directory that remain.
* `normal_resolveAgainst_ofComponents`: the components found are read back from the path that is
  written for them, so the way can be taken component by component.

`leadsRight_iff` states this of the paths as they are written.
-/

namespace BuildLayout

namespace Path

/-! ## Leading `..` -/

/-- How many `..` the normal form of a path begins with. -/
def climbs (p : Path) : Nat :=
  (p.normalize.components.takeWhile (· = .up)).length

theorem Normal.takeWhile_up_steps (n : Normal) :
    n.steps.takeWhile (· = .up) = List.replicate n.ups .up := by
  have hups : ∀ c ∈ List.replicate n.ups Component.up, decide (c = .up) = true := by
    intro c hc
    rw [List.eq_of_mem_replicate hc]
    rfl
  unfold steps
  rw [List.takeWhile_append_of_pos hups]
  cases n.names with
  | nil => simp
  | cons s names => simp

theorem climbs_of_relative {p : Path} (h : p.normal.absolute = false) :
    p.climbs = p.normal.ups := by
  unfold climbs
  rw [components_normalize, Normal.components_of_relative h]
  split
  · next hnil =>
    rw [(Normal.steps_eq_nil.1 hnil).1]
    rfl
  · rw [Normal.takeWhile_up_steps, List.length_replicate]

/-- What climbs is written as its steps. -/
theorem Normal.components_of_ups {n : Normal} (h : n.absolute = false) (hups : n.ups ≠ 0) :
    n.components = List.replicate n.ups .up ++ n.names.map .name := by
  rw [components_of_relative h, if_neg fun hnil => hups (steps_eq_nil.1 hnil).1, steps]

theorem Normal.length_components_of_ups {n : Normal} (h : n.absolute = false) (hups : n.ups ≠ 0) :
    n.components.length = n.ups + n.names.length := by
  rw [components_of_ups h hups, List.length_append, List.length_replicate, List.length_map]

/-- Only `..` is left of a normal form that has some and no names. -/
theorem Normal.forall_components_up {n : Normal} (h : n.absolute = false) :
    (∀ c ∈ n.components, c = .up) ↔ n.ups ≠ 0 ∧ n.names = [] := by
  rw [components_of_relative h]
  split
  · next hnil => simp [(steps_eq_nil.1 hnil).1]
  · next hne =>
    rw [steps_eq_nil, not_and] at hne
    unfold steps
    constructor
    · intro hup
      have hnames : n.names = [] := by
        cases hn : n.names with
        | nil => rfl
        | cons s names => cases hup (.name s) (by simp [hn])
      exact ⟨fun h0 => hne h0 hnames, hnames⟩
    · rintro ⟨-, hnames⟩ c hc
      rw [hnames, List.map_nil, List.append_nil] at hc
      exact List.eq_of_mem_replicate hc

/-! ## The walk -/

theorem difference_nil (begun : Bool) (target : List Component) :
    difference begun target [] = some target := by
  cases target <;> rfl

theorem difference_climb_cons (begun : Bool) (c : Component) (start : List Component) :
    difference begun [] (c :: start) = some (List.replicate (start.length + 1) .up) := by
  rw [difference, difference_climb]
  rfl

/-- What both places share is passed over. -/
theorem difference_shared (shared target start : List Component) :
    difference false (shared ++ target) (shared ++ start) = difference false target start := by
  induction shared with
  | nil => rfl
  | cons c shared ih =>
    rw [List.cons_append, List.cons_append, difference]
    simp [ih]

/-- From names there is a way to everything, and it leads there: what is not shared is climbed from.
The names are taken from `n` on, as the target is. -/
theorem exists_difference_name (start : Location) (n : Normal) (target : List Component) :
    ∃ cs, difference false target (start.map .name) = some cs ∧
      cs.foldl Normal.step { n with names := n.names ++ start } = target.foldl Normal.step n := by
  induction start generalizing n target with
  | nil => exact ⟨target, difference_nil _ _, by rw [List.append_nil]⟩
  | cons s start ih =>
    have hclimb := Normal.foldl_step_climb n.absolute n.ups n.names (s :: start)
    rw [List.length_cons] at hclimb
    cases target with
    | nil =>
      refine ⟨List.replicate (start.length + 1) .up, ?_, hclimb⟩
      rw [List.map_cons, difference_climb_cons, List.length_map]
    | cons t target =>
      rw [List.map_cons, difference]
      by_cases hts : t = .name s
      · subst hts
        obtain ⟨cs, hcs, hway⟩ := ih { n with names := n.names ++ [s] } target
        refine ⟨cs, by simpa using hcs, ?_⟩
        rw [List.foldl_cons, ← List.singleton_append, ← List.append_assoc]
        exact hway
      · refine ⟨List.replicate (start.length + 1) .up ++ t :: target, ?_, ?_⟩
        · simp [hts, Function.comp_def, List.map_const', List.replicate_succ]
        · rw [List.foldl_append, hclimb]

/-- A place with no more `..` than another begins as that does. -/
theorem Normal.exists_components_eq {s t : Normal} (ht : t.absolute = false)
    (h : s.ups ≤ t.ups) :
    ∃ target, t.components = List.replicate s.ups .up ++ target := by
  rw [components_of_relative ht]
  split
  · next hnil =>
    have h0 : s.ups = 0 := by
      have := (steps_eq_nil.1 hnil).1
      omega
    exact ⟨[.here], by rw [h0]; rfl⟩
  · refine ⟨List.replicate (t.ups - s.ups) .up ++ t.names.map .name, ?_⟩
    rw [← List.append_assoc, List.replicate_append_replicate, Nat.add_sub_cancel' h]
    rfl

/-- **There is a way** from a place to one with no fewer `..`, and it leads there. -/
theorem exists_difference_of_le {s t : Normal} (hs : s.absolute = false) (ht : t.absolute = false)
    (h : s.ups ≤ t.ups) :
    ∃ cs, difference false t.components s.components = some cs ∧ cs.foldl Normal.step s = t := by
  have htarget : t.components.foldl Normal.step Normal.empty = t :=
    Normal.ofComponents_components ht
  by_cases hnil : s.steps = []
  · have hempty : s = Normal.empty := by
      have := Normal.steps_eq_nil.1 hnil
      cases s
      simp_all [Normal.empty]
    rw [Normal.components_of_relative hs, if_pos hnil, hempty]
    cases hc : t.components with
    | nil => exact absurd hc (Normal.components_ne_nil ht)
    | cons c cs =>
      rw [hc] at htarget
      by_cases hhere : c = .here
      · subst hhere
        exact ⟨cs, by rw [difference]; simp [difference_nil], htarget⟩
      · exact ⟨c :: cs, by rw [difference]; simp [hhere, difference_nil], htarget⟩
  · obtain ⟨target, he⟩ := Normal.exists_components_eq ht h
    obtain ⟨cs, hcs, hway⟩ := exists_difference_name s.names ⟨false, s.ups, []⟩ target
    rw [he, List.foldl_append, Normal.foldl_step_up] at htarget
    refine ⟨cs, ?_, ?_⟩
    · rw [he, Normal.components_of_relative hs, if_neg hnil, Normal.steps, difference_shared, hcs]
    · rw [← htarget, ← hway, List.nil_append, ← hs]

/-- **Of `..` that the target does not have** there is no way back. A target of nothing but `..` is
the exception: it has ended before the walk meets one. -/
theorem difference_of_lt {s t : Normal} (hs : s.absolute = false) (ht : t.absolute = false)
    (h : t.ups < s.ups) :
    difference false t.components s.components =
      if t.ups ≠ 0 ∧ t.names = [] then
        some (List.replicate (s.ups - t.ups + s.names.length) .up)
      else none := by
  obtain ⟨more, hmore⟩ : ∃ more, s.ups = t.ups + (more + 1) := ⟨s.ups - t.ups - 1, by omega⟩
  have hstart : s.components =
      List.replicate t.ups .up ++ .up :: (List.replicate more .up ++ s.names.map .name) := by
    rw [Normal.components_of_ups hs (Nat.ne_zero_of_lt h), hmore,
      ← List.replicate_append_replicate, List.append_assoc, List.replicate_succ, List.cons_append]
  rw [hstart, Normal.components_of_relative ht]
  split
  · next hnil =>
    have h0 := (Normal.steps_eq_nil.1 hnil).1
    rw [h0, if_neg (by simp), List.replicate_zero, List.nil_append, difference]
    simp
  · next hne =>
    rw [Normal.steps, difference_shared]
    cases hn : t.names with
    | nil =>
      have h0 : t.ups ≠ 0 := fun h0 => hne (Normal.steps_eq_nil.2 ⟨h0, hn⟩)
      rw [if_pos ⟨h0, rfl⟩, List.map_nil, difference_climb_cons]
      congr 2
      simp only [List.length_append, List.length_replicate, List.length_map]
      omega
    | cons name names =>
      rw [if_neg (by simp), List.map_cons, difference]
      simp

/-! ## Taking the way -/

/-- Once the names are climbed from, every further `..` is kept. -/
theorem Normal.foldl_step_beyond {n : Normal} (h : n.absolute = false) (more : Nat) :
    (List.replicate (more + n.names.length) Component.up).foldl step n =
      ⟨false, n.ups + more, []⟩ := by
  have hclimb := foldl_step_climb false n.ups [] n.names
  rw [← foldl_step_up, List.nil_append, ← h] at hclimb
  rw [Nat.add_comm, ← List.replicate_append_replicate, List.foldl_append, hclimb,
    ← List.foldl_append, List.replicate_append_replicate, foldl_step_up]

/-- A way between relative places, resolved against the first, is what its components replay to from
there on. -/
theorem normal_resolveAgainst_ofComponents {start target : Path} {cs : List Component}
    (ht : target.normal.absolute = false)
    (h : difference false target.normal.components start.normal.components = some cs) :
    (start.resolveAgainst (ofComponents cs)).normal = cs.foldl Normal.step start.normal := by
  have hroot : .root ∉ cs := fun hc =>
    Normal.root_not_mem_components ht ((mem_of_difference h hc).resolve_left nofun)
  have hname : ∀ s, .name s ∈ cs → IsPlain s := fun s hc =>
    normal_plain target s ((Normal.name_mem_components ht).1
      ((mem_of_difference h hc).resolve_left nofun))
  have habs : (Normal.ofComponents cs).absolute = false := by
    unfold Normal.ofComponents
    rw [Normal.foldl_step_absolute]
    simp [Normal.empty, hroot]
  rw [normal_resolveAgainst, normal_ofComponents hroot hname, Normal.append, habs,
    if_neg Bool.false_ne_true, Normal.foldl_step_steps hroot]

theorem relative_of_isAbsolute_normalize {p : Path} (h : p.normalize.isAbsolute = false) :
    p.normal.absolute = false := by
  by_contra ha
  rw [normalize_of_absolute (Bool.not_eq_false _ ▸ ha), isAbsolute_pathOf] at h
  cases h

/-! ## Where the way leads -/

/-- What leads from a directory to a target resolves to the target, and there is nothing just if the
directory climbs further than the target does. -/
structure LeadsRight (start target : Path) : Prop where
  arrives : ∀ relative, relativeTo? start target = some relative →
    start.resolveAgainst relative = target.normalize
  refuses : relativeTo? start target = none ↔ target.climbs < start.climbs

section
variable {start target : Path} (hs : start.normal.absolute = false)
  (ht : target.normal.absolute = false)
include hs ht

theorem relativeTo?_of_both_relative :
    relativeTo? start target =
      (difference false target.normal.components start.normal.components).map ofComponents := by
  unfold relativeTo?
  simp [hs, ht]

theorem leadsRight_of_le (h : start.climbs ≤ target.climbs) : LeadsRight start target := by
  rw [climbs_of_relative hs, climbs_of_relative ht] at h
  obtain ⟨cs, hcs, hway⟩ := exists_difference_of_le hs ht h
  have hrelative : relativeTo? start target = some (ofComponents cs) := by
    rw [relativeTo?_of_both_relative hs ht, hcs, Option.map_some]
  refine ⟨fun relative hr => ?_, ?_⟩
  · obtain rfl := Option.some.inj (hrelative.symm.trans hr)
    rw [← normalize_resolveAgainst, ← normal_eq_iff,
      normal_resolveAgainst_ofComponents ht hcs, hway]
  · rw [hrelative, climbs_of_relative hs, climbs_of_relative ht]
    simpa using h

theorem leadsRight_of_lt (h : target.climbs < start.climbs)
    (hup : ¬ ∀ c ∈ target.normalize.components, c = .up) : LeadsRight start target := by
  have hlt := h
  rw [climbs_of_relative hs, climbs_of_relative ht] at hlt
  rw [components_normalize, Normal.forall_components_up ht] at hup
  have hrelative : relativeTo? start target = none := by
    rw [relativeTo?_of_both_relative hs ht, difference_of_lt hs ht hlt, if_neg hup,
      Option.map_none]
  refine ⟨fun relative hr => ?_, iff_of_true hrelative h⟩
  rw [hrelative] at hr
  cases hr

/-- A directory that climbs further than a target of nothing but `..`: the answer climbs on. -/
theorem relativeTo?_of_lt (h : target.climbs < start.climbs)
    (hup : ∀ c ∈ target.normalize.components, c = .up) :
    relativeTo? start target = some (ofComponents (List.replicate
      (start.normalize.components.length - target.normalize.components.length) .up)) ∧
    ∀ relative, relativeTo? start target = some relative →
      start.resolveAgainst relative ≠ target.normalize := by
  rw [climbs_of_relative hs, climbs_of_relative ht] at h
  rw [components_normalize, Normal.forall_components_up ht] at hup
  have hdifference := difference_of_lt hs ht h
  rw [if_pos hup] at hdifference
  have hrelative := relativeTo?_of_both_relative hs ht
  rw [hdifference, Option.map_some] at hrelative
  refine ⟨?_, fun relative hr he => ?_⟩
  · rw [hrelative, components_normalize, components_normalize,
      Normal.length_components_of_ups hs (Nat.ne_zero_of_lt h),
      Normal.length_components_of_ups ht hup.1, hup.2, List.length_nil, Nat.add_zero,
      Nat.sub_add_comm h.le]
  · obtain rfl := Option.some.inj (hrelative.symm.trans hr)
    rw [← normalize_resolveAgainst, ← normal_eq_iff,
      normal_resolveAgainst_ofComponents ht hdifference] at he
    have hups := congrArg Normal.ups ((Normal.foldl_step_beyond hs _).symm.trans he)
    dsimp only at hups
    omega

end

/-! ## The main result -/

/-- **What leads from one relative place to another** is right except where the directory climbs
further than a target that does nothing but climb. There should be no answer then; the answer is a
`..` for each component that the directory has more, and it leads further up still. -/
theorem leadsRight_iff {start target : Path} (hs : start.normalize.isAbsolute = false)
    (ht : target.normalize.isAbsolute = false) :
    (LeadsRight start target ↔
      ¬ (target.climbs < start.climbs ∧ ∀ c ∈ target.normalize.components, c = .up)) ∧
    (target.climbs < start.climbs → (∀ c ∈ target.normalize.components, c = .up) →
      relativeTo? start target = some (ofComponents (List.replicate
        (start.normalize.components.length - target.normalize.components.length) .up)) ∧
      ∀ relative, relativeTo? start target = some relative →
        start.resolveAgainst relative ≠ target.normalize) := by
  have hs := relative_of_isAbsolute_normalize hs
  have ht := relative_of_isAbsolute_normalize ht
  refine ⟨⟨?_, fun hright => ?_⟩, relativeTo?_of_lt hs ht⟩
  · rintro hleads ⟨hlt, hup⟩
    obtain ⟨hrelative, hwrong⟩ := relativeTo?_of_lt hs ht hlt hup
    exact hwrong _ hrelative (hleads.arrives _ hrelative)
  · by_cases hlt : target.climbs < start.climbs
    · exact leadsRight_of_lt hs ht hlt fun hup => hright ⟨hlt, hup⟩
    · exact leadsRight_of_le hs ht (Nat.le_of_not_lt hlt)

/-- The way between two places above, neither of them written in normal form. -/
theorem leadsRight_iff_above :
    let start : Path := ⟨"./a/..\\..//src"⟩
    let target : Path := ⟨"lib\\../../../types/."⟩
    start.normalize.isAbsolute = false ∧ target.normalize.isAbsolute = false ∧
      relativeTo? start target = some ⟨"../../types"⟩ ∧ LeadsRight start target := by
  intro start target
  have hs : start.normalize.isAbsolute = false := by decide
  have ht : target.normalize.isAbsolute = false := by decide
  exact ⟨hs, ht, by decide, (leadsRight_iff hs ht).1.2 (by decide)⟩

/-- **A way that does not lead right**: from `../..` to `..` it is `..`, which leads to `../../..`.
No relative path goes back to where the climb began. -/
theorem not_leadsRight_upwards :
    let start : Path := ⟨"../.."⟩
    let target : Path := ⟨".."⟩
    target.climbs < start.climbs ∧ relativeTo? start target = some ⟨".."⟩ ∧
      start.resolveAgainst ⟨".."⟩ = ⟨"../../.."⟩ ∧ target.normalize = ⟨".."⟩ ∧
        ¬ LeadsRight start target := by
  intro start target
  have hlt : target.climbs < start.climbs := by decide
  have hrelative : relativeTo? start target = some ⟨".."⟩ := by decide
  refine ⟨hlt, hrelative, by decide, by decide, fun h => ?_⟩
  exact absurd (hrelative.symm.trans (h.refuses.2 hlt)) (by decide)

end Path

end BuildLayout
