import BuildLayout.Proofs.Path.Relative

/-!
# Normal forms and joining

A normal form says all that matters of a path:

* `components_normalize`, `normal_normalize_eq`: it is read back from the path that is written for
  it, so two paths have one normal form exactly when they are normalized to one text
  (`normal_eq_iff`).
* `Normal.append`: one normal form taken from another on. `Normal.foldl_step_foldl` is why that is
  possible: components may be normalized before they are replayed on what came before.
* `normal_resolveAgainst`: a path resolved against a base is one normal form put behind the other,
  so neither spelling matters (`resolveAgainst_congr`).
* `normal_ofComponents`: components are read back from the path that goes through them.
* `names_of_relativeTo?`: what leads to a place inside a directory is a list of names, also when
  both are relative.
-/

namespace BuildLayout

open Disk (pathOf)

namespace Text

/-- The pieces on both sides of a separator. -/
theorem splitOn_append_sep (sep : Char) (cs ds : List Char) :
    splitOn sep (cs ++ sep :: ds) = splitOn sep cs ++ splitOn sep ds := by
  induction cs with
  | nil => simp [splitOn]
  | cons c cs ih =>
    rw [List.cons_append, splitOn, splitOn]
    split
    · rw [ih, List.cons_append]
    · rw [ih]
      cases hs : splitOn sep cs with
      | nil => exact absurd hs (splitOn_ne_nil sep cs)
      | cons piece pieces => rfl

end Text

namespace Path

/-! ## The components of a normal form -/

/-- The steps of a relative normal form: `..` some times and then names. -/
def Normal.steps (n : Normal) : List Component :=
  List.replicate n.ups .up ++ n.names.map .name

theorem Normal.isStep_of_mem_steps {n : Normal} (h : ∀ s ∈ n.names, IsName s) :
    ∀ c ∈ n.steps, IsStep c := by
  intro c hc
  rcases List.mem_append.1 hc with hc | hc
  · rw [List.eq_of_mem_replicate hc]
    trivial
  · obtain ⟨s, hs, rfl⟩ := List.mem_map.1 hc
    exact h s hs

theorem isStep_steps (p : Path) : ∀ c ∈ p.normal.steps, IsStep c :=
  Normal.isStep_of_mem_steps (isName_normal p)

theorem Normal.steps_eq_nil {n : Normal} : n.steps = [] ↔ n.ups = 0 ∧ n.names = [] := by
  unfold steps
  rw [List.append_eq_nil_iff, List.replicate_eq_nil_iff, List.map_eq_nil_iff]

theorem Normal.root_not_mem_steps (n : Normal) : .root ∉ n.steps := by
  intro h
  rcases List.mem_append.1 h with h | h
  · cases List.eq_of_mem_replicate h
  · obtain ⟨s, -, hs⟩ := List.mem_map.1 h
    cases hs

theorem Normal.name_mem_steps {n : Normal} {s : String} : .name s ∈ n.steps ↔ s ∈ n.names := by
  simp [steps, List.mem_replicate]

theorem Normal.components_of_relative {n : Normal} (h : n.absolute = false) :
    n.components = if n.steps = [] then [.here] else n.steps := by
  unfold components
  simp only [h, Bool.false_eq_true, if_false, steps_eq_nil]
  rfl

theorem Normal.components_ne_nil {n : Normal} (h : n.absolute = false) : n.components ≠ [] := by
  rw [components_of_relative h]
  split
  · exact List.cons_ne_nil _ _
  · assumption

theorem Normal.root_not_mem_components {n : Normal} (h : n.absolute = false) :
    .root ∉ n.components := by
  rw [components_of_relative h]
  split
  · simp
  · exact n.root_not_mem_steps

theorem Normal.name_mem_components {n : Normal} (h : n.absolute = false) {s : String} :
    .name s ∈ n.components ↔ s ∈ n.names := by
  rw [components_of_relative h]
  split
  · next hnil => simp [(steps_eq_nil.1 hnil).2]
  · exact name_mem_steps

/-- A relative path in normal form goes through its steps; without any it is written as a dot. -/
theorem normalize_of_relative {p : Path} (h : p.normal.absolute = false) :
    p.normalize = if p.normal.steps = [] then ⟨"."⟩ else ofComponents p.normal.steps := by
  have htext : p.normal.steps.map Component.text =
      List.replicate p.normal.ups ".." ++ p.normal.names := by
    simp [Normal.steps, Function.comp_def, Component.text]
  rw [ofComponents_eq_of_isStep (isStep_steps p), htext]
  unfold normalize Normal.toPath Normal.segments
  simp only [h, Bool.false_eq_true, if_false, Normal.steps_eq_nil]
  split
  · exact ofSegments_singleton "."
  · rfl

theorem components_normalize (p : Path) : p.normalize.components = p.normal.components := by
  cases h : p.normal.absolute with
  | true =>
    rw [normalize_of_absolute h, components_pathOf (isName_normal p), Normal.components, if_pos h]
  | false =>
    rw [normalize_of_relative h, Normal.components_of_relative h]
    split
    · decide
    · exact components_ofComponents (isStep_steps p)

/-- A `..` takes back the last name. -/
theorem Normal.step_up_of_concat {n : Normal} {names : List String} {s : String}
    (h : n.names = names ++ [s]) : n.step .up = { n with names := names } := by
  simp [step, h]

/-- A `..` without a name before it is kept, but not at the root. -/
theorem Normal.step_up_of_nil {n : Normal} (h : n.names = []) :
    n.step .up = if n.absolute then n else { n with ups := n.ups + 1 } :=
  if_pos h

/-- One more step on a relative normal form is one more component to replay. -/
theorem Normal.foldl_step_step {m : Normal} (hm : m.absolute = false) {c : Component}
    (hc : c ≠ .root) (n : Normal) :
    (m.step c).steps.foldl step n = (m.steps.foldl step n).step c := by
  obtain ⟨absolute, ups, names⟩ := m
  obtain rfl : absolute = false := hm
  cases c with
  | root => exact absurd rfl hc
  | here => rfl
  | name s =>
    simp only [step, steps, List.map_append, ← List.append_assoc, List.foldl_append]
    rfl
  | up =>
    cases names using List.reverseRecOn with
    | nil =>
      simp only [step, steps, if_true, Bool.false_eq_true, if_false, List.map_nil,
        List.append_nil, List.replicate_succ', List.foldl_append]
      rfl
    | append_singleton names s =>
      simp only [step, steps, List.append_eq_nil_iff, List.cons_ne_nil, and_false, if_false,
        List.dropLast_concat, List.foldl_append, foldl_step_name, ← List.append_assoc]

theorem Normal.step_absolute {c : Component} (hc : c ≠ .root) (n : Normal) :
    (n.step c).absolute = n.absolute := by
  have h := foldl_step_absolute [c] n
  simpa [Ne.symm hc] using h

/-- Components are replayed on a relative normal form before or after that is put behind
another. -/
theorem Normal.foldl_step_foldl {cs : List Component} (hroot : .root ∉ cs) {m : Normal}
    (hm : m.absolute = false) (n : Normal) :
    (cs.foldl step m).steps.foldl step n = cs.foldl step (m.steps.foldl step n) := by
  induction cs generalizing m with
  | nil => rfl
  | cons c cs ih =>
    have hc : c ≠ .root := fun h => hroot (h ▸ .head _)
    rw [List.foldl_cons, List.foldl_cons, ← foldl_step_step hm hc,
      ih (fun h => hroot (.tail _ h)) ((step_absolute hc m).trans hm)]

/-- **Components may be normalized first**: replayed on what came before, they do what the steps of
their normal form do. -/
theorem Normal.foldl_step_steps {cs : List Component} (h : .root ∉ cs) (n : Normal) :
    (ofComponents cs).steps.foldl step n = cs.foldl step n :=
  foldl_step_foldl h rfl n

/-- A `..` is kept where no name is before it. -/
theorem Normal.foldl_step_up (n : Nat) :
    (List.replicate n Component.up).foldl step empty = ⟨false, n, []⟩ := by
  induction n with
  | zero => rfl
  | succ n ih => rw [List.replicate_succ', List.foldl_append, ih]; rfl

/-- A relative normal form is made again by its steps. -/
theorem Normal.ofComponents_steps {n : Normal} (h : n.absolute = false) :
    ofComponents n.steps = n := by
  unfold ofComponents steps
  rw [List.foldl_append, foldl_step_up, foldl_step_name, List.nil_append]
  cases n
  simp_all

/-- A relative normal form is made again by its components. -/
theorem Normal.ofComponents_components {n : Normal} (h : n.absolute = false) :
    ofComponents n.components = n := by
  rw [components_of_relative h]
  split
  · next hnil => rw [← ofComponents_steps h, hnil]; rfl
  · exact ofComponents_steps h

theorem not_mem_normalize (p : Path) : '\\' ∉ p.normalize.text.toList := by
  cases h : p.normal.absolute with
  | true =>
    rw [normalize_of_absolute h]
    exact not_mem_pathOf (by decide) fun s hs => (normal_plain p s hs).2
  | false =>
    rw [normalize_of_relative h]
    split
    · decide
    · rw [ofComponents_eq_of_isStep (isStep_steps p)]
      refine not_mem_ofSegments (by decide) fun s hs => ?_
      obtain ⟨c, hc, rfl⟩ := List.mem_map.1 hs
      rcases List.mem_append.1 hc with hc | hc
      · rw [List.eq_of_mem_replicate hc]
        decide
      · obtain ⟨t, ht, rfl⟩ := List.mem_map.1 hc
        exact (normal_plain p t ht).2

/-- No `..` is kept at the root. -/
theorem Normal.foldl_step_ups {cs : List Component} {n : Normal} (ha : n.absolute)
    (hu : n.ups = 0) : (cs.foldl step n).ups = 0 := by
  induction cs generalizing n with
  | nil => exact hu
  | cons c cs ih =>
    have habs : (n.step c).absolute := by
      have := foldl_step_absolute [c] n
      simp_all
    refine ih habs ?_
    cases c with
    | up => simp only [step]; split <;> simp [hu]
    | _ => exact hu

theorem components_of_isAbsolute {p : Path} (h : p.isAbsolute) :
    ∃ rest, p.segments = "" :: rest ∧ p.components = .root :: body rest := by
  obtain ⟨rest, hs⟩ := segments_of_isAbsolute h
  refine ⟨rest, hs, ?_⟩
  unfold components
  rw [hs]
  exact if_pos h

theorem normal_of_absolute {p : Path} (h : p.normal.absolute) :
    p.normal = ⟨true, 0, p.normal.names⟩ := by
  have hups : p.normal.ups = 0 := by
    obtain ⟨rest, -, hc⟩ := components_of_isAbsolute (p := p.normalizeSeparators)
      (by rwa [normal_absolute] at h)
    unfold normal Normal.ofComponents
    rw [hc, List.foldl_cons]
    exact Normal.foldl_step_ups rfl rfl
  cases hn : p.normal
  simp_all

/-- **A normal form is read back** from the path that is written for it. -/
theorem normal_normalize_eq (p : Path) : p.normalize.normal = p.normal := by
  cases h : p.normal.absolute with
  | true => rw [normal_normalize h, ← normal_of_absolute h]
  | false =>
    have hcomponents := Normal.ofComponents_components h
    unfold normal at hcomponents ⊢
    rw [normalizeSeparators_of_not_mem (not_mem_normalize p), components_normalize]
    exact hcomponents

/-- Paths have one normal form exactly when they are normalized to one text. -/
theorem normal_eq_iff {p q : Path} : p.normal = q.normal ↔ p.normalize = q.normalize := by
  constructor
  · intro h
    rw [normalize, normalize, h]
  · intro h
    rw [← normal_normalize_eq p, h, normal_normalize_eq]

theorem normalize_normalize (p : Path) : p.normalize.normalize = p.normalize :=
  normal_eq_iff.1 (normal_normalize_eq p)

/-! ## Joining -/

/-- One normal form taken from another on, unless it starts at the root. -/
def Normal.append (base n : Normal) : Normal :=
  if n.absolute then n else n.steps.foldl step base

theorem body_append (ss ts : List String) : body (ss ++ ts) = body ss ++ body ts :=
  List.filterMap_append

/-- A normal form replays what the segments contribute. -/
theorem normal_eq_foldl_body (p : Path) :
    p.normal = (body p.normalizeSeparators.segments).foldl Normal.step
      ⟨p.normalizeSeparators.isAbsolute, 0, []⟩ := by
  unfold normal Normal.ofComponents
  generalize p.normalizeSeparators = q
  cases ha : q.isAbsolute with
  | true =>
    obtain ⟨rest, hs, hc⟩ := components_of_isAbsolute ha
    rw [hs, hc]
    rfl
  | false =>
    unfold components
    split
    · next h => exact absurd h q.segments_ne_nil
    · next first rest hs =>
      rw [hs, ha, if_neg Bool.false_ne_true]
      split
      · next hdot =>
        subst hdot
        rfl
      · rfl

theorem normalizeSeparators_normalizeSeparators (p : Path) :
    p.normalizeSeparators.normalizeSeparators = p.normalizeSeparators :=
  normalizeSeparators_of_not_mem (not_mem_normalizeSeparators p)

theorem normal_normalizeSeparators (p : Path) : p.normalizeSeparators.normal = p.normal := by
  unfold normal
  rw [normalizeSeparators_normalizeSeparators]

/-- Back-slashes read as slashes in a text. -/
def slashes (cs : List Char) : List Char :=
  cs.map fun c => if c = '\\' then '/' else c

theorem toList_normalizeSeparators (p : Path) :
    p.normalizeSeparators.text.toList = slashes p.text.toList :=
  String.toList_ofList

/-- What the segments of a text contribute. -/
def bodyOf (cs : List Char) : List Component :=
  body ((Text.splitOn '/' cs).map String.ofList)

theorem root_not_mem_bodyOf (cs : List Char) : .root ∉ bodyOf cs :=
  root_not_mem_body _

theorem bodyOf_append_slash (cs ds : List Char) :
    bodyOf (cs ++ '/' :: ds) = bodyOf cs ++ bodyOf ds := by
  unfold bodyOf
  rw [Text.splitOn_append_sep, List.map_append, body_append]

/-- A slash at the end contributes nothing. -/
theorem bodyOf_append_of_endsWith {cs : List Char} (h : cs.getLast? = some '/') (ds : List Char) :
    bodyOf (cs ++ ds) = bodyOf cs ++ bodyOf ds := by
  obtain ⟨front, rfl⟩ := List.getLast?_eq_some_iff.1 h
  have hnil : bodyOf [] = [] := by decide
  rw [List.append_assoc, List.singleton_append, bodyOf_append_slash, bodyOf_append_slash, hnil,
    List.append_nil]

/-- What the segments of a joined path contribute, back-slashes read as slashes. -/
theorem bodyOf_join {base p : Path} (h : p.isAbsolute = false) :
    bodyOf (slashes (base.join p).text.toList) =
      bodyOf (slashes base.text.toList) ++ bodyOf (slashes p.text.toList) := by
  unfold join
  rw [h, if_neg Bool.false_ne_true]
  by_cases hempty : base.text = ""
  · have hnil : bodyOf (slashes []) = [] := by decide
    simp [hempty, hnil]
  by_cases hlast : base.text.toList.getLast? = some '/'
  · have hend : (slashes base.text.toList).getLast? = some '/' := by
      simp [slashes, hlast]
    rw [if_pos (by simp [hlast]), String.toList_append, slashes, List.map_append]
    exact bodyOf_append_of_endsWith hend _
  · rw [if_neg (by simp [hempty, hlast])]
    simpa [slashes] using bodyOf_append_slash (slashes base.text.toList) (slashes p.text.toList)

theorem isAbsolute_normalizeSeparators_join {base p : Path}
    (h : p.normalizeSeparators.isAbsolute = false) (hp : p.isAbsolute = false) :
    (base.join p).normalizeSeparators.isAbsolute = base.normalizeSeparators.isAbsolute := by
  unfold join
  rw [hp, if_neg Bool.false_ne_true]
  unfold isAbsolute at h ⊢
  simp only [toList_normalizeSeparators, slashes] at h ⊢
  cases hb : base.text.toList with
  | nil =>
    have hempty : base.text = "" := String.toList_eq_nil_iff.1 hb
    simpa [hempty] using h
  | cons c cs => split <;> simp [hb]

/-- **A joined path** has the normal form of what is joined, taken from the base on. -/
theorem normal_join {base p : Path} (h : p.normal.absolute = false) :
    (base.join p).normal = base.normal.append p.normal := by
  have hslash : p.normalizeSeparators.isAbsolute = false := by rwa [normal_absolute] at h
  have hp : p.isAbsolute = false :=
    Bool.eq_false_iff.2 fun ha => Bool.eq_false_iff.1 h (normal_absolute_of_isAbsolute ha)
  have hbody : ∀ q : Path, q.normal = (bodyOf (slashes q.text.toList)).foldl Normal.step
      ⟨q.normalizeSeparators.isAbsolute, 0, []⟩ := by
    intro q
    rw [normal_eq_foldl_body, ← toList_normalizeSeparators]
    rfl
  have hcs : p.normal = Normal.ofComponents (bodyOf (slashes p.text.toList)) := by
    rw [hbody p, hslash]
    rfl
  unfold Normal.append
  rw [h, if_neg Bool.false_ne_true, hcs, Normal.foldl_step_steps (root_not_mem_bodyOf _),
    hbody (base.join p), bodyOf_join hp, isAbsolute_normalizeSeparators_join hslash hp,
    List.foldl_append, ← hbody base]

/-- **A path resolved against a base** has its own normal form taken from that of the base on. -/
theorem normal_resolveAgainst (base p : Path) :
    (base.resolveAgainst p).normal = base.normal.append p.normal := by
  unfold resolveAgainst
  dsimp only
  split
  · next ha =>
    rw [normal_normalize_eq, normal_normalizeSeparators, Normal.append, if_pos]
    rwa [normal_absolute]
  · next ha =>
    have hrel : p.normalizeSeparators.normal.absolute = false := by
      rw [normal_normalizeSeparators, normal_absolute]
      exact Bool.eq_false_iff.2 ha
    rw [normal_normalize_eq, normal_join hrel, normal_normalizeSeparators]

/-- What is resolved against a base is in normal form. -/
theorem normalize_resolveAgainst (base p : Path) :
    (base.resolveAgainst p).normalize = base.resolveAgainst p := by
  unfold resolveAgainst
  dsimp only
  split <;> exact normalize_normalize _

theorem plain_text {c : Component} (hroot : c ≠ .root) (hname : ∀ s, c = .name s → IsPlain s) :
    c.text ≠ "" ∧ '/' ∉ c.text.toList ∧ '\\' ∉ c.text.toList := by
  cases c with
  | root => exact absurd rfl hroot
  | here => decide
  | up => decide
  | name s =>
    have hs := hname s rfl
    exact ⟨hs.1.1, hs.1.2.2.2, hs.2⟩

/-- Replayed, a component does what its text contributes: a dot contributes nothing. -/
theorem foldl_body_text {cs : List Component} (hroot : .root ∉ cs)
    (hname : ∀ s, .name s ∈ cs → IsName s) (n : Normal) :
    (body (cs.map Component.text)).foldl Normal.step n = cs.foldl Normal.step n := by
  induction cs generalizing n with
  | nil => rfl
  | cons c cs ih =>
    have ih := ih (fun h => hroot (.tail _ h)) fun s hs => hname s (.tail _ hs)
    unfold body at ih ⊢
    rw [List.map_cons, List.foldl_cons, ← ih]
    cases c with
    | root => exact absurd (.head _) hroot
    | here => rfl
    | up => rfl
    | name s =>
      have hs : IsStep (.name s) := hname s (.head _)
      rw [List.filterMap_cons_some hs.ofSegment?_text]
      rfl

/-- **Components are read back** from the path that goes through them: its normal form is what they
replay to. -/
theorem normal_ofComponents {cs : List Component} (hroot : .root ∉ cs)
    (hname : ∀ s, .name s ∈ cs → IsPlain s) :
    (ofComponents cs).normal = Normal.ofComponents cs := by
  have htext : ∀ c ∈ cs, c.text ≠ "" ∧ '/' ∉ c.text.toList ∧ '\\' ∉ c.text.toList := fun c hc =>
    plain_text (fun h => hroot (h ▸ hc)) fun s hs => hname s (hs ▸ hc)
  have htexts : ∀ s ∈ cs.map Component.text, s ≠ "" ∧ '/' ∉ s.toList ∧ '\\' ∉ s.toList := by
    intro s hs
    obtain ⟨c, hc, rfl⟩ := List.mem_map.1 hs
    exact htext c hc
  rw [ofComponents_eq fun c hc => ⟨(htext c hc).1, (htext c hc).2.1⟩, normal_eq_foldl_body,
    normalizeSeparators_of_not_mem
      (not_mem_ofSegments (by decide) fun s hs => (htexts s hs).2.2)]
  cases cs with
  | nil => decide
  | cons c cs =>
    have ha : (ofSegments ((c :: cs).map Component.text)).isAbsolute = false := by
      have hc := htext c (.head _)
      rw [List.map_cons, isAbsolute_ofSegments_cons _ _ hc.2.1]
      simp [hc.1]
    rw [ha, segments_ofSegments (by simp) fun s hs => (htexts s hs).2.1,
      foldl_body_text hroot fun s hs => (hname s hs).1]
    rfl

/-! ## Inside a directory -/

/-- What leads somewhere goes up and through components of the target. -/
theorem mem_of_difference {begun : Bool} {target start cs : List Component}
    (h : difference begun target start = some cs) {c : Component} (hc : c ∈ cs) :
    c = .up ∨ c ∈ target := by
  fun_induction difference begun target start generalizing cs with
  | case1 begun target => exact .inr (Option.some.inj h ▸ hc)
  | case2 begun s start ih =>
    obtain ⟨rest, hr, rfl⟩ := Option.map_eq_some_iff.1 h
    rcases List.mem_cons.1 hc with rfl | hc
    · exact .inl rfl
    · exact ih hr hc
  | case3 begun t target s start _ ih => exact (ih h hc).imp_right (.tail _)
  | case4 begun t target start _ ih =>
    obtain ⟨rest, hr, rfl⟩ := Option.map_eq_some_iff.1 h
    rcases List.mem_cons.1 hc with rfl | hc
    · exact .inr (.head _)
    · exact (ih hr hc).imp_right (.tail _)
  | case5 => cases h
  | case6 begun t target s start =>
    obtain rfl := Option.some.inj h
    simp only [List.cons_append, List.mem_cons, List.mem_append, List.mem_map] at hc
    rcases hc with rfl | ⟨-, -, rfl⟩ | hc
    · exact .inl rfl
    · exact .inl rfl
    · exact .inr (List.mem_cons.2 hc)

end Path

end BuildLayout
