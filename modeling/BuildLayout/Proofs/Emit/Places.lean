import BuildLayout.Proofs.Emit.Name
import BuildLayout.Proofs.Path.Relative

/-!
# Where sources and outputs lie

The two directions of a translator, as facts about the names of absolute paths:

* `Built`, `Settled`: a translator is built from directories; over an absolute base all of them are
  absolute and in normal form.
* `LiesAt`, `outputOf_eq_ok_iff`: a source lies below the first root above it, and its outputs lie
  in the same way below the output directories, if its name is text.
* `FoundAt`, `mem_inputsOf_iff`: an output is found below the first output directory that it is
  within, and its candidates lie in the same way below every root.
-/

namespace BuildLayout

open Disk (pathOf)

/-- The directory is strictly above the place. -/
def Disk.Above (dir place : Location) : Prop :=
  dir <+: place ∧ dir ≠ place

instance (dir place : Location) : Decidable (Disk.Above dir place) :=
  inferInstanceAs (Decidable (dir <+: place ∧ dir ≠ place))

theorem Disk.above_append {dir rest : Location} (h : rest ≠ []) : Disk.Above dir (dir ++ rest) :=
  ⟨List.prefix_append dir rest, by simpa using h.symm⟩

/-- The first member of a list for which something holds. -/
def IsFirst {α : Type} (p : α → Prop) (l : List α) (a : α) : Prop :=
  p a ∧ ∃ before after, l = before ++ a :: after ∧ ∀ b ∈ before, ¬ p b

theorem isFirst_iff {α : Type} {p : α → Prop} [DecidablePred p] {l : List α} {a : α} :
    IsFirst p l a ↔ l.find? (p ·) = some a := by
  simp [IsFirst, List.find?_eq_some_iff_append]

theorem IsFirst.mem {α : Type} {p : α → Prop} {l : List α} {a : α} (h : IsFirst p l a) : a ∈ l := by
  obtain ⟨-, before, after, rfl, -⟩ := h
  simp

theorem IsFirst.exists_of_mem {α : Type} {p : α → Prop} [DecidablePred p] {l : List α} {a : α}
    (ha : a ∈ l) (h : p a) : ∃ b, IsFirst p l b := by
  have hsome : (l.find? (p ·)).isSome := List.find?_isSome.2 ⟨a, ha, decide_eq_true h⟩
  obtain ⟨b, hb⟩ := Option.isSome_iff_exists.1 hsome
  exact ⟨b, isFirst_iff.2 hb⟩

namespace Translator

/-! ## Translators that are built -/

section
variable (basePath outDir : Path) (ending : Option String) (emits : Bool)

@[simp] theorem make_basePath : (make basePath outDir ending emits).basePath = basePath.normalize :=
  rfl

@[simp] theorem make_outDir :
    (make basePath outDir ending emits).outDir = basePath.normalize.resolveAgainst outDir := by
  simp only [make]

@[simp] theorem make_declarationDir : (make basePath outDir ending emits).declarationDir = none :=
  rfl

end

section
variable (t : Translator) (dir : Path)

@[simp] theorem withDeclarationDir_basePath : (t.withDeclarationDir dir).basePath = t.basePath :=
  rfl

@[simp] theorem withDeclarationDir_declarationDir :
    (t.withDeclarationDir dir).declarationDir = some (t.basePath.resolveAgainst dir) := rfl

end

/-- The translators that are made for a build, with or without a directory of declarations. -/
inductive Built : Translator → Prop
  | make (basePath outDir : Path) (declarationEnding : Option String) (emitsDeclarations : Bool) :
      Built (.make basePath outDir declarationEnding emitsDeclarations)
  | withDeclarationDir {t : Translator} (h : Built t) (dir : Path) :
      Built (t.withDeclarationDir dir)

/-- The base is absolute, and the output directories are so in normal form. -/
structure Settled (t : Translator) : Prop where
  base : t.basePath.isAbsolute
  outDir : t.outDir.IsSettled
  declarationDir : ∀ dir ∈ t.declarationDir, dir.IsSettled

theorem Built.settled {t : Translator} (h : Built t) (hb : t.basePath.isAbsolute) : Settled t := by
  induction h with
  | make basePath outDir ending emits =>
    refine ⟨hb, ?_, ?_⟩
    · rw [make_basePath] at hb
      rw [make_outDir]
      exact Path.isSettled_resolveAgainst hb outDir
    · rw [make_declarationDir]
      exact nofun
  | @withDeclarationDir t h dir ih =>
    rw [withDeclarationDir_basePath] at hb
    refine ⟨hb, (ih hb).outDir, fun dir' hdir => ?_⟩
    rw [withDeclarationDir_declarationDir] at hdir
    rw [← Option.some.inj hdir]
    exact Path.isSettled_resolveAgainst hb dir

/-- The directory below which declarations are written. -/
def declarationsIn (t : Translator) : Path :=
  t.declarationDir.getD t.outDir

theorem Settled.declarationsIn {t : Translator} (h : Settled t) : t.declarationsIn.IsSettled := by
  unfold Translator.declarationsIn
  cases hd : t.declarationDir with
  | none => exact h.outDir
  | some dir => exact h.declarationDir dir hd

/-- The directory that a root stands for. -/
def rootDir (t : Translator) (root : Path) : Location :=
  (t.basePath.resolveAgainst root).normal.names

/-- The directories that the roots stand for, in their order. -/
def rootDirs (t : Translator) (roots : SourceRoots) : List Location :=
  roots.paths.map t.rootDir

theorem isPlain_of_mem_rootDirs {t : Translator} {roots : SourceRoots} {root : Location}
    (h : root ∈ t.rootDirs roots) : ∀ s ∈ root, Path.IsPlain s := by
  obtain ⟨r, -, rfl⟩ := List.mem_map.1 h
  exact Path.normal_plain _

/-! ## Sources -/

/-- The source has a name in the directory `dir` below `root`, the first of the roots above it. -/
structure LiesAt (t : Translator) (roots : SourceRoots) (file : Path) (root dir : Location)
    (name : String) : Prop where
  absolute : file.normal.absolute
  names : file.normal.names = root ++ dir ++ [name]
  first : IsFirst (Disk.Above · file.normal.names) (t.rootDirs roots) root

section
variable {t : Translator} {roots : SourceRoots} {file : Path} {root dir : Location}
  {name : String} (h : t.LiesAt roots file root dir name)
include h

theorem LiesAt.plain : ∀ s ∈ root ++ dir ++ [name], Path.IsPlain s :=
  h.names ▸ Path.normal_plain file

theorem LiesAt.normalize : file.normalize = pathOf (root ++ dir ++ [name]) := by
  rw [Path.normalize_of_absolute h.absolute, h.names]

theorem LiesAt.fileName? : file.normalize.fileName? = some name := by
  rw [h.normalize, Path.fileName?_pathOf_concat fun s hs => (h.plain s hs).1]

end

/-- What is emitted for a name in a directory. -/
def outputsIn (t : Translator) (dir : Location) (name : String) : OutputPaths where
  implementation := pathOf (t.outDir.normal.names ++ dir ++ [Emit.implementationName name])
  declaration :=
    if t.emitsDeclarations then
      (Emit.declarationName? t.declarationEnding name).map fun emitted =>
        pathOf (t.declarationsIn.normal.names ++ dir ++ [emitted])
    else none

theorem outputsIn_implementation (t : Translator) (dir : Location) (name : String) :
    (t.outputsIn dir name).implementation =
      pathOf (t.outDir.normal.names ++ dir ++ [Emit.implementationName name]) := by
  simp only [outputsIn]

theorem outputsIn_declaration (t : Translator) (dir : Location) (name : String) :
    (t.outputsIn dir name).declaration =
      if t.emitsDeclarations then
        (Emit.declarationName? t.declarationEnding name).map fun emitted =>
          pathOf (t.declarationsIn.normal.names ++ dir ++ [emitted])
      else none := by
  simp only [outputsIn]

/-- A search that answers where a condition holds is a search for the condition. -/
theorem findSome?_eq_map_find? {α β : Type} {l : List α} {g : α → Option β} (p : α → Prop)
    [DecidablePred p] (f : α → β) (h : ∀ a ∈ l, g a = if p a then some (f a) else none) :
    l.findSome? g = (l.find? (p ·)).map f := by
  induction l with
  | nil => rfl
  | cons a l ih =>
    rw [List.findSome?_cons, List.find?_cons, h a (.head _), ih fun b hb => h b (.tail _ hb)]
    by_cases ha : p a <;> simp [ha]

theorem below?_eq {root file : Path} (hr : root.normal.absolute) (hf : file.normal.absolute) :
    below? root file =
      if Disk.Above root.normal.names file.normal.names then
        some (Path.ofSegments (file.normal.names.drop root.normal.names.length))
      else none := by
  have hfilter : below? root file =
      ((Path.relativeTo? root file).filter fun r => !r.isParentRelative).filter
        fun r => !r.text.isEmpty := by
    unfold below?
    cases Path.relativeTo? root file with
    | none => rfl
    | some r =>
      cases hup : r.isParentRelative <;> cases hempty : r.text.isEmpty <;>
        simp [Option.filter, hup, hempty]
  rw [hfilter, Path.filter_relativeTo? hr hf]
  unfold Disk.Above
  by_cases hpre : root.normal.names <+: file.normal.names
  · obtain ⟨rest, he⟩ := hpre
    have hrest : ∀ s ∈ rest, Path.IsName s := fun s hs =>
      Path.isName_normal file s (by simp [← he, hs])
    rw [← he, List.drop_left]
    by_cases hnil : rest = []
    · simp [hnil, Option.filter, Path.ofSegments, Text.joinWith]
    · simp [hnil, Option.filter, Path.text_ofSegments_eq_empty_iff hrest]
  · simp [hpre]

theorem below?_of_relative {root file : Path} (hr : root.normal.absolute)
    (hf : file.normal.absolute = false) : below? root file = none := by
  unfold below?
  rw [Path.relativeTo?_of_relative hr hf]

theorem isAbsolute_append {stem ending : String} (h : Path.IsName (stem ++ ending))
    (hne : stem ≠ "") (other : String) : Path.isAbsolute ⟨stem ++ other⟩ = false := by
  have ha := Path.isAbsolute_of_isName h
  unfold Path.isAbsolute at ha ⊢
  rw [String.toList_append] at ha ⊢
  cases hs : stem.toList with
  | nil => exact absurd (String.toList_eq_nil_iff.1 hs) hne
  | cons c cs => simpa [hs] using ha

theorem directoryOf_ofSegments {dir : Location} {name : String}
    (h : ∀ s ∈ dir ++ [name], Path.IsName s) :
    directoryOf (Path.ofSegments (dir ++ [name])) = Path.ofSegments dir := by
  unfold directoryOf
  rw [Path.parent?_ofSegments_concat h]
  rfl

theorem outputsAt_of_not_compiled {t : Translator} {name : String} (h : ¬ Emit.IsCompiled name)
    (relative : Path) : t.outputsAt relative name = ⟨t.outDir.join relative, none⟩ := by
  unfold outputsAt
  split
  · next stem rule hrole => exact absurd ⟨stem, rule, hrole⟩ h
  · rfl
  · rfl

section
variable {t : Translator} (ht : t.Settled)
include ht

theorem absolute_resolveAgainst (root : Path) :
    (t.basePath.resolveAgainst root).normal.absolute :=
  Path.normal_absolute_of_isAbsolute (Path.isSettled_resolveAgainst ht.base root).isAbsolute

/-- **The matching root** is the first above the file. -/
theorem matchingRoot?_eq {file : Path} (hf : file.normal.absolute) (roots : SourceRoots) :
    t.matchingRoot? roots file =
      ((t.rootDirs roots).find? (Disk.Above · file.normal.names)).map fun root =>
        (pathOf root, Path.ofSegments (file.normal.names.drop root.length)) := by
  have hmatch : ∀ root ∈ roots.paths,
      ((below? (t.basePath.resolveAgainst root) file).map fun relative =>
        (t.basePath.resolveAgainst root, relative)) =
      if Disk.Above (t.rootDir root) file.normal.names then
        some (pathOf (t.rootDir root),
          Path.ofSegments (file.normal.names.drop (t.rootDir root).length))
      else none := by
    intro root _
    have hsettled : pathOf (t.rootDir root) = t.basePath.resolveAgainst root :=
      Path.isSettled_resolveAgainst ht.base root
    rw [below?_eq (absolute_resolveAgainst ht root) hf, hsettled]
    unfold rootDir
    split <;> rfl
  unfold matchingRoot? rootDirs
  rw [findSome?_eq_map_find? _ _ hmatch, List.find?_map, Option.map_map]
  simp only [Function.comp_def]

theorem matchingRoot?_of_relative {file : Path} (hf : file.normal.absolute = false)
    (roots : SourceRoots) : t.matchingRoot? roots file = none := by
  unfold matchingRoot?
  rw [List.findSome?_eq_none_iff]
  intro root _
  simp only [below?_of_relative (absolute_resolveAgainst ht root) hf, Option.map_none]

/-- **What is emitted for a file** by what leads to it. -/
theorem outputsAt_eq {dir : Location} {name : String}
    (h : ∀ s ∈ dir ++ [name], Path.IsName s) :
    t.outputsAt (Path.ofSegments (dir ++ [name])) name = t.outputsIn dir name := by
  have hnames : ∀ s ∈ dir, Path.IsName s := fun s hs => h s (List.mem_append_left _ hs)
  have hname : Path.IsName name := h name (by simp)
  have hcopy : t.outDir.join (Path.ofSegments (dir ++ [name])) =
      pathOf (t.outDir.normal.names ++ dir ++ [name]) := by
    rw [List.append_assoc, ← Path.join_pathOf (Path.isName_normal t.outDir) (by simp)
      (Path.isAbsolute_ofSegments h), ht.outDir]
  unfold outputsIn
  by_cases hc : Emit.IsCompiled name
  · obtain ⟨stem, rule, hrole⟩ := hc
    obtain ⟨-, hne, -, hn⟩ := Emit.roleOf_eq_code_iff.1 hrole
    have hrel : ∀ other, Path.isAbsolute ⟨stem ++ other⟩ = false :=
      isAbsolute_append (hn ▸ hname) hne
    unfold outputsAt
    simp only [hrole, directoryOf_ofSegments h, Emit.implementationName_of_code hrole,
      Emit.declarationName?_of_code _ hrole, ht.outDir.child_join hnames (hrel _), Option.map_some]
    rw [← ht.declarationsIn.child_join hnames (hrel _)]
    rfl
  · rw [outputsAt_of_not_compiled hc, Emit.implementationName_of_not_compiled hc,
      Emit.declarationName?_of_not_compiled _ hc, hcopy]
    simp

/-- **A source that lies below a root** has its outputs in the same way below the output
directories, and is refused if its name is no text. -/
theorem outputOf_of_liesAt {roots : SourceRoots} {file : Path} {root dir : Location}
    {name : String} (h : t.LiesAt roots file root dir name) :
    t.outputOf roots file =
      if Text.isText name then .ok (t.outputsIn dir name)
      else .error (.noMatchingRoot file.normalize) := by
  have hnames : ∀ s ∈ dir ++ [name], Path.IsName s := by
    intro s hs
    refine (h.plain s ?_).1
    rw [List.append_assoc]
    exact List.mem_append_right _ hs
  unfold outputOf
  rw [matchingRoot?_eq ht h.absolute, isFirst_iff.1 h.first, h.names, List.append_assoc]
  simp only [Option.map_some, List.drop_left, Path.textName?_ofSegments_concat hnames]
  cases Text.isText name with
  | false => rfl
  | true => exact congrArg _ (outputsAt_eq ht hnames)

/-- **A source root holds a file** exactly when the file lies below one. -/
theorem isSome_matchingRoot?_iff {roots : SourceRoots} {file : Path} :
    (t.matchingRoot? roots file).isSome ↔ ∃ root dir name, t.LiesAt roots file root dir name := by
  cases hf : file.normal.absolute with
  | false =>
    rw [matchingRoot?_of_relative ht hf]
    refine iff_of_false nofun ?_
    rintro ⟨root, dir, name, hlies⟩
    exact absurd hlies.absolute (by simp [hf])
  | true =>
    rw [matchingRoot?_eq ht hf, Option.isSome_map]
    constructor
    · intro h
      obtain ⟨root, hfirst⟩ := Option.isSome_iff_exists.1 h
      obtain ⟨⟨rest, he⟩, hne⟩ := (isFirst_iff.2 hfirst).1
      cases rest using List.reverseRecOn with
      | nil => exact absurd (by simpa using he) hne
      | append_singleton dir name =>
        exact ⟨root, dir, name, hf, by rw [← he, List.append_assoc], isFirst_iff.2 hfirst⟩
    · rintro ⟨root, dir, name, hlies⟩
      rw [isFirst_iff.1 hlies.first]
      rfl

/-- **Where the outputs of a source lie**. -/
theorem outputOf_eq_ok_iff {roots : SourceRoots} {file : Path} {outputs : OutputPaths} :
    t.outputOf roots file = .ok outputs ↔ ∃ root dir name,
      t.LiesAt roots file root dir name ∧ Text.isText name ∧ outputs = t.outputsIn dir name := by
  constructor
  · intro h
    have hsome : (t.matchingRoot? roots file).isSome := by
      unfold outputOf at h
      split at h
      · cases h
      · next hm => rw [hm]; rfl
    obtain ⟨root, dir, name, hlies⟩ := (isSome_matchingRoot?_iff ht).1 hsome
    rw [outputOf_of_liesAt ht hlies] at h
    split at h
    · next htext => exact ⟨root, dir, name, hlies, htext, (Except.ok.inj h).symm⟩
    · cases h
  · rintro ⟨root, dir, name, hlies, htext, rfl⟩
    rw [outputOf_of_liesAt ht hlies, if_pos htext]

end

/-! ## Outputs -/

/-- The directories below which outputs are written, in the order in which they are tried. -/
def outputDirs (t : Translator) : List Location :=
  (t.outDir :: t.declarationDir.toList).map (·.normal.names)

/-- The output has a name in the directory `dir` below `base`, the first of the output directories
that it is within. The name is text: an output with another one comes of no source. -/
structure FoundAt (t : Translator) (output : Path) (base dir : Location) (name : String) :
    Prop where
  absolute : output.normal.absolute
  names : output.normal.names = base ++ dir ++ [name]
  text : Text.isText name
  first : IsFirst (· <+: output.normal.names) t.outputDirs base

theorem FoundAt.plain {t : Translator} {output : Path} {base dir : Location} {name : String}
    (h : t.FoundAt output base dir name) : ∀ s ∈ base ++ dir ++ [name], Path.IsPlain s :=
  h.names ▸ Path.normal_plain output

section
variable {t : Translator} (ht : t.Settled)
include ht

theorem isSettled_of_mem {dir : Path} (h : dir ∈ t.outDir :: t.declarationDir.toList) :
    dir.IsSettled := by
  rcases List.mem_cons.1 h with rfl | h
  · exact ht.outDir
  · exact ht.declarationDir dir (Option.mem_toList.1 h)

theorem outputBelow?_eq {output : Path} (ho : output.normal.absolute) :
    t.outputBelow? output =
      (t.outputDirs.find? (· <+: output.normal.names)).map fun base =>
        Path.ofSegments (output.normal.names.drop base.length) := by
  have hwithin : ∀ dir ∈ t.outDir :: t.declarationDir.toList,
      ((Path.relativeTo? dir output).filter fun relative => !relative.isParentRelative) =
        if dir.normal.names <+: output.normal.names then
          some (Path.ofSegments (output.normal.names.drop dir.normal.names.length))
        else none := by
    intro dir hdir
    exact Path.filter_relativeTo? (isSettled_of_mem ht hdir).absolute ho
  unfold outputBelow? outputDirs
  rw [findSome?_eq_map_find? _ _ hwithin, List.find?_map, Option.map_map]
  simp only [Function.comp_def]

theorem outputBelow?_of_relative {output : Path} (ho : output.normal.absolute = false) :
    t.outputBelow? output = none := by
  unfold outputBelow?
  rw [List.findSome?_eq_none_iff]
  intro dir hdir
  rw [Path.relativeTo?_of_relative (isSettled_of_mem ht hdir).absolute ho, Option.filter_none]

/-- The candidates of an output, by what leads to it. -/
theorem mem_inputsOf_of_below {roots : SourceRoots} {output candidate : Path} {dir : Location}
    {name : String} (h : ∀ s ∈ dir ++ [name], Path.IsPlain s) (htext : Text.isText name)
    (hb : t.outputBelow? output = some (Path.ofSegments (dir ++ [name]))) :
    candidate ∈ t.inputsOf roots output ↔
      ∃ source ∈ sourceNames name, ∃ root ∈ t.rootDirs roots,
        candidate = pathOf (root ++ dir ++ [source]) := by
  have hnames : ∀ s ∈ dir ++ [name], Path.IsName s := fun s hs => (h s hs).1
  have hdir : ∀ s ∈ dir, Path.IsName s := fun s hs => hnames s (List.mem_append_left _ hs)
  have hchild : ∀ root : Path, ∀ source ∈ sourceNames name,
      ((t.basePath.resolveAgainst root).join (Path.ofSegments dir)).child source =
        pathOf (t.rootDir root ++ dir ++ [source]) := by
    intro root source hs
    have hplain := Emit.isPlain_of_mem_sourceNames (h name (by simp)) hs
    exact (Path.isSettled_resolveAgainst ht.base root).child_join hdir
      (Path.isAbsolute_of_isName hplain.1)
  unfold inputsOf
  rw [hb]
  simp only [Path.textName?_ofSegments_concat hnames, htext, if_true, directoryOf_ofSegments hnames,
    List.mem_flatMap, List.mem_map, rootDirs, exists_exists_and_eq_and]
  constructor
  · rintro ⟨root, hr, source, hs, he⟩
    exact ⟨source, hs, root, hr, he.symm.trans (hchild root source hs)⟩
  · rintro ⟨source, hs, root, hr, he⟩
    exact ⟨root, hr, source, hs, (hchild root source hs).trans he.symm⟩

/-- **Where the candidates of an output lie**: below every root as the output lies below its
directory. -/
theorem mem_inputsOf_iff {roots : SourceRoots} {output candidate : Path} {base dir : Location}
    {name : String} (h : t.FoundAt output base dir name) :
    candidate ∈ t.inputsOf roots output ↔
      ∃ source ∈ sourceNames name, ∃ root ∈ t.rootDirs roots,
        candidate = pathOf (root ++ dir ++ [source]) := by
  have hplain : ∀ s ∈ dir ++ [name], Path.IsPlain s := by
    intro s hs
    refine h.plain s ?_
    rw [List.append_assoc]
    exact List.mem_append_right _ hs
  refine mem_inputsOf_of_below ht hplain h.text ?_
  rw [outputBelow?_eq ht h.absolute, isFirst_iff.1 h.first, Option.map_some, h.names,
    List.append_assoc, List.drop_left]

/-- Only an output that is found below an output directory has candidates. -/
theorem exists_foundAt {roots : SourceRoots} {output candidate : Path}
    (h : candidate ∈ t.inputsOf roots output) :
    ∃ base dir name, t.FoundAt output base dir name := by
  unfold inputsOf at h
  cases ho : output.normal.absolute with
  | false =>
    rw [outputBelow?_of_relative ht ho] at h
    exact absurd h List.not_mem_nil
  | true =>
    rw [outputBelow?_eq ht ho] at h
    cases hfirst : t.outputDirs.find? (· <+: output.normal.names) with
    | none =>
      rw [hfirst] at h
      exact absurd h List.not_mem_nil
    | some base =>
      obtain ⟨rest, he⟩ := (isFirst_iff.2 hfirst).1
      have hrest : ∀ s ∈ rest, Path.IsName s := fun s hs =>
        Path.isName_normal output s (by simp [← he, hs])
      rw [hfirst, Option.map_some, ← he, List.drop_left] at h
      cases rest using List.reverseRecOn with
      | nil =>
        -- the output is the directory itself, which has no name below it
        exact absurd h (by simp [Path.textName?_ofSegments_nil])
      | append_singleton dir name =>
        simp only [Path.textName?_ofSegments_concat hrest] at h
        cases htext : Text.isText name with
        | false => exact absurd h (by simp [htext])
        | true =>
          exact ⟨base, dir, name, ho, by rw [← he, List.append_assoc], htext, isFirst_iff.2 hfirst⟩

end

end Translator

end BuildLayout
