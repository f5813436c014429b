import BuildLayout.Config.Load
import BuildLayout.Proofs.Emit.Places

/-!
# From a source to its outputs and back

Whether a source is among the candidates of what is emitted for it:

* `normalize_mem_inputsOf_iff`: the candidates of an output that is found below an output directory
  are the files that lie below a root as the output lies below its directory.
* `mem_inputsOf_implementation`: a compiled source is always a candidate of its implementation.
* `mem_inputsOf_copy_iff`: a copied file is one of its copy exactly when nothing is emitted under
  names like its own.
* `mem_inputsOf_declaration_iff`: a compiled source is one of its declaration unless the output
  directory gets in the way, which is tried first and may contain the declaration too.
-/

namespace BuildLayout

open Disk (pathOf)

/-- The names of a place in a directory below another. -/
theorem Path.isPlain_append_concat {front dir : Location} {name : String}
    (hf : ∀ s ∈ front, IsPlain s) (hd : ∀ s ∈ dir, IsPlain s) (hn : IsPlain name) :
    ∀ s ∈ front ++ dir ++ [name], IsPlain s := by
  intro s hs
  rcases List.mem_append.1 hs with hs | hs
  · rcases List.mem_append.1 hs with hs | hs
    · exact hf s hs
    · exact hd s hs
  · obtain rfl := List.mem_singleton.1 hs
    exact hn

namespace Translator

section
variable {t : Translator} {roots : SourceRoots} {file : Path}

/-! ## Found outputs -/

theorem foundAt_outDir {output : Path} {dir : Location} {name : String}
    (ha : output.normal.absolute)
    (hn : output.normal.names = t.outDir.normal.names ++ dir ++ [name]) (htext : Text.isText name) :
    t.FoundAt output t.outDir.normal.names dir name := by
  have hpre : t.outDir.normal.names <+: output.normal.names := by
    rw [hn, List.append_assoc]
    exact List.prefix_append _ _
  exact ⟨ha, hn, htext, hpre, [], _, rfl, nofun⟩

/-- What lies below the directory of declarations and not in the output directory is found there. -/
theorem foundAt_declarationsIn {output : Path} {dir : Location} {name : String}
    (ha : output.normal.absolute)
    (hn : output.normal.names = t.declarationsIn.normal.names ++ dir ++ [name])
    (htext : Text.isText name) (hout : ¬ t.outDir.normal.names <+: output.normal.names) :
    t.FoundAt output t.declarationsIn.normal.names dir name := by
  have hpre : t.declarationsIn.normal.names <+: output.normal.names := by
    rw [hn, List.append_assoc]
    exact List.prefix_append _ _
  refine ⟨ha, hn, htext, hpre, [t.outDir.normal.names], [], ?_, by simpa using hout⟩
  unfold outputDirs declarationsIn at *
  cases hd : t.declarationDir with
  | none =>
    rw [hd] at hpre
    exact absurd hpre hout
  | some d => rfl

/-- Where the output directory contains an output, the output is found there. -/
theorem FoundAt.base_eq {output : Path} {base dir : Location} {name : String}
    (h : t.FoundAt output base dir name)
    (hout : t.outDir.normal.names <+: output.normal.names) : base = t.outDir.normal.names := by
  obtain ⟨-, before, after, hl, hbefore⟩ := h.first
  cases before with
  | nil => exact (List.cons.inj hl).1.symm
  | cons b before =>
    obtain ⟨rfl, -⟩ := List.cons.inj hl
    exact absurd hout (hbefore _ (.head _))

/-- What an output is put back to below a root has plain names. -/
theorem FoundAt.isPlain_candidate {output : Path} {base dir root : Location} {source name : String}
    (h : t.FoundAt output base dir name) (hr : root ∈ t.rootDirs roots)
    (hs : source ∈ sourceNames name) : ∀ s ∈ root ++ dir ++ [source], Path.IsPlain s :=
  Path.isPlain_append_concat (isPlain_of_mem_rootDirs hr) (fun s hs => h.plain s (by simp [hs]))
    (Emit.isPlain_of_mem_sourceNames (h.plain name (by simp)) hs)

section
variable (ht : t.Settled)
include ht

/-- **The candidates of an output** are the files that lie below a root as the output lies below its
directory, under a name that it may come from. -/
theorem normalize_mem_inputsOf_iff {output : Path} {base dir : Location} {name : String}
    (h : t.FoundAt output base dir name) (hf : file.normal.absolute) :
    file.normalize ∈ t.inputsOf roots output ↔
      ∃ source ∈ sourceNames name, ∃ root ∈ t.rootDirs roots,
        file.normal.names = root ++ dir ++ [source] := by
  rw [mem_inputsOf_iff ht h, Path.normalize_of_absolute hf]
  exact exists_congr fun source => and_congr_right fun hs => exists_congr fun root =>
    and_congr_right fun hr => Path.pathOf_inj (Path.normal_plain file) (h.isPlain_candidate hr hs)

/-- A source leads back from an output in the same place below an output directory exactly when its
name is one that the name of the output may come from. -/
theorem LiesAt.mem_inputsOf_iff {output : Path} {root base dir : Location} {source name : String}
    (hl : t.LiesAt roots file root dir source) (h : t.FoundAt output base dir name) :
    file.normalize ∈ t.inputsOf roots output ↔ source ∈ sourceNames name := by
  rw [normalize_mem_inputsOf_iff ht h hl.absolute, hl.names]
  constructor
  · rintro ⟨source', hs, root', -, he⟩
    rwa [List.append_singleton_inj.1 he |>.2]
  · intro hs
    exact ⟨source, hs, root, hl.first.mem, rfl⟩

end

/-- What is put in place of a source below another directory has plain names. -/
theorem LiesAt.isPlain_below {root dir : Location} {source name : String}
    (hl : t.LiesAt roots file root dir source) (base : Path) (hn : Path.IsPlain name) :
    ∀ s ∈ base.normal.names ++ dir ++ [name], Path.IsPlain s :=
  Path.isPlain_append_concat (Path.normal_plain base) (fun s hs => hl.plain s (by simp [hs])) hn

/-- The implementation of a source is found where it is written. -/
theorem LiesAt.foundAt_implementation {root dir : Location} {source : String}
    (hl : t.LiesAt roots file root dir source) (htext : Text.isText source) :
    t.FoundAt (pathOf (t.outDir.normal.names ++ dir ++ [Emit.implementationName source]))
      t.outDir.normal.names dir (Emit.implementationName source) := by
  have hnormal := Path.normal_pathOf (hl.isPlain_below t.outDir
    (Emit.isPlain_implementationName (hl.plain source (by simp))))
  exact foundAt_outDir (by rw [hnormal]) (by rw [hnormal])
    ((Emit.isText_implementationName source).trans htext)

/-! ## Implementations and copies -/

/-- **A copied file** is a candidate of its copy exactly when no source is emitted under a name that
ends as its own does. What becomes of a file is known of a name that is text. -/
theorem mem_inputsOf_copy_iff (hbuilt : t.Built) (hb : t.basePath.isAbsolute)
    (hroot : t.isInSourceRoot (some roots) file) {name : String}
    (hn : file.normalize.textName? = some name)
    (hr : Emit.roleOf name = .declaration ∨ Emit.roleOf name = .asset) :
    ∃ outputs, t.outputOf roots file = .ok outputs ∧
      outputs.implementation.fileName? = some name ∧ outputs.declaration = none ∧
      (file.normalize ∈ t.inputsOf roots outputs.implementation ↔ ¬ Emit.IsEmitted name) := by
  have ht := hbuilt.settled hb
  obtain ⟨root, dir, source, hl⟩ := (isSome_matchingRoot?_iff ht).1 hroot
  obtain ⟨htext, rfl⟩ : Text.isText source ∧ source = name := by
    simpa [Path.textName?, hl.fileName?, Option.filter_some] using hn
  have hc : ¬ Emit.IsCompiled source := by
    rintro ⟨stem, rule, hcode⟩
    rcases hr with hr | hr <;> rw [hr] at hcode <;> cases hcode
  have himpl := Emit.implementationName_of_not_compiled hc
  refine ⟨t.outputsIn dir source, (outputOf_of_liesAt ht hl).trans (if_pos htext), ?_, ?_, ?_⟩
  · have hplain := hl.isPlain_below t.outDir (hl.plain source (by simp))
    rw [outputsIn_implementation, himpl, Path.fileName?_pathOf_concat fun s hs => (hplain s hs).1]
  · rw [outputsIn_declaration, Emit.declarationName?_of_not_compiled _ hc]
    simp
  · rw [outputsIn_implementation, hl.mem_inputsOf_iff ht (hl.foundAt_implementation htext), himpl,
      Emit.isEmitted_iff, not_not]

/-- The declaration of a style sheet is copied and leads back. -/
theorem mem_inputsOf_copy_iff_foreignDeclaration :
    let t := make ⟨"/w"⟩ ⟨"out"⟩ none true
    let roots : SourceRoots := ⟨[⟨"src"⟩], by simp⟩
    let file : Path := ⟨"/w/src/styles.d.css.ts"⟩
    t.outputOf roots file = .ok ⟨⟨"/w/out/styles.d.css.ts"⟩, none⟩ ∧
      file.normalize ∈ t.inputsOf roots ⟨"/w/out/styles.d.css.ts"⟩ := by
  intro t roots file
  have ho : t.outputOf roots file = .ok ⟨⟨"/w/out/styles.d.css.ts"⟩, none⟩ := by decide +kernel
  have hroot : t.isInSourceRoot (some roots) file := by decide +kernel
  have hr : Emit.roleOf "styles.d.css.ts" = .declaration := by decide
  obtain ⟨outputs, ho', -, -, hiff⟩ :=
    mem_inputsOf_copy_iff (.make _ _ _ _) (by decide) hroot (by decide) (.inl hr)
  obtain rfl := Except.ok.inj (ho'.symm.trans ho)
  exact ⟨ho, hiff.2 (by decide)⟩

/-- **A copy that does not lead back**: a declaration written by hand ends as one that is emitted,
and only sources that are compiled are its candidates. -/
theorem not_mem_inputsOf_copy :
    let t := make ⟨"/w"⟩ ⟨"out"⟩ none true
    let roots : SourceRoots := ⟨[⟨"src"⟩], by simp⟩
    let file : Path := ⟨"/w/src/Foo.d.ts"⟩
    t.isInSourceRoot (some roots) file ∧ Emit.roleOf "Foo.d.ts" = .declaration ∧
      t.outputOf roots file = .ok ⟨⟨"/w/out/Foo.d.ts"⟩, none⟩ ∧
      t.inputsOf roots ⟨"/w/out/Foo.d.ts"⟩ = [⟨"/w/src/Foo.ts"⟩, ⟨"/w/src/Foo.tsx"⟩] ∧
      file.normalize ∉ t.inputsOf roots ⟨"/w/out/Foo.d.ts"⟩ := by
  decide +kernel

/-! ## Declarations -/

/-- The candidates of what the output directory contains. -/
theorem normalize_mem_inputsOf_iff_within (ht : t.Settled) {output : Path}
    (ha : output.normal.absolute) (hout : t.outDir.normal.names <+: output.normal.names)
    (hf : file.normal.absolute) :
    file.normalize ∈ t.inputsOf roots output ↔
      ∃ root ∈ t.rootDirs roots, ∃ dir source name, source ∈ sourceNames name ∧
        Text.isText name ∧ output.normal.names = t.outDir.normal.names ++ dir ++ [name] ∧
        file.normal.names = root ++ dir ++ [source] := by
  constructor
  · intro hm
    obtain ⟨base, dir, name, hfound⟩ := exists_foundAt ht hm
    obtain ⟨source, hs, root, hr, hnames⟩ := (normalize_mem_inputsOf_iff ht hfound hf).1 hm
    rw [← hfound.base_eq hout]
    exact ⟨root, hr, dir, source, name, hs, hfound.text, hfound.names, hnames⟩
  · rintro ⟨root, hr, dir, source, name, hs, htext, hname, hnames⟩
    exact (normalize_mem_inputsOf_iff ht (foundAt_outDir ha hname htext) hf).2
      ⟨source, hs, root, hr, hnames⟩

/-- **A source and the place of its declaration**: the source is a candidate unless the output
directory contains the declaration and puts it elsewhere. -/
theorem LiesAt.mem_inputsOf_iff_of_declaration (ht : t.Settled) {declaration : Path}
    {root dir : Location} {source name : String} (hl : t.LiesAt roots file root dir source)
    (ha : declaration.normal.absolute)
    (hnames : declaration.normal.names = t.declarationsIn.normal.names ++ dir ++ [name])
    (hs : source ∈ sourceNames name) (htext : Text.isText source) :
    file.normalize ∈ t.inputsOf roots declaration ↔
      (t.outDir.normal.names <+: declaration.normal.names →
        ∃ root ∈ t.rootDirs roots, ∃ dir source name,
          declaration.normal.names = t.outDir.normal.names ++ dir ++ [name] ∧
          file.normal.names = root ++ dir ++ [source]) := by
  have hname : Text.isText name := (Emit.isText_of_mem_sourceNames hs).symm.trans htext
  by_cases hout : t.outDir.normal.names <+: declaration.normal.names
  · rw [normalize_mem_inputsOf_iff_within ht ha hout hl.absolute]
    constructor
    · rintro ⟨root', hr, dir', source', name', -, -, hd, hf⟩ -
      exact ⟨root', hr, dir', source', name', hd, hf⟩
    · intro h
      obtain ⟨root', hr, dir', source', name', hd, hf⟩ := h hout
      obtain ⟨-, rfl⟩ := List.append_singleton_inj.1 (hnames.symm.trans hd)
      obtain ⟨-, rfl⟩ := List.append_singleton_inj.1 (hl.names.symm.trans hf)
      exact ⟨root', hr, dir', source, name, hs, hname, hd, hf⟩
  · rw [hl.mem_inputsOf_iff ht (foundAt_declarationsIn ha hnames hname hout)]
    exact iff_of_true hs fun h => absurd h hout

/-- Neither of two unrelated directories contains what lies in the other. -/
theorem not_prefix_of_unrelated {a b rest : Location} (hab : ¬ a <+: b) (hba : ¬ b <+: a) :
    ¬ a <+: b ++ rest := by
  intro h
  rcases List.prefix_or_prefix_of_prefix h (List.prefix_append b rest) with h | h
  · exact hab h
  · exact hba h

end

end Translator

namespace Configuration

section
variable (c : Configuration) (outDir : Path)

theorem built_translatorInto : (c.translatorInto outDir).Built := by
  unfold translatorInto
  cases c.declarationDir with
  | none => exact .make _ _ _ _
  | some dir => exact .withDeclarationDir (.make _ _ _ _) dir

theorem translatorInto_basePath : (c.translatorInto outDir).basePath = c.basePath.normalize := by
  unfold translatorInto
  cases c.declarationDir <;> rfl

theorem translatorInto_declarationEnding :
    (c.translatorInto outDir).declarationEnding = none := by
  unfold translatorInto
  cases c.declarationDir <;> rfl

end

/-- The translator of a configuration is built from its directories and has the declaration endings
of the table. -/
theorem built_of_translator {c : Configuration} {t : Translator} (h : c.translator = .ok t) :
    t.Built ∧ t.declarationEnding = none ∧ t.basePath = c.basePath.normalize := by
  unfold translator at h
  split at h
  · next outDir _ =>
    obtain rfl := Except.ok.inj h
    exact ⟨c.built_translatorInto outDir, c.translatorInto_declarationEnding outDir,
      c.translatorInto_basePath outDir⟩
  · cases h

/-- **A source and its declaration**. The source is a candidate of the declaration when the
directories of outputs and of declarations are the same or unrelated. In general it is one exactly
when the declaration is not inside the output directory, or lies there as the source lies below one
of the roots: the output directory is tried first, also where the declaration was written by way of
the other. -/
theorem mem_inputsOf_declaration_iff {c : Configuration} {t : Translator}
    (hc : c.translator = .ok t) (hb : c.basePath.isAbsolute) {roots : SourceRoots} {file : Path}
    {outputs : OutputPaths} (ho : t.outputOf roots file = .ok outputs) {declaration : Path}
    (hd : outputs.declaration = some declaration) :
    (t.declarationsIn = t.outDir ∨
        ¬ Path.isWithin t.outDir t.declarationsIn ∧ ¬ Path.isWithin t.declarationsIn t.outDir →
      file.normalize ∈ t.inputsOf roots declaration) ∧
    (file.normalize ∈ t.inputsOf roots declaration ↔
      (Path.isWithin t.outDir declaration →
        ∃ root ∈ t.rootDirs roots, ∃ dir source name,
          declaration.normal.names = t.outDir.normal.names ++ dir ++ [name] ∧
          file.normal.names = root ++ dir ++ [source])) := by
  obtain ⟨hbuilt, hending, hbase⟩ := built_of_translator hc
  have ht : t.Settled := hbuilt.settled
    (hbase ▸ (Path.isSettled_normalize (Path.normal_absolute_of_isAbsolute hb)).isAbsolute)
  obtain ⟨root, dir, source, hl, htext, he⟩ := (Translator.outputOf_eq_ok_iff ht).1 ho
  rw [he, Translator.outputsIn_declaration, hending] at hd
  obtain ⟨-, hd⟩ := Option.ite_none_right_eq_some.1 hd
  obtain ⟨name, hname, rfl⟩ := Option.map_eq_some_iff.1 hd
  have hnormal := Path.normal_pathOf (hl.isPlain_below t.declarationsIn
    (Emit.isPlain_declarationName? (hl.plain source (by simp)) hname))
  have hout := ht.outDir.absolute
  have hin := ht.declarationsIn.absolute
  have ha : (pathOf (t.declarationsIn.normal.names ++ dir ++ [name])).normal.absolute := by
    rw [hnormal]
  have hiff := hl.mem_inputsOf_iff_of_declaration ht ha (by rw [hnormal])
    (Emit.mem_sourceNames_of_declarationName? hname) htext
  rw [Path.isWithin_iff hout hin, Path.isWithin_iff hin hout, Path.isWithin_iff hout ha]
  refine ⟨fun h => hiff.2 fun hpre => ?_, hiff⟩
  rw [hnormal] at hpre ⊢
  rcases h with heq | ⟨hab, hba⟩
  · exact ⟨root, hl.first.mem, dir, source, name, by rw [heq], hl.names⟩
  · rw [List.append_assoc] at hpre
    exact absurd hpre (Translator.not_prefix_of_unrelated hab hba)

/-- A configuration with a directory of declarations beside the output directory `/w/out`, or inside
or around it. -/
def declaringIn (dir : Path) : Configuration where
  configFilePath := ⟨"/w/tsconfig.json"⟩
  rootDir := some ⟨"/w/src"⟩
  rootDirs := none
  outDir := some ⟨"/w/out"⟩
  declaration := true
  declarationDir := some dir
  sourceFiles := [⟨"/w/tsconfig.json"⟩]

/-- Beside the output directory. -/
theorem mem_inputsOf_declaration_iff_beside :
    let c := declaringIn ⟨"/w/types"⟩
    let t := c.translatorInto ⟨"/w/out"⟩
    let roots : SourceRoots := ⟨[⟨"/w/src"⟩], by simp⟩
    c.translator = .ok t ∧
      t.outputOf roots ⟨"/w/src/Foo.ts"⟩ = .ok ⟨⟨"/w/out/Foo.js"⟩, some ⟨"/w/types/Foo.d.ts"⟩⟩ ∧
      (⟨"/w/src/Foo.ts"⟩ : Path).normalize ∈ t.inputsOf roots ⟨"/w/types/Foo.d.ts"⟩ := by
  intro c t roots
  have ho : t.outputOf roots ⟨"/w/src/Foo.ts"⟩ =
      .ok ⟨⟨"/w/out/Foo.js"⟩, some ⟨"/w/types/Foo.d.ts"⟩⟩ := by
    decide +kernel
  refine ⟨rfl, ho, (mem_inputsOf_declaration_iff (c := c) rfl (by decide) ho rfl).1 (.inr ?_)⟩
  decide +kernel

/-- **A declaration that does not lead back**: it is written inside the output directory, which is
tried first and takes it for the declaration of a source in another place. -/
theorem not_mem_inputsOf_declaration :
    let c := declaringIn ⟨"/w/out/types"⟩
    let t := c.translatorInto ⟨"/w/out"⟩
    let roots : SourceRoots := ⟨[⟨"/w/src"⟩], by simp⟩
    c.translator = .ok t ∧ c.sourceRoots? = some roots ∧
      t.outputOf roots ⟨"/w/src/Foo.ts"⟩ =
        .ok ⟨⟨"/w/out/Foo.js"⟩, some ⟨"/w/out/types/Foo.d.ts"⟩⟩ ∧
      t.inputsOf roots ⟨"/w/out/types/Foo.d.ts"⟩ =
        [⟨"/w/src/types/Foo.ts"⟩, ⟨"/w/src/types/Foo.tsx"⟩] ∧
      (⟨"/w/src/Foo.ts"⟩ : Path).normalize ∉ t.inputsOf roots ⟨"/w/out/types/Foo.d.ts"⟩ := by
  intro c t roots
  refine ⟨rfl, ?_, ?_⟩
  · rfl
  · decide +kernel

end Configuration

end BuildLayout
