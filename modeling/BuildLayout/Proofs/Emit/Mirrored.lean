import BuildLayout.Proofs.Emit.Matching

/-!
# Outputs mirror sources

Below its directory an output lies as the source lies below its root, under a name that comes of the
name of the source:

* `Path.withName`: a path with another name at its end; of a path of names only the last one changes
  (`withName_ofSegments`).
* `Mirrors`, `outputsIn_mirrors`: the outputs of a source, taken from their directories, are the path
  of the source from its root with the names that its role gives them.
* `SharesOutput`, `eq_of_sharesOutput`, `stem_of_same_name`: two compiled sources below one root that
  share an output share directory and stem, and only their endings differ.
-/

namespace BuildLayout

open Disk (pathOf)
open BuildLayout.Path (IsName IsPlain)

namespace Path

/-- The path with another name in place of the last one. -/
def withName (p : Path) (name : String) : Path :=
  (Translator.directoryOf p).child name

/-! ## Names at the end of a relative path -/

section
variable {dir : Location} {name : String} (h : ∀ s ∈ dir, IsName s) (hn : IsName name)
include h hn

theorem child_ofSegments : (ofSegments dir).child name = ofSegments (dir ++ [name]) := by
  have ha : (ofSegments [name]).isAbsolute = false := by
    rw [ofSegments_singleton]
    exact isAbsolute_of_isName hn
  unfold child
  rw [← ofSegments_singleton]
  cases dir using List.reverseRecOn with
  | nil =>
    unfold join
    rw [ha]
    simp [ofSegments, Text.joinWith]
  | append_singleton front last =>
    have hlast := h last (by simp)
    exact join_ofSegments ⟨hlast.1, hlast.2.2.2⟩ (by simp) ha

/-- Only the last name of a path of names is replaced. -/
theorem withName_ofSegments {last : String} (hl : IsName last) :
    (ofSegments (dir ++ [last])).withName name = ofSegments (dir ++ [name]) := by
  have hlast : ∀ s ∈ dir ++ [last], IsName s := by
    intro s hs
    rcases List.mem_append.1 hs with hs | hs
    · exact h s hs
    · exact List.mem_singleton.1 hs ▸ hl
  unfold withName
  rw [Translator.directoryOf_ofSegments hlast, child_ofSegments h hn]

end

end Path

namespace Translator

/-! ## Outputs from their directories -/

section
variable {t : Translator} {roots : SourceRoots} {file : Path} {root dir : Location}
  {name : String} (hl : t.LiesAt roots file root dir name)
include hl

theorem LiesAt.isPlain_dir : (∀ s ∈ dir, IsPlain s) ∧ IsPlain name :=
  ⟨fun s hs => hl.plain s (by simp [hs]), hl.plain name (by simp)⟩

/-- The same names but for the last one. -/
theorem LiesAt.withName {emitted : String} (he : IsPlain emitted) :
    (Path.ofSegments (dir ++ [name])).withName emitted = Path.ofSegments (dir ++ [emitted]) :=
  Path.withName_ofSegments (fun s hs => (hl.isPlain_dir.1 s hs).1) he.1 hl.isPlain_dir.2.1

/-- The root that a source lies below is the one that matches it. -/
theorem LiesAt.matchingRoot?_eq (ht : t.Settled) :
    t.matchingRoot? roots file = some (pathOf root, Path.ofSegments (dir ++ [name])) := by
  rw [Translator.matchingRoot?_eq ht hl.absolute, isFirst_iff.1 hl.first, hl.names,
    List.append_assoc]
  simp only [Option.map_some, List.drop_left]

end

/-! ## The place of the outputs -/

/-- Only the endings `.ts` and `.tsx` lead to the same ending. -/
theorem source_of_same_ending {rule rule' : EmitRule} (hr : rule ∈ emitRules)
    (hr' : rule' ∈ emitRules)
    (h : rule.implementation = rule'.implementation ∨ rule.declaration = rule'.declaration) :
    rule = rule' ∨ rule.source = ".ts" ∧ rule'.source = ".tsx" ∨
      rule.source = ".tsx" ∧ rule'.source = ".ts" := by
  have htable : ∀ r ∈ emitRules, ∀ r' ∈ emitRules,
      r.implementation = r'.implementation ∨ r.declaration = r'.declaration →
      r = r' ∨ r.source = ".ts" ∧ r'.source = ".tsx" ∨ r.source = ".tsx" ∧ r'.source = ".ts" := by
    decide
  exact htable rule hr rule' hr' h

/-- Names emitted for two compiled names that are the same have one stem. -/
theorem stem_of_same_name {name name' stem stem' : String} {rule rule' : EmitRule}
    (hr : Emit.roleOf name = .code stem rule) (hr' : Emit.roleOf name' = .code stem' rule')
    (h : stem ++ rule.implementation = stem' ++ rule'.implementation ∨
      stem ++ rule.declaration = stem' ++ rule'.declaration) :
    stem = stem' ∧
      (rule.implementation = rule'.implementation ∨ rule.declaration = rule'.declaration) := by
  obtain ⟨-, -, hmem, -⟩ := Emit.roleOf_eq_code_iff.1 hr
  obtain ⟨-, -, hmem', -⟩ := Emit.roleOf_eq_code_iff.1 hr'
  rcases h with h | h
  · obtain ⟨hs, he⟩ := Emit.Emits.eq_of_append_eq (.inr rfl) hmem (.inr rfl) hmem' h
    exact ⟨hs, .inl he⟩
  · obtain ⟨hs, he⟩ := Emit.Emits.eq_of_append_eq (.inl rfl) hmem (.inl rfl) hmem' h
    exact ⟨hs, .inr he⟩

/-- Both have an implementation in the same place, or both a declaration. -/
def SharesOutput (outputs outputs' : OutputPaths) : Prop :=
  outputs.implementation.same outputs'.implementation ∨
    ∃ d ∈ outputs.declaration, ∃ d' ∈ outputs'.declaration, d.same d'

section
variable {t : Translator} {roots : SourceRoots} {file file' : Path} {root root' dir dir' : Location}
  {name name' : String} (hl : t.LiesAt roots file root dir name)
  (hl' : t.LiesAt roots file' root' dir' name')
include hl hl'

/-- Outputs of two sources in one place below a directory are in the same directory there, under the
same name. -/
theorem eq_of_same_below (base : Path) {emitted emitted' : String} (he : IsPlain emitted)
    (he' : IsPlain emitted')
    (h : (pathOf (base.normal.names ++ dir ++ [emitted])).same
      (pathOf (base.normal.names ++ dir' ++ [emitted']))) : dir = dir' ∧ emitted = emitted' := by
  have hnames := (Path.same_pathOf (fun s hs => (hl.isPlain_below base he s hs).1)
    (fun s hs => (hl'.isPlain_below base he' s hs).1)).1 h
  obtain ⟨hdir, hname⟩ := List.append_singleton_inj.1 hnames
  exact ⟨List.append_cancel_left hdir, hname⟩

/-- Two compiled sources that share an output lie in the same directory below their roots, and are
emitted under one name. -/
theorem eq_of_sharesOutput (hending : t.declarationEnding = none)
    {stem stem' : String} {rule rule' : EmitRule} (hr : Emit.roleOf name = .code stem rule)
    (hr' : Emit.roleOf name' = .code stem' rule')
    (h : SharesOutput (t.outputsIn dir name) (t.outputsIn dir' name')) :
    dir = dir' ∧ (stem ++ rule.implementation = stem' ++ rule'.implementation ∨
      stem ++ rule.declaration = stem' ++ rule'.declaration) := by
  have hplain := hl.isPlain_dir.2
  have hplain' := hl'.isPlain_dir.2
  rcases h with h | ⟨d, hd, d', hd', h⟩
  · rw [outputsIn_implementation, outputsIn_implementation, Emit.implementationName_of_code hr,
      Emit.implementationName_of_code hr'] at h
    obtain ⟨hdir, hname⟩ := eq_of_same_below hl hl' t.outDir
      ((Emit.pairs_of_code hr).1.isPlain hplain) ((Emit.pairs_of_code hr').1.isPlain hplain') h
    exact ⟨hdir, .inl hname⟩
  · rw [outputsIn_declaration, hending, Emit.declarationName?_of_code none hr] at hd
    rw [outputsIn_declaration, hending, Emit.declarationName?_of_code none hr'] at hd'
    obtain rfl := Option.some.inj (Option.ite_none_right_eq_some.1 hd).2
    obtain rfl := Option.some.inj (Option.ite_none_right_eq_some.1 hd').2
    obtain ⟨hdir, hname⟩ := eq_of_same_below hl hl' t.declarationsIn
      ((Emit.pairs_of_code hr).2.isPlain hplain) ((Emit.pairs_of_code hr').2.isPlain hplain') h
    exact ⟨hdir, .inr hname⟩

end

/-- **Two compiled sources that share an output** and a matching root are in the same directory and
have the same stem; one ends in `.ts` and the other in `.tsx`. -/
theorem outputOf_overwrites {t : Translator} (hbuilt : t.Built) (hb : t.basePath.isAbsolute)
    (hending : t.declarationEnding = none) {roots : SourceRoots}
    {file file' root relative relative' : Path} {name name' stem stem' : String}
    {rule rule' : EmitRule} {outputs outputs' : OutputPaths}
    (hne : file.normalize ≠ file'.normalize)
    (hm : t.matchingRoot? roots file = some (root, relative))
    (hm' : t.matchingRoot? roots file' = some (root, relative'))
    (hn : file.normalize.fileName? = some name) (hn' : file'.normalize.fileName? = some name')
    (hr : Emit.roleOf name = .code stem rule) (hr' : Emit.roleOf name' = .code stem' rule')
    (ho : t.outputOf roots file = .ok outputs) (ho' : t.outputOf roots file' = .ok outputs')
    (h : SharesOutput outputs outputs') :
    file.normalize.parent? = file'.normalize.parent? ∧ stem = stem' ∧
      (name = stem ++ ".ts" ∧ name' = stem ++ ".tsx" ∨
        name = stem ++ ".tsx" ∧ name' = stem ++ ".ts") := by
  have ht := hbuilt.settled hb
  obtain ⟨base, dir, source, hl, -, rfl⟩ := (outputOf_eq_ok_iff ht).1 ho
  obtain ⟨base', dir', source', hl', -, rfl⟩ := (outputOf_eq_ok_iff ht).1 ho'
  obtain rfl : source = name := Option.some.inj (hl.fileName?.symm.trans hn)
  obtain rfl : source' = name' := Option.some.inj (hl'.fileName?.symm.trans hn')
  obtain ⟨rfl, -⟩ := Prod.mk.inj (Option.some.inj (hm.symm.trans (hl.matchingRoot?_eq ht)))
  obtain ⟨hbase, -⟩ := Prod.mk.inj (Option.some.inj (hm'.symm.trans (hl'.matchingRoot?_eq ht)))
  obtain rfl : base = base' := (Path.pathOf_inj (isPlain_of_mem_rootDirs hl.first.mem)
    (isPlain_of_mem_rootDirs hl'.first.mem)).1 hbase
  obtain ⟨rfl, hemitted⟩ := eq_of_sharesOutput hl hl' hending hr hr' h
  obtain ⟨rfl, hending⟩ := stem_of_same_name hr hr' hemitted
  obtain ⟨-, -, hmem, hsource⟩ := Emit.roleOf_eq_code_iff.1 hr
  obtain ⟨-, -, hmem', hsource'⟩ := Emit.roleOf_eq_code_iff.1 hr'
  refine ⟨?_, rfl, ?_⟩
  · rw [hl.normalize, hl'.normalize,
      Path.parent?_pathOf_concat fun s hs => (hl.plain s hs).1,
      Path.parent?_pathOf_concat fun s hs => (hl'.plain s hs).1]
  · rcases source_of_same_ending hmem hmem' hending with heq | ⟨hs, hs'⟩ | ⟨hs, hs'⟩
    · exact absurd (by rw [hl.normalize, hl'.normalize, hsource, hsource', heq]) hne
    · exact .inl ⟨hs ▸ hsource, hs' ▸ hsource'⟩
    · exact .inr ⟨hs ▸ hsource, hs' ▸ hsource'⟩

/-- Two sources whose stem ends like an emitted name. -/
theorem outputOf_overwrites_stem :
    let t := make ⟨"/w"⟩ ⟨"out"⟩ none false
    let roots : SourceRoots := ⟨[⟨"src"⟩], by simp⟩
    let outputs : OutputPaths := ⟨⟨"/w/out/Foo.js.js"⟩, none⟩
    t.outputOf roots ⟨"/w/src/Foo.js.ts"⟩ = .ok outputs ∧
      t.outputOf roots ⟨"/w/src/Foo.js.tsx"⟩ = .ok outputs ∧
      (⟨"/w/src/Foo.js.ts"⟩ : Path).normalize.parent? =
        (⟨"/w/src/Foo.js.tsx"⟩ : Path).normalize.parent? := by
  intro t roots outputs
  have ho : t.outputOf roots ⟨"/w/src/Foo.js.ts"⟩ = .ok outputs := by decide +kernel
  have ho' : t.outputOf roots ⟨"/w/src/Foo.js.tsx"⟩ = .ok outputs := by decide +kernel
  have hm : t.matchingRoot? roots ⟨"/w/src/Foo.js.ts"⟩ = some (⟨"/w/src"⟩, ⟨"Foo.js.ts"⟩) := by
    decide +kernel
  have hm' : t.matchingRoot? roots ⟨"/w/src/Foo.js.tsx"⟩ = some (⟨"/w/src"⟩, ⟨"Foo.js.tsx"⟩) := by
    decide +kernel
  have hr : Emit.roleOf "Foo.js.ts" = .code "Foo.js" ⟨".ts", ".js", ".d.ts"⟩ := by decide
  have hr' : Emit.roleOf "Foo.js.tsx" = .code "Foo.js" ⟨".tsx", ".js", ".d.ts"⟩ := by decide
  obtain ⟨hparent, -, -⟩ := outputOf_overwrites (t := t) (.make _ _ _ _) (by decide) rfl
    (by decide +kernel) hm hm' (by decide +kernel) (by decide +kernel) hr hr' ho ho'
    (.inl (by decide +kernel))
  exact ⟨ho, ho', hparent⟩

end Translator

end BuildLayout
