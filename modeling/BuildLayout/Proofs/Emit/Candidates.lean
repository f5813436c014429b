import BuildLayout.Proofs.Emit.RoundTrip

/-!
# Which candidates could have produced an output

The candidates of an output are taken below every root and with every ending that may lead to its
name; what becomes of them is decided by the first root that holds them and by their own name.

* `Produces`: the outputs of a source include a path.
* `Fits`: what has to hold of the place and of the name of a candidate.
* `produces_iff_fits`: a candidate of an output could have produced it exactly when it fits.
* `produces_iff_of_apart`: below roots none of which is inside another, and for an output in the
  directory where such names are written, only the name of the candidate counts.
-/

namespace BuildLayout

open Disk (pathOf)

namespace Translator

/-- The source is in a root, and the output is its implementation or its declaration. -/
def Produces (t : Translator) (roots : SourceRoots) (source output : Path) : Prop :=
  ∃ outputs, t.outputOf roots source = .ok outputs ∧
    (outputs.implementation = output.normalize ∨ outputs.declaration = some output.normalize)

theorem produces_iff_of_ok {t : Translator} {roots : SourceRoots} {source output : Path}
    {outputs : OutputPaths} (h : t.outputOf roots source = .ok outputs) :
    t.Produces roots source output ↔
      outputs.implementation = output.normalize ∨ outputs.declaration = some output.normalize := by
  constructor
  · rintro ⟨outputs', ho, hp⟩
    obtain rfl := Except.ok.inj (h.symm.trans ho)
    exact hp
  · intro hp
    exact ⟨outputs, h, hp⟩

/-- The directory below which an output with this name is written. -/
def writesBelow? (t : Translator) (name : String) : Option Path :=
  if Emit.isPlainDeclaration name then
    if t.emitsDeclarations then some t.declarationsIn else none
  else some t.outDir

/-- A candidate and an output correspond. Below the first root that holds the candidate it lies as
the output does below the directory where outputs with such a name are written; and it is compiled
just if the name of the output is an emitted one. -/
structure Fits (t : Translator) (roots : SourceRoots) (candidate output : Path)
    (root dir : Location) (source name : String) : Prop where
  lies : t.LiesAt roots candidate root dir source
  compiled : Emit.IsCompiled source ↔ Emit.IsEmitted name
  written : ∃ base, t.writesBelow? name = some base ∧
    output.normal.names = base.normal.names ++ dir ++ [name]

section
variable {t : Translator} {roots : SourceRoots} {candidate output : Path}

/-! ## Outputs that a source may have -/

section
variable {root dir front : Location} {source name : String}
  (hl : t.LiesAt roots candidate root dir source) (ha : output.normal.absolute)
  (hlast : output.normal.names = front ++ [name]) (hs : source ∈ sourceNames name)
include hl ha hlast hs

/-- An output is the implementation of a source. -/
theorem LiesAt.implementation_eq_iff :
    (t.outputsIn dir source).implementation = output.normalize ↔
      (Emit.IsCompiled source ↔ Emit.IsEmitted name) ∧ ¬ Emit.isPlainDeclaration name ∧
        output.normal.names = t.outDir.normal.names ++ dir ++ [name] := by
  have hplain := hl.isPlain_below t.outDir
    (Emit.isPlain_implementationName (hl.plain source (by simp)))
  rw [outputsIn_implementation, Path.normalize_of_absolute ha,
    Path.pathOf_inj hplain (Path.normal_plain output)]
  constructor
  · intro h
    have hname := (List.append_singleton_inj.1 (h.trans hlast)).2
    obtain ⟨hc, hd⟩ := (Emit.implementationName_eq_iff hs).1 hname
    exact ⟨hc, hd, by rw [← h, hname]⟩
  · rintro ⟨hc, hd, hn⟩
    rw [hn, (Emit.implementationName_eq_iff hs).2 ⟨hc, hd⟩]

/-- An output is the declaration of a source. -/
theorem LiesAt.declaration_eq_iff (hending : t.declarationEnding = none) :
    (t.outputsIn dir source).declaration = some output.normalize ↔
      (Emit.IsCompiled source ↔ Emit.IsEmitted name) ∧ Emit.isPlainDeclaration name ∧
        t.emitsDeclarations ∧
        output.normal.names = t.declarationsIn.normal.names ++ dir ++ [name] := by
  rw [outputsIn_declaration, hending, Option.ite_none_right_eq_some, Option.map_eq_some_iff,
    Path.normalize_of_absolute ha]
  constructor
  · rintro ⟨hemits, emitted, he, hp⟩
    have hplain := hl.isPlain_below t.declarationsIn
      (Emit.isPlain_declarationName? (hl.plain source (by simp)) he)
    have hn := (Path.pathOf_inj hplain (Path.normal_plain output)).1 hp
    obtain ⟨-, rfl⟩ := List.append_singleton_inj.1 (hn.trans hlast)
    obtain ⟨hc, hd⟩ := (Emit.declarationName?_eq_iff hs).1 he
    exact ⟨hc, hd, hemits, hn.symm⟩
  · rintro ⟨hc, hd, hemits, hn⟩
    exact ⟨hemits, name, (Emit.declarationName?_eq_iff hs).2 ⟨hc, hd⟩, by rw [hn]⟩

/-- **What a source in a place has for outputs.** -/
theorem LiesAt.produces_iff (ht : t.Settled) (hending : t.declarationEnding = none)
    (htext : Text.isText name) :
    t.Produces roots candidate output ↔
      (Emit.IsCompiled source ↔ Emit.IsEmitted name) ∧ ∃ base, t.writesBelow? name = some base ∧
        output.normal.names = base.normal.names ++ dir ++ [name] := by
  have himplementation := hl.implementation_eq_iff ha hlast hs
  have hdeclaration := hl.declaration_eq_iff ha hlast hs hending
  have hsource : Text.isText source := (Emit.isText_of_mem_sourceNames hs).trans htext
  rw [produces_iff_of_ok ((outputOf_of_liesAt ht hl).trans (if_pos hsource))]
  constructor
  · rintro (h | h)
    · obtain ⟨hc, hd, hn⟩ := himplementation.1 h
      exact ⟨hc, t.outDir, by simp [writesBelow?, hd], hn⟩
    · obtain ⟨hc, hd, hemits, hn⟩ := hdeclaration.1 h
      exact ⟨hc, t.declarationsIn, by simp [writesBelow?, hd, hemits], hn⟩
  · rintro ⟨hc, base, hbase, hn⟩
    unfold writesBelow? at hbase
    by_cases hd : Emit.isPlainDeclaration name
    · rw [if_pos hd, Option.ite_none_right_eq_some] at hbase
      obtain ⟨hemits, he⟩ := hbase
      obtain rfl := Option.some.inj he
      exact .inr (hdeclaration.2 ⟨hc, hd, hemits, hn⟩)
    · rw [if_neg hd] at hbase
      obtain rfl := Option.some.inj hbase
      exact .inl (himplementation.2 ⟨hc, hd, hn⟩)

end

/-- A candidate lies below a root as the output lies below an output directory. -/
theorem exists_of_mem_inputsOf (ht : t.Settled) (hm : candidate ∈ t.inputsOf roots output) :
    ∃ base dir name, t.FoundAt output base dir name ∧ ∃ source ∈ sourceNames name,
      ∃ root ∈ t.rootDirs roots, candidate.normal.names = root ++ dir ++ [source] := by
  obtain ⟨base, dir, name, hfound⟩ := exists_foundAt ht hm
  obtain ⟨source, hs, root, hr, he⟩ := (mem_inputsOf_iff ht hfound).1 hm
  refine ⟨base, dir, name, hfound, source, hs, root, hr, ?_⟩
  rw [he, Path.normal_pathOf (hfound.isPlain_candidate hr hs)]

/-! ## Roots apart -/

/-- Where no root is inside another, what lies in a root lies below that one. -/
theorem liesAt_of_apart
    (hroots : ∀ a ∈ t.rootDirs roots, ∀ b ∈ t.rootDirs roots, a <+: b → a = b)
    {root dir : Location} {source : String} (hr : root ∈ t.rootDirs roots)
    (hplain : ∀ s ∈ root ++ dir ++ [source], Path.IsPlain s) :
    t.LiesAt roots (pathOf (root ++ dir ++ [source])) root dir source := by
  have hnormal := Path.normal_pathOf hplain
  refine ⟨by rw [hnormal], by rw [hnormal], ?_⟩
  rw [hnormal]
  have habove : Disk.Above root (root ++ dir ++ [source]) := by
    rw [List.append_assoc]
    exact Disk.above_append (by simp)
  obtain ⟨first, hfirst⟩ :=
    IsFirst.exists_of_mem (p := (Disk.Above · (root ++ dir ++ [source]))) hr habove
  have heq : first = root := by
    rcases List.prefix_or_prefix_of_prefix hfirst.1.1 habove.1 with h | h
    · exact hroots first hfirst.mem root hr h
    · exact (hroots root hr first hfirst.mem h).symm
  exact heq ▸ hfirst

/-- **Where no root is inside another** and the output is in the directory where outputs with its
name are written, only the name of a candidate counts. -/
theorem produces_iff_of_apart (ht : t.Settled) (hending : t.declarationEnding = none)
    (hroots : ∀ a ∈ t.rootDirs roots, ∀ b ∈ t.rootDirs roots, a <+: b → a = b)
    {base : Path} {root dir : Location} {source name : String}
    (hfound : t.FoundAt output base.normal.names dir name) (hbase : t.writesBelow? name = some base)
    (hr : root ∈ t.rootDirs roots) (hs : source ∈ sourceNames name) :
    t.Produces roots (pathOf (root ++ dir ++ [source])) output ↔
      (Emit.IsCompiled source ↔ Emit.IsEmitted name) := by
  have hl := liesAt_of_apart hroots hr (hfound.isPlain_candidate hr hs)
  rw [hl.produces_iff hfound.absolute hfound.names hs ht hending hfound.text]
  exact and_iff_left ⟨base, hbase, hfound.names⟩

/-! ## The main result -/

/-- **A candidate could have produced the output exactly when it fits.** -/
theorem produces_iff_fits (hbuilt : t.Built) (hb : t.basePath.isAbsolute)
    (hending : t.declarationEnding = none) (hm : candidate ∈ t.inputsOf roots output) :
    t.Produces roots candidate output ↔
      ∃ root dir source name, t.Fits roots candidate output root dir source name := by
  have ht := hbuilt.settled hb
  obtain ⟨_, _, name, hfound, source, hs, _, _, hcand⟩ := exists_of_mem_inputsOf ht hm
  constructor
  · intro h
    obtain ⟨_, ho, -⟩ := id h
    obtain ⟨root, dir, source', hl, -⟩ := (outputOf_eq_ok_iff ht).1 ho
    obtain ⟨-, rfl⟩ := List.append_singleton_inj.1 (hcand.symm.trans hl.names)
    obtain ⟨hc, hw⟩ := (hl.produces_iff hfound.absolute hfound.names hs ht hending hfound.text).1 h
    exact ⟨root, dir, source, name, hl, hc, hw⟩
  · rintro ⟨root, dir, source', name', hl, hc, base, hbase, hn⟩
    obtain ⟨-, rfl⟩ := List.append_singleton_inj.1 (hcand.symm.trans hl.names)
    obtain ⟨-, rfl⟩ := List.append_singleton_inj.1 (hfound.names.symm.trans hn)
    exact (hl.produces_iff hfound.absolute hfound.names hs ht hending hfound.text).2 ⟨hc, base, hbase, hn⟩

/-- The candidate below the outer one of two roots produces the output, and so it fits. -/
theorem produces_iff_fits_nestedRoots :
    let t := make ⟨"/w"⟩ ⟨"out"⟩ none false
    let roots : SourceRoots := ⟨[⟨"src"⟩, ⟨"src/Shared"⟩], by simp⟩
    (⟨"/w/src/Foo.ts"⟩ : Path) ∈ t.inputsOf roots ⟨"/w/out/Foo.js"⟩ ∧
      t.Produces roots ⟨"/w/src/Foo.ts"⟩ ⟨"/w/out/Foo.js"⟩ ∧ ∃ root dir source name,
        t.Fits roots ⟨"/w/src/Foo.ts"⟩ ⟨"/w/out/Foo.js"⟩ root dir source name := by
  intro t roots
  have hm : (⟨"/w/src/Foo.ts"⟩ : Path) ∈ t.inputsOf roots ⟨"/w/out/Foo.js"⟩ := by decide +kernel
  have ho : t.outputOf roots ⟨"/w/src/Foo.ts"⟩ = .ok ⟨⟨"/w/out/Foo.js"⟩, none⟩ := by decide +kernel
  have hp : t.Produces roots ⟨"/w/src/Foo.ts"⟩ ⟨"/w/out/Foo.js"⟩ := by
    rw [produces_iff_of_ok ho]
    decide +kernel
  exact ⟨hm, hp, (produces_iff_fits (.make _ _ _ _) (by decide) rfl hm).1 hp⟩

/-- **A candidate that could not have produced the output**: it is put back below the inner root,
but the outer one holds it first and leads to another place. -/
theorem not_produces_nestedRoots :
    let t := make ⟨"/w"⟩ ⟨"out"⟩ none false
    let roots : SourceRoots := ⟨[⟨"src"⟩, ⟨"src/Shared"⟩], by simp⟩
    t.inputsOf roots ⟨"/w/out/Foo.js"⟩ = [⟨"/w/src/Foo.ts"⟩, ⟨"/w/src/Foo.tsx"⟩,
        ⟨"/w/src/Shared/Foo.ts"⟩, ⟨"/w/src/Shared/Foo.tsx"⟩] ∧
      t.outputOf roots ⟨"/w/src/Shared/Foo.ts"⟩ = .ok ⟨⟨"/w/out/Shared/Foo.js"⟩, none⟩ ∧
      ¬ t.Produces roots ⟨"/w/src/Shared/Foo.ts"⟩ ⟨"/w/out/Foo.js"⟩ := by
  intro t roots
  have ho : t.outputOf roots ⟨"/w/src/Shared/Foo.ts"⟩ = .ok ⟨⟨"/w/out/Shared/Foo.js"⟩, none⟩ := by
    decide +kernel
  refine ⟨by decide +kernel, ho, ?_⟩
  rw [produces_iff_of_ok ho]
  decide +kernel

end

end Translator

end BuildLayout
