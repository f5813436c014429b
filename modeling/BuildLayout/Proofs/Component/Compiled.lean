import BuildLayout.Proofs.Component.Outcome
import BuildLayout.Proofs.Emit.RoundTrip
import BuildLayout.Proofs.Path.Normal

/-!
# What becomes of a new component

The script of a component is a source file named for the component, and a name may hold dots. So the
file may be one that a compiler takes for a declaration, which happens exactly for the names of
`NamesDeclaration`: they end in `.d`, or in `.d` and one more ending (`isCompiled_script_iff`).

Below a source root the script of any other component is compiled into an implementation of the same
name; one of such a name is copied, and nothing comes of its class (`outputOf_created_iff`).
-/

namespace BuildLayout

open Disk (pathOf)

namespace Emit

/-! ## Names with dots -/

/-- What stands before the last dot. -/
theorem beforeLastDot?_eq_some_iff {name head : String} :
    beforeLastDot? name = some head ↔
      ∃ ending : String, '.' ∉ ending.toList ∧ name = head ++ "." ++ ending := by
  have hlast : ∀ {front piece : List Char}, name.toList = front ++ '.' :: piece → '.' ∉ piece →
      beforeLastDot? name = some (String.ofList front) := by
    intro front piece hn hp
    have hlength : ¬ (Text.splitOn '.' front ++ [piece]).length ≤ 1 := by
      have := List.length_pos_iff.2 (Text.splitOn_ne_nil '.' front)
      simp only [List.length_append, List.length_singleton]
      omega
    unfold beforeLastDot?
    rw [hn, Text.splitOn_append_sep, Text.splitOn_of_not_mem hp]
    dsimp only
    rw [if_neg hlength, List.dropLast_concat, Text.joinWith_splitOn]
  constructor
  · intro h
    by_cases hdot : '.' ∈ name.toList
    · obtain ⟨front, piece, hn, hp⟩ := Text.exists_last_piece hdot
      rw [hlast hn hp] at h
      refine ⟨String.ofList piece, by simpa using hp, String.toList_inj.1 ?_⟩
      simp [hn, ← Option.some.inj h]
    · unfold beforeLastDot? at h
      rw [Text.splitOn_of_not_mem hdot] at h
      cases h
  · rintro ⟨ending, hdot, rfl⟩
    have htext : (head ++ "." ++ ending).toList = head.toList ++ '.' :: ending.toList := by simp
    simpa using hlast htext hdot

/-- The name ends in `.d`, or in `.d` and one more ending, with something before it. -/
def NamesDeclaration (name : String) : Prop :=
  ∃ stem, stem ≠ "" ∧ (name = stem ++ ".d" ∨
    ∃ ending : String, '.' ∉ ending.toList ∧ name = stem ++ ".d" ++ "." ++ ending)

theorem isPlainDeclaration_script {name : String} :
    isPlainDeclaration (name ++ ".ts") ↔ ∃ stem, stem ≠ "" ∧ name = stem ++ ".d" := by
  -- of the declaration endings only `.d.ts` ends as a script does
  have htable : ∀ r ∈ emitRules, r.declaration = ".d" ++ ".ts" ∨
      ".ts".toList.length ≤ r.declaration.toList.length ∧
        ¬ ".ts".toList <:+ r.declaration.toList := by decide
  rw [isPlainDeclaration_iff]
  constructor
  · rintro ⟨stem, hne, rule, hr, hn⟩
    rcases htable rule hr with hd | ⟨hlength, hnot⟩
    · rw [hd, ← String.append_assoc] at hn
      exact ⟨stem, hne, (String.append_left_inj _).1 hn⟩
    · have hn := congrArg String.toList hn
      rw [String.toList_append, String.toList_append] at hn
      have hend : ".ts".toList <:+ stem.toList ++ rule.declaration.toList :=
        hn ▸ List.suffix_append _ _
      exact absurd (List.suffix_of_suffix_length_le hend (List.suffix_append _ _) hlength) hnot
  · rintro ⟨stem, hne, rfl⟩
    refine ⟨stem, hne, _, .head _, ?_⟩
    rw [String.append_assoc]
    rfl

theorem isForeignDeclaration_script {name : String} :
    isForeignDeclaration (name ++ ".ts") ↔ ∃ stem, stem ≠ "" ∧
      ∃ ending : String, '.' ∉ ending.toList ∧ name = stem ++ ".d" ++ "." ++ ending := by
  unfold isForeignDeclaration
  rw [Text.dropSuffix?_eq_some_iff.2 rfl]
  dsimp only
  constructor
  · intro h
    split at h
    · cases h
    next head hhead =>
    obtain ⟨stem, hstem⟩ := Option.isSome_iff_exists.1 h
    obtain ⟨hne, rfl⟩ := stem?_eq_some_iff.1 hstem
    exact ⟨stem, hne, beforeLastDot?_eq_some_iff.1 hhead⟩
  · rintro ⟨stem, hne, hending⟩
    rw [beforeLastDot?_eq_some_iff.2 hending]
    exact Option.isSome_iff_exists.2 ⟨stem, stem?_eq_some_iff.2 ⟨hne, rfl⟩⟩

theorem namesDeclaration_iff {name : String} :
    NamesDeclaration name ↔
      isPlainDeclaration (name ++ ".ts") || isForeignDeclaration (name ++ ".ts") := by
  rw [Bool.or_eq_true, isPlainDeclaration_script, isForeignDeclaration_script]
  unfold NamesDeclaration
  simp only [and_or_left, exists_or]

instance (name : String) : Decidable (NamesDeclaration name) :=
  decidable_of_iff _ namesDeclaration_iff.symm

/-- **A script is compiled** exactly when it is not named as a declaration is. -/
theorem isCompiled_script_iff {name : String} (hne : name ≠ "") :
    IsCompiled (name ++ ".ts") ↔ ¬ NamesDeclaration name := by
  have hsource : lookUp EmitRule.source id (name ++ ".ts") = some (name, ⟨".ts", ".js", ".d.ts"⟩) :=
    lookUp_source_eq_some_iff.2 ⟨hne, .head _, rfl⟩
  rw [namesDeclaration_iff]
  unfold IsCompiled
  rw [roleOf_eq, hsource]
  split
  · next h => simp [h]
  · next h => simp [h]

end Emit

namespace Translator

open Component (fileIn validateName create)

/-- A root is the directory or above it, so the file of a component there lies below a root. -/
theorem exists_liesAt_fileIn {t : Translator} {roots : SourceRoots} {dir : Path} {name : String}
    (hdir : dir.IsSettled) (hplain : Path.IsPlain (name ++ ".ts"))
    (hroot : ∃ root ∈ t.rootDirs roots, root <+: dir.normal.names) :
    ∃ root rest, t.LiesAt roots (fileIn dir name) root rest (name ++ ".ts") := by
  have hfile := Component.fileIn_eq_pathOf hdir hplain
  have hnames : ∀ s ∈ dir.normal.names ++ [name ++ ".ts"], Path.IsPlain s := by
    intro s hs
    rcases List.mem_append.1 hs with hs | hs
    · exact Path.normal_plain dir s hs
    · exact List.mem_singleton.1 hs ▸ hplain
  have hnormal := Path.normal_pathOf hnames
  rw [← hfile] at hnormal
  obtain ⟨root, hmem, rest, hrest⟩ := hroot
  have habove : Disk.Above root (fileIn dir name).normal.names := by
    rw [hnormal, ← hrest, List.append_assoc]
    exact Disk.above_append (by simp)
  obtain ⟨first, hfirst⟩ :=
    IsFirst.exists_of_mem (p := (Disk.Above · (fileIn dir name).normal.names)) hmem habove
  obtain ⟨⟨below, hbelow⟩, hne⟩ := hfirst.1
  cases below using List.reverseRecOn with
  | nil => exact absurd (by simpa using hbelow) hne
  | append_singleton below last =>
    have hlast : last = name ++ ".ts" := by
      rw [hnormal, ← List.append_assoc] at hbelow
      exact (List.append_singleton_inj.1 hbelow).2
    refine ⟨first, below, by rw [hnormal], ?_, hfirst⟩
    rw [← hbelow, hlast, List.append_assoc]

/-! ## The main result -/

/-- **The script of a new component** below a source root has an output. It is an implementation of
the same name exactly when the script is not named as a declaration is; otherwise it is the script
itself, copied. -/
theorem outputOf_created_iff {t : Translator} (hbuilt : t.Built) (hb : t.basePath.isAbsolute)
    {roots : SourceRoots} {dir : Path} (hdir : dir.IsSettled)
    (hroot : ∃ root ∈ t.rootDirs roots, root <+: dir.normal.names) {name : String}
    (hname : validateName name = .ok ()) :
    (∀ d d' kind writing created, create d dir name kind writing = (.ok created, d') →
      created.path = fileIn dir name) ∧
    ∃ outputs, t.outputOf roots (fileIn dir name) = .ok outputs ∧
      (outputs.implementation.fileName? = some (name ++ ".js") ↔ ¬ Emit.NamesDeclaration name) ∧
      (Emit.NamesDeclaration name →
        outputs.implementation.fileName? = some (name ++ ".ts") ∧ outputs.declaration = none) := by
  refine ⟨fun d d' kind writing created h => (Component.path_of_create h).2, ?_⟩
  have ht := hbuilt.settled hb
  obtain ⟨hne, hplain, htext⟩ := Component.isPlain_script (Component.validateName_eq_ok_iff.1 hname)
  obtain ⟨root, rest, hlies⟩ := exists_liesAt_fileIn hdir hplain hroot
  have hcompiled := Emit.isCompiled_script_iff hne
  have himpl : (t.outputsIn rest (name ++ ".ts")).implementation.fileName? =
      some (Emit.implementationName (name ++ ".ts")) := by
    have hbelow := hlies.isPlain_below t.outDir (Emit.isPlain_implementationName hplain)
    rw [outputsIn_implementation, Path.fileName?_pathOf_concat fun s hs => (hbelow s hs).1]
  refine ⟨_, (outputOf_of_liesAt ht hlies).trans (if_pos htext), ?_, fun hdecl => ?_⟩
  · rw [himpl, ← hcompiled, Option.some.injEq]
    constructor
    · intro heq
      by_contra hnot
      rw [Emit.implementationName_of_not_compiled hnot, String.append_right_inj] at heq
      exact absurd heq (by decide)
    · intro hc
      have hrole := @Emit.IsCompiled.roleOf_eq name ⟨".ts", ".js", ".d.ts"⟩ hc hne (.head _)
      exact Emit.implementationName_of_code hrole
  · have hnot : ¬ Emit.IsCompiled (name ++ ".ts") := fun hc => hcompiled.1 hc hdecl
    rw [himpl, Emit.implementationName_of_not_compiled hnot, outputsIn_declaration,
      Emit.declarationName?_of_not_compiled _ hnot]
    simp

/-- The script of a component with a dot in its name, in a directory below a root. -/
theorem outputOf_created_iff_dotted :
    let t := make ⟨"/w"⟩ ⟨"out"⟩ none true
    let roots : SourceRoots := ⟨[⟨"src"⟩], by simp⟩
    ∃ outputs, t.outputOf roots (fileIn ⟨"/w/src/Shared"⟩ "Game.Door") = .ok outputs ∧
      outputs.implementation.fileName? = some "Game.Door.js" := by
  intro t roots
  have hroot : ∃ root ∈ t.rootDirs roots, root <+: (⟨"/w/src/Shared"⟩ : Path).normal.names := by
    decide +kernel
  have hsettled : (⟨"/w/src/Shared"⟩ : Path).IsSettled := by
    unfold Path.IsSettled
    decide
  obtain ⟨-, outputs, ho, hiff, -⟩ := outputOf_created_iff (t := t) (.make _ _ _ _) (by decide)
    hsettled hroot (by decide : validateName "Game.Door" = .ok ())
  exact ⟨outputs, ho, hiff.2 (by decide)⟩

/-- **A component that is not compiled**: the name `Foo.d` is accepted, and its script is copied. -/
theorem outputOf_created_declaration :
    let t := make ⟨"/w"⟩ ⟨"out"⟩ none true
    let roots : SourceRoots := ⟨[⟨"src"⟩], by simp⟩
    validateName "Foo.d" = .ok () ∧ (⟨"/w/src"⟩ : Path).IsSettled ∧
      ["w", "src"] ∈ t.rootDirs roots ∧ (⟨"/w/src"⟩ : Path).normal.names = ["w", "src"] ∧
      t.outputOf roots (fileIn ⟨"/w/src"⟩ "Foo.d") = .ok ⟨⟨"/w/out/Foo.d.ts"⟩, none⟩ := by
  unfold Path.IsSettled
  decide +kernel

end Translator

end BuildLayout
