import BuildLayout.Proofs.Config.Consulted
import BuildLayout.Proofs.Path.Ancestors

/-!
# Where a reference leads

`LeadsTo d dir reference found` says, without a search, which file a reference in a file of `dir`
leads to. An anchored reference stands for the path behind `dir` (`StandsFor`). Any other one is
the name of something that packages offer (`Offers`), and of all the directories upwards the
deepest that offers anything counts. `resolve?_eq_some_iff` is that `resolve?` finds exactly this,
level by level (`packageIn?_eq_some_iff`, `Path.findSome?_ancestors_eq_some_iff`).
-/

namespace BuildLayout

/-- The extension of a path is what its file name has behind the last dot, with something before
it. -/
theorem Path.hasExtension_iff {p : Path} {extension : String} :
    p.hasExtension extension ↔
      ∃ stem, stem ≠ "" ∧ p.fileName? = some (stem ++ ("." ++ extension)) := by
  unfold Path.hasExtension
  cases p.fileName? with
  | none => simp
  | some name =>
    dsimp only
    cases hs : Text.dropSuffix? name ("." ++ extension) with
    | none =>
      have hno : ∀ stem, name ≠ stem ++ ("." ++ extension) := fun stem he => by
        rw [Text.dropSuffix?_eq_some_iff.2 he] at hs
        cases hs
      simpa using fun stem _ => hno stem
    | some stem =>
      obtain rfl := Text.dropSuffix?_eq_some_iff.1 hs
      simp

namespace Reference

/-! ## What a reference stands for -/

/-- The reference is written as a way from the directory of its file, or from the root. -/
def IsAnchored (reference : String) : Prop :=
  (∃ start ∈ ["./", "../", ".\\", "..\\"], ∃ rest, reference = start ++ rest) ∨
    (Path.normalizeSeparators ⟨reference⟩).isAbsolute

/-- A path stands for the file there, or else for the file with `.json` at its end; not so when
the path has this extension already. -/
inductive StandsFor (d : Disk) (candidate : Path) : Path → Prop
  | asWritten : d.isFile candidate → StandsFor d candidate candidate
  | withEnding : ¬ d.isFile candidate →
      (∀ stem, stem ≠ "" → candidate.fileName? ≠ some (stem ++ ".json")) →
      d.isFile (candidate.append ".json") → StandsFor d candidate (candidate.append ".json")

/-- The packages of a directory offer what a name stands for among them, or else the configuration
of the package of this name. -/
inductive Offers (d : Disk) (name dir : Path) : Path → Prop
  | file {found : Path} :
      StandsFor d ((dir.child packagesName).join name) found → Offers d name dir found
  | inside : (∀ found, ¬ StandsFor d ((dir.child packagesName).join name) found) →
      d.isFile (((dir.child packagesName).join name).child configName) →
      Offers d name dir (((dir.child packagesName).join name).child configName)

/-- The file that a reference in a file of the directory leads to. The levels are those of the path
of the directory as it is spelled: a `..` in it counts as a level, and the next one up is the path
without that `..`. -/
inductive LeadsTo (d : Disk) (dir : Path) (reference : String) : Path → Prop
  | anchored {found : Path} : IsAnchored reference →
      StandsFor d (dir.resolveAgainst (Path.normalizeSeparators ⟨reference⟩)) found →
      LeadsTo d dir reference found
  | package {level found : Path} : ¬ IsAnchored reference → level ∈ dir.ancestors →
      Offers d (Path.normalizeSeparators ⟨reference⟩) level found →
      (∀ other ∈ dir.ancestors, ∀ q, Offers d (Path.normalizeSeparators ⟨reference⟩) other q →
        other.components.length ≤ level.components.length) →
      LeadsTo d dir reference found

theorem isAnchored_iff {reference : String} :
    IsAnchored reference ↔
      (isRelative reference || (Path.normalizeSeparators ⟨reference⟩).isAbsolute) = true := by
  have hstart : ∀ start : String, start.toList.isPrefixOf reference.toList = true ↔
      ∃ rest, reference = start ++ rest := fun start => by
    rw [List.isPrefixOf_iff_prefix]
    constructor
    · rintro ⟨rest, hr⟩
      exact ⟨String.ofList rest, String.toList_inj.1 (by simp [hr])⟩
    · rintro ⟨rest, rfl⟩
      simp
  unfold IsAnchored isRelative
  simp only [Bool.or_eq_true, List.any_eq_true, hstart]

/-! ## What the search finds -/

theorem file?_eq_some_iff {d : Disk} {candidate found : Path} :
    file? d candidate = some found ↔ StandsFor d candidate found := by
  have hjson : candidate.hasExtension "json" ↔
      ∃ stem, stem ≠ "" ∧ candidate.fileName? = some (stem ++ ".json") := Path.hasExtension_iff
  unfold file?
  constructor
  · intro h
    split at h
    · next hw =>
      cases h
      exact .asWritten hw
    · next hw =>
      split at h
      · cases h
      · next he =>
        dsimp only at h
        split at h
        · next hf =>
          cases h
          exact .withEnding hw (fun stem hne hn => he (hjson.2 ⟨stem, hne, hn⟩)) hf
        · cases h
  · rintro (hw | ⟨hw, he, hf⟩)
    · rw [if_pos hw]
    · have hext : ¬ candidate.hasExtension "json" := fun h => by
        obtain ⟨stem, hne, hn⟩ := hjson.1 h
        exact he stem hne hn
      rw [if_neg hw, if_neg hext]
      exact if_pos hf

theorem packageIn?_eq_some_iff {d : Disk} {name dir found : Path} :
    packageIn? d name dir = some found ↔ Offers d name dir found := by
  unfold packageIn?
  dsimp only
  cases hf : file? d ((dir.child packagesName).join name) with
  | some q =>
    have hq := file?_eq_some_iff.1 hf
    constructor
    · rintro ⟨⟩
      exact .file hq
    · rintro (h | ⟨hn, -⟩)
      · exact hf.symm.trans (file?_eq_some_iff.2 h)
      · exact absurd hq (hn q)
  | none =>
    have hnone : ∀ q, ¬ StandsFor d ((dir.child packagesName).join name) q := fun q hq => by
      rw [file?_eq_some_iff.2 hq] at hf
      cases hf
    constructor
    · intro h
      dsimp only at h
      split at h
      · next hi =>
        cases h
        exact .inside hnone hi
      · cases h
    · rintro (h | ⟨-, hi⟩)
      · exact absurd h (hnone found)
      · exact if_pos hi

theorem resolve?_eq_some_iff {d : Disk} {dir : Path} {reference : String} {found : Path} :
    resolve? d dir reference = some found ↔ LeadsTo d dir reference found := by
  unfold resolve?
  dsimp only
  split
  · next ha =>
    have ha := isAnchored_iff.2 ha
    rw [file?_eq_some_iff]
    constructor
    · exact .anchored ha
    · rintro (⟨-, h⟩ | ⟨hn, -⟩)
      · exact h
      · exact absurd ha hn
  · next ha =>
    have ha := mt isAnchored_iff.1 ha
    simp only [Path.findSome?_ancestors_eq_some_iff, packageIn?_eq_some_iff]
    constructor
    · rintro ⟨level, hl, ho, hdeepest⟩
      exact .package ha hl ho hdeepest
    · rintro (⟨hn, -⟩ | ⟨-, hl, ho, hdeepest⟩)
      · exact absurd hn ha
      · exact ⟨_, hl, ho, hdeepest⟩

/-- **A reference resolves** to what it leads to, which is a file: an anchored one to what the path
behind the directory stands for, any other one to what the deepest level offers, of those on the
way up from the directory. It resolves to nothing exactly when none of its candidates is a file. -/
theorem resolve?_leadsTo (d : Disk) (dir : Path) (reference : String) :
    (∀ found, resolve? d dir reference = some found ↔ LeadsTo d dir reference found) ∧
      (∀ found, resolve? d dir reference = some found →
        found ∈ candidates dir reference ∧ d.isFile found) ∧
      (resolve? d dir reference = none ↔
        ∀ candidate ∈ candidates dir reference, ¬ d.isFile candidate) ∧
      ∀ cs, (∃ level ∈ dir.ancestors, level.components = cs) ↔
        cs <+: dir.components ∧ (dir.isAbsolute → cs ≠ []) := by
  refine ⟨fun found => resolve?_eq_some_iff, fun found h => ?_, ?_, fun cs =>
    Path.exists_mem_ancestors_iff⟩
  · rw [resolve?_eq_find?] at h
    exact ⟨List.mem_of_find?_eq_some h, List.find?_some h⟩
  · rw [resolve?_eq_find?, List.find?_eq_none]

end Reference

end BuildLayout
