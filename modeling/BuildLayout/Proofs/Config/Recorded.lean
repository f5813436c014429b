import BuildLayout.Proofs.Config.Remembered

/-!
# What the files of a configuration say

The files that a configuration lists are all that its content comes from: a disk with the same
files and directories (`SameTree`), and with the same bytes in the listed files, gives the same
configuration, whatever the other files hold (`load_of_same_sourceFiles`). The list begins with the
configuration file and names no file twice.

A file is listed under one spelling only, so another path of the same components may be read in its
place; both stand for the same place (`Disk.place?_eq_of_same`). What holds of the list all the way
through the walk is shown by `files_induction`.
-/

namespace BuildLayout

open Disk (LinkFree)

/-- The same directories and regular files stand on both disks. The files may hold anything. -/
structure Disk.SameTree (d d' : Disk) : Prop extends Disk.SameDirectories d d' where
  isSome_bytesAt? : ∀ l, (d'.bytesAt? l).isSome = (d.bytesAt? l).isSome

namespace Disk

theorem bytesAt?_eq_some_iff {d : Disk} {l : Location} {bytes : Text.Bytes} :
    d.bytesAt? l = some bytes ↔ ∃ executable, d.node? l = some (.file bytes executable) := by
  unfold bytesAt?
  split
  · next hn => simp [hn]
  · next hn => simpa using fun executable he => hn bytes executable he

theorem isFile_iff_bytesAt? {d : Disk} (hd : LinkFree d) {p : Path} :
    d.isFile p ↔ ∃ l, d.place? p = some l ∧ (d.bytesAt? l).isSome := by
  simp only [isFile_iff hd, Option.isSome_iff_exists, bytesAt?_eq_some_iff]
  constructor
  · rintro ⟨l, bytes, executable, hl, hn⟩
    exact ⟨l, hl, bytes, executable, hn⟩
  · rintro ⟨l, hl, bytes, executable, hn⟩
    exact ⟨l, bytes, executable, hl, hn⟩

theorem read_eq_ok_iff_bytesAt? {d : Disk} (hd : LinkFree d) {p : Path} {bytes : Text.Bytes} :
    d.read p = .ok bytes ↔ ∃ l, d.place? p = some l ∧ d.bytesAt? l = some bytes := by
  simp only [read_eq_ok_iff hd, bytesAt?_eq_some_iff, exists_and_left]

section
variable {d d' : Disk} (h : SameTree d d') (hd : LinkFree d) (hd' : LinkFree d')
include h hd hd'

theorem SameTree.isFile_eq (p : Path) : d'.isFile p = d.isFile p := by
  rw [Bool.eq_iff_iff, isFile_iff_bytesAt? hd, isFile_iff_bytesAt? hd', h.place?_eq]
  simp only [h.isSome_bytesAt?]

theorem SameTree.locate_eq_ok {p : Path} {l : Location} {bytes : Text.Bytes}
    (hl : d.locate true p = .ok l) (hb : d.bytesAt? l = some bytes) :
    d'.locate true p = .ok l := by
  have hsome : (d'.bytesAt? l).isSome := by rw [h.isSome_bytesAt?, hb, Option.isSome_some]
  obtain ⟨bytes', hb'⟩ := Option.isSome_iff_exists.1 hsome
  obtain ⟨executable, hn⟩ := bytesAt?_eq_some_iff.1 hb'
  exact locate_of_place? hd' ((h.place?_eq p).trans (place?_of_locate hd hl)) hn

/-- What reads the same by one path reads the same by another path of the same components. -/
theorem SameTree.read_eq_ok_of_same {p q : Path} (hs : p.same q) (heq : d'.read p = d.read p)
    {bytes bytes' : Text.Bytes} (hp : d.read p = .ok bytes) (hq : d.read q = .ok bytes') :
    d'.read q = .ok bytes' := by
  obtain ⟨l, hpl, hpb⟩ := (read_eq_ok_iff_bytesAt? hd).1 hp
  obtain ⟨l', hql, hqb⟩ := (read_eq_ok_iff_bytesAt? hd).1 hq
  obtain rfl := place?_eq_of_same hs hpl hql
  obtain rfl := Option.some.inj (hpb.symm.trans hqb)
  obtain ⟨l', hpl', hpb'⟩ := (read_eq_ok_iff_bytesAt? hd').1 (heq.trans hp)
  obtain rfl := Option.some.inj (hpl.symm.trans ((h.place?_eq p).symm.trans hpl'))
  exact (read_eq_ok_iff_bytesAt? hd').2 ⟨l, (h.place?_eq q).trans hql, hpb'⟩

end

end Disk

namespace Configuration

open Disk (SameTree)
open Relation (ReflTransGen)

/-! ## The list of files -/

/-- What the references do to the list of files, when it is clear what each file does. -/
theorem files_loadReferences {d : Disk} {P : List Path → Prop} {ancestry : List Location}
    (hfile : ∀ files parent loaded, loadFile d ancestry files parent = .ok loaded →
      P files → P loaded.files) {path dir : Path} {references : List String}
    {before loaded : Loaded}
    (h : loadReferences d ancestry path dir before references = .ok loaded)
    (hb : P before.files) : P loaded.files := by
  induction references generalizing before with
  | nil =>
    rw [loadReferences_nil] at h
    exact Except.ok.inj h ▸ hb
  | cons reference rest ih =>
    obtain ⟨parent, upper, -, hu, hrest⟩ := loadReferences_cons_eq_ok_iff.1 h
    have hupper := hfile _ _ _ hu hb
    exact ih hrest hupper

/-- **Induction on the list of files**: the walk keeps what is kept when one more file that can be
read is added. -/
theorem files_induction {d : Disk} {P : List Path → Prop}
    (hadd : ∀ files path declared, declaredAt d path = .ok declared → P files →
      P (addFile files path)) {ancestry : List Location} {files : List Path} {path : Path}
    {loaded : Loaded} (h : loadFile d ancestry files path = .ok loaded) (hf : P files) :
    P loaded.files := by
  induction ancestry using ancestry_induction (d := d) generalizing files path loaded with
  | step ancestry ih =>
    obtain ⟨l, declared, upper, hl, hv, hdec, hu, rfl⟩ := loadFile_eq_ok_iff.1 h
    rw [files_withOwn]
    refine files_loadReferences (fun _ _ _ hfile hp => ih path l declared hl hdec hv hfile hp) hu ?_
    exact hadd _ _ _ hdec hf

theorem prefix_addFile (files : List Path) (path : Path) : files <+: addFile files path := by
  unfold addFile
  split
  · exact List.prefix_rfl
  · exact List.prefix_append _ _

theorem mem_addFile {files : List Path} {path p : Path} (h : p ∈ addFile files path) :
    p ∈ files ∨ p = path := by
  unfold addFile at h
  split at h
  · exact .inl h
  · simpa using h

theorem pairwise_addFile {files : List Path} (path : Path)
    (h : files.Pairwise fun p q => ¬ p.same q) :
    (addFile files path).Pairwise fun p q => ¬ p.same q := by
  unfold addFile
  split
  · exact h
  · next hany =>
    refine List.pairwise_append.2 ⟨h, List.pairwise_singleton _ _, fun p hp q hq => ?_⟩
    obtain rfl := List.mem_singleton.1 hq
    exact fun hs => hany (List.any_eq_true.2 ⟨p, hp, hs⟩)

section
variable {d : Disk} {path : Path} {config : Configuration} (h : load d path = .ok config)
include h

/-- **The list begins** with the configuration file. -/
theorem head?_sourceFiles : config.sourceFiles.head? = some config.configFilePath := by
  obtain ⟨loaded, hl, rfl⟩ := load_eq_ok_iff.1 h
  obtain ⟨l, declared, upper, -, -, -, hu, rfl⟩ := loadFile_eq_ok_iff.1 hl
  have hprefix : addFile [] path.normalize <+: (withOwn path.normalize declared upper).files := by
    rw [files_withOwn]
    refine files_loadReferences (P := (addFile [] path.normalize <+: ·)) ?_ hu List.prefix_rfl
    intro files parent loaded hfile hb
    exact files_induction (fun files q _ _ hp => hp.trans (prefix_addFile files q)) hfile hb
  obtain ⟨rest, hrest⟩ := hprefix
  unfold ofLoaded
  dsimp only
  rw [← hrest]
  rfl

/-- **No file is listed twice**, in whatever spelling. -/
theorem pairwise_sourceFiles : config.sourceFiles.Pairwise fun p q => ¬ p.same q := by
  obtain ⟨loaded, hl, rfl⟩ := load_eq_ok_iff.1 h
  exact files_induction (fun _ q _ _ hf => pairwise_addFile q hf) hl .nil

/-- Every file of the list can be read. -/
theorem exists_read_of_mem_sourceFiles {p : Path} (hp : p ∈ config.sourceFiles) :
    ∃ bytes, d.read p = .ok bytes := by
  obtain ⟨loaded, hl, rfl⟩ := load_eq_ok_iff.1 h
  have hall : ∀ p ∈ loaded.files, ∃ bytes, d.read p = .ok bytes := by
    refine files_induction (P := fun files => ∀ p ∈ files, ∃ bytes, d.read p = .ok bytes)
      (fun files q declared hdec hf p hp => ?_) hl (fun p hp => absurd hp List.not_mem_nil)
    rcases mem_addFile hp with hp | rfl
    · exact hf p hp
    · obtain ⟨bytes, hr, -⟩ := declaredAt_eq_ok_iff_read.1 hdec
      exact ⟨bytes, hr⟩
  exact hall p hp

/-- Every file that is extended is listed in some spelling. -/
theorem recorded_of_reflTransGen {q : Path} (hq : ReflTransGen (Extends d) path.normalize q) :
    Recorded config.sourceFiles q := by
  obtain ⟨loaded, hl, rfl⟩ := load_eq_ok_iff.1 h
  exact recorded_of_loadFile hl (.inr hq)

end

/-! ## Two disks -/

section
variable {d d' : Disk} (h : SameTree d d') (hd : LinkFree d) (hd' : LinkFree d')
include h hd hd'

/-- A file reads alike on a disk of the same tree that has the same bytes in it. -/
theorem alike_of_sameTree {path : Path}
    (hread : ∀ bytes, d.read path = .ok bytes → d'.read path = .ok bytes) : Alike d d' path := by
  intro l declared hl hdec
  refine ⟨?_, ?_, fun reference _ => ?_⟩
  · obtain ⟨l', bytes, hl', hb, -⟩ := declaredAt_eq_ok_iff.1 hdec
    obtain rfl := Except.ok.inj (hl.symm.trans hl')
    exact h.locate_eq_ok hd hd' hl hb
  · obtain ⟨bytes, hr, hof⟩ := declaredAt_eq_ok_iff_read.1 hdec
    exact declaredAt_eq_ok_iff_read.2 ⟨bytes, hread bytes hr, hof⟩
  · rw [Reference.resolve?_eq_find?, Reference.resolve?_eq_find?, funext (h.isFile_eq hd hd')]

/-- What is extended reads the same when the listed files do. -/
theorem load_eq_ok_of_sameTree {path : Path} {config : Configuration}
    (hl : load d path = .ok config) (heq : ∀ p ∈ config.sourceFiles, d'.read p = d.read p) :
    load d' path = .ok config := by
  obtain ⟨loaded, hloaded, hconfig⟩ := load_eq_ok_iff.1 hl
  refine load_eq_ok_iff.2 ⟨loaded, loadFile_eq_ok_of_alike (fun q hq => ?_) hloaded, hconfig⟩
  refine alike_of_sameTree h hd hd' fun bytes hq' => ?_
  -- the file may be listed in another spelling
  obtain ⟨p, hp, hs⟩ := recorded_of_reflTransGen hl hq
  obtain ⟨bytes', hp'⟩ := exists_read_of_mem_sourceFiles hl hp
  exact h.read_eq_ok_of_same hd hd' hs (heq p hp) hp' hq'

end

end Configuration

/-! ## A project with a file that no configuration reads -/

/-- The project whose configuration extends `base.json`, with a file of notes beside it. -/
def annotatedProject (notes : String) : Disk :=
  extendingProject.put ["w", "notes.json"] (.file (Text.encode notes) false)

theorem fileChange_annotatedProject (notes : String) :
    Disk.FileChange extendingProject (annotatedProject notes) ["w", "notes.json"] :=
  .put (Disk.fileOrFree_of_free (by decide)) _ _

theorem annotatedProject_linkFree (notes : String) : LinkFree (annotatedProject notes) :=
  (fileChange_annotatedProject notes).linkFree extendingProject_linkFree

theorem load_annotatedProject (notes : String) :
    Configuration.load (annotatedProject notes) ⟨"/w/tsconfig.json"⟩ =
      .ok (extendingConfig ⟨"/w/a"⟩ ⟨"/w/base.json"⟩) := by
  have hchange := fileChange_annotatedProject notes
  refine load_extending_json (annotatedProject_linkFree notes) hchange.sameDirectories fun l hl => ?_
  refine hchange.elsewhere l ?_
  rintro rfl
  exact absurd hl (by decide)

theorem fileChange_notes (notes notes' : String) :
    Disk.FileChange (annotatedProject notes) (annotatedProject notes') ["w", "notes.json"] :=
  (fileChange_annotatedProject notes).symm.trans (fileChange_annotatedProject notes')

/-- The notes may say anything. -/
theorem sameTree_annotatedProject (notes notes' : String) :
    Disk.SameTree (annotatedProject notes) (annotatedProject notes') where
  directory_iff := (fileChange_notes notes notes').directory_iff
  cwd := rfl
  isSome_bytesAt? l := by
    unfold annotatedProject Disk.bytesAt?
    rw [Disk.node?_put (by simp), Disk.node?_put (by simp)]
    by_cases hl : l = ["w", "notes.json"] <;> simp [hl]

/-- The files that the configuration reads are not the notes. -/
theorem place?_annotatedProject_ne (notes : String) :
    ∀ p ∈ [(⟨"/w/tsconfig.json"⟩ : Path), ⟨"/w/base.json"⟩],
      (annotatedProject notes).place? p ≠ some ["w", "notes.json"] := by
  simp only [(fileChange_annotatedProject notes).place?_eq]
  decide

/-! ## The main result -/

/-- **The listed files say everything**: a disk with the same tree and the same bytes in them loads
the same configuration. The list begins with the configuration file and names no file twice. -/
theorem load_of_same_sourceFiles {d : Disk} {path : Path} {config : Configuration}
    (hl : Configuration.load d path = .ok config) :
    (∀ d', LinkFree d → LinkFree d' → Disk.SameTree d d' →
      (∀ p ∈ config.sourceFiles, d'.read p = d.read p) →
        Configuration.load d' path = .ok config) ∧
    config.sourceFiles.head? = some config.configFilePath ∧
    config.sourceFiles.Pairwise fun p q => ¬ p.same q :=
  ⟨fun _ hd hd' h heq => Configuration.load_eq_ok_of_sameTree h hd hd' hl heq,
    Configuration.head?_sourceFiles hl, Configuration.pairwise_sourceFiles hl⟩

/-- Other notes leave the configuration as it is. -/
theorem load_of_same_sourceFiles_annotatedProject :
    (annotatedProject "a").bytesAt? ["w", "notes.json"] ≠
        (annotatedProject "b").bytesAt? ["w", "notes.json"] ∧
      Configuration.load (annotatedProject "b") ⟨"/w/tsconfig.json"⟩ =
        .ok (extendingConfig ⟨"/w/a"⟩ ⟨"/w/base.json"⟩) := by
  have hd := annotatedProject_linkFree
  have hl := load_annotatedProject "a"
  obtain ⟨hload, -, -⟩ := load_of_same_sourceFiles hl
  refine ⟨by decide, hload _ (hd _) (hd _) (sameTree_annotatedProject _ _) fun p hp => ?_⟩
  obtain ⟨bytes, hr⟩ := Configuration.exists_read_of_mem_sourceFiles hl hp
  rw [hr, (fileChange_notes "a" "b").read_eq_ok_iff (hd _) (place?_annotatedProject_ne _ p hp), hr]

end BuildLayout
