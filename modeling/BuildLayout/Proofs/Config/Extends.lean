import BuildLayout.Config.Load
import BuildLayout.Proofs.Disk.Place
import Mathlib.Logic.Relation

/-!
# When a configuration loads

`Extends d p q`: the file at `p` has a reference that leads to `q`. A configuration loads exactly
when every file that it extends, directly or through others, can be read and leads somewhere with
each of its references, and none of them extends itself (`load_isOk_iff`). Files are the same when
their paths lead to one location, so a file may be reached any number of times on different
branches.

The walk goes down by `ancestry_induction`: a file that it enters joins the ancestry and is on the
disk. What has to hold below a file is `Loadable`; it holds of a file exactly when it holds of
everything the file extends with the file as one more ancestor (`loadable_iff`).
-/

namespace BuildLayout.Configuration

open Relation (ReflTransGen TransGen)

/-- What the file at a path declares. -/
def declaredAt (d : Disk) (path : Path) : Except Failure Declared :=
  match d.read path with
  | .error e => .error (.io (some path) e.text)
  | .ok bytes => Declared.ofBytes path bytes

/-- The references of a file, in order. -/
def referencesOf (declared : Declared) : List String :=
  declared.references.getD []

/-- The file at a path has a reference that leads to the other path. -/
def Extends (d : Disk) (path parent : Path) : Prop :=
  ∃ declared, declaredAt d path = .ok declared ∧
    ∃ reference ∈ referencesOf declared,
      Reference.resolve? d path.parentOrRoot reference = some parent

/-- The file at a path can be read, and each of its references leads to a file. -/
def Readable (d : Disk) (path : Path) : Prop :=
  ∃ declared, declaredAt d path = .ok declared ∧
    ∀ reference ∈ referencesOf declared,
      ∃ parent, Reference.resolve? d path.parentOrRoot reference = some parent

/-- Two paths lead to one location. -/
def SameFile (d : Disk) (p q : Path) : Prop :=
  ∃ location, d.locate true p = .ok location ∧ d.locate true q = .ok location

/-! ## Reading one file -/

theorem declaredAt_eq_ok_iff {d : Disk} {path : Path} {declared : Declared} :
    declaredAt d path = .ok declared ↔ ∃ location bytes, d.locate true path = .ok location ∧
      d.bytesAt? location = some bytes ∧ Declared.ofBytes path bytes = .ok declared := by
  unfold declaredAt Disk.read Disk.stat Disk.bytesAt?
  cases hl : d.locate true path with
  | error e => simp
  | ok location =>
    cases hn : d.node? location with
    | none => simp [hn]
    | some node => cases node <;> simp [hn]

theorem declaredAt_eq_ok_iff_read {d : Disk} {path : Path} {declared : Declared} :
    declaredAt d path = .ok declared ↔
      ∃ bytes, d.read path = .ok bytes ∧ Declared.ofBytes path bytes = .ok declared := by
  unfold declaredAt
  cases d.read path <;> simp

/-- A file that becomes an ancestor leaves less of the disk unvisited. -/
theorem length_unvisited_lt {d : Disk} {path : Path} {location : Location} {declared : Declared}
    {ancestry : List Location} (hl : d.locate true path = .ok location)
    (hd : declaredAt d path = .ok declared) (hv : location ∉ ancestry) :
    (d.unvisited (location :: ancestry)).length < (d.unvisited ancestry).length := by
  obtain ⟨location', bytes, hl', hb, -⟩ := declaredAt_eq_ok_iff.1 hd
  obtain rfl := Except.ok.inj (hl.symm.trans hl')
  exact Disk.length_unvisited_cons_lt hb hv

/-- **Induction on the ancestry**: what holds of it holds by what holds with one more file. -/
theorem ancestry_induction {d : Disk} {motive : List Location → Prop}
    (step : ∀ ancestry, (∀ path location declared, d.locate true path = .ok location →
      declaredAt d path = .ok declared → location ∉ ancestry → motive (location :: ancestry)) →
      motive ancestry) (ancestry : List Location) : motive ancestry := by
  induction hn : (d.unvisited ancestry).length using Nat.strongRecOn generalizing ancestry
  case _ n ih =>
    refine step ancestry fun path location declared hl hd hv => ?_
    exact ih _ (hn ▸ length_unvisited_lt hl hd hv) _ rfl

/-! ## Steps of the walk -/

/-- The options over those of what it extends, when the file sets any. -/
def withOwn (path : Path) (declared : Declared) (loaded : Loaded) : Loaded :=
  match declared.options with
  | none => loaded
  | some o =>
    { loaded with options := loaded.options.override (Options.ofDeclared path.parentOrRoot o) }

/-- **Loading one file** goes well when the file is no ancestor, declares something, and its
references go well with it among the ancestors. -/
theorem loadFile_eq_ok_iff {d : Disk} {ancestry : List Location} {files : List Path} {path : Path}
    {loaded : Loaded} :
    loadFile d ancestry files path = .ok loaded ↔
      ∃ location declared upper, d.locate true path = .ok location ∧ location ∉ ancestry ∧
        declaredAt d path = .ok declared ∧
        loadReferences d (location :: ancestry) path path.parentOrRoot ⟨{}, addFile files path⟩
          (referencesOf declared) = .ok upper ∧
        loaded = withOwn path declared upper := by
  rw [loadFile]
  constructor
  · intro h
    split at h
    · cases h
    next location hl =>
    split at h
    · cases h
    next hv =>
    split at h
    · cases h
    next bytes hb =>
    split at h
    · cases h
    next declared hd =>
    cases hu : loadReferences d (location :: ancestry) path path.parentOrRoot
        ⟨{}, addFile files path⟩ (referencesOf declared) with
    | error f =>
      unfold referencesOf at hu
      simp [hu] at h
    | ok upper =>
      refine ⟨location, declared, upper, hl, hv, declaredAt_eq_ok_iff.2 ⟨_, _, hl, hb, hd⟩, hu, ?_⟩
      unfold referencesOf at hu
      unfold withOwn
      simp only [hu] at h
      cases ho : declared.options <;> simpa [ho] using h.symm
  · rintro ⟨location, declared, upper, hl, hv, hd, hu, rfl⟩
    obtain ⟨location', bytes, hl', hb, hd⟩ := declaredAt_eq_ok_iff.1 hd
    obtain rfl := Except.ok.inj (hl.symm.trans hl')
    unfold referencesOf at hu
    unfold withOwn
    split
    · next e he => simp [hl] at he
    next l hl2 =>
    obtain rfl := Except.ok.inj (hl.symm.trans hl2)
    rw [dif_neg hv]
    split
    · next hn => simp [hn] at hb
    next bytes' hb' =>
    obtain rfl := Option.some.inj (hb.symm.trans hb')
    simp only [hd, hu]
    cases declared.options <;> rfl

theorem loadReferences_nil {d : Disk} {ancestry : List Location} {path dir : Path}
    {before : Loaded} : loadReferences d ancestry path dir before [] = .ok before := by
  rw [loadReferences]

theorem loadReferences_cons_eq_ok_iff {d : Disk} {ancestry : List Location} {path dir : Path}
    {before loaded : Loaded} {reference : String} {rest : List String} :
    loadReferences d ancestry path dir before (reference :: rest) = .ok loaded ↔
      ∃ parent upper, Reference.resolve? d dir reference = some parent ∧
        loadFile d ancestry before.files parent = .ok upper ∧
        loadReferences d ancestry path dir ⟨before.options.override upper.options, upper.files⟩
          rest = .ok loaded := by
  rw [loadReferences]
  constructor
  · intro h
    split at h
    · cases h
    next parent hp =>
    split at h
    · cases h
    next upper hu => exact ⟨parent, upper, hp, hu, h⟩
  · rintro ⟨parent, upper, hp, hu, h⟩
    simp only [hp, hu, h]

/-- The references of a file go well when each leads to a file that loads. -/
theorem loadReferences_isOk_iff {d : Disk} {ancestry : List Location} {path dir : Path}
    {P : Path → Prop}
    (hP : ∀ files parent, (∃ loaded, loadFile d ancestry files parent = .ok loaded) ↔ P parent)
    (references : List String) (before : Loaded) :
    (∃ loaded, loadReferences d ancestry path dir before references = .ok loaded) ↔
      ∀ reference ∈ references,
        ∃ parent, Reference.resolve? d dir reference = some parent ∧ P parent := by
  induction references generalizing before with
  | nil => simp [loadReferences_nil]
  | cons reference rest ih =>
    simp only [loadReferences_cons_eq_ok_iff, List.forall_mem_cons]
    constructor
    · rintro ⟨loaded, parent, upper, hp, hu, hl⟩
      exact ⟨⟨parent, hp, (hP _ _).1 ⟨upper, hu⟩⟩, (ih _).1 ⟨loaded, hl⟩⟩
    · rintro ⟨⟨parent, hp, hpar⟩, hrest⟩
      obtain ⟨upper, hu⟩ := (hP before.files parent).2 hpar
      obtain ⟨loaded, hl⟩ := (ih ⟨before.options.override upper.options, upper.files⟩).2 hrest
      exact ⟨loaded, parent, upper, hp, hu, hl⟩

/-! ## What has to hold below a file -/

/-- What is extended from a path on can be read, is none of the ancestors, and does not extend
itself. -/
structure Loadable (d : Disk) (ancestry : List Location) (path : Path) : Prop where
  readable : ∀ q, ReflTransGen (Extends d) path q → Readable d q
  fresh : ∀ q location, ReflTransGen (Extends d) path q → d.locate true q = .ok location →
    location ∉ ancestry
  acyclic : ∀ q q', ReflTransGen (Extends d) path q → TransGen (Extends d) q q' → ¬ SameFile d q q'

theorem exists_locate_of_readable {d : Disk} {path : Path} (h : Readable d path) :
    ∃ location, d.locate true path = .ok location := by
  obtain ⟨declared, hd, -⟩ := h
  obtain ⟨location, bytes, hl, -⟩ := declaredAt_eq_ok_iff.1 hd
  exact ⟨location, hl⟩

/-- What may load below a file may load below each that it extends, with the file as one more
ancestor. -/
theorem Loadable.parent {d : Disk} {ancestry : List Location} {path parent : Path}
    (h : Loadable d ancestry path) {location : Location} (hl : d.locate true path = .ok location)
    (he : Extends d path parent) : Loadable d (location :: ancestry) parent where
  readable q hq := h.readable q (.head he hq)
  fresh q location' hq hl' := by
    have hne : location' ≠ location := by
      rintro rfl
      exact h.acyclic path q .refl (.head' he hq) ⟨location', hl, hl'⟩
    simp only [List.mem_cons, not_or]
    exact ⟨hne, h.fresh q location' (.head he hq) hl'⟩
  acyclic q q' hq := h.acyclic q q' (.head he hq)

/-- **One step down**: a file may load when it can be read, is no ancestor, and each of its
references leads to a file that may load with it as one more ancestor. -/
theorem loadable_iff {d : Disk} {ancestry : List Location} {path : Path} :
    Loadable d ancestry path ↔
      ∃ location declared, d.locate true path = .ok location ∧ location ∉ ancestry ∧
        declaredAt d path = .ok declared ∧ ∀ reference ∈ referencesOf declared,
          ∃ parent, Reference.resolve? d path.parentOrRoot reference = some parent ∧
            Loadable d (location :: ancestry) parent := by
  constructor
  · intro h
    obtain ⟨location, hl⟩ := exists_locate_of_readable (h.readable path .refl)
    obtain ⟨declared, hd, hr⟩ := h.readable path .refl
    refine ⟨location, declared, hl, h.fresh path location .refl hl, hd, fun reference hm => ?_⟩
    obtain ⟨parent, hp⟩ := hr reference hm
    exact ⟨parent, hp, h.parent hl ⟨declared, hd, reference, hm, hp⟩⟩
  · rintro ⟨location, declared, hl, hv, hd, hr⟩
    have hbelow : ∀ parent, Extends d path parent → Loadable d (location :: ancestry) parent := by
      rintro parent ⟨declared', hd', reference, hm, hp⟩
      obtain rfl := Except.ok.inj (hd.symm.trans hd')
      obtain ⟨parent', hp', hpar⟩ := hr reference hm
      obtain rfl := Option.some.inj (hp.symm.trans hp')
      exact hpar
    refine ⟨fun q hq => ?_, fun q location' hq hl' => ?_, fun q q' hq hq' => ?_⟩
    · rcases hq.cases_head with rfl | ⟨parent, he, hq⟩
      · exact ⟨declared, hd, fun reference hm => (hr reference hm).imp fun _ h => h.1⟩
      · exact (hbelow parent he).readable q hq
    · rcases hq.cases_head with rfl | ⟨parent, he, hq⟩
      · obtain rfl := Except.ok.inj (hl.symm.trans hl')
        exact hv
      · exact fun hm => (hbelow parent he).fresh q location' hq hl' (.tail _ hm)
    · rcases hq.cases_head with rfl | ⟨parent, he, hq⟩
      · -- the file itself: what it extends is below it, where it is an ancestor
        rintro ⟨location', hl1, hl2⟩
        obtain rfl := Except.ok.inj (hl.symm.trans hl1)
        obtain ⟨parent, he, hq'⟩ := TransGen.head'_iff.1 hq'
        exact (hbelow parent he).fresh q' location hq' hl2 (.head _)
      · exact (hbelow parent he).acyclic q q' hq hq'

/-! ## When a file loads -/

/-- **The walk** goes well exactly where a file may load. -/
theorem loadFile_isOk_iff {d : Disk} {ancestry : List Location} {files : List Path} {path : Path} :
    (∃ loaded, loadFile d ancestry files path = .ok loaded) ↔ Loadable d ancestry path := by
  induction ancestry using ancestry_induction (d := d) generalizing files path with
  | step ancestry ih =>
    rw [loadable_iff]
    constructor
    · rintro ⟨loaded, h⟩
      obtain ⟨location, declared, upper, hl, hv, hd, hu, -⟩ := loadFile_eq_ok_iff.1 h
      refine ⟨location, declared, hl, hv, hd, ?_⟩
      exact (loadReferences_isOk_iff (fun _ _ => ih path location declared hl hd hv) _ _).1
        ⟨upper, hu⟩
    · rintro ⟨location, declared, hl, hv, hd, hr⟩
      obtain ⟨upper, hu⟩ :=
        (loadReferences_isOk_iff (fun _ _ => ih path location declared hl hd hv) _
          ⟨{}, addFile files path⟩).2 hr
      exact ⟨_, loadFile_eq_ok_iff.2 ⟨location, declared, upper, hl, hv, hd, hu, rfl⟩⟩

/-- The configuration of a file that was loaded. -/
def ofLoaded (path : Path) (loaded : Loaded) : Configuration where
  configFilePath := path
  rootDir := loaded.options.rootDir
  rootDirs := loaded.options.rootDirs
  outDir := loaded.options.outDir
  declaration := loaded.options.emitsDeclarations
  declarationDir := loaded.options.declarationDir
  sourceFiles := loaded.files

theorem load_eq_ok_iff {d : Disk} {path : Path} {config : Configuration} :
    load d path = .ok config ↔
      ∃ loaded, loadFile d [] [] path.normalize = .ok loaded ∧
        config = ofLoaded path.normalize loaded := by
  unfold load ofLoaded
  dsimp only
  cases loadFile d [] [] path.normalize <;> simp [eq_comm]

theorem load_isOk_iff_loadable {d : Disk} {path : Path} :
    (∃ config, load d path = .ok config) ↔ Loadable d [] path.normalize := by
  simp only [load_eq_ok_iff]
  constructor
  · rintro ⟨config, loaded, h, -⟩
    exact loadFile_isOk_iff.1 ⟨loaded, h⟩
  · intro h
    obtain ⟨loaded, h⟩ := loadFile_isOk_iff.2 h
    exact ⟨_, loaded, h, rfl⟩

/-! ## How deep the walk goes -/

/-- Loading the file at a path below some ancestors goes on to a file that it extends, with the
file as one more ancestor. -/
inductive Enters (d : Disk) : List Location × Path → List Location × Path → Prop
  | parent {ancestry : List Location} {path parent : Path} {location : Location} :
      d.locate true path = .ok location → location ∉ ancestry → Extends d path parent →
        Enters d (ancestry, path) (location :: ancestry, parent)

/-- Every step down uses up a file of the disk. -/
theorem Enters.length_unvisited_lt {d : Disk} {s s' : List Location × Path} (h : Enters d s s') :
    s'.1.length = s.1.length + 1 ∧ (d.unvisited s'.1).length < (d.unvisited s.1).length := by
  cases h with
  | parent hl hv he =>
    obtain ⟨declared, hd, -⟩ := he
    exact ⟨rfl, Configuration.length_unvisited_lt hl hd hv⟩

/-- **The walk is never deeper** than the disk has files. -/
theorem length_ancestry_le {d : Disk} {path : Path} {s : List Location × Path}
    (h : ReflTransGen (Enters d) ([], path) s) : s.1.length ≤ d.nodes.length := by
  have key : s.1.length + (d.unvisited s.1).length ≤ d.nodes.length := by
    induction h with
    | refl =>
      rw [List.length_nil, Nat.zero_add]
      exact List.length_filter_le _ _
    | tail _ hs ih =>
      have := hs.length_unvisited_lt
      omega
  omega

/-! ## The main result -/

/-- **A configuration loads** exactly when everything that it extends can be read and leads
somewhere with each reference, and nothing of it extends itself; files that are reached several
times do no harm. Whether it loads or not, the walk is never deeper than the disk has files. -/
theorem load_isOk_iff {d : Disk} {path : Path} :
    ((∃ config, load d path = .ok config) ↔
      (∀ q, ReflTransGen (Extends d) path.normalize q → Readable d q) ∧
      ∀ q q', ReflTransGen (Extends d) path.normalize q → TransGen (Extends d) q q' →
        ¬ SameFile d q q') ∧
    ∀ ancestry q, ReflTransGen (Enters d) ([], path.normalize) (ancestry, q) →
      ancestry.length ≤ d.nodes.length := by
  refine ⟨load_isOk_iff_loadable.trans ⟨fun h => ⟨h.readable, h.acyclic⟩, fun h => ?_⟩,
    fun _ _ h => length_ancestry_le h⟩
  exact ⟨h.1, fun _ _ _ _ => List.not_mem_nil, h.2⟩

end BuildLayout.Configuration
