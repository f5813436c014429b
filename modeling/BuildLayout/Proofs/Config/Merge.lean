import BuildLayout.Proofs.Config.Extends
import Mathlib.Data.List.Induction

/-!
# What a configuration merges to

`Listed d path layers`: what the file at `path` extends, each file after all that it extends itself,
and then the file. A configuration that loads has exactly one such listing, and each of its options
is the value of the last file there that sets it (`load_merged`). Paths are taken from the directory
of the file that sets them.

The walk puts the options of each file over those gathered before (`merge`). Putting one set of
options over another is associative (`Options.override_assoc`), so the order in which the walk does
it does not matter.
-/

namespace BuildLayout

namespace Options

theorem blank_override (o : Options) : override {} o = o := by
  simp [override]

theorem override_blank (o : Options) : o.override {} = o := by
  simp [override]

theorem override_assoc (a b c : Options) :
    (a.override b).override c = a.override (b.override c) := by
  simp [override, Option.or_assoc]

end Options

namespace Configuration

/-- One file with what it declares. -/
structure Layer where
  path : Path
  declared : Declared

namespace Layer

/-- What the file sets for an option. -/
def sets {α : Type} (option : DeclaredOptions → Option α) (l : Layer) : Option α :=
  l.declared.options.bind option

/-- The path that a text of the file stands for. -/
def resolve (l : Layer) (text : String) : Path :=
  l.path.parentOrRoot.resolveAgainst ⟨text⟩

/-- The options of the file alone. -/
def options (l : Layer) : Options where
  rootDir := (l.sets (·.rootDir)).map l.resolve
  rootDirs := (l.sets (·.rootDirs)).map (·.map l.resolve)
  outDir := (l.sets (·.outDir)).map l.resolve
  declaration := l.sets (·.declaration)
  declarationDir := (l.sets (·.declarationDir)).map l.resolve
  composite := l.sets (·.composite)

end Layer

/-- The options of layers, each over those before it. -/
def merge (layers : List Layer) : Options :=
  layers.foldl (fun lower l => lower.override l.options) {}

theorem merge_concat (layers : List Layer) (l : Layer) :
    merge (layers ++ [l]) = (merge layers).override l.options := by
  unfold merge
  rw [List.foldl_append, List.foldl_cons, List.foldl_nil]

theorem merge_append (layers layers' : List Layer) :
    merge (layers ++ layers') = (merge layers).override (merge layers') := by
  induction layers' using List.reverseRecOn with
  | nil => rw [List.append_nil, merge, merge, List.foldl_nil, Options.override_blank]
  | append_singleton layers' l ih =>
    rw [← List.append_assoc, merge_concat, merge_concat, ih, Options.override_assoc]

/-! ## The listing of a file -/

/-- The file at a path after what it extends; `parents` are what its references lead to, each with
its own listing. -/
inductive Listed (d : Disk) : Path → List Layer → Prop
  | file {path : Path} {declared : Declared} {parents : List (Path × List Layer)} :
      declaredAt d path = .ok declared →
      (referencesOf declared).map (Reference.resolve? d path.parentOrRoot) =
        parents.map (some ·.1) →
      (∀ x ∈ parents, Listed d x.1 x.2) →
        Listed d path (parents.flatMap (·.2) ++ [⟨path, declared⟩])

theorem eq_of_map_fst_eq {α β : Type} {P : α → β → Prop} {xs ys : List (α × β)}
    (h : xs.map (·.1) = ys.map (·.1)) (hx : ∀ x ∈ xs, ∀ b, P x.1 b → x.2 = b)
    (hy : ∀ y ∈ ys, P y.1 y.2) : xs = ys := by
  induction xs generalizing ys with
  | nil => simpa using h.symm
  | cons x xs ih =>
    obtain ⟨a, b⟩ := x
    cases ys with
    | nil => simp at h
    | cons y ys =>
      obtain ⟨a', b'⟩ := y
      simp only [List.map_cons, List.cons.injEq] at h
      obtain ⟨rfl, h⟩ := h
      obtain rfl := hx _ (.head _) b' (hy _ (.head _))
      rw [ih h (fun x hm => hx x (.tail _ hm)) fun y hm => hy y (.tail _ hm)]

/-- A file has one listing. -/
theorem Listed.unique {d : Disk} {path : Path} {layers layers' : List Layer}
    (h : Listed d path layers) (h' : Listed d path layers') : layers = layers' := by
  induction h generalizing layers' with
  | @file path declared parents hd hr _ ih =>
    cases h' with
    | @file _ declared' parents' hd' hr' hp' =>
      obtain rfl := Except.ok.inj (hd.symm.trans hd')
      have hfst : parents.map (·.1) = parents'.map (·.1) := by
        rw [hr] at hr'
        refine (List.map_inj_right fun _ _ => Option.some.inj).1 ?_
        rwa [List.map_map, List.map_map]
      rw [eq_of_map_fst_eq hfst (fun x hx _ => ih x hx) hp']

theorem options_withOwn (path : Path) (declared : Declared) (loaded : Loaded) :
    (withOwn path declared loaded).options =
      loaded.options.override (Layer.options ⟨path, declared⟩) := by
  unfold withOwn Layer.options Layer.sets
  cases declared.options with
  | none => exact (Options.override_blank _).symm
  | some o => rfl

/-- The references of a file lead to files with listings, whose options are put over those
before. -/
theorem listed_of_loadReferences {d : Disk} {ancestry : List Location} {path dir : Path}
    (hfile : ∀ files parent loaded, loadFile d ancestry files parent = .ok loaded →
      ∃ layers, Listed d parent layers ∧ loaded.options = merge layers)
    {references : List String} {before loaded : Loaded}
    (h : loadReferences d ancestry path dir before references = .ok loaded) :
    ∃ parents : List (Path × List Layer),
      references.map (Reference.resolve? d dir) = parents.map (some ·.1) ∧
      (∀ x ∈ parents, Listed d x.1 x.2) ∧
      loaded.options = before.options.override (merge (parents.flatMap (·.2))) := by
  induction references generalizing before with
  | nil =>
    rw [loadReferences_nil] at h
    cases h
    exact ⟨[], rfl, by simp, (Options.override_blank _).symm⟩
  | cons reference rest ih =>
    obtain ⟨parent, upper, hp, hu, hrest⟩ := loadReferences_cons_eq_ok_iff.1 h
    obtain ⟨layers, hl, ho⟩ := hfile _ _ _ hu
    obtain ⟨parents, hr, hpar, hopt⟩ := ih hrest
    refine ⟨(parent, layers) :: parents, by simp [hp, hr], ?_, ?_⟩
    · exact List.forall_mem_cons.2 ⟨hl, hpar⟩
    · rw [hopt, ho, List.flatMap_cons, merge_append, Options.override_assoc]

/-- **The walk** merges the listing of the file. -/
theorem listed_of_loadFile {d : Disk} {ancestry : List Location} {files : List Path} {path : Path}
    {loaded : Loaded} (h : loadFile d ancestry files path = .ok loaded) :
    ∃ layers, Listed d path layers ∧ loaded.options = merge layers := by
  induction ancestry using ancestry_induction (d := d) generalizing files path loaded with
  | step ancestry ih =>
    obtain ⟨location, declared, upper, hl, hv, hd, hu, rfl⟩ := loadFile_eq_ok_iff.1 h
    obtain ⟨parents, hr, hp, ho⟩ :=
      listed_of_loadReferences (fun _ _ _ => ih path location declared hl hd hv) hu
    refine ⟨_, .file hd hr hp, ?_⟩
    rw [options_withOwn, ho, merge_concat, Options.blank_override]

/-! ## Merged values -/

/-- The value is what the last layer says that sets one; there is none when no layer does. -/
def IsLast {α : Type} (layers : List Layer) (sets : Layer → Option α) : Option α → Prop
  | some v => ∃ before l after, layers = before ++ l :: after ∧ sets l = some v ∧
      ∀ x ∈ after, sets x = none
  | none => ∀ l ∈ layers, sets l = none

theorem isLast_concat {α : Type} {layers : List Layer} {sets : Layer → Option α} {value : Option α}
    (h : IsLast layers sets value) (l : Layer) :
    IsLast (layers ++ [l]) sets ((sets l).or value) := by
  cases hl : sets l with
  | some v => exact ⟨layers, l, [], rfl, hl, by simp⟩
  | none =>
    rw [Option.none_or]
    cases value with
    | none => exact List.forall_mem_append.2 ⟨h, by simpa using hl⟩
    | some v =>
      obtain ⟨before, l', after, rfl, hv, ha⟩ := h
      have ha : ∀ x ∈ after ++ [l], sets x = none :=
        List.forall_mem_append.2 ⟨ha, by simpa using hl⟩
      exact ⟨before, l', after ++ [l], by simp, hv, ha⟩

/-- An option that is put over the one below is the last one set. -/
theorem isLast_merge {α : Type} (option : Options → Option α) (hblank : option {} = none)
    (hover : ∀ lower upper, option (lower.override upper) = (option upper).or (option lower))
    (layers : List Layer) :
    IsLast layers (fun l => option l.options) (option (merge layers)) := by
  induction layers using List.reverseRecOn with
  | nil =>
    rw [merge, List.foldl_nil, hblank]
    exact fun l hl => absurd hl List.not_mem_nil
  | append_singleton layers l ih =>
    rw [merge_concat, hover]
    exact isLast_concat ih l

/-- The options of a configuration are the last ones that the layers set; `declaration` falls back
on `composite`. -/
structure Merged (layers : List Layer) (config : Configuration) : Prop where
  rootDir : IsLast layers (fun l => (l.sets (·.rootDir)).map l.resolve) config.rootDir
  rootDirs : IsLast layers (fun l => (l.sets (·.rootDirs)).map (·.map l.resolve)) config.rootDirs
  outDir : IsLast layers (fun l => (l.sets (·.outDir)).map l.resolve) config.outDir
  declarationDir :
    IsLast layers (fun l => (l.sets (·.declarationDir)).map l.resolve) config.declarationDir
  declaration : ∃ declaration composite, IsLast layers (·.sets (·.declaration)) declaration ∧
    IsLast layers (·.sets (·.composite)) composite ∧
    config.declaration = declaration.getD (composite.getD false)

/-! ## A file that extends one other -/

theorem eq_ok_of_toOption {ε α : Type} {e : Except ε α} {a : α} (h : e.toOption = some a) :
    e = .ok a := by
  cases e with
  | error => cases h
  | ok b => rw [Option.some.inj h]

/-- What the file at a known location declares. -/
theorem declaredAt_of_node? {d : Disk} (hd : d.LinkFree) {path : Path} {l : Location}
    {bytes : Text.Bytes} {executable : Bool} {declared : Declared} (hp : d.place? path = some l)
    (hn : d.node? l = some (.file bytes executable))
    (hb : (Declared.ofBytes path bytes).toOption = some declared) :
    declaredAt d path = .ok declared :=
  declaredAt_eq_ok_iff.2
    ⟨l, bytes, Disk.locate_of_place? hd hp hn, by rw [Disk.bytesAt?, hn], eq_ok_of_toOption hb⟩

theorem file?_of_isFile {d : Disk} {candidate : Path} (h : d.isFile candidate) :
    Reference.file? d candidate = some candidate := by
  rw [Reference.file?, if_pos h]

/-- A relative reference leads to the file that it spells. -/
theorem resolve?_of_isRelative {d : Disk} {dir found : Path} {reference : String}
    (hr : Reference.isRelative reference)
    (hf : Reference.file? d (dir.resolveAgainst (Path.normalizeSeparators ⟨reference⟩)) =
      some found) : Reference.resolve? d dir reference = some found := by
  unfold Reference.resolve?
  dsimp only
  rw [hr, Bool.true_or, if_pos rfl, hf]

/-- What a file loads as that extends another, which extends nothing. -/
theorem load_of_extends_one {d : Disk} {path parent : Path} {location location' : Location}
    {declared declared' : Declared} {reference : String} (hn : path.normalize = path)
    (hl : d.locate true path = .ok location) (hl' : d.locate true parent = .ok location')
    (hne : location' ≠ location) (hd : declaredAt d path = .ok declared)
    (hd' : declaredAt d parent = .ok declared') (hr : referencesOf declared = [reference])
    (hr' : referencesOf declared' = [])
    (hp : Reference.resolve? d path.parentOrRoot reference = some parent) :
    load d path = .ok (ofLoaded path
      (withOwn path declared (withOwn parent declared' ⟨{}, addFile [path] parent⟩))) := by
  have hparent : loadFile d [location] [path] parent =
      .ok (withOwn parent declared' ⟨{}, addFile [path] parent⟩) :=
    loadFile_eq_ok_iff.2 ⟨location', declared', _, hl', by simpa using hne, hd',
      hr' ▸ loadReferences_nil, rfl⟩
  have hrefs : loadReferences d [location] path path.parentOrRoot ⟨{}, addFile [] path⟩
      (referencesOf declared) = .ok (withOwn parent declared' ⟨{}, addFile [path] parent⟩) := by
    rw [hr]
    refine loadReferences_cons_eq_ok_iff.2 ⟨parent, _, hp, hparent, ?_⟩
    rw [loadReferences_nil, Options.blank_override]
  rw [load_eq_ok_iff, hn]
  exact ⟨_, loadFile_eq_ok_iff.2 ⟨location, declared, _, hl, List.not_mem_nil, hd, hrefs, rfl⟩, rfl⟩

/-- A project whose configuration extends one in another directory. -/
def layeredProject : Disk where
  nodes := [
    (["w"], .directory),
    (["w", "lib"], .directory),
    (["w", "tsconfig.json"], .file (Text.encode
      "\x7b\"extends\": \"./lib/base.json\", \"compilerOptions\": \x7b\"composite\": true\x7d\x7d")
      false),
    (["w", "lib", "base.json"], .file (Text.encode
      "\x7b\"compilerOptions\": \x7b\"outDir\": \"dist\"\x7d\x7d") false)]
  cwd := []

theorem layeredProject_linkFree : layeredProject.LinkFree :=
  Disk.linkFree_of_forall_mem (by simp [layeredProject])

/-- The configuration of the project; `outDir` is taken from the directory of the file that sets
it. -/
def layeredConfig : Configuration where
  configFilePath := ⟨"/w/tsconfig.json"⟩
  rootDir := none
  rootDirs := none
  outDir := some ⟨"/w/lib/dist"⟩
  declaration := true
  declarationDir := none
  sourceFiles := [⟨"/w/tsconfig.json"⟩, ⟨"/w/lib/base.json"⟩]

theorem load_layeredProject : load layeredProject ⟨"/w/tsconfig.json"⟩ = .ok layeredConfig := by
  have hd := layeredProject_linkFree
  have hl : layeredProject.locate true ⟨"/w/tsconfig.json"⟩ = .ok ["w", "tsconfig.json"] :=
    Disk.locate_of_place? hd (by decide) rfl
  have hl' : layeredProject.locate true ⟨"/w/lib/base.json"⟩ = .ok ["w", "lib", "base.json"] :=
    Disk.locate_of_place? hd (by decide) rfl
  have hdec : declaredAt layeredProject ⟨"/w/tsconfig.json"⟩ =
      .ok ⟨some ["./lib/base.json"], some { composite := some true }⟩ :=
    declaredAt_of_node? hd (l := ["w", "tsconfig.json"]) (by decide) rfl (by decide +kernel)
  have hdec' : declaredAt layeredProject ⟨"/w/lib/base.json"⟩ =
      .ok ⟨none, some { outDir := some "dist" }⟩ :=
    declaredAt_of_node? hd (l := ["w", "lib", "base.json"]) (by decide) rfl (by decide +kernel)
  have hf : layeredProject.isFile ⟨"/w/lib/base.json"⟩ :=
    (Disk.isFile_iff hd).2 ⟨["w", "lib", "base.json"], _, _, by decide, rfl⟩
  have hp : Reference.resolve? layeredProject ⟨"/w"⟩ "./lib/base.json" =
      some ⟨"/w/lib/base.json"⟩ := by
    refine resolve?_of_isRelative (by decide) ?_
    rw [show (⟨"/w"⟩ : Path).resolveAgainst (Path.normalizeSeparators ⟨"./lib/base.json"⟩) =
      ⟨"/w/lib/base.json"⟩ by decide, file?_of_isFile hf]
  have hload := load_of_extends_one (by decide) hl hl' (by decide) hdec hdec' rfl rfl hp
  exact hload.trans (congrArg _ (by decide))

/-! ## The main result -/

/-- **What a configuration merges to**: it has one listing, and each of its options is the value of
the last file there that sets it. -/
theorem load_merged {d : Disk} {path : Path} {config : Configuration}
    (h : load d path = .ok config) :
    ∃ layers, (∀ layers', Listed d path.normalize layers' ↔ layers' = layers) ∧
      Merged layers config := by
  obtain ⟨loaded, hload, rfl⟩ := load_eq_ok_iff.1 h
  obtain ⟨layers, hl, ho⟩ := listed_of_loadFile hload
  refine ⟨layers, fun layers' => ⟨fun hl' => hl'.unique hl, fun he => he ▸ hl⟩, ?_⟩
  unfold ofLoaded
  simp only [ho]
  exact {
    rootDir := isLast_merge (·.rootDir) rfl (fun _ _ => rfl) layers
    rootDirs := isLast_merge (·.rootDirs) rfl (fun _ _ => rfl) layers
    outDir := isLast_merge (·.outDir) rfl (fun _ _ => rfl) layers
    declarationDir := isLast_merge (·.declarationDir) rfl (fun _ _ => rfl) layers
    declaration := ⟨_, _, isLast_merge (·.declaration) rfl (fun _ _ => rfl) layers,
      isLast_merge (·.composite) rfl (fun _ _ => rfl) layers, rfl⟩ }

theorem load_merged_layeredProject : load layeredProject ⟨"/w/tsconfig.json"⟩ = .ok layeredConfig ∧
    ∃ layers, (∀ layers', Listed layeredProject (⟨"/w/tsconfig.json"⟩ : Path).normalize layers' ↔
      layers' = layers) ∧ Merged layers layeredConfig :=
  ⟨load_layeredProject, load_merged load_layeredProject⟩

end Configuration

end BuildLayout
