import BuildLayout.Proofs.Config.Consulted
import BuildLayout.Proofs.Config.Merge
import BuildLayout.Proofs.Config.Run

/-!
# When remembered configurations are right

`Cache.invalidate` drops the configurations that were read from a file by the path of a change. It
keeps one that depends on the place of the change otherwise: a reference was tried there in vain, or
the file was read by a path that is spelled in another way (`Cache.noticed_of_file`).
`Cache.Noticed` says that there is none such.

While every change of a run is noticed, a lookup of an absolute path gives what it gives without a
cache, and the lookups after one more change go on to do so, whatever the change writes, exactly
when it is noticed (`resolve_remembered_iff`). A run with an unnoticed change is
`resolve_unnoticed`.
-/

namespace BuildLayout

open Disk (LinkFree FileChange FileOrFree IsPathTo)
open BuildLayout.Path (IsPlain)

namespace Configuration

theorem normalize_fileIn {dir : Location} (h : ∀ s ∈ dir, IsPlain s) :
    (fileIn dir).normalize = fileIn dir :=
  Disk.IsPathTo.normalize (.inl rfl) (isPlain_concat_configName h)

theorem exists_fileIn_of_find {d : Disk} {file config : Path} (ha : file.normal.absolute)
    (h : find d file = .ok config) : ∃ dir, (∀ s ∈ dir, IsPlain s) ∧ config = fileIn dir := by
  rw [find_of_absolute ha] at h
  split at h
  · next dir hdir =>
    cases h
    exact ⟨dir, normal_proper_prefix_plain (List.mem_of_find?_eq_some hdir), rfl⟩
  · cases h

end Configuration

namespace Cache

open BuildLayout.Configuration

/-! ## Right configurations -/

/-- The remembered configurations are right: each is of a configuration file and is what that file
loads as. -/
def ResolvedOk (d : Disk) (c : Cache) : Prop :=
  ∀ e ∈ c.resolved, ∃ dir, (∀ s ∈ dir, IsPlain s) ∧ e.1 = fileIn dir ∧ load d e.1 = .ok e.2

theorem find_resolved (d : Disk) (c : Cache) (file : Path) :
    (c.find d file).2.resolved = c.resolved := by
  rw [find_snd]
  obtain ⟨added, config, -, he⟩ := search_snd d c (searchDirs file) []
  rw [he]
  rfl

theorem load_of_get? {d : Disk} {c : Cache} (hc : ResolvedOk d c) {dir : Location}
    (hp : ∀ s ∈ dir, IsPlain s) {known : Configuration}
    (h : get? c.resolved (fileIn dir) = some known) : load d (fileIn dir) = .ok known := by
  obtain ⟨q, hq, hs⟩ := get?_eq_some h
  obtain ⟨dir', hp', rfl, hl⟩ := hc _ hq
  have heq := (Path.same_pathOf (fun s hs => (isPlain_concat_configName hp' s hs).1)
    fun s hs => (isPlain_concat_configName hp s hs).1).1 hs
  unfold fileIn at hl ⊢
  rwa [← heq]

/-- **A lookup with a cache** that is right gives what one without a cache gives, and keeps it
right. -/
theorem resolve_spec {d : Disk} {c : Cache} (hn : NearestOk d c) (hc : ResolvedOk d c) {file : Path}
    (ha : file.normal.absolute) :
    (c.resolve d file).1 = Configuration.resolve d file ∧ ResolvedOk d (c.resolve d file).2 := by
  have hfind := (find_spec hn ha).1
  have hres := find_resolved d c file
  unfold Cache.resolve Configuration.resolve
  rw [← hfind]
  cases hf : c.find d file with
  | mk answer c' =>
    rw [hf] at hfind hres
    have hc' : ResolvedOk d c' := fun e he => hc e (hres ▸ he)
    cases answer with
    | error f => exact ⟨rfl, hc'⟩
    | ok config =>
      obtain ⟨dir, hp, rfl⟩ := exists_fileIn_of_find ha hfind.symm
      dsimp only
      split
      · next known hk => exact ⟨(load_of_get? hc' hp hk).symm, hc'⟩
      · split
        · next f hl => exact ⟨hl.symm, hc'⟩
        · next loaded hl =>
          refine ⟨hl.symm, fun e he => ?_⟩
          rcases mem_of_mem_insert he with rfl | he
          · exact ⟨dir, hp, rfl, hl⟩
          · exact hc' e he

theorem resolvedOk_of_subset {d : Disk} {c c' : Cache} (hc : ResolvedOk d c)
    (h : ∀ e ∈ c'.resolved, e ∈ c.resolved) : ResolvedOk d c' :=
  fun e he => hc e (h e he)

/-! ## Noticed changes -/

/-- Every remembered configuration that depends on the place of a change was read from a file by
the path of the change. -/
def Noticed (d : Disk) (c : Cache) (location : Location) (changed : Path) : Prop :=
  ∀ e ∈ c.resolved, DependsOn d e.1 location → ∃ p ∈ e.2.sourceFiles, p.same changed.normalize

/-- A change is noticed when no configuration that is kept depends on it. -/
theorem noticed_iff {d : Disk} {c : Cache} {location : Location} {changed : Path} :
    Noticed d c location changed ↔
      ∀ e ∈ (c.invalidate changed).resolved, ¬ DependsOn d e.1 location := by
  have hmem : ∀ e, e ∈ (c.invalidate changed).resolved ↔
      e ∈ c.resolved ∧ ¬ ∃ p ∈ e.2.sourceFiles, p.same changed.normalize := by
    intro e
    unfold invalidate
    simp
  simp only [hmem]
  constructor
  · rintro h e ⟨he, hkept⟩ hdep
    exact hkept (h e he hdep)
  · intro h e he hdep
    by_contra hkept
    exact h e ⟨he, hkept⟩ hdep

theorem resolvedOk_change {d d' : Disk} {c : Cache} {location : Location} {changed : Path}
    (hd : LinkFree d) (hc : ResolvedOk d c) (h : FileChange d d' location)
    (hn : Noticed d c location changed) : ResolvedOk d' (c.invalidate changed) := by
  intro e he
  obtain ⟨dir, hp, h1, hl⟩ := hc e (List.mem_of_mem_filter he)
  refine ⟨dir, hp, h1, (load_eq_ok_iff_of_change h hd ?_).2 hl⟩
  rw [h1, normalize_fileIn hp, ← h1]
  exact noticed_iff.1 hn e he

/-- A change of a file that is there is noticed, as far as files were read by their normal paths. -/
theorem noticed_of_file {d : Disk} {c : Cache} (hd : LinkFree d) (hc : ResolvedOk d c)
    {location : Location} {changed : Path} {bytes : Text.Bytes} {executable : Bool}
    (hn : d.node? location = some (.file bytes executable)) (hl : IsPathTo changed location)
    (hnormal : ∀ e ∈ c.resolved, ∀ q, Relation.ReflTransGen (Extends d) e.1 q →
      q.isAbsolute ∧ q.normalize = q) : Noticed d c location changed := by
  intro e he hdep
  obtain ⟨dir, hp, h1, hload⟩ := hc e he
  have hself : e.1.normalize = e.1 := by rw [h1, normalize_fileIn hp]
  obtain ⟨q, hq, hplace, hrec⟩ := recorded_of_dependsOn hd hload hn (hself.symm ▸ hdep)
  rw [hself] at hq
  obtain ⟨hqa, hqn⟩ := hnormal e he q hq
  have hplain := Path.normal_plain q
  rw [Path.normalize_of_absolute (Path.normal_absolute_of_isAbsolute hqa)] at hqn
  rw [← hqn] at hplace hrec
  rw [Disk.place?_pathOf (fun s hs => (hplain s hs).1) hplace] at hl
  rw [hl.normalize hplain]
  exact hrec

/-- A configuration file governs what lies in its directory, itself too. -/
theorem find_pathOf_concat {d : Disk} {dir : Location} {s : String}
    (hp : ∀ t ∈ dir ++ [s], IsPlain t) (hf : d.isFile (fileIn dir)) :
    Configuration.find d (Disk.pathOf (dir ++ [s])) = .ok (fileIn dir) := by
  have hnormal := Path.normal_pathOf hp
  have hnearest := nearestDir?_of_holdsConfig hf
  unfold nearestDir? at hnearest
  rw [find_of_absolute (by rw [hnormal]), hnormal, Disk.upwards_concat, List.tail_cons, hnearest]

theorem resolve_of_find {d : Disk} {file config : Path}
    (h : Configuration.find d file = .ok config) :
    Configuration.resolve d file = load d config := by
  unfold Configuration.resolve
  rw [h]

theorem isSome_get? {α : Type} {entries : List (Path × α)} {p : Path} {value : α}
    (h : (p, value) ∈ entries) : (get? entries p).isSome := by
  rw [get?, Option.isSome_map, List.find?_isSome]
  exact ⟨_, h, by simp [Path.same]⟩

/-- What is remembered of the configuration file that is found is the answer. -/
theorem resolve_of_get? {d : Disk} {c : Cache} {file config : Path} {known : Configuration}
    (hf : (c.find d file).1 = .ok config) (hk : get? c.resolved config = some known) :
    (c.resolve d file).1 = .ok known := by
  rw [← find_resolved d c file] at hk
  unfold Cache.resolve
  cases hc : c.find d file with
  | mk answer c' =>
    rw [hc] at hf hk
    obtain rfl : answer = .ok config := hf
    simp only [hk]

/-- What was not remembered is remembered afterwards. -/
theorem resolve_snd_resolved {d : Disk} {c : Cache} {file config : Path} {loaded : Configuration}
    (hf : (c.find d file).1 = .ok config) (hk : get? c.resolved config = none)
    (hl : load d config = .ok loaded) :
    (c.resolve d file).2.resolved = insert c.resolved config loaded := by
  have hres := find_resolved d c file
  unfold Cache.resolve
  cases hc : c.find d file with
  | mk answer c' =>
    rw [hc] at hf hres
    obtain rfl : answer = .ok config := hf
    have hres : c'.resolved = c.resolved := hres
    simp only [hres, hk, hl]

/-! ## Runs -/

/-- One step of a run in which changes are noticed. -/
inductive NoticedStep : Disk × Cache → Disk × Cache → Prop
  | look {d : Disk} {c c' : Cache} : Step (d, c) (d, c') → NoticedStep (d, c) (d, c')
  | change {d d' : Disk} {c : Cache} {location : Location} {changed : Path} :
      FileChange d d' location → IsPathTo changed location → Noticed d c location changed →
        NoticedStep (d, c) (d', c.invalidate changed)

/-- The state is reached from a disk and an empty cache, and every change was noticed. -/
def ReachedNoticed (s : Disk × Cache) : Prop :=
  ∃ d, LinkFree d ∧ Relation.ReflTransGen NoticedStep (d, {}) s

theorem NoticedStep.step {s s' : Disk × Cache} (h : NoticedStep s s') : Step s s' := by
  cases h with
  | look h => exact h
  | change hf hl _ => exact .change _ hf hl

theorem ReachedNoticed.reached {s : Disk × Cache} (h : ReachedNoticed s) : Reached s := by
  obtain ⟨d, hd, hr⟩ := h
  exact ⟨d, hd, Relation.ReflTransGen.mono (fun _ _ => NoticedStep.step) _ _ hr⟩

theorem resolvedOk_look {d d' : Disk} {c c' : Cache} (h : Step (d, c) (d', c')) (he : d' = d)
    (hs : Ok d c) (hc : ResolvedOk d c) : ResolvedOk d' c' := by
  cases h with
  | find _ _ file => exact resolvedOk_of_subset hc fun e he => find_resolved d c file ▸ he
  | resolve _ _ ha => exact (resolve_spec hs.nearest hc (Path.normal_absolute_of_isAbsolute ha)).2
  | change => exact he ▸ resolvedOk_of_subset hc fun e he => List.mem_of_mem_filter he
  | invalidate => exact resolvedOk_of_subset hc fun e he => List.mem_of_mem_filter he
  | clear => exact fun e he => absurd he List.not_mem_nil

/-- **One step** keeps the remembered configurations right. -/
theorem NoticedStep.resolvedOk {d d' : Disk} {c c' : Cache} (h : NoticedStep (d, c) (d', c'))
    (hs : Ok d c) (hc : ResolvedOk d c) : ResolvedOk d' c' := by
  cases h with
  | change hf _ hn => exact resolvedOk_change hs.linkFree hc hf hn
  | look h => exact resolvedOk_look h rfl hs hc

/-- **A whole run** keeps them right. -/
theorem ReachedNoticed.resolvedOk {d : Disk} {c : Cache} (h : ReachedNoticed (d, c)) :
    ResolvedOk d c := by
  obtain ⟨d0, hd, hr⟩ := h
  have key : ∀ s, Relation.ReflTransGen NoticedStep (d0, {}) s → ResolvedOk s.1 s.2 := by
    intro s hr
    induction hr with
    | refl => exact fun e he => absurd he List.not_mem_nil
    | tail hr hs ih => exact hs.resolvedOk (ReachedNoticed.reached ⟨d0, hd, hr⟩).ok ih
  exact key _ hr

/-- A change that is not noticed makes an answer wrong when it writes what is no text. -/
theorem exists_wrong_of_not_noticed {d : Disk} {c : Cache} (hs : Ok d c) (hc : ResolvedOk d c)
    {location : Location} {changed : Path} (hfree : FileOrFree d location)
    (hl : IsPathTo changed location) (hn : ¬ Noticed d c location changed) :
    ∃ d', FileChange d d' location ∧ ∃ file : Path, file.isAbsolute ∧
      ((c.invalidate changed).resolve d' file).1 ≠ Configuration.resolve d' file := by
  obtain ⟨⟨key, value⟩, he, hdep⟩ : ∃ e ∈ (c.invalidate changed).resolved,
      DependsOn d e.1 location := by
    by_contra hall
    exact hn (noticed_iff.2 fun e he hdep => hall ⟨e, he, hdep⟩)
  obtain ⟨dir, hp, rfl, hload⟩ := hc _ (List.mem_of_mem_filter he)
  have hchange := FileChange.put hfree malformed false
  have hd' := hchange.linkFree hs.linkFree
  have hnormal := normalize_fileIn hp
  have hplain := isPlain_concat_configName hp
  have hf : (d.put location (.file malformed false)).isFile (fileIn dir) :=
    FileChange.isFile_put hfree hs.linkFree (hnormal ▸ isFile_of_load hs.linkFree hload)
  refine ⟨_, hchange, fileIn dir, Path.isAbsolute_pathOf _, fun heq => ?_⟩
  -- the cache answers, and without it the file that is no text is in the way
  have hfind : Configuration.find _ (fileIn dir) = .ok (fileIn dir) := find_pathOf_concat hplain hf
  have hcached := (find_spec (nearestOk_change hs.linkFree hs.nearest hchange hl)
    (by rw [fileIn, Path.normal_pathOf hplain] : (fileIn dir).normal.absolute)).1.trans hfind
  obtain ⟨known, hk⟩ := Option.isSome_iff_exists.1 (isSome_get? he)
  rw [resolve_of_get? hcached hk, resolve_of_find hfind] at heq
  have hnode : (d.put location (.file malformed false)).node? location =
      some (.file malformed false) := by
    rw [Disk.node?_put hfree.ne_nil, if_pos rfl]
  refine not_load_of_malformed hd' hnode ?_ known heq.symm
  rw [hnormal]
  exact hdep.of_change hchange.symm hd'

end Cache

/-! ## A project whose configuration extends another file -/

/-- A project whose configuration extends what is in `base.json`, by the name `./base`. -/
def extendingProject : Disk where
  nodes := [
    (["w"], .directory),
    (["w", "tsconfig.json"], .file (Text.encode "\x7b \"extends\": \"./base\" \x7d") false),
    (["w", "base.json"], .file (Text.encode
      "\x7b \"compilerOptions\": \x7b \"outDir\": \"a\" \x7d \x7d") false)]
  cwd := []

/-- The project with a file of that name. -/
def shadowedProject : Disk :=
  extendingProject.put ["w", "base"] (.file (Text.encode
    "\x7b \"compilerOptions\": \x7b \"outDir\": \"b\" \x7d \x7d") false)

/-- What the project builds into, and the file that says so. -/
def extendingConfig (outDir base : Path) : Configuration where
  configFilePath := ⟨"/w/tsconfig.json"⟩
  rootDir := none
  rootDirs := none
  outDir := some outDir
  declaration := false
  declarationDir := none
  sourceFiles := [⟨"/w/tsconfig.json"⟩, base]

theorem extendingProject_linkFree : LinkFree extendingProject :=
  Disk.linkFree_of_forall_mem (by simp [extendingProject])

theorem extendingProject_free : extendingProject.node? ["w", "base"] = none := by decide

theorem extendingProject_fileOrFree : FileOrFree extendingProject ["w", "base"] :=
  Disk.fileOrFree_of_free extendingProject_free

theorem fileChange_shadowedProject : FileChange extendingProject shadowedProject ["w", "base"] :=
  .put extendingProject_fileOrFree _ _

/-- What the configuration of either project loads as, by what `./base` leads to. -/
theorem load_extending {d : Disk} (hd : LinkFree d) {l : Location} {parent : Path} {text : String}
    (hnode : d.node? ["w", "tsconfig.json"] =
      some (.file (Text.encode "\x7b \"extends\": \"./base\" \x7d") false))
    (hplace : d.place? ⟨"/w/tsconfig.json"⟩ = some ["w", "tsconfig.json"])
    (hl : d.locate true parent = .ok l) (hne : l ≠ ["w", "tsconfig.json"])
    (hdec : Configuration.declaredAt d parent = .ok ⟨none, some { outDir := some text }⟩)
    (hp : Reference.file? d ⟨"/w/base"⟩ = some parent) :
    Configuration.load d ⟨"/w/tsconfig.json"⟩ = .ok (Configuration.ofLoaded ⟨"/w/tsconfig.json"⟩
      ⟨Options.ofDeclared parent.parentOrRoot { outDir := some text },
        Configuration.addFile [⟨"/w/tsconfig.json"⟩] parent⟩) := by
  have hdec' : Configuration.declaredAt d ⟨"/w/tsconfig.json"⟩ = .ok ⟨some ["./base"], none⟩ :=
    Configuration.declaredAt_of_node? hd hplace hnode (by decide +kernel)
  have hparent : Reference.resolve? d ⟨"/w"⟩ "./base" = some parent :=
    Configuration.resolve?_of_isRelative (by decide) hp
  have hload := Configuration.load_of_extends_one (by decide)
    (Disk.locate_of_place? hd hplace hnode) hl hne hdec' hdec rfl rfl hparent
  simpa only [Configuration.withOwn, Options.blank_override] using hload

/-- What `./base` leads to while there is no file of that name. -/
theorem file?_base {d : Disk} (hd : LinkFree d) (hdirs : Disk.SameDirectories extendingProject d)
    (hfree : d.node? ["w", "base"] = none) {bytes : Text.Bytes} {executable : Bool}
    (hnode : d.node? ["w", "base.json"] = some (.file bytes executable)) :
    Reference.file? d ⟨"/w/base"⟩ = some ⟨"/w/base.json"⟩ := by
  have hplace : d.place? ⟨"/w/base.json"⟩ = some ["w", "base.json"] :=
    (hdirs.place?_eq _).trans (by decide)
  have habsent : d.isFile ⟨"/w/base"⟩ = false := by
    have hbase : d.place? ⟨"/w/base"⟩ = some ["w", "base"] :=
      (hdirs.place?_eq _).trans (by decide)
    rw [Bool.eq_false_iff, ne_eq, Disk.isFile_iff hd]
    rintro ⟨l, bytes, executable, hl, hn⟩
    obtain rfl := Option.some.inj (hbase.symm.trans hl)
    rw [hfree] at hn
    cases hn
  have happend : (⟨"/w/base"⟩ : Path).append ".json" = ⟨"/w/base.json"⟩ := by decide
  rw [Reference.file?, if_neg (by simp [habsent]), if_neg (by decide)]
  simp only [happend]
  rw [if_pos ((Disk.isFile_iff hd).2 ⟨_, _, _, hplace, hnode⟩)]

/-- What the configuration loads as while `base.json` is what `./base` leads to. -/
theorem load_extending_json {d : Disk} (hd : LinkFree d)
    (hdirs : Disk.SameDirectories extendingProject d)
    (hsame : ∀ l ∈ [["w", "tsconfig.json"], ["w", "base"], ["w", "base.json"]],
      d.node? l = extendingProject.node? l) :
    Configuration.load d ⟨"/w/tsconfig.json"⟩ =
      .ok (extendingConfig ⟨"/w/a"⟩ ⟨"/w/base.json"⟩) := by
  have hplace : d.place? ⟨"/w/base.json"⟩ = some ["w", "base.json"] :=
    (hdirs.place?_eq _).trans (by decide)
  have hnode : d.node? ["w", "base.json"] = some (.file (Text.encode
      "\x7b \"compilerOptions\": \x7b \"outDir\": \"a\" \x7d \x7d") false) :=
    (hsame _ (by simp)).trans (by decide)
  have hdec : Configuration.declaredAt d ⟨"/w/base.json"⟩ =
      .ok ⟨none, some { outDir := some "a" }⟩ :=
    Configuration.declaredAt_of_node? hd hplace hnode (by decide +kernel)
  have hf := file?_base hd hdirs ((hsame _ (by simp)).trans extendingProject_free) hnode
  have hload := load_extending hd ((hsame _ (by simp)).trans (by decide))
    ((hdirs.place?_eq _).trans (by decide)) (Disk.locate_of_place? hd hplace hnode) (by decide)
    hdec hf
  exact hload.trans (congrArg _ (by decide))

theorem load_extendingProject : Configuration.load extendingProject ⟨"/w/tsconfig.json"⟩ =
    .ok (extendingConfig ⟨"/w/a"⟩ ⟨"/w/base.json"⟩) :=
  load_extending_json extendingProject_linkFree ⟨fun _ => Iff.rfl, rfl⟩ fun _ _ => rfl

theorem load_shadowedProject : Configuration.load shadowedProject ⟨"/w/tsconfig.json"⟩ =
    .ok (extendingConfig ⟨"/w/b"⟩ ⟨"/w/base"⟩) := by
  have hd := fileChange_shadowedProject.linkFree extendingProject_linkFree
  have hplace : shadowedProject.place? ⟨"/w/base"⟩ = some ["w", "base"] := by decide
  have hnode : shadowedProject.node? ["w", "base"] = some (.file (Text.encode
      "\x7b \"compilerOptions\": \x7b \"outDir\": \"b\" \x7d \x7d") false) := by decide
  have hdec : Configuration.declaredAt shadowedProject ⟨"/w/base"⟩ =
      .ok ⟨none, some { outDir := some "b" }⟩ :=
    Configuration.declaredAt_of_node? hd hplace hnode (by decide +kernel)
  have hf : Reference.file? shadowedProject ⟨"/w/base"⟩ = some ⟨"/w/base"⟩ :=
    Configuration.file?_of_isFile ((Disk.isFile_iff hd).2 ⟨_, _, _, hplace, hnode⟩)
  have hload := load_extending hd (by decide) (by decide) (Disk.locate_of_place? hd hplace hnode)
    (by decide) hdec hf
  exact hload.trans (congrArg _ (by decide))

theorem find_beside {d : Disk} (hd : LinkFree d) {config : Configuration}
    (hl : Configuration.load d ⟨"/w/tsconfig.json"⟩ = .ok config) :
    Configuration.find d ⟨"/w/a.ts"⟩ = .ok ⟨"/w/tsconfig.json"⟩ := by
  have hfile : Configuration.fileIn ["w"] = ⟨"/w/tsconfig.json"⟩ := by decide
  have hnormal : (⟨"/w/tsconfig.json"⟩ : Path).normalize = ⟨"/w/tsconfig.json"⟩ := by decide
  have hbeside : Disk.pathOf (["w"] ++ ["a.ts"]) = ⟨"/w/a.ts"⟩ := by decide
  have hp : ∀ t ∈ ["w"] ++ ["a.ts"], IsPlain t := by
    unfold IsPlain Path.IsName
    decide
  have hf := Configuration.isFile_of_load hd hl
  rw [hnormal, ← hfile] at hf
  rw [← hbeside, ← hfile]
  exact Cache.find_pathOf_concat hp hf

/-- The cache after the first lookup. -/
theorem resolved_extendingProject :
    (({} : Cache).resolve extendingProject ⟨"/w/a.ts"⟩).2.resolved =
      [(⟨"/w/tsconfig.json"⟩, extendingConfig ⟨"/w/a"⟩ ⟨"/w/base.json"⟩)] := by
  have hempty := (Cache.reached_empty extendingProject_linkFree).ok.nearest
  have hfind := (Cache.find_spec hempty (by decide)).1.trans
    (find_beside extendingProject_linkFree load_extendingProject)
  exact Cache.resolve_snd_resolved hfind rfl load_extendingProject

/-! ## The main result -/

/-- **While every change is noticed** the answers are those without a cache; and after one more
change they are, whatever it writes, exactly when it is noticed. -/
theorem resolve_remembered_iff {d : Disk} {c : Cache} (h : Cache.ReachedNoticed (d, c)) :
    (∀ file : Path, file.isAbsolute → (c.resolve d file).1 = Configuration.resolve d file) ∧
    ∀ location changed, FileOrFree d location → IsPathTo changed location →
      ((∀ d', FileChange d d' location → ∀ file : Path, file.isAbsolute →
          ((c.invalidate changed).resolve d' file).1 = Configuration.resolve d' file) ↔
        c.Noticed d location changed) := by
  have hs := h.reached.ok
  have hc := h.resolvedOk
  refine ⟨fun file ha => ?_, fun location changed hfree hl =>
    ⟨fun hall => ?_, fun hn d' hf file ha => ?_⟩⟩
  · exact (Cache.resolve_spec hs.nearest hc (Path.normal_absolute_of_isAbsolute ha)).1
  · by_contra hn
    obtain ⟨d', hf, file, ha, hne⟩ := Cache.exists_wrong_of_not_noticed hs hc hfree hl hn
    exact hne (hall d' hf file ha)
  · exact (Cache.resolve_spec (Cache.nearestOk_change hs.linkFree hs.nearest hf hl)
      (Cache.resolvedOk_change hs.linkFree hc hf hn) (Path.normal_absolute_of_isAbsolute ha)).1

/-- After one lookup in the project, the lookups after a change of `base` hinge on whether it is
noticed. -/
theorem resolve_remembered_iff_extendingProject :
    let c := (({} : Cache).resolve extendingProject ⟨"/w/a.ts"⟩).2
    (c.resolve extendingProject ⟨"/w/a.ts"⟩).1 =
        Configuration.resolve extendingProject ⟨"/w/a.ts"⟩ ∧
      ((∀ d', FileChange extendingProject d' ["w", "base"] → ∀ file : Path, file.isAbsolute →
          ((c.invalidate ⟨"/w/base"⟩).resolve d' file).1 = Configuration.resolve d' file) ↔
        c.Noticed extendingProject ["w", "base"] ⟨"/w/base"⟩) := by
  intro c
  have hlook := Cache.Step.resolve extendingProject {}
    (by decide : (⟨"/w/a.ts"⟩ : Path).isAbsolute)
  have hreached : Cache.ReachedNoticed (extendingProject, c) :=
    ⟨extendingProject, extendingProject_linkFree, .single (.look hlook)⟩
  obtain ⟨hall, hiff⟩ := resolve_remembered_iff hreached
  exact ⟨hall _ (by decide), hiff _ _ extendingProject_fileOrFree (.inl rfl)⟩

/-- **A change that is not noticed**: a lookup, the making of `base` with its `invalidate`, and the
lookup again, which goes on to answer with what `base.json` says. -/
theorem resolve_unnoticed :
    let c := (({} : Cache).resolve extendingProject ⟨"/w/a.ts"⟩).2.invalidate ⟨"/w/base"⟩
    Cache.Reached (shadowedProject, c) ∧
      (c.resolve shadowedProject ⟨"/w/a.ts"⟩).1 =
        .ok (extendingConfig ⟨"/w/a"⟩ ⟨"/w/base.json"⟩) ∧
      Configuration.resolve shadowedProject ⟨"/w/a.ts"⟩ =
        .ok (extendingConfig ⟨"/w/b"⟩ ⟨"/w/base"⟩) ∧
      (c.resolve shadowedProject ⟨"/w/a.ts"⟩).1 ≠
        Configuration.resolve shadowedProject ⟨"/w/a.ts"⟩ := by
  intro c
  have hfound := (Cache.reached_empty extendingProject_linkFree).step
    (.resolve extendingProject {} (by decide : (⟨"/w/a.ts"⟩ : Path).isAbsolute))
  have hreached : Cache.Reached (shadowedProject, c) :=
    hfound.step (.change _ fileChange_shadowedProject (.inl rfl))
  have hkept : c.resolved =
      [(⟨"/w/tsconfig.json"⟩, extendingConfig ⟨"/w/a"⟩ ⟨"/w/base.json"⟩)] := by
    show List.filter _ _ = _
    rw [resolved_extendingProject]
    decide
  have hd := hreached.ok.linkFree
  have hfind := find_beside hd load_shadowedProject
  have hcached := Cache.resolve_of_get?
    ((Cache.find_spec hreached.ok.nearest (by decide)).1.trans hfind)
    (by rw [hkept]; decide :
      Cache.get? c.resolved _ = some (extendingConfig ⟨"/w/a"⟩ ⟨"/w/base.json"⟩))
  have hfresh := (Cache.resolve_of_find hfind).trans load_shadowedProject
  refine ⟨hreached, hcached, hfresh, ?_⟩
  rw [hcached, hfresh]
  decide

end BuildLayout
