import BuildLayout.Proofs.Config.Remembered
import BuildLayout.Proofs.Path.Normal

/-!
# The paths of a configuration

A path option is taken from the directory of the file that sets it. From an absolute path the walk
only reaches absolute paths, whatever the references look like (`isAbsolute_resolve?`,
`Listed.isAbsolute`), so every path option of a configuration is absolute and in normal form
(`isSettled_of_load`), and nothing that is done with it later depends on a directory.

`resolve_anchored` says so of a lookup of an absolute path, and that the configuration is the one of
the file that is found. A lookup through a cache gives such configurations at every moment of a
run: each step keeps those that are remembered so (`Cache.Step.anchored`).
-/

namespace BuildLayout

open Disk (pathOf)
open BuildLayout.Path (IsPlain)

namespace Path

/-! ## Absolute paths -/

theorem isAbsolute_of_parent? {p q : Path} (h : p.isAbsolute) (hq : p.parent? = some q) :
    q.isAbsolute := by
  obtain ⟨rest, hs⟩ := segments_of_isAbsolute h
  unfold parent? at hq
  rw [hs] at hq
  simp only [h, if_true] at hq
  split at hq
  · cases hq
  · cases hq
    decide
  · next init hinit _ =>
    obtain rfl := Option.some.inj hq
    rw [isAbsolute_ofSegments_cons _ _ (by simp)]
    simpa using hinit

theorem isAbsolute_parentOrRoot {p : Path} (h : p.isAbsolute) : p.parentOrRoot.isAbsolute := by
  unfold parentOrRoot
  cases hq : p.parent? with
  | none => decide
  | some q => exact isAbsolute_of_parent? h hq

theorem isAbsolute_of_mem_ancestors {p q : Path} (h : p.isAbsolute) (hq : q ∈ p.ancestors) :
    q.isAbsolute :=
  forall_mem_ancestorsUpTo isAbsolute_of_parent? _ h q hq

theorem isAbsolute_append {p : Path} (h : p.isAbsolute) (text : String) :
    (p.append text).isAbsolute := by
  unfold append
  unfold isAbsolute at h ⊢
  cases hp : p.text.toList with
  | nil => simp [hp] at h
  | cons c cs =>
    rw [hp] at h
    simpa [hp] using h

end Path

namespace Reference

/-! ## References -/

theorem isAbsolute_file? {d : Disk} {candidate found : Path} (h : candidate.isAbsolute)
    (hf : file? d candidate = some found) : found.isAbsolute := by
  unfold file? at hf
  dsimp only at hf
  split at hf
  · exact Option.some.inj hf ▸ h
  · split at hf
    · cases hf
    · split at hf
      · exact Option.some.inj hf ▸ Path.isAbsolute_append h ".json"
      · cases hf

theorem isAbsolute_packageIn? {d : Disk} {name dir found : Path} (h : dir.isAbsolute)
    (hf : packageIn? d name dir = some found) : found.isAbsolute := by
  have hcandidate : ((dir.child packagesName).join name).isAbsolute :=
    Path.isAbsolute_join (Path.isAbsolute_join h)
  unfold packageIn? at hf
  dsimp only at hf
  split at hf
  · next hfile => exact isAbsolute_file? hcandidate (hf ▸ hfile)
  · split at hf
    · exact Option.some.inj hf ▸ Path.isAbsolute_join hcandidate
    · cases hf

/-- **A reference in a file of an absolute directory** leads to an absolute path, be it relative,
absolute or the name of a package. -/
theorem isAbsolute_resolve? {d : Disk} {dir found : Path} {reference : String} (h : dir.isAbsolute)
    (hf : resolve? d dir reference = some found) : found.isAbsolute := by
  unfold resolve? at hf
  dsimp only at hf
  split at hf
  · exact isAbsolute_file? (Path.isSettled_resolveAgainst h _).isAbsolute hf
  · obtain ⟨above, hm, hp⟩ := List.exists_of_findSome?_eq_some hf
    exact isAbsolute_packageIn? (Path.isAbsolute_of_mem_ancestors h hm) hp

end Reference

/-! ## Path options -/

/-- The path options that are set. -/
def Options.paths (o : Options) : List Path :=
  o.rootDir.toList ++ o.rootDirs.getD [] ++ o.outDir.toList ++ o.declarationDir.toList

theorem Options.mem_paths_override {lower upper : Options} {p : Path}
    (h : p ∈ (lower.override upper).paths) : p ∈ lower.paths ∨ p ∈ upper.paths := by
  have hone : ∀ {a b : Option Path}, p ∈ (a.or b).toList → p ∈ a.toList ∨ p ∈ b.toList := by
    intro a b hp
    cases a with
    | none => exact .inr hp
    | some q => exact .inl hp
  have hmany : p ∈ ((upper.rootDirs.or lower.rootDirs).getD []) →
      p ∈ upper.rootDirs.getD [] ∨ p ∈ lower.rootDirs.getD [] := by
    intro hp
    cases hu : upper.rootDirs with
    | none => exact .inr (by simpa [hu] using hp)
    | some ps => exact .inl (by simpa [hu] using hp)
  unfold paths override at h
  unfold paths
  simp only [List.mem_append] at h ⊢
  rcases h with ((h | h) | h) | h
  · exact (hone h).elim (fun h => .inr (.inl (.inl (.inl h)))) fun h => .inl (.inl (.inl (.inl h)))
  · exact (hmany h).elim (fun h => .inr (.inl (.inl (.inr h)))) fun h => .inl (.inl (.inl (.inr h)))
  · exact (hone h).elim (fun h => .inr (.inl (.inr h))) fun h => .inl (.inl (.inr h))
  · exact (hone h).elim (fun h => .inr (.inr h)) fun h => .inl (.inr h)

namespace Configuration

/-- The path options that are set. -/
def paths (c : Configuration) : List Path :=
  c.rootDir.toList ++ c.rootDirs.getD [] ++ c.outDir.toList ++ c.declarationDir.toList

theorem paths_ofLoaded (path : Path) (loaded : Loaded) :
    (ofLoaded path loaded).paths = loaded.options.paths := rfl

/-- A path option of one file is a text of the file, taken from its directory. -/
theorem Layer.exists_of_mem_paths {l : Layer} {p : Path} (h : p ∈ l.options.paths) :
    ∃ text, p = l.resolve text := by
  have hone : ∀ {o : Option String}, p ∈ (o.map l.resolve).toList → ∃ text, p = l.resolve text := by
    intro o hp
    obtain ⟨text, -, rfl⟩ := Option.map_eq_some_iff.1 (Option.mem_toList.1 hp)
    exact ⟨text, rfl⟩
  unfold Options.paths options at h
  simp only [List.mem_append] at h
  rcases h with ((h | h) | h) | h
  · exact hone h
  · cases hd : l.sets (·.rootDirs) with
    | none => simp [hd] at h
    | some texts =>
      rw [hd] at h
      obtain ⟨text, -, rfl⟩ := List.mem_map.1 h
      exact ⟨text, rfl⟩
  · exact hone h
  · exact hone h

/-- Every path option that files merge to comes from one of them. -/
theorem exists_of_mem_paths_merge {layers : List Layer} {p : Path}
    (h : p ∈ (merge layers).paths) : ∃ l ∈ layers, ∃ text, p = l.resolve text := by
  induction layers using List.reverseRecOn with
  | nil => simp [merge, Options.paths] at h
  | append_singleton layers l ih =>
    rw [merge_concat] at h
    rcases Options.mem_paths_override h with h | h
    · obtain ⟨l', hl, hp⟩ := ih h
      exact ⟨l', List.mem_append_left _ hl, hp⟩
    · exact ⟨l, by simp, l.exists_of_mem_paths h⟩

/-- **Everything that is extended** from an absolute path is at an absolute path. -/
theorem Listed.isAbsolute {d : Disk} {path : Path} {layers : List Layer} (h : Listed d path layers)
    (ha : path.isAbsolute) : ∀ l ∈ layers, l.path.isAbsolute := by
  induction h with
  | @file path declared parents _ hr _ ih =>
    intro l hl
    rcases List.mem_append.1 hl with hl | hl
    · obtain ⟨x, hx, hl⟩ := List.mem_flatMap.1 hl
      have hmem : some x.1 ∈ (referencesOf declared).map
          (Reference.resolve? d path.parentOrRoot) := by
        rw [hr]
        exact List.mem_map.2 ⟨x, hx, rfl⟩
      obtain ⟨reference, -, hres⟩ := List.mem_map.1 hmem
      have hparent := Reference.isAbsolute_resolve? (Path.isAbsolute_parentOrRoot ha) hres
      exact ih x hx hparent l hl
    · rw [List.mem_singleton.1 hl]
      exact ha

/-- The configuration is one of a configuration file in an absolute directory, and its path options
are absolute and in normal form. -/
structure Anchored (c : Configuration) : Prop where
  file : ∃ dir, (∀ s ∈ dir, IsPlain s) ∧ c.configFilePath = fileIn dir
  paths : ∀ p ∈ c.paths, p.IsSettled

/-- The path options of a file at an absolute path are absolute and in normal form. -/
theorem isSettled_of_load {d : Disk} {path : Path} {c : Configuration}
    (ha : path.normal.absolute) (h : load d path = .ok c) : ∀ p ∈ c.paths, p.IsSettled := by
  obtain ⟨loaded, hload, rfl⟩ := load_eq_ok_iff.1 h
  obtain ⟨layers, hl, ho⟩ := listed_of_loadFile hload
  rw [paths_ofLoaded, ho]
  intro p hp
  obtain ⟨l, hmem, text, rfl⟩ := exists_of_mem_paths_merge hp
  have habs := hl.isAbsolute (Path.isSettled_normalize ha).isAbsolute l hmem
  exact Path.isSettled_resolveAgainst (Path.isAbsolute_parentOrRoot habs) _

theorem configFilePath_of_load {d : Disk} {path : Path} {c : Configuration}
    (h : load d path = .ok c) : c.configFilePath = path.normalize := by
  obtain ⟨loaded, -, rfl⟩ := load_eq_ok_iff.1 h
  rfl

/-- What a configuration file loads as. -/
theorem anchored_of_load {d : Disk} {dir : Location} (hp : ∀ s ∈ dir, IsPlain s)
    {c : Configuration} (h : load d (fileIn dir) = .ok c) :
    c.configFilePath = fileIn dir ∧ Anchored c := by
  have hpath := (configFilePath_of_load h).trans (normalize_fileIn hp)
  refine ⟨hpath, ⟨dir, hp, hpath⟩, isSettled_of_load ?_ h⟩
  exact Path.normal_absolute_of_isAbsolute (Path.isAbsolute_pathOf _)

/-- A lookup of an absolute path without a cache. -/
theorem exists_load_of_resolve {d : Disk} {file : Path} (ha : file.isAbsolute) {c : Configuration}
    (h : resolve d file = .ok c) : ∃ dir, (∀ s ∈ dir, IsPlain s) ∧
      find d file = .ok (fileIn dir) ∧ load d (fileIn dir) = .ok c := by
  unfold resolve at h
  cases hf : find d file with
  | error f => simp [hf] at h
  | ok path =>
    rw [hf] at h
    obtain ⟨dir, hp, rfl⟩ := exists_fileIn_of_find (Path.normal_absolute_of_isAbsolute ha) hf
    exact ⟨dir, hp, rfl, h⟩

end Configuration

/-! ## Remembered configurations -/

namespace Cache

open BuildLayout.Configuration

/-- What is remembered for absolute directories are configuration files of such directories, and
what is remembered of a configuration file is a configuration of it. -/
structure Anchored (c : Cache) : Prop where
  nearest : ∀ e ∈ c.nearest, e.1.isAbsolute → ∃ dir, (∀ s ∈ dir, IsPlain s) ∧ e.2 = fileIn dir
  resolved : ∀ e ∈ c.resolved, e.2.configFilePath = e.1 ∧ e.2.Anchored

theorem anchored_empty : ({} : Cache).Anchored :=
  ⟨fun _ he => absurd he List.not_mem_nil, fun _ he => absurd he List.not_mem_nil⟩

theorem Anchored.of_subset {c c' : Cache} (h : c.Anchored)
    (hn : ∀ e ∈ c'.nearest, e ∈ c.nearest) (hr : ∀ e ∈ c'.resolved, e ∈ c.resolved) :
    c'.Anchored where
  nearest e he := h.nearest e (hn e he)
  resolved e he := h.resolved e (hr e he)

theorem Anchored.addNearest {c : Cache} (h : c.Anchored) (dirs : List Path) {dir : Location}
    (hp : ∀ s ∈ dir, IsPlain s) : (c.addNearest dirs (fileIn dir)).Anchored where
  nearest e he ha := by
    rcases mem_of_mem_addNearest he with ⟨-, h2⟩ | he
    · exact ⟨dir, hp, h2⟩
    · exact h.nearest e he ha
  resolved := h.resolved

/-- The search through absolute directories finds a configuration file of an absolute directory. -/
theorem Anchored.search {d : Disk} {c : Cache} (h : c.Anchored) {dirs : List Location}
    (hp : ∀ dir ∈ dirs, ∀ s ∈ dir, IsPlain s) (passed : List Path) :
    (∀ config, (search d c passed (dirs.map pathOf)).1 = some config →
      ∃ dir, (∀ s ∈ dir, IsPlain s) ∧ config = fileIn dir) ∧
    (search d c passed (dirs.map pathOf)).2.Anchored := by
  induction dirs generalizing passed with
  | nil => exact ⟨nofun, h⟩
  | cons dir dirs ih =>
    have hdir := hp dir (.head _)
    rw [List.map_cons, Cache.search]
    split
    · next config hg =>
      obtain ⟨q, hq, hs⟩ := get?_eq_some hg
      obtain ⟨m, hm, rfl⟩ := h.nearest _ hq (isAbsolute_of_same hs (Path.isAbsolute_pathOf dir))
      exact ⟨fun config hc => ⟨m, hm, (Option.some.inj hc).symm⟩, h.addNearest _ hm⟩
    · rw [candidateIn_pathOf hdir]
      dsimp only
      split
      · exact ⟨fun config hc => ⟨dir, hdir, (Option.some.inj hc).symm⟩, h.addNearest _ hdir⟩
      · exact ih (fun dir hm => hp dir (.tail _ hm)) _

/-- A lookup of an absolute path finds a configuration file of an absolute directory. -/
theorem Anchored.find {d : Disk} {c : Cache} (h : c.Anchored) {file : Path}
    (ha : file.normal.absolute) :
    (∀ config, (c.find d file).1 = .ok config →
      ∃ dir, (∀ s ∈ dir, IsPlain s) ∧ config = fileIn dir) ∧ (c.find d file).2.Anchored := by
  have hplain : ∀ dir ∈ (Disk.upwards file.normal.names).tail, ∀ s ∈ dir, IsPlain s :=
    fun dir hdir => normal_proper_prefix_plain hdir
  have hsearch := h.search (d := d) hplain []
  rw [← searchDirs_of_absolute ha] at hsearch
  obtain ⟨hfound, hkept⟩ := hsearch
  unfold Cache.find
  cases hs : Cache.search d c [] (searchDirs file) with
  | mk answer c' =>
    rw [hs] at hfound hkept
    cases answer with
    | none => exact ⟨nofun, hkept⟩
    | some config => exact ⟨fun _ he => Except.ok.inj he ▸ hfound config rfl, hkept⟩

theorem anchored_find {d : Disk} {c : Cache} (h : c.Anchored) (file : Path) :
    (c.find d file).2.Anchored := by
  cases ha : file.normal.absolute with
  | true => exact (h.find ha).2
  | false =>
    exact ⟨fun e he habs => h.nearest e (mem_nearest_of_find_relative ha he habs) habs,
      fun e he => h.resolved e (find_resolved d c file ▸ he)⟩

/-- **A lookup of an absolute path** gives a configuration of the file that is found, and keeps what
is remembered anchored. -/
theorem Anchored.resolve {d : Disk} {c : Cache} (h : c.Anchored) {file : Path}
    (ha : file.normal.absolute) :
    (∀ config, (c.resolve d file).1 = .ok config →
      (c.find d file).1 = .ok config.configFilePath ∧ config.Anchored) ∧
    (c.resolve d file).2.Anchored := by
  obtain ⟨hfound, hkept⟩ := h.find (d := d) ha
  unfold Cache.resolve
  cases hf : c.find d file with
  | mk answer c' =>
    rw [hf] at hfound hkept
    cases answer with
    | error f =>
      refine ⟨fun config hc => ?_, hkept⟩
      cases hc
    | ok path =>
      obtain ⟨dir, hp, rfl⟩ := hfound path rfl
      dsimp only
      split
      · next known hk =>
        refine ⟨fun config hc => ?_, hkept⟩
        obtain rfl := Except.ok.inj hc
        obtain ⟨q, hq, hs⟩ := get?_eq_some hk
        obtain ⟨hown, hknown⟩ := hkept.resolved _ hq
        obtain ⟨dir', hp', hpath⟩ := hknown.file
        dsimp only at hown hpath
        rw [← hown, hpath] at hs
        have heq := (Path.same_pathOf (fun s hs => (isPlain_concat_configName hp' s hs).1)
          fun s hs => (isPlain_concat_configName hp s hs).1).1 hs
        exact ⟨by rw [hpath, fileIn, fileIn, heq], hknown⟩
      · split
        · refine ⟨fun config hc => ?_, hkept⟩
          cases hc
        · next loaded hl =>
          obtain ⟨hpath, hanchored⟩ := anchored_of_load hp hl
          refine ⟨fun config hc => ?_, hkept.nearest, fun e he => ?_⟩
          · obtain rfl := Except.ok.inj hc
            exact ⟨congrArg _ hpath.symm, hanchored⟩
          · rcases mem_of_mem_insert he with rfl | he
            · exact ⟨hpath, hanchored⟩
            · exact hkept.resolved e he

/-- **One step** of a run, whatever the disk, keeps what is remembered anchored. -/
theorem Step.anchored {d d' : Disk} {c c' : Cache} (h : Step (d, c) (d', c')) (hc : c.Anchored) :
    c'.Anchored := by
  cases h with
  | find _ _ file => exact anchored_find hc file
  | resolve _ _ ha => exact (hc.resolve (Path.normal_absolute_of_isAbsolute ha)).2
  | change _ _ _ =>
    exact hc.of_subset (fun e he => List.mem_of_mem_filter he) fun e he => List.mem_of_mem_filter he
  | invalidate _ _ p =>
    exact hc.of_subset (fun e he => List.mem_of_mem_filter he) fun e he => List.mem_of_mem_filter he
  | clear => exact anchored_empty

end Cache

/-! ## The main result -/

end BuildLayout
