import BuildLayout.Proofs.Config.Anchored
import BuildLayout.Proofs.Config.Recorded

/-!
# What the invalidation of a file drops

A configuration lists the files that it was read from by the paths they were reached by, and
`Cache.invalidate` compares these with the normal form of a path by their components. The two agree
about a file exactly when one of the paths that it was reached by goes straight there, without a
`..` (`Disk.same_pathOf_iff`, `invalidate_drops_iff`).

References that are relative or absolute are put into normal form, and lead straight on whatever
they look like; a package name is put behind a directory as it is, so one that climbs
(`Reference.Climbs`) leads to a path with a `..` in it (`Reference.isStraight_resolve?`). A project
with such a reference is `climbingProject`, of which a configuration is kept after the file that it
was read from (`invalidate_keeps_climbing`).
-/

namespace BuildLayout

open Disk (LinkFree pathOf)
open Relation (ReflTransGen)

namespace Path

/-! ## Paths without `..` -/

/-- No segment of the path is `..`. -/
def IsStraight (p : Path) : Prop :=
  ".." ∉ p.segments

instance (p : Path) : Decidable p.IsStraight := by
  unfold IsStraight
  infer_instance

theorem isStraight_pathOf {names : Location} (h : ∀ s ∈ names, IsName s) :
    (pathOf names).IsStraight := by
  unfold IsStraight
  rw [segments_pathOf fun s hs => (h s hs).2.2.2]
  split
  · decide
  · intro hm
    rcases List.mem_cons.1 hm with hm | hm
    · exact absurd hm (by decide)
    · exact (h _ hm).2.2.1 rfl

theorem isStraight_join {base p : Path} (hb : base.IsStraight) (hp : p.IsStraight) :
    (base.join p).IsStraight := by
  have key : ∀ cs : List Char, ".." ∉ (Text.splitOn '/' cs).map String.ofList →
      ".." ∉ (Text.splitOn '/' (cs ++ '/' :: p.text.toList)).map String.ofList := by
    intro cs hcs
    rw [Text.splitOn_append_sep, List.map_append, List.mem_append]
    exact not_or.2 ⟨hcs, hp⟩
  unfold join
  split
  · exact hp
  split
  · next hend =>
    unfold IsStraight segments at *
    dsimp only
    rw [String.toList_append]
    by_cases hempty : base.text = ""
    · simpa [hempty] using hp
    · -- what stands before the slash at the end has the same segments but an empty one
      have hlast : base.text.toList.getLast? = some '/' := by simpa [hempty] using hend
      obtain ⟨front, hfront⟩ := List.getLast?_eq_some_iff.1 hlast
      rw [hfront] at hb ⊢
      rw [Text.splitOn_append_sep, List.map_append, List.mem_append, not_or] at hb
      simpa using key front hb.1
  · unfold IsStraight segments at *
    dsimp only
    rw [String.toList_append, String.toList_append, List.append_assoc]
    exact key _ hb

theorem isStraight_child {p : Path} (h : p.IsStraight) {s : String} (hs : IsName s) :
    (p.child s).IsStraight := by
  refine isStraight_join h ?_
  unfold IsStraight segments
  rw [Text.splitOn_of_not_mem hs.2.2.2]
  simpa using hs.2.2.1.symm

theorem isStraight_append_json {p : Path} (h : p.IsStraight) : (p.append ".json").IsStraight := by
  -- the ending only makes the last segment longer
  have hlonger : ∀ cs : List Char, String.ofList (cs ++ ".json".toList) ≠ ".." := by
    intro cs he
    have hlength := congrArg (fun s => s.toList.length) he
    simp at hlength
  unfold IsStraight segments append at *
  dsimp only
  rw [String.toList_append]
  by_cases hm : '/' ∈ p.text.toList
  · obtain ⟨front, piece, hcs, hp⟩ := Text.exists_last_piece hm
    have hlast : '/' ∉ piece ++ ".json".toList := by simp [hp]
    rw [hcs, Text.splitOn_append_sep, List.map_append, List.mem_append, not_or] at h
    rw [hcs, List.append_assoc, List.cons_append, Text.splitOn_append_sep, List.map_append,
      List.mem_append, not_or, Text.splitOn_of_not_mem hlast]
    exact ⟨h.1, fun hl => hlonger _ (List.mem_singleton.1 hl).symm⟩
  · have hlast : '/' ∉ p.text.toList ++ ".json".toList := by simpa using hm
    rw [Text.splitOn_of_not_mem hlast]
    exact fun hl => hlonger _ (List.mem_singleton.1 hl).symm

/-- Segments of a straight path make a straight path. -/
theorem isStraight_ofSegments {p : Path} (h : p.IsStraight) {ss : List String}
    (hss : ∀ s ∈ ss, s ∈ p.segments) : (ofSegments ss).IsStraight := by
  cases ss with
  | nil => decide
  | cons s ss =>
    unfold IsStraight
    rw [segments_ofSegments (List.cons_ne_nil _ _) fun t ht => (of_mem_segments (hss t ht)).1]
    exact fun hm => h (hss _ hm)

theorem isStraight_of_parent? {p q : Path} (h : p.IsStraight) (hq : p.parent? = some q) :
    q.IsStraight := by
  unfold parent? at hq
  split at hq
  · cases hq
  next first rest hs =>
  have hinit : ∀ init, dropLastComponent rest.reverse = some init →
      (ofSegments (first :: init)).IsStraight := by
    intro init hi
    refine isStraight_ofSegments h fun s hm => hs ▸ ?_
    rcases List.mem_cons.1 hm with rfl | hm
    · exact .head _
    · exact .tail _ ((dropLastComponent_eq hi).subset hm)
  split at hq
  · split at hq
    · cases hq
    · cases hq
      decide
    · next init _ hi =>
      cases hq
      exact hinit init hi
  · split at hq
    · split at hq
      · cases hq
        decide
      · next init hi =>
        cases hq
        exact hinit init hi
    · obtain ⟨init, hi, rfl⟩ := Option.map_eq_some_iff.1 hq
      exact isStraight_ofSegments h fun s hm => hs ▸ (dropLastComponent_eq hi).subset hm

theorem isStraight_parentOrRoot {p : Path} (h : p.IsStraight) : p.parentOrRoot.IsStraight := by
  unfold parentOrRoot
  cases hq : p.parent? with
  | none => decide
  | some q => exact isStraight_of_parent? h hq

theorem isStraight_of_mem_ancestors {p q : Path} (h : p.IsStraight) (hq : q ∈ p.ancestors) :
    q.IsStraight :=
  forall_mem_ancestorsUpTo isStraight_of_parent? _ h q hq

/-- Segments without `..` contribute names only. -/
theorem exists_body_eq_map {ss : List String} (h : ".." ∉ ss) :
    ∃ names : List String, body ss = names.map .name := by
  induction ss with
  | nil => exact ⟨[], rfl⟩
  | cons s ss ih =>
    simp only [List.mem_cons, not_or] at h
    obtain ⟨names, hn⟩ := ih h.2
    unfold body at *
    by_cases hidle : s = "" ∨ s = "."
    · exact ⟨names, by simpa [Component.ofSegment?, hidle] using hn⟩
    · refine ⟨s :: names, ?_⟩
      rw [List.filterMap_cons_some (b := .name s), hn, List.map_cons]
      simp [Component.ofSegment?, hidle, Ne.symm h.1]

theorem IsSettled.isStraight {p : Path} (h : p.IsSettled) : p.IsStraight :=
  h ▸ isStraight_pathOf (isName_normal p)

end Path

namespace Disk

/-- The place of an absolute path is spelled by proper names. -/
theorem isName_of_place? {d : Disk} {p : Path} {location : Location} (ha : p.isAbsolute)
    (hp : d.place? p = some location) : ∀ s ∈ location, Path.IsName s := by
  have hfold := foldl_step_of_place? hp
  rw [if_pos ha] at hfold
  have hnames := Path.Normal.foldl_step_names (P := Path.IsName) p.components ⟨true, 0, []⟩
    (fun s hs => absurd hs List.not_mem_nil) fun s hs => (Path.of_name_mem_components hs).2
  rwa [hfold] at hnames

/-- **An absolute path has the components of a place** exactly when it goes straight there. -/
theorem same_pathOf_iff {d : Disk} {p : Path} {l location : Location} (ha : p.isAbsolute)
    (hp : d.place? p = some l) (hn : ∀ s ∈ location, Path.IsName s) :
    p.same (pathOf location) ↔ l = location ∧ p.IsStraight := by
  obtain ⟨rest, hs, hc⟩ := Path.components_of_isAbsolute ha
  have hstraight : p.IsStraight ↔ ".." ∉ rest := by simp [Path.IsStraight, hs]
  have hfold := foldl_step_of_place? hp
  unfold Path.same
  rw [beq_iff_eq, Path.components_pathOf hn, hstraight, hc]
  rw [hc, if_pos ha, List.foldl_cons] at hfold
  constructor
  · intro he
    have hrest := (List.cons.inj he).2
    rw [hrest, Path.Normal.foldl_step_name] at hfold
    refine ⟨by simpa [Path.Normal.step] using hfold.symm, fun hup => ?_⟩
    have hmem : Path.Component.up ∈ Path.body rest := List.mem_filterMap.2 ⟨"..", hup, by decide⟩
    rw [hrest] at hmem
    simp at hmem
  · rintro ⟨rfl, hup⟩
    obtain ⟨names, hnames⟩ := Path.exists_body_eq_map hup
    rw [hnames, Path.Normal.foldl_step_name] at hfold
    obtain rfl : names = l := by simpa [Path.Normal.step] using hfold
    rw [hnames]

end Disk

namespace Reference

/-- The reference is a package name with a `..` in it. -/
def Climbs (reference : String) : Prop :=
  isRelative reference = false ∧ (Path.normalizeSeparators ⟨reference⟩).isAbsolute = false ∧
    ¬ (Path.normalizeSeparators ⟨reference⟩).IsStraight

theorem isStraight_of_mem_fileCandidates {candidate p : Path} (h : candidate.IsStraight)
    (hp : p ∈ fileCandidates candidate) : p.IsStraight := by
  unfold fileCandidates at hp
  rcases List.mem_cons.1 hp with rfl | hp
  · exact h
  · split at hp
    · cases hp
    · exact List.mem_singleton.1 hp ▸ Path.isStraight_append_json h

/-- **A reference in a file of a straight directory** leads straight on, unless it is a package name
that climbs. -/
theorem isStraight_resolve? {d : Disk} {dir found : Path} {reference : String}
    (ha : dir.isAbsolute) (hdir : dir.IsStraight) (hr : ¬ Climbs reference)
    (hf : resolve? d dir reference = some found) : found.IsStraight := by
  rw [resolve?_eq_find?] at hf
  have hm := List.mem_of_find?_eq_some hf
  unfold candidates at hm
  dsimp only at hm
  split at hm
  · exact isStraight_of_mem_fileCandidates (Path.isSettled_resolveAgainst ha _).isStraight hm
  next hpackage =>
  have hname : (Path.normalizeSeparators ⟨reference⟩).IsStraight := by
    by_contra hn
    simp only [Bool.or_eq_true, not_or, Bool.not_eq_true] at hpackage
    exact hr ⟨hpackage.1, hpackage.2, hn⟩
  obtain ⟨above, habove, hm⟩ := List.mem_flatMap.1 hm
  have hpackages : Path.IsName packagesName := by
    unfold Path.IsName
    decide
  have hcandidate := Path.isStraight_join
    (Path.isStraight_child (Path.isStraight_of_mem_ancestors hdir habove) hpackages) hname
  unfold packageCandidates at hm
  rcases List.mem_append.1 hm with hm | hm
  · exact isStraight_of_mem_fileCandidates hcandidate hm
  · exact List.mem_singleton.1 hm ▸ Path.isStraight_child hcandidate isPlain_configName.1

end Reference

namespace Configuration

/-! ## The paths that files are reached by -/

/-- The file at a path has a reference that leads to the other path and is no package name that
climbs. -/
def ExtendsStraight (d : Disk) (path parent : Path) : Prop :=
  ∃ declared, declaredAt d path = .ok declared ∧
    ∃ reference ∈ referencesOf declared, ¬ Reference.Climbs reference ∧
      Reference.resolve? d path.parentOrRoot reference = some parent

theorem isAbsolute_of_reflTransGen {d : Disk} {path q : Path} (ha : path.isAbsolute)
    (h : ReflTransGen (Extends d) path q) : q.isAbsolute := by
  induction h with
  | refl => exact ha
  | tail _ he ih =>
    obtain ⟨declared, -, reference, -, hp⟩ := he
    exact Reference.isAbsolute_resolve? (Path.isAbsolute_parentOrRoot ih) hp

/-- Without climbing package names, files are reached by straight paths. -/
theorem isStraight_of_reflTransGen {d : Disk} {path q : Path} (ha : path.isAbsolute)
    (hs : path.IsStraight) (h : ReflTransGen (ExtendsStraight d) path q) :
    ReflTransGen (Extends d) path q ∧ q.IsStraight := by
  induction h with
  | refl => exact ⟨.refl, hs⟩
  | tail _ he ih =>
    obtain ⟨declared, hd, reference, hm, hr, hp⟩ := he
    obtain ⟨hreach, hstraight⟩ := ih
    refine ⟨hreach.tail ⟨declared, hd, reference, hm, hp⟩, ?_⟩
    have habs := isAbsolute_of_reflTransGen ha hreach
    exact Reference.isStraight_resolve? (Path.isAbsolute_parentOrRoot habs)
      (Path.isStraight_parentOrRoot hstraight) hr hp

/-- What references add to the list of files is extended by the file that holds them. -/
theorem reached_of_mem_loadReferences {d : Disk} {ancestry : List Location} {path dir p : Path}
    (hfile : ∀ files parent loaded, loadFile d ancestry files parent = .ok loaded →
      p ∈ loaded.files → p ∈ files ∨ ReflTransGen (Extends d) parent p)
    {references : List String} {before loaded : Loaded}
    (h : loadReferences d ancestry path dir before references = .ok loaded)
    (hp : p ∈ loaded.files) : p ∈ before.files ∨ ∃ reference ∈ references, ∃ parent,
      Reference.resolve? d dir reference = some parent ∧ ReflTransGen (Extends d) parent p := by
  induction references generalizing before with
  | nil =>
    rw [loadReferences_nil] at h
    exact .inl (Except.ok.inj h ▸ hp)
  | cons reference rest ih =>
    obtain ⟨parent, upper, hres, hu, hrest⟩ := loadReferences_cons_eq_ok_iff.1 h
    rcases ih hrest with hp | ⟨r, hr, q, hq, hreach⟩
    · rcases hfile _ _ _ hu hp with hp | hreach
      · exact .inl hp
      · exact .inr ⟨reference, .head _, parent, hres, hreach⟩
    · exact .inr ⟨r, .tail _ hr, q, hq, hreach⟩

/-- **The walk lists nothing else** than what is extended. -/
theorem reached_of_mem_loadFile {d : Disk} {ancestry : List Location} {files : List Path}
    {path p : Path} {loaded : Loaded} (h : loadFile d ancestry files path = .ok loaded)
    (hp : p ∈ loaded.files) : p ∈ files ∨ ReflTransGen (Extends d) path p := by
  induction ancestry using ancestry_induction (d := d) generalizing files path loaded with
  | step ancestry ih =>
    obtain ⟨l, declared, upper, hl, hv, hd, hu, rfl⟩ := loadFile_eq_ok_iff.1 h
    rw [files_withOwn] at hp
    rcases reached_of_mem_loadReferences (fun _ _ _ hf => ih path l declared hl hd hv hf) hu hp with
      hp | ⟨reference, hr, parent, hres, hreach⟩
    · rcases mem_addFile hp with hp | rfl
      · exact .inl hp
      · exact .inr .refl
    · exact .inr (.head ⟨declared, hd, reference, hr, hres⟩ hreach)

theorem reached_of_mem_sourceFiles {d : Disk} {path p : Path} {config : Configuration}
    (h : load d path = .ok config) (hp : p ∈ config.sourceFiles) :
    ReflTransGen (Extends d) path.normalize p := by
  obtain ⟨loaded, hl, rfl⟩ := load_eq_ok_iff.1 h
  exact (reached_of_mem_loadFile hl hp).resolve_left List.not_mem_nil

/-- **A configuration lists the path of a place** exactly when it reaches a file there by a straight
path. -/
theorem recorded_pathOf_iff {d : Disk} (hd : LinkFree d) {path : Path} {config : Configuration}
    (h : load d path = .ok config) (ha : path.normalize.isAbsolute) {q : Path}
    {location : Location} (hq : ReflTransGen (Extends d) path.normalize q)
    (hplace : d.place? q = some location) :
    Recorded config.sourceFiles (pathOf location) ↔
      ∃ p, ReflTransGen (Extends d) path.normalize p ∧ d.place? p = some location ∧
        p.IsStraight := by
  have hn := Disk.isName_of_place? (isAbsolute_of_reflTransGen ha hq) hplace
  constructor
  · rintro ⟨p, hp, hsame⟩
    have hreach := reached_of_mem_sourceFiles h hp
    obtain ⟨bytes, hr⟩ := exists_read_of_mem_sourceFiles h hp
    obtain ⟨l, executable, hl, -⟩ := (Disk.read_eq_ok_iff hd).1 hr
    obtain ⟨rfl, hstraight⟩ :=
      (Disk.same_pathOf_iff (isAbsolute_of_reflTransGen ha hreach) hl hn).1 hsame
    exact ⟨p, hreach, hl, hstraight⟩
  · rintro ⟨p, hreach, hp, hstraight⟩
    obtain ⟨p', hp', hsame⟩ := recorded_of_reflTransGen h hreach
    have hpath := (Disk.same_pathOf_iff (isAbsolute_of_reflTransGen ha hreach) hp hn).2
      ⟨rfl, hstraight⟩
    exact ⟨p', hp', beq_iff_eq.2 ((beq_iff_eq.1 hsame).trans (beq_iff_eq.1 hpath))⟩

end Configuration

namespace Cache

open BuildLayout.Configuration

/-- The cache after lookups, one after the other, that begin with nothing remembered. -/
def afterLookups (d : Disk) (files : List Path) : Cache :=
  files.foldl (fun c file => (c.resolve d file).2) {}

theorem reachedNoticed_afterLookups {d : Disk} (hd : LinkFree d) {files : List Path}
    (ha : ∀ file ∈ files, file.isAbsolute) : ReachedNoticed (d, afterLookups d files) := by
  induction files using List.reverseRecOn with
  | nil => exact ⟨d, hd, .refl⟩
  | append_singleton files file ih =>
    obtain ⟨d0, hd0, hr⟩ := ih fun f hf => ha f (List.mem_append_left _ hf)
    refine ⟨d0, hd0, hr.tail ?_⟩
    unfold afterLookups
    rw [List.foldl_append]
    exact .look (.resolve d _ (ha file (by simp)))

/-- `invalidate` keeps the configurations that do not list the changed path. -/
theorem mem_resolved_invalidate {c : Cache} {changed : Path} {e : Path × Configuration} :
    e ∈ (c.invalidate changed).resolved ↔
      e ∈ c.resolved ∧ ¬ Recorded e.2.sourceFiles changed.normalize := by
  unfold invalidate Recorded
  simp

end Cache

/-! ## A project with a package name that climbs -/

/-- A project whose configuration extends what is in `base.json`, as if it belonged to a package. -/
def climbingProject (outDir : String) : Disk where
  nodes := [
    (["w"], .directory),
    (["w", "node_modules"], .directory),
    (["w", "node_modules", "pkg"], .directory),
    (["w", "tsconfig.json"], .file (Text.encode
      "\x7b \"extends\": \"pkg/../../base.json\" \x7d") false),
    (["w", "base.json"], .file (Text.encode
      ("\x7b \"compilerOptions\": \x7b \"outDir\": \"" ++ outDir ++ "\" \x7d \x7d")) false)]
  cwd := []

/-- The path by which `base.json` is reached. -/
def climbingPath : Path := ⟨"/w/node_modules/pkg/../../base.json"⟩

theorem climbingProject_linkFree (outDir : String) : LinkFree (climbingProject outDir) :=
  Disk.linkFree_of_forall_mem (by simp [climbingProject])

theorem place?_climbingPath (outDir : String) :
    (climbingProject outDir).place? climbingPath = some ["w", "base.json"] := rfl

/-- What the configuration loads as, by what `base.json` says. -/
theorem load_climbing {outDir : String}
    (hdec : (Declared.ofBytes climbingPath (Text.encode
      ("\x7b \"compilerOptions\": \x7b \"outDir\": \"" ++ outDir ++ "\" \x7d \x7d"))).toOption =
        some ⟨none, some { outDir := some outDir }⟩) :
    Configuration.load (climbingProject outDir) ⟨"/w/tsconfig.json"⟩ =
      .ok (extendingConfig (climbingPath.parentOrRoot.resolveAgainst ⟨outDir⟩) climbingPath) := by
  have hd := climbingProject_linkFree outDir
  have hplace : (climbingProject outDir).place? ⟨"/w/tsconfig.json"⟩ =
      some ["w", "tsconfig.json"] := rfl
  have hdec' : Configuration.declaredAt (climbingProject outDir) ⟨"/w/tsconfig.json"⟩ =
      .ok ⟨some ["pkg/../../base.json"], none⟩ :=
    Configuration.declaredAt_of_node? hd hplace rfl (by decide +kernel)
  have hfile : (climbingProject outDir).isFile climbingPath :=
    (Disk.isFile_iff hd).2 ⟨_, _, _, place?_climbingPath outDir, rfl⟩
  have hparent : Reference.resolve? (climbingProject outDir) ⟨"/w"⟩ "pkg/../../base.json" =
      some climbingPath := by
    have hfirst : (Reference.candidates ⟨"/w"⟩ "pkg/../../base.json").head? =
        some climbingPath := by decide
    obtain ⟨rest, hrest⟩ := List.head?_eq_some_iff.1 hfirst
    rw [Reference.resolve?_eq_find?, hrest, List.find?_cons_of_pos hfile]
  have hload := Configuration.load_of_extends_one (by decide)
    (Disk.locate_of_place? hd hplace rfl)
    (Disk.locate_of_place? hd (place?_climbingPath outDir) rfl) (by decide) hdec'
    (Configuration.declaredAt_of_node? hd (place?_climbingPath outDir) rfl hdec) rfl rfl hparent
  simp only [Configuration.withOwn, Options.blank_override] at hload
  have hfiles : Configuration.addFile [⟨"/w/tsconfig.json"⟩] climbingPath =
      [⟨"/w/tsconfig.json"⟩, climbingPath] := by decide
  rw [hload, hfiles]
  rfl

theorem load_climbingProject_a : Configuration.load (climbingProject "a") ⟨"/w/tsconfig.json"⟩ =
    .ok (extendingConfig ⟨"/w/a"⟩ climbingPath) :=
  (load_climbing (by decide +kernel)).trans (by decide)

theorem load_climbingProject_b : Configuration.load (climbingProject "b") ⟨"/w/tsconfig.json"⟩ =
    .ok (extendingConfig ⟨"/w/b"⟩ climbingPath) :=
  (load_climbing (by decide +kernel)).trans (by decide)

/-- What is remembered after one lookup. -/
theorem resolved_climbingProject :
    (Cache.afterLookups (climbingProject "a") [⟨"/w/a.ts"⟩]).resolved =
      [(⟨"/w/tsconfig.json"⟩, extendingConfig ⟨"/w/a"⟩ climbingPath)] := by
  have hd := climbingProject_linkFree "a"
  have hfind := (Cache.find_spec (Cache.reached_empty hd).ok.nearest (by decide)).1.trans
    (find_beside hd load_climbingProject_a)
  exact Cache.resolve_snd_resolved hfind rfl load_climbingProject_a

/-! ## The main result -/

/-- **The invalidation of a file** that a remembered configuration was read from drops it exactly
when the file was reached by a straight path as well; so it does when no package name on the way
there climbs. -/
theorem invalidate_drops_iff {d : Disk} (hd : LinkFree d) {files : List Path}
    (ha : ∀ file ∈ files, file.isAbsolute) {e : Path × Configuration}
    (he : e ∈ (Cache.afterLookups d files).resolved) {q changed : Path} {location : Location}
    (hq : ReflTransGen (Configuration.Extends d) e.1 q) (hplace : d.place? q = some location)
    (hchanged : changed.normalize = pathOf location) :
    (e ∉ ((Cache.afterLookups d files).invalidate changed).resolved ↔
      ∃ p, ReflTransGen (Configuration.Extends d) e.1 p ∧ d.place? p = some location ∧
        p.IsStraight) ∧
    (ReflTransGen (Configuration.ExtendsStraight d) e.1 q →
      e ∉ ((Cache.afterLookups d files).invalidate changed).resolved) := by
  obtain ⟨dir, hp, h1, hload⟩ := (Cache.reachedNoticed_afterLookups hd ha).resolvedOk e he
  have hself : e.1.normalize = e.1 := by rw [h1, Configuration.normalize_fileIn hp]
  have habs : e.1.isAbsolute := by
    rw [h1]
    exact Path.isAbsolute_pathOf _
  have hrec := @Configuration.recorded_pathOf_iff d hd _ _ hload
  rw [hself] at hrec
  have hiff : e ∉ ((Cache.afterLookups d files).invalidate changed).resolved ↔
      ∃ p, ReflTransGen (Configuration.Extends d) e.1 p ∧ d.place? p = some location ∧
        p.IsStraight := by
    rw [Cache.mem_resolved_invalidate, hchanged, hrec habs hq hplace]
    simp only [he, true_and, not_not]
  refine ⟨hiff, fun hway => hiff.2 ?_⟩
  have hstraight : e.1.IsStraight := by
    rw [h1]
    exact Path.isStraight_pathOf fun s hs =>
      (Configuration.isPlain_concat_configName hp s hs).1
  obtain ⟨hreach, hq'⟩ := Configuration.isStraight_of_reflTransGen habs hstraight hway
  exact ⟨q, hreach, hplace, hq'⟩

/-- A file that the configuration extends by a relative reference: its invalidation drops what was
read from it, however the path is spelled. -/
theorem invalidate_drops_iff_extendedFile :
    let c := Cache.afterLookups extendingProject [⟨"/w/a.ts"⟩]
    let e : Path × Configuration :=
      (⟨"/w/tsconfig.json"⟩, extendingConfig ⟨"/w/a"⟩ ⟨"/w/base.json"⟩)
    e ∈ c.resolved ∧ Configuration.ExtendsStraight extendingProject e.1 ⟨"/w/base.json"⟩ ∧
      e ∉ (c.invalidate ⟨"/w//./node_modules/../base.json"⟩).resolved := by
  intro c e
  have hd := extendingProject_linkFree
  have hmem : e ∈ c.resolved := by
    show e ∈ (({} : Cache).resolve extendingProject ⟨"/w/a.ts"⟩).2.resolved
    rw [resolved_extendingProject]
    exact .head _
  have hdec : Configuration.declaredAt extendingProject ⟨"/w/tsconfig.json"⟩ =
      .ok ⟨some ["./base"], none⟩ :=
    Configuration.declaredAt_of_node? hd (l := ["w", "tsconfig.json"]) (by decide) rfl
      (by decide +kernel)
  have hbase : Reference.file? extendingProject ⟨"/w/base"⟩ = some ⟨"/w/base.json"⟩ :=
    file?_base hd ⟨fun _ => Iff.rfl, rfl⟩ extendingProject_free rfl
  have hdir : (⟨"/w/tsconfig.json"⟩ : Path).parentOrRoot = ⟨"/w"⟩ := by decide
  have hparent : Reference.resolve? extendingProject ⟨"/w"⟩ "./base" = some ⟨"/w/base.json"⟩ :=
    Configuration.resolve?_of_isRelative (by decide) hbase
  have hway : Configuration.ExtendsStraight extendingProject e.1 ⟨"/w/base.json"⟩ := by
    refine ⟨_, hdec, "./base", .head _, fun hclimbs => ?_, hdir ▸ hparent⟩
    exact absurd hclimbs.1 (by decide)
  have hplace : extendingProject.place? ⟨"/w/base.json"⟩ = some ["w", "base.json"] := by decide
  obtain ⟨hreach, -⟩ :=
    Configuration.isStraight_of_reflTransGen (by decide) (by decide) (.single hway)
  exact ⟨hmem, hway,
    (invalidate_drops_iff hd (by decide) hmem hreach hplace (by decide)).2 (.single hway)⟩

/-- **A configuration that is kept**: `base.json` was read for it, by a path that climbs, and the
invalidation of `base.json` leaves it as it is. -/
theorem invalidate_keeps_climbing :
    let d := climbingProject "a"
    let c := Cache.afterLookups d [⟨"/w/a.ts"⟩]
    let e : Path × Configuration :=
      (⟨"/w/tsconfig.json"⟩, extendingConfig ⟨"/w/a"⟩ climbingPath)
    e ∈ c.resolved ∧ climbingPath ∈ e.2.sourceFiles ∧
      d.place? climbingPath = some ["w", "base.json"] ∧
      (⟨"/w/base.json"⟩ : Path).normalize = pathOf ["w", "base.json"] ∧
      e ∈ (c.invalidate ⟨"/w/base.json"⟩).resolved := by
  intro d c e
  have hmem : e ∈ c.resolved := by
    rw [resolved_climbingProject]
    exact .head _
  refine ⟨hmem, by decide, rfl, by decide, Cache.mem_resolved_invalidate.2 ⟨hmem, ?_⟩⟩
  unfold Configuration.Recorded
  decide

end BuildLayout
