import BuildLayout.Config.Cache
import BuildLayout.Proofs.Disk.Place
import Mathlib.Data.List.Find

/-!
# The nearest configuration file

`nearestDir? d dir` is the deepest directory from `dir` upwards that holds a configuration file
(`nearestDir?_eq_some_iff`). An absolute path is searched for by it: without a cache
(`find_of_absolute`), and with a cache whose entries for absolute directories are right
(`Cache.NearestOk`), in which case the search leaves such a cache behind (`Cache.find_spec`,
`Cache.nearestOk_find`).

A change of one file followed by `Cache.invalidate` keeps the entries right
(`Cache.nearestOk_change`): a directory gets another nearest configuration file only when the
changed file has the name of one and lies above it, and then its entry is dropped.
-/

namespace BuildLayout

open Disk (pathOf upwards LinkFree FileChange IsPathTo)
open BuildLayout.Path (IsName IsPlain)

theorem Reference.isPlain_configName : IsPlain Reference.configName := by
  unfold IsPlain IsName
  decide

namespace Configuration

/-! ## Directories that hold a configuration file -/

/-- The configuration file of the directory at a location. -/
def fileIn (dir : Location) : Path :=
  pathOf (dir ++ [Reference.configName])

/-- The directory at a location holds a configuration file. -/
def holdsConfig (d : Disk) (dir : Location) : Bool :=
  d.isFile (fileIn dir)

/-- The deepest directory from `dir` upwards that holds a configuration file. -/
def nearestDir? (d : Disk) (dir : Location) : Option Location :=
  (upwards dir).find? (holdsConfig d)

theorem isPlain_concat_configName {dir : Location} (h : ∀ s ∈ dir, IsPlain s) :
    ∀ s ∈ dir ++ [Reference.configName], IsPlain s := by
  intro s hs
  rcases List.mem_append.1 hs with hs | hs
  · exact h s hs
  · rw [List.mem_singleton.1 hs]
    exact Reference.isPlain_configName

theorem candidateIn_pathOf {dir : Location} (h : ∀ s ∈ dir, IsPlain s) :
    candidateIn (pathOf dir) = fileIn dir :=
  Path.child_pathOf (fun s hs => (h s hs).1)
    (Path.isAbsolute_of_isName Reference.isPlain_configName.1)

theorem nearestDir?_nil (d : Disk) :
    nearestDir? d [] = if holdsConfig d [] then some [] else none := by
  unfold nearestDir?
  rw [Disk.upwards_nil]
  cases h : holdsConfig d [] <;> simp [h]

theorem nearestDir?_concat (d : Disk) (dir : Location) (s : String) :
    nearestDir? d (dir ++ [s]) =
      if holdsConfig d (dir ++ [s]) then some (dir ++ [s]) else nearestDir? d dir := by
  unfold nearestDir?
  rw [Disk.upwards_concat]
  cases h : holdsConfig d (dir ++ [s]) <;> simp [h]

/-- The nearest directory is the deepest one above that holds a configuration file. -/
theorem nearestDir?_eq_some_iff {d : Disk} {dir m : Location} :
    nearestDir? d dir = some m ↔
      m <+: dir ∧ holdsConfig d m ∧ ∀ x, x <+: dir → holdsConfig d x → x.length ≤ m.length := by
  induction dir using List.reverseRecOn with
  | nil =>
    rw [nearestDir?_nil]
    constructor
    · intro h
      split at h
      · next hh =>
        cases h
        exact ⟨List.prefix_rfl, hh, fun x hx _ => by simp_all⟩
      · cases h
    · rintro ⟨hm, hh, -⟩
      obtain rfl := List.prefix_nil.1 hm
      rw [if_pos hh]
  | append_singleton dir s ih =>
    rw [nearestDir?_concat]
    constructor
    · intro h
      split at h
      · next hh =>
        cases h
        exact ⟨List.prefix_rfl, hh, fun x hx _ => hx.length_le⟩
      · next hh =>
        obtain ⟨hm, hhm, hmax⟩ := ih.1 h
        refine ⟨hm.trans (List.prefix_append _ _), hhm, fun x hx hhx => ?_⟩
        rcases List.prefix_concat_iff.1 hx with rfl | hx
        · exact absurd hhx hh
        · exact hmax x hx hhx
    · rintro ⟨hm, hhm, hmax⟩
      split
      · next hh =>
        rw [hm.eq_of_length_le (hmax _ List.prefix_rfl hh)]
      · next hh =>
        refine ih.2 ⟨?_, hhm, fun x hx => hmax x (hx.trans (List.prefix_append _ _))⟩
        rcases List.prefix_concat_iff.1 hm with rfl | hm
        · exact absurd hhm hh
        · exact hm

theorem nearestDir?_of_holdsConfig {d : Disk} {dir : Location} (h : holdsConfig d dir) :
    nearestDir? d dir = some dir :=
  nearestDir?_eq_some_iff.2 ⟨List.prefix_rfl, h, fun _ hx _ => hx.length_le⟩

theorem nearestDir?_congr {d d' : Disk} {dir : Location}
    (h : ∀ x, x <+: dir → holdsConfig d' x = holdsConfig d x) :
    nearestDir? d' dir = nearestDir? d dir :=
  List.find?_congr fun x hx => h x (Disk.mem_upwards.1 hx)

/-! ## The search without a cache -/

/-- The directories in which the configuration of an absolute path is looked for. -/
theorem searchDirs_of_absolute {file : Path} (h : file.normal.absolute) :
    searchDirs file = (upwards file.normal.names).tail.map pathOf := by
  have hp : ∀ s ∈ file.normal.names, IsName s := fun s hs => (Path.normal_plain file s hs).1
  unfold searchDirs
  rw [Path.normalize_of_absolute h]
  generalize file.normal.names = names at hp
  cases names using List.reverseRecOn with
  | nil => simp [Path.parent?_pathOf_nil, Disk.upwards_nil]
  | append_singleton names s =>
    have hn : ∀ t ∈ names, IsName t := fun t ht => hp t (by simp [ht])
    rw [Path.parent?_pathOf_concat hp, Disk.upwards_concat]
    exact Path.ancestors_pathOf hn

theorem normal_proper_prefix_plain {file : Path} {dir : Location}
    (h : dir ∈ (upwards file.normal.names).tail) : ∀ s ∈ dir, IsPlain s := fun s hs =>
  Path.normal_plain file s ((Disk.mem_upwards.1 (List.mem_of_mem_tail h)).subset hs)

/-- **The search without a cache**: the deepest directory above the path. -/
theorem find_of_absolute {d : Disk} {file : Path} (h : file.normal.absolute) :
    find d file = match (upwards file.normal.names).tail.find? (holdsConfig d) with
      | some dir => .ok (fileIn dir)
      | none => .error (.configNotFound file.normalize) := by
  unfold find
  rw [searchDirs_of_absolute h, List.find?_map]
  have hp : ∀ dir ∈ (upwards file.normal.names).tail,
      candidateIn (pathOf dir) = fileIn dir := fun dir hd =>
    candidateIn_pathOf (normal_proper_prefix_plain hd)
  have hf : (upwards file.normal.names).tail.find?
      ((fun dir => d.isFile (candidateIn dir)) ∘ pathOf) =
      (upwards file.normal.names).tail.find? (holdsConfig d) :=
    List.find?_congr fun dir hd => congrArg d.isFile (hp dir hd)
  rw [hf]
  cases hs : (upwards file.normal.names).tail.find? (holdsConfig d) with
  | none => rfl
  | some dir =>
    rw [Option.map_some]
    simp only [hp dir (List.mem_of_find?_eq_some hs)]

end Configuration

namespace Cache

open BuildLayout.Configuration

/-! ## Entries -/

theorem get?_eq_some {α : Type} {entries : List (Path × α)} {p : Path} {v : α}
    (h : get? entries p = some v) : ∃ q, (q, v) ∈ entries ∧ q.same p := by
  obtain ⟨e, he, rfl⟩ := Option.map_eq_some_iff.1 h
  exact ⟨e.1, List.mem_of_find?_eq_some he, by simpa using List.find?_some he⟩

theorem mem_of_mem_insert {α : Type} {entries : List (Path × α)} {p : Path} {v : α}
    {e : Path × α} (h : e ∈ insert entries p v) : e = (p, v) ∨ e ∈ entries := by
  rcases List.mem_cons.1 h with h | h
  · exact .inl h
  · exact .inr (List.mem_of_mem_filter h)

theorem mem_of_mem_addNearest {c : Cache} {dirs : List Path} {config : Path} {e : Path × Path}
    (h : e ∈ (c.addNearest dirs config).nearest) :
    (e.1 ∈ dirs ∧ e.2 = config) ∨ e ∈ c.nearest := by
  have key : ∀ (dirs : List Path) (entries : List (Path × Path)),
      e ∈ dirs.foldl (fun entries dir => insert entries dir config) entries →
      (e.1 ∈ dirs ∧ e.2 = config) ∨ e ∈ entries := by
    intro dirs
    induction dirs with
    | nil => exact fun entries he => .inr he
    | cons dir dirs ih =>
      intro entries he
      rcases ih _ he with ⟨h1, h2⟩ | he
      · exact .inl ⟨.tail _ h1, h2⟩
      · rcases mem_of_mem_insert he with rfl | he
        · exact .inl ⟨.head _, rfl⟩
        · exact .inr he
  exact key dirs c.nearest h

/-- Paths of the same components are both absolute or both relative. -/
theorem isAbsolute_of_same {p q : Path} (h : p.same q) (hq : q.isAbsolute) : p.isAbsolute := by
  rw [← Path.root_mem_components] at *
  rwa [beq_iff_eq.1 h]

/-! ## Right entries -/

/-- The entries for absolute directories are right: each gives the configuration file of the deepest
directory upwards that holds one. -/
def NearestOk (d : Disk) (c : Cache) : Prop :=
  ∀ e ∈ c.nearest, e.1.isAbsolute → ∃ dir m, (∀ s ∈ dir, IsPlain s) ∧ e.1 = pathOf dir ∧
    nearestDir? d dir = some m ∧ e.2 = fileIn m

/-- The directory `p` has the nearest configuration file of `dir`. -/
def Shares (d : Disk) (dir : Location) (p : Path) : Prop :=
  ∃ x, (∀ s ∈ x, IsPlain s) ∧ p = pathOf x ∧ nearestDir? d x = nearestDir? d dir

section
variable {d : Disk} {c : Cache} (hc : NearestOk d c)
include hc

theorem nearestOk_addNearest {dirs : List Path} {dir m : Location}
    (hm : nearestDir? d dir = some m) (h : ∀ p ∈ dirs, Shares d dir p) :
    NearestOk d (c.addNearest dirs (fileIn m)) := by
  intro e he ha
  rcases mem_of_mem_addNearest he with ⟨h1, h2⟩ | he
  · obtain ⟨x, hp, hx, hn⟩ := h _ h1
    exact ⟨x, m, hp, hx, hn.trans hm, h2⟩
  · exact hc e he ha

/-- The entry of an absolute directory. -/
theorem nearestDir?_of_get? {dir : Location} (hp : ∀ s ∈ dir, IsPlain s) {config : Path}
    (h : get? c.nearest (pathOf dir) = some config) :
    ∃ m, nearestDir? d dir = some m ∧ config = fileIn m := by
  obtain ⟨q, hq, hs⟩ := get?_eq_some h
  obtain ⟨dir', m, hp', rfl, hm, rfl⟩ :=
    hc _ hq (isAbsolute_of_same hs (Path.isAbsolute_pathOf dir))
  obtain rfl := (Path.same_pathOf (fun s hs => (hp' s hs).1) fun s hs => (hp s hs).1).1 hs
  exact ⟨m, hm, rfl⟩

/-- The search in one directory: it ends there with the right answer, or the directory holds no
configuration file and the search goes on. -/
theorem search_cons {dir : Location} (hp : ∀ s ∈ dir, IsPlain s) {passed : List Path}
    (hpass : ∀ p ∈ passed, Shares d dir p) (rest : List Path) :
    (∃ m, nearestDir? d dir = some m ∧
        (search d c passed (pathOf dir :: rest)).1 = some (fileIn m) ∧
        NearestOk d (search d c passed (pathOf dir :: rest)).2) ∨
      holdsConfig d dir = false ∧
        search d c passed (pathOf dir :: rest) = search d c (passed ++ [pathOf dir]) rest := by
  rw [search]
  split
  · next config hg =>
    obtain ⟨m, hm, rfl⟩ := nearestDir?_of_get? hc hp hg
    exact .inl ⟨m, hm, rfl, nearestOk_addNearest hc hm hpass⟩
  · rw [candidateIn_pathOf hp]
    dsimp only
    split
    · next hf =>
      have hm := nearestDir?_of_holdsConfig hf
      refine .inl ⟨dir, hm, rfl, nearestOk_addNearest hc hm fun p hpm => ?_⟩
      rcases List.mem_cons.1 hpm with rfl | hpm
      · exact ⟨dir, hp, rfl, rfl⟩
      · exact hpass p hpm
    · next hf => exact .inr ⟨by simpa [holdsConfig] using hf, rfl⟩

/-- **The search with a cache** finds the deepest directory upwards and keeps the entries right. -/
theorem search_spec {dir : Location} (hp : ∀ s ∈ dir, IsPlain s) {passed : List Path}
    (hpass : ∀ p ∈ passed, Shares d dir p) :
    (search d c passed ((upwards dir).map pathOf)).1 = (nearestDir? d dir).map fileIn ∧
      NearestOk d (search d c passed ((upwards dir).map pathOf)).2 := by
  induction dir using List.reverseRecOn generalizing passed with
  | nil =>
    rw [Disk.upwards_nil, List.map_cons, List.map_nil]
    rcases search_cons hc hp hpass [] with ⟨m, hm, h1, h2⟩ | ⟨hf, he⟩
    · exact ⟨by rw [h1, hm]; rfl, h2⟩
    · rw [he, nearestDir?_nil, if_neg (by simp [hf])]
      exact ⟨rfl, hc⟩
  | append_singleton dir s ih =>
    rw [Disk.upwards_concat, List.map_cons]
    rcases search_cons hc hp hpass ((upwards dir).map pathOf) with ⟨m, hm, h1, h2⟩ | ⟨hf, he⟩
    · exact ⟨by rw [h1, hm]; rfl, h2⟩
    · have hn : nearestDir? d (dir ++ [s]) = nearestDir? d dir := by
        rw [nearestDir?_concat, if_neg (by simp [hf])]
      rw [he, hn]
      refine ih (fun t ht => hp t (by simp [ht])) fun p hpm => ?_
      rcases List.mem_append.1 hpm with hpm | hpm
      · obtain ⟨x, hx, hpx, hxn⟩ := hpass p hpm
        exact ⟨x, hx, hpx, hxn.trans hn⟩
      · exact ⟨dir ++ [s], hp, List.mem_singleton.1 hpm, hn⟩

/-- **A lookup with a cache** whose entries are right answers as one without, and keeps them
right. -/
theorem find_spec {file : Path} (h : file.normal.absolute) :
    (c.find d file).1 = Configuration.find d file ∧ NearestOk d (c.find d file).2 := by
  have hsearch : (search d c [] (searchDirs file)).1 =
      ((upwards file.normal.names).tail.find? (holdsConfig d)).map fileIn ∧
      NearestOk d (search d c [] (searchDirs file)).2 := by
    have hp := Path.normal_plain file
    rw [searchDirs_of_absolute h]
    generalize file.normal.names = names at hp
    cases names using List.reverseRecOn with
    | nil => exact ⟨rfl, hc⟩
    | append_singleton names s =>
      rw [Disk.upwards_concat]
      exact search_spec hc (fun t ht => hp t (by simp [ht])) (by simp)
  rw [find_of_absolute h]
  unfold Cache.find
  cases hs : search d c [] (searchDirs file) with
  | mk answer c' =>
    rw [hs] at hsearch
    obtain ⟨h1, h2⟩ := hsearch
    cases hf : (upwards file.normal.names).tail.find? (holdsConfig d) with
    | none =>
      obtain rfl : answer = none := by simpa [hf] using h1
      exact ⟨rfl, h2⟩
    | some dir =>
      obtain rfl : answer = some (fileIn dir) := by simpa [hf] using h1
      exact ⟨rfl, h2⟩

end

/-! ## Relative lookups -/

theorem search_snd (d : Disk) (c : Cache) (dirs : List Path) : ∀ passed, ∃ added config,
    (∀ p ∈ added, p ∈ passed ++ dirs) ∧ (search d c passed dirs).2 = c.addNearest added config := by
  induction dirs with
  | nil => exact fun passed => ⟨[], ⟨""⟩, by simp, rfl⟩
  | cons dir dirs ih =>
    intro passed
    rw [search]
    split
    · exact ⟨passed, _, fun p hp => by simp [hp], rfl⟩
    · dsimp only
      split
      · refine ⟨dir :: passed, _, fun p hp => ?_, rfl⟩
        rcases List.mem_cons.1 hp with rfl | hp
        · simp
        · simp [hp]
      · obtain ⟨added, config, hm, he⟩ := ih (passed ++ [dir])
        exact ⟨added, config, fun p hp => by simpa using hm p hp, he⟩

theorem find_snd (d : Disk) (c : Cache) (file : Path) :
    (c.find d file).2 = (search d c [] (searchDirs file)).2 := by
  unfold Cache.find
  split <;> next hs => rw [hs]

theorem isAbsolute_searchDirs {file : Path} (h : file.normal.absolute = false) :
    ∀ p ∈ searchDirs file, p.isAbsolute = false := by
  unfold searchDirs
  split
  · simp
  · next dir hd =>
    have ha := Path.isAbsolute_parent? (Path.isAbsolute_normalize_of_relative h) hd
    exact Path.forall_mem_ancestorsUpTo Path.isAbsolute_parent? _ ha

/-- A lookup of a relative path makes entries for relative directories only. -/
theorem mem_nearest_of_find_relative {d : Disk} {c : Cache} {file : Path}
    (h : file.normal.absolute = false) {e : Path × Path} (he : e ∈ (c.find d file).2.nearest)
    (ha : e.1.isAbsolute) : e ∈ c.nearest := by
  obtain ⟨added, config, hm, hadd⟩ := search_snd d c (searchDirs file) []
  rw [find_snd, hadd] at he
  rcases mem_of_mem_addNearest he with ⟨h1, -⟩ | he
  · have hrel := isAbsolute_searchDirs h e.1 (by simpa using hm _ h1)
    simp [hrel] at ha
  · exact he

/-- **A lookup of any path** keeps the entries right. -/
theorem nearestOk_find {d : Disk} {c : Cache} (hc : NearestOk d c) (file : Path) :
    NearestOk d (c.find d file).2 := by
  cases h : file.normal.absolute with
  | true => exact (find_spec hc h).2
  | false => exact fun e he ha => hc e (mem_nearest_of_find_relative h he ha) ha

/-! ## Changes -/

theorem nearestOk_of_subset {d : Disk} {c c' : Cache} (hc : NearestOk d c)
    (h : ∀ e ∈ c'.nearest, e ∈ c.nearest) : NearestOk d c' :=
  fun e he => hc e (h e he)

/-- The entry of a directory depends on the configuration files of the directories upwards. -/
theorem dependsOn_fileIn {dir x : Location} (hp : ∀ s ∈ dir, IsPlain s) (hx : x <+: dir)
    (config : Path) : dependsOn (fileIn x) (pathOf dir, config) := by
  have hpx : ∀ s ∈ x ++ [Reference.configName], IsName s := fun s hs =>
    (isPlain_concat_configName (fun t ht => hp t (hx.subset ht)) s hs).1
  unfold dependsOn fileIn
  rw [Path.fileName?_pathOf_concat hpx, Path.parent?_pathOf_concat hpx]
  simp [Path.isWithin_pathOf hp hx]

/-- **A change of one file** followed by `invalidate` keeps the entries right. -/
theorem nearestOk_change {d d' : Disk} {c : Cache} {location : Location} {changed : Path}
    (hd : d.LinkFree) (hc : NearestOk d c) (h : FileChange d d' location)
    (hl : IsPathTo changed location) : NearestOk d' (c.invalidate changed) := by
  intro e he ha
  obtain ⟨hm, hdep⟩ := List.mem_filter.1 he
  obtain ⟨dir, m, hp, h1, hn, h2⟩ := hc e hm ha
  refine ⟨dir, m, hp, h1, ?_, h2⟩
  rw [← hn]
  refine nearestDir?_congr fun x hx => h.isFile_eq hd fun hplace => ?_
  -- the changed file is the configuration file of `x`, so the entry was dropped
  have hpx := isPlain_concat_configName fun t ht => hp t (hx.subset ht)
  obtain rfl := Disk.place?_pathOf (fun s hs => (hpx s hs).1) hplace
  rw [hl.normalize hpx] at hdep
  have htrue : dependsOn (fileIn x) e = true := by
    have := dependsOn_fileIn hp hx e.2
    rwa [← h1] at this
  have hfalse : dependsOn (fileIn x) e = false := by
    unfold fileIn
    simpa using hdep
  exact absurd htrue (by simp [hfalse])

end Cache

end BuildLayout
