import BuildLayout.Proofs.Config.Extends
import BuildLayout.Config.Cache
import Mathlib.Logic.Function.Iterate

/-!
# A lookup step by step

A lookup through a cache takes many steps, and between two of them others may use the cache and the
disk. `Lookup.step` makes one step: it looks up one directory or one configuration in the cache,
tries one configuration file, makes one entry, follows one reference or reads one file. The walk
through the files that are extended keeps the files that are being loaded on a stack (`Walk`,
`Frame`), where `Configuration.loadFile` calls itself.

With nobody else around, the steps amount to `Cache.resolve` (`leads_resolve`). Every lookup ends,
whatever became of the cache in between (`Lookup.ends`).
-/

namespace BuildLayout

/-- Some number of steps lead from one state to the other. -/
def Leads {α : Type} (step : α → α) (a b : α) : Prop :=
  ∃ n, step^[n] a = b

namespace Leads

variable {α : Type} {step : α → α} {a b c : α}

theorem refl (a : α) : Leads step a a := ⟨0, rfl⟩

theorem trans (h : Leads step a b) (h' : Leads step b c) : Leads step a c := by
  obtain ⟨n, rfl⟩ := h
  obtain ⟨m, rfl⟩ := h'
  exact ⟨m + n, Function.iterate_add_apply step m n a⟩

/-- The first step, and the others. -/
theorem head (h : Leads step (step a) b) : Leads step a b :=
  trans ⟨1, rfl⟩ h

/-- One step leads there. -/
theorem of_eq (h : step a = b) : Leads step a b := ⟨1, h⟩

/-- Two states at which the steps come to rest are the same. -/
theorem unique (h : Leads step a b) (h' : Leads step a c) (hb : step b = b) (hc : step c = c) :
    b = c := by
  obtain ⟨n, rfl⟩ := h
  obtain ⟨m, rfl⟩ := h'
  rw [← Function.iterate_fixed hb m, ← Function.iterate_fixed hc n,
    ← Function.iterate_add_apply, ← Function.iterate_add_apply, Nat.add_comm]

end Leads

namespace Configuration

/-! ## The walk through the files -/

/-- A file that is being loaded. -/
structure Frame where
  location : Location
  path : Path
  declared : Declared
  /-- The options merged so far. -/
  merged : Options
  /-- The references that are still to be followed. -/
  rest : List String

/-- Where a walk stands; `files` are those read so far. -/
inductive Walk where
  /-- The file at a path is read next, for the files of the stack. -/
  | enter (frames : List Frame) (files : List Path) (path : Path)
  /-- The next reference of a file is followed. -/
  | follow (frame : Frame) (frames : List Frame) (files : List Path)
  | done (result : Except Failure Loaded)

namespace Walk

/-- A file was loaded for the files of the stack. -/
def returned : List Frame → Loaded → Walk
  | [], loaded => .done (.ok loaded)
  | frame :: frames, loaded =>
    .follow { frame with merged := frame.merged.override loaded.options } frames loaded.files

/-- One step further. -/
def step (d : Disk) : Walk → Walk
  | .enter frames files path =>
    match d.locate true path with
    | .error e => .done (.error (.io (some path) e.text))
    | .ok location =>
      let ancestry := frames.map Frame.location
      if ancestry.contains location then
        .done (.error (.circularExtends ((ancestry.reverse ++ [location]).map Disk.pathOf)))
      else
        match d.bytesAt? location with
        | none => .done (.error (.io (some path) OsError.isDirectory.text))
        | some bytes =>
          match Declared.ofBytes path bytes with
          | .error f => .done (.error f)
          | .ok declared =>
            .follow ⟨location, path, declared, {}, referencesOf declared⟩ frames
              (addFile files path)
  | .follow frame frames files =>
    match frame.rest with
    | [] => returned frames (withOwn frame.path frame.declared ⟨frame.merged, files⟩)
    | reference :: rest =>
      match Reference.resolve? d frame.path.parentOrRoot reference with
      | none => .done (.error (.extendsNotFound reference frame.path))
      | some parent => .enter ({ frame with rest } :: frames) files parent
  | .done result => .done result

/-- What comes of a file that was loaded or not. -/
def outcome (frames : List Frame) : Except Failure Loaded → Walk
  | .ok loaded => returned frames loaded
  | .error f => .done (.error f)

/-- The references of a file are followed one after the other, when it is clear how the files are
loaded that they lead to. -/
theorem leads_loadReferences {d : Disk} {location : Location} {ancestry : List Location}
    (hfile : ∀ frames files path, frames.map Frame.location = location :: ancestry →
      Leads (step d) (.enter frames files path)
        (outcome frames (loadFile d (location :: ancestry) files path)))
    {frames : List Frame} (hframes : frames.map Frame.location = ancestry) {path : Path}
    {declared : Declared} (references : List String) (merged : Options) (files : List Path) :
    Leads (step d) (.follow ⟨location, path, declared, merged, references⟩ frames files)
      (outcome frames ((loadReferences d (location :: ancestry) path path.parentOrRoot
        ⟨merged, files⟩ references).map (withOwn path declared))) := by
  induction references generalizing merged files with
  | nil =>
    rw [loadReferences_nil]
    exact .of_eq rfl
  | cons reference rest ih =>
    refine .head ?_
    rw [loadReferences]
    dsimp only [step]
    cases Reference.resolve? d path.parentOrRoot reference with
    | none => exact .refl _
    | some parent =>
      have hparent := hfile (⟨location, path, declared, merged, rest⟩ :: frames) files parent
        (by rw [List.map_cons, hframes])
      dsimp only
      refine hparent.trans ?_
      cases loadFile d (location :: ancestry) files parent with
      | error f => exact .refl _
      | ok upper => exact ih _ _

/-- **The walk** ends as the loading of the file does. -/
theorem leads_loadFile {d : Disk} {ancestry : List Location} {frames : List Frame}
    (hframes : frames.map Frame.location = ancestry) (files : List Path) (path : Path) :
    Leads (step d) (.enter frames files path)
      (outcome frames (loadFile d ancestry files path)) := by
  induction ancestry using ancestry_induction (d := d) generalizing frames files path with
  | step ancestry ih =>
    refine .head ?_
    rw [loadFile]
    dsimp only [step]
    rw [hframes]
    cases hl : d.locate true path with
    | error e => exact .refl _
    | ok location =>
      dsimp only
      by_cases hv : location ∈ ancestry
      · rw [if_pos (List.contains_iff_mem.2 hv), dif_pos hv]
        exact .refl _
      rw [if_neg (mt List.contains_iff_mem.1 hv), dif_neg hv]
      split
      · next hb =>
        rw [hb]
        exact .refl _
      next bytes hb =>
      rw [hb]
      dsimp only
      cases hd : Declared.ofBytes path bytes with
      | error f => exact .refl _
      | ok declared =>
        have hdec : declaredAt d path = .ok declared :=
          declaredAt_eq_ok_iff.2 ⟨location, bytes, hl, hb, hd⟩
        have hrefs := @leads_loadReferences _ _ _
          (fun _ files parent hf => ih path location declared hl hdec hv hf files parent)
          _ hframes path declared (referencesOf declared) {} (addFile files path)
        unfold referencesOf at hrefs ⊢
        dsimp only
        cases hu : loadReferences d (location :: ancestry) path path.parentOrRoot
            ⟨{}, addFile files path⟩ (declared.references.getD []) with
        | error f =>
          rw [hu] at hrefs
          exact hrefs
        | ok upper =>
          rw [hu] at hrefs
          dsimp only [Except.map, withOwn] at hrefs ⊢
          cases hown : declared.options <;> simpa only [hown, hu] using hrefs

theorem step_outcome_nil (d : Disk) (result : Except Failure Loaded) :
    (outcome [] result).step d = outcome [] result := by
  cases result <;> rfl

/-- Where the walk of a configuration file comes to. -/
theorem load_of_leads {d : Disk} {config : Path} {loaded : Loaded}
    (h : Leads (step d) (.enter [] [] config.normalize) (.done (.ok loaded))) :
    load d config = .ok (ofLoaded config.normalize loaded) := by
  have hresult := h.unique (leads_loadFile rfl [] config.normalize) rfl (step_outcome_nil d _)
  rw [List.map_nil] at hresult
  cases hl : loadFile d [] [] config.normalize with
  | error f =>
    rw [hl] at hresult
    cases hresult
  | ok loaded' =>
    rw [hl] at hresult
    cases hresult
    exact load_eq_ok_iff.2 ⟨loaded, hl, rfl⟩

/-- **Every walk ends**, wherever it stands. -/
theorem exists_leads_done (d : Disk) (w : Walk) : ∃ result, Leads (step d) w (.done result) := by
  have hreturn : ∀ frame frames files,
      ∃ result, Leads (step d) (.follow frame frames files) (outcome frames result) :=
    fun frame frames files => ⟨_, leads_loadReferences
      (fun _ files path hf => leads_loadFile hf files path) rfl frame.rest frame.merged files⟩
  have hfollow : ∀ frames frame files,
      ∃ result, Leads (step d) (.follow frame frames files) (.done result) := by
    intro frames
    induction frames with
    | nil =>
      intro frame files
      obtain ⟨result, h⟩ := hreturn frame [] files
      cases result with
      | error f => exact ⟨_, h⟩
      | ok loaded => exact ⟨_, h⟩
    | cons above frames ih =>
      intro frame files
      obtain ⟨result, h⟩ := hreturn frame (above :: frames) files
      cases result with
      | error f => exact ⟨_, h⟩
      | ok loaded =>
        obtain ⟨result, h'⟩ := ih _ _
        exact ⟨result, h.trans h'⟩
  cases w with
  | done result => exact ⟨result, .refl _⟩
  | follow frame frames files => exact hfollow frames frame files
  | enter frames files path =>
    have h := @leads_loadFile d _ frames rfl files path
    cases hl : loadFile d (frames.map Frame.location) files path with
    | error f =>
      rw [hl] at h
      exact ⟨_, h⟩
    | ok loaded =>
      rw [hl] at h
      cases frames with
      | nil => exact ⟨_, h⟩
      | cons above frames =>
        obtain ⟨result, h'⟩ := hfollow frames _ _
        exact ⟨result, h.trans h'⟩

end Walk

end Configuration

/-! ## The lookup of a configuration -/

open BuildLayout.Configuration (Walk)

/-- Where a lookup of the configuration of a file stands. -/
inductive Lookup where
  /-- The first of the directories is looked up; those passed are without a configuration file. -/
  | search (passed dirs : List Path)
  /-- A configuration file is tried in a directory that is not remembered. -/
  | probe (passed : List Path) (dir : Path) (dirs : List Path)
  /-- The configuration file that was found is remembered for directories. -/
  | note (dirs : List Path) (config : Path)
  /-- What the configuration file merges to is looked up. -/
  | reuse (config : Path)
  | load (config : Path) (walk : Walk)
  /-- What was loaded is remembered. -/
  | store (config : Path) (loaded : Configuration)
  | done (answer : Except Failure Configuration)

namespace Lookup

open Cache (get? insert)
open BuildLayout.Configuration (candidateIn ofLoaded)

/-- A lookup begins in the directory of the file. -/
def start (file : Path) : Lookup :=
  .search [] (Configuration.searchDirs file)

/-- One step of the lookup for a file, with the cache before and after it. -/
def step (d : Disk) (file : Path) : Lookup × Cache → Lookup × Cache
  | (.search _ [], c) => (.done (.error (.configNotFound file.normalize)), c)
  | (.search passed (dir :: dirs), c) =>
    match get? c.nearest dir with
    | some config => (.note passed config, c)
    | none => (.probe passed dir dirs, c)
  | (.probe passed dir dirs, c) =>
    if d.isFile (candidateIn dir) then (.note (dir :: passed) (candidateIn dir), c)
    else (.search (passed ++ [dir]) dirs, c)
  | (.note [] config, c) => (.reuse config, c)
  | (.note (dir :: dirs) config, c) =>
    (.note dirs config, { c with nearest := insert c.nearest dir config })
  | (.reuse config, c) =>
    match get? c.resolved config with
    | some known => (.done (.ok known), c)
    | none => (.load config (.enter [] [] config.normalize), c)
  | (.load _ (.done (.error f)), c) => (.done (.error f), c)
  | (.load config (.done (.ok loaded)), c) =>
    (.store config (ofLoaded config.normalize loaded), c)
  | (.load config walk, c) => (.load config (walk.step d), c)
  | (.store config loaded, c) =>
    (.done (.ok loaded), { c with resolved := insert c.resolved config loaded })
  | (.done answer, c) => (.done answer, c)

section
variable {d : Disk} {file : Path}

theorem leads_note (dirs : List Path) (config : Path) (c : Cache) :
    Leads (step d file) (.note dirs config, c) (.reuse config, c.addNearest dirs config) := by
  induction dirs generalizing c with
  | nil => exact .of_eq rfl
  | cons dir dirs ih => exact .head (ih _)

/-- The search step by step. -/
theorem leads_search (passed dirs : List Path) (c : Cache) :
    Leads (step d file) (.search passed dirs, c)
      (match Cache.search d c passed dirs with
      | (some config, c') => (.reuse config, c')
      | (none, c') => (.done (.error (.configNotFound file.normalize)), c')) := by
  induction dirs generalizing passed with
  | nil => exact .of_eq rfl
  | cons dir dirs ih =>
    refine .head ?_
    rw [Cache.search]
    dsimp only [step]
    cases get? c.nearest dir with
    | some config => exact leads_note passed config c
    | none =>
      refine .head ?_
      dsimp only [step]
      split
      · exact leads_note (dir :: passed) (candidateIn dir) c
      · exact ih (passed ++ [dir])

/-- The walk within a lookup. -/
theorem leads_load_walk {config : Path} {w : Walk} {result : Except Failure Configuration.Loaded}
    (h : Leads (Walk.step d) w (.done result)) (c : Cache) :
    Leads (step d file) (.load config w, c) (.load config (.done result), c) := by
  obtain ⟨n, hn⟩ := h
  induction n generalizing w with
  | zero =>
    obtain rfl : w = .done result := hn
    exact .refl _
  | succ n ih =>
    rw [Function.iterate_succ_apply] at hn
    cases w with
    | done result' =>
      have hfixed : Walk.done result' = .done result :=
        (Function.iterate_fixed (rfl : Walk.step d (.done result') = _) n).symm.trans hn
      rw [hfixed]
      exact .refl _
    | enter frames files path => exact .head (ih hn)
    | follow frame frames files => exact .head (ih hn)

/-- The loading of a configuration file that is not remembered. -/
theorem leads_load (config : Path) (c : Cache) :
    Leads (step d file) (.load config (.enter [] [] config.normalize), c)
      (match Configuration.load d config with
      | .ok loaded => (.store config loaded, c)
      | .error f => (.done (.error f), c)) := by
  have hwalk := @Walk.leads_loadFile d _ [] rfl [] config.normalize
  unfold Configuration.load
  dsimp only
  rw [List.map_nil] at hwalk
  cases hl : Configuration.loadFile d [] [] config.normalize with
  | error f =>
    rw [hl] at hwalk
    exact (leads_load_walk hwalk c).trans (.of_eq rfl)
  | ok loaded =>
    rw [hl] at hwalk
    exact (leads_load_walk hwalk c).trans (.of_eq rfl)

/-- **The steps of a lookup** amount to `Cache.resolve` when nobody else is around. -/
theorem leads_resolve (d : Disk) (file : Path) (c : Cache) :
    Leads (step d file) (start file, c) (.done (c.resolve d file).1, (c.resolve d file).2) := by
  refine (leads_search [] (Configuration.searchDirs file) c).trans ?_
  unfold Cache.resolve Cache.find
  cases Cache.search d c [] (Configuration.searchDirs file) with
  | mk found c' =>
    cases found with
    | none => exact .refl _
    | some config =>
      refine .head ?_
      dsimp only [step]
      cases get? c'.resolved config with
      | some known => exact .refl _
      | none =>
        refine (leads_load config c').trans ?_
        cases Configuration.load d config with
        | error f => exact .refl _
        | ok loaded => exact .of_eq rfl

/-! ### Every lookup ends -/

/-- The lookup comes to an answer. -/
def Ends (d : Disk) (file : Path) (s : Lookup × Cache) : Prop :=
  ∃ answer c, Leads (step d file) s (.done answer, c)

theorem Ends.of_leads {s s' : Lookup × Cache} (h : Leads (step d file) s s')
    (h' : Ends d file s') : Ends d file s := by
  obtain ⟨answer, c, hl⟩ := h'
  exact ⟨answer, c, h.trans hl⟩

theorem ends_done (answer : Except Failure Configuration) (c : Cache) :
    Ends d file (.done answer, c) :=
  ⟨answer, c, .refl _⟩

theorem ends_load (config : Path) (walk : Walk) (c : Cache) :
    Ends d file (.load config walk, c) := by
  obtain ⟨result, hw⟩ := walk.exists_leads_done d
  refine .of_leads (leads_load_walk hw c) ?_
  cases result with
  | error f => exact .of_leads (.of_eq rfl) (ends_done _ c)
  | ok loaded => exact .of_leads (.of_eq rfl) (.of_leads (.of_eq rfl) (ends_done _ _))

theorem ends_reuse (config : Path) (c : Cache) : Ends d file (.reuse config, c) := by
  refine .of_leads (.of_eq rfl) ?_
  dsimp only [step]
  cases get? c.resolved config with
  | some known => exact ends_done _ c
  | none => exact ends_load config _ c

theorem ends_note (dirs : List Path) (config : Path) (c : Cache) :
    Ends d file (.note dirs config, c) :=
  .of_leads (leads_note dirs config c) (ends_reuse config _)

theorem ends_search (passed dirs : List Path) (c : Cache) :
    Ends d file (.search passed dirs, c) := by
  refine .of_leads (leads_search passed dirs c) ?_
  cases Cache.search d c passed dirs with
  | mk found c' =>
    cases found with
    | none => exact ends_done _ c'
    | some config => exact ends_reuse config c'

/-- **Every lookup ends**, wherever it stands and whatever is remembered. -/
theorem ends (d : Disk) (file : Path) (s : Lookup × Cache) : Ends d file s := by
  obtain ⟨phase, c⟩ := s
  cases phase with
  | search passed dirs => exact ends_search passed dirs c
  | probe passed dir dirs =>
    refine .of_leads (.of_eq rfl) ?_
    dsimp only [step]
    split
    · exact ends_note _ _ c
    · exact ends_search _ _ c
  | note dirs config => exact ends_note dirs config c
  | reuse config => exact ends_reuse config c
  | load config walk => exact ends_load config walk c
  | store config loaded => exact .of_leads (.of_eq rfl) (ends_done _ _)
  | done answer => exact ends_done answer c

end

end Lookup

end BuildLayout
