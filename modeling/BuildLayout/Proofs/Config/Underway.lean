import BuildLayout.Proofs.Config.Dropped
import BuildLayout.Proofs.Config.Stepwise

/-!
# A lookup under way

What the steps of a lookup keep, wherever it stands. `Lookup.Inv`: it is on the way to the right
configuration file, makes right entries for the directories it passes, and remembers no
configuration but its answer. `Lookup.Loads`: what it has loaded so far is what the files say.

Both survive the rewriting of a file (`Disk.Rewritten`), the second as long as the lookup has not
read the file (`Lookup.HasRead`): then the steps so far are those that it would have made if the
file had said something else from the beginning (`Walk.leads_of_rewritten`).
-/

namespace BuildLayout

open Disk (LinkFree FileChange pathOf upwards)
open BuildLayout.Path (IsPlain)

/-! ## The rewriting of a file -/

namespace Disk

/-- A regular file gets other contents. -/
structure Rewritten (d d' : Disk) (location : Location) : Prop where
  before : (d.bytesAt? location).isSome
  after : (d'.bytesAt? location).isSome
  elsewhere : ∀ l, l ≠ location → d'.node? l = d.node? l
  cwd : d'.cwd = d.cwd

theorem fileOrFree_of_isSome {d : Disk} {location : Location}
    (h : (d.bytesAt? location).isSome) : d.FileOrFree location := by
  intro node hn
  obtain ⟨bytes, hb⟩ := Option.isSome_iff_exists.1 h
  obtain ⟨executable, hfile⟩ := bytesAt?_eq_some_iff.1 hb
  exact ⟨bytes, executable, Option.some.inj (hn.symm.trans hfile)⟩

namespace Rewritten

variable {d d' : Disk} {location : Location}

theorem put (h : (d.bytesAt? location).isSome) (bytes : Text.Bytes) (executable : Bool) :
    Rewritten d (d.put location (.file bytes executable)) location := by
  have hchange := FileChange.put (fileOrFree_of_isSome h) bytes executable
  refine ⟨h, ?_, hchange.elsewhere, hchange.cwd⟩
  unfold bytesAt?
  rw [node?_put (fileOrFree_of_isSome h).ne_nil, if_pos rfl]
  rfl

theorem fileChange (h : Rewritten d d' location) : FileChange d d' location :=
  ⟨fileOrFree_of_isSome h.before, fileOrFree_of_isSome h.after, h.elsewhere, h.cwd⟩

theorem sameTree (h : Rewritten d d' location) : SameTree d d' where
  toSameDirectories := h.fileChange.sameDirectories
  isSome_bytesAt? l := by
    by_cases hl : l = location
    · rw [hl, h.before, h.after]
    · unfold bytesAt?
      rw [h.elsewhere l hl]

theorem isFile_eq (h : Rewritten d d' location) (hd : LinkFree d) : d'.isFile = d.isFile :=
  funext (h.sameTree.isFile_eq hd (h.fileChange.linkFree hd))

end Rewritten

end Disk

section
variable {d d' : Disk} {location : Location} (h : Disk.Rewritten d d' location) (hd : LinkFree d)
include h hd

namespace Configuration

theorem find_of_rewritten (file : Path) : find d' file = find d file := by
  unfold find
  rw [h.isFile_eq hd]

theorem nearestDir?_of_rewritten (dir : Location) : nearestDir? d' dir = nearestDir? d dir := by
  unfold nearestDir? holdsConfig
  rw [h.isFile_eq hd]

/-- What was loaded without reading the file is right when the file says something else. -/
theorem load_of_rewritten {path : Path} {loaded : Configuration}
    (hl : load d path = .ok loaded)
    (hn : ∀ q, d.place? q = some location → ¬ Recorded loaded.sourceFiles q) :
    load d' path = .ok loaded := by
  refine (load_eq_ok_iff_of_change h.fileChange hd fun hdep => ?_).2 hl
  obtain ⟨bytes, hb⟩ := Option.isSome_iff_exists.1 h.before
  obtain ⟨executable, hnode⟩ := Disk.bytesAt?_eq_some_iff.1 hb
  obtain ⟨q, -, hplace, hrec⟩ := recorded_of_dependsOn hd hl hnode hdep
  exact hn q hplace hrec

end Configuration

theorem Cache.nearestOk_of_rewritten {c : Cache} (hc : NearestOk d c) : NearestOk d' c := by
  unfold NearestOk at hc ⊢
  simpa only [Configuration.nearestDir?_of_rewritten h hd] using hc

end

namespace Lookup

open Cache (get? NearestOk Shares)
open BuildLayout.Configuration (Walk find fileIn nearestDir? holdsConfig candidateIn Recorded)

/-! ## On the way to the configuration file -/

/-- The directories from `x` upwards are still to be looked through, and the nearest configuration
file there is the one that governs the file. -/
structure Ahead (d : Disk) (file : Path) (passed dirs : List Path) (x : Location) : Prop where
  plain : ∀ s ∈ x, IsPlain s
  dirs_eq : dirs = (upwards x).map pathOf
  nearest : nearestDir? d x = (upwards file.normal.names).tail.find? (holdsConfig d)
  passed : ∀ p ∈ passed, Shares d x p

/-- The lookup is on the way to the right configuration file, or has it. -/
def Finds (d : Disk) (file : Path) : Lookup → Prop
  | .search passed dirs => dirs = [] ∨ ∃ x, Ahead d file passed dirs x
  | .probe passed dir dirs => ∃ x, Ahead d file passed (dir :: dirs) x
  | .note dirs config => find d file = .ok config ∧
      ∃ x m, nearestDir? d x = some m ∧ config = fileIn m ∧ ∀ p ∈ dirs, Shares d x p
  | .reuse config | .load config _ | .store config _ => find d file = .ok config
  | .done _ => True

/-- What the steps keep of a lookup that began when `before` was remembered. -/
structure Inv (d : Disk) (file : Path) (before : List (Path × Configuration))
    (s : Lookup × Cache) : Prop where
  nearest : NearestOk d s.2
  finds : Finds d file s.1
  /-- Nothing is remembered anew but the answer. -/
  origin : ∀ e ∈ s.2.resolved, e ∈ before ∨ find d file = .ok e.1 ∧ s.1 = .done (.ok e.2)
  /-- The answer is remembered. -/
  kept : ∀ r, s.1 = .done (.ok r) →
    ∃ config, find d file = .ok config ∧ get? s.2.resolved config = some r

section
variable {d : Disk} {file : Path} {x : Location} {passed dirs : List Path} {dir : Path}

theorem Ahead.find_eq (h : Ahead d file passed dirs x) (ha : file.normal.absolute) {m : Location}
    (hm : nearestDir? d x = some m) : find d file = .ok (fileIn m) := by
  rw [Configuration.find_of_absolute ha, ← h.nearest, hm]

theorem Ahead.head_eq (h : Ahead d file passed (dir :: dirs) x) : dir = pathOf x := by
  have hdirs := h.dirs_eq
  cases x using List.reverseRecOn with
  | nil =>
    rw [Disk.upwards_nil] at hdirs
    exact (List.cons.inj hdirs).1
  | append_singleton y s =>
    rw [Disk.upwards_concat] at hdirs
    exact (List.cons.inj hdirs).1

/-- The search goes on above a directory without a configuration file. -/
theorem Ahead.up (h : Ahead d file passed (dir :: dirs) x) (hx : holdsConfig d x = false) :
    dirs = [] ∨ ∃ y, Ahead d file (passed ++ [dir]) dirs y := by
  have hdir := h.head_eq
  obtain ⟨hplain, hdirs, hnearest, hpassed⟩ := h
  cases x using List.reverseRecOn with
  | nil =>
    rw [Disk.upwards_nil] at hdirs
    exact .inl (List.cons.inj hdirs).2
  | append_singleton y s =>
    rw [Disk.upwards_concat] at hdirs
    have hy : nearestDir? d (y ++ [s]) = nearestDir? d y := by
      rw [Configuration.nearestDir?_concat, if_neg (by simp [hx])]
    refine .inr ⟨y, fun t ht => hplain t (by simp [ht]), (List.cons.inj hdirs).2,
      hy ▸ hnearest, fun p hp => ?_⟩
    rcases List.mem_append.1 hp with hp | hp
    · obtain ⟨z, hz, hpz, hn⟩ := hpassed p hp
      exact ⟨z, hz, hpz, hn.trans hy⟩
    · exact ⟨y ++ [s], hplain, (List.mem_singleton.1 hp).trans hdir, hy⟩

theorem inv_start {c : Cache} (hc : NearestOk d c) (ha : file.normal.absolute) :
    Inv d file c.resolved (start file, c) where
  nearest := hc
  finds := by
    have hp := Path.normal_plain file
    unfold start Finds
    rw [Configuration.searchDirs_of_absolute ha]
    cases hnames : file.normal.names using List.reverseRecOn with
    | nil => exact .inl rfl
    | append_singleton y s =>
      rw [Disk.upwards_concat, List.tail_cons]
      rw [hnames] at hp
      refine .inr ⟨y, fun t ht => hp t (by simp [ht]), rfl, ?_, by simp⟩
      rw [hnames, Disk.upwards_concat, List.tail_cons]
      rfl
  origin _ he := .inl he
  kept _ he := by cases he

theorem get?_insert_self {α : Type} (entries : List (Path × α)) (p : Path) (value : α) :
    get? (Cache.insert entries p value) p = some value := by
  unfold get? Cache.insert
  rw [List.find?_cons_of_pos (by simp [Path.same]), Option.map_some]

section
variable {before : List (Path × Configuration)} {phase next : Lookup} {c c' : Cache}

theorem Inv.mem_before (h : Inv d file before (phase, c))
    (hrun : ∀ answer, phase ≠ .done answer) {e : Path × Configuration} (he : e ∈ c.resolved) :
    e ∈ before := by
  rcases h.origin e he with he | ⟨-, hdone⟩
  · exact he
  · exact absurd hdone (hrun _)

/-- A step that remembers no configuration, of a lookup that goes on. -/
theorem Inv.goOn (h : Inv d file before (phase, c)) (hrun : ∀ answer, phase ≠ .done answer)
    (hn : NearestOk d c') (hf : Finds d file next) (hr : c'.resolved = c.resolved)
    (hend : ∀ r, next ≠ .done (.ok r)) : Inv d file before (next, c') where
  nearest := hn
  finds := hf
  origin _ he := .inl (h.mem_before hrun (hr ▸ he))
  kept r he := absurd he (hend r)

variable (ha : file.normal.absolute)
include ha

theorem Inv.step_search {passed dirs : List Path}
    (h : Inv d file before (.search passed dirs, c)) :
    Inv d file before (step d file (.search passed dirs, c)) := by
  cases dirs with
  | nil => exact h.goOn nofun h.nearest trivial rfl nofun
  | cons dir dirs =>
    obtain ⟨x, hx⟩ := h.finds.resolve_left (List.cons_ne_nil _ _)
    dsimp only [step]
    cases hg : get? c.nearest dir with
    | some config =>
      rw [hx.head_eq] at hg
      obtain ⟨m, hm, rfl⟩ := Cache.nearestDir?_of_get? h.nearest hx.plain hg
      have hf : Finds d file (.note passed (fileIn m)) :=
        ⟨hx.find_eq ha hm, x, m, hm, rfl, hx.passed⟩
      exact h.goOn nofun h.nearest hf rfl nofun
    | none => exact h.goOn nofun h.nearest ⟨x, hx⟩ rfl nofun

theorem Inv.step_probe {passed dirs : List Path} {dir : Path}
    (h : Inv d file before (.probe passed dir dirs, c)) :
    Inv d file before (step d file (.probe passed dir dirs, c)) := by
  obtain ⟨x, hx⟩ := h.finds
  have hcandidate : candidateIn dir = fileIn x := by
    rw [hx.head_eq, Configuration.candidateIn_pathOf hx.plain]
  dsimp only [step]
  rw [hcandidate]
  split
  · next hfile =>
    have hm := Configuration.nearestDir?_of_holdsConfig hfile
    have hf : Finds d file (.note (dir :: passed) (fileIn x)) := by
      refine ⟨hx.find_eq ha hm, x, x, hm, rfl, fun p hp => ?_⟩
      rcases List.mem_cons.1 hp with rfl | hp
      · exact ⟨x, hx.plain, hx.head_eq, rfl⟩
      · exact hx.passed p hp
    exact h.goOn nofun h.nearest hf rfl nofun
  · next hfile =>
    exact h.goOn nofun h.nearest (hx.up (by simpa [holdsConfig] using hfile)) rfl nofun

omit ha

theorem Inv.step_note {dirs : List Path} {config : Path}
    (h : Inv d file before (.note dirs config, c)) :
    Inv d file before (step d file (.note dirs config, c)) := by
  obtain ⟨hfind, x, m, hm, rfl, hdirs⟩ := h.finds
  cases dirs with
  | nil => exact h.goOn nofun h.nearest hfind rfl nofun
  | cons dir dirs =>
    have hnear : NearestOk d (c.addNearest [dir] (fileIn m)) :=
      Cache.nearestOk_addNearest h.nearest hm (by simpa using hdirs dir (.head _))
    have hf : Finds d file (.note dirs (fileIn m)) :=
      ⟨hfind, x, m, hm, rfl, fun p hp => hdirs p (.tail _ hp)⟩
    exact h.goOn nofun hnear hf rfl nofun

theorem Inv.step_reuse {config : Path} (h : Inv d file before (.reuse config, c)) :
    Inv d file before (step d file (.reuse config, c)) := by
  dsimp only [step]
  cases hg : get? c.resolved config with
  | some known =>
    refine ⟨h.nearest, trivial, fun e he => .inl (h.mem_before nofun he), fun r hr => ?_⟩
    cases hr
    exact ⟨config, h.finds, hg⟩
  | none =>
    have hf : Finds d file (.load config (.enter [] [] config.normalize)) := h.finds
    exact h.goOn nofun h.nearest hf rfl nofun

theorem Inv.step_load {config : Path} {walk : Walk}
    (h : Inv d file before (.load config walk, c)) :
    Inv d file before (step d file (.load config walk, c)) := by
  have hfind : find d file = .ok config := h.finds
  have hload : ∀ walk', Inv d file before (.load config walk', c) := fun walk' =>
    h.goOn nofun h.nearest hfind rfl nofun
  cases walk with
  | done result =>
    cases result with
    | error f => exact h.goOn nofun h.nearest trivial rfl nofun
    | ok loaded => exact h.goOn nofun h.nearest hfind rfl nofun
  | enter frames files path => exact hload _
  | follow frame frames files => exact hload _

theorem Inv.step_store {config : Path} {loaded : Configuration}
    (h : Inv d file before (.store config loaded, c)) :
    Inv d file before (step d file (.store config loaded, c)) := by
  have hfind : find d file = .ok config := h.finds
  refine ⟨h.nearest, trivial, fun e he => ?_, fun r hr => ?_⟩
  · rcases Cache.mem_of_mem_insert he with rfl | he
    · exact .inr ⟨hfind, rfl⟩
    · exact .inl (h.mem_before nofun he)
  · cases hr
    exact ⟨config, hfind, get?_insert_self _ _ _⟩

end

/-- **One step** keeps the invariant. -/
theorem Inv.step {before : List (Path × Configuration)} {s : Lookup × Cache}
    (h : Inv d file before s) (ha : file.normal.absolute) :
    Inv d file before (Lookup.step d file s) := by
  obtain ⟨phase, c⟩ := s
  cases phase with
  | search passed dirs => exact h.step_search ha
  | probe passed dir dirs => exact h.step_probe ha
  | note dirs config => exact h.step_note
  | reuse config => exact h.step_reuse
  | load config walk => exact h.step_load
  | store config loaded => exact h.step_store
  | done answer => exact h

/-- **All the steps** keep it. -/
theorem Inv.iterate {before : List (Path × Configuration)} {s : Lookup × Cache}
    (h : Inv d file before s) (ha : file.normal.absolute) (n : Nat) :
    Inv d file before ((Lookup.step d file)^[n] s) :=
  Function.Iterate.rec (Inv d file before) h (fun _ hs => hs.step ha) n

end

/-! ### When a file is rewritten -/

section
variable {d d' : Disk} {location : Location} (h : Disk.Rewritten d d' location) (hd : LinkFree d)
  {file : Path}
include h hd

theorem Ahead.of_rewritten {passed dirs : List Path} {x : Location}
    (hx : Ahead d file passed dirs x) : Ahead d' file passed dirs x where
  plain := hx.plain
  dirs_eq := hx.dirs_eq
  nearest := by
    have hnearest := hx.nearest
    unfold holdsConfig at hnearest ⊢
    rw [Configuration.nearestDir?_of_rewritten h hd, hnearest, h.isFile_eq hd]
  passed p hp := by
    have hshares := hx.passed p hp
    unfold Shares at hshares ⊢
    simpa only [Configuration.nearestDir?_of_rewritten h hd] using hshares

theorem Finds.of_rewritten {phase : Lookup} (hf : Finds d file phase) :
    Finds d' file phase := by
  have hfind := Configuration.find_of_rewritten h hd file
  cases phase with
  | search passed dirs => exact hf.imp_right fun ⟨x, hx⟩ => ⟨x, hx.of_rewritten h hd⟩
  | probe passed dir dirs => exact hf.imp fun x hx => hx.of_rewritten h hd
  | note dirs config =>
    unfold Finds Shares at hf ⊢
    simpa only [hfind, Configuration.nearestDir?_of_rewritten h hd] using hf
  | reuse | load | store => exact hfind.trans hf
  | done answer => trivial

theorem Inv.of_rewritten {before : List (Path × Configuration)} {s : Lookup × Cache}
    (hs : Inv d file before s) : Inv d' file before s := by
  have hfind := Configuration.find_of_rewritten h hd file
  refine ⟨Cache.nearestOk_of_rewritten h hd hs.nearest, hs.finds.of_rewritten h hd, ?_, ?_⟩
  · rw [hfind]
    exact hs.origin
  · rw [hfind]
    exact hs.kept

end

end Lookup

/-! ## What has been read -/

namespace Configuration.Walk

/-- The files that were read. -/
def files : Walk → List Path
  | .enter _ files _ | .follow _ _ files => files
  | .done (.ok loaded) => loaded.files
  | .done (.error _) => []

theorem files_returned (frames : List Frame) (loaded : Loaded) :
    (returned frames loaded).files = loaded.files := by
  cases frames <;> rfl

theorem step_enter {d : Disk} {frames : List Frame} {files : List Path} {path : Path}
    {location : Location} {declared : Declared} (hl : d.locate true path = .ok location)
    (hv : location ∉ frames.map Frame.location) (hdec : declaredAt d path = .ok declared) :
    step d (.enter frames files path) =
      .follow ⟨location, path, declared, {}, referencesOf declared⟩ frames
        (addFile files path) := by
  obtain ⟨location', bytes, hl', hb, hof⟩ := declaredAt_eq_ok_iff.1 hdec
  obtain rfl := Except.ok.inj (hl.symm.trans hl')
  simp only [step, hl, if_neg (mt List.contains_iff_mem.1 hv), hb, hof]

/-- The reading of a file goes wrong, or the references of the file are followed next. -/
theorem step_enter_cases (d : Disk) (frames : List Frame) (files : List Path) (path : Path) :
    (∃ f, step d (.enter frames files path) = .done (.error f)) ∨
      ∃ location declared, d.locate true path = .ok location ∧
        location ∉ frames.map Frame.location ∧ declaredAt d path = .ok declared ∧
        step d (.enter frames files path) =
          .follow ⟨location, path, declared, {}, referencesOf declared⟩ frames
            (addFile files path) := by
  cases hl : d.locate true path with
  | error e => exact .inl (by simp [step, hl])
  | ok location =>
    by_cases hv : location ∈ frames.map Frame.location
    · exact .inl (by simp [step, hl, hv])
    cases hb : d.bytesAt? location with
    | none => exact .inl (by simp [step, hl, hv, hb])
    | some bytes =>
      cases hof : Declared.ofBytes path bytes with
      | error f => exact .inl (by simp [step, hl, hv, hb, hof])
      | ok declared =>
        have hdec := declaredAt_eq_ok_iff.2 ⟨location, bytes, hl, hb, hof⟩
        exact .inr ⟨location, declared, rfl, hv, hdec, step_enter hl hv hdec⟩

/-- No file that was read is forgotten. -/
theorem recorded_step {d : Disk} {w : Walk} (hok : ∀ f, w.step d ≠ .done (.error f)) {q : Path}
    (hq : Recorded w.files q) : Recorded (w.step d).files q := by
  cases w with
  | done result => exact hq
  | enter frames files path =>
    rcases step_enter_cases d frames files path with ⟨f, hf⟩ | ⟨_, _, -, -, -, hstep⟩
    · exact absurd hf (hok f)
    · rw [hstep]
      exact recorded_addFile (.inl hq)
  | follow frame frames files =>
    dsimp only [step] at hok ⊢
    cases hr : frame.rest with
    | nil =>
      dsimp only
      rwa [files_returned, files_withOwn]
    | cons reference rest =>
      rw [hr] at hok
      dsimp only at hok ⊢
      cases hp : Reference.resolve? d frame.path.parentOrRoot reference with
      | none =>
        rw [hp] at hok
        exact absurd rfl (hok _)
      | some parent => exact hq

section
variable {d d' : Disk} {location : Location} (h : Disk.Rewritten d d' location) (hd : LinkFree d)
include h hd

/-- A step that does not read the file is the same when the file says something else. -/
theorem step_of_rewritten {w : Walk} (hok : ∀ f, w.step d ≠ .done (.error f))
    (hn : ∀ q, d.place? q = some location → ¬ Recorded (w.step d).files q) :
    w.step d' = w.step d := by
  cases w with
  | done result => rfl
  | follow frame frames files =>
    dsimp only [step]
    simp only [Reference.resolve?_eq_find?, h.isFile_eq hd]
  | enter frames files path =>
    rcases step_enter_cases d frames files path with ⟨f, hf⟩ | ⟨l, declared, hl, hv, hdec, hstep⟩
    · exact absurd hf (hok f)
    · have hplace : d.place? path ≠ some location := by
        intro hp
        refine hn path hp ?_
        rw [hstep]
        exact recorded_addFile (.inr rfl)
      have hl' := locate_eq_ok_of_change h.fileChange hd hplace hdec hl
      have hdec' := (declaredAt_eq_ok_iff_of_change h.fileChange hd hplace).2 hdec
      rw [hstep, step_enter hl' hv hdec']

/-- **A walk that has not read the file** has gone as it would go when the file says something
else. -/
theorem leads_of_rewritten {w w' : Walk} (hl : Leads (step d) w w')
    (hok : ∀ f, w' ≠ .done (.error f))
    (hn : ∀ q, d.place? q = some location → ¬ Recorded w'.files q) : Leads (step d') w w' := by
  obtain ⟨n, rfl⟩ := hl
  induction n with
  | zero => exact .refl _
  | succ n ih =>
    rw [Function.iterate_succ_apply'] at hok hn ⊢
    have hok' : ∀ f, (step d)^[n] w ≠ .done (.error f) := by
      intro f hf
      rw [hf] at hok
      exact hok f rfl
    have hn' : ∀ q, d.place? q = some location → ¬ Recorded ((step d)^[n] w).files q :=
      fun q hq hr => hn q hq (recorded_step hok hr)
    exact (ih hok' hn').trans (.of_eq (step_of_rewritten h hd hok hn))

end

end Configuration.Walk

namespace Lookup

open Cache (get?)
open BuildLayout.Configuration (Walk find fileIn Recorded)

/-- The files that the configuration was read from so far. -/
def files : Lookup → List Path
  | .load _ walk => walk.files
  | .store _ loaded | .done (.ok loaded) => loaded.sourceFiles
  | _ => []

/-- The file at a location was read, by whatever path. -/
def HasRead (d : Disk) (location : Location) (phase : Lookup) : Prop :=
  ∃ q, d.place? q = some location ∧ Recorded phase.files q

/-- What is loaded is what the files say, and so is the answer unless it is `Stale`. -/
def Loads (d : Disk) (file : Path) (Stale : Configuration → Prop) : Lookup → Prop
  | .load config walk => (∀ f, walk ≠ .done (.error f)) →
      Leads (Walk.step d) (.enter [] [] config.normalize) walk
  | .store config loaded => Configuration.load d config = .ok loaded
  | .done (.ok r) => Stale r ∨ Configuration.resolve d file = .ok r
  | _ => True

/-- The entries are of configuration files, and each is what its file loads as unless it is
`Stale`. -/
def Entries (d : Disk) (Stale : Configuration → Prop) (entries : List (Path × Configuration)) :
    Prop :=
  ∀ e ∈ entries, (∃ dir, (∀ s ∈ dir, IsPlain s) ∧ e.1 = fileIn dir) ∧
    (Stale e.2 ∨ Configuration.load d e.1 = .ok e.2)

section
variable {d : Disk} {file : Path} {Stale : Configuration → Prop}
  {before : List (Path × Configuration)}

theorem entries_of_resolvedOk {c : Cache} (h : Cache.ResolvedOk d c) :
    Entries d Stale c.resolved := by
  intro e he
  obtain ⟨dir, hp, hdir, hload⟩ := h e he
  exact ⟨⟨dir, hp, hdir⟩, .inr hload⟩

/-- **One step** keeps what is loaded right. -/
theorem Loads.step {s : Lookup × Cache} (h : Inv d file before s) (hl : Loads d file Stale s.1)
    (hb : Entries d Stale before) (ha : file.normal.absolute) :
    Loads d file Stale (Lookup.step d file s).1 := by
  obtain ⟨phase, c⟩ := s
  cases phase with
  | done answer => exact hl
  | search passed dirs =>
    cases dirs with
    | nil => trivial
    | cons dir dirs =>
      dsimp only [Lookup.step]
      cases get? c.nearest dir <;> trivial
  | probe passed dir dirs =>
    dsimp only [Lookup.step]
    split <;> trivial
  | note dirs config => cases dirs <;> trivial
  | reuse config =>
    have hfind : find d file = .ok config := h.finds
    dsimp only [Lookup.step]
    cases hg : get? c.resolved config with
    | none => exact fun _ => .refl _
    | some known =>
      obtain ⟨q, hq, hsame⟩ := Cache.get?_eq_some hg
      obtain ⟨⟨dir, hp, hdir⟩, hright⟩ := hb _ (h.mem_before nofun hq)
      obtain ⟨dir', hp', rfl⟩ := Configuration.exists_fileIn_of_find ha hfind
      obtain rfl : q = fileIn dir := hdir
      have heq := (Path.same_pathOf
        (fun s hs => (Configuration.isPlain_concat_configName hp s hs).1)
        fun s hs => (Configuration.isPlain_concat_configName hp' s hs).1).1 hsame
      have hkey : fileIn dir = fileIn dir' := congrArg pathOf heq
      exact hright.imp_right fun hload => (Cache.resolve_of_find hfind).trans (hkey ▸ hload)
  | load config walk =>
    cases walk with
    | done result =>
      cases result with
      | error f => trivial
      | ok loaded => exact Configuration.Walk.load_of_leads (hl nofun)
    | enter frames files path => exact fun _ => (hl nofun).trans (.of_eq rfl)
    | follow frame frames files => exact fun _ => (hl nofun).trans (.of_eq rfl)
  | store config loaded => exact .inr ((Cache.resolve_of_find h.finds).trans hl)

/-- **All the steps** keep it right. -/
theorem Loads.iterate {s : Lookup × Cache} (h : Inv d file before s)
    (hl : Loads d file Stale s.1) (hb : Entries d Stale before) (ha : file.normal.absolute)
    (n : Nat) :
    Loads d file Stale ((Lookup.step d file)^[n] s).1 := by
  have key : ∀ s, Inv d file before s ∧ Loads d file Stale s.1 →
      Inv d file before (Lookup.step d file s) ∧ Loads d file Stale (Lookup.step d file s).1 :=
    fun s hs => ⟨hs.1.step ha, .step hs.1 hs.2 hb ha⟩
  exact (Function.Iterate.rec (fun s => Inv d file before s ∧ Loads d file Stale s.1) ⟨h, hl⟩
    key n).2

/-- A lookup that is searching has loaded nothing yet. -/
def IsSearching : Lookup → Prop
  | .search .. | .probe .. | .note .. | .reuse .. => True
  | _ => False

theorem IsSearching.loads {phase : Lookup} (h : phase.IsSearching) :
    Loads d file Stale phase := by
  cases phase with
  | load | store | done => exact h.elim
  | _ => trivial

end

/-- **A lookup that has not read the file** is right when the file says something else. -/
theorem Loads.of_rewritten {d d' : Disk} {location : Location}
    (h : Disk.Rewritten d d' location) (hd : LinkFree d) {file : Path} {phase : Lookup}
    {Stale : Configuration → Prop} (hl : Loads d file (fun _ => False) phase)
    (hn : ¬ HasRead d location phase) (ha : file.isAbsolute) : Loads d' file Stale phase := by
  have hunread : ∀ q, d.place? q = some location → ¬ Recorded phase.files q :=
    fun q hplace hq => hn ⟨q, hplace, hq⟩
  cases phase with
  | load config walk =>
    exact fun hok => Configuration.Walk.leads_of_rewritten h hd (hl hok) hok hunread
  | store config loaded => exact Configuration.load_of_rewritten h hd hl hunread
  | done answer =>
    cases answer with
    | error f => trivial
    | ok r =>
      obtain ⟨dir, hp, hfind, hload⟩ :=
        Configuration.exists_load_of_resolve ha (hl.resolve_left id)
      have hfind' := (Configuration.find_of_rewritten h hd file).trans hfind
      have hload' := Configuration.load_of_rewritten h hd hload hunread
      exact .inr ((Cache.resolve_of_find hfind').trans hload')
  | _ => trivial

end Lookup

end BuildLayout
