import BuildLayout.Proofs.Component.Outcome
import BuildLayout.Proofs.Disk.Entry

/-!
# What writing a component does to the disk

However writing a component ends (`Creates`), everything on the disk stays as it is
(`Creates.keeps`). A component that is written adds one file, and the directories that were missing
on the way to it (`adds_of_createNew`); so does one whose writing is cut, with the beginning of its
text in the file (`Creates.new_file`). One that is there already adds nothing (`eq_of_there`). A
component is written exactly where nothing but directories is in the way and nothing at its place
(`create_isOk_iff`), so what was written is never written again as long as something stands there
(`create_of_node?`).
-/

namespace BuildLayout.Component

open Disk (Keeps IsTree LinkFree MadeToward Reachable Fits Clear)

/-- The place of a component's file. -/
def placeIn (dir : Path) (name : String) : Location :=
  dir.normal.names ++ [name ++ ".ts"]

/-! ## What is added -/

/-- The second disk is the first with a new file in the directory, and with the directories that
were missing on the way to it. -/
structure Adds (d d' : Disk) (dir : Location) (file : String) (bytes : Text.Bytes) : Prop where
  free : d.node? (dir ++ [file]) = none
  clear : Clear d dir
  made : d'.node? (dir ++ [file]) = some (.file bytes false)
  reachable : Reachable d' dir
  elsewhere : ∀ l, l ≠ dir ++ [file] → ¬ l <+: dir → d'.node? l = d.node? l

theorem Adds.bytesAt?_made {d d' : Disk} {dir : Location} {file : String} {bytes : Text.Bytes}
    (h : Adds d d' dir file bytes) : d'.bytesAt? (dir ++ [file]) = some bytes := by
  unfold Disk.bytesAt?
  rw [h.made]

/-- The new file is the only one. -/
theorem Adds.new_file_iff {d d' : Disk} {dir : Location} {file : String} {bytes : Text.Bytes}
    (h : Adds d d' dir file bytes) (l : Location) :
    d.bytesAt? l = none ∧ d'.bytesAt? l ≠ none ↔ l = dir ++ [file] := by
  constructor
  · rintro ⟨hbefore, hafter⟩
    by_contra hl
    by_cases hp : l <+: dir
    · unfold Disk.bytesAt? at hafter
      simp [h.reachable l hp] at hafter
    · unfold Disk.bytesAt? at hbefore hafter
      rw [h.elsewhere l hl hp] at hafter
      exact hafter hbefore
  · rintro rfl
    refine ⟨?_, by simp [h.bytesAt?_made]⟩
    unfold Disk.bytesAt?
    rw [h.free]

theorem isName_placeIn (dir : Path) {name : String} (hname : isValidName name) :
    ∀ s ∈ dir.normal.names ++ [name ++ ".ts"], Path.IsName s := by
  intro s hs
  rcases List.mem_append.1 hs with hs | hs
  · exact Path.isName_normal dir s hs
  · rw [List.mem_singleton.1 hs]
    exact (isPlain_script hname).2.1.1

section
variable {d d' : Disk} (hd : LinkFree d) (ht : IsTree d) {dir : Path} (hdir : dir.IsSettled)
  {name : String} {kind : ComponentKind} {writing : Disk.Writing}
include hd ht hdir

theorem makeDirs_of_isSettled {result : Except OsError Unit}
    (h : d.makeDirs dir = (result, d')) :
    MadeToward dir.normal.names d d' ∧ (result = .ok () → Reachable d' dir.normal.names) := by
  rw [← hdir.pathOf_names] at h
  exact Disk.makeDirs_spec hd ht (Path.isName_normal dir) h

/-- **A component whose file was made** added this file to a tree, in a place that its path can name,
with whatever is written into it. -/
theorem adds_of_createNew {e new : Disk} {location : Location} (bytes : Text.Bytes)
    (hname : isValidName name) (hmake : d.makeDirs dir = (.ok (), e))
    (hnew : e.createNew (fileIn dir name) = .ok (location, new)) :
    Adds d (new.put location (.file bytes false)) dir.normal.names (name ++ ".ts") bytes ∧
      Keeps d (new.put location (.file bytes false)) ∧
      IsTree (new.put location (.file bytes false)) ∧
      LinkFree (new.put location (.file bytes false)) ∧ Fits (placeIn dir name) := by
  obtain ⟨hmade, hr⟩ := makeDirs_of_isSettled hd ht hdir hmake
  have hr := hr rfl
  rw [fileIn_eq_pathOf hdir (isPlain_script hname).2.1,
    Disk.createNew_eq_ok_iff (isName_placeIn dir hname) (hmade.linkFree hd)] at hnew
  obtain ⟨hf, -, hfree, hl, hnew⟩ := hnew
  rw [hnew, hl, Disk.put_put]
  have hput := Keeps.put hfree (.file bytes false)
  refine ⟨⟨?_, fun above hp => ?_, ?_, fun above hp => ?_, fun l hl hp => ?_⟩,
    hmade.keeps.trans hput, (hmade.isTree ht).put _ (hr _ List.prefix_rfl) hfree, ?_, hf⟩
  · by_contra hthere
    obtain ⟨node, hnode⟩ := Option.ne_none_iff_exists'.1 hthere
    rw [hmade.keeps.node? hnode] at hfree
    cases hfree
  · rcases hmade.node?_eq above with he | ⟨-, hnone, -⟩
    · exact .inr (he ▸ hr above hp)
    · exact .inl hnone
  · rw [Disk.node?_put (by simp), if_pos rfl]
  · exact hput.node? (hr above hp)
  · rw [Disk.node?_put (by simp), if_neg hl]
    exact (hmade.node?_eq l).resolve_right fun h => hp h.1
  · exact (Disk.FileChange.put (Disk.fileOrFree_of_free hfree) bytes false).linkFree
      (hmade.linkFree hd)

/-- **What is on the disk stays**, however writing a component ends. -/
theorem Creates.keeps {result : Except Failure CreatedComponent}
    (h : Creates d dir name kind writing result d') : Keeps d d' := by
  cases h with
  | refused => exact .refl d
  | noDirectory _ hmake => exact (makeDirs_of_isSettled hd ht hdir hmake).1.keeps
  | noFile _ hmake => exact (makeDirs_of_isSettled hd ht hdir hmake).1.keeps
  | there _ hmake => exact (makeDirs_of_isSettled hd ht hdir hmake).1.keeps
  | cut hname hmake hnew | written hname hmake hnew =>
    exact (adds_of_createNew hd ht hdir _ hname hmake hnew).2.1

/-- **A file that is new** is the one of the component, and it holds a beginning of the component's
text, however writing ends. -/
theorem Creates.new_file {result : Except Failure CreatedComponent}
    (h : Creates d dir name kind writing result d') {l : Location} {bytes : Text.Bytes}
    (hbefore : d.bytesAt? l = none) (hafter : d'.bytesAt? l = some bytes) :
    l = placeIn dir name ∧ bytes <+: contents name kind := by
  have hnone : d'.bytesAt? l ≠ d.bytesAt? l := by simp [hbefore, hafter]
  -- Where a file was made, whatever is written into it is what the new file holds.
  have hmade : ∀ {e new : Disk} {location : Location} (written : Text.Bytes),
      isValidName name → d.makeDirs dir = (.ok (), e) →
      e.createNew (fileIn dir name) = .ok (location, new) →
      d' = new.put location (.file written false) → l = placeIn dir name ∧ bytes = written := by
    rintro e new location written hname hmake hnew rfl
    obtain ⟨hadds, -⟩ := adds_of_createNew hd ht hdir written hname hmake hnew
    have hl : l = placeIn dir name := (hadds.new_file_iff l).1 ⟨hbefore, by simp [hafter]⟩
    rw [hl] at hafter
    exact ⟨hl, Option.some.inj (hafter.symm.trans hadds.bytesAt?_made)⟩
  cases h with
  | refused => exact absurd rfl hnone
  | noDirectory _ hmake | noFile _ hmake | there _ hmake =>
    exact absurd ((makeDirs_of_isSettled hd ht hdir hmake).1.bytesAt?_eq l) hnone
  | cut hname hmake hnew =>
    obtain ⟨hl, hbytes⟩ := hmade _ hname hmake hnew rfl
    exact ⟨hl, hbytes ▸ List.take_prefix _ _⟩
  | written hname hmake hnew =>
    obtain ⟨hl, hbytes⟩ := hmade _ hname hmake hnew rfl
    exact ⟨hl, hbytes ▸ List.prefix_rfl⟩

/-- **A component that is there already** leaves the disk as it is: its directory was there too. -/
theorem eq_of_there (hname : isValidName name) (hmake : d.makeDirs dir = (.ok (), d'))
    (hnew : d'.createNew (fileIn dir name) = .error .alreadyThere) : d' = d := by
  obtain ⟨hmade, -⟩ := makeDirs_of_isSettled hd ht hdir hmake
  rw [fileIn_eq_pathOf hdir (isPlain_script hname).2.1,
    Disk.createNew_eq_error_iff _ _ (.file [] false),
    Disk.makeNode_eq_alreadyThere_iff (isName_placeIn dir hname) (hmade.linkFree hd)] at hnew
  obtain ⟨-, -, hthere⟩ := hnew
  have hbefore : d.node? (dir.normal.names ++ [name ++ ".ts"]) ≠ none := by
    rwa [hmade.node?_concat] at hthere
  obtain ⟨node, hnode⟩ := Option.ne_none_iff_exists'.1 hbefore
  exact hmade.eq_of_directory ht (ht _ _ node hnode)

/-- The file of a component is made where nothing but directories is on the way, and nothing is at
its place. -/
theorem exists_createNew (hname : isValidName name) (hf : Fits (placeIn dir name))
    (hclear : Clear d dir.normal.names) (hfree : d.node? (placeIn dir name) = none) :
    ∃ e new, d.makeDirs dir = (.ok (), e) ∧
      e.createNew (fileIn dir name) = .ok (placeIn dir name, new) := by
  have hn := isName_placeIn dir hname
  obtain ⟨e, hmake⟩ :=
    Disk.exists_makeDirs hd ht (Path.isName_normal dir) (hf.of_concat hn) hclear
  rw [hdir.pathOf_names] at hmake
  obtain ⟨hmade, hr⟩ := makeDirs_of_isSettled hd ht hdir hmake
  have hfree' : e.node? (dir.normal.names ++ [name ++ ".ts"]) = none :=
    (hmade.node?_concat _).trans hfree
  have hnew : e.createNew (fileIn dir name) =
      .ok (placeIn dir name, e.put (placeIn dir name) (.file [] false)) := by
    rw [fileIn_eq_pathOf hdir (isPlain_script hname).2.1,
      Disk.createNew_eq_ok_iff hn (hmade.linkFree hd)]
    exact ⟨hf, hr rfl, hfree', rfl, rfl⟩
  exact ⟨e, _, hmake, hnew⟩

/-- **A component is written** exactly when its name is accepted, nothing but directories is on the
way, and nothing is at its place. -/
theorem create_isOk_iff :
    (∃ created d', create d dir name kind = (.ok created, d')) ↔
      isValidName name ∧ Fits (placeIn dir name) ∧ Clear d dir.normal.names ∧
        d.node? (placeIn dir name) = none := by
  constructor
  · rintro ⟨created, d', h⟩
    cases creates_of_create h with
    | written hname hmake hnew =>
      obtain ⟨hadds, -, -, -, hf⟩ :=
        adds_of_createNew hd ht hdir (contents name kind) hname hmake hnew
      exact ⟨hname, hf, hadds.clear, hadds.free⟩
  · rintro ⟨hname, hf, hclear, hfree⟩
    obtain ⟨e, new, hmake, hnew⟩ := exists_createNew hd ht hdir hname hf hclear hfree
    exact ⟨_, _, create_eq_ok hname hmake hnew⟩

/-- **Where the text is cut**, the file is left behind with the beginning of it. -/
theorem create_cut (hname : isValidName name) (hf : Fits (placeIn dir name))
    (hclear : Clear d dir.normal.names) (hfree : d.node? (placeIn dir name) = none) (written : Nat)
    (reason : OsError) :
    ∃ d', create d dir name kind (.cut written reason) =
        (.error (.io (some (fileIn dir name)) reason.text), d') ∧
      Adds d d' dir.normal.names (name ++ ".ts") ((contents name kind).take written) := by
  obtain ⟨e, new, hmake, hnew⟩ := exists_createNew hd ht hdir hname hf hclear hfree
  refine ⟨_, ?_, (adds_of_createNew hd ht hdir _ hname hmake hnew).1⟩
  unfold create
  rw [validateName_eq_ok_iff.2 hname]
  simp only [hmake, hnew]
  rfl

end

/-- **A component is not written again** where something stands at its place. -/
theorem create_of_node? {d : Disk} (ht : IsTree d) {dir : Path} (hdir : dir.IsSettled)
    {name : String} {kind : ComponentKind} {writing : Disk.Writing} (hname : isValidName name)
    (hf : Fits (placeIn dir name)) (hthere : d.node? (placeIn dir name) ≠ none) :
    create d dir name kind writing = (.error (.alreadyExists (fileIn dir name)), d) := by
  obtain ⟨node, hnode⟩ := Option.ne_none_iff_exists'.1 hthere
  have hn := isName_placeIn dir hname
  have hr : Reachable d dir.normal.names := ht.reachable (ht _ _ node hnode)
  have hmake := Disk.makeDirs_of_reachable (Path.isName_normal dir) (hf.of_concat hn) hr
  rw [hdir.pathOf_names] at hmake
  refine create_eq_alreadyExists hname hmake ?_
  rw [fileIn_eq_pathOf hdir (isPlain_script hname).2.1,
    Disk.createNew_eq_error_iff _ _ (.file [] false)]
  exact Disk.makeNode_of_node? hn hf hr hthere

/-! ## The text of a class -/

/-- The lines of an empty class that extends another one. -/
def classLines (className base : String) : List String :=
  ["export default class " ++ className ++ " extends " ++ base ++ " \x7b",
    "\toverride Start(): void \x7b",
    "\t\t",
    "\t\x7d",
    "",
    "\toverride OnDestroy(): void \x7b\x7d",
    "\x7d"]

/-- The class that a component of a kind extends. -/
def baseOf : ComponentKind → String
  | .component => "AirshipBehaviour"
  | .singleton => "AirshipSingleton"

/-- The text of an empty class: its lines, each with a line feed at its end. -/
def classText (className base : String) : String :=
  String.join ((classLines className base).map (· ++ "\n"))

/-- **What is written** is the text of the class. -/
theorem contents_eq (name : String) (kind : ComponentKind) :
    contents name kind = Text.encode (classText (className name) (baseOf kind)) := by
  have hbase : kind.baseClass = baseOf kind := by cases kind <;> rfl
  have hscript : script (className name) kind = classText (className name) (baseOf kind) := by
    unfold script classText classLines String.join
    rw [hbase]
    simp only [List.map_cons, List.map_nil, List.foldl_cons, List.foldl_nil, String.empty_append,
      String.append_assoc]
    rfl
  rw [contents, hscript]

/-! ## The main result -/

/-- **Writing a component** changes nothing that is on the disk. When it goes well, the disk has one
more file, which holds the class of the component in the directory, and the directories that were
missing on the way to it; writing a component of that name there again is refused as long as the file
stands, on whatever disk. When the name is refused or the file is there already, the disk is as it
was; and a file that is left behind where the system refuses to write is the component's, too. -/
theorem create_only_adds {d d' : Disk} (hd : LinkFree d) (ht : IsTree d) {dir : Path}
    (hdir : dir.IsSettled) {name : String} {kind : ComponentKind} {writing : Disk.Writing}
    {result : Except Failure CreatedComponent}
    (h : create d dir name kind writing = (result, d')) :
    Keeps d d' ∧ (∀ p bytes, d.read p = .ok bytes → d'.read p = .ok bytes) ∧
    (∀ created, result = .ok created →
      created.path = fileIn dir name ∧ created.path = Disk.pathOf (placeIn dir name) ∧
      created.className = className name ∧
      d'.read created.path = .ok (Text.encode (classText (className name) (baseOf kind))) ∧
      Adds d d' dir.normal.names (name ++ ".ts")
        (Text.encode (classText (className name) (baseOf kind))) ∧
      (∀ l, d.bytesAt? l = none ∧ d'.bytesAt? l ≠ none ↔ l = placeIn dir name) ∧
      LinkFree d' ∧ IsTree d' ∧
      ∀ later, IsTree later → later.node? (placeIn dir name) ≠ none → ∀ kind' writing',
        create later dir name kind' writing' = (.error (.alreadyExists created.path), later)) ∧
    (∀ refused, result = .error (.invalidComponentName refused) → d' = d) ∧
    (∀ there, result = .error (.alreadyExists there) → d' = d) ∧
    (∀ failure, result = .error failure → ∀ l bytes, d.bytesAt? l = none →
      d'.bytesAt? l = some bytes → l = placeIn dir name ∧
        bytes <+: Text.encode (classText (className name) (baseOf kind))) := by
  rw [← contents_eq]
  have hcreates := creates_of_create h
  have hkeeps := hcreates.keeps hd ht hdir
  refine ⟨hkeeps, fun p bytes => hkeeps.read_eq_ok, ?_, ?_, ?_, ?_⟩
  · rintro created rfl
    cases hcreates with
    | written hname hmake hnew =>
      obtain ⟨hadds, -, htree, hlinks, hf⟩ :=
        adds_of_createNew hd ht hdir (contents name kind) hname hmake hnew
      have hpath := fileIn_eq_pathOf hdir (isPlain_script hname).2.1
      refine ⟨rfl, hpath, rfl, ?_, hadds, hadds.new_file_iff, hlinks, htree,
        fun later hlater hthere kind' writing' =>
          create_of_node? hlater hdir hname hf hthere⟩
      show Disk.read _ (fileIn dir name) = _
      rw [hpath]
      exact Disk.read_of_reachable (isName_placeIn dir hname) hf hadds.reachable hadds.made
  · rintro refused rfl
    cases hcreates with
    | refused => rfl
  · rintro there rfl
    cases hcreates with
    | there hname hmake hnew => exact eq_of_there hd ht hdir hname hmake hnew
  · intro failure _ l bytes hbefore hafter
    exact hcreates.new_file hd ht hdir hbefore hafter

/-- A disk with one script, of which a component of the same name will go into another directory. -/
def doorWorkspace : Disk :=
  ⟨[(["w"], .directory), (["w", "Door.ts"], .file [0x2F, 0x2F] false)], []⟩

/-- A component is written into a directory that is missing with the one above it; then it is
refused. -/
theorem create_only_adds_doorWorkspace :
    LinkFree doorWorkspace ∧ IsTree doorWorkspace ∧ (⟨"/w/src/Shared"⟩ : Path).IsSettled ∧
      ∃ created d', create doorWorkspace ⟨"/w/src/Shared"⟩ "Door" .component = (.ok created, d') ∧
        created.path = ⟨"/w/src/Shared/Door.ts"⟩ ∧ d'.read ⟨"/w/Door.ts"⟩ = .ok [0x2F, 0x2F] ∧
        d'.read created.path = .ok (Text.encode
          ("export default class Door extends AirshipBehaviour \x7b\n" ++
            "\toverride Start(): void \x7b\n\t\t\n\t\x7d\n\n" ++
            "\toverride OnDestroy(): void \x7b\x7d\n\x7d\n")) ∧
        create d' ⟨"/w/src/Shared"⟩ "Door" .singleton =
          (.error (.alreadyExists created.path), d') := by
  have hd : LinkFree doorWorkspace := Disk.linkFree_of_forall_mem (by simp [doorWorkspace])
  have ht : IsTree doorWorkspace := Disk.isTree_of_forall_mem (by decide)
  have hdir : (⟨"/w/src/Shared"⟩ : Path).IsSettled := by
    unfold Path.IsSettled
    decide
  have hnames : (⟨"/w/src/Shared"⟩ : Path).normal.names = ["w", "src", "Shared"] := by decide
  have hclear : Clear doorWorkspace ["w", "src", "Shared"] := by
    intro above hp
    have hall : ∀ above ∈ ["w", "src", "Shared"].inits, doorWorkspace.node? above = none ∨
        doorWorkspace.node? above = some .directory := by decide
    exact hall above ((List.mem_inits _ _).2 hp)
  have hf : Fits (placeIn ⟨"/w/src/Shared"⟩ "Door") := ⟨by decide, by decide⟩
  have hok : ∃ created d',
      create doorWorkspace ⟨"/w/src/Shared"⟩ "Door" .component = (.ok created, d') :=
    (create_isOk_iff hd ht hdir).2 ⟨by decide, hf, hnames ▸ hclear, by decide⟩
  obtain ⟨created, d', h⟩ := hok
  obtain ⟨-, hread, hwritten, -, -, -⟩ := create_only_adds hd ht hdir h
  obtain ⟨hpath, -, -, htext, hadds, -, -, htree, hagain⟩ := hwritten created rfl
  refine ⟨hd, ht, hdir, created, d', h, hpath, hread _ _ ?_, ?_, ?_⟩
  · exact (Disk.read_eq_ok_iff hd).2 ⟨["w", "Door.ts"], false, by decide, rfl⟩
  · rw [htext]
    decide
  · exact hagain d' htree (by rw [placeIn, hadds.made]; simp) .singleton .whole

end BuildLayout.Component
