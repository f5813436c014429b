import BuildLayout.Disk.Change
import BuildLayout.Proofs.Path.Absolute

/-!
# The place that a path stands for

On a disk without symbolic links a path stands for one location, whether or not something is there
(`Disk.place?`), and what the disk answers about the path is what stands at that location
(`stat_eq_ok_iff`, `isFile_iff`, `read_eq_ok_iff`). The place is where the components lead
(`foldl_step_of_place?`), so an absolute path has it as its normal form (`isPathTo_of_place?`).

`FileChange d d' location`: between `d` and `d'` one regular file was made, rewritten or removed, as
`Disk.put` and `Disk.erase` do (`FileChange.put`, `FileChange.erase`). No path stands for another
place afterwards (`FileChange.place?_eq`), so only the paths that stand for `location` can get
another answer (`FileChange.isFile_eq`, `FileChange.read_eq_ok_iff`).
-/

namespace BuildLayout

namespace Disk

/-- No symbolic link stands on the disk. -/
def LinkFree (d : Disk) : Prop :=
  ∀ location target, d.node? location ≠ some (.link target)

theorem linkFree_of_forall_mem {d : Disk} (h : ∀ n ∈ d.nodes, ∀ target, n.2 ≠ .link target) :
    LinkFree d := by
  intro location target hn
  unfold node? at hn
  split at hn
  · cases hn
  · obtain ⟨before, after, hl, -⟩ := List.lookup_eq_some_iff.1 hn
    exact h _ (hl ▸ List.mem_append_right _ (.head _)) _ rfl

/-- The location that segments stand for in the directory `here`; `none` when they go through
something that is no directory. -/
def arrive (d : Disk) (here : Location) : List String → Option Location
  | [] => some here
  | s :: rest =>
    if s = "" ∨ s = "." then d.arrive here rest
    else if s = ".." then d.arrive here.dropLast rest
    else if maxName < Text.nameSize s then none
    else if d.node? (here ++ [s]) = some .directory then d.arrive (here ++ [s]) rest
    else if rest = [] then some (here ++ [s])
    else none

/-- The location that a path stands for. -/
def place? (d : Disk) (p : Path) : Option Location :=
  if p.text.isEmpty then none
  else if maxPath < Text.nameSize p.text then none
  else d.arrive (if p.isAbsolute then [] else d.cwd) p.segments

/-! ## Walking without links -/

section
variable {d : Disk} (h : d.LinkFree)
include h

theorem arrive_of_walk {followLast : Bool} {links : Nat} {ss : List String} {here l : Location}
    (hw : d.walk followLast links here ss = .ok l) : d.arrive here ss = some l := by
  induction ss generalizing here with
  | nil =>
    rw [walk] at hw
    cases hw
    rfl
  | cons s rest ih =>
    rw [walk] at hw
    rw [arrive]
    split at hw
    · next h1 => rw [if_pos h1]; exact ih hw
    next h1 =>
    rw [if_neg h1]
    split at hw
    · next h2 => rw [if_pos h2]; exact ih hw
    next h2 =>
    rw [if_neg h2]
    split at hw
    · cases hw
    next h3 =>
    rw [if_neg h3]
    split at hw
    · cases hw
    · next hn => rw [if_pos hn]; exact ih hw
    · next hn =>
      rw [if_neg (by simp [hn])]
      split at hw
      · next hr =>
        cases hw
        rw [if_pos hr]
      · cases hw
    · next hn => exact absurd hn (h _ _)

theorem walk_of_arrive {followLast : Bool} {links : Nat} {ss : List String} {here l : Location}
    {node : Node} (ha : d.arrive here ss = some l) (hn : d.node? l = some node) :
    d.walk followLast links here ss = .ok l := by
  induction ss generalizing here with
  | nil =>
    cases ha
    rw [walk]
  | cons s rest ih =>
    rw [arrive] at ha
    rw [walk]
    split at ha
    · next h1 => rw [if_pos h1]; exact ih ha
    next h1 =>
    rw [if_neg h1]
    split at ha
    · next h2 => rw [if_pos h2]; exact ih ha
    next h2 =>
    rw [if_neg h2]
    split at ha
    · cases ha
    next h3 =>
    rw [if_neg h3]
    split at ha
    · next hd => simp only [hd]; exact ih ha
    next hd =>
    split at ha
    · next hr =>
      cases ha
      cases node with
      | file bytes executable => simp [hn, hr]
      | directory => exact absurd hn hd
      | link target => exact absurd hn (h _ _)
    · cases ha

theorem place?_of_locate {p : Path} {l : Location} (hl : d.locate true p = .ok l) :
    d.place? p = some l := by
  unfold locate at hl
  unfold place?
  split at hl
  · cases hl
  next h1 =>
  rw [if_neg h1]
  split at hl
  · cases hl
  next h2 =>
  rw [if_neg h2]
  exact arrive_of_walk h hl

theorem locate_of_place? {p : Path} {l : Location} {node : Node} (hp : d.place? p = some l)
    (hn : d.node? l = some node) : d.locate true p = .ok l := by
  unfold place? at hp
  unfold locate
  split at hp
  · cases hp
  next h1 =>
  rw [if_neg h1]
  split at hp
  · cases hp
  next h2 =>
  rw [if_neg h2]
  exact walk_of_arrive h hp hn

/-- **What the disk answers about a path** is what stands at its place. -/
theorem stat_eq_ok_iff {p : Path} {node : Node} :
    d.stat p = .ok node ↔ ∃ l, d.place? p = some l ∧ d.node? l = some node := by
  unfold stat
  constructor
  · intro hs
    split at hs
    · cases hs
    next l hl =>
    split at hs
    · cases hs
    next hn =>
    cases hs
    exact ⟨l, place?_of_locate h hl, hn⟩
  · rintro ⟨l, hp, hn⟩
    simp only [locate_of_place? h hp hn, hn]

theorem isFile_iff {p : Path} :
    d.isFile p ↔ ∃ l bytes executable,
      d.place? p = some l ∧ d.node? l = some (.file bytes executable) := by
  unfold isFile
  constructor
  · intro hf
    split at hf
    · next bytes executable hs =>
      obtain ⟨l, hp, hn⟩ := (stat_eq_ok_iff h).1 hs
      exact ⟨l, bytes, executable, hp, hn⟩
    · cases hf
  · rintro ⟨l, bytes, executable, hp, hn⟩
    rw [(stat_eq_ok_iff h).2 ⟨l, hp, hn⟩]

theorem read_eq_ok_iff {p : Path} {bytes : Text.Bytes} :
    d.read p = .ok bytes ↔ ∃ l executable,
      d.place? p = some l ∧ d.node? l = some (.file bytes executable) := by
  unfold read
  constructor
  · intro hr
    split at hr
    · cases hr
    · next executable hs =>
      cases hr
      obtain ⟨l, hp, hn⟩ := (stat_eq_ok_iff h).1 hs
      exact ⟨l, executable, hp, hn⟩
    · cases hr
  · rintro ⟨l, executable, hp, hn⟩
    rw [(stat_eq_ok_iff h).2 ⟨l, hp, hn⟩]

end

/-! ## The place of an absolute path -/

theorem arrive_of_isName {d : Disk} {names here l : Location} (h : ∀ s ∈ names, Path.IsName s)
    (ha : d.arrive here names = some l) : l = here ++ names := by
  induction names generalizing here with
  | nil =>
    cases ha
    simp
  | cons s names ih =>
    obtain ⟨h1, h2, h3, -⟩ := h s (.head _)
    rw [arrive, if_neg (by simp [h1, h2]), if_neg h3] at ha
    split at ha
    · cases ha
    split at ha
    · rw [ih (fun t ht => h t (.tail _ ht)) ha]
      simp
    · split at ha
      · next hr =>
        cases ha
        rw [hr]
      · cases ha

/-- The path of a location stands for no other place. -/
theorem place?_pathOf {d : Disk} {names l : Location} (h : ∀ s ∈ names, Path.IsName s)
    (hp : d.place? (pathOf names) = some l) : l = names := by
  unfold place? at hp
  split at hp
  · cases hp
  split at hp
  · cases hp
  rw [Path.segments_pathOf fun s hs => (h s hs).2.2.2, Path.isAbsolute_pathOf, if_pos rfl,
    arrive, if_pos (.inl rfl)] at hp
  split at hp
  · next hn =>
    subst hn
    simpa [arrive] using hp.symm
  · exact arrive_of_isName h hp

/-- A path of the place `location`: the one from the root on, or any other whose normal form it
is. -/
def IsPathTo (p : Path) (location : Location) : Prop :=
  p = pathOf location ∨ p.normal = ⟨true, 0, location⟩

/-- A path of a place with plain names has the path of that place as its normal form. -/
theorem IsPathTo.normalize {p : Path} {location : Location} (h : IsPathTo p location)
    (hp : ∀ s ∈ location, Path.IsPlain s) : p.normalize = pathOf location := by
  have hn : p.normal = ⟨true, 0, location⟩ := by
    rcases h with rfl | h
    · exact Path.normal_pathOf hp
    · exact h
  rw [Path.normalize_of_absolute (by rw [hn]), hn]

theorem names_foldl_step {d : Disk} {ss : List String} {n : Path.Normal} {l : Location}
    (hn : n.absolute) (ha : d.arrive n.names ss = some l) :
    ((Path.body ss).foldl Path.Normal.step n) = { n with names := l } := by
  induction ss generalizing n with
  | nil =>
    cases ha
    rfl
  | cons s rest ih =>
    rw [arrive] at ha
    unfold Path.body at *
    split at ha
    · next h1 =>
      rw [List.filterMap_cons_none (by simp [Path.Component.ofSegment?, h1])]
      exact ih hn ha
    next h1 =>
    split at ha
    · next h2 =>
      rw [List.filterMap_cons_some (b := .up) (by simp [Path.Component.ofSegment?, h2])]
      have hs : n.step .up = { n with names := n.names.dropLast } := by
        cases n
        simp only [Path.Normal.step]
        split
        · simp_all
        · rfl
      rw [List.foldl_cons, hs]
      exact ih hn ha
    next h2 =>
    rw [List.filterMap_cons_some (b := .name s) (by simp [Path.Component.ofSegment?, h1, h2]),
      List.foldl_cons]
    split at ha
    · cases ha
    split at ha
    · exact ih (n := n.step (.name s)) hn ha
    · split at ha
      · next hr =>
        subst hr
        cases ha
        rfl
      · cases ha

/-- **The place of a path** is where its components lead from the root or the current directory. -/
theorem foldl_step_of_place? {d : Disk} {p : Path} {l : Location} (hp : d.place? p = some l) :
    p.components.foldl Path.Normal.step ⟨true, 0, if p.isAbsolute then [] else d.cwd⟩ =
      ⟨true, 0, l⟩ := by
  unfold place? at hp
  split at hp
  · cases hp
  split at hp
  · cases hp
  unfold Path.components
  cases ha : p.isAbsolute with
  | true =>
    obtain ⟨rest, hs⟩ := Path.segments_of_isAbsolute ha
    rw [ha, if_pos rfl, hs, arrive, if_pos (.inl rfl)] at hp
    simp only [hs, if_pos]
    exact names_foldl_step (n := ⟨true, 0, []⟩) rfl hp
  | false =>
    rw [ha, if_neg (by simp)] at hp
    cases hs : p.segments with
    | nil => exact absurd hs p.segments_ne_nil
    | cons first rest =>
      rw [hs] at hp
      simp only [Bool.false_eq_true, if_false]
      split
      · next hdot =>
        rw [arrive, if_pos (.inr hdot)] at hp
        exact names_foldl_step (n := ⟨true, 0, d.cwd⟩) rfl hp
      · exact names_foldl_step (n := ⟨true, 0, d.cwd⟩) rfl hp

/-- Paths of the same components stand for one place. -/
theorem place?_eq_of_same {d : Disk} {p q : Path} {l l' : Location} (hs : p.same q)
    (hp : d.place? p = some l) (hq : d.place? q = some l') : l = l' := by
  have hc : p.components = q.components := beq_iff_eq.1 hs
  have ha : p.isAbsolute = q.isAbsolute := by
    rw [Bool.eq_iff_iff, ← Path.root_mem_components, ← Path.root_mem_components, hc]
  have h := (foldl_step_of_place? hp).symm
  rw [hc, ha, foldl_step_of_place? hq] at h
  exact congrArg Path.Normal.names h

/-- An absolute path without back-slashes is a path of the place it stands for. -/
theorem isPathTo_of_place? {d : Disk} {p : Path} {l : Location} (ha : p.isAbsolute)
    (hb : '\\' ∉ p.text.toList) (hp : d.place? p = some l) : IsPathTo p l := by
  obtain ⟨rest, hs⟩ := Path.segments_of_isAbsolute ha
  have hc : p.components = .root :: Path.body rest := by
    unfold Path.components
    rw [hs]
    simp [ha]
  right
  unfold Path.normal Path.Normal.ofComponents
  rw [Path.normalizeSeparators_of_not_mem hb, ← foldl_step_of_place? hp, if_pos ha, hc]
  rfl

/-! ## Disks with the same directories -/

/-- The same directories stand on both disks, and relative paths are taken from the same one. -/
structure SameDirectories (d d' : Disk) : Prop where
  directory_iff : ∀ l, d'.node? l = some .directory ↔ d.node? l = some .directory
  cwd : d'.cwd = d.cwd

namespace SameDirectories

variable {d d' : Disk} (h : SameDirectories d d')
include h

theorem arrive_eq (ss : List String) (here : Location) :
    d'.arrive here ss = d.arrive here ss := by
  induction ss generalizing here with
  | nil => rfl
  | cons s rest ih =>
    rw [arrive, arrive]
    simp only [ih, h.directory_iff]

/-- **Paths stand for the same places** where the directories are the same. -/
theorem place?_eq (p : Path) : d'.place? p = d.place? p := by
  unfold place?
  rw [h.cwd, h.arrive_eq]

end SameDirectories

/-! ## Changes of one file -/

/-- A regular file or nothing is there. -/
def FileOrFree (d : Disk) (location : Location) : Prop :=
  ∀ node, d.node? location = some node → ∃ bytes executable, node = .file bytes executable

theorem fileOrFree_of_free {d : Disk} {location : Location} (h : d.node? location = none) :
    d.FileOrFree location := by
  intro node hn
  rw [h] at hn
  cases hn

theorem FileOrFree.ne_nil {d : Disk} {location : Location} (h : d.FileOrFree location) :
    location ≠ [] := by
  rintro rfl
  obtain ⟨_, _, hf⟩ := h .directory rfl
  cases hf

/-- One regular file is made, rewritten or removed: a regular file or nothing is at `location`
before and after, and everything else is as it was. -/
structure FileChange (d d' : Disk) (location : Location) : Prop where
  before : d.FileOrFree location
  after : d'.FileOrFree location
  elsewhere : ∀ l, l ≠ location → d'.node? l = d.node? l
  cwd : d'.cwd = d.cwd

theorem lookup_filter_ne (nodes : List (Location × Node)) (location l : Location) :
    (nodes.filter (·.1 ≠ location)).lookup l = if l = location then none else nodes.lookup l := by
  induction nodes with
  | nil => simp
  | cons n nodes ih =>
    obtain ⟨k, node⟩ := n
    by_cases hk : k = location
    · subst hk
      rw [List.filter_cons_of_neg (by simp), ih]
      by_cases hl : l = k
      · simp [hl]
      · simp [List.lookup_cons, hl, beq_false_of_ne hl]
    · rw [List.filter_cons_of_pos (by simpa using hk)]
      by_cases hl : l = k
      · subst hl
        simp [hk]
      · simp only [List.lookup_cons, beq_false_of_ne hl, ih]

/-- The disk without what stands at a location. -/
def erase (d : Disk) (location : Location) : Disk :=
  { d with nodes := d.nodes.filter (·.1 ≠ location) }

theorem node?_erase {d : Disk} {location : Location} (hne : location ≠ []) (l : Location) :
    (d.erase location).node? l = if l = location then none else d.node? l := by
  unfold node? erase
  rw [lookup_filter_ne]
  by_cases hl : l = location
  · subst hl
    simp [hne]
  · simp [hl]

theorem node?_put {d : Disk} {location : Location} (hne : location ≠ []) (node : Node)
    (l : Location) :
    (d.put location node).node? l = if l = location then some node else d.node? l := by
  unfold node? put
  rw [List.lookup_append, lookup_filter_ne]
  by_cases hl : l = location
  · subst hl
    simp [hne]
  · simp [hl, List.lookup_cons, beq_false_of_ne hl]

/-- What is put last stands. -/
theorem put_put (d : Disk) (location : Location) (node node' : Node) :
    (d.put location node).put location node' = d.put location node' := by
  unfold put
  simp

namespace FileChange

variable {d d' : Disk} {location : Location}

theorem symm (h : FileChange d d' location) : FileChange d' d location :=
  ⟨h.after, h.before, fun l hl => (h.elsewhere l hl).symm, h.cwd.symm⟩

/-- Two changes of one file are a change of that file. -/
theorem trans {d'' : Disk} (h : FileChange d d' location) (h' : FileChange d' d'' location) :
    FileChange d d'' location :=
  ⟨h.before, h'.after, fun l hl => (h'.elsewhere l hl).trans (h.elsewhere l hl),
    h'.cwd.trans h.cwd⟩

theorem linkFree (h : FileChange d d' location) (hd : d.LinkFree) : d'.LinkFree := by
  intro l target hn
  by_cases hl : l = location
  · subst hl
    obtain ⟨_, _, hf⟩ := h.after _ hn
    cases hf
  · rw [h.elsewhere l hl] at hn
    exact hd l target hn

theorem directory_iff (h : FileChange d d' location) (l : Location) :
    d'.node? l = some .directory ↔ d.node? l = some .directory := by
  by_cases hl : l = location
  · subst hl
    constructor <;> intro hn
    · obtain ⟨_, _, hf⟩ := h.after _ hn
      cases hf
    · obtain ⟨_, _, hf⟩ := h.before _ hn
      cases hf
  · rw [h.elsewhere l hl]

theorem sameDirectories (h : FileChange d d' location) : SameDirectories d d' :=
  ⟨h.directory_iff, h.cwd⟩

/-- **No path stands for another place** after a change of one file. -/
theorem place?_eq (h : FileChange d d' location) (p : Path) : d'.place? p = d.place? p :=
  h.sameDirectories.place?_eq p

theorem read_eq_ok_iff (h : FileChange d d' location) (hd : d.LinkFree) {p : Path}
    (hp : d.place? p ≠ some location) {bytes : Text.Bytes} :
    d'.read p = .ok bytes ↔ d.read p = .ok bytes := by
  rw [Disk.read_eq_ok_iff hd, Disk.read_eq_ok_iff (h.linkFree hd), h.place?_eq]
  refine exists_congr fun l => exists_congr fun x => and_congr_right fun hl => ?_
  rw [h.elsewhere l fun he => hp (he ▸ hl)]

theorem isFile_eq (h : FileChange d d' location) (hd : d.LinkFree) {p : Path}
    (hp : d.place? p ≠ some location) : d'.isFile p = d.isFile p := by
  rw [Bool.eq_iff_iff, isFile_iff hd, isFile_iff (h.linkFree hd), h.place?_eq]
  refine exists_congr fun l => exists_congr fun b => exists_congr fun x =>
    and_congr_right fun hl => ?_
  rw [h.elsewhere l fun he => hp (he ▸ hl)]

/-- A file can be written wherever a regular file or nothing is. -/
theorem put (h : d.FileOrFree location) (bytes : Text.Bytes) (executable : Bool) :
    FileChange d (d.put location (.file bytes executable)) location := by
  have hne := h.ne_nil
  refine ⟨h, fun node hn => ?_, fun l hl => ?_, rfl⟩
  · rw [node?_put hne, if_pos rfl] at hn
    cases hn
    exact ⟨_, _, rfl⟩
  · rw [node?_put hne, if_neg hl]

/-- A file that is there can be removed, and where nothing is, nothing changes. -/
theorem erase (h : d.FileOrFree location) : FileChange d (d.erase location) location := by
  refine ⟨h, fileOrFree_of_free ?_, fun l hl => ?_, rfl⟩
  · rw [node?_erase h.ne_nil, if_pos rfl]
  · rw [node?_erase h.ne_nil, if_neg hl]

/-- What was a file still is one after a file was written. -/
theorem isFile_put (h : d.FileOrFree location) (hd : d.LinkFree) {bytes : Text.Bytes}
    {executable : Bool} {p : Path} (hp : d.isFile p) :
    (d.put location (.file bytes executable)).isFile p := by
  obtain ⟨l, bytes', executable', hl, hn⟩ := (isFile_iff hd).1 hp
  have hc := put h bytes executable
  rw [isFile_iff (hc.linkFree hd)]
  by_cases he : l = location
  · exact ⟨l, bytes, executable, hc.place?_eq p ▸ hl, by rw [node?_put h.ne_nil, if_pos he]⟩
  · exact ⟨l, bytes', executable', hc.place?_eq p ▸ hl, by rw [hc.elsewhere l he, hn]⟩

end FileChange

end Disk

end BuildLayout
