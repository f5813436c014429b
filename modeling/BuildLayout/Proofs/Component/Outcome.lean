import BuildLayout.Component.Create
import BuildLayout.Proofs.Path.Relative

/-!
# How writing a component ends

`Creates` are the ways in which writing a component ends: refused for its name, without a directory,
without a file, as being there already, in the middle of the text, or written. What holds of a
component that is written goes by these cases (`creates_of_create`). A name that is accepted makes a
plain file name (`isPlain_script`), so the script is a child of its directory (`fileIn_eq_pathOf`).
-/

namespace BuildLayout.Component

open Disk (pathOf)

/-! ## Accepted names -/

theorem validateName_eq_ok_iff {name : String} :
    validateName name = .ok () ↔ isValidName name := by
  unfold validateName
  split
  · next h => simp [h]
  · next h => simp [h]

/-- An accepted name is not empty, and its script has a plain name that is text. -/
theorem isPlain_script {name : String} (h : isValidName name) :
    name ≠ "" ∧ Path.IsPlain (name ++ ".ts") ∧ Text.isText (name ++ ".ts") := by
  unfold isValidName at h
  rw [Bool.and_eq_true, List.all_eq_true, List.any_eq_true] at h
  obtain ⟨hall, c, hc, -⟩ := h
  have hnot : ∀ c, isNameChar c = false → c ∉ ".ts".toList → c ∉ (name ++ ".ts").toList := by
    intro c hchar hend hm
    rw [String.toList_append, List.mem_append] at hm
    rcases hm with hm | hm
    · rw [hall c hm] at hchar
      cases hchar
    · exact hend hm
  have hlong : ∀ s : String, s.toList.length < 3 → name ++ ".ts" ≠ s := by
    rintro _ hs rfl
    rw [String.toList_append, List.length_append] at hs
    have : ".ts".toList.length = 3 := by decide
    omega
  have hslash := hnot '/' (by decide) (by decide)
  have hplain : Path.IsPlain (name ++ ".ts") :=
    ⟨⟨hlong _ (by decide), hlong _ (by decide), hlong _ (by decide), hslash⟩,
      hnot _ (by decide) (by decide)⟩
  refine ⟨?_, hplain, Text.isText_of_not_mem (hnot _ (by decide) (by decide))⟩
  rintro rfl
  cases hc

/-- The file of a component is at its place in the directory. -/
theorem fileIn_eq_pathOf {dir : Path} (hdir : dir.IsSettled) {name : String}
    (hplain : Path.IsPlain (name ++ ".ts")) :
    fileIn dir name = pathOf (dir.normal.names ++ [name ++ ".ts"]) := by
  have hchild := Path.child_pathOf (Path.isName_normal dir) (Path.isAbsolute_of_isName hplain.1)
  rwa [hdir.pathOf_names] at hchild

/-! ## The ways in which writing ends -/

/-- What is written into a component's file. -/
def contents (name : String) (kind : ComponentKind) : Text.Bytes :=
  Text.encode (script (className name) kind)

/-- The record of a component that was written. -/
def record (dir : Path) (name : String) (kind : ComponentKind) : CreatedComponent :=
  ⟨fileIn dir name, className name, label (className name), kind⟩

/-- The ways in which writing a component ends, with the disk that each leaves. A file that was made
is filled where it was made, wholly or with the beginning of its text. -/
inductive Creates (d : Disk) (dir : Path) (name : String) (kind : ComponentKind) :
    Disk.Writing → Except Failure CreatedComponent → Disk → Prop
  | refused {writing : Disk.Writing} : ¬ isValidName name →
      Creates d dir name kind writing (.error (.invalidComponentName name)) d
  | noDirectory {writing : Disk.Writing} {e : OsError} {d' : Disk} : isValidName name →
      d.makeDirs dir = (.error e, d') →
      Creates d dir name kind writing (.error (.io (some dir) e.text)) d'
  | noFile {writing : Disk.Writing} {e : OsError} {d' : Disk} : isValidName name →
      d.makeDirs dir = (.ok (), d') →
      d'.createNew (fileIn dir name) = .error e → e ≠ .alreadyThere →
      Creates d dir name kind writing (.error (.io (some (fileIn dir name)) e.text)) d'
  | there {writing : Disk.Writing} {d' : Disk} : isValidName name →
      d.makeDirs dir = (.ok (), d') →
      d'.createNew (fileIn dir name) = .error .alreadyThere →
      Creates d dir name kind writing (.error (.alreadyExists (fileIn dir name))) d'
  | cut {written : Nat} {reason : OsError} {e new : Disk} {location : Location} :
      isValidName name → d.makeDirs dir = (.ok (), e) →
      e.createNew (fileIn dir name) = .ok (location, new) →
      Creates d dir name kind (.cut written reason)
        (.error (.io (some (fileIn dir name)) reason.text))
        (new.put location (.file ((contents name kind).take written) false))
  | written {e new : Disk} {location : Location} : isValidName name →
      d.makeDirs dir = (.ok (), e) → e.createNew (fileIn dir name) = .ok (location, new) →
      Creates d dir name kind .whole (.ok (record dir name kind))
        (new.put location (.file (contents name kind) false))

section
variable {d d' : Disk} {dir : Path} {name : String} {kind : ComponentKind}
  {writing : Disk.Writing} {result : Except Failure CreatedComponent}

theorem creates_of_create (h : create d dir name kind writing = (result, d')) :
    Creates d dir name kind writing result d' := by
  unfold create at h
  split at h
  · next f hv =>
    unfold validateName at hv
    split at hv
    · cases hv
    · next hname =>
      cases hv
      cases h
      exact .refused hname
  next hv =>
  have hname := validateName_eq_ok_iff.1 hv
  split at h
  · next hmake =>
    cases h
    exact .noDirectory hname hmake
  next e hmake =>
  dsimp only at h
  split at h
  · next hnew =>
    cases h
    exact .there hname hmake hnew
  · next hother hnew =>
    cases h
    exact .noFile hname hmake hnew hother
  next hnew =>
  cases writing with
  | whole =>
    cases h
    exact .written hname hmake hnew
  | cut written reason =>
    cases h
    exact .cut hname hmake hnew

/-- A component is written into a directory that is made and where nothing has its name. -/
theorem create_eq_ok {e new : Disk} {location : Location} (hname : isValidName name)
    (hmake : d.makeDirs dir = (.ok (), e))
    (hnew : e.createNew (fileIn dir name) = .ok (location, new)) :
    create d dir name kind = (.ok (record dir name kind),
      new.put location (.file (contents name kind) false)) := by
  unfold create record
  rw [validateName_eq_ok_iff.2 hname]
  simp only [hmake, hnew]
  rfl

theorem create_eq_alreadyExists {e : Disk} (hname : isValidName name)
    (hmake : d.makeDirs dir = (.ok (), e))
    (hnew : e.createNew (fileIn dir name) = .error .alreadyThere) :
    create d dir name kind writing = (.error (.alreadyExists (fileIn dir name)), e) := by
  unfold create
  rw [validateName_eq_ok_iff.2 hname]
  simp only [hmake, hnew]

/-- A component that was written is in the directory, under its name. -/
theorem path_of_create {created : CreatedComponent}
    (h : create d dir name kind writing = (.ok created, d')) :
    validateName name = .ok () ∧ created.path = fileIn dir name := by
  cases creates_of_create h with
  | written hname => exact ⟨validateName_eq_ok_iff.2 hname, rfl⟩

theorem className_of_create {created : CreatedComponent}
    (h : create d dir name kind writing = (.ok created, d')) : created.className = className name := by
  cases creates_of_create h with
  | written => rfl

theorem displayName_of_create {created : CreatedComponent}
    (h : create d dir name kind writing = (.ok created, d')) :
    created.displayName = label (className name) := by
  cases creates_of_create h with
  | written => rfl

end

end BuildLayout.Component
