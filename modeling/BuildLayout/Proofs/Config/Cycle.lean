import BuildLayout.Proofs.Config.Merge
import Mathlib.Data.List.Forall2

/-!
# The chain of a circular configuration

A configuration that extends itself is refused with the chain of files that leads back to one of
them. The chain is read off the ancestry of the walk, so it has to be shown that no file stays there
which was loaded on another branch.

`Returns d ancestry path way`: the walk from the file at `path` goes down along `way`, at each file
past references that load (`GoesOn`), and ends at a file of the ancestry or of the way itself. The
walk is refused as circular exactly then, with the ancestry and the way as the chain
(`loadFile_eq_circular_iff`). What the chain is like follows by induction on `Returns`: each file
extends the next, and none is named twice but the last (`circular_chain`).
-/

namespace BuildLayout

namespace Disk

open BuildLayout.Path (IsName)

/-- Following segments from a directory with proper names leads to a location with proper names. -/
theorem isName_of_walk {d : Disk} {followLast : Bool} {links : Nat} {here l : Location}
    {segments : List String} (hs : ∀ s ∈ segments, '/' ∉ s.toList) (hh : ∀ s ∈ here, IsName s)
    (h : d.walk followLast links here segments = .ok l) : ∀ s ∈ l, IsName s := by
  -- the name that a segment adds is none of `.` and `..`
  have hadd : ∀ {here : Location} {s : String} {rest : List String},
      (∀ t ∈ s :: rest, '/' ∉ t.toList) → ¬ (s = "" ∨ s = ".") → s ≠ ".." →
      (∀ t ∈ here, IsName t) → ∀ t ∈ here ++ [s], IsName t := by
    intro here s rest hs h1 h2 hh t ht
    rcases List.mem_append.1 ht with ht | ht
    · exact hh t ht
    · obtain rfl := List.mem_singleton.1 ht
      exact ⟨fun he => h1 (.inl he), fun he => h1 (.inr he), h2, hs t (.head _)⟩
  fun_induction walk d followLast links here segments with
  | case1 links here =>
    cases h
    exact hh
  | case2 links here s rest hidle ih => exact ih (fun t ht => hs t (.tail _ ht)) hh h
  | case3 links here rest hidle ih =>
    exact ih (fun t ht => hs t (.tail _ ht)) (fun t ht => hh t (List.mem_of_mem_dropLast ht)) h
  | case4 | case5 | case8 | case10 => cases h
  | case6 links here s rest h1 h2 hsize hn ih =>
    exact ih (fun t ht => hs t (.tail _ ht)) (hadd hs h1 h2 hh) h
  | case7 links here s h1 h2 | case9 links here s rest h1 h2 =>
    cases h
    exact hadd hs h1 h2 hh
  | case11 here s rest h1 h2 hsize target hn hlast links ih =>
    refine ih (fun t ht => ?_) (fun t ht => ?_) h
    · rcases List.mem_append.1 ht with ht | ht
      · exact (Path.of_mem_segments ht).1
      · exact hs t (.tail _ ht)
    · split at ht
      · cases ht
      · exact hh t ht

/-- A path leads to a location with proper names. -/
theorem isName_of_locate {d : Disk} (hcwd : ∀ s ∈ d.cwd, IsName s) {followLast : Bool} {p : Path}
    {l : Location} (h : d.locate followLast p = .ok l) : ∀ s ∈ l, IsName s := by
  unfold locate at h
  split at h
  · cases h
  split at h
  · cases h
  refine isName_of_walk (fun s hs => (Path.of_mem_segments hs).1) ?_ h
  split
  · exact fun s hs => absurd hs List.not_mem_nil
  · exact hcwd

end Disk

namespace Configuration

open Relation (ReflTransGen TransGen)

/-! ## How a walk is refused as circular -/

/-- What a file declares, by what stands where its path leads. -/
theorem declaredAt_of_bytesAt? {d : Disk} {path : Path} {location : Location} {bytes : Text.Bytes}
    (hl : d.locate true path = .ok location) (hb : d.bytesAt? location = some bytes) :
    declaredAt d path = Declared.ofBytes path bytes := by
  unfold declaredAt Disk.read Disk.stat
  unfold Disk.bytesAt? at hb
  split at hb
  · next hn =>
    cases hb
    simp [hl, hn]
  · cases hb

theorem ofBytes_ne_circular (path : Path) (bytes : Text.Bytes) (chain : List Path) :
    Declared.ofBytes path bytes ≠ .error (.circularExtends chain) := by
  unfold Declared.ofBytes
  split
  · nofun
  split <;> nofun

/-- **Loading one file** is refused as circular when the file is an ancestor, or one of its
references is refused so with it among the ancestors. -/
theorem loadFile_eq_circular_iff_step {d : Disk} {ancestry : List Location} {files : List Path}
    {path : Path} {chain : List Path} :
    loadFile d ancestry files path = .error (.circularExtends chain) ↔
      ∃ location, d.locate true path = .ok location ∧
        (location ∈ ancestry ∧ chain = (ancestry.reverse ++ [location]).map Disk.pathOf ∨
        location ∉ ancestry ∧ ∃ declared, declaredAt d path = .ok declared ∧
          loadReferences d (location :: ancestry) path path.parentOrRoot ⟨{}, addFile files path⟩
            (referencesOf declared) = .error (.circularExtends chain)) := by
  rw [loadFile]
  cases hl : d.locate true path with
  | error e => simp
  | ok location =>
    simp only [Except.ok.injEq, exists_eq_left']
    by_cases hv : location ∈ ancestry
    · simp [hv, eq_comm]
    simp only [hv, dite_false, false_and, not_false_eq_true, true_and, false_or]
    split
    · next hb =>
      constructor
      · intro h
        cases h
      · rintro ⟨declared, hd, -⟩
        obtain ⟨_, bytes, hl', hb', -⟩ := declaredAt_eq_ok_iff.1 hd
        obtain rfl := Except.ok.inj (hl.symm.trans hl')
        cases hb.symm.trans hb'
    next bytes hb =>
    have hdec : declaredAt d path = Declared.ofBytes path bytes :=
      declaredAt_of_bytesAt? hl hb
    rw [hdec]
    split
    · next f hf =>
      constructor
      · intro h
        obtain rfl := Except.error.inj h
        exact absurd hf (ofBytes_ne_circular path bytes chain)
      · rintro ⟨declared, hd, -⟩
        cases hf.symm.trans hd
    next declared hd =>
    simp only [hd, Except.ok.injEq, exists_eq_left']
    unfold referencesOf
    split
    · next f hf => rw [hf]
    next upper hu =>
    rw [hu]
    constructor
    · intro h
      split at h <;> cases h
    · intro h
      cases h

theorem loadReferences_cons_eq_circular_iff {d : Disk} {ancestry : List Location} {path dir : Path}
    {before : Loaded} {reference : String} {rest : List String} {chain : List Path} :
    loadReferences d ancestry path dir before (reference :: rest) =
        .error (.circularExtends chain) ↔
      ∃ parent, Reference.resolve? d dir reference = some parent ∧
        (loadFile d ancestry before.files parent = .error (.circularExtends chain) ∨
        ∃ upper, loadFile d ancestry before.files parent = .ok upper ∧
          loadReferences d ancestry path dir
            ⟨before.options.override upper.options, upper.files⟩ rest =
              .error (.circularExtends chain)) := by
  rw [loadReferences]
  cases Reference.resolve? d dir reference with
  | none => simp
  | some parent =>
    simp only [Option.some.injEq, exists_eq_left']
    cases loadFile d ancestry before.files parent <;> simp

/-- The references of the file at `path` lead to files that load below the ancestors, up to one that
leads to `parent`. -/
def GoesOn (d : Disk) (ancestry : List Location) (path parent : Path) : Prop :=
  ∃ declared, declaredAt d path = .ok declared ∧ ∃ passed reference rest,
    referencesOf declared = passed ++ reference :: rest ∧
    (∀ r ∈ passed, ∃ q, Reference.resolve? d path.parentOrRoot r = some q ∧ Loadable d ancestry q) ∧
    Reference.resolve? d path.parentOrRoot reference = some parent

theorem GoesOn.extends {d : Disk} {ancestry : List Location} {path parent : Path}
    (h : GoesOn d ancestry path parent) : Extends d path parent := by
  obtain ⟨declared, hd, passed, reference, rest, hr, -, hp⟩ := h
  exact ⟨declared, hd, reference, by rw [hr]; simp, hp⟩

/-- **References** are refused as circular by the first that leads to a file which does not load,
when that is refused so. -/
theorem loadReferences_eq_circular_iff {d : Disk} {ancestry : List Location} {path dir : Path}
    {chain : List Path} {Q : Path → Prop}
    (hQ : ∀ files parent,
      loadFile d ancestry files parent = .error (.circularExtends chain) ↔ Q parent)
    (references : List String) (before : Loaded) :
    loadReferences d ancestry path dir before references = .error (.circularExtends chain) ↔
      ∃ parent, (∃ passed reference rest, references = passed ++ reference :: rest ∧
        (∀ r ∈ passed, ∃ q, Reference.resolve? d dir r = some q ∧ Loadable d ancestry q) ∧
        Reference.resolve? d dir reference = some parent) ∧ Q parent := by
  induction references generalizing before with
  | nil =>
    rw [loadReferences_nil]
    simp
  | cons reference rest ih =>
    rw [loadReferences_cons_eq_circular_iff]
    constructor
    · rintro ⟨parent, hp, hc | ⟨upper, hu, hrest⟩⟩
      · exact ⟨parent, ⟨[], reference, rest, rfl, by simp, hp⟩, (hQ _ _).1 hc⟩
      · obtain ⟨q, ⟨passed, r, rest', rfl, hpassed, hr⟩, hq⟩ := (ih _).1 hrest
        have hload := loadFile_isOk_iff.1 ⟨upper, hu⟩
        refine ⟨q, ⟨reference :: passed, r, rest', rfl, ?_, hr⟩, hq⟩
        exact List.forall_mem_cons.2 ⟨⟨parent, hp, hload⟩, hpassed⟩
    · rintro ⟨q, ⟨passed, r, rest', heq, hpassed, hr⟩, hq⟩
      cases passed with
      | nil =>
        obtain ⟨rfl, -⟩ := List.cons.inj heq
        exact ⟨q, hr, .inl ((hQ _ _).2 hq)⟩
      | cons r' passed =>
        obtain ⟨rfl, rfl⟩ := List.cons.inj heq
        obtain ⟨⟨parent, hp, hload⟩, hpassed⟩ := List.forall_mem_cons.1 hpassed
        obtain ⟨upper, hu⟩ := loadFile_isOk_iff.2 hload
        exact ⟨parent, hp, .inr ⟨upper, hu, (ih _).2 ⟨q, ⟨passed, r, rest', rfl, hpassed, hr⟩, hq⟩⟩⟩

/-! ## The way back -/

/-- The walk from the file at a path, below some ancestors, goes along the paths and locations of a
way and ends at an ancestor. -/
inductive Returns (d : Disk) : List Location → Path → List (Path × Location) → Prop
  | here {ancestry : List Location} {path : Path} {location : Location} :
      d.locate true path = .ok location → location ∈ ancestry →
        Returns d ancestry path [(path, location)]
  | down {ancestry : List Location} {path parent : Path} {location : Location}
      {way : List (Path × Location)} :
      d.locate true path = .ok location → location ∉ ancestry →
      GoesOn d (location :: ancestry) path parent →
        Returns d (location :: ancestry) parent way →
        Returns d ancestry path ((path, location) :: way)

/-- **The walk** is refused as circular exactly when it returns to an ancestor, and the chain is the
ancestry and the way there. -/
theorem loadFile_eq_circular_iff {d : Disk} {ancestry : List Location} {files : List Path}
    {path : Path} {chain : List Path} :
    loadFile d ancestry files path = .error (.circularExtends chain) ↔
      ∃ way, Returns d ancestry path way ∧
        chain = (ancestry.reverse ++ way.map Prod.snd).map Disk.pathOf := by
  induction ancestry using ancestry_induction (d := d) generalizing files path with
  | step ancestry ih =>
    rw [loadFile_eq_circular_iff_step]
    constructor
    · rintro ⟨location, hl, ⟨hv, rfl⟩ | ⟨hv, declared, hd, hrefs⟩⟩
      · exact ⟨[(path, location)], .here hl hv, rfl⟩
      · have hbelow := (loadReferences_eq_circular_iff
          (fun _ _ => ih path location declared hl hd hv) _ _).1 hrefs
        obtain ⟨parent, hgo, way, hway, rfl⟩ := hbelow
        exact ⟨_, .down hl hv ⟨declared, hd, hgo⟩ hway, by simp⟩
    · rintro ⟨way, hway, rfl⟩
      cases hway with
      | here hl hv => exact ⟨_, hl, .inl ⟨hv, rfl⟩⟩
      | @down _ _ parent location way hl hv hgo hway =>
        obtain ⟨declared, hd, hgo⟩ := hgo
        refine ⟨location, hl, .inr ⟨hv, declared, hd, ?_⟩⟩
        exact (loadReferences_eq_circular_iff
          (fun _ _ => ih path location declared hl hd hv) _ _).2 ⟨parent, hgo, way, hway, by simp⟩

theorem load_eq_circular_iff {d : Disk} {path : Path} {chain : List Path} :
    load d path = .error (.circularExtends chain) ↔
      ∃ way, Returns d [] path.normalize way ∧ chain = way.map (Disk.pathOf ∘ Prod.snd) := by
  have h := @loadFile_eq_circular_iff d [] [] path.normalize chain
  simp only [List.reverse_nil, List.nil_append, List.map_map] at h
  rw [← h]
  unfold load
  dsimp only
  cases loadFile d [] [] path.normalize <;> simp

namespace Returns

variable {d : Disk} {ancestry : List Location} {path : Path} {way : List (Path × Location)}

theorem exists_cons (h : Returns d ancestry path way) :
    ∃ location rest, way = (path, location) :: rest := by
  cases h with
  | here => exact ⟨_, _, rfl⟩
  | down => exact ⟨_, _, rfl⟩

/-- Each path of the way leads to its location. -/
theorem locate_eq (h : Returns d ancestry path way) :
    ∀ e ∈ way, d.locate true e.1 = .ok e.2 := by
  induction h with
  | here hl _ => simpa using hl
  | down hl _ _ _ ih => exact List.forall_mem_cons.2 ⟨hl, ih⟩

/-- Each file of the way extends the next. -/
theorem isChain (h : Returns d ancestry path way) :
    (way.map Prod.fst).IsChain (Extends d) := by
  induction h with
  | here => exact .singleton _
  | down _ _ hgo hway ih =>
    obtain ⟨location, rest, rfl⟩ := hway.exists_cons
    exact .cons_cons hgo.extends ih

/-- No location of the way is an ancestor or comes twice, but the last is an ancestor or came
before. -/
theorem exists_last (h : Returns d ancestry path way) : ∃ init q last, way = init ++ [(q, last)] ∧
    (init.map Prod.snd).Nodup ∧ (∀ l ∈ init.map Prod.snd, l ∉ ancestry) ∧
      (last ∈ ancestry ∨ last ∈ init.map Prod.snd) := by
  induction h with
  | @here ancestry path location _ hv => exact ⟨[], path, location, rfl, .nil, by simp, .inl hv⟩
  | @down ancestry path parent location way hl hv hgo hway ih =>
    obtain ⟨init, q, last, rfl, hnodup, hnew, hlast⟩ := ih
    have hfresh : location ∉ init.map Prod.snd := fun hm => hnew _ hm (.head _)
    refine ⟨(path, location) :: init, q, last, rfl, ?_, ?_, ?_⟩
    · exact List.nodup_cons.2 ⟨hfresh, hnodup⟩
    · exact List.forall_mem_cons.2 ⟨hv, fun l hm hanc => hnew l hm (.tail _ hanc)⟩
    · rcases hlast with hlast | hlast
      · rcases List.mem_cons.1 hlast with rfl | hlast
        · exact .inr (.head _)
        · exact .inl hlast
      · exact .inr (.tail _ hlast)

end Returns

/-! ## What is refused as circular -/

/-- References that lead to files which load or are refused as circular do so themselves. -/
theorem loadReferences_isOk_or_circular {d : Disk} {ancestry : List Location} {path dir : Path}
    {references : List String}
    (h : ∀ reference ∈ references, ∃ parent, Reference.resolve? d dir reference = some parent ∧
      ∀ files, (∃ loaded, loadFile d ancestry files parent = .ok loaded) ∨
        ∃ chain, loadFile d ancestry files parent = .error (.circularExtends chain))
    (before : Loaded) :
    (∃ loaded, loadReferences d ancestry path dir before references = .ok loaded) ∨
      ∃ chain, loadReferences d ancestry path dir before references =
        .error (.circularExtends chain) := by
  induction references generalizing before with
  | nil => exact .inl ⟨before, loadReferences_nil⟩
  | cons reference rest ih =>
    obtain ⟨⟨parent, hp, hparent⟩, hrest⟩ := List.forall_mem_cons.1 h
    rcases hparent before.files with ⟨upper, hu⟩ | ⟨chain, hc⟩
    · rcases ih hrest ⟨before.options.override upper.options, upper.files⟩ with
        ⟨loaded, hl⟩ | ⟨chain, hc⟩
      · exact .inl ⟨loaded, loadReferences_cons_eq_ok_iff.2 ⟨parent, upper, hp, hu, hl⟩⟩
      · exact .inr ⟨chain,
          loadReferences_cons_eq_circular_iff.2 ⟨parent, hp, .inr ⟨upper, hu, hc⟩⟩⟩
    · exact .inr ⟨chain, loadReferences_cons_eq_circular_iff.2 ⟨parent, hp, .inl hc⟩⟩

/-- **Where everything can be read**, a walk is refused only as circular. -/
theorem loadFile_isOk_or_circular {d : Disk} {ancestry : List Location} {files : List Path}
    {path : Path} (h : ∀ q, ReflTransGen (Extends d) path q → Readable d q) :
    (∃ loaded, loadFile d ancestry files path = .ok loaded) ∨
      ∃ chain, loadFile d ancestry files path = .error (.circularExtends chain) := by
  induction ancestry using ancestry_induction (d := d) generalizing files path with
  | step ancestry ih =>
    obtain ⟨location, hl⟩ := exists_locate_of_readable (h path .refl)
    obtain ⟨declared, hd, hr⟩ := h path .refl
    by_cases hv : location ∈ ancestry
    · exact .inr ⟨_, loadFile_eq_circular_iff_step.2 ⟨location, hl, .inl ⟨hv, rfl⟩⟩⟩
    have hbelow : ∀ reference ∈ referencesOf declared, ∃ parent,
        Reference.resolve? d path.parentOrRoot reference = some parent ∧
        ∀ files, (∃ loaded, loadFile d (location :: ancestry) files parent = .ok loaded) ∨
          ∃ chain, loadFile d (location :: ancestry) files parent =
            .error (.circularExtends chain) := by
      intro reference hm
      obtain ⟨parent, hp⟩ := hr reference hm
      have he : Extends d path parent := ⟨declared, hd, reference, hm, hp⟩
      exact ⟨parent, hp, fun files =>
        ih path location declared hl hd hv fun q hq => h q (.head he hq)⟩
    rcases loadReferences_isOk_or_circular hbelow ⟨{}, addFile files path⟩ with
      ⟨upper, hu⟩ | ⟨chain, hc⟩
    · exact .inl ⟨_, loadFile_eq_ok_iff.2 ⟨location, declared, upper, hl, hv, hd, hu, rfl⟩⟩
    · exact .inr ⟨chain,
        loadFile_eq_circular_iff_step.2 ⟨location, hl, .inr ⟨hv, declared, hd, hc⟩⟩⟩

/-- A configuration of which something extends itself is refused as circular when everything that it
extends can be read. -/
theorem exists_circular {d : Disk} {path : Path}
    (hread : ∀ q, ReflTransGen (Extends d) path.normalize q → Readable d q) {q q' : Path}
    (hq : ReflTransGen (Extends d) path.normalize q) (hq' : TransGen (Extends d) q q')
    (hsame : SameFile d q q') : ∃ chain, load d path = .error (.circularExtends chain) := by
  rcases @loadFile_isOk_or_circular d [] [] _ hread with hok | ⟨chain, hc⟩
  · exact absurd hsame ((loadFile_isOk_iff.1 hok).acyclic q q' hq hq')
  · exact ⟨chain, load_eq_circular_iff.2 (by simpa using loadFile_eq_circular_iff.1 hc)⟩

/-! ## A project that extends itself -/

/-- A project whose configuration extends a plain file, and then one that extends it. -/
def cyclicProject : Disk where
  nodes := [
    (["w"], .directory),
    (["w", "tsconfig.json"], .file (Text.encode
      "\x7b\"extends\": [\"./plain.json\", \"./base.json\"]\x7d") false),
    (["w", "plain.json"], .file [] false),
    (["w", "base.json"], .file (Text.encode "\x7b\"extends\": \"./tsconfig.json\"\x7d") false)]
  cwd := []

/-- The plain file is loaded before the way back is found, and is no part of it. -/
theorem load_cyclicProject : load cyclicProject ⟨"/w/tsconfig.json"⟩ = .error (.circularExtends
    [⟨"/w/tsconfig.json"⟩, ⟨"/w/base.json"⟩, ⟨"/w/tsconfig.json"⟩]) := by
  have hd : cyclicProject.LinkFree := Disk.linkFree_of_forall_mem (by simp [cyclicProject])
  have hl : cyclicProject.locate true ⟨"/w/tsconfig.json"⟩ = .ok ["w", "tsconfig.json"] :=
    Disk.locate_of_place? hd (by decide) rfl
  have hl' : cyclicProject.locate true ⟨"/w/base.json"⟩ = .ok ["w", "base.json"] :=
    Disk.locate_of_place? hd (by decide) rfl
  have hlp : cyclicProject.locate true ⟨"/w/plain.json"⟩ = .ok ["w", "plain.json"] :=
    Disk.locate_of_place? hd (by decide) rfl
  have hdec : declaredAt cyclicProject ⟨"/w/tsconfig.json"⟩ =
      .ok ⟨some ["./plain.json", "./base.json"], none⟩ :=
    declaredAt_of_node? hd (l := ["w", "tsconfig.json"]) (by decide) rfl (by decide +kernel)
  have hdec' : declaredAt cyclicProject ⟨"/w/base.json"⟩ = .ok ⟨some ["./tsconfig.json"], none⟩ :=
    declaredAt_of_node? hd (l := ["w", "base.json"]) (by decide) rfl (by decide +kernel)
  have hdecp : declaredAt cyclicProject ⟨"/w/plain.json"⟩ = .ok ⟨none, none⟩ :=
    declaredAt_of_node? hd (l := ["w", "plain.json"]) (by decide) rfl (by decide +kernel)
  have hresolve : ∀ {reference : String} {p : Path} {l : Location} {bytes : Text.Bytes},
      Reference.isRelative reference →
      (⟨"/w"⟩ : Path).resolveAgainst (Path.normalizeSeparators ⟨reference⟩) = p →
      cyclicProject.place? p = some l → cyclicProject.node? l = some (.file bytes false) →
        Reference.resolve? cyclicProject ⟨"/w"⟩ reference = some p := by
    rintro reference p l bytes hr rfl hp hn
    exact resolve?_of_isRelative hr
      (file?_of_isFile ((Disk.isFile_iff hd).2 ⟨l, bytes, false, hp, hn⟩))
  have hplain : Loadable cyclicProject [["w", "tsconfig.json"]] ⟨"/w/plain.json"⟩ :=
    loadable_iff.2 ⟨_, _, hlp, by decide, hdecp, by simp [referencesOf]⟩
  have hgo : GoesOn cyclicProject [["w", "tsconfig.json"]] ⟨"/w/tsconfig.json"⟩
      ⟨"/w/base.json"⟩ := by
    refine ⟨_, hdec, ["./plain.json"], "./base.json", [], rfl, ?_, ?_⟩
    · rintro r hr
      obtain rfl := List.mem_singleton.1 hr
      exact ⟨_, hresolve (l := ["w", "plain.json"]) (by decide) (by decide) (by decide) rfl, hplain⟩
    · exact hresolve (l := ["w", "base.json"]) (by decide) (by decide) (by decide) rfl
  have hback : GoesOn cyclicProject [["w", "base.json"], ["w", "tsconfig.json"]] ⟨"/w/base.json"⟩
      ⟨"/w/tsconfig.json"⟩ :=
    ⟨_, hdec', [], "./tsconfig.json", [], rfl, by simp,
      hresolve (l := ["w", "tsconfig.json"]) (by decide) (by decide) (by decide) rfl⟩
  have hway : Returns cyclicProject [] ⟨"/w/tsconfig.json"⟩ [
      (⟨"/w/tsconfig.json"⟩, ["w", "tsconfig.json"]), (⟨"/w/base.json"⟩, ["w", "base.json"]),
      (⟨"/w/tsconfig.json"⟩, ["w", "tsconfig.json"])] :=
    .down hl (by decide) hgo (.down hl' (by decide) hback (.here hl (by decide)))
  have hnormal : (⟨"/w/tsconfig.json"⟩ : Path).normalize = ⟨"/w/tsconfig.json"⟩ := by decide
  rw [load_eq_circular_iff, hnormal]
  exact ⟨_, hway, by decide⟩

/-! ## The main result -/

/-- The path is the canonical one of the file that another path leads to. -/
def IsCanonical (d : Disk) (file canonical : Path) : Prop :=
  ∃ location, d.locate true file = .ok location ∧ canonical = Disk.pathOf location

/-- **The chain of a circular configuration** names the canonical paths of files, from the
configuration on, of which each extends the next. They are distinct but for the last, which is one
of those before it. And there is a chain whenever everything can be read and something extends
itself. -/
theorem circular_chain {d : Disk} (hcwd : ∀ s ∈ d.cwd, Path.IsName s) {path : Path} :
    (∀ chain, load d path = .error (.circularExtends chain) → 2 ≤ chain.length ∧
      (∃ files : List Path, files.head? = some path.normalize ∧ files.IsChain (Extends d) ∧
        List.Forall₂ (IsCanonical d) files chain) ∧
      ∃ init last, chain = init ++ [last] ∧ init.Pairwise (fun c c' => ¬ c.same c') ∧
        last ∈ init) ∧
    ((∀ q, ReflTransGen (Extends d) path.normalize q → Readable d q) →
      (∃ q q', ReflTransGen (Extends d) path.normalize q ∧ TransGen (Extends d) q q' ∧
        SameFile d q q') → ∃ chain, load d path = .error (.circularExtends chain)) := by
  refine ⟨fun chain h => ?_, fun hread ⟨q, q', hq, hq', hsame⟩ =>
    exists_circular hread hq hq' hsame⟩
  obtain ⟨way, hway, rfl⟩ := load_eq_circular_iff.1 h
  obtain ⟨first, rest, hfirst⟩ := hway.exists_cons
  obtain ⟨init, q, last, rfl, hnodup, -, hlast⟩ := hway.exists_last
  have hlast : last ∈ init.map Prod.snd := hlast.resolve_left List.not_mem_nil
  have hlocate := hway.locate_eq
  refine ⟨?_, ⟨_, by rw [hfirst]; rfl, hway.isChain, ?_⟩, init.map (Disk.pathOf ∘ Prod.snd),
    Disk.pathOf last, by simp, ?_, ?_⟩
  · -- the last location is one before it, so the way has two at least
    have hpos : 0 < init.length := by
      rw [← List.length_map (f := Prod.snd)]
      exact List.length_pos_of_mem hlast
    simp only [List.length_map, List.length_append, List.length_singleton]
    omega
  · rw [List.forall₂_map_left_iff, List.forall₂_map_right_iff, List.forall₂_same]
    exact fun e he => ⟨e.2, hlocate e he, rfl⟩
  · have hname : ∀ e ∈ init, ∀ s ∈ e.2, Path.IsName s := fun e he =>
      Disk.isName_of_locate hcwd (hlocate e (List.mem_append_left _ he))
    rw [List.pairwise_map]
    refine (List.pairwise_map.1 hnodup).imp_of_mem fun {e e'} he he' hne hsame => hne ?_
    exact Path.components_pathOf_inj (hname e he) (hname e' he') (by simpa [Path.same] using hsame)
  · obtain ⟨e, he, rfl⟩ := List.mem_map.1 hlast
    exact List.mem_map.2 ⟨e, he, rfl⟩

theorem circular_chain_cyclicProject :
    load cyclicProject ⟨"/w/tsconfig.json"⟩ = .error (.circularExtends
      [⟨"/w/tsconfig.json"⟩, ⟨"/w/base.json"⟩, ⟨"/w/tsconfig.json"⟩]) ∧
    ∃ files : List Path, files.head? = some (⟨"/w/tsconfig.json"⟩ : Path).normalize ∧
      files.IsChain (Extends cyclicProject) ∧ List.Forall₂ (IsCanonical cyclicProject) files
        [⟨"/w/tsconfig.json"⟩, ⟨"/w/base.json"⟩, ⟨"/w/tsconfig.json"⟩] :=
  ⟨load_cyclicProject, ((circular_chain (by simp [cyclicProject])).1 _ load_cyclicProject).2.1⟩

end Configuration

end BuildLayout
