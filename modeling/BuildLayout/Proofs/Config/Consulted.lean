import BuildLayout.Proofs.Config.Extends

/-!
# What loading a configuration consults

`Consults d path q`: loading the file at `path` looks at `q`, which it reads or tries for a
reference. A reference tries its `Reference.candidates` up to the first that is a file
(`Reference.resolve?_eq_find?`), so the paths that were tried in vain count as well.

The walk goes the same way on another disk when each file that is extended reads alike there
(`loadFile_eq_ok_of_alike`). So a change of one file at a place that loading does not consult
(`DependsOn`) leaves the result as it was (`load_eq_ok_iff_of_change`). A change at one that it does
consult may not: with a file there that is no text, nothing loads that depends on it
(`not_load_of_malformed`). Of what was consulted, the files of the configuration are those that were
read (`recorded_of_dependsOn`).
-/

namespace BuildLayout

open Disk (LinkFree FileChange)

namespace Reference

/-! ## What a reference tries -/

/-- The paths that stand for a file: as it is written, and with `.json` at its end. -/
def fileCandidates (candidate : Path) : List Path :=
  candidate :: if candidate.hasExtension "json" then [] else [candidate.append ".json"]

/-- The paths that a package name stands for from one directory. -/
def packageCandidates (name dir : Path) : List Path :=
  let candidate := (dir.child packagesName).join name
  fileCandidates candidate ++ [candidate.child configName]

/-- The paths that a reference in a file of the directory `dir` may lead to, in order. -/
def candidates (dir : Path) (reference : String) : List Path :=
  let name := Path.normalizeSeparators ⟨reference⟩
  if isRelative reference || name.isAbsolute then fileCandidates (dir.resolveAgainst name)
  else dir.ancestors.flatMap (packageCandidates name)

theorem file?_eq_find? (d : Disk) (candidate : Path) :
    file? d candidate = (fileCandidates candidate).find? d.isFile := by
  unfold file? fileCandidates
  cases h : d.isFile candidate with
  | true => simp [h]
  | false =>
    cases hj : candidate.hasExtension "json" with
    | true => simp [h]
    | false => cases ha : d.isFile (candidate.append ".json") <;> simp [h, ha]

theorem packageIn?_eq_find? (d : Disk) (name dir : Path) :
    packageIn? d name dir = (packageCandidates name dir).find? d.isFile := by
  unfold packageIn? packageCandidates
  dsimp only
  rw [List.find?_append, ← file?_eq_find?]
  cases file? d ((dir.child packagesName).join name) with
  | some found => rfl
  | none =>
    rw [Option.none_or]
    cases h : d.isFile (((dir.child packagesName).join name).child configName) <;> simp [h]

/-- **A reference leads to** the first of its candidates that is a file. -/
theorem resolve?_eq_find? (d : Disk) (dir : Path) (reference : String) :
    resolve? d dir reference = (candidates dir reference).find? d.isFile := by
  unfold resolve? candidates
  dsimp only
  split
  · exact file?_eq_find? d _
  · rw [List.find?_flatMap, ← funext (packageIn?_eq_find? d _)]

end Reference

namespace Configuration

open Relation (ReflTransGen)

/-- The paths that are looked at for the first file among them. -/
def tried (d : Disk) : List Path → List Path
  | [] => []
  | q :: rest => q :: if d.isFile q then [] else tried d rest

theorem tried_congr {d d' : Disk} {paths : List Path}
    (h : ∀ q ∈ tried d paths, d'.isFile q = d.isFile q) :
    tried d' paths = tried d paths ∧ paths.find? d'.isFile = paths.find? d.isFile := by
  induction paths with
  | nil => exact ⟨rfl, rfl⟩
  | cons q rest ih =>
    have hq := h q (.head _)
    rw [tried, tried, List.find?_cons, List.find?_cons, hq]
    cases hf : d.isFile q with
    | true => exact ⟨rfl, rfl⟩
    | false =>
      obtain ⟨h1, h2⟩ := ih fun x hx => h x (by rw [tried]; simp [hf, hx])
      simp [h1, h2]

/-- A file that was tried is the one found. -/
theorem find?_of_mem_tried {d : Disk} {paths : List Path} {q : Path} (h : q ∈ tried d paths)
    (hf : d.isFile q) : paths.find? d.isFile = some q := by
  induction paths with
  | nil => cases h
  | cons x rest ih =>
    rw [tried] at h
    cases hx : d.isFile x with
    | true =>
      obtain rfl : q = x := by simpa [hx] using h
      simp [hf]
    | false =>
      have hne : q ≠ x := by
        rintro rfl
        simp [hf] at hx
      rw [List.find?_cons_of_neg (by simp [hx])]
      exact ih (by simpa [hx, hne] using h)

/-! ## What a file consults -/

/-- Loading the file at a path looks at the other path. -/
inductive Consults (d : Disk) : Path → Path → Prop
  | self {path : Path} : Consults d path path
  | tried {path : Path} {declared : Declared} {reference : String} {q : Path} :
      declaredAt d path = .ok declared → reference ∈ referencesOf declared →
      q ∈ tried d (Reference.candidates path.parentOrRoot reference) → Consults d path q
  | parent {path parent q : Path} : Extends d path parent → Consults d parent q → Consults d path q

/-- Loading the file at a path looks at a path that stands for the location. -/
def DependsOn (d : Disk) (path : Path) (location : Location) : Prop :=
  ∃ q, Consults d path q ∧ d.place? q = some location

theorem place?_ne_of_not_dependsOn {d : Disk} {path : Path} {location : Location}
    (hn : ¬ DependsOn d path location) : d.place? path ≠ some location :=
  fun he => hn ⟨path, .self, he⟩

/-- A file depends on what those depend on that it extends. -/
theorem DependsOn.of_extends {d : Disk} {path parent : Path} {location : Location}
    (he : Extends d path parent) (h : DependsOn d parent location) : DependsOn d path location := by
  obtain ⟨q, hq, hl⟩ := h
  exact ⟨q, .parent he hq, hl⟩

/-- A file that is consulted is one of those extended. -/
theorem Consults.reflTransGen {d : Disk} {path q : Path} (h : Consults d path q)
    (hf : d.isFile q) : ReflTransGen (Extends d) path q := by
  induction h with
  | self => exact .refl
  | tried hd hr hq =>
    refine .single ⟨_, hd, _, hr, ?_⟩
    rw [Reference.resolve?_eq_find?]
    exact find?_of_mem_tried hq hf
  | parent he _ ih => exact .head he (ih hf)

theorem isFile_of_load {d : Disk} (hd : LinkFree d) {path : Path} {config : Configuration}
    (h : load d path = .ok config) : d.isFile path.normalize := by
  obtain ⟨declared, hdec, -⟩ := (load_isOk_iff_loadable.1 ⟨config, h⟩).readable _ .refl
  obtain ⟨bytes, hr, -⟩ := declaredAt_eq_ok_iff_read.1 hdec
  obtain ⟨l, executable, hl, hn⟩ := (Disk.read_eq_ok_iff hd).1 hr
  exact (Disk.isFile_iff hd).2 ⟨l, bytes, executable, hl, hn⟩

/-! ## Files that read alike -/

/-- The file at a path can be read at the same location of the other disk, declares the same there,
and its references lead to the same files. -/
def Alike (d d' : Disk) (path : Path) : Prop :=
  ∀ location declared, d.locate true path = .ok location → declaredAt d path = .ok declared →
    d'.locate true path = .ok location ∧ declaredAt d' path = .ok declared ∧
      ∀ reference ∈ referencesOf declared,
        Reference.resolve? d' path.parentOrRoot reference =
          Reference.resolve? d path.parentOrRoot reference

/-- The references of a file load as before when what they lead to does. -/
theorem loadReferences_eq_ok_of_alike {d d' : Disk} {ancestry : List Location} {path dir : Path}
    {references : List String}
    (hres : ∀ reference ∈ references,
      Reference.resolve? d' dir reference = Reference.resolve? d dir reference)
    (hfile : ∀ reference ∈ references, ∀ files parent loaded,
      Reference.resolve? d dir reference = some parent →
      loadFile d ancestry files parent = .ok loaded →
        loadFile d' ancestry files parent = .ok loaded)
    {before loaded : Loaded}
    (hl : loadReferences d ancestry path dir before references = .ok loaded) :
    loadReferences d' ancestry path dir before references = .ok loaded := by
  induction references generalizing before with
  | nil =>
    rw [loadReferences_nil] at hl ⊢
    exact hl
  | cons reference rest ih =>
    obtain ⟨parent, upper, hp, hu, hrest⟩ := loadReferences_cons_eq_ok_iff.1 hl
    refine loadReferences_cons_eq_ok_iff.2 ⟨parent, upper, ?_, ?_, ?_⟩
    · rw [hres reference (.head _), hp]
    · exact hfile reference (.head _) _ _ _ hp hu
    · exact ih (fun r hr => hres r (.tail _ hr)) (fun r hr => hfile r (.tail _ hr)) hrest

/-- **The walk** goes the same way on another disk when each file that is extended reads alike
there. -/
theorem loadFile_eq_ok_of_alike {d d' : Disk} {ancestry : List Location} {files : List Path}
    {path : Path} {loaded : Loaded}
    (halike : ∀ q, ReflTransGen (Extends d) path q → Alike d d' q)
    (hl : loadFile d ancestry files path = .ok loaded) :
    loadFile d' ancestry files path = .ok loaded := by
  induction ancestry using ancestry_induction (d := d) generalizing files path loaded with
  | step ancestry ih =>
    obtain ⟨l, declared, upper, hloc, hv, hdec, hu, rfl⟩ := loadFile_eq_ok_iff.1 hl
    obtain ⟨hloc', hdec', hres⟩ := halike path .refl l declared hloc hdec
    refine loadFile_eq_ok_iff.2 ⟨l, declared, upper, hloc', hv, hdec', ?_, rfl⟩
    refine loadReferences_eq_ok_of_alike hres (fun reference hr files parent loaded hp => ?_) hu
    exact ih path l declared hloc hdec hv fun q hq =>
      halike q (.head ⟨declared, hdec, reference, hr, hp⟩ hq)

/-! ## Changes elsewhere -/

section
variable {d d' : Disk} {location : Location} (h : FileChange d d' location) (hd : LinkFree d)
include h hd

theorem declaredAt_eq_ok_iff_of_change {path : Path} (hp : d.place? path ≠ some location)
    {declared : Declared} :
    declaredAt d' path = .ok declared ↔ declaredAt d path = .ok declared := by
  simp only [declaredAt_eq_ok_iff_read, h.read_eq_ok_iff hd hp]

/-- A reference of a file that does not depend on the place of a change tries what it tried before,
and leads to what it led to. -/
theorem tried_of_change {path : Path} {declared : Declared} {reference : String}
    (hn : ¬ DependsOn d path location) (hdec : declaredAt d path = .ok declared)
    (hr : reference ∈ referencesOf declared) :
    tried d' (Reference.candidates path.parentOrRoot reference) =
        tried d (Reference.candidates path.parentOrRoot reference) ∧
      Reference.resolve? d' path.parentOrRoot reference =
        Reference.resolve? d path.parentOrRoot reference := by
  rw [Reference.resolve?_eq_find?, Reference.resolve?_eq_find?]
  exact tried_congr fun q hq => h.isFile_eq hd fun hl => hn ⟨q, .tried hdec hr hq, hl⟩

/-- What does not depend on the place of a change consults nothing else after it. -/
theorem Consults.of_change {path q : Path} (hq : Consults d' path q)
    (hn : ¬ DependsOn d path location) : Consults d path q := by
  have hdec : ∀ {path declared}, ¬ DependsOn d path location →
      declaredAt d' path = .ok declared → declaredAt d path = .ok declared := fun hn =>
    (declaredAt_eq_ok_iff_of_change h hd (place?_ne_of_not_dependsOn hn)).1
  induction hq with
  | self => exact .self
  | tried hd' hr hq =>
    have hd' := hdec hn hd'
    exact .tried hd' hr ((tried_of_change h hd hn hd' hr).1 ▸ hq)
  | parent he _ ih =>
    obtain ⟨declared, hd', reference, hr, hp⟩ := he
    have hd' := hdec hn hd'
    rw [(tried_of_change h hd hn hd' hr).2] at hp
    exact .parent ⟨declared, hd', reference, hr, hp⟩
      (ih fun hdep => hn (hdep.of_extends ⟨declared, hd', reference, hr, hp⟩))

/-- What depends on the place of a change did so before. -/
theorem DependsOn.of_change {path : Path} (hp : DependsOn d' path location) :
    DependsOn d path location := by
  by_contra hn
  obtain ⟨q, hq, hl⟩ := hp
  exact hn ⟨q, hq.of_change h hd hn, h.place?_eq q ▸ hl⟩

/-- A file elsewhere is at the same location after a change. -/
theorem locate_eq_ok_of_change {path : Path} (hp : d.place? path ≠ some location)
    {declared : Declared} (hdec : declaredAt d path = .ok declared) {l : Location}
    (hl : d.locate true path = .ok l) : d'.locate true path = .ok l := by
  obtain ⟨l', bytes, hl', hb, -⟩ := declaredAt_eq_ok_iff.1 hdec
  obtain rfl := Except.ok.inj (hl.symm.trans hl')
  have hplace := Disk.place?_of_locate hd hl
  have hnode : d'.node? l = d.node? l := h.elsewhere l fun he => hp (he ▸ hplace)
  unfold Disk.bytesAt? at hb
  split at hb
  · next hn =>
    exact Disk.locate_of_place? (h.linkFree hd) (h.place?_eq path ▸ hplace) (hnode.trans hn)
  · cases hb

/-- A file that does not depend on the place of a change reads alike after it. -/
theorem alike_of_change {path : Path} (hn : ¬ DependsOn d path location) : Alike d d' path := by
  intro l declared hl hdec
  have hself := place?_ne_of_not_dependsOn hn
  refine ⟨locate_eq_ok_of_change h hd hself hdec hl, ?_, fun reference hr => ?_⟩
  · exact (declaredAt_eq_ok_iff_of_change h hd hself).2 hdec
  · exact (tried_of_change h hd hn hdec hr).2

/-- **The walk** goes as before after a change of what it does not depend on. -/
theorem loadFile_eq_ok_of_change {ancestry : List Location} {files : List Path} {path : Path}
    {loaded : Loaded} (hn : ¬ DependsOn d path location)
    (hl : loadFile d ancestry files path = .ok loaded) :
    loadFile d' ancestry files path = .ok loaded := by
  refine loadFile_eq_ok_of_alike (fun q hq => alike_of_change h hd fun hdep => hn ?_) hl
  clear hn hl
  -- the file depends on what those depend on that it extends
  induction hq using ReflTransGen.head_induction_on with
  | refl => exact hdep
  | head he _ ih => exact ih.of_extends he

/-- **A change elsewhere** leaves what a configuration loads as. -/
theorem load_eq_ok_iff_of_change {path : Path} (hn : ¬ DependsOn d path.normalize location)
    {config : Configuration} : load d' path = .ok config ↔ load d path = .ok config := by
  simp only [load_eq_ok_iff]
  have hn' : ¬ DependsOn d' path.normalize location := fun he => hn (he.of_change h hd)
  refine exists_congr fun loaded => and_congr_left fun _ => ⟨?_, ?_⟩
  · exact loadFile_eq_ok_of_change h.symm (h.linkFree hd) hn'
  · exact loadFile_eq_ok_of_change h hd hn

end

/-! ## Changes of what is consulted -/

/-- Bytes that are no text. -/
def malformed : Text.Bytes := [0xFF]

theorem ofBytes_malformed (path : Path) (declared : Declared) :
    Declared.ofBytes path malformed ≠ .ok declared := by
  have hdec : ∃ f, Text.decode malformed = .error f := ⟨_, rfl⟩
  obtain ⟨f, hf⟩ := hdec
  unfold Declared.ofBytes
  rw [hf]
  nofun

/-- **Nothing loads** that depends on a file which is no text. -/
theorem not_load_of_malformed {d : Disk} {location : Location} {executable : Bool} {path : Path}
    (hd : LinkFree d) (hn : d.node? location = some (.file malformed executable))
    (hp : DependsOn d path.normalize location) (config : Configuration) :
    load d path ≠ .ok config := by
  intro hl
  obtain ⟨q, hq, hplace⟩ := hp
  have hf : d.isFile q := (Disk.isFile_iff hd).2 ⟨_, _, _, hplace, hn⟩
  obtain ⟨declared, hdec, -⟩ :=
    (load_isOk_iff_loadable.1 ⟨config, hl⟩).readable q (hq.reflTransGen hf)
  obtain ⟨bytes, hr, hb⟩ := declaredAt_eq_ok_iff_read.1 hdec
  rw [(Disk.read_eq_ok_iff hd).2 ⟨location, executable, hplace, hn⟩] at hr
  obtain rfl := Except.ok.inj hr
  exact ofBytes_malformed q declared hb

/-! ## What is recorded -/

/-- A path of these components is among the files. -/
def Recorded (files : List Path) (q : Path) : Prop :=
  ∃ p ∈ files, p.same q

theorem recorded_addFile {files : List Path} {path q : Path} (h : Recorded files q ∨ q = path) :
    Recorded (addFile files path) q := by
  unfold addFile Recorded
  split
  · next hany =>
    rcases h with h | rfl
    · exact h
    · exact List.any_eq_true.1 hany
  · rcases h with ⟨p, hp, hs⟩ | rfl
    · exact ⟨p, List.mem_append_left _ hp, hs⟩
    · exact ⟨q, by simp, by simp [Path.same]⟩

theorem files_withOwn (path : Path) (declared : Declared) (loaded : Loaded) :
    (withOwn path declared loaded).files = loaded.files := by
  unfold withOwn
  split <;> rfl

theorem recorded_of_loadReferences {d : Disk} {ancestry : List Location} {path dir q : Path}
    (hfile : ∀ files parent loaded, loadFile d ancestry files parent = .ok loaded →
      Recorded files q ∨ ReflTransGen (Extends d) parent q → Recorded loaded.files q)
    {references : List String} {before loaded : Loaded}
    (h : loadReferences d ancestry path dir before references = .ok loaded)
    (hq : Recorded before.files q ∨ ∃ reference ∈ references, ∃ parent,
      Reference.resolve? d dir reference = some parent ∧ ReflTransGen (Extends d) parent q) :
    Recorded loaded.files q := by
  induction references generalizing before with
  | nil =>
    rw [loadReferences_nil] at h
    cases h
    simpa using hq
  | cons reference rest ih =>
    obtain ⟨parent, upper, hp, hu, hrest⟩ := loadReferences_cons_eq_ok_iff.1 h
    have hupper := hfile _ _ _ hu
    refine ih hrest ?_
    rcases hq with hq | ⟨reference', hr, parent', hp', hq⟩
    · exact .inl (hupper (.inl hq))
    · rcases List.mem_cons.1 hr with rfl | hr
      · obtain rfl := Option.some.inj (hp.symm.trans hp')
        exact .inl (hupper (.inr hq))
      · exact .inr ⟨reference', hr, parent', hp', hq⟩

/-- **The walk** records every file that it reads, and forgets none. -/
theorem recorded_of_loadFile {d : Disk} {ancestry : List Location} {files : List Path}
    {path q : Path} {loaded : Loaded} (h : loadFile d ancestry files path = .ok loaded)
    (hq : Recorded files q ∨ ReflTransGen (Extends d) path q) : Recorded loaded.files q := by
  induction ancestry using ancestry_induction (d := d) generalizing files path loaded with
  | step ancestry ih =>
    obtain ⟨l, declared, upper, hl, hv, hd, hu, rfl⟩ := loadFile_eq_ok_iff.1 h
    rw [files_withOwn]
    refine recorded_of_loadReferences (fun _ _ _ hf => ih path l declared hl hd hv hf) hu ?_
    rcases hq with hq | hq
    · exact .inl (recorded_addFile (.inl hq))
    · rcases hq.cases_head with rfl | ⟨parent, ⟨declared', hd', reference, hr, hp⟩, hq⟩
      · exact .inl (recorded_addFile (.inr rfl))
      · obtain rfl := Except.ok.inj (hd.symm.trans hd')
        exact .inr ⟨reference, hr, parent, hp, hq⟩

/-- A file that a configuration depends on is among its files. -/
theorem recorded_of_dependsOn {d : Disk} (hd : LinkFree d) {path : Path} {config : Configuration}
    (h : load d path = .ok config) {location : Location}
    {bytes : Text.Bytes} {executable : Bool}
    (hn : d.node? location = some (.file bytes executable))
    (hp : DependsOn d path.normalize location) :
    ∃ q, ReflTransGen (Extends d) path.normalize q ∧ d.place? q = some location ∧
      Recorded config.sourceFiles q := by
  obtain ⟨loaded, hl, rfl⟩ := load_eq_ok_iff.1 h
  obtain ⟨q, hq, hplace⟩ := hp
  have hreach := hq.reflTransGen ((Disk.isFile_iff hd).2 ⟨_, _, _, hplace, hn⟩)
  exact ⟨q, hreach, hplace, recorded_of_loadFile hl (.inr hreach)⟩

end Configuration

end BuildLayout
