import BuildLayout.Proofs.Config.Remembered
import BuildLayout.Proofs.Path.Normal

/-!
# A cache above a disk that stays as it is

While the disk stays as it is, a cache changes no answer: whatever operations came before, each
lookup through the cache gives the configuration file, the configuration or the failure that it
gives without one (`answers_eq_map_answerAlone`). Nothing is asked of the disk, which may hold links,
nor of the paths, which may be relative and spelled in any way.

A lookup goes through directories that are spelled by their components (`Path.IsCanonical`,
`upward_searchDirs`), so entries are found again only by the path they were made for. The entries
are `Sound` when each is what the search upwards from its directory finds, or what its file loads
as; every operation keeps them so (`Operation.run_spec`).
-/

namespace BuildLayout

open Disk (pathOf)

namespace Path

/-! ## Paths that are spelled by their components -/

/-- The text is that of the components: names from the root on, or steps from anywhere. -/
def IsCanonical (p : Path) : Prop :=
  (∃ names, (∀ s ∈ names, IsName s) ∧ p = pathOf names) ∨
    ∃ cs, (∀ c ∈ cs, IsStep c) ∧ p = ofComponents cs

theorem isCanonical_pathOf {names : Location} (h : ∀ s ∈ names, IsName s) :
    IsCanonical (pathOf names) := .inl ⟨names, h, rfl⟩

theorem isCanonical_ofComponents {cs : List Component} (h : ∀ c ∈ cs, IsStep c) :
    IsCanonical (ofComponents cs) := .inr ⟨cs, h, rfl⟩

/-- Such paths are the same place only when they are equal. -/
theorem IsCanonical.eq_of_same {p q : Path} (hp : p.IsCanonical) (hq : q.IsCanonical)
    (h : p.same q) : p = q := by
  have hc : p.components = q.components := beq_iff_eq.1 h
  have ha : p.isAbsolute = q.isAbsolute := by
    rw [Bool.eq_iff_iff, ← root_mem_components, ← root_mem_components, hc]
  obtain ⟨names, hn, rfl⟩ | ⟨cs, hs, rfl⟩ := hp <;>
    obtain ⟨names', hn', rfl⟩ | ⟨cs', hs', rfl⟩ := hq
  · rw [components_pathOf_inj hn hn' hc]
  · rw [isAbsolute_pathOf, isAbsolute_ofComponents hs'] at ha
    cases ha
  · rw [isAbsolute_pathOf, isAbsolute_ofComponents hs] at ha
    cases ha
  · rw [components_ofComponents hs, components_ofComponents hs'] at hc
    rw [hc]

/-- A name may be put behind such a path. -/
theorem IsCanonical.child {p : Path} (h : p.IsCanonical) {s : String} (hs : IsName s) :
    (p.child s).IsCanonical := by
  obtain ⟨names, hn, rfl⟩ | ⟨cs, hc, rfl⟩ := h
  · rw [child_pathOf hn (isAbsolute_of_isName hs)]
    refine isCanonical_pathOf fun t ht => ?_
    rcases List.mem_append.1 ht with ht | ht
    · exact hn t ht
    · exact List.mem_singleton.1 ht ▸ hs
  · have hchild : (ofComponents cs).child s = ofComponents (cs ++ [.name s]) :=
      (ofComponents_concat cs (.name s)).symm
    rw [hchild]
    refine isCanonical_ofComponents fun c hm => ?_
    rcases List.mem_append.1 hm with hm | hm
    · exact hc c hm
    · exact List.mem_singleton.1 hm ▸ hs

theorem parent?_ofComponents_nil : (ofComponents []).parent? = none := by decide

/-- What is above a path in normal form is spelled by its components. -/
theorem isCanonical_parent?_normalize {p dir : Path} (h : p.normalize.parent? = some dir) :
    dir.IsCanonical := by
  have hn := isName_normal p
  cases ha : p.normal.absolute with
  | true =>
    rw [normalize_of_absolute ha] at h
    generalize p.normal.names = names at h hn
    cases names using List.reverseRecOn with
    | nil =>
      rw [parent?_pathOf_nil] at h
      cases h
    | append_singleton names s =>
      rw [parent?_pathOf_concat hn] at h
      exact Option.some.inj h ▸ isCanonical_pathOf fun t ht => hn t (by simp [ht])
  | false =>
    have hsteps := isStep_steps p
    rw [normalize_of_relative ha] at h
    generalize p.normal.steps = cs at h hsteps
    split at h
    · have hroot : (⟨"."⟩ : Path).parent? = some (ofComponents []) := by decide
      rw [hroot] at h
      exact Option.some.inj h ▸ isCanonical_ofComponents (by simp)
    · cases cs using List.reverseRecOn with
      | nil =>
        rw [parent?_ofComponents_nil] at h
        cases h
      | append_singleton cs c =>
        rw [parent?_ofComponents_concat hsteps] at h
        exact Option.some.inj h ▸ isCanonical_ofComponents fun b hb => hsteps b (by simp [hb])

/-! ## Ways up -/

/-- Each of the directories is spelled by its components, and those after it are the ones above
it. -/
inductive Upward : List Path → Prop
  | nil : Upward []
  | cons {dir : Path} {dirs : List Path} :
      dir.IsCanonical → dir.ancestors = dir :: dirs → Upward dirs → Upward (dir :: dirs)

theorem ancestors_ofComponents {cs : List Component} (h : ∀ c ∈ cs, IsStep c) :
    (ofComponents cs).ancestors = cs.inits.reverse.map ofComponents := by
  unfold ancestors
  rw [components_ofComponents h]
  induction cs using List.reverseRecOn with
  | nil => rfl
  | append_singleton cs c ih =>
    rw [List.length_append, List.length_singleton, ancestorsUpTo, parent?_ofComponents_concat h]
    simp [List.inits_append, ih fun b hb => h b (by simp [hb])]

/-- **The way up** from a path that is spelled by its components. -/
theorem upward_ancestors {p : Path} (h : p.IsCanonical) : Upward p.ancestors := by
  obtain ⟨names, hn, rfl⟩ | ⟨cs, hc, rfl⟩ := h
  · induction names using List.reverseRecOn with
    | nil => exact .cons (isCanonical_pathOf hn) rfl .nil
    | append_singleton names s ih =>
      have hn' : ∀ t ∈ names, IsName t := fun t ht => hn t (by simp [ht])
      have heq : (pathOf (names ++ [s])).ancestors =
          pathOf (names ++ [s]) :: (pathOf names).ancestors := by
        rw [ancestors_pathOf hn, ancestors_pathOf hn', Disk.upwards_concat, List.map_cons]
      rw [heq]
      exact .cons (isCanonical_pathOf hn) heq (ih hn')
  · induction cs using List.reverseRecOn with
    | nil => exact .cons (isCanonical_ofComponents hc) rfl .nil
    | append_singleton cs c ih =>
      have hc' : ∀ b ∈ cs, IsStep b := fun b hb => hc b (by simp [hb])
      have heq : (ofComponents (cs ++ [c])).ancestors =
          ofComponents (cs ++ [c]) :: (ofComponents cs).ancestors := by
        rw [ancestors_ofComponents hc, ancestors_ofComponents hc']
        simp [List.inits_append]
      rw [heq]
      exact .cons (isCanonical_ofComponents hc) heq (ih hc')

end Path

namespace Configuration

open BuildLayout.Path (IsCanonical Upward upward_ancestors)

/-- The directories of a lookup are a way up. -/
theorem upward_searchDirs (file : Path) : Upward (searchDirs file) := by
  unfold searchDirs
  split
  · exact .nil
  · next dir hd => exact upward_ancestors (Path.isCanonical_parent?_normalize hd)

/-- The configuration file of the first of the directories that holds one. -/
def firstIn (d : Disk) (dirs : List Path) : Option Path :=
  (dirs.find? fun dir => d.isFile (candidateIn dir)).map candidateIn

theorem firstIn_cons (d : Disk) (dir : Path) (dirs : List Path) :
    firstIn d (dir :: dirs) =
      if d.isFile (candidateIn dir) then some (candidateIn dir) else firstIn d dirs := by
  unfold firstIn
  rw [List.find?_cons]
  cases d.isFile (candidateIn dir) <;> rfl

/-- **A lookup without a cache** finds the configuration file of the first directory with one. -/
theorem find_eq_firstIn (d : Disk) (file : Path) :
    find d file = match firstIn d (searchDirs file) with
      | some config => .ok config
      | none => .error (.configNotFound file.normalize) := by
  unfold find firstIn
  cases (searchDirs file).find? fun dir => d.isFile (candidateIn dir) <;> rfl

theorem isCanonical_of_firstIn {d : Disk} {dirs : List Path} (h : Upward dirs) {config : Path}
    (hf : firstIn d dirs = some config) : config.IsCanonical := by
  induction h with
  | nil => cases hf
  | cons hc _ _ ih =>
    rw [firstIn_cons] at hf
    split at hf
    · exact Option.some.inj hf ▸ hc.child Reference.isPlain_configName.1
    · exact ih hf

end Configuration

namespace Cache

open BuildLayout.Configuration
open BuildLayout.Path (IsCanonical Upward)

/-! ## Sound entries -/

/-- Each entry is under a path spelled by its components, and is what the search upwards from there
finds or what the file loads as. -/
structure Sound (d : Disk) (c : Cache) : Prop where
  nearest : ∀ e ∈ c.nearest, e.1.IsCanonical ∧ firstIn d e.1.ancestors = some e.2
  resolved : ∀ e ∈ c.resolved, e.1.IsCanonical ∧ load d e.1 = .ok e.2

theorem sound_empty (d : Disk) : Sound d {} :=
  ⟨fun _ he => absurd he List.not_mem_nil, fun _ he => absurd he List.not_mem_nil⟩

/-- Fewer entries are sound as well. -/
theorem Sound.of_subset {d : Disk} {c c' : Cache} (h : Sound d c)
    (hn : ∀ e ∈ c'.nearest, e ∈ c.nearest) (hr : ∀ e ∈ c'.resolved, e ∈ c.resolved) :
    Sound d c' :=
  ⟨fun e he => h.nearest e (hn e he), fun e he => h.resolved e (hr e he)⟩

section
variable {d : Disk} {c : Cache} (hc : Sound d c)
include hc

theorem Sound.addNearest {dirs : List Path} {config : Path}
    (h : ∀ dir ∈ dirs, dir.IsCanonical ∧ firstIn d dir.ancestors = some config) :
    Sound d (c.addNearest dirs config) := by
  refine ⟨fun e he => ?_, hc.resolved⟩
  rcases mem_of_mem_addNearest he with ⟨hm, h2⟩ | he
  · exact h2 ▸ h e.1 hm
  · exact hc.nearest e he

/-- The entry of a directory. -/
theorem Sound.firstIn_of_get? {dir config : Path} (hdir : dir.IsCanonical)
    (h : get? c.nearest dir = some config) : firstIn d dir.ancestors = some config := by
  obtain ⟨q, hq, hs⟩ := get?_eq_some h
  obtain ⟨hqc, hf⟩ := hc.nearest _ hq
  rwa [hqc.eq_of_same hdir hs] at hf

/-- **The search with a cache** answers as the one without, and adds sound entries only. -/
theorem Sound.search {dirs : List Path} (hup : Upward dirs) {passed : List Path}
    (hpass : ∀ dir ∈ passed, dir.IsCanonical ∧ firstIn d dir.ancestors = firstIn d dirs) :
    (search d c passed dirs).1 = firstIn d dirs ∧ Sound d (search d c passed dirs).2 := by
  induction hup generalizing passed with
  | nil => exact ⟨rfl, hc⟩
  | @cons dir dirs hdir hanc _ ih =>
    rw [Cache.search]
    split
    · next config hg =>
      have hf := hc.firstIn_of_get? hdir hg
      rw [hanc] at hf
      exact ⟨hf.symm, hc.addNearest fun p hp => ⟨(hpass p hp).1, (hpass p hp).2.trans hf⟩⟩
    · have hcons := firstIn_cons d dir dirs
      dsimp only
      split
      · next hfile =>
        rw [if_pos hfile] at hcons
        refine ⟨hcons.symm, hc.addNearest fun p hp => ?_⟩
        rcases List.mem_cons.1 hp with rfl | hp
        · exact ⟨hdir, hanc ▸ hcons⟩
        · exact ⟨(hpass p hp).1, (hpass p hp).2.trans hcons⟩
      · next hfile =>
        rw [if_neg hfile] at hcons
        rw [hcons]
        refine ih fun p hp => ?_
        rcases List.mem_append.1 hp with hp | hp
        · exact ⟨(hpass p hp).1, (hpass p hp).2.trans hcons⟩
        · obtain rfl := List.mem_singleton.1 hp
          exact ⟨hdir, by rw [hanc, hcons]⟩

/-- A lookup of the configuration file. -/
theorem Sound.find (file : Path) :
    (c.find d file).1 = Configuration.find d file ∧ Sound d (c.find d file).2 := by
  obtain ⟨h1, h2⟩ := hc.search (upward_searchDirs file) fun _ hp => absurd hp List.not_mem_nil
  rw [find_eq_firstIn]
  unfold Cache.find
  cases hs : Cache.search d c [] (searchDirs file) with
  | mk answer c' =>
    rw [hs] at h1 h2
    dsimp only at h1 h2
    rw [← h1]
    cases answer <;> exact ⟨rfl, h2⟩

/-- What is remembered of a configuration file. -/
theorem Sound.load_of_get? {config : Path} (hconfig : config.IsCanonical) {known : Configuration}
    (h : get? c.resolved config = some known) : load d config = .ok known := by
  obtain ⟨q, hq, hs⟩ := get?_eq_some h
  obtain ⟨hqc, hl⟩ := hc.resolved _ hq
  rwa [hqc.eq_of_same hconfig hs] at hl

/-- A lookup of the configuration. -/
theorem Sound.resolve (file : Path) :
    (c.resolve d file).1 = Configuration.resolve d file ∧ Sound d (c.resolve d file).2 := by
  obtain ⟨h1, h2⟩ := hc.find file
  unfold Cache.resolve Configuration.resolve
  rw [← h1]
  cases hf : c.find d file with
  | mk answer c' =>
    rw [hf] at h1 h2
    have hanswer : answer = Configuration.find d file := h1
    cases answer with
    | error f => exact ⟨rfl, h2⟩
    | ok config =>
      have hconfig : config.IsCanonical := by
        rw [find_eq_firstIn] at hanswer
        split at hanswer
        · next hfirst =>
          exact Except.ok.inj hanswer ▸ isCanonical_of_firstIn (upward_searchDirs file) hfirst
        · cases hanswer
      dsimp only
      split
      · next known hk => exact ⟨(h2.load_of_get? hconfig hk).symm, h2⟩
      · split
        · next f hl => exact ⟨hl.symm, h2⟩
        · next loaded hl =>
          refine ⟨hl.symm, h2.nearest, fun e he => ?_⟩
          rcases mem_of_mem_insert he with rfl | he
          · exact ⟨hconfig, hl⟩
          · exact h2.resolved e he

end

/-! ## Runs -/

/-- One operation. It does not matter which of the resolvers that share a cache it goes through:
they hold nothing but the cache. -/
inductive Operation where
  | find (file : Path)
  | resolve (file : Path)
  | invalidate (changed : Path)
  | clear

/-- What an operation answers. -/
inductive Answer where
  | file (answer : Except Failure Path)
  | configuration (answer : Except Failure Configuration)
  | done

/-- An operation through a cache. -/
def Operation.run (d : Disk) (c : Cache) : Operation → Answer × Cache
  | .find file => (.file (c.find d file).1, (c.find d file).2)
  | .resolve file => (.configuration (c.resolve d file).1, (c.resolve d file).2)
  | .invalidate changed => (.done, c.invalidate changed)
  | .clear => (.done, {})

/-- What an operation answers without a cache. -/
def Operation.answerAlone (d : Disk) : Operation → Answer
  | .find file => .file (Configuration.find d file)
  | .resolve file => .configuration (Configuration.resolve d file)
  | .invalidate _ | .clear => .done

/-- The answers of operations one after the other through a cache. -/
def answers (d : Disk) (c : Cache) : List Operation → List Answer
  | [] => []
  | op :: ops => (op.run d c).1 :: answers d (op.run d c).2 ops

/-- **One operation** answers as without a cache, and keeps the entries sound. -/
theorem Operation.run_spec {d : Disk} {c : Cache} (hc : Sound d c) (op : Operation) :
    (op.run d c).1 = op.answerAlone d ∧ Sound d (op.run d c).2 := by
  cases op with
  | find file =>
    obtain ⟨h1, h2⟩ := hc.find file
    simp only [run, answerAlone, h1]
    exact ⟨trivial, h2⟩
  | resolve file =>
    obtain ⟨h1, h2⟩ := hc.resolve file
    simp only [run, answerAlone, h1]
    exact ⟨trivial, h2⟩
  | invalidate changed =>
    exact ⟨rfl, hc.of_subset (fun _ he => List.mem_of_mem_filter he)
      fun _ he => List.mem_of_mem_filter he⟩
  | clear => exact ⟨rfl, sound_empty d⟩

/-- **A whole run** answers as without a cache. -/
theorem answers_of_sound {d : Disk} {c : Cache} (hc : Sound d c) (ops : List Operation) :
    answers d c ops = ops.map (Operation.answerAlone d) := by
  induction ops generalizing c with
  | nil => rfl
  | cons op ops ih =>
    obtain ⟨h1, h2⟩ := op.run_spec hc
    rw [answers, List.map_cons, h1, ih h2]

/-! ## The main result -/

/-- **A cache changes no answer** while the disk stays as it is: every operation of a run that
starts with an empty cache answers as it does without one. -/
theorem answers_eq_map_answerAlone (d : Disk) (ops : List Operation) :
    answers d {} ops = ops.map (Operation.answerAlone d) :=
  answers_of_sound (sound_empty d) ops

end Cache

end BuildLayout
