import BuildLayout.Proofs.Config.Underway

/-!
# A lookup that is overtaken by a change

Someone rewrites a configuration file and calls `Cache.invalidate`, which drops configurations first
and directories then, while a lookup is under way. `Schedule` says how the steps of the lookup fall
around these three.

Afterwards the only thing in the cache that may be wrong is what the lookup leaves there
(`Schedule.Leaves`, `faithful_atLast_iff`). It may be wrong in two cases only, both of a lookup that
had read the file before it was rewritten. It remembered its answer after the configurations were
dropped, so that nothing drops it (`staysBehind_extendingProject`). Or it did so before, but the
file was read by another path than the one of the change (`staysBehind_climbingProject`).
-/

namespace BuildLayout

open Disk (LinkFree)
open BuildLayout.Configuration (Recorded)

namespace Cache

/-! ## The two steps of `invalidate` -/

/-- The first step of `invalidate`. -/
def dropResolved (c : Cache) (changed : Path) : Cache :=
  { c with resolved := (c.invalidate changed).resolved }

/-- The second step of `invalidate`. -/
def dropNearest (c : Cache) (changed : Path) : Cache :=
  { c with nearest := (c.invalidate changed).nearest }

theorem dropNearest_dropResolved (c : Cache) (changed : Path) :
    (c.dropResolved changed).dropNearest changed = c.invalidate changed := rfl

theorem nearestOk_dropNearest {d : Disk} {c : Cache} (hc : NearestOk d c) (changed : Path) :
    NearestOk d (c.dropNearest changed) :=
  nearestOk_of_subset hc fun _ he => List.mem_of_mem_filter he

/-- The configuration lists the changed path among its files, and is dropped. -/
def Drops (changed : Path) (r : Configuration) : Prop :=
  Recorded r.sourceFiles changed.normalize

/-- Every lookup of an absolute path answers as it does without a cache. -/
def Faithful (d : Disk) (c : Cache) : Prop :=
  ∀ file : Path, file.isAbsolute → (c.resolve d file).1 = Configuration.resolve d file

theorem get?_filter {α : Type} {entries : List (Path × α)} {p : Path} {value : α}
    {keep : Path × α → Bool} (h : get? entries p = some value)
    (hkeep : ∀ e ∈ entries, e.2 = value → keep e) : get? (entries.filter keep) p = some value := by
  obtain ⟨e, he, rfl⟩ := Option.map_eq_some_iff.1 h
  have hmem := List.mem_of_find?_eq_some he
  obtain ⟨hs, front, rest, rfl, hfront⟩ := List.find?_eq_some_iff_append.1 he
  unfold get?
  rw [List.find?_filter, Option.map_eq_some_iff]
  refine ⟨e, List.find?_eq_some_iff_append.2 ⟨?_, front, rest, rfl, fun x hx => ?_⟩, rfl⟩
  · simp [hkeep e hmem rfl, hs]
  · have hx' := hfront x hx
    simp only [Bool.not_eq_true'] at hx'
    simp [hx']

end Cache

/-- How many steps a lookup makes before a file is rewritten, from then until the configurations
are dropped, from then until the directories are dropped, and from then on. -/
structure Schedule where
  beforeRewriting : Nat
  beforeDrop : Nat
  beforeEnd : Nat
  afterwards : Nat

namespace Schedule

section
variable (σ : Schedule) (d d' : Disk) (file changed : Path) (c : Cache)

/-- The lookup and the cache when the file is rewritten. -/
def atRewriting : Lookup × Cache :=
  (Lookup.step d file)^[σ.beforeRewriting] (.start file, c)

/-- The lookup and the cache when the configurations are dropped. -/
def atDrop : Lookup × Cache :=
  (Lookup.step d' file)^[σ.beforeDrop] (σ.atRewriting d file c)

/-- The lookup and the cache when the directories are dropped. -/
def atEnd : Lookup × Cache :=
  let s := σ.atDrop d d' file c
  (Lookup.step d' file)^[σ.beforeEnd] (s.1, s.2.dropResolved changed)

/-- The lookup and the cache at last. -/
def atLast : Lookup × Cache :=
  let s := σ.atEnd d d' file changed c
  (Lookup.step d' file)^[σ.afterwards] (s.1, s.2.dropNearest changed)

/-- The lookup has answered with a configuration that is still remembered. -/
def Leaves (r : Configuration) : Prop :=
  (σ.atLast d d' file changed c).1 = .done (.ok r) ∧
    ¬ ((σ.atDrop d d' file c).1 = .done (.ok r) ∧ Cache.Drops changed r)

end

end Schedule

namespace Lookup

section
variable {d : Disk} {file : Path} {phase : Lookup} {c : Cache}

theorem iterate_done (answer : Except Failure Configuration) (c : Cache) (n : Nat) :
    (step d file)^[n] (.done answer, c) = (.done answer, c) :=
  Function.iterate_fixed rfl n

/-- A lookup that is not through goes on with the configurations that are kept. -/
theorem Inv.dropResolved {before : Cache} (h : Inv d file before.resolved (phase, c))
    (hrun : ∀ answer, phase ≠ .done answer) (changed : Path) :
    Inv d file (before.invalidate changed).resolved (phase, c.dropResolved changed) where
  nearest := h.nearest
  finds := h.finds
  origin e he := by
    obtain ⟨hm, hkept⟩ := Cache.mem_resolved_invalidate.1 he
    exact .inl (Cache.mem_resolved_invalidate.2 ⟨h.mem_before hrun hm, hkept⟩)
  kept r hr := absurd hr (hrun _)

theorem Inv.dropNearest {before : List (Path × Configuration)} {s : Lookup × Cache}
    (h : Inv d file before s) (changed : Path) :
    Inv d file before (s.1, s.2.dropNearest changed) where
  nearest := Cache.nearestOk_dropNearest h.nearest changed
  finds := h.finds
  origin := h.origin
  kept := h.kept

/-- What a lookup that is not through has loaded hinges on nothing that is remembered. -/
theorem Loads.of_not_done {Stale Stale' : Configuration → Prop} (h : Loads d file Stale phase)
    (hrun : ∀ answer, phase ≠ .done answer) : Loads d file Stale' phase := by
  cases phase with
  | done answer => exact absurd rfl (hrun answer)
  | load | store => exact h
  | _ => trivial

end

end Lookup

namespace Schedule

open Lookup (Inv Loads Entries HasRead)

/-! ## What is remembered at last -/

section
variable {d d' : Disk} {c : Cache} {location : Location} {changed file : Path}
  (hs : Cache.Ok d c) (hr : Disk.Rewritten d d' location) (ha : file.isAbsolute) (σ : Schedule)
include hs hr ha

theorem inv_atRewriting : Inv d' file c.resolved (σ.atRewriting d file c) := by
  have habs := Path.normal_absolute_of_isAbsolute ha
  exact ((Lookup.inv_start hs.nearest habs).iterate habs _).of_rewritten hr hs.linkFree

theorem inv_atDrop : Inv d' file c.resolved (σ.atDrop d d' file c) :=
  (inv_atRewriting hs hr ha σ).iterate (Path.normal_absolute_of_isAbsolute ha) _

theorem inv_afterDrop (hrun : ∀ answer, (σ.atDrop d d' file c).1 ≠ .done answer) :
    Inv d' file (c.invalidate changed).resolved
      ((σ.atDrop d d' file c).1, (σ.atDrop d d' file c).2.dropResolved changed) :=
  (inv_atDrop hs hr ha σ).dropResolved hrun changed

theorem inv_atEnd (hrun : ∀ answer, (σ.atDrop d d' file c).1 ≠ .done answer) :
    Inv d' file (c.invalidate changed).resolved (σ.atEnd d d' file changed c) :=
  (inv_afterDrop hs hr ha σ hrun).iterate (Path.normal_absolute_of_isAbsolute ha) _

theorem inv_atLast (hrun : ∀ answer, (σ.atDrop d d' file c).1 ≠ .done answer) :
    Inv d' file (c.invalidate changed).resolved (σ.atLast d d' file changed c) :=
  ((inv_atEnd hs hr ha σ hrun).dropNearest changed).iterate
    (Path.normal_absolute_of_isAbsolute ha) _

omit hs hr ha

/-- A lookup that is through when the configurations are dropped changes nothing any more. -/
theorem atLast_of_done {answer : Except Failure Configuration}
    (h : (σ.atDrop d d' file c).1 = .done answer) :
    σ.atLast d d' file changed c =
      (.done answer, (σ.atDrop d d' file c).2.invalidate changed) := by
  unfold atLast atEnd
  dsimp only
  rw [h, Lookup.iterate_done, Lookup.iterate_done, Cache.dropNearest_dropResolved]

include hs hr ha

/-- The lookup is through when the configurations are dropped, or goes on with those that are
kept. -/
theorem atLast_cases :
    (∃ answer, (σ.atDrop d d' file c).1 = .done answer ∧
      σ.atLast d d' file changed c = (.done answer, (σ.atDrop d d' file c).2.invalidate changed)) ∨
    (∀ answer, (σ.atDrop d d' file c).1 ≠ .done answer) ∧
      Inv d' file (c.invalidate changed).resolved (σ.atLast d d' file changed c) := by
  by_cases hdone : ∃ answer, (σ.atDrop d d' file c).1 = .done answer
  · obtain ⟨answer, hanswer⟩ := hdone
    exact .inl ⟨answer, hanswer, atLast_of_done σ hanswer⟩
  · exact .inr ⟨not_exists.1 hdone, inv_atLast hs hr ha σ (not_exists.1 hdone)⟩

theorem nearestOk_atLast : Cache.NearestOk d' (σ.atLast d d' file changed c).2 := by
  rcases atLast_cases hs hr ha σ with ⟨answer, -, hlast⟩ | ⟨-, hinv⟩
  · rw [hlast]
    exact Cache.nearestOk_dropNearest (inv_atDrop hs hr ha σ).nearest changed
  · exact hinv.nearest

/-- **What is remembered at last** was remembered before and kept, or is what the lookup leaves. -/
theorem mem_resolved_atLast {e : Path × Configuration}
    (he : e ∈ (σ.atLast d d' file changed c).2.resolved) :
    e ∈ (c.invalidate changed).resolved ∨
      Configuration.find d' file = .ok e.1 ∧ σ.Leaves d d' file changed c e.2 := by
  rcases atLast_cases hs hr ha σ with ⟨answer, hanswer, hlast⟩ | ⟨hrun, hinv⟩
  · rw [hlast] at he
    obtain ⟨hm, hkept⟩ := Cache.mem_resolved_invalidate.1 he
    rcases (inv_atDrop hs hr ha σ).origin e hm with hm | ⟨hfind, howns⟩
    · exact .inl (Cache.mem_resolved_invalidate.2 ⟨hm, hkept⟩)
    · refine .inr ⟨hfind, ?_, fun h => hkept h.2⟩
      rw [hlast, ← hanswer, howns]
  · rcases hinv.origin e he with hm | ⟨hfind, howns⟩
    · exact .inl hm
    · exact .inr ⟨hfind, howns, fun h => hrun _ h.1⟩

/-- What the lookup leaves is remembered. -/
theorem get?_of_leaves {r : Configuration} (h : σ.Leaves d d' file changed c r) :
    ∃ config, Configuration.find d' file = .ok config ∧
      Cache.get? (σ.atLast d d' file changed c).2.resolved config = some r := by
  obtain ⟨hanswered, hkept⟩ := h
  rcases atLast_cases hs hr ha σ with ⟨answer, hanswer, hlast⟩ | ⟨-, hinv⟩
  · rw [hlast] at hanswered ⊢
    obtain rfl : answer = .ok r := by cases hanswered; rfl
    obtain ⟨config, hfind, hget⟩ := (inv_atDrop hs hr ha σ).kept r hanswer
    refine ⟨config, hfind, Cache.get?_filter hget fun e _ he => ?_⟩
    have hnot : ¬ Cache.Drops changed e.2 := he ▸ fun h => hkept ⟨hanswer, h⟩
    simpa [Cache.Drops, Recorded] using hnot
  · exact hinv.kept r hanswered

/-- What the lookup leaves is what the lookups of the file answer from then on. -/
theorem resolve_atLast_of_leaves {r : Configuration} (h : σ.Leaves d d' file changed c r) :
    ((σ.atLast d d' file changed c).2.resolve d' file).1 = .ok r := by
  obtain ⟨config, hfind, hget⟩ := get?_of_leaves hs hr ha σ h
  have hnear := @nearestOk_atLast d d' c location changed file hs hr ha σ
  have hfound := (Cache.find_spec hnear (Path.normal_absolute_of_isAbsolute ha)).1.trans hfind
  exact Cache.resolve_of_get? hfound hget

/-- When what is kept is right, and what the lookup leaves, every answer is. -/
theorem faithful_atLast (hkept : Cache.ResolvedOk d' (c.invalidate changed))
    (hleft : ∀ r, σ.Leaves d d' file changed c r → Configuration.resolve d' file = .ok r) :
    Cache.Faithful d' (σ.atLast d d' file changed c).2 := by
  have hresolved : Cache.ResolvedOk d' (σ.atLast d d' file changed c).2 := by
    intro e he
    rcases mem_resolved_atLast hs hr ha σ he with he | ⟨hfind, hleaves⟩
    · exact hkept e he
    · have habs := Path.normal_absolute_of_isAbsolute ha
      obtain ⟨dir, hp, hdir⟩ := Configuration.exists_fileIn_of_find habs hfind
      have hload := (Cache.resolve_of_find hfind).symm.trans (hleft _ hleaves)
      exact ⟨dir, hp, hdir, hload⟩
  intro file' ha'
  exact (Cache.resolve_spec (nearestOk_atLast hs hr ha σ) hresolved
    (Path.normal_absolute_of_isAbsolute ha')).1

/-! ## When the lookup leaves what is right -/

variable (hkept : Cache.ResolvedOk d' (c.invalidate changed))
include hkept

/-- A lookup that had not read the file when it was rewritten has loaded what is right, or has come
upon what `invalidate` drops. -/
theorem loads_atDrop (hc : Cache.ResolvedOk d c)
    (hunread : ¬ HasRead d location (σ.atRewriting d file c).1) :
    Loads d' file (Cache.Drops changed) (σ.atDrop d d' file c).1 := by
  have habs := Path.normal_absolute_of_isAbsolute ha
  have hbefore : Entries d' (Cache.Drops changed) c.resolved := by
    intro e he
    obtain ⟨dir, hp, hdir, -⟩ := hc e he
    refine ⟨⟨dir, hp, hdir⟩, ?_⟩
    by_cases hrec : Cache.Drops changed e.2
    · exact .inl hrec
    · obtain ⟨-, -, -, hload⟩ := hkept e (Cache.mem_resolved_invalidate.2 ⟨he, hrec⟩)
      exact .inr hload
  have hloads : Loads d file (fun _ => False) (σ.atRewriting d file c).1 :=
    .iterate (Lookup.inv_start hs.nearest habs) trivial (Lookup.entries_of_resolvedOk hc) habs _
  have hrewritten : Loads d' file (Cache.Drops changed) (σ.atRewriting d file c).1 :=
    hloads.of_rewritten hr hs.linkFree hunread ha
  exact .iterate (inv_atRewriting hs hr ha σ) hrewritten hbefore habs _

/-- A lookup that has loaded what is right as the configurations are dropped, or has come upon what
is dropped, leaves what is right. -/
theorem resolve_of_leaves
    (hl : Loads d' file (Cache.Drops changed) (σ.atDrop d d' file c).1) {r : Configuration}
    (h : σ.Leaves d d' file changed c r) : Configuration.resolve d' file = .ok r := by
  obtain ⟨hanswered, hnot⟩ := h
  rcases atLast_cases hs hr ha σ with ⟨answer, hanswer, hlast⟩ | ⟨hrun, -⟩
  · rw [hlast] at hanswered
    obtain rfl : answer = .ok r := by cases hanswered; rfl
    rw [hanswer] at hl
    exact hl.resolve_left fun hrec => hnot ⟨hanswer, hrec⟩
  · have habs := Path.normal_absolute_of_isAbsolute ha
    have hright : Entries d' (fun _ => False) (c.invalidate changed).resolved :=
      Lookup.entries_of_resolvedOk hkept
    have hend : Loads d' file (fun _ => False) (σ.atEnd d d' file changed c).1 :=
      .iterate (inv_afterDrop hs hr ha σ hrun) (hl.of_not_done hrun) hright habs _
    have hloads : Loads d' file (fun _ => False) (σ.atLast d d' file changed c).1 :=
      .iterate ((inv_atEnd hs hr ha σ hrun).dropNearest changed) hend hright habs _
    rw [hanswered] at hloads
    exact hloads.resolve_left id

end

end Schedule

namespace Lookup

open Cache (get?)

/-- A lookup comes to what it remembers when nothing is remembered of the configuration file. -/
theorem leads_store {d : Disk} {file config : Path} {c : Cache} {loaded : Configuration}
    (hf : (c.find d file).1 = .ok config) (hk : get? c.resolved config = none)
    (hl : Configuration.load d config = .ok loaded) :
    Leads (step d file) (start file, c) (.store config loaded, (c.find d file).2) := by
  have hsearch := @leads_search d file [] (Configuration.searchDirs file) c
  have hres := Cache.find_resolved d c file
  unfold Cache.find at hf hres ⊢
  cases hs : Cache.search d c [] (Configuration.searchDirs file) with
  | mk found c' =>
    rw [hs] at hf hres hsearch
    cases found with
    | none => cases hf
    | some config' =>
      obtain rfl : config' = config := Except.ok.inj hf
      refine hsearch.trans (.head ?_)
      have hload := @leads_load d file config' c'
      rw [hl] at hload
      dsimp only [step]
      rw [show c'.resolved = c.resolved from hres, hk]
      exact hload

end Lookup

namespace Schedule

variable {d d' : Disk} {file changed config : Path} {c c' : Cache} {r : Configuration} {n : Nat}

/-- A lookup that is interrupted before it remembers what it has loaded leaves that. -/
theorem leaves_of_store
    (h : (Lookup.step d file)^[n] (.start file, c) = (.store config r, c')) :
    Leaves ⟨n, 0, 0, 1⟩ d d' file changed c r := by
  have hdrop : atDrop ⟨n, 0, 0, 1⟩ d d' file c = (.store config r, c') := h
  unfold Leaves atLast atEnd
  rw [hdrop]
  exact ⟨rfl, fun h => nomatch h.1⟩

/-- A lookup that was through leaves what is not dropped. -/
theorem leaves_of_done (h : (Lookup.step d file)^[n] (.start file, c) = (.store config r, c'))
    (hkept : ¬ Cache.Drops changed r) : Leaves ⟨n + 1, 0, 0, 0⟩ d d' file changed c r := by
  have hdrop : (atDrop ⟨n + 1, 0, 0, 0⟩ d d' file c).1 = .done (.ok r) := by
    unfold atDrop atRewriting
    rw [Function.iterate_succ_apply', h]
    rfl
  unfold Leaves
  rw [atLast_of_done _ hdrop]
  exact ⟨rfl, fun h => hkept h.2⟩

end Schedule

/-! ## Two projects in which a file is rewritten -/

/-- The project whose configuration extends `base.json`, with another output directory there. -/
def rewrittenProject : Disk :=
  extendingProject.put ["w", "base.json"] (.file (Text.encode
    "\x7b \"compilerOptions\": \x7b \"outDir\": \"b\" \x7d \x7d") false)

theorem rewritten_rewrittenProject :
    Disk.Rewritten extendingProject rewrittenProject ["w", "base.json"] :=
  .put (by decide) _ _

theorem load_rewrittenProject : Configuration.load rewrittenProject ⟨"/w/tsconfig.json"⟩ =
    .ok (extendingConfig ⟨"/w/b"⟩ ⟨"/w/base.json"⟩) := by
  have hchange := rewritten_rewrittenProject.fileChange
  have hd := hchange.linkFree extendingProject_linkFree
  have hplace : rewrittenProject.place? ⟨"/w/base.json"⟩ = some ["w", "base.json"] := by decide
  have hnode : rewrittenProject.node? ["w", "base.json"] = some (.file (Text.encode
      "\x7b \"compilerOptions\": \x7b \"outDir\": \"b\" \x7d \x7d") false) := by decide
  have hdec : Configuration.declaredAt rewrittenProject ⟨"/w/base.json"⟩ =
      .ok ⟨none, some { outDir := some "b" }⟩ :=
    Configuration.declaredAt_of_node? hd hplace hnode (by decide +kernel)
  have hf := file?_base hd hchange.sameDirectories (by decide) hnode
  have hload := load_extending hd (by decide) (by decide) (Disk.locate_of_place? hd hplace hnode)
    (by decide) hdec hf
  exact hload.trans (congrArg _ (by decide))

theorem rewritten_climbingProject :
    Disk.Rewritten (climbingProject "a") (climbingProject "b") ["w", "base.json"] where
  before := by decide
  after := by decide
  elsewhere l hl := by
    have hbase : (l == ["w", "base.json"]) = false := beq_eq_false_iff_ne.2 hl
    unfold Disk.node? climbingProject
    simp only [List.lookup_cons, hbase]
  cwd := rfl

/-! ## The main result -/

/-- **A lookup while a file is rewritten** and `invalidate` is called, their steps in any order.
From then on every lookup answers as without a cache exactly when the configuration is right that
the first one leaves, if it leaves one. So it is when the lookup had not read the file before, when
it was still searching as the configurations were dropped, and when its answer was dropped. -/
theorem faithful_atLast_iff {d d' : Disk} {c : Cache} (h : Cache.ReachedNoticed (d, c))
    {location : Location} (hr : Disk.Rewritten d d' location) {changed : Path}
    (hn : c.Noticed d location changed) {file : Path} (ha : file.isAbsolute) (σ : Schedule) :
    (Cache.Faithful d' (σ.atLast d d' file changed c).2 ↔
      ∀ r, σ.Leaves d d' file changed c r → Configuration.resolve d' file = .ok r) ∧
    (¬ Lookup.HasRead d location (σ.atRewriting d file c).1 ∨
        (σ.atDrop d d' file c).1.IsSearching ∨
        (∃ r, (σ.atDrop d d' file c).1 = .done (.ok r) ∧ Cache.Drops changed r) →
      Cache.Faithful d' (σ.atLast d d' file changed c).2) := by
  have hs := h.reached.ok
  have hkept := Cache.resolvedOk_change hs.linkFree h.resolvedOk hr.fileChange hn
  have hfaithful := Schedule.faithful_atLast hs hr ha σ hkept
  refine ⟨⟨fun hall r hleaves => ?_, hfaithful⟩, fun hcase => hfaithful fun r hleaves => ?_⟩
  · rw [← hall file ha]
    exact Schedule.resolve_atLast_of_leaves hs hr ha σ hleaves
  · rcases hcase with hunread | hsearching | ⟨r', hdone, hrec⟩
    · have hloads := Schedule.loads_atDrop hs hr ha σ hkept h.resolvedOk hunread
      exact Schedule.resolve_of_leaves hs hr ha σ hkept hloads hleaves
    · exact Schedule.resolve_of_leaves hs hr ha σ hkept hsearching.loads hleaves
    · obtain ⟨hlast, hnot⟩ := hleaves
      rw [Schedule.atLast_of_done σ hdone] at hlast
      cases hlast
      exact absurd ⟨hdone, hrec⟩ hnot

/-- A second lookup begins when the file has been rewritten, and is through, with what the first one
remembered, before that is dropped. -/
theorem faithful_atLast_iff_rewrittenProject :
    let c := (({} : Cache).resolve extendingProject ⟨"/w/a.ts"⟩).2
    Cache.Faithful rewrittenProject (Schedule.atLast ⟨0, 5, 3, 4⟩ extendingProject rewrittenProject
      ⟨"/w/a.ts"⟩ ⟨"/w/base.json"⟩ c).2 := by
  intro c
  have hlook := Cache.Step.resolve extendingProject {}
    (by decide : (⟨"/w/a.ts"⟩ : Path).isAbsolute)
  have hreached : Cache.ReachedNoticed (extendingProject, c) :=
    ⟨extendingProject, extendingProject_linkFree, .single (.look hlook)⟩
  have hnoticed : c.Noticed extendingProject ["w", "base.json"] ⟨"/w/base.json"⟩ := by
    intro e he _
    rw [resolved_extendingProject, List.mem_singleton] at he
    rw [he]
    decide
  refine (faithful_atLast_iff hreached rewritten_rewrittenProject hnoticed (by decide) _).2
    (.inl ?_)
  rintro ⟨q, -, p, hp, -⟩
  exact absurd hp List.not_mem_nil

/-! ## Answers that stay behind -/

/-- With some schedule the lookups of a file go on to answer with what the files no longer say. -/
def StaysBehind (d d' : Disk) (file changed : Path) (old new : Configuration) : Prop :=
  ∃ σ : Schedule, (σ.atLast d d' file changed {}).1 = .done (.ok old) ∧
    ((σ.atLast d d' file changed {}).2.resolve d' file).1 = .ok old ∧
    Configuration.resolve d' file = .ok new

/-- What a lookup of a file in the directory leaves stays behind what the configuration loads as. -/
theorem StaysBehind.of_leaves {d d' : Disk} (hd : LinkFree d) {location : Location}
    (hr : Disk.Rewritten d d' location) {changed : Path} {old new : Configuration} {σ : Schedule}
    (h : σ.Leaves d d' ⟨"/w/a.ts"⟩ changed {} old)
    (hnew : Configuration.load d' ⟨"/w/tsconfig.json"⟩ = .ok new) :
    StaysBehind d d' ⟨"/w/a.ts"⟩ changed old new := by
  have hd' := hr.fileChange.linkFree hd
  refine ⟨σ, h.1, ?_, (Cache.resolve_of_find (find_beside hd' hnew)).trans hnew⟩
  exact Schedule.resolve_atLast_of_leaves (Cache.reached_empty hd).ok hr (by decide) σ h

/-- A lookup that begins with an empty cache comes to remember what the configuration loads as. -/
theorem exists_leads_store {d : Disk} (hd : LinkFree d) {loaded : Configuration}
    (hl : Configuration.load d ⟨"/w/tsconfig.json"⟩ = .ok loaded) :
    ∃ c, Leads (Lookup.step d ⟨"/w/a.ts"⟩) (.start ⟨"/w/a.ts"⟩, {})
      (.store ⟨"/w/tsconfig.json"⟩ loaded, c) := by
  have hfind := (Cache.find_spec (Cache.reached_empty hd).ok.nearest (by decide)).1.trans
    (find_beside hd hl)
  exact ⟨_, Lookup.leads_store hfind rfl hl⟩

/-- **The change overtakes the lookup**, which has read what the file said before, and remembers it
after everything was dropped. -/
theorem staysBehind_extendingProject :
    StaysBehind extendingProject rewrittenProject ⟨"/w/a.ts"⟩ ⟨"/w/base.json"⟩
      (extendingConfig ⟨"/w/a"⟩ ⟨"/w/base.json"⟩) (extendingConfig ⟨"/w/b"⟩ ⟨"/w/base.json"⟩) := by
  obtain ⟨c, n, hn⟩ := exists_leads_store extendingProject_linkFree load_extendingProject
  exact .of_leaves extendingProject_linkFree rewritten_rewrittenProject
    (Schedule.leaves_of_store hn) load_rewrittenProject

/-- **Nothing is overtaken**, but the answer is not dropped: the file was read by another path. -/
theorem staysBehind_climbingProject :
    StaysBehind (climbingProject "a") (climbingProject "b") ⟨"/w/a.ts"⟩ ⟨"/w/base.json"⟩
      (extendingConfig ⟨"/w/a"⟩ climbingPath) (extendingConfig ⟨"/w/b"⟩ climbingPath) := by
  obtain ⟨c, n, hn⟩ := exists_leads_store (climbingProject_linkFree "a") load_climbingProject_a
  have hkept : ¬ Cache.Drops ⟨"/w/base.json"⟩ (extendingConfig ⟨"/w/a"⟩ climbingPath) := by
    unfold Cache.Drops Recorded
    decide
  exact .of_leaves (climbingProject_linkFree "a") rewritten_climbingProject
    (Schedule.leaves_of_done hn hkept) load_climbingProject_b

/-- **Invalidations that are lost**: of a file that was read already when it was rewritten, and of
one that was read by another path. -/
theorem staysBehind_overtaken_and_climbing :
    StaysBehind extendingProject rewrittenProject ⟨"/w/a.ts"⟩ ⟨"/w/base.json"⟩
        (extendingConfig ⟨"/w/a"⟩ ⟨"/w/base.json"⟩) (extendingConfig ⟨"/w/b"⟩ ⟨"/w/base.json"⟩) ∧
      StaysBehind (climbingProject "a") (climbingProject "b") ⟨"/w/a.ts"⟩ ⟨"/w/base.json"⟩
        (extendingConfig ⟨"/w/a"⟩ climbingPath) (extendingConfig ⟨"/w/b"⟩ climbingPath) :=
  ⟨staysBehind_extendingProject, staysBehind_climbingProject⟩

end BuildLayout
