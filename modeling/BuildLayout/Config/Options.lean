import BuildLayout.Config.Declared
import BuildLayout.Path.Normal

/-! # Merging compiler options

`Options` are compiler options whose paths were resolved against the directory of the file that
declares them. `Options.override` lays one set over another: a present option replaces, an absent
one lets the one below through.
-/

namespace BuildLayout

/-- Compiler options merged over several files. -/
structure Options where
  rootDir : Option Path := none
  rootDirs : Option (List Path) := none
  outDir : Option Path := none
  declaration : Option Bool := none
  declarationDir : Option Path := none
  composite : Option Bool := none
deriving DecidableEq, Repr

namespace Options

/-- The options of a file in the directory `dir`. -/
def ofDeclared (dir : Path) (o : DeclaredOptions) : Options :=
  let resolve (text : String) : Path := dir.resolveAgainst ⟨text⟩
  { rootDir := o.rootDir.map resolve
    rootDirs := o.rootDirs.map (·.map resolve)
    outDir := o.outDir.map resolve
    declaration := o.declaration
    declarationDir := o.declarationDir.map resolve
    composite := o.composite }

/-- The options `upper` over the options `lower`. -/
def override (lower upper : Options) : Options where
  rootDir := upper.rootDir.or lower.rootDir
  rootDirs := upper.rootDirs.or lower.rootDirs
  outDir := upper.outDir.or lower.outDir
  declaration := upper.declaration.or lower.declaration
  declarationDir := upper.declarationDir.or lower.declarationDir
  composite := upper.composite.or lower.composite

/-- Declarations are emitted: as `declaration` says, or else as `composite` says. -/
def emitsDeclarations (o : Options) : Bool :=
  o.declaration.getD (o.composite.getD false)

end Options

end BuildLayout
