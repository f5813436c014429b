import BuildLayout.CommandLine.Execute
import BuildLayout.Proofs.Component.Written
import BuildLayout.Proofs.Emit.Located

/-!
# What the program does to the disk

A disk is only changed where a component is created or the compiler runs (`command_of_execute_ne`).
Only `compile` depends on how programs are run (`execute_congr`); everything else keeps what is on the
disk (`execute_keeps`).
-/

namespace BuildLayout.CommandLine

open Disk (Keeps IsTree LinkFree pathOf)

variable {launch : Launcher} {d : Disk} {vars : List (String × String)}

theorem Request.isSettled_directory {r : Request} (hcwd : (pathOf d.cwd).IsSettled) :
    (r.directory d).IsSettled := by
  unfold directory
  cases r.workspace with
  | none => exact hcwd
  | some dir => exact Path.isSettled_resolveAgainst hcwd.isAbsolute dir

/-- The directory of a component is settled, given or not. -/
theorem isSettled_componentDir {workspace : Path} (h : workspace.IsSettled) (dir : Option Path) :
    (match dir with
      | some dir => workspace.resolveAgainst dir
      | none => Component.defaultDir workspace).IsSettled := by
  cases dir with
  | some dir => exact Path.isSettled_resolveAgainst h.isAbsolute dir
  | none =>
    have hplain : Path.IsPlain "src" ∧ Path.IsPlain "Shared" := by
      unfold Path.IsPlain Path.IsName
      decide
    exact (h.child hplain.1).child hplain.2

section
variable {settings : Settings} {workspace : Path} {layout : Layout} {command : Command}

theorem carryOut_congr (launch launch' : Launcher) (h : command ≠ .compile) :
    carryOut launch d vars settings workspace layout command =
      carryOut launch' d vars settings workspace layout command := by
  cases command with
  | compile => exact absurd rfl h
  | _ => rfl

theorem carryOut_keeps (hd : LinkFree d) (ht : IsTree d) (hw : workspace.IsSettled)
    (h : command ≠ .compile) :
    Keeps d (carryOut launch d vars settings workspace layout command).2 := by
  cases command with
  | compile => exact absurd rfl h
  | createComponent name dir kind =>
    exact (Component.creates_of_create
      (Prod.eta (Component.create d _ name kind)).symm).keeps hd ht (isSettled_componentDir hw dir)
  | _ => exact .refl d

theorem command_of_carryOut_ne
    (h : (carryOut launch d vars settings workspace layout command).2 ≠ d) :
    command = .compile ∨ ∃ name dir kind, command = .createComponent name dir kind := by
  cases command with
  | compile => exact .inl rfl
  | createComponent name dir kind => exact .inr ⟨name, dir, kind, rfl⟩
  | _ => exact absurd rfl h

end

/-- The arguments do not ask for a run of the compiler. -/
def NoCompile (args : List String) : Prop :=
  ∀ r, Request.ofArguments args = .ok r → r.command ≠ .compile

/-- **A request** changes nothing on the disk, or it is carried out with the settings. -/
theorem execute_cases (args : List String) :
    (execute launch d vars args).2 = d ∨ ∃ r settings, Request.ofArguments args = .ok r ∧
      Settings.load d vars (r.directory d) = .ok settings ∧
      (execute launch d vars args).2 =
        (carryOut launch d vars settings (r.directory d) r.layout r.command).2 := by
  unfold execute
  cases hr : Request.ofArguments args with
  | error stop => cases stop <;> exact .inl rfl
  | ok r =>
    simp only [Request.run]
    cases hs : Settings.load d vars (r.directory d) with
    | error f => exact .inl rfl
    | ok settings => exact .inr ⟨r, settings, rfl, hs, rfl⟩

/-- **Only the compiler is run as a program**: another command gives the same reply, and leaves the same
disk, however programs are run. -/
theorem execute_congr (launch launch' : Launcher) {args : List String} (h : NoCompile args) :
    execute launch d vars args = execute launch' d vars args := by
  unfold execute
  cases hr : Request.ofArguments args with
  | error stop => cases stop <;> rfl
  | ok r =>
    simp only [Request.run]
    cases Settings.load d vars (r.directory d) with
    | error f => rfl
    | ok settings => simp only [carryOut_congr launch launch' (h r hr)]

/-- **What is on the disk stays** where the compiler is not run. -/
theorem execute_keeps (hd : LinkFree d) (ht : IsTree d) (hcwd : (pathOf d.cwd).IsSettled)
    {args : List String} (h : NoCompile args) : Keeps d (execute launch d vars args).2 := by
  rcases execute_cases args with heq | ⟨r, settings, hr, -, heq⟩
  · rw [heq]
    exact .refl d
  · rw [heq]
    exact carryOut_keeps hd ht (Request.isSettled_directory hcwd) (h r hr)

/-- **A disk is changed** only where a component is created or the compiler runs. -/
theorem command_of_execute_ne {args : List String} (h : (execute launch d vars args).2 ≠ d) :
    ∃ r, Request.ofArguments args = .ok r ∧
      (r.command = .compile ∨ ∃ name dir kind, r.command = .createComponent name dir kind) := by
  rcases execute_cases args with heq | ⟨r, settings, hr, -, heq⟩
  · exact absurd heq h
  · rw [heq] at h
    exact ⟨r, hr, command_of_carryOut_ne h⟩

end BuildLayout.CommandLine
