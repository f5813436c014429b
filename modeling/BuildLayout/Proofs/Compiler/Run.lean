import BuildLayout.Compiler.Run
import BuildLayout.Proofs.Text.Utf8

/-!
# What is passed on of a run of the compiler

`byteLines` gives the only way to cut bytes into lines (`byteLines_eq_iff`). Of these the lines up to
the first one that is no text are passed on (`forwarded_spec`), so a program that prints lines of text
is passed on as it is, with its carriage returns dropped (`forwarded_encode`).

A compiler is run in its directory, whatever runs it, and everything that comes of the run is reported
(`Invocation.run_eq_ok_iff`); otherwise it is refused with the program as the culprit
(`Invocation.run_eq_error_iff`).
-/

namespace BuildLayout

open Text (Bytes encode decode)

/-! ## Lines -/

/-- The lines that bytes are made of, each with a newline behind it, except that the last one may be
without one when it is not empty. -/
inductive IsLines : List (Bytes × Bool) → Bytes → Prop
  | nil : IsLines [] []
  | ended {line rest : Bytes} {lines : List (Bytes × Bool)} (h : 10 ∉ line)
      (hrest : IsLines lines rest) : IsLines ((line, true) :: lines) (line ++ 10 :: rest)
  | last {line : Bytes} (h : 10 ∉ line) (hne : line ≠ []) : IsLines [(line, false)] line

theorem byteLines_append_newline {line : Bytes} (h : 10 ∉ line) (rest : Bytes) :
    byteLines (line ++ 10 :: rest) = (line, true) :: byteLines rest := by
  induction line with
  | nil => rfl
  | cons b line ih =>
    have hb : b ≠ 10 := fun hb => h (hb ▸ .head _)
    rw [List.cons_append, byteLines, if_neg hb, ih fun hm => h (.tail _ hm)]

theorem byteLines_of_not_mem {line : Bytes} (h : 10 ∉ line) (hne : line ≠ []) :
    byteLines line = [(line, false)] := by
  induction line with
  | nil => exact absurd rfl hne
  | cons b line ih =>
    have hb : b ≠ 10 := fun hb => h (hb ▸ .head _)
    rw [byteLines, if_neg hb]
    cases line with
    | nil => rfl
    | cons next line => rw [ih (fun hm => h (.tail _ hm)) (List.cons_ne_nil _ _)]

/-- A byte that is no newline goes to the first line. -/
theorem isLines_cons {lines : List (Bytes × Bool)} {bytes : Bytes} {b : UInt8} (hb : b ≠ 10) :
    IsLines lines bytes → IsLines (match lines with
      | [] => [([b], false)]
      | (line, ended) :: lines => (b :: line, ended) :: lines) (b :: bytes) := by
  intro h
  have hmem : ∀ {line : Bytes}, 10 ∉ line → 10 ∉ b :: line := by
    intro line hline hm
    rcases List.mem_cons.1 hm with h | h
    · exact hb h.symm
    · exact hline h
  cases h with
  | nil => exact .last (hmem List.not_mem_nil) (List.cons_ne_nil _ _)
  | ended hline hrest => exact .ended (hmem hline) hrest
  | last hline => exact .last (hmem hline) (List.cons_ne_nil _ _)

/-- **The lines of bytes** are the only ones that they are made of. -/
theorem byteLines_eq_iff {bytes : Bytes} {lines : List (Bytes × Bool)} :
    byteLines bytes = lines ↔ IsLines lines bytes := by
  constructor
  · rintro rfl
    induction bytes with
    | nil => exact .nil
    | cons b bytes ih =>
      rw [byteLines]
      split
      · next hb =>
        subst hb
        exact .ended List.not_mem_nil ih
      · next hb => exact isLines_cons hb ih
  · intro h
    induction h with
    | nil => rfl
    | ended h _ ih => rw [byteLines_append_newline h, ih]
    | last h hne => exact byteLines_of_not_mem h hne

/-! ## What is passed on -/

/-- **The lines up to the first that is no text** are passed on, each with a newline. -/
theorem forwardedLines_spec (lines : List (Bytes × Bool)) :
    ∃ (passed rest : List (Bytes × Bool)) (texts : List String), lines = passed ++ rest ∧
      passed.map (fun l => dropReturn l.1 l.2) = texts.map encode ∧
      (∀ l ∈ rest.head?, ∀ s, dropReturn l.1 l.2 ≠ encode s) ∧
      forwardedLines lines = String.join (texts.map (· ++ "\n")) := by
  induction lines with
  | nil => exact ⟨[], [], [], rfl, rfl, by simp, rfl⟩
  | cons l lines ih =>
    obtain ⟨line, ended⟩ := l
    rw [forwardedLines]
    cases h : decode (dropReturn line ended) with
    | error fault =>
      refine ⟨[], _, [], rfl, rfl, ?_, rfl⟩
      rintro l ⟨⟩ s hs
      rw [Text.decode_eq_ok_iff.2 hs] at h
      cases h
    | ok s =>
      obtain ⟨passed, rest, texts, rfl, htexts, hrest, hjoin⟩ := ih
      refine ⟨(line, ended) :: passed, rest, s :: texts, rfl, ?_, hrest, ?_⟩
      · rw [List.map_cons, List.map_cons, htexts, Text.decode_eq_ok_iff.1 h]
      · rw [hjoin, List.map_cons, String.join_cons]

/-- **What is passed on of bytes** are the texts of their lines, each with a newline, up to the first
line that is no text. -/
theorem forwarded_spec (bytes : Bytes) :
    ∃ (passed rest : List (Bytes × Bool)) (texts : List String), IsLines (passed ++ rest) bytes ∧
      passed.map (fun l => dropReturn l.1 l.2) = texts.map encode ∧
      (∀ l ∈ rest.head?, ∀ s, dropReturn l.1 l.2 ≠ encode s) ∧
      forwarded bytes = String.join (texts.map (· ++ "\n")) := by
  obtain ⟨passed, rest, texts, hlines, hspec⟩ := forwardedLines_spec (byteLines bytes)
  exact ⟨passed, rest, texts, byteLines_eq_iff.1 hlines, hspec⟩

/-- A carriage return is dropped, and nothing is passed on behind a byte that is no text. -/
example : forwarded [0x61, 13, 10, 0xE9, 10, 0x62] = "a\n" := by decide

/-- What stands before the newline of a line of text. -/
def returnOf (returns : Bool) : String := if returns then "\r" else ""

/-- A carriage return before the newline is dropped, and nothing else is. -/
theorem dropReturn_encode {s : String} {returns : Bool}
    (h : returns = false → s.toList.getLast? ≠ some '\r') :
    dropReturn (encode (s ++ returnOf returns)) true = encode s := by
  cases returns with
  | true =>
    have hencode : encode (s ++ "\r") = encode s ++ [13] := Text.encode_append s "\r"
    show dropReturn (encode (s ++ "\r")) true = encode s
    rw [hencode]
    simp [dropReturn]
  | false =>
    show dropReturn (encode (s ++ "")) true = encode s
    rw [String.append_empty, dropReturn, if_neg]
    simp only [Bool.true_and, beq_iff_eq]
    exact fun hlast => h rfl (Text.getLast?_of_encode (by decide) hlast)

theorem newline_not_mem_encode {s : String} {returns : Bool} (h : '\n' ∉ s.toList) :
    10 ∉ encode (s ++ returnOf returns) := by
  rw [Text.mem_encode_iff (by decide), String.toList_append, List.mem_append]
  rintro (hs | hr)
  · exact h hs
  · cases returns <;> exact absurd hr (by decide)

/-- **Lines of text are passed on** as they are, without carriage returns before their newlines. -/
theorem forwarded_encode (lines : List (String × Bool))
    (h : ∀ l ∈ lines, '\n' ∉ l.1.toList ∧ (l.2 = false → l.1.toList.getLast? ≠ some '\r')) :
    forwarded (encode (String.join (lines.map fun l => l.1 ++ returnOf l.2 ++ "\n"))) =
      String.join (lines.map (·.1 ++ "\n")) := by
  induction lines with
  | nil => rfl
  | cons l lines ih =>
    obtain ⟨s, returns⟩ := l
    obtain ⟨hnewline, hreturn⟩ := h _ (.head _)
    have hnl : encode "\n" = [10] := by decide
    rw [List.map_cons, String.join_cons, Text.encode_append, Text.encode_append, hnl,
      List.append_assoc, List.singleton_append, forwarded,
      byteLines_append_newline (newline_not_mem_encode hnewline), forwardedLines,
      dropReturn_encode hreturn, Text.decode_encode, List.map_cons, String.join_cons]
    exact congrArg (s ++ "\n" ++ ·) (ih fun l hl => h l (.tail _ hl))

/-! ## The run -/

namespace Invocation

variable {launch : Launcher} {d : Disk} {vars : List (String × String)} {i : Invocation}

/-- **What comes of the compiler** in its directory is reported: the disk as it leaves it, but with the
current directory of before, what it prints, and its exit code. -/
theorem run_eq_ok_iff {r : CompilerRun} :
    i.run launch d vars = .ok r ↔ ∃ cwd run, i.directory d = .ok cwd ∧
      launch { d with cwd } vars i.program.text i.args = .ok run ∧
      r = ⟨{ run.disk with cwd := d.cwd }, forwarded run.out, forwarded run.err,
        run.exit?.getD 1⟩ := by
  unfold run
  cases hdir : i.directory d with
  | error e => simp [bind, Except.bind]
  | ok cwd =>
    cases hrun : launch { d with cwd } vars i.program.text i.args with
    | error e => simp [bind, Except.bind, hrun]
    | ok run => simp [bind, Except.bind, hrun, killedExit, eq_comm]

/-- **A compiler that does not run** is reported with the program. -/
theorem run_eq_error_iff {f : Failure} :
    i.run launch d vars = .error f ↔ ∃ e : OsError, f = .io (some i.program) e.text ∧
      (i.directory d = .error e ∨ ∃ cwd, i.directory d = .ok cwd ∧
        launch { d with cwd } vars i.program.text i.args = .error e) := by
  unfold run
  cases hdir : i.directory d with
  | error e => simp [bind, Except.bind, eq_comm]
  | ok cwd =>
    cases hrun : launch { d with cwd } vars i.program.text i.args with
    | error e => simp [bind, Except.bind, hrun, eq_comm]
    | ok run => simp [bind, Except.bind, hrun]

end Invocation

end BuildLayout
