import BuildLayout.Proofs.Settings.Layers
import Mathlib.Data.List.Perm.Basic

/-!
# Reading records from sorted tables

A record is read from those entries of a table whose keys it knows (`readEntries_eq_filter`), and a
sorted table has at most one entry for each of them. So a record depends only on what each of its
keys leads to (`read_eq`).

For the tables of the settings this says what is read when every field is there (`read_logging`,
`read_command`, `read_output`, `read_settings`). `openToSide` is the one field with a second
spelling, `opentoside`: a table that has it under both is refused, whatever it is there
(`read_output_of_both`).
-/

namespace BuildLayout.Settings

namespace Value

/-! ## Entries under given keys -/

/-- The entries of a sorted table under given keys, found key by key. -/
theorem filter_eq_filterMap_lookup {entries : List (String × Value)} (h : Sorted entries)
    {keys : List String} (hkeys : keys.Pairwise (· < ·)) :
    entries.filter (fun e => keys.contains e.1) =
      keys.filterMap fun k => (entries.lookup k).map (k, ·) := by
  have hsorted : Sorted (keys.filterMap fun k => (entries.lookup k).map (k, ·)) := by
    refine hkeys.filterMap _ fun k l hlt e he f hf => ?_
    obtain ⟨v, -, rfl⟩ := Option.map_eq_some_iff.1 he
    obtain ⟨w, -, rfl⟩ := Option.map_eq_some_iff.1 hf
    exact hlt
  have hfilter : Sorted (entries.filter fun e => keys.contains e.1) := h.filter _
  have hmem : ∀ e, e ∈ entries.filter (fun e => keys.contains e.1) ↔
      e ∈ keys.filterMap fun k => (entries.lookup k).map (k, ·) := by
    rintro ⟨k, v⟩
    simp [lookup_eq_some_iff h, and_comm]
  -- Two sorted lists of the same entries are the same list.
  have hnodup : ∀ {es : List (String × Value)}, Sorted es → es.Nodup := fun h =>
    h.imp fun hlt he => absurd (congrArg Prod.fst he) (ne_of_lt hlt)
  exact List.Perm.eq_of_pairwise (fun e f _ _ hef hfe => absurd (hef.trans hfe) (lt_irrefl _))
    hfilter hsorted ((List.perm_ext_iff_of_nodup (hnodup hfilter) (hnodup hsorted)).2 hmem)

end Value

/-! ## Records -/

namespace Shape

variable {σ : Type}

/-- Entries under other keys do not matter. -/
theorem readEntries_eq_filter (shape : Shape σ) {keys : List String}
    (hkeys : ∀ f ∈ shape.fields, f.name :: f.otherNames ⊆ keys) (o : Origin) (seen : List String)
    (record : σ) (entries : List (String × Value)) :
    shape.readEntries o seen record entries =
      shape.readEntries o seen record (entries.filter fun e => keys.contains e.1) := by
  induction entries generalizing seen record with
  | nil => rfl
  | cons first entries ih =>
    obtain ⟨key, v⟩ := first
    by_cases hkey : key ∈ keys
    · rw [List.filter_cons_of_pos (by simpa using hkey), readEntries, readEntries]
      split
      · exact ih seen record
      · split
        · rfl
        · split
          · rfl
          · exact ih _ _
    · rw [List.filter_cons_of_neg (by simpa using hkey), readEntries]
      have hnone : (shape.fields.find? fun f => f.name = key || f.otherNames.contains key) =
          none := by
        rw [List.find?_eq_none]
        intro f hf hk
        rw [Bool.or_eq_true, decide_eq_true_eq, List.contains_iff_mem] at hk
        exact hkey (hkeys f hf (List.mem_cons.2 (hk.imp_left Eq.symm)))
      rw [hnone]
      exact ih seen record

/-- **Reading a record** from a sorted table: what counts is what each of its keys leads to. -/
theorem read_eq (shape : Shape σ) {keys : List String} (hsorted : keys.Pairwise (· < ·))
    (hkeys : ∀ f ∈ shape.fields, f.name :: f.otherNames ⊆ keys) {v : Value} (ho : v.Ordered)
    (ht : v.isTable) :
    shape.read v = shape.readEntries v.origin [] shape.blank
      (keys.filterMap fun k => (v.at? [k]).map (k, ·)) := by
  obtain ⟨o, entries, rfl⟩ := Value.exists_table ht
  cases ho with
  | table hs _ =>
    simp only [Value.at?_key]
    rw [read, readEntries_eq_filter shape hkeys, Value.filter_eq_filterMap_lookup hs hsorted]
    rfl

end Shape

/-! ## The tables of the settings -/

theorem read_logging {v level format : Value} (ho : v.Ordered) (hl : v.at? ["level"] = some level)
    (hf : v.at? ["format"] = some format) {l : String} (hlevel : level.readText = .ok l)
    {f : LogFormat} (hformat : format.readVariant "enum LogFormat" logFormats = .ok f) :
    loggingShape.read v = .ok ⟨l, f⟩ := by
  have hsorted : ["format", "level"].Pairwise (· < ·) := by decide
  rw [loggingShape.read_eq hsorted (by simp [loggingShape]) ho (Value.isTable_of_at? hl)]
  simp [hl, hf, Shape.readEntries, loggingShape, hlevel, hformat, below, Except.map]

theorem read_command {v parameters development : Value} (ho : v.Ordered)
    (hp : v.at? ["parameters"] = some parameters) (hd : v.at? ["development"] = some development)
    {ps : List String} (hparameters : parameters.readTexts = .ok ps)
    {b : Bool} (hdevelopment : development.readFlag = .ok b) :
    commandShape.read v = .ok ⟨ps, b⟩ := by
  have hsorted : ["development", "parameters"].Pairwise (· < ·) := by decide
  rw [commandShape.read_eq hsorted (by simp [commandShape]) ho (Value.isTable_of_at? hp)]
  simp [hp, hd, Shape.readEntries, commandShape, hparameters, hdevelopment, below, Except.map]

/-- How an output file is shown, where only one spelling of the field is used. -/
theorem read_output {v openToSide : Value} (ho : v.Ordered)
    (hs : v.at? ["openToSide"] = some openToSide) (hother : v.at? ["opentoside"] = none)
    {b : Bool} (hopen : openToSide.readFlag = .ok b) : outputShape.read v = .ok ⟨b⟩ := by
  have hsorted : ["openToSide", "opentoside"].Pairwise (· < ·) := by decide
  rw [outputShape.read_eq hsorted (by simp [outputShape]) ho (Value.isTable_of_at? hs)]
  simp [hs, hother, Shape.readEntries, outputShape, hopen, below, Except.map]

/-- **Both spellings** of one field in one table are one too many. -/
theorem read_output_of_both {v openToSide other : Value} (ho : v.Ordered)
    (hs : v.at? ["openToSide"] = some openToSide) (hother : v.at? ["opentoside"] = some other)
    {b : Bool} (hopen : openToSide.readFlag = .ok b) :
    outputShape.read v = .error ⟨.duplicateField "openToSide", [], v.origin⟩ := by
  have hsorted : ["openToSide", "opentoside"].Pairwise (· < ·) := by decide
  rw [outputShape.read_eq hsorted (by simp [outputShape]) ho (Value.isTable_of_at? hs)]
  simp [hs, hother, Shape.readEntries, outputShape, hopen, below, Except.map]

/-- Settings are read table by table, that of the output last. -/
theorem read_settings {v logging command output : Value} (ho : v.Ordered)
    (hl : v.at? ["logging"] = some logging) (hc : v.at? ["command"] = some command)
    (hp : v.at? ["output"] = some output)
    {l : Logging} (hlogging : loggingShape.read logging = .ok l)
    {c : CompilerCommand} (hcommand : commandShape.read command = .ok c) :
    shape.read v =
      (below "output" (outputShape.read output)).map fun view => ⟨l, c, view⟩ := by
  have hsorted : ["command", "logging", "output"].Pairwise (· < ·) := by decide
  rw [shape.read_eq hsorted (by simp [shape]) ho (Value.isTable_of_at? hl)]
  cases houtput : outputShape.read output <;>
    simp [hl, hc, hp, Shape.readEntries, shape, hlogging, hcommand, houtput, below, Except.map]

end BuildLayout.Settings
