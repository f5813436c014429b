import BuildLayout.Proofs.Disk.Place
import BuildLayout.Proofs.Settings.Reading

/-!
# Layered settings

Each `Setting` is what the environment says, or else the settings file, or else the default
settings (`Setting.Chosen`). Where every layer says only what its settings accept (`Fits`), that is
how the settings of a workspace are loaded, with one exception (`load_layered`): as soon as any
layer spells `openToSide` in small letters, as every variable does, nothing is loaded at all. The
default settings spell it the other way, so that the layers together have it twice
(`load_opentoside`).
-/

namespace BuildLayout.Settings

/-- A setting on its own. -/
inductive Setting where
  | level
  | format
  | parameters
  | development
  | openToSide
deriving DecidableEq, Repr

namespace Setting

/-- What a setting is. -/
def Kind : Setting → Type
  | .level => String
  | .format => LogFormat
  | .parameters => List String
  | .development => Bool
  | .openToSide => Bool

/-- The table that holds a setting. -/
def group : Setting → String
  | .level | .format => "logging"
  | .parameters | .development => "command"
  | .openToSide => "output"

/-- The key of a setting in its table. -/
def key : Setting → String
  | .level => "level"
  | .format => "format"
  | .parameters => "parameters"
  | .development => "development"
  | .openToSide => "openToSide"

/-- Every key under which a setting is read, its own first. -/
def keys : Setting → List String
  | .openToSide => ["openToSide", "opentoside"]
  | s => [s.key]

/-- The keys that lead to a setting. -/
def path (s : Setting) : List String := [s.group, s.key]

/-- How a setting is read. -/
def read : (s : Setting) → Value → Except Fault s.Kind
  | .level => Value.readText
  | .format => Value.readVariant "enum LogFormat" logFormats
  | .parameters => Value.readTexts
  | .development => Value.readFlag
  | .openToSide => Value.readFlag

/-- One of the settings. -/
def get : (s : Setting) → Settings → s.Kind
  | .level, r => r.logging.level
  | .format, r => r.logging.format
  | .parameters, r => r.command.parameters
  | .development, r => r.command.development
  | .openToSide, r => r.output.openToSide

/-- One of the settings as a value. -/
def valueOf : Setting → Settings → Value
  | .level, r => .scalar .default (.text r.logging.level)
  | .format, r => .scalar .default (.text r.logging.format.name)
  | .parameters, r => .list .default (r.command.parameters.map fun p => .scalar .default (.text p))
  | .development, r => .scalar .default (.flag r.command.development)
  | .openToSide, r => .scalar .default (.flag r.output.openToSide)

/-- The value is one that the setting can have. -/
def Accepts (s : Setting) (v : Value) : Prop :=
  ∃ r, s.read v = .ok (s.get r) ∧ check r = .ok r

/-- The setting is what the last variable says that says something about it, or else what the
settings file says, or else what it is by default. -/
def Chosen (s : Setting) (file? : Option Value) (vars : List (String × String)) (r : Settings) :
    Prop :=
  match latest? (vars.filterMap Environment.layer?) s.path, file?.bind (·.at? s.path) with
  | some v, _ => s.read v = .ok (s.get r)
  | none, some v => s.read v = .ok (s.get r)
  | none, none => s.get r = s.get default

/-- Settings each of which is taken from settings of its own. -/
def combine (choice : Setting → Settings) : Settings where
  logging := ⟨(choice .level).logging.level, (choice .format).logging.format⟩
  command := ⟨(choice .parameters).command.parameters, (choice .development).command.development⟩
  output := ⟨(choice .openToSide).output.openToSide⟩

theorem get_combine (choice : Setting → Settings) (s : Setting) :
    s.get (combine choice) = s.get (choice s) := by
  cases s <;> rfl

theorem key_mem_keys (s : Setting) : s.key ∈ s.keys := by
  cases s <;> exact List.mem_cons_self

/-- A key in a table belongs to one setting. -/
theorem eq_of_mem_keys {s t : Setting} (hg : s.group = t.group) {key : String} (hs : key ∈ s.keys)
    (ht : key ∈ t.keys) : s = t := by
  cases s <;> cases t <;> simp_all [group, keys, Setting.key]

/-- No setting is a table. -/
theorem Accepts.not_isTable {s : Setting} {v : Value} (h : s.Accepts v) : v.isTable = false := by
  obtain ⟨r, hread, -⟩ := h
  cases v with
  | scalar => rfl
  | list => rfl
  | table o entries =>
    cases s with
    | format =>
      change Value.readVariant "enum LogFormat" logFormats (.table o entries) = _ at hread
      cases entries with
      | nil => cases hread
      | cons e entries =>
        rw [Value.readVariant] at hread
        split at hread <;> cases hread
    | _ => cases hread

end Setting

/-! ## What makes sense -/

theorem check_eq_ok_iff {r : Settings} : check r = .ok r ↔
    r.logging.level ∈ levels ∧ r.command.parameters.any Text.isAllBlank = false := by
  unfold check
  split
  · simp_all
  · split <;> simp_all

/-- Whether settings make sense depends on each of them alone. -/
theorem check_combine {choice : Setting → Settings} (h : ∀ s, check (choice s) = .ok (choice s)) :
    check (Setting.combine choice) = .ok (Setting.combine choice) :=
  check_eq_ok_iff.2 ⟨(check_eq_ok_iff.1 (h .level)).1, (check_eq_ok_iff.1 (h .parameters)).2⟩

theorem readTextsFrom_map (o : Origin) (index : Nat) (texts : List String) :
    readTextsFrom index (texts.map fun p => .scalar o (.text p)) = .ok texts := by
  induction texts generalizing index with
  | nil => rfl
  | cons p texts ih =>
    rw [List.map_cons, readTextsFrom, ih]
    rfl

/-- Settings as a value have each setting where it is looked for. -/
theorem at?_toValue (r : Settings) (s : Setting) : r.toValue.at? s.path = some (s.valueOf r) := by
  cases s <;>
    simp [toValue, Setting.path, Setting.group, Setting.key, Setting.valueOf, Value.at?_table,
      Value.at?_nil, Value.lookup_sortEntries, Value.lookup_cons]

theorem read_valueOf (r : Settings) (s : Setting) : s.read (s.valueOf r) = .ok (s.get r) := by
  cases s with
  | format =>
    obtain ⟨⟨_, format⟩, _, _⟩ := r
    cases format <;> rfl
  | parameters => exact readTextsFrom_map .default 0 r.command.parameters
  | _ => rfl

theorem check_default : check default = .ok default := by
  rw [check_eq_ok_iff]
  decide

theorem at?_toValue_opentoside (r : Settings) : r.toValue.at? ["output", "opentoside"] = none := by
  simp [toValue, Value.at?_table, Value.lookup_sortEntries, Value.lookup_cons]

theorem accepts_level {o : Origin} {level : String} (h : level ∈ levels) :
    Setting.level.Accepts (.scalar o (.text level)) :=
  ⟨{ default with logging := ⟨level, .pretty⟩ }, rfl,
    check_eq_ok_iff.2 ⟨h, (check_eq_ok_iff.1 check_default).2⟩⟩

theorem accepts_flag {s : Setting} (hs : s = .development ∨ s = .openToSide) (o : Origin)
    (b : Bool) : s.Accepts (.scalar o (.flag b)) := by
  have hcheck : ∀ r : Settings, r.logging = default.logging →
      r.command.parameters = default.command.parameters → check r = .ok r := fun r hl hp =>
    check_eq_ok_iff.2 (hl ▸ hp ▸ check_eq_ok_iff.1 check_default)
  rcases hs with rfl | rfl
  · exact ⟨{ default with command := { default.command with development := b } }, rfl,
      hcheck _ rfl rfl⟩
  · exact ⟨{ default with output := ⟨b⟩ }, rfl, hcheck _ rfl rfl⟩

/-! ## What layers say -/

/-- What a layer says of settings: its tables are tables, and everything in them is accepted. -/
structure Fits (layer : Value) : Prop where
  tables : ∀ (s : Setting) (v : Value), layer.at? [s.group] = some v → v.isTable
  values : ∀ (s : Setting), ∀ key ∈ s.keys, ∀ v : Value,
    layer.at? [s.group, key] = some v → s.Accepts v

theorem Fits.clear {layer : Value} (h : Fits layer) (ht : layer.isTable) {s : Setting}
    {key : String} (hkey : key ∈ s.keys) : layer.Clear [s.group, key] := by
  refine ⟨ht, fun v hv => ⟨h.tables s v hv, fun w hw => ?_⟩⟩
  refine (h.values s key hkey w ?_).not_isTable
  rw [Value.at?_cons, hv]
  exact hw

/-- A layer that says one thing fits if that is accepted. -/
theorem fits_nest {s : Setting} {v : Value} (h : s.Accepts v) (o : Origin) {key : String}
    (hkey : key ∈ s.keys) : Fits (.nest o v [s.group, key]) where
  tables t w hw := by
    rw [Value.at?_nest] at hw
    split at hw
    · rw [Value.at?_nil] at hw
      obtain rfl := Option.some.inj hw
      rfl
    · cases hw
  values t other hother w hw := by
    rw [Value.at?_nest] at hw
    split at hw
    · next hg =>
      rw [Value.at?_nest] at hw
      split at hw
      · next hk =>
        obtain rfl := Setting.eq_of_mem_keys hg (hk ▸ hother) hkey
        rw [Value.nest, Value.at?_nil] at hw
        exact Option.some.inj hw ▸ h
      · cases hw
    · cases hw

/-- What the settings file holds is a sorted table. -/
theorem isTable_fileLayer? {d : Disk} {workspace : Path} {file? : Option Value}
    (h : fileLayer? d workspace = .ok file?) : ∀ v ∈ file?, v.isTable ∧ v.Ordered := by
  unfold fileLayer? at h
  split at h
  · unfold readFile at h
    split at h
    · cases h
    · split at h
      · cases h
      · split at h
        · cases h
        · next v hparse =>
          cases h
          rintro w ⟨⟩
          obtain ⟨⟨entries, rfl⟩, ho⟩ := Toml.ordered_parse? hparse
          exact ⟨rfl, ho⟩
  · cases h
    nofun

theorem fileLayer?_of_node? {d : Disk} (hd : d.LinkFree) {workspace : Path} {l : Location}
    {bytes : Text.Bytes} {executable : Bool} (hplace : d.place? (fileOf workspace) = some l)
    (hnode : d.node? l = some (.file bytes executable)) {s : String}
    (hs : Text.decode bytes = .ok s) {v : Value} (hv : Toml.parse? s = some v) :
    fileLayer? d workspace = .ok (some v) := by
  have hfile : d.isFile (fileOf workspace) := (Disk.isFile_iff hd).2 ⟨_, _, _, hplace, hnode⟩
  have hread := (Disk.read_eq_ok_iff hd).2 ⟨_, _, hplace, hnode⟩
  unfold fileLayer? readFile
  rw [if_pos hfile, hread]
  dsimp only
  rw [hs]
  dsimp only
  rw [hv]
  rfl

section
variable {file? : Option Value} {vars : List (String × String)}
  (hfile : ∀ v ∈ file?, v.isTable ∧ v.Ordered) (hfits : ∀ layer ∈ given file? vars, Fits layer)
include hfile

theorem isTable_of_mem_given {layer : Value} (h : layer ∈ given file? vars) : layer.isTable := by
  rcases List.mem_append.1 h with h | h
  · exact (hfile layer (Option.mem_toList.1 h)).1
  · obtain ⟨var, -, hvar⟩ := List.mem_filterMap.1 h
    exact Environment.isTable_layer? hvar

include hfits

/-- What all the layers together say under a key of a setting. -/
theorem at?_layers_of_fits {s : Setting} {key : String} (hkey : key ∈ s.keys) :
    (layers file? vars).at? [s.group, key] =
      (latest? (given file? vars) [s.group, key]).or (default.toValue.at? [s.group, key]) :=
  at?_layers (fun v hv => (hfile v hv).2) fun layer hlayer =>
    (hfits layer hlayer).clear (isTable_of_mem_given hfile hlayer) hkey

/-- **Each setting** has a value in the layers, the one that was chosen. -/
theorem exists_chosen (s : Setting) : ∃ v, (layers file? vars).at? s.path = some v ∧ s.Accepts v ∧
    ∀ r, s.read v = .ok (s.get r) → s.Chosen file? vars r := by
  have hat : (layers file? vars).at? s.path =
      (latest? (given file? vars) s.path).or (default.toValue.at? s.path) :=
    at?_layers_of_fits hfile hfits s.key_mem_keys
  have hgiven : latest? (given file? vars) s.path =
      (latest? (vars.filterMap Environment.layer?) s.path).or (file?.bind (·.at? s.path)) := by
    rw [given, latest?_append]
    cases file? <;> simp [latest?]
  unfold Setting.Chosen
  cases hlatest : latest? (given file? vars) s.path with
  | some v =>
    obtain ⟨layer, hlayer, hv⟩ := exists_of_latest? hlatest
    refine ⟨v, by rw [hat, hlatest, Option.some_or],
      (hfits layer hlayer).values s s.key s.key_mem_keys v hv, fun r hr => ?_⟩
    rw [hgiven] at hlatest
    cases hvars : latest? (vars.filterMap Environment.layer?) s.path with
    | some w =>
      rw [hvars] at hlatest
      obtain rfl := Option.some.inj hlatest
      exact hr
    | none =>
      rw [hvars, Option.none_or] at hlatest
      rw [hlatest]
      exact hr
  | none =>
    refine ⟨s.valueOf default, by rw [hat, hlatest, Option.none_or, at?_toValue],
      ⟨default, read_valueOf default s, check_default⟩, fun r hr => ?_⟩
    rw [hgiven] at hlatest
    obtain ⟨hvars, hfile⟩ := Option.or_eq_none_iff.1 hlatest
    rw [hvars, hfile]
    exact Except.ok.inj (hr.symm.trans (read_valueOf default s))

/-- Settings that make sense, each of them as it was chosen. -/
theorem exists_settings : ∃ r, check r = .ok r ∧ ∀ s : Setting, s.Chosen file? vars r ∧
    ∃ v, (layers file? vars).at? s.path = some v ∧ s.read v = .ok (s.get r) := by
  choose v hat haccepts hchosen using exists_chosen hfile hfits
  choose choice hread hcheck using haccepts
  have hcombine : ∀ s : Setting, s.read (v s) = .ok (s.get (Setting.combine choice)) := fun s => by
    rw [Setting.get_combine, hread]
  exact ⟨Setting.combine choice, check_combine hcheck, fun s =>
    ⟨hchosen s _ (hcombine s), v s, hat s, hcombine s⟩⟩

end

/-! ## Reading the layers -/

section
variable {v : Value} (ho : v.Ordered) {r : Settings}
  (hr : ∀ s : Setting, ∃ w, v.at? s.path = some w ∧ s.read w = .ok (s.get r))
include ho hr

/-- Where each setting is at its place, everything but how an output file is shown can be read. -/
theorem read_of_at? : ∃ output w, v.at? ["output"] = some output ∧ output.Ordered ∧
    output.at? ["openToSide"] = some w ∧ w.readFlag = .ok r.output.openToSide ∧
    shape.read v = (below "output" (outputShape.read output)).map fun view =>
      ⟨r.logging, r.command, view⟩ := by
  have hgroup : ∀ s : Setting, ∃ group w, v.at? [s.group] = some group ∧ group.Ordered ∧
      group.at? [s.key] = some w ∧ s.read w = .ok (s.get r) := fun s => by
    obtain ⟨w, hw, hread⟩ := hr s
    rw [Setting.path, Value.at?_cons] at hw
    obtain ⟨group, hgroup, hw⟩ := Option.bind_eq_some_iff.1 hw
    exact ⟨group, w, hgroup, ho.of_at? hgroup, hw, hread⟩
  obtain ⟨logging, level, hlogging, hol, hlevel, hreadLevel⟩ := hgroup .level
  obtain ⟨logging', format, hlogging', -, hformat, hreadFormat⟩ := hgroup .format
  obtain ⟨command, parameters, hcommand, hoc, hparameters, hreadParameters⟩ := hgroup .parameters
  obtain ⟨command', development, hcommand', -, hdevelopment, hreadDevelopment⟩ :=
    hgroup .development
  obtain ⟨output, w, houtput, hoo, hw, hread⟩ := hgroup .openToSide
  obtain rfl : logging = logging' := Option.some.inj (hlogging.symm.trans hlogging')
  obtain rfl : command = command' := Option.some.inj (hcommand.symm.trans hcommand')
  exact ⟨output, w, houtput, hoo, hw, hread, read_settings ho hlogging hcommand houtput
    (read_logging hol hlevel hformat hreadLevel hreadFormat)
    (read_command hoc hparameters hdevelopment hreadParameters hreadDevelopment)⟩

theorem read_of_at?_none (h : v.at? ["output", "opentoside"] = none) : shape.read v = .ok r := by
  obtain ⟨output, w, houtput, hoo, hw, hread, hshape⟩ := read_of_at? ho hr
  rw [Value.at?_cons, houtput, Option.bind_some] at h
  rw [hshape, read_output hoo hw h hread]
  rfl

theorem read_of_at?_some {x : Value} (h : v.at? ["output", "opentoside"] = some x) :
    ∃ origin, shape.read v = .error ⟨.duplicateField "openToSide", ["output"], origin⟩ := by
  obtain ⟨output, w, houtput, hoo, hw, hread, hshape⟩ := read_of_at? ho hr
  rw [Value.at?_cons, houtput, Option.bind_some] at h
  rw [hshape, read_output_of_both hoo hw h hread]
  exact ⟨output.origin, rfl⟩

end

/-- Settings are read back from their value. -/
theorem read_toValue (r : Settings) : shape.read r.toValue = .ok r :=
  read_of_at?_none (ordered_toValue r) (fun s => ⟨_, at?_toValue r s, read_valueOf r s⟩)
    (at?_toValue_opentoside r)

/-! ## Loading -/

section
variable {d : Disk} {vars : List (String × String)} {workspace : Path} {file? : Option Value}
  (hfile : fileLayer? d workspace = .ok file?) (hfits : ∀ layer ∈ given file? vars, Fits layer)
include hfile

theorem load_eq : load d vars workspace = match shape.read (layers file? vars) with
    | .error fault => .error (.unfit fault (shown d (fileOf workspace)))
    | .ok s => check s := by
  unfold load
  rw [hfile]
  rfl

theorem ordered_layers_of_fileLayer? : (layers file? vars).Ordered :=
  ordered_layers (fun v hv => (isTable_fileLayer? hfile v hv).2) vars

include hfits

/-- The default settings never spell `openToSide` in small letters. -/
theorem at?_layers_opentoside : (layers file? vars).at? ["output", "opentoside"] =
    latest? (given file? vars) ["output", "opentoside"] := by
  have hkey : "opentoside" ∈ Setting.openToSide.keys := by decide
  have hlayers := at?_layers_of_fits (isTable_fileLayer? hfile) hfits hkey
  rwa [Setting.group, at?_toValue_opentoside, Option.or_none] at hlayers

theorem exists_load
    (h : ∀ layer ∈ given file? vars, layer.at? ["output", "opentoside"] = none) :
    ∃ r, load d vars workspace = .ok r ∧ ∀ s : Setting, s.Chosen file? vars r := by
  obtain ⟨r, hcheck, hr⟩ := exists_settings (isTable_fileLayer? hfile) hfits
  have hat := (at?_layers_opentoside hfile hfits).trans (latest?_eq_none_iff.2 h)
  refine ⟨r, ?_, fun s => (hr s).1⟩
  rw [load_eq hfile,
    read_of_at?_none (ordered_layers_of_fileLayer? hfile) (fun s => (hr s).2) hat]
  exact hcheck

/-- The default settings spell `openToSide` in their own way, so that there are two of it. -/
theorem load_opentoside
    (h : ∃ layer ∈ given file? vars, (layer.at? ["output", "opentoside"]).isSome) :
    ∃ origin, load d vars workspace =
      .error (.unfit ⟨.duplicateField "openToSide", ["output"], origin⟩
        (shown d (fileOf workspace))) := by
  obtain ⟨r, -, hr⟩ := exists_settings (isTable_fileLayer? hfile) hfits
  obtain ⟨layer, hlayer, hsome⟩ := h
  cases hlatest : latest? (given file? vars) ["output", "opentoside"] with
  | none =>
    rw [latest?_eq_none_iff.1 hlatest layer hlayer] at hsome
    cases hsome
  | some x =>
    obtain ⟨origin, hread⟩ := read_of_at?_some (ordered_layers_of_fileLayer? hfile)
      (fun s => (hr s).2) ((at?_layers_opentoside hfile hfits).trans hlatest)
    exact ⟨origin, by rw [load_eq hfile, hread]⟩

end

/-! ## A configured workspace -/

namespace Value

mutual

/-- Values are compared part by part. -/
def decEq : (v w : Value) → Decidable (v = w)
  | .scalar o s, .scalar p t =>
    decidable_of_iff (o = p ∧ s = t) (by rw [scalar.injEq])
  | .list o vs, .list p ws =>
    have := decEqItems vs ws
    decidable_of_iff (o = p ∧ vs = ws) (by rw [list.injEq])
  | .table o es, .table p fs =>
    have := decEqEntries es fs
    decidable_of_iff (o = p ∧ es = fs) (by rw [table.injEq])
  | .scalar .., .list .. | .scalar .., .table .. | .list .., .scalar .. | .list .., .table ..
  | .table .., .scalar .. | .table .., .list .. => isFalse nofun

/-- Items are compared in order. -/
def decEqItems : (vs ws : List Value) → Decidable (vs = ws)
  | [], [] => isTrue rfl
  | v :: vs, w :: ws =>
    have := decEq v w
    have := decEqItems vs ws
    decidable_of_iff (v = w ∧ vs = ws) (by rw [List.cons.injEq])
  | [], _ :: _ | _ :: _, [] => isFalse nofun

/-- Entries are compared in order. -/
def decEqEntries : (es fs : List (String × Value)) → Decidable (es = fs)
  | [], [] => isTrue rfl
  | (k, v) :: es, (l, w) :: fs =>
    have := decEq v w
    have := decEqEntries es fs
    decidable_of_iff ((k = l ∧ v = w) ∧ es = fs) (by rw [List.cons.injEq, Prod.mk.injEq])
  | [], _ :: _ | _ :: _, [] => isFalse nofun

end

instance : DecidableEq Value := decEq

end Value

/-- A workspace whose settings file sets the level of the log. -/
def configuredWorkspace : Disk where
  nodes := [
    (["w"], .directory),
    (["w", "airship.toml"], .file (Text.encode "[logging]\nlevel = \"warn\"\n") false)]
  cwd := []

/-- A variable for the same setting, and one for another. -/
def configuredVariables : List (String × String) :=
  [("AIRSHIP__LOGGING__LEVEL", "debug"), ("AIRSHIP__COMMAND__DEVELOPMENT", "true")]

/-- What the settings file of the workspace says. -/
def configuredLayer : Value := .nest .file (.scalar .file (.text "warn")) ["logging", "level"]

theorem fileLayer?_configuredWorkspace :
    fileLayer? configuredWorkspace ⟨"/w"⟩ = .ok (some configuredLayer) :=
  fileLayer?_of_node? (Disk.linkFree_of_forall_mem (by simp [configuredWorkspace]))
    (l := ["w", "airship.toml"]) (by decide) rfl (s := "[logging]\nlevel = \"warn\"\n")
    (by decide +kernel) (by decide +kernel)

theorem layers_configuredVariables : configuredVariables.filterMap Environment.layer? = [
    .nest .environment (.scalar .environment (.text "debug")) ["logging", "level"],
    .nest .environment (.scalar .environment (.flag true)) ["command", "development"]] := by
  decide +kernel

theorem fits_configuredWorkspace :
    ∀ layer ∈ given (some configuredLayer) configuredVariables, Fits layer := by
  unfold given
  rw [layers_configuredVariables]
  simp only [Option.toList_some, List.cons_append, List.nil_append, List.forall_mem_cons]
  exact ⟨fits_nest (accepts_level (by decide)) _ (by decide),
    fits_nest (accepts_level (by decide)) _ (by decide),
    fits_nest (accepts_flag (.inl rfl) _ _) _ (by decide), nofun⟩

/-! ## The main result -/

/-- **The settings of a workspace** whose layers say only what the settings accept: each is what the
environment says, or else the settings file, or else the default settings. But if any layer spells
`openToSide` in small letters nothing is loaded. -/
theorem load_layered {d : Disk} {vars : List (String × String)} {workspace : Path}
    {file? : Option Value} (hfile : fileLayer? d workspace = .ok file?)
    (hfits : ∀ layer ∈ given file? vars, Fits layer) :
    ((∀ layer ∈ given file? vars, layer.at? ["output", "opentoside"] = none) →
      ∃ r, load d vars workspace = .ok r ∧ ∀ s : Setting, s.Chosen file? vars r) ∧
    ((∃ layer ∈ given file? vars, (layer.at? ["output", "opentoside"]).isSome) →
      ∃ origin, load d vars workspace =
        .error (.unfit ⟨.duplicateField "openToSide", ["output"], origin⟩
          (shown d (fileOf workspace)))) :=
  ⟨exists_load hfile hfits, load_opentoside hfile hfits⟩

/-- The variables count before the settings file, and that before the default settings. -/
theorem load_layered_configuredWorkspace :
    fileLayer? configuredWorkspace ⟨"/w"⟩ = .ok (some configuredLayer) ∧
    (∀ layer ∈ given (some configuredLayer) configuredVariables, Fits layer) ∧
    ∃ r, load configuredWorkspace configuredVariables ⟨"/w"⟩ = .ok r ∧
      r.logging.level = "debug" ∧ r.logging.format = .pretty ∧ r.command.development = true := by
  refine ⟨fileLayer?_configuredWorkspace, fits_configuredWorkspace, ?_⟩
  have hnone : ∀ layer ∈ given (some configuredLayer) configuredVariables,
      layer.at? ["output", "opentoside"] = none := by
    unfold given
    rw [layers_configuredVariables]
    decide
  obtain ⟨r, hload, hr⟩ :=
    (load_layered fileLayer?_configuredWorkspace fits_configuredWorkspace).1 hnone
  unfold Setting.Chosen at hr
  rw [layers_configuredVariables] at hr
  have hlevel : Except.ok "debug" = Except.ok r.logging.level := hr .level
  exact ⟨r, hload, (Except.ok.inj hlevel).symm, hr .format,
    (Except.ok.inj (hr .development)).symm⟩

/-- A variable that says what no other layer says, and says it well, leaves nothing to load. -/
theorem not_load_of_variable :
    let d : Disk := ⟨[(["w"], .directory)], []⟩
    let vars := [("AIRSHIP__OUTPUT__OPENTOSIDE", "false")]
    fileLayer? d ⟨"/w"⟩ = .ok none ∧
      given none vars =
        [.nest .environment (.scalar .environment (.flag false)) ["output", "opentoside"]] ∧
      (∀ layer ∈ given none vars, Fits layer) ∧ ¬∃ r, load d vars ⟨"/w"⟩ = .ok r := by
  intro d vars
  have hd : d.LinkFree := Disk.linkFree_of_forall_mem (by simp [d])
  have hfree : d.isFile (fileOf ⟨"/w"⟩) = false := by
    rw [Bool.eq_false_iff, ne_eq, Disk.isFile_iff hd]
    rintro ⟨l, bytes, executable, hl, hn⟩
    have hplace : d.place? (fileOf ⟨"/w"⟩) = some ["w", "airship.toml"] := by decide
    obtain rfl := Option.some.inj (hplace.symm.trans hl)
    cases hn
  have hfile : fileLayer? d ⟨"/w"⟩ = .ok none := by
    unfold fileLayer?
    rw [hfree]
    rfl
  have hgiven : given none vars =
      [.nest .environment (.scalar .environment (.flag false)) ["output", "opentoside"]] := by
    decide +kernel
  have hfits : ∀ layer ∈ given none vars, Fits layer := by
    rw [hgiven]
    exact List.forall_mem_singleton.2 (fits_nest (accepts_flag (.inr rfl) _ _) _ (by decide))
  refine ⟨hfile, hgiven, hfits, fun ⟨r, hr⟩ => ?_⟩
  have hsome : ∃ layer ∈ given none vars, (layer.at? ["output", "opentoside"]).isSome := by
    rw [hgiven]
    decide
  obtain ⟨origin, herror⟩ := load_opentoside hfile hfits hsome
  rw [hr] at herror
  cases herror

end BuildLayout.Settings
