import BuildLayout.Report
import Mathlib.Tactic.MkIffOfInductiveProp
import Mathlib.Tactic.SplitIfs

/-!
# Reports as JSON and back

A report is written as an object and read from an object or a list, and whatever is read is read
back from what is written of it (`ofJson_toJson_of_ofJson`):

* `Denotes` says what a value has to be in order to stand for a report; it is what is read, from
  objects (`ofJson_object_eq_ok_iff`) and from lists (`ofJson_array_eq_ok_iff`). The fields of an
  object are read one by one into the parts of a report, and `Tell` says what they amount to.
* The one report that does not come back is one with `null` for details (`ofJson_toJson_iff`), since
  a `null` is read as no details. No such report is read (`details_ne_null_of_ofJson`), and no
  failure has one (`details?_ne_null`).
-/

namespace BuildLayout

namespace Report

open Json (field? stringOrNull)

/-! ## Single parts -/

theorem map_eq_ok_iff {ε α β : Type} {e : Except ε α} {f : α → β} {b : β} :
    e.map f = .ok b ↔ ∃ a, e = .ok a ∧ f a = b := by
  cases e with
  | error err => simp [Except.map]
  | ok a => simp [Except.map]

theorem bind_eq_ok_iff {ε α β : Type} {e : Except ε α} {f : α → Except ε β} {b : β} :
    e >>= f = .ok b ↔ ∃ a, e = .ok a ∧ f a = .ok b := by
  cases e with
  | error err => simp [bind, Except.bind]
  | ok a => simp [bind, Except.bind]

theorem readText_eq_ok_iff {v : Json} {s : String} : readText v = .ok s ↔ v = .string s := by
  cases v <;> simp [readText]

theorem readText?_eq_ok_iff {v : Json} {part : Option String} :
    readText? v = .ok part ↔ v = stringOrNull part := by
  cases v <;> cases part <;> simp [readText?, readText, stringOrNull, Except.map]

theorem readAny?_ne_null (v : Json) : readAny? v ≠ some .null := by
  cases v <;> simp [readAny?]

theorem readAny?_eq_self {v : Json} (h : v ≠ .null) : readAny? v = some v := by
  cases v with
  | null => exact absurd rfl h
  | _ => rfl

/-! ## The fields of an object -/

theorem field?_cons (name : String) (v : Json) (fields : List (String × Json)) (wanted : String) :
    field? ((name, v) :: fields) wanted =
      if wanted = name then some v else field? fields wanted := by
  unfold field?
  rw [List.lookup_cons]
  by_cases h : wanted = name
  · simp [h]
  · rw [beq_false_of_ne h, if_neg h]

theorem field?_eq_none {name : String} {fields : List (String × Json)}
    (h : name ∉ fields.map Prod.fst) : field? fields name = none := by
  induction fields with
  | nil => rfl
  | cons f fields ih =>
    obtain ⟨n, v⟩ := f
    rw [List.map_cons, List.mem_cons, not_or] at h
    rw [field?_cons, if_neg h.1, ih h.2]

/-- Reads one field of an object. -/
def readField (parts : Parts) (name : String) (v : Json) : Except Defect Parts :=
  if name = "code" then (readText v).map fun s => { parts with code := some s }
  else if name = "message" then (readText v).map fun s => { parts with message := some s }
  else if name = "details" then .ok { parts with details := readAny? v }
  else if name = "suggestion" then (readText? v).map fun s => { parts with suggestion := s }
  else .ok parts

theorem readParts_cons_eq_ok_iff {before after : Parts} {name : String} {v : Json}
    {fields : List (String × Json)} :
    readParts before ((name, v) :: fields) = .ok after ↔
      ∃ parts, readField before name v = .ok parts ∧ readParts parts fields = .ok after := by
  have hcons : readParts before ((name, v) :: fields) =
      readField before name v >>= fun parts => readParts parts fields := by
    rw [readParts, readField]
    split_ifs <;> rfl
  rw [hcons, bind_eq_ok_iff]

/-- A part is what its field says, or as it was where there is no field. -/
def Told {α : Type} (Says : Json → α → Prop) (field : Option Json) (before after : α) : Prop :=
  match field with
  | none => after = before
  | some v => Says v after

theorem told_none {α : Type} {Says : Json → α → Prop} {before after : α} :
    Told Says none before after ↔ after = before := Iff.rfl

theorem told_some {α : Type} {Says : Json → α → Prop} {v : Json} {before after : α} :
    Told Says (some v) before after ↔ Says v after := Iff.rfl

/-- A value says a part that is a text. -/
def SaysText (v : Json) (part : Option String) : Prop :=
  ∃ s, v = .string s ∧ part = some s

/-- What fields tell about the parts of a report. -/
@[mk_iff]
structure Tell (fields : List (String × Json)) (before after : Parts) : Prop where
  code : Told SaysText (field? fields "code") before.code after.code
  message : Told SaysText (field? fields "message") before.message after.message
  details : Told (fun v part => part = readAny? v) (field? fields "details")
    before.details after.details
  suggestion : Told (fun v part => v = stringOrNull part) (field? fields "suggestion")
    before.suggestion after.suggestion

/-- The first of some fields with different names tells what it is read as, and the others the
rest. -/
theorem tell_cons {before after : Parts} {name : String} {v : Json}
    {fields : List (String × Json)} (hn : field? fields name = none) :
    Tell ((name, v) :: fields) before after ↔
      ∃ parts, readField before name v = .ok parts ∧ Tell fields parts after := by
  by_cases hcode : name = "code"
  · subst hcode
    simp only [readField, tell_iff, field?_cons, hn, told_none, told_some, SaysText,
      map_eq_ok_iff, readText_eq_ok_iff, reduceIte, String.reduceEq]
    constructor
    · rintro ⟨⟨s, rfl, hs⟩, hrest⟩
      exact ⟨_, ⟨s, rfl, rfl⟩, hs, hrest⟩
    · rintro ⟨_, ⟨s, rfl, rfl⟩, hs, hrest⟩
      exact ⟨⟨s, rfl, hs⟩, hrest⟩
  by_cases hmessage : name = "message"
  · subst hmessage
    simp only [readField, tell_iff, field?_cons, hn, told_none, told_some, SaysText,
      map_eq_ok_iff, readText_eq_ok_iff, reduceIte, String.reduceEq]
    constructor
    · rintro ⟨hc, ⟨s, rfl, hs⟩, hrest⟩
      exact ⟨_, ⟨s, rfl, rfl⟩, hc, hs, hrest⟩
    · rintro ⟨_, ⟨s, rfl, rfl⟩, hc, hs, hrest⟩
      exact ⟨hc, ⟨s, rfl, hs⟩, hrest⟩
  by_cases hdetails : name = "details"
  · subst hdetails
    simp only [readField, tell_iff, field?_cons, hn, told_none, told_some, reduceIte,
      String.reduceEq, Except.ok.injEq, exists_eq_left']
  by_cases hsuggestion : name = "suggestion"
  · subst hsuggestion
    simp only [readField, tell_iff, field?_cons, hn, told_none, told_some, map_eq_ok_iff,
      readText?_eq_ok_iff, reduceIte, String.reduceEq]
    constructor
    · rintro ⟨hc, hm, hd, hs⟩
      exact ⟨_, ⟨_, hs, rfl⟩, hc, hm, hd, rfl⟩
    · rintro ⟨_, ⟨part, rfl, rfl⟩, hc, hm, hd, hs⟩
      exact ⟨hc, hm, hd, by rw [hs]⟩
  · simp only [readField, tell_iff, field?_cons, if_neg hcode, if_neg hmessage, if_neg hdetails,
      if_neg hsuggestion, if_neg (Ne.symm hcode), if_neg (Ne.symm hmessage),
      if_neg (Ne.symm hdetails), if_neg (Ne.symm hsuggestion), Except.ok.injEq, exists_eq_left']

/-- **What the fields of an object are read as**, where no two have one name. -/
theorem readParts_eq_ok_iff {fields : List (String × Json)} (hd : (fields.map Prod.fst).Nodup)
    {before after : Parts} : readParts before fields = .ok after ↔ Tell fields before after := by
  induction fields generalizing before with
  | nil =>
    obtain ⟨c, m, d, s⟩ := before
    obtain ⟨c', m', d', s'⟩ := after
    simp [readParts, tell_iff, field?, told_none, eq_comm]
  | cons f fields ih =>
    obtain ⟨name, v⟩ := f
    rw [List.map_cons, List.nodup_cons] at hd
    rw [readParts_cons_eq_ok_iff, tell_cons (field?_eq_none hd.1)]
    simp only [ih hd.2]

/-! ## What a value stands for -/

/-- A value stands for a report: an object whose fields say its parts, where an optional part may be
absent or `null` and other fields do not count, or the list of its four parts. -/
inductive Denotes : Json → Report → Prop
  | object {fields : List (String × Json)} {r : Report}
      (code : field? fields "code" = some (.string r.code))
      (message : field? fields "message" = some (.string r.message))
      (details : (field? fields "details").bind readAny? = r.details)
      (suggestion : (field? fields "suggestion").getD .null = stringOrNull r.suggestion) :
      Denotes (.object fields) r
  | list (code message : String) (details : Json) (suggestion : Option String) :
      Denotes (.array [.string code, .string message, details, stringOrNull suggestion])
        ⟨code, message, readAny? details, suggestion⟩

theorem denotes_object_iff {fields : List (String × Json)} {r : Report} :
    Denotes (.object fields) r ↔ Tell fields {} ⟨some r.code, some r.message, r.details,
      r.suggestion⟩ := by
  have htext : ∀ (field : Option Json) (text : String),
      Told SaysText field none (some text) ↔ field = some (.string text) := by
    intro field text
    cases field with
    | none => simp [told_none]
    | some v => simp [told_some, SaysText]
  have hany : ∀ field part, Told (fun v part => part = readAny? v) field none part ↔
      field.bind readAny? = part := by
    intro field part
    cases field with
    | none => simp [told_none, eq_comm]
    | some v => simp [told_some, eq_comm]
  have hoptional : ∀ field part, Told (fun v part => v = stringOrNull part) field none part ↔
      field.getD .null = stringOrNull part := by
    intro field part
    cases field with
    | none => cases part <;> simp [told_none, stringOrNull]
    | some v => simp [told_some]
  rw [tell_iff]
  simp only [htext, hany, hoptional]
  constructor
  · rintro ⟨hc, hm, hd, hs⟩
    exact ⟨hc, hm, hd, hs⟩
  · rintro ⟨hc, hm, hd, hs⟩
    exact .object hc hm hd hs

/-- **What is read from an object** in which no two fields have one name. -/
theorem ofJson_object_eq_ok_iff {fields : List (String × Json)}
    (hd : (fields.map Prod.fst).Nodup) {r : Report} :
    ofJson (.object fields) = .ok r ↔ Denotes (.object fields) r := by
  rw [denotes_object_iff, ← readParts_eq_ok_iff hd, ofJson]
  cases readParts {} fields with
  | error defect => simp [bind, Except.bind]
  | ok parts =>
    obtain ⟨code, message, details, suggestion⟩ := parts
    obtain ⟨code', message', details', suggestion'⟩ := r
    cases code <;> cases message <;> simp [bind, Except.bind]

/-- **What is read from a list.** -/
theorem ofJson_array_eq_ok_iff {items : List Json} {r : Report} :
    ofJson (.array items) = .ok r ↔ Denotes (.array items) r := by
  constructor
  · intro h
    cases items with
    | nil => cases h
    | cons c items =>
    obtain ⟨code, hcode, h⟩ := bind_eq_ok_iff.1 h
    cases items with
    | nil => cases h
    | cons m items =>
    obtain ⟨message, hmessage, h⟩ := bind_eq_ok_iff.1 h
    cases items with
    | nil => cases h
    | cons d items =>
    cases items with
    | nil => cases h
    | cons s items =>
    obtain ⟨suggestion, hsuggestion, h⟩ := bind_eq_ok_iff.1 h
    cases items with
    | cons e items => cases h
    | nil =>
    obtain rfl := Except.ok.inj h
    rw [readText_eq_ok_iff.1 hcode, readText_eq_ok_iff.1 hmessage,
      readText?_eq_ok_iff.1 hsuggestion]
    exact .list ..
  · intro h
    cases h with
    | list code message details suggestion =>
    refine bind_eq_ok_iff.2 ⟨code, readText_eq_ok_iff.2 rfl, ?_⟩
    refine bind_eq_ok_iff.2 ⟨message, readText_eq_ok_iff.2 rfl, ?_⟩
    exact bind_eq_ok_iff.2 ⟨suggestion, readText?_eq_ok_iff.2 rfl, rfl⟩

/-! ## Details -/

/-- What is read is never `null`. -/
theorem readField_details {before after : Parts} {name : String} {v : Json}
    (h : readField before name v = .ok after) (hb : before.details ≠ some .null) :
    after.details ≠ some .null := by
  unfold readField at h
  split_ifs at h
  · obtain ⟨_, -, rfl⟩ := map_eq_ok_iff.1 h
    exact hb
  · obtain ⟨_, -, rfl⟩ := map_eq_ok_iff.1 h
    exact hb
  · obtain rfl := Except.ok.inj h
    exact readAny?_ne_null v
  · obtain ⟨_, -, rfl⟩ := map_eq_ok_iff.1 h
    exact hb
  · obtain rfl := Except.ok.inj h
    exact hb

theorem readParts_details {before after : Parts} {fields : List (String × Json)}
    (h : readParts before fields = .ok after) (hb : before.details ≠ some .null) :
    after.details ≠ some .null := by
  induction fields generalizing before with
  | nil => exact Except.ok.inj h ▸ hb
  | cons f fields ih =>
    obtain ⟨name, v⟩ := f
    obtain ⟨parts, hfield, hrest⟩ := readParts_cons_eq_ok_iff.1 h
    exact ih hrest (readField_details hfield hb)

/-- A report that was read has no `null` for details. -/
theorem details_ne_null_of_ofJson {j : Json} {r : Report} (h : ofJson j = .ok r) :
    r.details ≠ some .null := by
  cases j with
  | object fields =>
    obtain ⟨parts, hparts, h⟩ := bind_eq_ok_iff.1 h
    have hdetails := readParts_details hparts (by simp)
    split at h
    · cases h
    · cases h
    · obtain rfl := Except.ok.inj h
      exact hdetails
  | array items =>
    cases ofJson_array_eq_ok_iff.1 h with
    | list => exact readAny?_ne_null _
  | _ => cases h

/-! ## Reports that are written -/

/-- No two fields of an object have one name. -/
def NamesOnce : Json → Prop
  | .object fields => (fields.map Prod.fst).Nodup
  | _ => True

/-- **What is read as a report.** -/
theorem ofJson_eq_ok_iff {j : Json} (hj : NamesOnce j) {r : Report} :
    ofJson j = .ok r ↔ Denotes j r := by
  cases j with
  | object fields => exact ofJson_object_eq_ok_iff hj
  | array items => exact ofJson_array_eq_ok_iff
  | _ =>
    constructor
    · intro h
      cases h
    · intro h
      cases h

/-- The fields of a report that is written, sorted by name. -/
def fields (r : Report) : List (String × Json) :=
  [("code", .string r.code)] ++ r.details.toList.map (("details", ·)) ++
    [("message", .string r.message)] ++ r.suggestion.toList.map (("suggestion", .string ·))

theorem toJson_eq (r : Report) : r.toJson = .object r.fields := rfl

theorem namesOnce_toJson (r : Report) : NamesOnce r.toJson := by
  obtain ⟨code, message, details, suggestion⟩ := r
  rw [toJson_eq, NamesOnce]
  cases details <;> cases suggestion <;> simp [fields]

/-- A report that is written stands for itself. -/
theorem denotes_toJson {r : Report} (hd : r.details ≠ some .null) : Denotes r.toJson r := by
  obtain ⟨code, message, details, suggestion⟩ := r
  have hcode : field? (fields ⟨code, message, details, suggestion⟩) "code" =
      some (.string code) := by
    rfl
  have hmessage : field? (fields ⟨code, message, details, suggestion⟩) "message" =
      some (.string message) := by
    cases details <;> rfl
  have hdetails : field? (fields ⟨code, message, details, suggestion⟩) "details" = details := by
    cases details <;> cases suggestion <;> rfl
  have hsuggestion : field? (fields ⟨code, message, details, suggestion⟩) "suggestion" =
      suggestion.map .string := by
    cases details <;> cases suggestion <;> rfl
  rw [toJson_eq]
  refine .object hcode hmessage ?_ ?_
  · rw [hdetails]
    cases details with
    | none => rfl
    | some v => exact readAny?_eq_self fun hv => hd (congrArg some hv)
  · rw [hsuggestion]
    cases suggestion <;> rfl

/-- **Writing and reading again** gives a report back exactly when its details are not `null`. -/
theorem ofJson_toJson_iff {r : Report} : ofJson r.toJson = .ok r ↔ r.details ≠ some .null :=
  ⟨details_ne_null_of_ofJson, fun hd =>
    (ofJson_eq_ok_iff (namesOnce_toJson r)).2 (denotes_toJson hd)⟩

/-- The details of a failure are never `null`. -/
theorem details?_ne_null (f : Failure) : f.details? ≠ some .null := by
  cases f with
  | io path reason => cases path <;> simp [Failure.details?]
  | _ => simp [Failure.details?]

/-! ## The main result -/

/-- **Reports go round.** Whatever is read as a report is written as an object that is read as the
same report, so that writing what was read changes nothing a second time; and the report of a
failure is read back with its code, message, details and suggestion. -/
theorem ofJson_toJson_of_ofJson :
    (∀ {j r}, NamesOnce j → (ofJson j = .ok r ↔ Denotes j r)) ∧
    (∀ {j r}, ofJson j = .ok r →
      (∃ fields, r.toJson = .object fields) ∧ NamesOnce r.toJson ∧ ofJson r.toJson = .ok r) ∧
    (∀ {j v}, (ofJson j).map toJson = .ok v → (ofJson v).map toJson = .ok v) ∧
    ∀ f : Failure,
      ofJson f.report.toJson = .ok ⟨f.code, f.message, f.details?, f.suggestion?⟩ := by
  have hround : ∀ {j r}, ofJson j = .ok r → ofJson r.toJson = .ok r := fun h =>
    ofJson_toJson_iff.2 (details_ne_null_of_ofJson h)
  refine ⟨fun hj => ofJson_eq_ok_iff hj, fun {j r} h => ?_, fun {j v} h => ?_, fun f => ?_⟩
  · exact ⟨⟨r.fields, r.toJson_eq⟩, namesOnce_toJson r, hround h⟩
  · obtain ⟨r, hr, rfl⟩ := map_eq_ok_iff.1 h
    exact map_eq_ok_iff.2 ⟨r, hround hr, rfl⟩
  · exact ofJson_toJson_iff.2 (details?_ne_null f)

/-- A list with nested details and an object with a field that does not count. -/
theorem ofJson_toJson_of_ofJson_shapes :
    let details : Json := .object [("chain", .array [.null, .bool true]), ("config", .null)]
    let report : Report := ⟨"E2002", "circular", some details, none⟩
    let list : Json := .array [.string "E2002", .string "circular", details, .null]
    let object : Json := .object [("code", .string "E2002"), ("details", details),
      ("line", .int 3), ("message", .string "circular"), ("suggestion", .null)]
    NamesOnce object ∧ Denotes object report ∧ ofJson list = .ok report ∧
      ofJson report.toJson = .ok report ∧ (ofJson object).map toJson = .ok report.toJson ∧
      (ofJson report.toJson).map toJson = .ok report.toJson := by
  intro details report list object
  have honce : NamesOnce object := by simp [object, NamesOnce]
  have hobject : ofJson object = .ok report := rfl
  have hlist : ofJson list = .ok report := rfl
  have hmap : (ofJson object).map toJson = .ok report.toJson := rfl
  obtain ⟨hdenotes, hround, hstable, -⟩ := ofJson_toJson_of_ofJson
  exact ⟨honce, (hdenotes honce).1 hobject, hlist, (hround hlist).2.2, hmap, hstable hmap⟩

end Report

end BuildLayout
