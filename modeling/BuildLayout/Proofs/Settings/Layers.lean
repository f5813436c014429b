import BuildLayout.Proofs.Settings.Ordered

/-!
# Values laid over each other

What a chain of keys leads to (`Value.at?`) in a value that was laid over another is what it leads
to in the upper value, or else what it leads to in the lower one (`Value.at?_merge`). This holds as
long as the upper value has tables on the way and no table at the end (`Value.Clear`): there a table
would be merged, and what is no table on the way would hide what lies below it.

So for the settings of a workspace the last layer counts that says something (`at?_layers`): the
variables of the environment, later ones first, then the settings file, then the default settings.
-/

namespace BuildLayout.Settings

namespace Value

/-! ## Chains of keys -/

/-- The value is a table. -/
def isTable : Value → Bool
  | .table _ _ => true
  | .scalar _ _ | .list _ _ => false

/-- What a chain of keys leads to. -/
def at? : Value → List String → Option Value
  | v, [] => some v
  | .table _ entries, key :: keys => (entries.lookup key).bind (·.at? keys)
  | .scalar _ _, _ :: _ | .list _ _, _ :: _ => none

theorem at?_nil (v : Value) : v.at? [] = some v := by
  cases v <;> rfl

theorem at?_table (o : Origin) (entries : List (String × Value)) (key : String)
    (keys : List String) :
    (table o entries).at? (key :: keys) = (entries.lookup key).bind (·.at? keys) := by
  rw [at?]

theorem at?_key (o : Origin) (entries : List (String × Value)) (key : String) :
    (table o entries).at? [key] = entries.lookup key := by
  rw [at?_table]
  simp [at?_nil]

theorem at?_of_not_table {v : Value} (h : v.isTable = false) (key : String) (keys : List String) :
    v.at? (key :: keys) = none := by
  cases v with
  | table => cases h
  | scalar => rfl
  | list => rfl

theorem exists_table {v : Value} (h : v.isTable) : ∃ o entries, v = .table o entries := by
  cases v with
  | table o entries => exact ⟨o, entries, rfl⟩
  | scalar => cases h
  | list => cases h

/-- A chain of keys that leads somewhere leads through a table. -/
theorem isTable_of_at? {v w : Value} {key : String} {keys : List String}
    (h : v.at? (key :: keys) = some w) : v.isTable := by
  cases hv : v.isTable with
  | true => rfl
  | false =>
    rw [at?_of_not_table hv] at h
    cases h

/-- A chain of keys leads on from what its first key leads to. -/
theorem at?_cons (v : Value) (key : String) (keys : List String) :
    v.at? (key :: keys) = (v.at? [key]).bind (·.at? keys) := by
  cases v with
  | table o entries => rw [at?_table, at?_key]
  | scalar => rfl
  | list => rfl

/-- What a key of a sorted value leads to is sorted. -/
theorem Ordered.of_at? {v w : Value} {key : String} (h : v.Ordered) (hw : v.at? [key] = some w) :
    w.Ordered := by
  obtain ⟨o, entries, rfl⟩ := exists_table (isTable_of_at? hw)
  rw [at?_key] at hw
  cases h with
  | table _ he => exact he _ (mem_of_lookup hw)

theorem at?_nest (o : Origin) (v : Value) (key : String) (keys : List String) (other : String)
    (others : List String) : (nest o v (key :: keys)).at? (other :: others) =
      if other = key then (nest o v keys).at? others else none := by
  rw [nest, at?_table, lookup_cons]
  split <;> rfl

/-! ## One value over another -/

theorem lookup_eq_none_of_sorted {key : String} {value : Value} {entries : List (String × Value)}
    (h : Sorted ((key, value) :: entries)) : entries.lookup key = none := by
  rw [List.lookup_eq_none_iff]
  intro e he
  exact bne_iff_ne.2 (ne_of_lt ((List.pairwise_cons.1 h).1 e he))

/-- What a key leads to in entries that were laid over others. -/
theorem lookup_mergeEntries {below entries : List (String × Value)} (h : Sorted entries)
    (key : String) :
    (mergeEntries below entries).lookup key =
      match entries.lookup key, below.lookup key with
      | some upper, some lower => some (lower.merge upper)
      | some upper, none => some upper
      | none, lower? => lower? := by
  induction entries generalizing below with
  | nil => rw [mergeEntries]; rfl
  | cons first entries ih =>
    obtain ⟨k, v⟩ := first
    rw [mergeEntries, ih (List.pairwise_cons.1 h).2, lookup_insert, lookup_cons]
    by_cases hk : key = k
    · subst hk
      rw [if_pos rfl, if_pos rfl, lookup_eq_none_of_sorted h]
      cases below.lookup key <;> rfl
    · rw [if_neg hk, if_neg hk]

/-- There are tables on the way along the keys, as far as it leads, and none at its end. -/
def Clear : Value → List String → Prop
  | v, [] => v.isTable = false
  | v, key :: keys => v.isTable ∧ ∀ w, v.at? [key] = some w → w.Clear keys

theorem clear_of_lookup {o : Origin} {entries : List (String × Value)} {key : String}
    {keys : List String} (h : (table o entries).Clear (key :: keys)) {w : Value}
    (hw : entries.lookup key = some w) : w.Clear keys :=
  h.2 w ((at?_key o entries key).trans hw)

theorem merge_of_not_table (lower : Value) {upper : Value} (h : upper.isTable = false) :
    lower.merge upper = upper := by
  cases upper with
  | table => cases h
  | scalar => rw [merge]
  | list => rw [merge]

theorem merge_table_table (o p : Origin) (below entries : List (String × Value)) :
    (table o below).merge (table p entries) = table p (mergeEntries below entries) := by
  rw [merge]

theorem merge_table_of_not_table {lower : Value} (h : lower.isTable = false) (o : Origin)
    (entries : List (String × Value)) : lower.merge (table o entries) = table o entries := by
  cases lower with
  | table => cases h
  | scalar => rw [merge]; nofun
  | list => rw [merge]; nofun

/-- **What keys lead to** in a value that was laid over another: what they lead to in the upper
value, or else in the lower one. -/
theorem at?_merge {lower upper : Value} {keys : List String} (ho : upper.Ordered)
    (hc : upper.Clear keys) :
    (lower.merge upper).at? keys = (upper.at? keys).or (lower.at? keys) := by
  induction keys generalizing lower upper with
  | nil => rw [merge_of_not_table lower hc, at?_nil, Option.some_or]
  | cons key keys ih =>
    obtain ⟨p, entries, rfl⟩ := exists_table hc.1
    cases hl : lower.isTable with
    | false =>
      rw [merge_table_of_not_table hl, at?_of_not_table hl, Option.or_none]
    | true =>
      obtain ⟨o, below, rfl⟩ := exists_table hl
      cases ho with
      | table hs he =>
        rw [merge_table_table, at?_table, at?_table, at?_table, lookup_mergeEntries hs]
        cases hu : entries.lookup key with
        | none => simp
        | some upper =>
          cases below.lookup key with
          | none => simp
          | some lower =>
            simp only [Option.bind_some]
            exact ih (he _ (mem_of_lookup hu)) (clear_of_lookup hc hu)

/-- Where the way is clear in both values it is so in the one laid over the other. -/
theorem Clear.merge {lower upper : Value} {keys : List String} (ho : upper.Ordered)
    (hl : lower.Clear keys) (hu : upper.Clear keys) : (lower.merge upper).Clear keys := by
  induction keys generalizing lower upper with
  | nil =>
    rw [merge_of_not_table lower hu]
    exact hu
  | cons key keys ih =>
    obtain ⟨p, entries, rfl⟩ := exists_table hu.1
    obtain ⟨o, below, rfl⟩ := exists_table hl.1
    rw [merge_table_table]
    refine ⟨rfl, fun w hw => ?_⟩
    cases ho with
    | table hs he =>
      rw [at?_key, lookup_mergeEntries hs] at hw
      cases hentry : entries.lookup key with
      | none =>
        rw [hentry] at hw
        exact clear_of_lookup hl hw
      | some upper =>
        rw [hentry] at hw
        have hupper := clear_of_lookup hu hentry
        cases hbelow : below.lookup key with
        | none =>
          rw [hbelow] at hw
          exact Option.some.inj hw ▸ hupper
        | some lower =>
          rw [hbelow] at hw
          refine Option.some.inj hw ▸ ih (he _ (mem_of_lookup hentry)) ?_ hupper
          exact clear_of_lookup hl hbelow

end Value

/-! ## Layers -/

/-- What the last of the values says that says something. -/
def latest? (values : List Value) (keys : List String) : Option Value :=
  values.reverse.findSome? (·.at? keys)

theorem latest?_concat (values : List Value) (v : Value) (keys : List String) :
    latest? (values ++ [v]) keys = (v.at? keys).or (latest? values keys) := by
  unfold latest?
  rw [List.reverse_concat, List.findSome?_cons]
  cases v.at? keys <;> rfl

theorem latest?_append (values values' : List Value) (keys : List String) :
    latest? (values ++ values') keys = (latest? values' keys).or (latest? values keys) := by
  unfold latest?
  rw [List.reverse_append, List.findSome?_append]

theorem latest?_eq_none_iff {values : List Value} {keys : List String} :
    latest? values keys = none ↔ ∀ v ∈ values, v.at? keys = none := by
  unfold latest?
  simp [List.findSome?_eq_none_iff]

theorem exists_of_latest? {values : List Value} {keys : List String} {w : Value}
    (h : latest? values keys = some w) : ∃ v ∈ values, v.at? keys = some w := by
  obtain ⟨v, hv, hw⟩ := List.exists_of_findSome?_eq_some h
  exact ⟨v, List.mem_reverse.1 hv, hw⟩

namespace Environment

/-- **The settings of an environment** say what the last variable says that says something. -/
theorem at?_settings {vars : List (String × String)} {key : String} {keys : List String}
    (h : ∀ v ∈ vars.filterMap layer?, v.Clear (key :: keys)) :
    (settings vars).Clear (key :: keys) ∧
      (settings vars).at? (key :: keys) = latest? (vars.filterMap layer?) (key :: keys) := by
  induction vars using List.reverseRecOn with
  | nil =>
    rw [settings_nil]
    exact ⟨⟨rfl, nofun⟩, rfl⟩
  | append_singleton vars var ih =>
    rw [List.filterMap_append] at h ⊢
    obtain ⟨hclear, hat⟩ := ih fun v hv => h v (List.mem_append_left _ hv)
    rw [settings_concat]
    cases hv : layer? var with
    | none => simpa [hv] using ⟨hclear, hat⟩
    | some v =>
      have hvar : v.Clear (key :: keys) := h v (by simp [hv])
      have hone : [var].filterMap layer? = [v] := by simp [hv]
      rw [hone, latest?_concat, ← hat]
      exact ⟨hclear.merge (ordered_layer? hv) hvar, Value.at?_merge (ordered_layer? hv) hvar⟩

/-- The keys of a variable are not none at all. -/
theorem ne_nil_of_keys? {name : String} {keys : List String} (h : keys? name = some keys) :
    keys ≠ [] := by
  unfold keys? at h
  dsimp only at h
  split at h
  · split at h
    · cases h
    · obtain rfl := Option.some.inj h
      simpa using Text.splitOn_ne_nil '.' _
  · cases h

theorem isTable_layer? {var : String × String} {v : Value} (h : layer? var = some v) :
    v.isTable := by
  obtain ⟨keys, hkeys, rfl⟩ := Option.map_eq_some_iff.1 h
  cases keys with
  | nil => exact absurd rfl (ne_nil_of_keys? hkeys)
  | cons key keys => rfl

end Environment

/-- What is laid over the default settings, one over the other: what the settings file holds, when
there is one, and what each variable gives. -/
def given (file? : Option Value) (vars : List (String × String)) : List Value :=
  file?.toList ++ vars.filterMap Environment.layer?

/-- **The settings of a workspace** say what the last layer says that says something, and otherwise
what the default settings say. -/
theorem at?_layers {file? : Option Value} (hfile : ∀ v ∈ file?, v.Ordered)
    {vars : List (String × String)} {key : String} {keys : List String}
    (h : ∀ v ∈ given file? vars, v.Clear (key :: keys)) :
    (layers file? vars).at? (key :: keys) =
      (latest? (given file? vars) (key :: keys)).or (default.toValue.at? (key :: keys)) := by
  obtain ⟨hclear, hat⟩ := Environment.at?_settings fun v hv => h v (List.mem_append_right _ hv)
  unfold layers given
  rw [Value.at?_merge (Environment.ordered_settings vars) hclear, hat, latest?_append,
    Option.or_assoc]
  cases file? with
  | none => rfl
  | some v =>
    have hv : v.Clear (key :: keys) := h v (List.mem_append_left _ (.head _))
    rw [Value.at?_merge (hfile v rfl) hv]
    simp [latest?]

theorem ordered_toValue (s : Settings) : s.toValue.Ordered := by
  have hscalar : ∀ x : Scalar, (Value.scalar .default x).Ordered := .scalar _
  unfold toValue
  refine Value.ordered_sortEntries ?_
  simp only [List.forall_mem_cons]
  refine ⟨Value.ordered_sortEntries ?_, Value.ordered_sortEntries ?_,
    Value.ordered_sortEntries ?_, nofun⟩
  · simp only [List.forall_mem_cons]
    exact ⟨hscalar _, hscalar _, nofun⟩
  · simp only [List.forall_mem_cons]
    refine ⟨.list fun v hv => ?_, hscalar _, nofun⟩
    obtain ⟨p, -, rfl⟩ := List.mem_map.1 hv
    exact hscalar _
  · simp only [List.forall_mem_cons]
    exact ⟨hscalar _, nofun⟩

theorem ordered_layers {file? : Option Value} (hfile : ∀ v ∈ file?, v.Ordered)
    (vars : List (String × String)) : (layers file? vars).Ordered := by
  unfold layers
  refine Value.Ordered.merge ?_ (Environment.ordered_settings vars)
  cases file? with
  | none => exact ordered_toValue default
  | some v => exact (ordered_toValue default).merge (hfile v rfl)

end BuildLayout.Settings
