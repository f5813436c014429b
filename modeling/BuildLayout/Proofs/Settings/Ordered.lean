import BuildLayout.Settings.Load
import Mathlib.Data.List.Induction
import Mathlib.Data.String.Basic

/-!
# Tables are sorted

Every table that settings are read from has its entries sorted by key, each key once
(`Value.Ordered`): what a settings file holds (`ordered_parse?`), what the variables of an
environment give (`ordered_settings`), and what one value laid over another makes
(`Value.Ordered.merge`).

A table is only ever built by `Value.insert`, which keeps the order (`sorted_insert`) and changes
what is found under one key (`lookup_insert`).
-/

namespace BuildLayout.Settings

namespace Value

/-! ## Entries -/

/-- The entries are sorted by key, each key once. -/
def Sorted (entries : List (String × Value)) : Prop :=
  entries.Pairwise (·.1 < ·.1)

theorem mem_of_mem_insert {key : String} {value : Value} {entries : List (String × Value)}
    {e : String × Value} (h : e ∈ insert key value entries) : e = (key, value) ∨ e ∈ entries := by
  induction entries with
  | nil => exact .inl (List.mem_singleton.1 h)
  | cons first entries ih =>
    obtain ⟨k, v⟩ := first
    rw [insert] at h
    split at h
    · exact List.mem_cons.1 h
    · split at h
      · exact (List.mem_cons.1 h).imp_right (.tail _)
      · rcases List.mem_cons.1 h with rfl | h
        · exact .inr (.head _)
        · exact (ih h).imp_right (.tail _)

theorem lookup_cons (key : String) (value : Value) (entries : List (String × Value))
    (other : String) :
    ((key, value) :: entries).lookup other =
      if other = key then some value else entries.lookup other := by
  rw [List.lookup_cons]
  by_cases h : other = key
  · simp [h]
  · rw [if_neg h, beq_false_of_ne h]

/-- Only the key of the new entry leads to something else than before. -/
theorem lookup_insert (key : String) (value : Value) (entries : List (String × Value))
    (other : String) :
    (insert key value entries).lookup other =
      if other = key then some value else entries.lookup other := by
  induction entries with
  | nil => rw [insert, lookup_cons]
  | cons first entries ih =>
    obtain ⟨k, v⟩ := first
    rw [insert]
    split
    · rw [lookup_cons]
    · split
      · next he =>
        subst he
        rw [lookup_cons, lookup_cons]
        split <;> rfl
      · next hne =>
        rw [lookup_cons, lookup_cons, ih]
        by_cases ho : other = k
        · subst ho
          rw [if_pos rfl, if_neg (Ne.symm hne), if_pos rfl]
        · rw [if_neg ho, if_neg ho]

/-- **A new entry** is put where it belongs. -/
theorem sorted_insert {key : String} {value : Value} {entries : List (String × Value)}
    (h : Sorted entries) : Sorted (insert key value entries) := by
  induction entries with
  | nil => exact List.pairwise_singleton _ _
  | cons first entries ih =>
    obtain ⟨k, v⟩ := first
    obtain ⟨hfirst, hrest⟩ := List.pairwise_cons.1 h
    rw [insert]
    split
    · next hlt =>
      refine List.pairwise_cons.2 ⟨fun e he => ?_, h⟩
      rcases List.mem_cons.1 he with rfl | he
      · exact hlt
      · exact hlt.trans (hfirst e he)
    · next hnlt =>
      split
      · next he =>
        subst he
        exact List.pairwise_cons.2 ⟨hfirst, hrest⟩
      · next hne =>
        refine List.pairwise_cons.2 ⟨fun e he => ?_, ih hrest⟩
        rcases mem_of_mem_insert he with rfl | he
        · exact lt_of_le_of_ne (not_lt.1 hnlt) (Ne.symm hne)
        · exact hfirst e he

theorem sorted_sortEntries (entries : List (String × Value)) : Sorted (sortEntries entries) := by
  unfold sortEntries
  induction entries using List.reverseRecOn with
  | nil => exact List.Pairwise.nil
  | append_singleton entries e ih =>
    rw [List.foldl_append]
    exact sorted_insert ih

theorem mem_of_mem_sortEntries {entries : List (String × Value)} {e : String × Value}
    (h : e ∈ sortEntries entries) : e ∈ entries := by
  unfold sortEntries at h
  induction entries using List.reverseRecOn with
  | nil => exact h
  | append_singleton entries first ih =>
    rw [List.foldl_append] at h
    rcases mem_of_mem_insert h with rfl | h
    · simp
    · exact List.mem_append_left _ (ih h)

/-- The later of two entries with one key counts. -/
theorem lookup_sortEntries (entries : List (String × Value)) (key : String) :
    (sortEntries entries).lookup key = entries.reverse.lookup key := by
  unfold sortEntries
  induction entries using List.reverseRecOn with
  | nil => rfl
  | append_singleton entries e ih =>
    rw [List.foldl_append, List.reverse_concat]
    exact (lookup_insert _ _ _ _).trans (by rw [ih, ← lookup_cons])

theorem mem_of_lookup {entries : List (String × Value)} {key : String} {value : Value}
    (h : entries.lookup key = some value) : (key, value) ∈ entries := by
  obtain ⟨before, after, rfl, -⟩ := List.lookup_eq_some_iff.1 h
  simp

theorem lookup_eq_some_iff {entries : List (String × Value)} (h : Sorted entries) {key : String}
    {value : Value} : entries.lookup key = some value ↔ (key, value) ∈ entries := by
  refine ⟨mem_of_lookup, fun hmem => ?_⟩
  induction entries with
  | nil => cases hmem
  | cons first entries ih =>
    obtain ⟨k, v⟩ := first
    obtain ⟨hfirst, hrest⟩ := List.pairwise_cons.1 h
    rw [lookup_cons]
    rcases List.mem_cons.1 hmem with he | hmem
    · obtain ⟨rfl, rfl⟩ := Prod.mk.inj he
      rw [if_pos rfl]
    · rw [if_neg (ne_of_gt (hfirst _ hmem)), ih hrest hmem]

/-! ## Values -/

/-- Every table of the value, at any depth, is sorted. -/
inductive Ordered : Value → Prop
  | scalar (o : Origin) (s : Scalar) : Ordered (.scalar o s)
  | list {o : Origin} {items : List Value} : (∀ v ∈ items, Ordered v) → Ordered (.list o items)
  | table {o : Origin} {entries : List (String × Value)} :
      Sorted entries → (∀ e ∈ entries, Ordered e.2) → Ordered (.table o entries)

theorem ordered_sortEntries {o : Origin} {entries : List (String × Value)}
    (h : ∀ e ∈ entries, e.2.Ordered) : (table o (sortEntries entries)).Ordered :=
  .table (sorted_sortEntries entries) fun e he => h e (mem_of_mem_sortEntries he)

theorem ordered_nest {o : Origin} {value : Value} (h : value.Ordered) (keys : List String) :
    (nest o value keys).Ordered := by
  induction keys with
  | nil => exact h
  | cons key keys ih =>
    refine .table (List.pairwise_singleton _ _) fun e he => ?_
    rw [List.mem_singleton.1 he]
    exact ih

/-- **A value laid over another** is sorted if both are. -/
theorem Ordered.merge {lower upper : Value} (hl : lower.Ordered) (hu : upper.Ordered) :
    (lower.merge upper).Ordered := by
  induction hu generalizing lower with
  | scalar o s => exact .scalar o s
  | list h => exact .list h
  | @table o entries hs he ih =>
    cases hl with
    | scalar => exact .table hs he
    | list => exact .table hs he
    | @table _ below hbelow hb =>
      have key : ∀ (es below : List (String × Value)), (∀ e ∈ es, e ∈ entries) → Sorted below →
          (∀ e ∈ below, e.2.Ordered) → (Value.table o (mergeEntries below es)).Ordered := by
        intro es
        induction es with
        | nil => exact fun below _ hs hb => .table hs hb
        | cons first es ihes =>
          obtain ⟨k, v⟩ := first
          intro below hsub hs hb
          rw [mergeEntries]
          refine ihes _ (fun e he => hsub e (.tail _ he)) (sorted_insert hs) fun e he' => ?_
          rcases mem_of_mem_insert he' with rfl | he'
          · dsimp only
            split
            · next hlookup => exact ih (k, v) (hsub _ (.head _)) (hb _ (mem_of_lookup hlookup))
            · exact he (k, v) (hsub _ (.head _))
          · exact hb e he'
      exact key entries below (fun _ h => h) hbelow hb

end Value

/-! ## Variables -/

namespace Environment

/-- **What a text in the environment stands for** is sorted, on each level of nesting. -/
theorem ordered_value? (fuel : Nat) :
    (∀ {cs v rest}, value? fuel cs = some (v, rest) → v.Ordered) ∧
    (∀ {done cs vs rest}, (∀ v ∈ done, v.Ordered) → items? fuel done cs = some (vs, rest) →
      ∀ v ∈ vs, v.Ordered) ∧
    (∀ {done cs es rest}, (∀ e ∈ done, e.2.Ordered) → entries? fuel done cs = some (es, rest) →
      ∀ e ∈ es, e.2.Ordered) := by
  induction fuel with
  | zero =>
    refine ⟨nofun, fun _ h => ?_, fun _ h => ?_⟩
    · rw [items?] at h
      cases h
    · rw [entries?] at h
      cases h
  | succ fuel ih =>
    obtain ⟨hvalue, hitems, hentries⟩ := ih
    refine ⟨fun {cs v rest} h => ?_, fun {done cs vs rest} hdone h => ?_,
      fun {done cs es rest} hdone h => ?_⟩
    · rw [value?] at h
      obtain ⟨⟨v', rest'⟩, hv, he⟩ := Option.map_eq_some_iff.1 h
      obtain ⟨rfl, -⟩ := Prod.mk.inj he
      split at hv
      · cases hv
        exact .scalar _ _
      · cases hv
        exact .scalar _ _
      · split at hv
        · obtain ⟨⟨es, rest''⟩, hes, he⟩ := Option.map_eq_some_iff.1 hv
          obtain ⟨rfl, -⟩ := Prod.mk.inj he
          exact Value.ordered_sortEntries (hentries (fun _ he => absurd he List.not_mem_nil) hes)
        · obtain ⟨⟨vs, rest''⟩, hvs, he⟩ := Option.map_eq_some_iff.1 hv
          obtain ⟨rfl, -⟩ := Prod.mk.inj he
          exact .list (hitems (fun _ he => absurd he List.not_mem_nil) hvs)
        · obtain ⟨⟨s, rest''⟩, -, he⟩ := Option.map_eq_some_iff.1 hv
          obtain ⟨rfl, -⟩ := Prod.mk.inj he
          exact .scalar _ _
        · cases hv
          exact .scalar _ _
        · cases hv
        · cases hv
          exact .scalar _ _
    · rw [items?.eq_def] at h
      split at h
      · cases h
      · cases h
        simpa using hdone
      · next hfuel _ =>
        obtain rfl := Nat.succ.inj hfuel
        split at h
        · cases h
        · next hv => exact hitems (List.forall_mem_cons.2 ⟨hvalue hv, hdone⟩) h
        · next hv =>
          cases h
          simpa [or_imp, forall_and] using And.intro hdone (hvalue hv)
        · cases h
    · rw [entries?.eq_def] at h
      split at h
      · cases h
      · cases h
        simpa using hdone
      · next hfuel _ =>
        obtain rfl := Nat.succ.inj hfuel
        split at h
        · split at h
          · cases h
          · next hv => exact hentries (List.forall_mem_cons.2 ⟨hvalue hv, hdone⟩) h
          · next hv =>
            cases h
            simpa [or_imp, forall_and] using And.intro hdone (hvalue hv)
          · cases h
        · cases h

theorem ordered_parse (s : String) : (parse s).Ordered := by
  unfold parse
  split
  · next h => exact (ordered_value? _).1 h
  · exact .scalar _ _

/-- The settings that a variable gives, when it gives any. -/
def layer? (var : String × String) : Option Value :=
  (keys? var.1).map (Value.nest .environment (parse var.2))

theorem ordered_layer? {var : String × String} {v : Value} (h : layer? var = some v) :
    v.Ordered := by
  obtain ⟨keys, -, rfl⟩ := Option.map_eq_some_iff.1 h
  exact Value.ordered_nest (ordered_parse _) keys

theorem settings_nil : settings [] = .table .environment [] := rfl

theorem settings_concat (vars : List (String × String)) (var : String × String) :
    settings (vars ++ [var]) = match layer? var with
      | none => settings vars
      | some v => (settings vars).merge v := by
  unfold settings layer?
  rw [List.foldl_append, List.foldl_cons, List.foldl_nil]
  obtain ⟨name, value⟩ := var
  dsimp only
  cases keys? name <;> rfl

/-- **The settings of an environment** are sorted. -/
theorem ordered_settings (vars : List (String × String)) : (settings vars).Ordered := by
  induction vars using List.reverseRecOn with
  | nil => exact .table List.Pairwise.nil nofun
  | append_singleton vars var ih =>
    rw [settings_concat]
    split
    · exact ih
    · next h => exact ih.merge (ordered_layer? h)

end Environment

/-! ## Documents -/

namespace Toml

/-- Every value that a document holds at an entry is sorted. The tables of the document itself
need not be until they are values. -/
inductive Entry.Ordered : Entry → Prop
  | value {v : Value} : v.Ordered → Ordered (.value v)
  | table {form : Form} {es : Entries} : (∀ e ∈ es, Ordered e.2) → Ordered (.table form es)
  | tables {items : List Entries} : (∀ es ∈ items, ∀ e ∈ es, Ordered e.2) → Ordered (.tables items)

theorem ordered_tableValue? {entries : List (String × Value)} (h : ∀ e ∈ entries, e.2.Ordered)
    {v : Value} (hv : tableValue? entries = some v) : v.Ordered := by
  unfold tableValue? at hv
  split at hv
  · split at hv
    · next hlookup =>
      obtain rfl := Option.some.inj hv
      exact h _ (Value.mem_of_lookup hlookup)
    · obtain rfl := Option.some.inj hv
      exact Value.ordered_sortEntries fun e he => h e (List.mem_of_mem_filter he)
  · cases hv

theorem ordered_toValues? {es : Entries} (h : ∀ e ∈ es, ∀ v, e.2.toValue? = some v → v.Ordered)
    {entries : List (String × Value)} (hes : Entries.toValues? es = some entries) :
    ∀ e ∈ entries, e.2.Ordered := by
  induction es generalizing entries with
  | nil =>
    rw [Entries.toValues?] at hes
    cases hes
    exact fun e he => absurd he List.not_mem_nil
  | cons first es ih =>
    obtain ⟨key, e⟩ := first
    rw [Entries.toValues?] at hes
    obtain ⟨v, hv, hes⟩ := Option.bind_eq_some_iff.1 hes
    obtain ⟨vs, hvs, hes⟩ := Option.bind_eq_some_iff.1 hes
    obtain rfl := Option.some.inj hes
    exact List.forall_mem_cons.2
      ⟨h _ (.head _) v hv, ih (fun e he => h e (.tail _ he)) hvs⟩

theorem ordered_toTables? {items : List Entries}
    (h : ∀ es ∈ items, ∀ e ∈ es, ∀ v, e.2.toValue? = some v → v.Ordered) {vs : List Value}
    (hvs : Entries.toTables? items = some vs) : ∀ v ∈ vs, v.Ordered := by
  induction items generalizing vs with
  | nil =>
    rw [Entries.toTables?] at hvs
    cases hvs
    exact fun v hv => absurd hv List.not_mem_nil
  | cons es items ih =>
    rw [Entries.toTables?] at hvs
    obtain ⟨entries, hes, hvs⟩ := Option.bind_eq_some_iff.1 hvs
    obtain ⟨v, hv, hvs⟩ := Option.bind_eq_some_iff.1 hvs
    obtain ⟨vs', hvs', hvs⟩ := Option.bind_eq_some_iff.1 hvs
    obtain rfl := Option.some.inj hvs
    exact List.forall_mem_cons.2
      ⟨ordered_tableValue? (ordered_toValues? (h es (.head _)) hes) hv,
        ih (fun es hes => h es (.tail _ hes)) hvs'⟩

/-- **What an entry stands for** is sorted. -/
theorem Entry.Ordered.toValue? {e : Entry} (h : e.Ordered) :
    ∀ v, e.toValue? = some v → v.Ordered := by
  induction h with
  | value h =>
    intro v hv
    rw [Entry.toValue?] at hv
    exact Option.some.inj hv ▸ h
  | table _ ih =>
    intro v hv
    rw [Entry.toValue?] at hv
    obtain ⟨entries, hes, hv⟩ := Option.bind_eq_some_iff.1 hv
    exact ordered_tableValue? (ordered_toValues? ih hes) hv
  | tables _ ih =>
    intro v hv
    rw [Entry.toValue?] at hv
    obtain ⟨vs, hvs, rfl⟩ := Option.map_eq_some_iff.1 hv
    exact .list (ordered_toTables? ih hvs)

namespace Entries

/-- Every value of the entries is sorted. -/
def Ordered (es : Entries) : Prop := ∀ e ∈ es, e.2.Ordered

theorem ordered_nil : Ordered [] := fun _ he => absurd he List.not_mem_nil

theorem Ordered.set {es : Entries} (h : Ordered es) (key : String) {e : Entry} (he : e.Ordered) :
    Ordered (es.set key e) := by
  intro x hx
  rcases List.mem_append.1 hx with hx | hx
  · exact h x (List.mem_of_mem_filter hx)
  · rw [List.mem_singleton.1 hx]
    exact he

theorem Ordered.of_lookup {es : Entries} (h : Ordered es) {key : String} {e : Entry}
    (he : es.lookup key = some e) : e.Ordered := by
  obtain ⟨before, after, rfl, -⟩ := List.lookup_eq_some_iff.1 he
  exact h (key, e) (by simp)

theorem ordered_of_table {form : Form} {es : Entries} (h : (Entry.table form es).Ordered) :
    Ordered es := by
  cases h with
  | table h => exact h

theorem ordered_of_tables {items : List Entries} (h : (Entry.tables items).Ordered) :
    ∀ es ∈ items, Ordered es := by
  cases h with
  | tables h => exact h

/-- A change of the table that keys lead to. -/
theorem Ordered.descend? {dotted : Bool} {change : Form → Entries → Option Entries}
    (hchange : ∀ {form es es'}, Ordered es → change form es = some es' → Ordered es')
    {path : List String} {form : Form} {es es' : Entries} (h : Ordered es)
    (hd : descend? dotted change path form es = some es') : Ordered es' := by
  induction path generalizing form es es' with
  | nil => exact hchange h hd
  | cons key path ih =>
    rw [Entries.descend?] at hd
    split at hd
    · obtain ⟨sub, hsub, rfl⟩ := Option.map_eq_some_iff.1 hd
      exact h.set key (.table (ih ordered_nil hsub))
    · cases hd
    · next hlookup =>
      split at hd
      · cases hd
      · obtain ⟨sub, hsub, rfl⟩ := Option.map_eq_some_iff.1 hd
        exact h.set key (.table (ih (ordered_of_table (h.of_lookup hlookup)) hsub))
    · next items hlookup =>
      obtain ⟨sub, hsub, rfl⟩ := Option.map_eq_some_iff.1 hd
      have hitems := ordered_of_tables (h.of_lookup hlookup)
      have hlast : Ordered (items.getLast?.getD []) := by
        cases hl : items.getLast? with
        | none => exact ordered_nil
        | some last => exact hitems last (List.mem_of_getLast? hl)
      refine h.set key (.tables fun es hes => ?_)
      rcases List.mem_append.1 hes with hes | hes
      · exact hitems es ((List.dropLast_sublist items).subset hes)
      · rw [List.mem_singleton.1 hes]
        exact ih hlast hsub

theorem Ordered.put? {es es' : Entries} (h : Ordered es) {path : List String} {v : Value}
    (hv : v.Ordered) (hp : es.put? path v = some es') : Ordered es' := by
  unfold Entries.put? at hp
  split at hp
  · cases hp
  · next key _ =>
    refine h.descend? (fun hes hc => ?_) hp
    split at hc
    · cases hc
    · split at hc
      · cases hc
      · exact Option.some.inj hc ▸ hes.set key (.value hv)

theorem Ordered.openTable? {es es' : Entries} (h : Ordered es) {path : List String}
    (hp : es.openTable? path = some es') : Ordered es' := by
  unfold Entries.openTable? at hp
  split at hp
  · cases hp
  · next key _ =>
    refine h.descend? (fun hes hc => ?_) hp
    split at hc
    · exact Option.some.inj hc ▸ hes.set key (.table ordered_nil)
    · next hlookup =>
      exact Option.some.inj hc ▸ hes.set key (.table (ordered_of_table (hes.of_lookup hlookup)))
    · cases hc

theorem Ordered.openItem? {es es' : Entries} (h : Ordered es) {path : List String}
    (hp : es.openItem? path = some es') : Ordered es' := by
  have hnew : ∀ es ∈ [([] : Entries)], Ordered es := fun es hes =>
    List.mem_singleton.1 hes ▸ ordered_nil
  unfold Entries.openItem? at hp
  split at hp
  · cases hp
  · next key _ =>
    refine h.descend? (fun hes hc => ?_) hp
    split at hc
    · exact Option.some.inj hc ▸ hes.set key (.tables hnew)
    · next items hlookup =>
      have hitems := ordered_of_tables (hes.of_lookup hlookup)
      refine Option.some.inj hc ▸ hes.set key (.tables fun es hes => ?_)
      exact (List.mem_append.1 hes).elim (hitems es) (hnew es)
    · cases hc

theorem Ordered.putIn? {es es' : Entries} (h : Ordered es) {opened path : List String} {v : Value}
    (hv : v.Ordered) (hp : es.putIn? opened path v = some es') : Ordered es' :=
  h.descend? (fun hes hc => hes.put? hv hc) hp

theorem Ordered.toValue? {es : Entries} (h : Ordered es) {v : Value}
    (hv : es.toValue? = some v) : v.Ordered := by
  obtain ⟨entries, hes, hv⟩ := Option.bind_eq_some_iff.1 hv
  exact ordered_tableValue? (ordered_toValues? (fun e he => (h e he).toValue?) hes) hv

end Entries

theorem ordered_dateValue (cs : List Char) : (dateValue cs).Ordered := by
  refine .table (List.pairwise_singleton _ _) fun e he => ?_
  rw [List.mem_singleton.1 he]
  exact .scalar _ _

theorem ordered_wordAt? {cs rest : List Char} {v : Value} (h : wordAt? cs = some (v, rest)) :
    v.Ordered := by
  unfold wordAt? at h
  dsimp only at h
  split at h
  · cases h
    exact ordered_dateValue _
  · obtain ⟨w, hw, he⟩ := Option.map_eq_some_iff.1 h
    obtain ⟨rfl, -⟩ := Prod.mk.inj he
    unfold word? at hw
    split at hw
    · cases hw
      exact .scalar _ _
    · split at hw
      · cases hw
        exact .scalar _ _
      · split at hw
        · cases hw
          exact ordered_dateValue _
        · obtain ⟨s, -, rfl⟩ := Option.map_eq_some_iff.1 hw
          exact .scalar _ _

/-- **What a text in a document stands for** is sorted, on each level of nesting. -/
theorem ordered_value? (fuel : Nat) :
    (∀ {depth cs v rest}, value? fuel depth cs = some (v, rest) → v.Ordered) ∧
    (∀ {depth done cs vs rest}, (∀ v ∈ done, v.Ordered) →
      items? fuel depth done cs = some (vs, rest) → ∀ v ∈ vs, v.Ordered) ∧
    (∀ {depth es cs es' rest}, Entries.Ordered es →
      entries? fuel depth es cs = some (es', rest) → Entries.Ordered es') := by
  induction fuel with
  | zero =>
    refine ⟨fun h => ?_, fun _ h => ?_, fun _ h => ?_⟩
    · rw [value?] at h
      cases h
    · rw [items?] at h
      cases h
    · rw [entries?] at h
      cases h
  | succ fuel ih =>
    obtain ⟨hvalue, hitems, hentries⟩ := ih
    refine ⟨fun {depth cs v rest} h => ?_, fun {depth done cs vs rest} hdone h => ?_,
      fun {depth es cs es' rest} hes h => ?_⟩
    · rw [value?.eq_def] at h
      dsimp only at h
      split at h
      · split at h
        · cases h
        · obtain ⟨⟨vs, rest'⟩, hvs, he⟩ := Option.map_eq_some_iff.1 h
          obtain ⟨rfl, -⟩ := Prod.mk.inj he
          exact .list (hitems (fun _ he => absurd he List.not_mem_nil) hvs)
      · split at h
        · cases h
        · split at h
          · cases h
            exact .table List.Pairwise.nil fun _ he => absurd he List.not_mem_nil
          · obtain ⟨⟨es, rest'⟩, hes, hv⟩ := Option.bind_eq_some_iff.1 h
            obtain ⟨v', hv', he⟩ := Option.map_eq_some_iff.1 hv
            obtain ⟨rfl, -⟩ := Prod.mk.inj he
            exact (hentries Entries.ordered_nil hes).toValue? hv'
      · obtain ⟨⟨s, rest'⟩, -, he⟩ := Option.map_eq_some_iff.1 h
        obtain ⟨rfl, -⟩ := Prod.mk.inj he
        exact .scalar _ _
      · obtain ⟨⟨s, rest'⟩, -, he⟩ := Option.map_eq_some_iff.1 h
        obtain ⟨rfl, -⟩ := Prod.mk.inj he
        exact .scalar _ _
      · exact ordered_wordAt? h
    · rw [items?] at h
      split at h
      · cases h
      · cases h
        simpa using hdone
      · split at h
        · cases h
        · next hv =>
          split at h
          · exact hitems (List.forall_mem_cons.2 ⟨hvalue hv, hdone⟩) h
          · cases h
            simpa [or_imp, forall_and] using And.intro hdone (hvalue hv)
          · cases h
    · rw [entries?] at h
      split at h
      · split at h
        · cases h
        · next hv =>
          split at h
          · next hput _ => exact hentries (hes.put? (hvalue hv) hput) h
          · next hput _ =>
            cases h
            exact hes.put? (hvalue hv) hput
          · cases h
      · cases h

theorem ordered_lines? {fuel : Nat} {es es' : Entries} {opened : List String} {cs : List Char}
    (hes : Entries.Ordered es) (h : lines? fuel es opened cs = some es') : Entries.Ordered es' := by
  induction fuel generalizing es opened cs with
  | zero =>
    rw [lines?] at h
    cases h
  | succ fuel ih =>
    rw [lines?] at h
    split at h
    · cases h
    · exact Option.some.inj h ▸ hes
    · obtain ⟨⟨path, rest⟩, -, h⟩ := Option.bind_eq_some_iff.1 h
      split at h
      · obtain ⟨es₁, hopen, h⟩ := Option.bind_eq_some_iff.1 h
        obtain ⟨rest', -, h⟩ := Option.bind_eq_some_iff.1 h
        exact ih (hes.openItem? hopen) h
      · cases h
    · obtain ⟨⟨path, rest⟩, -, h⟩ := Option.bind_eq_some_iff.1 h
      split at h
      · obtain ⟨es₁, hopen, h⟩ := Option.bind_eq_some_iff.1 h
        obtain ⟨rest', -, h⟩ := Option.bind_eq_some_iff.1 h
        exact ih (hes.openTable? hopen) h
      · cases h
    · obtain ⟨⟨path, rest⟩, -, h⟩ := Option.bind_eq_some_iff.1 h
      split at h
      · obtain ⟨⟨v, rest'⟩, hv, h⟩ := Option.bind_eq_some_iff.1 h
        obtain ⟨es₁, hput, h⟩ := Option.bind_eq_some_iff.1 h
        obtain ⟨rest'', -, h⟩ := Option.bind_eq_some_iff.1 h
        exact ih (hes.putIn? ((ordered_value? _).1 hv) hput) h
      · cases h

/-- **What a document holds** is a sorted table. -/
theorem ordered_parse? {s : String} {v : Value} (h : parse? s = some v) :
    (∃ entries, v = .table .file entries) ∧ v.Ordered := by
  obtain ⟨es, hes, h⟩ := Option.bind_eq_some_iff.1 h
  obtain ⟨entries, hvs, rfl⟩ := Option.map_eq_some_iff.1 h
  have hordered := ordered_lines? Entries.ordered_nil hes
  exact ⟨⟨_, rfl⟩,
    Value.ordered_sortEntries (ordered_toValues? (fun e he => (hordered e he).toValue?) hvs)⟩

end Toml

end BuildLayout.Settings
