import BuildLayout.Emit.Translator
import BuildLayout.Proofs.Path.Segments
import Mathlib.Data.List.Infix

/-!
# Source names and emitted names

The table of endings read in both directions:

* `SuffixFree`, `eq_of_append_eq`: no ending of the table is the end of another, so a name has one
  stem and one ending.
* `roleOf_eq_code_iff`: a compiled name is a stem with a source ending that is not the name of a
  declaration; `roleOf_source`: a stem with a source ending is compiled or a declaration.
* `mem_sourceNames_iff`: the source names of a name are those that a rule pairs with it (`Pairs`),
  or the name itself when no rule emits it (`IsEmitted`).
-/

namespace BuildLayout

namespace Emit

/-! ## Endings -/

/-- No ending is the end of another. -/
def SuffixFree (endings : List String) : Prop :=
  ∀ a ∈ endings, ∀ b ∈ endings, a.toList <:+ b.toList → a = b

instance (endings : List String) : Decidable (SuffixFree endings) :=
  inferInstanceAs (Decidable (∀ a ∈ endings, ∀ b ∈ endings, a.toList <:+ b.toList → a = b))

/-- A text has one way to end. -/
theorem SuffixFree.eq_of_append_eq {endings : List String} (hf : SuffixFree endings)
    {stem stem' a b : String} (ha : a ∈ endings) (hb : b ∈ endings)
    (h : stem ++ a = stem' ++ b) : stem = stem' ∧ a = b := by
  have hl : stem.toList ++ a.toList = stem'.toList ++ b.toList := by
    rw [← String.toList_append, h, String.toList_append]
  have hab : a = b := by
    rcases List.suffix_or_suffix_of_suffix (List.suffix_append stem.toList a.toList)
      (hl ▸ List.suffix_append stem'.toList b.toList) with hs | hs
    · exact hf a ha b hb hs
    · exact (hf b hb a ha hs).symm
  subst hab
  exact ⟨String.toList_inj.1 (List.append_cancel_right hl), rfl⟩

theorem suffixFree_sources : SuffixFree (emitRules.map EmitRule.source) := by decide

theorem suffixFree_emitted :
    SuffixFree (emitRules.map EmitRule.declaration ++ emitRules.map EmitRule.implementation) := by
  decide

theorem stem?_eq_some_iff {name ending stem : String} :
    stem? name ending = some stem ↔ stem ≠ "" ∧ name = stem ++ ending := by
  unfold stem?
  rw [Option.filter_eq_some_iff, Text.dropSuffix?_eq_some_iff, decide_eq_true_iff, and_comm]

/-! ## Looking a name up -/

section
variable {β : Type} {ending : EmitRule → String} {value : EmitRule → β}

/-- The first rule by whose ending a name ends, with what stands before the ending. -/
def lookUp (ending : EmitRule → String) (value : EmitRule → β) (name : String) :
    Option (String × β) :=
  emitRules.findSome? fun rule => (stem? name (ending rule)).map fun stem => (stem, value rule)

theorem lookUp_eq_none_iff {name : String} :
    lookUp ending value name = none ↔
      ∀ rule ∈ emitRules, ∀ stem, stem ≠ "" → name ≠ stem ++ ending rule := by
  unfold lookUp
  rw [List.findSome?_eq_none_iff]
  refine forall₂_congr fun rule _ => ?_
  rw [Option.map_eq_none_iff, Option.eq_none_iff_forall_ne_some]
  refine forall_congr' fun stem => ?_
  rw [ne_eq, stem?_eq_some_iff, not_and]

/-- **What a name is looked up to**, in a table where no ending is the end of another. -/
theorem lookUp_eq_some_iff (hf : SuffixFree (emitRules.map ending))
    (hv : ∀ r ∈ emitRules, ∀ r' ∈ emitRules, ending r = ending r' → value r = value r')
    {name stem : String} {b : β} :
    lookUp ending value name = some (stem, b) ↔
      stem ≠ "" ∧ ∃ rule ∈ emitRules, name = stem ++ ending rule ∧ value rule = b := by
  have hsound : ∀ {stem b}, lookUp ending value name = some (stem, b) →
      stem ≠ "" ∧ ∃ rule ∈ emitRules, name = stem ++ ending rule ∧ value rule = b := by
    intro stem b h
    obtain ⟨rule, hr, hs⟩ := List.exists_of_findSome?_eq_some h
    obtain ⟨stem', hstem, he⟩ := Option.map_eq_some_iff.1 hs
    obtain ⟨rfl, rfl⟩ := Prod.mk.inj he
    obtain ⟨hne, hn⟩ := stem?_eq_some_iff.1 hstem
    exact ⟨hne, rule, hr, hn, rfl⟩
  refine ⟨hsound, ?_⟩
  rintro ⟨hne, rule, hr, hn, rfl⟩
  cases hl : lookUp ending value name with
  | none => exact absurd hn (lookUp_eq_none_iff.1 hl rule hr stem hne)
  | some found =>
    obtain ⟨stem', b⟩ := found
    obtain ⟨-, rule', hr', hn', rfl⟩ := hsound hl
    obtain ⟨rfl, he⟩ := hf.eq_of_append_eq (List.mem_map_of_mem hr) (List.mem_map_of_mem hr')
      (hn.symm.trans hn')
    rw [hv rule hr rule' hr' he]

end

/-! ## Compiled names -/

theorem roleOf_eq (name : String) :
    roleOf name =
      if isPlainDeclaration name || isForeignDeclaration name then .declaration
      else match lookUp EmitRule.source id name with
        | some (stem, rule) => .code stem rule
        | none => .asset := rfl

theorem lookUp_source_eq_some_iff {name stem : String} {rule : EmitRule} :
    lookUp EmitRule.source id name = some (stem, rule) ↔
      stem ≠ "" ∧ rule ∈ emitRules ∧ name = stem ++ rule.source := by
  rw [lookUp_eq_some_iff suffixFree_sources (by decide)]
  refine and_congr_right fun _ => ⟨?_, fun ⟨hr, hn⟩ => ⟨rule, hr, hn, rfl⟩⟩
  rintro ⟨rule, hr, hn, rfl⟩
  exact ⟨hr, hn⟩

/-- **A compiled name** is a stem with a source ending, and not the name of a declaration. -/
theorem roleOf_eq_code_iff {name stem : String} {rule : EmitRule} :
    roleOf name = .code stem rule ↔
      roleOf name ≠ .declaration ∧ stem ≠ "" ∧ rule ∈ emitRules ∧ name = stem ++ rule.source := by
  rw [roleOf_eq]
  split
  · simp
  · rw [← lookUp_source_eq_some_iff]
    cases hl : lookUp EmitRule.source id name with
    | none => simp
    | some found => simp [Prod.ext_iff]

/-- The source is compiled. -/
def IsCompiled (name : String) : Prop :=
  ∃ stem rule, roleOf name = .code stem rule

/-- A stem with a source ending that is compiled is compiled by the rule of the ending. -/
theorem IsCompiled.roleOf_eq {stem : String} {rule : EmitRule}
    (h : IsCompiled (stem ++ rule.source)) (hne : stem ≠ "") (hr : rule ∈ emitRules) :
    roleOf (stem ++ rule.source) = .code stem rule := by
  obtain ⟨stem', rule', hrole⟩ := h
  exact roleOf_eq_code_iff.2 ⟨(roleOf_eq_code_iff.1 hrole).1, hne, hr, rfl⟩

/-! ## Emitted names -/

/-- What a rule emits ends so. -/
def Emits (rule : EmitRule) (ending : String) : Prop :=
  ending = rule.declaration ∨ ending = rule.implementation

/-- What is emitted for the source name by the rule of its ending. -/
def Pairs (source emitted : String) : Prop :=
  ∃ stem, stem ≠ "" ∧ ∃ rule ∈ emitRules, ∃ ending, Emits rule ending ∧
    source = stem ++ rule.source ∧ emitted = stem ++ ending

/-- The name ends as what is emitted for a source does, with a stem before the ending. -/
def IsEmitted (name : String) : Prop :=
  ∃ stem, stem ≠ "" ∧ ∃ rule ∈ emitRules, ∃ ending, Emits rule ending ∧ name = stem ++ ending

theorem Pairs.isEmitted {source name : String} (h : Pairs source name) : IsEmitted name := by
  obtain ⟨stem, hne, rule, hr, ending, he, -, hn⟩ := h
  exact ⟨stem, hne, rule, hr, ending, he, hn⟩

theorem Emits.mem {rule : EmitRule} {ending : String} (h : Emits rule ending)
    (hr : rule ∈ emitRules) :
    ending ∈ emitRules.map EmitRule.declaration ++ emitRules.map EmitRule.implementation := by
  rcases h with rfl | rfl
  · exact List.mem_append_left _ (List.mem_map_of_mem hr)
  · exact List.mem_append_right _ (List.mem_map_of_mem hr)

/-- An emitted name has one stem and one ending. -/
theorem Emits.eq_of_append_eq {rule rule' : EmitRule} {a b stem stem' : String} (ha : Emits rule a)
    (hr : rule ∈ emitRules) (hb : Emits rule' b) (hr' : rule' ∈ emitRules)
    (h : stem ++ a = stem' ++ b) : stem = stem' ∧ a = b :=
  suffixFree_emitted.eq_of_append_eq (ha.mem hr) (hb.mem hr') h

theorem Emits.ne_source {rule rule' : EmitRule} {ending : String} (h : Emits rule ending)
    (hr : rule ∈ emitRules) (hr' : rule' ∈ emitRules) : ending ≠ rule'.source := by
  have htable : ∀ r ∈ emitRules, ∀ r' ∈ emitRules,
      r.declaration ≠ r'.source ∧ r.implementation ≠ r'.source := by decide
  rcases h with rfl | rfl
  · exact (htable rule hr rule' hr').1
  · exact (htable rule hr rule' hr').2

theorem not_pairs_self (name : String) : ¬ Pairs name name := by
  rintro ⟨stem, -, rule, hr, ending, he, hs, hn⟩
  exact he.ne_source hr hr ((String.append_right_inj stem).1 (hn.symm.trans hs))

/-- The source endings of the rules that have an ending in common with a rule. -/
def sourcesLike (ending : EmitRule → String) (rule : EmitRule) : List String :=
  (emitRules.filter (ending · = ending rule)).map EmitRule.source

theorem mem_sourcesLike {ending : EmitRule → String} {rule : EmitRule} {source : String} :
    source ∈ sourcesLike ending rule ↔
      ∃ rule' ∈ emitRules, ending rule' = ending rule ∧ rule'.source = source := by
  simp [sourcesLike, and_assoc]

/-- A name found by one kind of ending is emitted, and the source names found with it are those that
a rule pairs with it. -/
theorem isEmitted_of_lookUp {ending : EmitRule → String}
    (hf : SuffixFree (emitRules.map ending)) (hkind : ∀ rule, Emits rule (ending rule))
    (hcross : ∀ r ∈ emitRules, ∀ r' ∈ emitRules,
      ending r = r'.declaration ∨ ending r = r'.implementation → ending r' = ending r)
    {name stem : String} {endings : List String}
    (h : lookUp ending (sourcesLike ending) name = some (stem, endings)) :
    IsEmitted name ∧ ∀ source, source ∈ endings.map (stem ++ ·) ↔ Pairs source name := by
  have hvalue : ∀ r ∈ emitRules, ∀ r' ∈ emitRules, ending r = ending r' →
      sourcesLike ending r = sourcesLike ending r' := by
    intro r _ r' _ he
    simp only [sourcesLike, he]
  obtain ⟨hne, rule, hr, hn, rfl⟩ := (lookUp_eq_some_iff hf hvalue).1 h
  refine ⟨⟨stem, hne, rule, hr, _, hkind rule, hn⟩, fun source => ⟨fun hs => ?_, ?_⟩⟩
  · obtain ⟨_, he, rfl⟩ := List.mem_map.1 hs
    obtain ⟨rule', hr', hlike, rfl⟩ := mem_sourcesLike.1 he
    exact ⟨stem, hne, rule', hr', _, hkind rule', rfl, hlike ▸ hn⟩
  · rintro ⟨stem', hne', rule', hr', ending', he', rfl, hn'⟩
    obtain ⟨rfl, rfl⟩ := (hkind rule).eq_of_append_eq hr he' hr' (hn.symm.trans hn')
    exact List.mem_map_of_mem (mem_sourcesLike.2 ⟨rule', hr', hcross rule hr rule' hr' he', rfl⟩)

theorem sourcesOf?_eq (name : String) :
    sourcesOf? name =
      (lookUp EmitRule.declaration (sourcesLike EmitRule.declaration) name).or
        (lookUp EmitRule.implementation (sourcesLike EmitRule.implementation) name) := rfl

/-- **The source names of a name** are those that a rule pairs with it; a name under which nothing
is emitted stands for itself. -/
theorem mem_sourceNames_iff {name source : String} :
    source ∈ Translator.sourceNames name ↔
      Pairs source name ∨ source = name ∧ ¬ IsEmitted name := by
  unfold Translator.sourceNames
  rw [sourcesOf?_eq]
  cases hd : lookUp EmitRule.declaration (sourcesLike EmitRule.declaration) name with
  | some found =>
    obtain ⟨stem, endings⟩ := found
    obtain ⟨hem, hmem⟩ :=
      isEmitted_of_lookUp (by decide) (fun _ => .inl rfl) (by decide) hd
    simp only [Option.some_or, hmem, hem, not_true_eq_false, and_false, or_false]
  | none =>
    cases hi : lookUp EmitRule.implementation (sourcesLike EmitRule.implementation) name with
    | some found =>
      obtain ⟨stem, endings⟩ := found
      obtain ⟨hem, hmem⟩ :=
        isEmitted_of_lookUp (by decide) (fun _ => .inr rfl) (by decide) hi
      simp only [Option.none_or, hmem, hem, not_true_eq_false, and_false, or_false]
    | none =>
      have hnot : ¬ IsEmitted name := by
        rintro ⟨stem, hne, rule, hr, _, rfl | rfl, hn⟩
        · exact lookUp_eq_none_iff.1 hd rule hr stem hne hn
        · exact lookUp_eq_none_iff.1 hi rule hr stem hne hn
      have hpairs : ¬ Pairs source name := fun hp => hnot hp.isEmitted
      simp [hnot, hpairs]

/-- An emitted name does not stand for itself. -/
theorem isEmitted_iff {name : String} : IsEmitted name ↔ name ∉ Translator.sourceNames name := by
  rw [mem_sourceNames_iff]
  simp [not_pairs_self]

instance (name : String) : Decidable (IsEmitted name) :=
  decidable_of_iff (name ∉ Translator.sourceNames name) isEmitted_iff.symm

/-! ## What is emitted for a name -/

/-- The name of the implementation of a source, or of its copy. -/
def implementationName (name : String) : String :=
  match roleOf name with
  | .code stem rule => stem ++ rule.implementation
  | .declaration | .asset => name

/-- The name of the declaration of a compiled source; `ending` replaces that of the table. -/
def declarationName? (ending : Option String) (name : String) : Option String :=
  match roleOf name with
  | .code stem rule => some (stem ++ ending.getD rule.declaration)
  | .declaration | .asset => none

theorem implementationName_of_code {name stem : String} {rule : EmitRule}
    (h : roleOf name = .code stem rule) : implementationName name = stem ++ rule.implementation := by
  unfold implementationName
  rw [h]

theorem declarationName?_of_code {name stem : String} {rule : EmitRule} (ending : Option String)
    (h : roleOf name = .code stem rule) :
    declarationName? ending name = some (stem ++ ending.getD rule.declaration) := by
  unfold declarationName?
  rw [h]

theorem implementationName_of_not_compiled {name : String} (h : ¬ IsCompiled name) :
    implementationName name = name := by
  unfold implementationName
  split
  · next stem rule hr => exact absurd ⟨stem, rule, hr⟩ h
  · rfl
  · rfl

theorem declarationName?_of_not_compiled {name : String} (ending : Option String)
    (h : ¬ IsCompiled name) : declarationName? ending name = none := by
  unfold declarationName?
  split
  · next stem rule hr => exact absurd ⟨stem, rule, hr⟩ h
  · rfl
  · rfl

/-- A compiled source is emitted under the names that its rule pairs with it. -/
theorem pairs_of_code {name stem : String} {rule : EmitRule} (h : roleOf name = .code stem rule) :
    Pairs name (stem ++ rule.implementation) ∧ Pairs name (stem ++ rule.declaration) := by
  obtain ⟨-, hne, hr, hn⟩ := roleOf_eq_code_iff.1 h
  exact ⟨⟨stem, hne, rule, hr, _, .inr rfl, hn, rfl⟩, ⟨stem, hne, rule, hr, _, .inl rfl, hn, rfl⟩⟩

theorem mem_sourceNames_of_declarationName? {source name : String}
    (h : declarationName? none source = some name) : source ∈ Translator.sourceNames name := by
  by_cases hc : IsCompiled source
  · obtain ⟨stem, rule, hrole⟩ := hc
    rw [declarationName?_of_code none hrole] at h
    exact mem_sourceNames_iff.2 (.inl (Option.some.inj h ▸ (pairs_of_code hrole).2))
  · rw [declarationName?_of_not_compiled none hc] at h
    cases h

/-- The name of a declaration that is emitted. -/
theorem isPlainDeclaration_iff {name : String} :
    isPlainDeclaration name ↔
      ∃ stem, stem ≠ "" ∧ ∃ rule ∈ emitRules, name = stem ++ rule.declaration := by
  unfold isPlainDeclaration
  simp only [List.any_eq_true, Option.isSome_iff_exists, stem?_eq_some_iff]
  constructor
  · rintro ⟨rule, hr, stem, hne, hn⟩
    exact ⟨stem, hne, rule, hr, hn⟩
  · rintro ⟨stem, hne, rule, hr, hn⟩
    exact ⟨rule, hr, stem, hne, hn⟩

theorem isEmitted_of_isPlainDeclaration {name : String} (h : isPlainDeclaration name) :
    IsEmitted name := by
  obtain ⟨stem, hne, rule, hr, hn⟩ := isPlainDeclaration_iff.1 h
  exact ⟨stem, hne, rule, hr, _, .inl rfl, hn⟩

theorem isPlainDeclaration_append {stem ending : String} {rule : EmitRule} (hne : stem ≠ "")
    (hr : rule ∈ emitRules) (he : Emits rule ending) :
    isPlainDeclaration (stem ++ ending) ↔ ending = rule.declaration := by
  have htable : ∀ r ∈ emitRules, ∀ r' ∈ emitRules, r.implementation ≠ r'.declaration := by decide
  rw [isPlainDeclaration_iff]
  constructor
  · rintro ⟨stem', -, rule', hr', hn⟩
    obtain ⟨-, heq⟩ := he.eq_of_append_eq hr (.inl rfl) hr' hn
    refine he.resolve_right fun hi => ?_
    exact htable rule hr rule' hr' (hi ▸ heq)
  · rintro rfl
    exact ⟨stem, hne, rule, hr, rfl⟩

section
variable {source name : String} (hm : source ∈ Translator.sourceNames name)
include hm

/-- **A source name leads back to an implementation** when it is compiled just if the name is an
emitted one, and the name is not that of a declaration. -/
theorem implementationName_eq_iff :
    implementationName source = name ↔
      (IsCompiled source ↔ IsEmitted name) ∧ ¬ isPlainDeclaration name := by
  rcases mem_sourceNames_iff.1 hm with hp | ⟨rfl, hnot⟩
  · have hem := hp.isEmitted
    obtain ⟨stem, hne, rule, hr, ending, he, rfl, rfl⟩ := id hp
    by_cases hc : IsCompiled (stem ++ rule.source)
    · have htable : ∀ r ∈ emitRules, r.implementation ≠ r.declaration := by decide
      rw [implementationName_of_code (hc.roleOf_eq hne hr), String.append_right_inj,
        isPlainDeclaration_append hne hr he]
      simp only [hc, hem, true_and]
      rcases he with rfl | rfl
      · simp [htable rule hr]
      · simp [htable rule hr]
    · rw [implementationName_of_not_compiled hc]
      refine iff_of_false (fun heq => ?_) fun h => hc (h.1.2 hem)
      exact not_pairs_self _ (heq ▸ hp)
  · have hd : ¬ isPlainDeclaration source := fun h => hnot (isEmitted_of_isPlainDeclaration h)
    by_cases hc : IsCompiled source
    · obtain ⟨stem, rule, hrole⟩ := id hc
      refine iff_of_false (fun heq => ?_) fun h => hnot (h.1.1 hc)
      rw [implementationName_of_code hrole] at heq
      exact hnot (heq ▸ (pairs_of_code hrole).1.isEmitted)
    · simp [implementationName_of_not_compiled hc, hc, hnot, hd]

/-- **A source name leads back to a declaration** when it is compiled just if the name is an emitted
one, and the name is that of a declaration. -/
theorem declarationName?_eq_iff :
    declarationName? none source = some name ↔
      (IsCompiled source ↔ IsEmitted name) ∧ isPlainDeclaration name := by
  rcases mem_sourceNames_iff.1 hm with hp | ⟨rfl, hnot⟩
  · have hem := hp.isEmitted
    obtain ⟨stem, hne, rule, hr, ending, he, rfl, rfl⟩ := hp
    by_cases hc : IsCompiled (stem ++ rule.source)
    · rw [declarationName?_of_code none (hc.roleOf_eq hne hr), isPlainDeclaration_append hne hr he]
      simp [hc, hem, String.append_right_inj, eq_comm]
    · simp [declarationName?_of_not_compiled none hc, hc, hem]
  · have hd : ¬ isPlainDeclaration source := fun h => hnot (isEmitted_of_isPlainDeclaration h)
    by_cases hc : IsCompiled source
    · obtain ⟨stem, rule, hrole⟩ := id hc
      refine iff_of_false (fun heq => ?_) fun h => hd h.2
      rw [declarationName?_of_code none hrole] at heq
      exact hnot (Option.some.inj heq ▸ (pairs_of_code hrole).2.isEmitted)
    · simp [declarationName?_of_not_compiled none hc, hd]

end

/-! ## Plain names -/

/-- The endings of the table are long enough that no name becomes `.` or `..`, have no separator, and
are text that begins with a dot. -/
structure IsEnding (ending : String) : Prop where
  length : 3 ≤ ending.toList.length
  slash : '/' ∉ ending.toList
  backslash : '\\' ∉ ending.toList
  dot : ending.toList.head? = some '.'
  text : Text.isText ending

instance (ending : String) : Decidable (IsEnding ending) :=
  decidable_of_iff (3 ≤ ending.toList.length ∧ '/' ∉ ending.toList ∧ '\\' ∉ ending.toList ∧
      ending.toList.head? = some '.' ∧ Text.isText ending)
    ⟨fun ⟨length, slash, backslash, dot, text⟩ => ⟨length, slash, backslash, dot, text⟩,
      fun ⟨length, slash, backslash, dot, text⟩ => ⟨length, slash, backslash, dot, text⟩⟩

theorem isEnding_source {rule : EmitRule} (hr : rule ∈ emitRules) : IsEnding rule.source := by
  have : ∀ r ∈ emitRules, IsEnding r.source := by decide
  exact this rule hr

theorem Emits.isEnding {rule : EmitRule} {ending : String} (h : Emits rule ending)
    (hr : rule ∈ emitRules) : IsEnding ending := by
  have htable : ∀ r ∈ emitRules, IsEnding r.declaration ∧ IsEnding r.implementation := by decide
  rcases h with rfl | rfl
  · exact (htable rule hr).1
  · exact (htable rule hr).2

/-- A plain name stays plain with another ending. -/
theorem isPlain_append {stem a b : String} (h : Path.IsPlain (stem ++ a)) (hb : IsEnding b) :
    Path.IsPlain (stem ++ b) := by
  obtain ⟨hlength, hslash, hback, -, -⟩ := hb
  have hstem : ∀ c, c ∉ (stem ++ a).toList → c ∉ stem.toList := by
    intro c hc hs
    exact hc (by rw [String.toList_append]; exact List.mem_append_left _ hs)
  have hlong : ∀ s : String, s.toList.length < 3 → stem ++ b ≠ s := by
    intro s hs he
    have hl := congrArg (fun t : String => t.toList.length) he
    simp only [String.toList_append, List.length_append] at hl
    omega
  refine ⟨⟨hlong _ (by decide), hlong _ (by decide), hlong _ (by decide), ?_⟩, ?_⟩
  · rw [String.toList_append, List.mem_append, not_or]
    exact ⟨hstem _ h.1.2.2.2, hslash⟩
  · rw [String.toList_append, List.mem_append, not_or]
    exact ⟨hstem _ h.2, hback⟩

theorem isPlain_of_mem_sourceNames {source name : String} (h : Path.IsPlain name)
    (hm : source ∈ Translator.sourceNames name) : Path.IsPlain source := by
  rcases mem_sourceNames_iff.1 hm with ⟨stem, -, rule, hr, ending, -, rfl, rfl⟩ | ⟨rfl, -⟩
  · exact isPlain_append h (isEnding_source hr)
  · exact h

theorem Pairs.isPlain {source name : String} (hp : Pairs source name)
    (h : Path.IsPlain source) : Path.IsPlain name := by
  obtain ⟨stem, -, rule, hr, ending, he, rfl, rfl⟩ := hp
  exact isPlain_append h (he.isEnding hr)

theorem isPlain_implementationName {name : String} (h : Path.IsPlain name) :
    Path.IsPlain (implementationName name) := by
  by_cases hc : IsCompiled name
  · obtain ⟨stem, rule, hrole⟩ := hc
    rw [implementationName_of_code hrole]
    exact (pairs_of_code hrole).1.isPlain h
  · rwa [implementationName_of_not_compiled hc]

theorem isPlain_declarationName? {name declaration : String} (h : Path.IsPlain name)
    (hd : declarationName? none name = some declaration) : Path.IsPlain declaration := by
  by_cases hc : IsCompiled name
  · obtain ⟨stem, rule, hrole⟩ := hc
    rw [declarationName?_of_code none hrole] at hd
    exact Option.some.inj hd ▸ (pairs_of_code hrole).2.isPlain h
  · rw [declarationName?_of_not_compiled none hc] at hd
    cases hd

/-! ## Names that are text -/

/-- An ending of the table makes no text of a name and keeps it one. -/
theorem IsEnding.isText_append {ending : String} (h : IsEnding ending) (stem : String) :
    Text.isText (stem ++ ending) = Text.isText stem := by
  have hfirst : ∀ c ∈ ending.toList.head?, Text.strayByte? c = none := by
    rw [h.dot]
    rintro _ ⟨⟩
    rfl
  rw [Text.isText_append hfirst, h.text, Bool.and_true]

theorem Pairs.isText {source name : String} (hp : Pairs source name) :
    Text.isText source = Text.isText name := by
  obtain ⟨stem, -, rule, hr, ending, he, rfl, rfl⟩ := hp
  rw [(isEnding_source hr).isText_append, (he.isEnding hr).isText_append]

/-- The source names of a text are texts. -/
theorem isText_of_mem_sourceNames {source name : String}
    (h : source ∈ Translator.sourceNames name) : Text.isText source = Text.isText name := by
  rcases mem_sourceNames_iff.1 h with hp | ⟨rfl, -⟩
  · exact hp.isText
  · rfl

theorem isText_implementationName (name : String) :
    Text.isText (implementationName name) = Text.isText name := by
  by_cases hc : IsCompiled name
  · obtain ⟨stem, rule, hrole⟩ := hc
    rw [implementationName_of_code hrole, (pairs_of_code hrole).1.isText]
  · rw [implementationName_of_not_compiled hc]

end Emit

end BuildLayout
