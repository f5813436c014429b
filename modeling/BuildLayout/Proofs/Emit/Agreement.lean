import BuildLayout.Proofs.Emit.Name

/-!
# The table read forwards and backwards

`roleOf` finds the rule of a source name by its source ending. `sourcesOf?` goes back from an
emitted name, by the endings of declarations first and by those of implementations then. No ending
of the one kind is the end of one of the other, so the order does not count
(`sourcesOf?_eq_some_iff`), and the two ways through the table agree: what a rule emits for a stem
leads back to the stem and to the source ending of the rule, and a source that is led back to is one
for which the rule of its ending emits the name (`roleOf_agrees_sourcesOf?`).
-/

namespace BuildLayout.Emit

/-! ## Going back from an emitted name -/

/-- What is emitted for a source is of two kinds, each with an ending of its own. -/
def IsKind (ending : EmitRule → String) : Prop :=
  ending = EmitRule.declaration ∨ ending = EmitRule.implementation

section
variable {ending : EmitRule → String} (hk : IsKind ending)
include hk

theorem IsKind.emits (rule : EmitRule) : Emits rule (ending rule) := by
  rcases hk with rfl | rfl
  · exact .inl rfl
  · exact .inr rfl

theorem IsKind.suffixFree : SuffixFree (emitRules.map ending) := by
  rcases hk with rfl | rfl
  · decide
  · decide

/-- A name that is looked up by the endings of one kind. -/
theorem IsKind.lookUp_eq_some_iff {name stem : String} {sources : List String} :
    lookUp ending (sourcesLike ending) name = some (stem, sources) ↔
      stem ≠ "" ∧ ∃ rule ∈ emitRules, name = stem ++ ending rule ∧
        sourcesLike ending rule = sources :=
  Emit.lookUp_eq_some_iff hk.suffixFree fun r _ r' _ he => by simp only [sourcesLike, he]

end

/-- The name of an implementation is not that of a declaration. -/
theorem lookUp_declaration_implementation {β : Type} (value : EmitRule → β) (stem : String)
    {rule : EmitRule} (hr : rule ∈ emitRules) :
    lookUp EmitRule.declaration value (stem ++ rule.implementation) = none := by
  have htable : ∀ r ∈ emitRules, ∀ r' ∈ emitRules, r.implementation ≠ r'.declaration := by decide
  rw [lookUp_eq_none_iff]
  intro rule' hr' stem' _ hname
  have hi : Emits rule rule.implementation := .inr rfl
  have hd : Emits rule' rule'.declaration := .inl rfl
  exact htable rule hr rule' hr' (hi.eq_of_append_eq hr hd hr' hname).2

/-- **What an emitted name leads back to**: its stem, and the source endings of the rules that emit
its ending. -/
theorem sourcesOf?_eq_some_iff {name stem : String} {sources : List String} :
    sourcesOf? name = some (stem, sources) ↔
      stem ≠ "" ∧ ∃ ending, IsKind ending ∧ ∃ rule ∈ emitRules,
        name = stem ++ ending rule ∧ sourcesLike ending rule = sources := by
  have hdeclaration : IsKind EmitRule.declaration := .inl rfl
  have himplementation : IsKind EmitRule.implementation := .inr rfl
  rw [sourcesOf?_eq, Option.or_eq_some_iff, hdeclaration.lookUp_eq_some_iff,
    himplementation.lookUp_eq_some_iff]
  constructor
  · rintro (⟨hne, hfound⟩ | ⟨-, hne, hfound⟩)
    · exact ⟨hne, _, hdeclaration, hfound⟩
    · exact ⟨hne, _, himplementation, hfound⟩
  · rintro ⟨hne, ending, rfl | rfl, rule, hr, rfl, hsources⟩
    · exact .inl ⟨hne, rule, hr, rfl, hsources⟩
    · exact .inr ⟨lookUp_declaration_implementation _ stem hr, hne, rule, hr, rfl, hsources⟩

/-! ## The two ways through the table -/

/-- What is emitted for a compiled name leads back to its stem and its ending. -/
theorem exists_sourcesOf?_of_code {name stem : String} {rule : EmitRule}
    (h : roleOf name = .code stem rule) {ending : EmitRule → String} (hk : IsKind ending) :
    ∃ sources, sourcesOf? (stem ++ ending rule) = some (stem, sources) ∧ rule.source ∈ sources := by
  obtain ⟨-, hne, hr, -⟩ := roleOf_eq_code_iff.1 h
  exact ⟨_, sourcesOf?_eq_some_iff.2 ⟨hne, ending, hk, rule, hr, rfl, rfl⟩,
    mem_sourcesLike.2 ⟨rule, hr, rfl, rfl⟩⟩

/-- A name leads back to compiled sources for which it is emitted. -/
theorem emits_of_sourcesOf? {name stem source : String} {sources : List String}
    (h : sourcesOf? name = some (stem, sources)) (hs : source ∈ sources) {stem' : String}
    {rule : EmitRule} (hrole : roleOf (stem ++ source) = .code stem' rule) :
    stem' = stem ∧ rule.source = source ∧
      (name = stem ++ rule.implementation ∨ name = stem ++ rule.declaration) := by
  obtain ⟨-, ending, hk, first, hfirst, rfl, rfl⟩ := sourcesOf?_eq_some_iff.1 h
  obtain ⟨other, hother, hlike, rfl⟩ := mem_sourcesLike.1 hs
  obtain ⟨-, -, hr, hname⟩ := roleOf_eq_code_iff.1 hrole
  obtain ⟨rfl, hsource⟩ := suffixFree_sources.eq_of_append_eq (List.mem_map_of_mem hother)
    (List.mem_map_of_mem hr) hname
  -- each source ending has one rule
  have hinj : ∀ r ∈ emitRules, ∀ r' ∈ emitRules, r.source = r'.source → r = r' := by decide
  obtain rfl := hinj other hother rule hr hsource
  refine ⟨rfl, rfl, ?_⟩
  rw [← hlike]
  rcases hk with rfl | rfl
  · exact .inr rfl
  · exact .inl rfl

/-! ## The main result -/

/-- **The two ways through the table agree.** -/
theorem roleOf_agrees_sourcesOf? :
    (∀ {name stem rule}, roleOf name = .code stem rule →
      stem ≠ "" ∧ rule ∈ emitRules ∧ name = stem ++ rule.source ∧
      (∃ sources, sourcesOf? (stem ++ rule.implementation) = some (stem, sources) ∧
        rule.source ∈ sources) ∧
      ∃ sources, sourcesOf? (stem ++ rule.declaration) = some (stem, sources) ∧
        rule.source ∈ sources) ∧
    ∀ {name stem sources}, sourcesOf? name = some (stem, sources) →
      ∀ source ∈ sources, ∀ {stem' rule}, roleOf (stem ++ source) = .code stem' rule →
        stem' = stem ∧ rule.source = source ∧
          (name = stem ++ rule.implementation ∨ name = stem ++ rule.declaration) := by
  refine ⟨?_, fun h source hs _ _ hrole => emits_of_sourcesOf? h hs hrole⟩
  intro name stem rule h
  obtain ⟨-, hne, hr, hname⟩ := roleOf_eq_code_iff.1 h
  exact ⟨hne, hr, hname, exists_sourcesOf?_of_code h (.inr rfl),
    exists_sourcesOf?_of_code h (.inl rfl)⟩

/-- A stem that ends as one of a declaration does: one of the two sources of `Foo.d.js` is
compiled, the other is a declaration. -/
theorem roleOf_agrees_sourcesOf?_dotted :
    roleOf "Foo.d.tsx" = .code "Foo.d" ⟨".tsx", ".js", ".d.ts"⟩ ∧
      roleOf "Foo.d.ts" = .declaration ∧ sourcesOf? "Foo.d.js" = some ("Foo.d", [".ts", ".tsx"]) ∧
      (∃ sources, sourcesOf? ("Foo.d" ++ ".d.ts") = some ("Foo.d", sources) ∧
        ".tsx" ∈ sources) ∧
      ("Foo.d.js" = "Foo.d" ++ ".js" ∨ "Foo.d.js" = "Foo.d" ++ ".d.ts") := by
  have hrole : roleOf "Foo.d.tsx" = .code "Foo.d" ⟨".tsx", ".js", ".d.ts"⟩ := by decide
  have hback : sourcesOf? "Foo.d.js" = some ("Foo.d", [".ts", ".tsx"]) := by decide
  obtain ⟨-, -, -, -, hdeclaration⟩ := roleOf_agrees_sourcesOf?.1 hrole
  obtain ⟨-, -, hemits⟩ := roleOf_agrees_sourcesOf?.2 hback ".tsx" (by decide) hrole
  exact ⟨hrole, by decide, hback, hdeclaration, hemits⟩

end BuildLayout.Emit
