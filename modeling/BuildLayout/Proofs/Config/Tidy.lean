import BuildLayout.Proofs.Config.Comments

/-!
# Places where taking out leaves no trace

A comment inside a line leaves nothing behind, so what stands on its two sides can become one word or
numeral; a comment that is never closed is taken out like the others; and a comma is blanked before a
closing bracket even when no item is before it. `Orderly` says that nothing of this kind is at one
place of a text, `codeTails` are the places outside strings and comments, and a text is `Tidy` when it
is orderly at each of them.

Texts with comments are tidy (`Denotes.tidy`).
-/

namespace BuildLayout.Jsonc

open Json (Token Tree Piece bodyChars IsHex Spread isAtomic Stops)

/-! ## Places of a text -/

/-- What is left of a text at each place outside strings and comments; at a comment, only what is
left where it begins. -/
def codeTails : Mode → List Char → List (List Char)
  | _, [] => []
  | .code, '/' :: '/' :: cs => ('/' :: '/' :: cs) :: codeTails .line cs
  | .code, '/' :: '*' :: cs => ('/' :: '*' :: cs) :: codeTails (.block false) cs
  | .code, c :: cs => (c :: cs) :: codeTails (if c = '"' then .string else .code) cs
  | .string, c :: cs =>
    codeTails (if c = '\\' then .escape else if c = '"' then .code else .string) cs
  | .escape, _ :: cs => codeTails .string cs
  | .line, c :: cs => if c = '\n' then codeTails .code cs else codeTails .line cs
  | .block star, c :: cs =>
    if c = '\n' then codeTails (.block false) cs
    else if star ∧ c = '/' then codeTails .code cs
    else codeTails (.block (c = '*')) cs

/-- Nothing that is taken out at this place makes the text look like another one. -/
structure Orderly (tail : List Char) : Prop where
  /-- A comment that begins here is closed. -/
  closed : ∀ cs, tail = '/' :: '*' :: cs → ['*', '/'] <:+: cs
  /-- No comment stands between this character and another one of the same word or numeral. -/
  apart : ∀ c cs, tail = c :: cs → isAtomic c → startsComment cs → Stops (stripComments .code cs)
  /-- No comma stands alone between this bracket and the one that closes it. -/
  notLone : ∀ frame cs rest, tail = Json.Frame.opener frame :: cs →
    (stripComments .code cs).dropWhile Json.Cursor.isBlank = ',' :: rest → closesNext rest = false

/-- The text is orderly at all its places. -/
def Tidy (text : List Char) : Prop :=
  ∀ tail ∈ codeTails .code text, Orderly tail

theorem codeTails_nil (mode : Mode) : codeTails mode [] = [] := by
  cases mode <;> rw [codeTails]

theorem codeTails_code {c : Char} {cs : List Char} (h : startsComment (c :: cs) = false) :
    codeTails .code (c :: cs) =
      (c :: cs) :: codeTails (if c = '"' then .string else .code) cs := by
  rw [codeTails]
  · rintro rest rfl rfl
    cases h
  · rintro rest rfl rfl
    cases h

theorem skipsComments_codeTails : SkipsComments codeTails [] where
  nil := codeTails_nil
  line c cs := by
    rw [codeTails]
    rfl
  block star c cs := by
    rw [codeTails]
    rfl

theorem codeTails_piece (p : Piece) (cs : List Char) :
    codeTails .string (p.chars ++ cs) = codeTails .string cs := by
  cases p with
  | plain c h =>
    show codeTails .string (c :: cs) = _
    rw [codeTails, if_neg h.2.2, if_neg h.2.1]
  | short letter h =>
    show codeTails .string ('\\' :: letter :: cs) = _
    rw [codeTails, if_pos rfl, codeTails]
  | unit d0 d1 d2 d3 h =>
    have hstep : ∀ {d : Char}, IsHex d → ∀ cs, codeTails .string (d :: cs) = codeTails .string cs := by
      intro d hd cs
      rw [codeTails, if_neg (ne_of_isHex hd).1, if_neg (ne_of_isHex hd).2]
    show codeTails .string ('\\' :: 'u' :: d0 :: d1 :: d2 :: d3 :: cs) = _
    rw [codeTails, if_pos rfl, codeTails, hstep h.1, hstep h.2.1, hstep h.2.2.1, hstep h.2.2.2]

theorem codeTails_body (pieces : List Piece) (cs : List Char) :
    codeTails .string (bodyChars pieces ++ '"' :: cs) = codeTails .code cs := by
  unfold bodyChars
  induction pieces with
  | nil =>
    show codeTails .string ('"' :: cs) = _
    rw [codeTails, if_neg (by decide), if_pos rfl]
  | cons p pieces ih => rw [List.flatMap_cons, List.append_assoc, codeTails_piece, ih]

theorem codeTails_string (pieces : List Piece) (cs : List Char) :
    codeTails .code ('"' :: (bodyChars pieces ++ '"' :: cs)) =
      ('"' :: (bodyChars pieces ++ '"' :: cs)) :: codeTails .code cs := by
  rw [codeTails_code (startsComment_of_ne (by decide) _), if_pos rfl, codeTails_body]

theorem lineEnds_nil (cs : List Char) : lineEnds ([] : List (List Char)) cs = [] := by
  unfold lineEnds
  simp

theorem codeTails_line {body : List Char} (h : '\n' ∉ body) (cs : List Char) :
    codeTails .code ('/' :: '/' :: (body ++ '\n' :: cs)) =
      ('/' :: '/' :: (body ++ '\n' :: cs)) :: codeTails .code cs := by
  rw [codeTails, skipsComments_codeTails.line_append h, List.nil_append]

theorem codeTails_block {body : List Char} (h : ¬ ['*', '/'] <:+: body) (cs : List Char) :
    codeTails .code ('/' :: '*' :: (body ++ '*' :: '/' :: cs)) =
      ('/' :: '*' :: (body ++ '*' :: '/' :: cs)) :: codeTails .code cs := by
  rw [codeTails, skipsComments_codeTails.block_append h, lineEnds_nil, List.nil_append]

/-- A text is tidy when it is orderly where it begins and tidy from the next place on. -/
theorem tidy_cons {text : List Char} {cs : List Char}
    (h : codeTails .code text = text :: codeTails .code cs) : Tidy text ↔ Orderly text ∧ Tidy cs := by
  unfold Tidy
  rw [h]
  exact List.forall_mem_cons

theorem orderly_plain {c : Char} (hslash : c ≠ '/') (hatomic : isAtomic c = false)
    (hopen : ∀ frame, c ≠ Json.Frame.opener frame) (cs : List Char) : Orderly (c :: cs) where
  closed rest heq := absurd (List.cons.inj heq).1 hslash
  apart b rest heq hb := by
    rw [← (List.cons.inj heq).1, hatomic] at hb
    cases hb
  notLone frame rest _ heq := absurd (List.cons.inj heq).1 (hopen frame)

theorem ne_opener_of_isBlank {c : Char} (h : Json.Cursor.isBlank c) (frame : Json.Frame) :
    c ≠ Json.Frame.opener frame := by
  rintro rfl
  cases frame <;> exact absurd h (by decide)

theorem ne_opener_of_isAtomic {c : Char} (h : isAtomic c) (frame : Json.Frame) :
    c ≠ Json.Frame.opener frame := by
  rintro rfl
  cases frame <;> exact absurd h (by decide)

theorem orderly_blank {c : Char} (h : Json.Cursor.isBlank c) (cs : List Char) :
    Orderly (c :: cs) :=
  orderly_plain (ne_of_isBlank h).1 (Json.not_isAtomic_of_isBlank h) (ne_opener_of_isBlank h) cs

theorem orderly_line (cs : List Char) : Orderly ('/' :: '/' :: cs) where
  closed rest heq := by cases heq
  apart c rest heq hc := by
    rw [← (List.cons.inj heq).1] at hc
    cases hc
  notLone frame rest after heq := by cases frame <;> cases heq

theorem orderly_block {cs : List Char} (h : ['*', '/'] <:+: cs) : Orderly ('/' :: '*' :: cs) where
  closed rest heq := by
    cases heq
    exact h
  apart c rest heq hc := by
    rw [← (List.cons.inj heq).1] at hc
    cases hc
  notLone frame rest after heq := by cases frame <;> cases heq

/-! ## Texts with comments are tidy -/

theorem codeTails_of_plain {c : Char} (h : c ≠ '/' ∧ c ≠ '"' ∧ c ≠ ',') (cs : List Char) :
    codeTails .code (c :: cs) = (c :: cs) :: codeTails .code cs := by
  rw [codeTails_code (startsComment_of_ne h.1 cs), if_neg h.2.1]

theorem tidy_gap {gap : List Char} (h : Gap gap) {rest : List Char} (hr : Tidy rest) :
    Tidy (gap ++ rest) := by
  induction h with
  | nil => exact hr
  | blank hc _ ih =>
    exact (tidy_cons (codeTails_of_plain (ne_of_isBlank hc) _)).2 ⟨orderly_blank hc _, ih⟩
  | line hbody _ ih =>
    simp only [List.cons_append, List.append_assoc]
    exact (tidy_cons (codeTails_line hbody _)).2 ⟨orderly_line _, ih⟩
  | @block body gap hbody _ ih =>
    simp only [List.cons_append, List.append_assoc]
    refine (tidy_cons (codeTails_block hbody _)).2 ⟨orderly_block ?_, ih⟩
    exact ⟨body, gap ++ rest, by simp⟩

theorem tidy_nil : Tidy [] := by
  intro tail ht
  rw [codeTails_nil] at ht
  cases ht

theorem tidy_lastGap {gap : List Char} (h : LastGap gap) : Tidy gap := by
  cases h with
  | ended hg =>
    have ht := tidy_gap hg tidy_nil
    rwa [List.append_nil] at ht
  | @line gap body hg hbody =>
    refine tidy_gap hg fun tail ht => ?_
    rw [codeTails, skipsComments_codeTails.line_end hbody] at ht
    obtain rfl := List.mem_singleton.1 ht
    exact orderly_line body

/-- A word or a numeral has no comment in it, so only what stands behind it counts. -/
theorem tidy_atomic {text : List Char} (h : ∀ c ∈ text, isAtomic c) {rest : List Char}
    (hr : Tidy rest) (hstops : Stops (stripComments .code rest)) : Tidy (text ++ rest) := by
  induction text with
  | nil => exact hr
  | cons c text ih =>
    have hc := h c (.head _)
    refine (tidy_cons (codeTails_of_plain (ne_of_isAtomic hc) _)).2
      ⟨⟨fun cs heq => ?_, fun b cs heq _ hcomment => ?_, fun frame cs _ heq => ?_⟩,
        ih fun b hb => h b (.tail _ hb)⟩
    · exact absurd (List.cons.inj heq).1 (ne_of_isAtomic hc).1
    · obtain rfl := (List.cons.inj heq).2
      cases text with
      | nil => exact hstops
      | cons d text =>
        have hd := startsComment_of_ne (ne_of_isAtomic (h d (.tail _ (.head _)))).1 (text ++ rest)
        cases hd.symm.trans hcomment
    · exact absurd (List.cons.inj heq).1 (ne_opener_of_isAtomic hc frame)

/-- A character that stands for itself. -/
theorem tidy_plain {c : Char} (hslash : c ≠ '/') (hquote : c ≠ '"') (hatomic : isAtomic c = false)
    (hopen : ∀ frame, c ≠ Json.Frame.opener frame) {rest : List Char} (hr : Tidy rest) :
    Tidy (c :: rest) := by
  refine (tidy_cons ?_).2 ⟨orderly_plain hslash hatomic hopen rest, hr⟩
  rw [codeTails_code (startsComment_of_ne hslash rest), if_neg hquote]

theorem closer_ne_opener (frame frame' : Json.Frame) : frame.closer ≠ frame'.opener := by
  cases frame <;> cases frame' <;> decide

/-- An opening bracket; what counts is that no comma stands alone behind it. -/
theorem tidy_opening {frame : Json.Frame} {rest : List Char} (hr : Tidy rest)
    (hlone : ∀ after, (stripComments .code rest).dropWhile Json.Cursor.isBlank = ',' :: after →
      closesNext after = false) : Tidy (frame.opener :: rest) := by
  refine (tidy_cons (codeTails_of_plain ?_ rest)).2 ⟨⟨fun cs heq => ?_, fun c cs heq hc => ?_,
    fun frame' cs after heq => ?_⟩, hr⟩
  · cases frame <;> decide
  · cases frame <;> cases heq
  · rw [← (List.cons.inj heq).1] at hc
    cases frame <;> cases hc
  · obtain rfl := (List.cons.inj heq).2
    exact hlone after

theorem tidy_token {t : Token} {rest : List Char} (hr : Tidy rest)
    (hscalar : ∀ s, t = .scalar s → Stops (stripComments .code rest))
    (hopening : ∀ frame, t = .opening frame → ∀ after,
      (stripComments .code rest).dropWhile Json.Cursor.isBlank = ',' :: after →
        closesNext after = false) : Tidy (t.text ++ rest) := by
  cases t with
  | opening frame => exact tidy_opening hr (hopening frame rfl)
  | closing frame =>
    cases frame <;>
      exact tidy_plain (by decide) (by decide) (by decide) (closer_ne_opener _) hr
  | comma => exact tidy_plain (by decide) (by decide) (by decide) (by rintro (_ | _) <;> decide) hr
  | colon => exact tidy_plain (by decide) (by decide) (by decide) (by rintro (_ | _) <;> decide) hr
  | scalar s =>
    obtain ⟨pieces, hs⟩ | ⟨-, hs⟩ := s.text_cases
    · rw [Token.text, hs]
      simp only [List.cons_append, List.append_assoc, List.nil_append]
      exact (tidy_cons (codeTails_string pieces rest)).2
        ⟨orderly_plain (by decide) (by decide) (by rintro (_ | _) <;> decide) _, hr⟩
    · exact tidy_atomic hs hr (hscalar s rfl)

/-- What may stand behind a token in a text with comments: no value behind a scalar, and no comma
behind an opening bracket. -/
def Token.admits : Token → Token → Bool
  | .scalar _, u => !u.startsValue
  | .opening _, .comma => false
  | _, _ => true

theorem admits_of_follows {t u : Token} (h : t.follows u) : Token.admits t u := by
  cases t <;> cases u <;> simp_all [Token.follows, Token.admits, Token.startsValue, Token.afterValue,
    Token.isClosing]

theorem Trailing.isChain_admits {ts us : List Token} (h : Trailing ts us)
    (hc : us.IsChain (·.follows ·)) : ts.IsChain (Token.admits · ·) := by
  induction h with
  | nil => exact .nil
  | @cons t ts us htr ih =>
    refine List.isChain_cons.2 ⟨fun u hu => ?_, ih hc.tail⟩
    rw [htr.head?_eq] at hu
    exact admits_of_follows ((List.isChain_cons.1 hc).1 u hu)
  | @comma e c ts us he hclose htr ih =>
    refine List.isChain_cons_cons.2 ⟨?_, List.isChain_cons_cons.2 ⟨rfl, ih hc.tail⟩⟩
    cases e <;> simp_all [Token.endsValue, Token.admits, Token.startsValue]

theorem eq_comma_of_text {t : Token} {cs rest : List Char} (h : t.text ++ cs = ',' :: rest) :
    t = .comma := by
  cases t with
  | opening frame => cases frame <;> cases h
  | closing frame => cases frame <;> cases h
  | comma => rfl
  | colon => cases h
  | scalar s =>
    exfalso
    obtain ⟨pieces, hs⟩ | ⟨hne, hs⟩ := s.text_cases
    · rw [Token.text, hs] at h
      cases h
    · obtain ⟨c, text, hc⟩ := List.exists_cons_of_ne_nil hne
      have hatomic := hs c (hc ▸ .head _)
      rw [Token.text, hc] at h
      exact (ne_of_isAtomic hatomic).2.2 (List.cons.inj h).1

/-- **Tokens that may stand so** make a tidy text. -/
theorem tidy_spread {ts : List Token} (hc : ts.IsChain (Token.admits · ·)) {text gap : List Char}
    (hs : Spread Gap ts text) (hg : LastGap gap) : Tidy (text ++ gap) := by
  induction hs with
  | nil => exact tidy_lastGap hg
  | @cons g t ts text hb hs ih =>
    obtain ⟨text', hs', heq⟩ := stripComments_spread hs gap
    have hblank := stripComments_lastGap hg
    have hnext := (List.isChain_cons.1 hc).1
    simp only [List.append_assoc]
    refine tidy_gap hb (tidy_token (ih hc.tail) (fun s ht => ?_) fun frame ht after hafter => ?_)
    · rw [heq]
      subst ht
      cases ts with
      | nil =>
        cases hs'
        exact fun ch hch => Json.not_isAtomic_of_isBlank (hblank ch (List.mem_of_mem_head? hch))
      | cons u ts =>
        refine Json.stops_of_spread hs' (by simp) fun u' hu' => ?_
        have hadm := hnext u' hu'
        simpa [Token.admits] using hadm
    · rw [heq] at hafter
      subst ht
      cases ts with
      | nil =>
        cases hs'
        have hdrop := Json.dropWhile_blank hblank []
        rw [List.append_nil] at hdrop
        cases hafter.symm.trans hdrop
      | cons u ts =>
        obtain ⟨after', hdrop, -⟩ := Json.dropWhile_spread hs' (stripComments .code gap)
        obtain rfl := eq_comma_of_text (hdrop.symm.trans hafter)
        cases hnext .comma rfl

/-- **A text with comments** is tidy. -/
theorem Denotes.tidy {text : List Char} {v : Tree} (h : Denotes text v) : Tidy text := by
  obtain ⟨ts, body, gap, rfl, hs, hg, htr⟩ := h
  exact tidy_spread (htr.isChain_admits (isChain_tokens v)) hs hg

end BuildLayout.Jsonc
