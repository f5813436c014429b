import BuildLayout.Config.Jsonc
import BuildLayout.Proofs.Json.Reading

/-!
# JSON texts with comments

`Jsonc.Denotes text v` says that the text is that of a JSON value, with blanks and comments before,
between and after the tokens, and perhaps a comma behind the last item of a list or an object. In
two passes `Jsonc.toJson` makes a JSON text of the same value of it (`denotes_toJson`), and it leaves
a JSON text as it is (`toJson_of_denotes`).

Both passes copy strings, and characters that are none of `/`, `"` and `,` (`Pass`), so each is
described by what it does between the tokens: `stripComments_spread`, `blankCommas_spread`.
-/

namespace BuildLayout.Jsonc

open Json (Token Tree Piece bodyChars IsHex Scalar Spread Blank blank_nil blank_cons blank_append
  isAtomic spread_cons)

/-! ## What may stand between tokens -/

/-- Blanks and comments. A comment of one line has the end of the line with it. -/
inductive Gap : List Char → Prop
  | nil : Gap []
  | blank {c : Char} {cs : List Char} : Json.Cursor.isBlank c → Gap cs → Gap (c :: cs)
  | line {body cs : List Char} : '\n' ∉ body → Gap cs → Gap ('/' :: '/' :: (body ++ '\n' :: cs))
  | block {body cs : List Char} : ¬ ['*', '/'] <:+: body → Gap cs →
      Gap ('/' :: '*' :: (body ++ '*' :: '/' :: cs))

/-- Blanks and comments at the end of a text, which may end a comment of one line as well. -/
inductive LastGap : List Char → Prop
  | ended {gap : List Char} : Gap gap → LastGap gap
  | line {gap body : List Char} : Gap gap → '\n' ∉ body → LastGap (gap ++ '/' :: '/' :: body)

/-- The first tokens are the second ones, with commas between values and closing brackets. -/
inductive Trailing : List Token → List Token → Prop
  | nil : Trailing [] []
  | cons {t : Token} {ts us : List Token} : Trailing ts us → Trailing (t :: ts) (t :: us)
  | comma {e c : Token} {ts us : List Token} : e.endsValue → c.isClosing →
      Trailing (c :: ts) us → Trailing (e :: .comma :: c :: ts) (e :: us)

/-- The text is that of the value, with blanks and comments before, between and after the tokens,
and perhaps with commas behind last items. -/
def Denotes (text : List Char) (v : Tree) : Prop :=
  ∃ ts body gap, text = body ++ gap ∧ Spread Gap ts body ∧ LastGap gap ∧ Trailing ts v.tokens

/-! ## Characters -/

theorem ne_of_isBlank {c : Char} (h : Json.Cursor.isBlank c) : c ≠ '/' ∧ c ≠ '"' ∧ c ≠ ',' := by
  refine ⟨?_, ?_, ?_⟩ <;> rintro rfl <;> exact absurd h (by decide)

theorem ne_of_isAtomic {c : Char} (h : isAtomic c) : c ≠ '/' ∧ c ≠ '"' ∧ c ≠ ',' := by
  refine ⟨?_, ?_, ?_⟩ <;> rintro rfl <;> exact absurd h (by decide)

theorem ne_of_isHex {c : Char} (h : IsHex c) : c ≠ '\\' ∧ c ≠ '"' := by
  refine ⟨?_, ?_⟩ <;> rintro rfl <;> exact absurd h (by unfold IsHex; decide)

theorem isBlank_of_isBlank {c : Char} (h : Json.Cursor.isBlank c) : Text.isBlank c := by
  simp only [Json.Cursor.isBlank, Bool.or_eq_true, beq_iff_eq] at h
  rcases h with ((rfl | rfl) | rfl) | rfl <;> decide

theorem not_isBlank_of_isAtomic {c : Char} (h : isAtomic c) : Text.isBlank c = false := by
  have hrange : 0x2B ≤ c.toNat ∧ c.toNat ≤ 0x7A := by
    simp only [isAtomic, Json.isDigit, Bool.or_eq_true, Bool.and_eq_true, decide_eq_true_eq,
      beq_iff_eq, Char.le_def, UInt32.le_iff_toNat_le] at h
    rcases h with (((((h | h) | h) | rfl) | rfl) | rfl)
    · exact ⟨Nat.le_trans (by decide) h.1, Nat.le_trans h.2 (by decide)⟩
    · exact ⟨Nat.le_trans (by decide) h.1, Nat.le_trans h.2 (by decide)⟩
    · exact ⟨Nat.le_trans (by decide) h.1, Nat.le_trans h.2 (by decide)⟩
    all_goals decide
  unfold Text.isBlank
  simp only [Bool.or_eq_false_iff, Bool.and_eq_false_iff, decide_eq_false_iff_not,
    beq_eq_false_iff_ne]
  omega

/-! ## Passes that copy strings -/

/-- A pass over a text that copies strings, and what is no slash, quote or comma outside them. -/
structure Pass (f : Mode → List Char → List Char) : Prop where
  nil : ∀ mode, f mode [] = []
  plain : ∀ {c}, c ≠ '/' ∧ c ≠ '"' ∧ c ≠ ',' → ∀ cs, f .code (c :: cs) = c :: f .code cs
  quote : ∀ cs, f .code ('"' :: cs) = '"' :: f .string cs
  string : ∀ c cs, f .string (c :: cs) =
    c :: f (if c = '\\' then .escape else if c = '"' then .code else .string) cs
  escape : ∀ c cs, f .escape (c :: cs) = c :: f .string cs

namespace Pass

variable {f : Mode → List Char → List Char} (hf : Pass f)
include hf

/-- Characters that are copied outside strings. -/
theorem append {text : List Char} (h : ∀ c ∈ text, c ≠ '/' ∧ c ≠ '"' ∧ c ≠ ',') (cs : List Char) :
    f .code (text ++ cs) = text ++ f .code cs := by
  induction text with
  | nil => rfl
  | cons c text ih =>
    rw [List.cons_append, hf.plain (h c (.head _)), ih fun b hb => h b (.tail _ hb)]
    rfl

theorem blank {gap : List Char} (h : Blank gap) (cs : List Char) :
    f .code (gap ++ cs) = gap ++ f .code cs :=
  hf.append (fun c hc => ne_of_isBlank (h c hc)) cs

theorem blank_end {gap : List Char} (h : Blank gap) : f .code gap = gap := by
  have heq := hf.blank h []
  rwa [hf.nil, List.append_nil] at heq

/-- A character inside a string that neither ends it nor begins an escape. -/
theorem inString {c : Char} (h : c ≠ '\\' ∧ c ≠ '"') (cs : List Char) :
    f .string (c :: cs) = c :: f .string cs := by
  rw [hf.string, if_neg h.1, if_neg h.2]

theorem endString (cs : List Char) : f .string ('"' :: cs) = '"' :: f .code cs := by
  rw [hf.string, if_neg (by decide), if_pos rfl]

theorem inEscape (c : Char) (cs : List Char) :
    f .string ('\\' :: c :: cs) = '\\' :: c :: f .string cs := by
  rw [hf.string, if_pos rfl, hf.escape]

theorem piece (p : Piece) (cs : List Char) :
    f .string (p.chars ++ cs) = p.chars ++ f .string cs := by
  cases p with
  | plain c h => exact hf.inString ⟨h.2.2, h.2.1⟩ cs
  | short letter h => exact hf.inEscape letter cs
  | unit d0 d1 d2 d3 h =>
    simp only [Piece.chars, List.cons_append, List.nil_append, hf.inEscape,
      hf.inString (ne_of_isHex h.1), hf.inString (ne_of_isHex h.2.1),
      hf.inString (ne_of_isHex h.2.2.1), hf.inString (ne_of_isHex h.2.2.2)]

/-- A string from behind its first quote on. -/
theorem body (pieces : List Piece) (cs : List Char) :
    f .string (bodyChars pieces ++ '"' :: cs) = bodyChars pieces ++ '"' :: f .code cs := by
  unfold bodyChars
  induction pieces with
  | nil => exact hf.endString cs
  | cons p pieces ih => rw [List.flatMap_cons, List.append_assoc, hf.piece, ih, List.append_assoc]

theorem scalar (s : Scalar) (cs : List Char) : f .code (s.text ++ cs) = s.text ++ f .code cs := by
  obtain ⟨pieces, hs⟩ | ⟨-, hs⟩ := s.text_cases
  · simp only [hs, List.cons_append, List.append_assoc, List.nil_append, hf.quote, hf.body]
  · exact hf.append (fun c hc => ne_of_isAtomic (hs c hc)) cs

/-- **Every token but a comma** is copied. -/
theorem token {t : Token} (ht : t ≠ .comma) (cs : List Char) :
    f .code (t.text ++ cs) = t.text ++ f .code cs := by
  cases t with
  | opening frame => cases frame <;> exact hf.plain (by decide) cs
  | closing frame => cases frame <;> exact hf.plain (by decide) cs
  | comma => exact absurd rfl ht
  | colon => exact hf.plain (by decide) cs
  | scalar s => exact hf.scalar s cs

end Pass

/-! ## Passes through comments -/

/-- A pass that gives the same for each line end in a comment, and nothing for the rest of it. -/
structure SkipsComments {α : Type} (f : Mode → List Char → List α) (atLineEnd : List α) :
    Prop where
  nil : ∀ mode, f mode [] = []
  line : ∀ c cs, f .line (c :: cs) = if c = '\n' then atLineEnd ++ f .code cs else f .line cs
  block : ∀ star c cs, f (.block star) (c :: cs) =
    if c = '\n' then atLineEnd ++ f (.block false) cs
    else if star ∧ c = '/' then f .code cs
    else f (.block (c = '*')) cs

/-- What is given for the line ends of a text. -/
def lineEnds {α : Type} (atLineEnd : List α) (cs : List Char) : List α :=
  cs.flatMap fun c => if c = '\n' then atLineEnd else []

namespace SkipsComments

variable {α : Type} {f : Mode → List Char → List α} {atLineEnd : List α}
  (hf : SkipsComments f atLineEnd)
include hf

theorem line_append {body : List Char} (h : '\n' ∉ body) (cs : List Char) :
    f .line (body ++ '\n' :: cs) = atLineEnd ++ f .code cs := by
  induction body with
  | nil => rw [List.nil_append, hf.line, if_pos rfl]
  | cons c body ih =>
    rw [List.mem_cons, not_or] at h
    rw [List.cons_append, hf.line, if_neg (Ne.symm h.1), ih h.2]

theorem line_end {body : List Char} (h : '\n' ∉ body) : f .line body = [] := by
  induction body with
  | nil => exact hf.nil _
  | cons c body ih =>
    rw [List.mem_cons, not_or] at h
    rw [hf.line, if_neg (Ne.symm h.1), ih h.2]

/-- One character of a comment; that it is a star counts only when a slash follows. -/
theorem block_cons {c : Char} {cs : List Char} (h : ¬ ['*', '/'] <+: c :: cs) :
    f (.block false) (c :: cs) = (if c = '\n' then atLineEnd else []) ++ f (.block false) cs := by
  rw [hf.block]
  by_cases hc : c = '\n'
  · rw [if_pos hc, if_pos hc]
  · rw [if_neg hc, if_neg (by simp), if_neg hc, List.nil_append]
    by_cases hs : c = '*'
    · cases cs with
      | nil => rw [hf.nil, hf.nil]
      | cons b cs =>
        have hb : b ≠ '/' := by
          rintro rfl
          exact h ⟨cs, by rw [hs]; rfl⟩
        rw [hf.block, hf.block]
        simp [hb]
    · rw [decide_eq_false hs]

/-- **A comment** gives what its line ends give. -/
theorem block_append {body : List Char} (h : ¬ ['*', '/'] <:+: body) (cs : List Char) :
    f (.block false) (body ++ '*' :: '/' :: cs) = lineEnds atLineEnd body ++ f .code cs := by
  induction body with
  | nil =>
    rw [List.nil_append, hf.block, if_neg (by decide), if_neg (by simp), hf.block,
      if_neg (by decide), if_pos (by simp)]
    rfl
  | cons c body ih =>
    rw [List.infix_cons_iff, not_or] at h
    unfold lineEnds
    rw [List.cons_append, hf.block_cons ?_, ih h.2, List.flatMap_cons, List.append_assoc]
    · rfl
    · rintro ⟨rest, hrest⟩
      cases body with
      | nil => simp at hrest
      | cons b body =>
        simp only [List.cons_append, List.nil_append, List.cons.injEq] at hrest
        obtain ⟨rfl, rfl, -⟩ := hrest
        exact h.1 ⟨body, rfl⟩

end SkipsComments

/-! ## Taking out comments -/

/-- A comment begins here. -/
def startsComment : List Char → Bool
  | '/' :: '/' :: _ | '/' :: '*' :: _ => true
  | _ => false

theorem startsComment_of_ne {c : Char} (h : c ≠ '/') (cs : List Char) :
    startsComment (c :: cs) = false := by
  unfold startsComment
  split <;> simp_all

theorem stripComments_nil (mode : Mode) : stripComments mode [] = [] := by
  cases mode <;> rw [stripComments]

theorem stripComments_code {c : Char} {cs : List Char} (h : startsComment (c :: cs) = false) :
    stripComments .code (c :: cs) =
      c :: stripComments (if c = '"' then .string else .code) cs := by
  rw [stripComments]
  · rintro rest rfl rfl
    cases h
  · rintro rest rfl rfl
    cases h

theorem pass_stripComments : Pass stripComments where
  nil := stripComments_nil
  plain h cs := by rw [stripComments_code (startsComment_of_ne h.1 cs), if_neg h.2.1]
  quote cs := by rw [stripComments_code (startsComment_of_ne (by decide) cs), if_pos rfl]
  string c cs := by rw [stripComments]
  escape c cs := by rw [stripComments]

theorem skipsComments_stripComments : SkipsComments stripComments ['\n'] where
  nil := stripComments_nil
  line c cs := by
    rw [stripComments]
    split
    · next h => rw [h]; rfl
    · rfl
  block star c cs := by
    rw [stripComments]
    split
    · next h => rw [h]; rfl
    · rfl

theorem stripComments_token (t : Token) (cs : List Char) :
    stripComments .code (t.text ++ cs) = t.text ++ stripComments .code cs := by
  by_cases ht : t = .comma
  · subst ht
    have hcomma := stripComments_code (startsComment_of_ne (by decide : ',' ≠ '/') cs)
    rwa [if_neg (by decide)] at hcomma
  · exact pass_stripComments.token ht cs

theorem blank_lineEnds (cs : List Char) : Blank (lineEnds ['\n'] cs) := by
  intro c hc
  obtain ⟨b, -, hb⟩ := List.mem_flatMap.1 hc
  split at hb
  · obtain rfl := List.mem_singleton.1 hb
    decide
  · cases hb

/-- **Between tokens** nothing is left but blanks. -/
theorem stripComments_gap {gap : List Char} (h : Gap gap) (cs : List Char) :
    ∃ blanks, Blank blanks ∧
      stripComments .code (gap ++ cs) = blanks ++ stripComments .code cs := by
  induction h with
  | nil => exact ⟨[], blank_nil, rfl⟩
  | @blank c gap hc _ ih =>
    obtain ⟨blanks, hb, heq⟩ := ih
    refine ⟨c :: blanks, blank_cons.2 ⟨hc, hb⟩, ?_⟩
    rw [List.cons_append, pass_stripComments.plain (ne_of_isBlank hc), heq, List.cons_append]
  | @line body gap hbody _ ih =>
    obtain ⟨blanks, hb, heq⟩ := ih
    refine ⟨'\n' :: blanks, blank_cons.2 ⟨rfl, hb⟩, ?_⟩
    simp only [List.cons_append, List.append_assoc]
    rw [stripComments, skipsComments_stripComments.line_append hbody, heq]
    rfl
  | @block body gap hbody _ ih =>
    obtain ⟨blanks, hb, heq⟩ := ih
    refine ⟨lineEnds ['\n'] body ++ blanks, blank_append.2 ⟨blank_lineEnds body, hb⟩, ?_⟩
    simp only [List.cons_append, List.append_assoc]
    rw [stripComments, skipsComments_stripComments.block_append hbody, heq]

theorem stripComments_lastGap {gap : List Char} (h : LastGap gap) :
    Blank (stripComments .code gap) := by
  cases h with
  | ended hg =>
    obtain ⟨blanks, hb, heq⟩ := stripComments_gap hg []
    rw [List.append_nil, stripComments_nil, List.append_nil] at heq
    exact heq ▸ hb
  | line hg hbody =>
    obtain ⟨blanks, hb, heq⟩ := stripComments_gap hg ('/' :: '/' :: _)
    rw [stripComments, skipsComments_stripComments.line_end hbody, List.append_nil] at heq
    exact heq ▸ hb

/-- **The first pass** keeps the tokens. -/
theorem stripComments_spread {ts : List Token} {text : List Char} (h : Spread Gap ts text)
    (cs : List Char) : ∃ text', Spread Blank ts text' ∧
      stripComments .code (text ++ cs) = text' ++ stripComments .code cs := by
  induction h with
  | nil => exact ⟨[], .nil, rfl⟩
  | @cons gap t ts text hg _ ih =>
    obtain ⟨text', hs, heq⟩ := ih
    obtain ⟨blanks, hb, hgap⟩ := stripComments_gap hg (t.text ++ (text ++ cs))
    refine ⟨blanks ++ (t.text ++ text'), .cons hb hs, ?_⟩
    simp only [List.append_assoc]
    rw [hgap, stripComments_token, heq]

/-! ## Blanking commas -/

theorem blankCommas_cons (c : Char) (cs : List Char) :
    blankCommas .code (c :: cs) =
      (if c = ',' then if closesNext cs then ' ' else ',' else c) ::
        blankCommas (if c = '"' then .string else .code) cs := by
  rw [blankCommas]
  · by_cases hc : c = ','
    · rw [if_pos hc, if_pos hc, hc, if_neg (by decide : ',' ≠ '"')]
    · rw [if_neg hc, if_neg hc]
  all_goals simp

theorem pass_blankCommas : Pass blankCommas where
  nil mode := by cases mode <;> rw [blankCommas]
  plain h cs := by rw [blankCommas_cons, if_neg h.2.2, if_neg h.2.1]
  quote cs := by rw [blankCommas_cons, if_neg (by decide), if_pos rfl]
  string c cs := by rw [blankCommas]
  escape c cs := by rw [blankCommas]

theorem blankCommas_comma (cs : List Char) :
    blankCommas .code (Token.comma.text ++ cs) =
      (if closesNext cs then [' '] else Token.comma.text) ++ blankCommas .code cs := by
  show blankCommas .code (',' :: cs) = _
  rw [blankCommas_cons, if_pos rfl, if_neg (by decide : ',' ≠ '"')]
  split <;> rfl

/-- A token is copied unless it is a comma before a closing bracket. -/
theorem blankCommas_token {t : Token} {cs : List Char} (h : t = .comma → closesNext cs = false) :
    blankCommas .code (t.text ++ cs) = t.text ++ blankCommas .code cs := by
  by_cases ht : t = .comma
  · have hnext := h ht
    rw [ht, blankCommas_comma, if_neg (by simp [hnext])]
  · exact pass_blankCommas.token ht cs

theorem closesNext_blank {gap : List Char} (h : Blank gap) (cs : List Char) :
    closesNext (gap ++ cs) = closesNext cs := by
  induction gap with
  | nil => rfl
  | cons c gap ih =>
    obtain ⟨hc, hg⟩ := blank_cons.1 h
    rw [← ih hg]
    unfold closesNext
    rw [List.cons_append, List.dropWhile_cons_of_pos (isBlank_of_isBlank hc)]

theorem closesNext_cons {c : Char} (h : Text.isBlank c = false) (cs : List Char) :
    closesNext (c :: cs) = (c == ']' || c == '\x7d') := by
  unfold closesNext
  rw [List.dropWhile_cons_of_neg (by simp [h])]

theorem closesNext_token (t : Token) (cs : List Char) : closesNext (t.text ++ cs) = t.isClosing := by
  cases t with
  | opening frame => cases frame <;> exact closesNext_cons (by decide) cs
  | closing frame => cases frame <;> exact closesNext_cons (by decide) cs
  | comma => exact closesNext_cons (by decide) cs
  | colon => exact closesNext_cons (by decide) cs
  | scalar s =>
    obtain ⟨pieces, hs⟩ | ⟨hne, hs⟩ := s.text_cases
    · rw [Token.text, hs]
      exact closesNext_cons (by decide) _
    · obtain ⟨c, text, hc⟩ := List.exists_cons_of_ne_nil hne
      have hatomic := hs c (hc ▸ .head _)
      rw [Token.text, hc, List.cons_append, closesNext_cons (not_isBlank_of_isAtomic hatomic)]
      have h1 : c ≠ ']' := by rintro rfl; exact absurd hatomic (by decide)
      have h2 : c ≠ '\x7d' := by rintro rfl; exact absurd hatomic (by decide)
      simp [h1, h2, Token.isClosing]

/-- **A comma is blanked** when the next token is a closing bracket. -/
theorem closesNext_spread {ts : List Token} {text gap : List Char} (h : Spread Blank ts text)
    (hg : Blank gap) : closesNext (text ++ gap) = ts.head?.any Token.isClosing := by
  cases h with
  | nil =>
    have heq := closesNext_blank hg []
    rw [List.append_nil] at heq
    rw [List.nil_append, heq]
    rfl
  | cons hb _ =>
    simp only [List.append_assoc]
    rw [closesNext_blank hb, closesNext_token]
    rfl

theorem Trailing.head?_eq {ts us : List Token} (h : Trailing ts us) : ts.head? = us.head? := by
  cases h <;> rfl

/-- Behind a comma no closing bracket may stand. -/
theorem not_isClosing_of_isChain {us : List Token} (h : (Token.comma :: us).IsChain (·.follows ·)) :
    us.head?.any Token.isClosing = false := by
  cases us with
  | nil => rfl
  | cons u us =>
    have hu := (List.isChain_cons_cons.1 h).1
    cases u <;> simp_all [Token.follows, Token.startsValue, Token.isClosing]

theorem spread_blank_append {ts : List Token} {gap text : List Char} (hne : ts ≠ [])
    (hg : Blank gap) (h : Spread Blank ts text) : Spread Blank ts (gap ++ text) := by
  cases h with
  | nil => exact absurd rfl hne
  | cons hb hs =>
    rw [← List.append_assoc]
    exact .cons (blank_append.2 ⟨hg, hb⟩) hs

/-- **The second pass** takes out the commas behind last items. -/
theorem blankCommas_spread {ts us : List Token} (h : Trailing ts us)
    (hc : us.IsChain (·.follows ·)) {text gap : List Char} (hs : Spread Blank ts text)
    (hg : Blank gap) :
    ∃ text', Spread Blank us text' ∧ blankCommas .code (text ++ gap) = text' ++ gap := by
  induction h generalizing text with
  | nil =>
    cases hs
    exact ⟨[], .nil, pass_blankCommas.blank_end hg⟩
  | @cons t ts us htr ih =>
    obtain ⟨g, rest, rfl, hb, hrest⟩ := spread_cons.1 hs
    obtain ⟨text', hs', heq⟩ := ih hc.tail hrest
    refine ⟨g ++ (t.text ++ text'), .cons hb hs', ?_⟩
    simp only [List.append_assoc]
    rw [pass_blankCommas.blank hb, blankCommas_token, heq]
    rintro rfl
    rw [closesNext_spread hrest hg, htr.head?_eq, not_isClosing_of_isChain hc]
  | @comma e c ts us he hclose htr ih =>
    obtain ⟨g1, rest, rfl, hb1, hrest⟩ := spread_cons.1 hs
    obtain ⟨g2, rest, rfl, hb2, hrest⟩ := spread_cons.1 hrest
    obtain ⟨text', hs', heq⟩ := ih hc.tail hrest
    have hne : us ≠ [] := by
      rintro rfl
      have := htr.head?_eq
      cases this
    have hblank : Blank (g2 ++ [' ']) := blank_append.2 ⟨hb2, blank_cons.2 ⟨rfl, blank_nil⟩⟩
    refine ⟨g1 ++ (e.text ++ (g2 ++ [' '] ++ text')),
      .cons hb1 (spread_blank_append hne hblank hs'), ?_⟩
    have hnext : closesNext (rest ++ gap) = true := by
      rw [closesNext_spread hrest hg]
      exact hclose
    have hne' : e ≠ .comma := by
      rintro rfl
      cases he
    simp only [List.append_assoc]
    rw [pass_blankCommas.blank hb1, pass_blankCommas.token hne', pass_blankCommas.blank hb2,
      blankCommas_comma, if_pos hnext, heq]

/-! ## The value of the text -/

theorem isChain_tokens (v : Tree) : v.tokens.IsChain (·.follows ·) := by
  have h := (Json.isChain_tokens v .nil (by simp)).1
  rwa [List.append_nil] at h

/-- **A text with comments** becomes a JSON text of the same value, with the strings as they are
spelled. -/
theorem denotes_toJson {text : List Char} {v : Tree} (h : Denotes text v) :
    Json.Denotes (toJson text) v := by
  obtain ⟨ts, body, gap, rfl, hs, hg, htr⟩ := h
  obtain ⟨body', hs', heq⟩ := stripComments_spread hs gap
  obtain ⟨text', hs'', heq'⟩ :=
    blankCommas_spread htr (isChain_tokens v) hs' (stripComments_lastGap hg)
  refine ⟨text', _, ?_, hs'', stripComments_lastGap hg⟩
  rw [toJson, heq, heq']

theorem stripComments_spread_blank {ts : List Token} {text gap : List Char}
    (h : Spread Blank ts text) (hg : Blank gap) :
    stripComments .code (text ++ gap) = text ++ gap := by
  induction h with
  | nil => exact pass_stripComments.blank_end hg
  | cons hb _ ih =>
    simp only [List.append_assoc]
    rw [pass_stripComments.blank hb, stripComments_token, ih]

theorem blankCommas_spread_blank {ts : List Token} (hc : ts.IsChain (·.follows ·))
    {text gap : List Char} (h : Spread Blank ts text) (hg : Blank gap) :
    blankCommas .code (text ++ gap) = text ++ gap := by
  induction h with
  | nil => exact pass_blankCommas.blank_end hg
  | @cons g t ts text hb hs ih =>
    simp only [List.append_assoc]
    rw [pass_blankCommas.blank hb, blankCommas_token, ih hc.tail]
    rintro rfl
    rw [closesNext_spread hs hg, not_isClosing_of_isChain hc]

/-- **A JSON text** stays as it is. -/
theorem toJson_of_denotes {text : List Char} {v : Tree} (h : Json.Denotes text v) :
    toJson text = text := by
  obtain ⟨body, gap, rfl, hs, hg⟩ := h
  rw [toJson, stripComments_spread_blank hs hg, blankCommas_spread_blank (isChain_tokens v) hs hg]

/-! ## A text with comments -/

/-- The number one. -/
def oneNumeral : Json.Numeral where
  negative := false
  whole := ⟨['1'], by simp, List.all_eq_true.1 rfl⟩
  whole_eq := .inr (by simp)
  fraction := none
  exponent := none

/-- A list of a number and a string that holds the marker of a comment. -/
def markedTree : Tree :=
  .list [.scalar (.number oneNumeral),
    .scalar (.string [.plain '/' (by decide), .plain '/' (by decide)])]

/-- A rendering of the list. -/
def markedRendering : List Char :=
  ['[', '1', ',', '"', '/', '/', '"', ']']

/-- The list with comments, one of them with a bracket in it, and with a comma at its end. -/
def markedText : List Char :=
  ['[', '1', ',', '/', '/', 'a', '\n', '/', '*', ']', '*', '/', '"', '/', '/', '"', ',', ' ', ']']

theorem denotes_markedRendering : Json.Denotes markedRendering markedTree := by
  refine ⟨markedRendering, [], rfl, ?_, blank_nil⟩
  exact .cons blank_nil (.cons blank_nil (.cons blank_nil (.cons blank_nil (.cons blank_nil .nil))))

theorem denotes_markedText : Denotes markedText markedTree := by
  refine ⟨[.opening .list, .scalar (.number oneNumeral), .comma,
    .scalar (.string [.plain '/' (by decide), .plain '/' (by decide)]), .comma, .closing .list],
    markedText, [], rfl, ?_, .ended .nil, ?_⟩
  · have hgap : Gap ['/', '/', 'a', '\n', '/', '*', ']', '*', '/'] :=
      .line (by decide : '\n' ∉ ['a']) (.block (by decide : ¬ ['*', '/'] <:+: [']']) .nil)
    have hblank : Gap [' '] := .blank rfl .nil
    exact .cons .nil (.cons .nil (.cons .nil (.cons hgap (.cons .nil (.cons hblank .nil)))))
  · exact .cons (.cons (.cons (.comma rfl rfl (.cons .nil))))

/-! ## The main result -/

/-- **The value of a text with comments**: what is made of a text that has the tokens of a rendering,
with blanks, comments and commas behind last items put between them, is a JSON text with the same
tokens, strings as they are spelled, and is read as what the rendering is read as. The rendering
itself stays as it is. -/
theorem toJson_same_value {rendering text : List Char} {v : Tree}
    (hr : Json.Denotes rendering v) (ht : Denotes text v) :
    Json.Denotes (toJson text) v ∧
    (∀ j, Json.parse (String.ofList (toJson text)) = .ok j ↔
      Json.parse (String.ofList rendering) = .ok j) ∧
    toJson rendering = rendering := by
  have htext := denotes_toJson ht
  refine ⟨htext, fun j => ?_, toJson_of_denotes hr⟩
  rw [Json.parse_eq_ok_iff htext, Json.parse_eq_ok_iff hr]

/-- The list with comments is read as the list. -/
theorem toJson_same_value_markedText :
    (∃ j, Json.parse (String.ofList (toJson markedText)) = .ok j) ∧
      toJson markedText ≠ markedText ∧ toJson markedRendering = markedRendering := by
  obtain ⟨-, hparse, hsame⟩ := toJson_same_value denotes_markedRendering denotes_markedText
  refine ⟨?_, by decide, hsame⟩
  have hvalue : (markedTree.value? Json.maxDepth).isSome := by decide
  obtain ⟨j, hj⟩ := Option.isSome_iff_exists.1 hvalue
  exact ⟨j, (hparse j).2 ((Json.parse_eq_ok_iff denotes_markedRendering).2 hj)⟩

end BuildLayout.Jsonc
