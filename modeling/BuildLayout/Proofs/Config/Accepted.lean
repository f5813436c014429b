import BuildLayout.Proofs.Config.Tidy
import Mathlib.Data.List.TakeWhile

/-!
# Which texts become JSON texts

Not only a text with comments becomes a JSON text. A text is one with comments exactly when a JSON
text comes of it and it is tidy (`denotes_iff`); `joinedText` becomes JSON and is none with comments
(`not_denotes_joinedText`).

The proof goes back through the two passes token by token. What a token comes from is the same token
(`Pass.token_eq`); what the blanks before it come from are blanks and comments (`exists_gap`), or
blanks and a comma that is left out (`exists_blanked`).
-/

namespace BuildLayout.Jsonc

open Json (Token Scalar Tree Piece bodyChars Spread Blank blank_nil blank_cons blank_append
  isAtomic)

/-! ## Back through tokens -/

/-- A token is a string, one character of its own, or characters of a word or a numeral. -/
theorem Token.text_cases (t : Token) :
    (∃ pieces, t.text = '"' :: (bodyChars pieces ++ ['"'])) ∨
      (∃ c, t.text = [c] ∧ c ≠ '/' ∧ c ≠ '"' ∧ c ≠ ' ') ∨
      t.text ≠ [] ∧ ∀ c ∈ t.text, isAtomic c := by
  cases t with
  | opening frame => cases frame <;> exact .inr (.inl ⟨_, rfl, by decide⟩)
  | closing frame => cases frame <;> exact .inr (.inl ⟨_, rfl, by decide⟩)
  | comma => exact .inr (.inl ⟨_, rfl, by decide⟩)
  | colon => exact .inr (.inl ⟨_, rfl, by decide⟩)
  | scalar s => exact s.text_cases.imp_right .inr

namespace Pass

variable {f : Mode → List Char → List Char} (hf : Pass f)
include hf

theorem string_eq_cons {c : Char} {text out : List Char} (h : f .string text = c :: out) :
    ∃ cs, text = c :: cs ∧
      f (if c = '\\' then .escape else if c = '"' then .code else .string) cs = out := by
  cases text with
  | nil =>
    rw [hf.nil] at h
    cases h
  | cons b cs =>
    rw [hf.string] at h
    obtain ⟨rfl, hcs⟩ := List.cons.inj h
    exact ⟨cs, rfl, hcs⟩

theorem escape_eq_cons {c : Char} {text out : List Char} (h : f .escape text = c :: out) :
    ∃ cs, text = c :: cs ∧ f .string cs = out := by
  cases text with
  | nil =>
    rw [hf.nil] at h
    cases h
  | cons b cs =>
    rw [hf.escape] at h
    obtain ⟨rfl, hcs⟩ := List.cons.inj h
    exact ⟨cs, rfl, hcs⟩

theorem inString_eq {c : Char} (hc : c ≠ '\\' ∧ c ≠ '"') {text out : List Char}
    (h : f .string text = c :: out) : ∃ cs, text = c :: cs ∧ f .string cs = out := by
  obtain ⟨cs, rfl, hcs⟩ := hf.string_eq_cons h
  rw [if_neg hc.1, if_neg hc.2] at hcs
  exact ⟨cs, rfl, hcs⟩

theorem inEscape_eq {c : Char} {text out : List Char} (h : f .string text = '\\' :: c :: out) :
    ∃ cs, text = '\\' :: c :: cs ∧ f .string cs = out := by
  obtain ⟨cs, rfl, hcs⟩ := hf.string_eq_cons h
  obtain ⟨cs, rfl, hrest⟩ := hf.escape_eq_cons hcs
  exact ⟨cs, rfl, hrest⟩

theorem piece_eq (p : Piece) {text out : List Char} (h : f .string text = p.chars ++ out) :
    ∃ cs, text = p.chars ++ cs ∧ f .string cs = out := by
  cases p with
  | plain c hc => exact hf.inString_eq ⟨hc.2.2, hc.2.1⟩ h
  | short letter hl => exact hf.inEscape_eq h
  | unit d0 d1 d2 d3 hd =>
    obtain ⟨cs, rfl, h0⟩ := hf.inEscape_eq h
    obtain ⟨cs, rfl, h1⟩ := hf.inString_eq (ne_of_isHex hd.1) h0
    obtain ⟨cs, rfl, h2⟩ := hf.inString_eq (ne_of_isHex hd.2.1) h1
    obtain ⟨cs, rfl, h3⟩ := hf.inString_eq (ne_of_isHex hd.2.2.1) h2
    obtain ⟨cs, rfl, h4⟩ := hf.inString_eq (ne_of_isHex hd.2.2.2) h3
    exact ⟨cs, rfl, h4⟩

theorem body_eq (pieces : List Piece) {text out : List Char}
    (h : f .string text = bodyChars pieces ++ '"' :: out) :
    ∃ cs, text = bodyChars pieces ++ '"' :: cs ∧ f .code cs = out := by
  unfold bodyChars at h ⊢
  induction pieces generalizing text with
  | nil =>
    obtain ⟨cs, rfl, hcs⟩ := hf.string_eq_cons h
    exact ⟨cs, rfl, hcs⟩
  | cons p pieces ih =>
    rw [List.flatMap_cons, List.append_assoc] at h
    obtain ⟨cs, rfl, hcs⟩ := hf.piece_eq p h
    obtain ⟨cs, rfl, hrest⟩ := ih hcs
    exact ⟨cs, by rw [List.flatMap_cons, List.append_assoc], hrest⟩

/-- **A token comes from the same token**, when a character outside strings comes from the same
character of a text that is as `I` says. -/
theorem token_eq {I : List Char → Prop}
    (hcode : ∀ {c : Char} {text out : List Char}, c ≠ ' ' → I text → f .code text = c :: out →
      ∃ cs, text = c :: cs ∧ f (if c = '"' then .string else .code) cs = out)
    (hatomic : ∀ {c d : Char} {cs out : List Char}, isAtomic c → isAtomic d → I (c :: cs) →
      f .code cs = d :: out → I cs)
    {t : Token} {text out : List Char} (hi : I text) (h : f .code text = t.text ++ out) :
    ∃ rest, text = t.text ++ rest ∧ f .code rest = out := by
  obtain ⟨pieces, ht⟩ | ⟨c, ht, -, hquote, hspace⟩ | ⟨hne, hchars⟩ := Token.text_cases t
  · rw [ht] at h ⊢
    simp only [List.cons_append, List.append_assoc, List.nil_append] at h ⊢
    obtain ⟨cs, rfl, hcs⟩ := hcode (by decide) hi h
    obtain ⟨rest, rfl, hrest⟩ := hf.body_eq pieces hcs
    exact ⟨rest, rfl, hrest⟩
  · rw [ht] at h ⊢
    obtain ⟨cs, rfl, hcs⟩ := hcode hspace hi h
    rw [if_neg hquote] at hcs
    exact ⟨cs, rfl, hcs⟩
  · generalize t.text = word at h hne hchars ⊢
    induction word generalizing text with
    | nil => exact absurd rfl hne
    | cons c word ih =>
      have hc := hchars c (.head _)
      have hspace : c ≠ ' ' := by
        rintro rfl
        exact absurd hc (by decide)
      obtain ⟨cs, rfl, hcs⟩ := hcode hspace hi h
      rw [if_neg (ne_of_isAtomic hc).2.1] at hcs
      cases word with
      | nil => exact ⟨cs, rfl, hcs⟩
      | cons d word =>
        have hword := fun b hb => hchars b (.tail _ hb)
        obtain ⟨rest, rfl, hrest⟩ :=
          ih (hatomic hc (hword d (.head _)) hi hcs) hcs (by simp) hword
        exact ⟨rest, rfl, hrest⟩

end Pass

/-! ## Blanks before a token -/

/-- The text does not begin with a blank. -/
def Solid (text : List Char) : Prop :=
  ∀ c ∈ text.head?, Json.Cursor.isBlank c = false

theorem solid_nil : Solid [] := fun _ hc => nomatch hc

theorem solid_cons {c : Char} {cs : List Char} :
    Solid (c :: cs) ↔ Json.Cursor.isBlank c = false := by
  simp [Solid]

theorem solid_token (t : Token) (cs : List Char) : Solid (t.text ++ cs) := by
  obtain ⟨c, rest, ht, hc, -⟩ := t.exists_cons
  rw [ht]
  exact solid_cons.2 hc

theorem exists_blank_append (text : List Char) :
    ∃ gap rest, text = gap ++ rest ∧ Blank gap ∧ Solid rest := by
  refine ⟨_, _, (List.takeWhile_append_dropWhile (p := Json.Cursor.isBlank)).symm,
    fun c hc => List.mem_takeWhile_imp hc, fun c hc => ?_⟩
  have hnot := List.head?_dropWhile_not Json.Cursor.isBlank text
  rw [hc] at hnot
  exact hnot

/-- Where the blanks at the beginning end does not depend on how a text is split. -/
theorem eq_of_solid {gap gap' rest rest' : List Char} (hg : Blank gap) (hg' : Blank gap')
    (hr : Solid rest) (hr' : Solid rest') (h : gap ++ rest = gap' ++ rest') : rest = rest' := by
  have hdrop : ∀ {cs : List Char}, Solid cs → cs.dropWhile Json.Cursor.isBlank = cs := by
    intro cs hcs
    cases cs with
    | nil => rfl
    | cons c cs => exact List.dropWhile_cons_of_neg (by simp [solid_cons.1 hcs])
  have heq := congrArg (List.dropWhile Json.Cursor.isBlank) h
  rwa [Json.dropWhile_blank hg, Json.dropWhile_blank hg', hdrop hr, hdrop hr'] at heq

/-! ## Back through the second pass -/

theorem blankCommas_eq_cons {c : Char} {text out : List Char} (hc : c ≠ ' ')
    (h : blankCommas .code text = c :: out) :
    ∃ cs, text = c :: cs ∧ blankCommas (if c = '"' then .string else .code) cs = out := by
  cases text with
  | nil =>
    rw [pass_blankCommas.nil] at h
    cases h
  | cons b cs =>
    rw [blankCommas_cons] at h
    obtain ⟨hb, hcs⟩ := List.cons.inj h
    obtain rfl : b = c := by
      by_cases hcomma : b = ','
      · by_cases hnext : closesNext cs
        · rw [if_pos hcomma, if_pos hnext] at hb
          exact absurd hb.symm hc
        · rw [if_pos hcomma, if_neg hnext] at hb
          exact hcomma.trans hb
      · rwa [if_neg hcomma] at hb
    exact ⟨cs, rfl, hcs⟩

theorem solid_blankCommas {text : List Char} (h : Solid text)
    (hcomma : ∀ cs, text = ',' :: cs → closesNext cs = false) :
    Solid (blankCommas .code text) := by
  cases text with
  | nil =>
    rw [pass_blankCommas.nil]
    exact solid_nil
  | cons c cs =>
    rw [blankCommas_cons, solid_cons]
    by_cases hc : c = ','
    · rw [if_pos hc, if_neg (by simp [hcomma cs (by rw [hc])])]
      decide
    · rw [if_neg hc]
      exact solid_cons.1 h

/-- **What a text begins with** when blanks come of it: blanks, or blanks and one comma, and then
only before a closing bracket. -/
theorem exists_blanked (text : List Char) :
    ∃ gap rest blanks, text = gap ++ rest ∧
      blankCommas .code text = blanks ++ blankCommas .code rest ∧ Blank blanks ∧
      Solid (blankCommas .code rest) ∧
      (Blank gap ∨ closesNext rest ∧
        ∃ g1 g2, gap = g1 ++ ',' :: g2 ∧ Blank g1 ∧ Blank g2) := by
  obtain ⟨g1, rest, rfl, hg1, hrest⟩ := exists_blank_append text
  by_cases hcomma : ∃ cs, rest = ',' :: cs ∧ closesNext cs
  · obtain ⟨cs, rfl, hclose⟩ := hcomma
    obtain ⟨g2, rest, rfl, hg2, hrest⟩ := exists_blank_append cs
    rw [closesNext_blank hg2] at hclose
    refine ⟨g1 ++ ',' :: g2, rest, g1 ++ ' ' :: g2, by simp, ?_,
      blank_append.2 ⟨hg1, blank_cons.2 ⟨rfl, hg2⟩⟩, solid_blankCommas hrest ?_,
      .inr ⟨hclose, g1, g2, rfl, hg1, hg2⟩⟩
    · rw [pass_blankCommas.blank hg1, blankCommas_cons, if_pos rfl, closesNext_blank hg2,
        if_pos hclose, if_neg (by decide), pass_blankCommas.blank hg2]
      simp
    · -- a second comma is no closing bracket
      rintro cs rfl
      rw [closesNext_cons (by decide)] at hclose
      cases hclose
  · refine ⟨g1, rest, g1, rfl, pass_blankCommas.blank hg1 rest, hg1,
      solid_blankCommas hrest fun cs heq => ?_, .inl hg1⟩
    rw [Bool.eq_false_iff]
    exact fun hclose => hcomma ⟨cs, heq, hclose⟩

theorem blank_of_blankCommas {text : List Char} (h : Blank (blankCommas .code text)) :
    Blank text := by
  obtain ⟨gap, rest, blanks, rfl, heq, hb, hsolid, hgap⟩ := exists_blanked text
  have hnil : blankCommas .code rest = [] :=
    eq_of_solid hb h hsolid solid_nil (heq.symm.trans (List.append_nil _).symm)
  obtain rfl : rest = [] := by
    cases rest with
    | nil => rfl
    | cons c cs =>
      rw [blankCommas_cons] at hnil
      cases hnil
  rcases hgap with hgap | ⟨hclose, -⟩
  · rwa [List.append_nil]
  · cases hclose

theorem blankCommas_eq_token {t : Token} {text gap out : List Char} (hg : Blank gap)
    (h : blankCommas .code text = gap ++ (t.text ++ out)) :
    ∃ gap' rest, text = gap' ++ (t.text ++ rest) ∧ blankCommas .code rest = out ∧
      (Blank gap' ∨ t.isClosing ∧ ∃ g1 g2, gap' = g1 ++ ',' :: g2 ∧ Blank g1 ∧ Blank g2) := by
  obtain ⟨gap', rest, blanks, rfl, heq, hb, hsolid, hgap⟩ := exists_blanked text
  have hrest := eq_of_solid hb hg hsolid (solid_token t out) (heq.symm.trans h)
  obtain ⟨rest, rfl, hout⟩ := pass_blankCommas.token_eq (I := fun _ => True)
    (fun hc _ => blankCommas_eq_cons hc) (fun _ _ _ _ => trivial) trivial hrest
  rw [closesNext_token] at hgap
  exact ⟨gap', rest, rfl, hout, hgap⟩

/-- The first tokens are the second ones, with commas before closing brackets. -/
inductive Loose : List Token → List Token → Prop
  | nil : Loose [] []
  | cons {t : Token} {ts us : List Token} : Loose ts us → Loose (t :: ts) (t :: us)
  | comma {c : Token} {ts us : List Token} : c.isClosing → Loose ts us →
      Loose (.comma :: c :: ts) (c :: us)

/-- **Back through the second pass**: only commas before closing brackets are left out. -/
theorem blankCommas_eq_spread {us : List Token} {out gap text : List Char}
    (hs : Spread Blank us out) (hg : Blank gap) (h : blankCommas .code text = out ++ gap) :
    ∃ ts body gap', text = body ++ gap' ∧ Spread Blank ts body ∧ Blank gap' ∧ Loose ts us := by
  induction hs generalizing text with
  | nil => exact ⟨[], [], text, rfl, .nil, blank_of_blankCommas (h ▸ hg), .nil⟩
  | @cons g t us out hb hs ih =>
    simp only [List.append_assoc] at h
    obtain ⟨g', rest, rfl, hrest, hgap⟩ := blankCommas_eq_token hb h
    obtain ⟨ts, body, gap', rfl, hbody, hlast, hl⟩ := ih hrest
    rcases hgap with hgap | ⟨hclose, g1, g2, rfl, hg1, hg2⟩
    · exact ⟨t :: ts, g' ++ (t.text ++ body), gap', by simp, .cons hgap hbody, hlast, .cons hl⟩
    · refine ⟨.comma :: t :: ts, g1 ++ (Token.comma.text ++ (g2 ++ (t.text ++ body))), gap', ?_,
        .cons hg1 (.cons hg2 hbody), hlast, .comma hclose hl⟩
      simp [Token.text]

/-! ## Back through the first pass -/

theorem Gap.append {g1 g2 : List Char} (h1 : Gap g1) (h2 : Gap g2) : Gap (g1 ++ g2) := by
  induction h1 with
  | nil => exact h2
  | blank hc _ ih => exact .blank hc ih
  | line hbody _ ih =>
    simp only [List.cons_append, List.append_assoc]
    exact .line hbody ih
  | block hbody _ ih =>
    simp only [List.cons_append, List.append_assoc]
    exact .block hbody ih

theorem LastGap.append {g1 g2 : List Char} (h1 : Gap g1) (h2 : LastGap g2) :
    LastGap (g1 ++ g2) := by
  cases h2 with
  | ended h2 => exact .ended (h1.append h2)
  | line h2 hbody =>
    rw [← List.append_assoc]
    exact .line (h1.append h2) hbody

/-- A text that holds another one holds it somewhere first. -/
theorem exists_first_infix {part cs : List Char} (hne : part ≠ []) (h : part <:+: cs) :
    ∃ body rest, cs = body ++ (part ++ rest) ∧ ¬ part <:+: body := by
  induction cs with
  | nil => exact absurd (List.infix_nil.1 h) hne
  | cons c cs ih =>
    by_cases hp : part <+: c :: cs
    · obtain ⟨rest, hrest⟩ := hp
      exact ⟨[], rest, hrest.symm, fun hnil => hne (List.infix_nil.1 hnil)⟩
    · obtain ⟨body, rest, rfl, hbody⟩ := ih ((List.infix_cons_iff.1 h).resolve_left hp)
      refine ⟨c :: body, rest, rfl, fun hin => ?_⟩
      rcases List.infix_cons_iff.1 hin with hpre | hin
      · exact hp (hpre.trans (List.prefix_append (c :: body) _))
      · exact hbody hin

/-- What a comment begins with. -/
theorem exists_of_startsComment {text : List Char} (h : startsComment text) :
    ∃ cs, text = '/' :: '/' :: cs ∨ text = '/' :: '*' :: cs := by
  unfold startsComment at h
  split at h
  · exact ⟨_, .inl rfl⟩
  · exact ⟨_, .inr rfl⟩
  · cases h

theorem Tidy.orderly {c : Char} {cs : List Char} (h : Tidy (c :: cs)) : Orderly (c :: cs) := by
  refine h _ ?_
  by_cases hcomment : startsComment (c :: cs)
  · obtain ⟨rest, heq | heq⟩ := exists_of_startsComment hcomment <;> rw [heq, codeTails] <;>
      exact .head _
  · rw [codeTails_code (by simpa using hcomment)]
    exact .head _

/-- **What a tidy text begins with**: nothing but a comment of its last line, a character that is
kept, or a blank or a comment that is closed. -/
theorem gap_cases {text : List Char} (h : Tidy text) :
    (LastGap text ∨ text ≠ [] ∧ Solid text ∧ startsComment text = false) ∨
      ∃ front rest, front ≠ [] ∧ text = front ++ rest ∧ Gap front ∧ Tidy rest := by
  by_cases hcomment : startsComment text
  · obtain ⟨cs, rfl | rfl⟩ := exists_of_startsComment hcomment
    · by_cases hmem : '\n' ∈ cs
      · obtain ⟨body, rest, rfl, hbody⟩ := List.eq_append_cons_of_mem hmem
        exact .inr ⟨'/' :: '/' :: (body ++ ['\n']), rest, by simp, by simp, .line hbody .nil,
          ((tidy_cons (codeTails_line hbody rest)).1 h).2⟩
      · exact .inl (.inl (.line .nil hmem))
    · obtain ⟨body, rest, rfl, hbody⟩ := exists_first_infix (by simp) (h.orderly.closed cs rfl)
      exact .inr ⟨'/' :: '*' :: (body ++ ['*', '/']), rest, by simp, by simp, .block hbody .nil,
        ((tidy_cons (codeTails_block hbody rest)).1 h).2⟩
  · cases text with
    | nil => exact .inl (.inl (.ended .nil))
    | cons c cs =>
      by_cases hc : Json.Cursor.isBlank c
      · exact .inr ⟨[c], cs, by simp, rfl, .blank hc .nil,
          ((tidy_cons (codeTails_of_plain (ne_of_isBlank hc) cs)).1 h).2⟩
      · exact .inl (.inr ⟨by simp, solid_cons.2 (by simpa using hc), by simpa using hcomment⟩)

/-- The blanks and the comments at the beginning of a tidy text. -/
theorem exists_gap (text : List Char) (h : Tidy text) :
    ∃ gap rest, text = gap ++ rest ∧ Gap gap ∧ Tidy rest ∧
      (LastGap rest ∨ rest ≠ [] ∧ Solid rest ∧ startsComment rest = false) := by
  rcases gap_cases h with hend | ⟨front, rest, hne, rfl, hf, hr⟩
  · exact ⟨[], text, rfl, .nil, h, hend⟩
  · have hpos := List.length_pos_of_ne_nil hne
    have hlt : rest.length < (front ++ rest).length := by
      rw [List.length_append]
      omega
    obtain ⟨gap, rest, rfl, hg, hrest⟩ := exists_gap rest hr
    exact ⟨front ++ gap, rest, by rw [List.append_assoc], hf.append hg, hrest⟩
termination_by text.length
decreasing_by
  simp only [*]

theorem stripComments_eq_cons {c : Char} {text out : List Char}
    (hcomment : startsComment text = false) (h : stripComments .code text = c :: out) :
    ∃ cs, text = c :: cs ∧ stripComments (if c = '"' then .string else .code) cs = out := by
  cases text with
  | nil =>
    rw [stripComments_nil] at h
    cases h
  | cons b cs =>
    rw [stripComments_code hcomment] at h
    obtain ⟨rfl, hcs⟩ := List.cons.inj h
    exact ⟨cs, rfl, hcs⟩

theorem solid_stripComments {text : List Char} (h : Solid text)
    (hcomment : startsComment text = false) : Solid (stripComments .code text) := by
  cases text with
  | nil =>
    rw [stripComments_nil]
    exact solid_nil
  | cons c cs =>
    rw [stripComments_code hcomment]
    exact solid_cons.2 (solid_cons.1 h)

theorem lastGap_of_stripComments {text : List Char} (h : Tidy text)
    (hb : Blank (stripComments .code text)) : LastGap text := by
  obtain ⟨gap, rest, rfl, hg, -, hlast | ⟨hne, hsolid, hcomment⟩⟩ := exists_gap text h
  · exact .append hg hlast
  · exfalso
    obtain ⟨blanks, hblanks, heq⟩ := stripComments_gap hg rest
    have hnil := eq_of_solid hblanks hb (solid_stripComments hsolid hcomment) solid_nil
      (heq.symm.trans (List.append_nil _).symm)
    obtain ⟨c, cs, rfl⟩ := List.exists_cons_of_ne_nil hne
    rw [stripComments_code hcomment] at hnil
    cases hnil

/-- The rest of a tidy text behind a token. -/
theorem Tidy.of_token {t : Token} {rest : List Char} (h : Tidy (t.text ++ rest)) : Tidy rest := by
  obtain ⟨pieces, ht⟩ | ⟨c, ht, hslash, hquote, -⟩ | ⟨-, hchars⟩ := Token.text_cases t
  · rw [ht] at h
    simp only [List.cons_append, List.append_assoc, List.nil_append] at h
    exact ((tidy_cons (codeTails_string pieces rest)).1 h).2
  · rw [ht] at h
    refine ((tidy_cons ?_).1 h).2
    rw [List.cons_append, codeTails_code (startsComment_of_ne hslash _), if_neg hquote]
    rfl
  · generalize t.text = word at h hchars
    induction word with
    | nil => exact h
    | cons c word ih =>
      have hc := ne_of_isAtomic (hchars c (.head _))
      exact ih ((tidy_cons (codeTails_of_plain hc _)).1 h).2 fun b hb => hchars b (.tail _ hb)

/-- No comment stands between two parts of one word or numeral. -/
theorem Tidy.of_atomic {c d : Char} {cs out : List Char} (h : Tidy (c :: cs)) (hc : isAtomic c)
    (hd : isAtomic d) (heq : stripComments .code cs = d :: out) :
    startsComment cs = false ∧ Tidy cs := by
  obtain ⟨horderly, htail⟩ := (tidy_cons (codeTails_of_plain (ne_of_isAtomic hc) cs)).1 h
  refine ⟨?_, htail⟩
  rw [Bool.eq_false_iff]
  intro hstart
  have hstops := horderly.apart c cs rfl hc hstart
  rw [heq] at hstops
  cases hd.symm.trans (hstops d rfl)

theorem stripComments_eq_token {t : Token} {text gap out : List Char} (h : Tidy text)
    (hg : Blank gap) (heq : stripComments .code text = gap ++ (t.text ++ out)) :
    ∃ gap' rest, text = gap' ++ (t.text ++ rest) ∧ Gap gap' ∧ Tidy (t.text ++ rest) ∧
      stripComments .code rest = out := by
  obtain ⟨gap', rest, rfl, hg', hrest, hlast | ⟨-, hsolid, hcomment⟩⟩ := exists_gap text h
  · have hblank := stripComments_lastGap (LastGap.append hg' hlast)
    have hnil := eq_of_solid hblank hg solid_nil (solid_token t out)
      ((List.append_nil _).trans heq)
    obtain ⟨c, cs, ht, -⟩ := t.exists_cons
    rw [ht] at hnil
    cases hnil
  · obtain ⟨blanks, hb, hgap⟩ := stripComments_gap hg' rest
    have htoken := eq_of_solid hb hg (solid_stripComments hsolid hcomment) (solid_token t out)
      (hgap.symm.trans heq)
    obtain ⟨rest, rfl, hout⟩ := pass_stripComments.token_eq
      (I := fun text => startsComment text = false ∧ Tidy text)
      (fun _ hi => stripComments_eq_cons hi.1) (fun hc hd hi => hi.2.of_atomic hc hd)
      ⟨hcomment, hrest⟩ htoken
    exact ⟨gap', rest, rfl, hg', hrest, hout⟩

/-- No comma stands alone between two brackets. -/
def NoLoneComma (ts : List Token) : Prop :=
  ∀ frame c, c.isClosing → ¬ [.opening frame, .comma, c] <:+: ts

/-- **Back through the first pass**: only comments between the tokens are taken out. -/
theorem stripComments_eq_spread {ts : List Token} {out gap text : List Char}
    (hs : Spread Blank ts out) (hg : Blank gap) (htidy : Tidy text)
    (h : stripComments .code text = out ++ gap) :
    ∃ body gap', text = body ++ gap' ∧ Spread Gap ts body ∧ LastGap gap' ∧ NoLoneComma ts := by
  induction hs generalizing text with
  | nil =>
    refine ⟨[], text, rfl, .nil, lastGap_of_stripComments htidy (h ▸ hg), fun frame c _ hin => ?_⟩
    cases List.infix_nil.1 hin
  | @cons g t ts out hb hs ih =>
    simp only [List.append_assoc] at h
    obtain ⟨g', rest, rfl, hg', hrest, hout⟩ := stripComments_eq_token htidy hb h
    obtain ⟨body, gap', rfl, hbody, hlast, hlone⟩ := ih hrest.of_token hout
    refine ⟨g' ++ (t.text ++ body), gap', by simp, .cons hg' hbody, hlast,
      fun frame c hclose hin => ?_⟩
    rcases List.infix_cons_iff.1 hin with ⟨after, hafter⟩ | hin
    · obtain ⟨rfl, rfl⟩ := List.cons.inj hafter
      obtain ⟨tail, hdrop, htail⟩ := Json.dropWhile_spread hs gap
      have hnot : closesNext (tail ++ gap) = false :=
        (Tidy.orderly hrest).notLone frame _ _ rfl (hout ▸ hdrop)
      rw [closesNext_spread htail hg] at hnot
      cases hnot.symm.trans hclose
    · exact hlone frame c hclose hin

/-! ## The main results -/

theorem Loose.trailing {ts us : List Token} (h : Loose ts us) {e : Token}
    (hc : (e :: us).IsChain (·.follows ·)) (hlone : NoLoneComma (e :: ts)) :
    Trailing (e :: ts) (e :: us) := by
  induction h generalizing e with
  | nil => exact .cons .nil
  | cons _ ih =>
    exact .cons (ih hc.tail fun frame c hclose hin =>
      hlone frame c hclose (hin.trans (List.suffix_cons e _).isInfix))
  | @comma c ts us hclose _ ih =>
    have hfollows := (List.isChain_cons_cons.1 hc).1
    have hends : e.endsValue := by
      cases e with
      | opening frame => exact absurd ⟨[], ts, rfl⟩ (hlone frame c hclose)
      | closing frame => rfl
      | scalar s => rfl
      | comma => cases c <;> simp_all [Token.follows, Token.startsValue, Token.isClosing]
      | colon => cases c <;> simp_all [Token.follows, Token.startsValue, Token.isClosing]
    refine .comma hends hclose (ih hc.tail fun frame c' hclose' hin => ?_)
    exact hlone frame c' hclose' (hin.trans (List.suffix_append [e, .comma] _).isInfix)

/-- **Which texts become the text of a value**: a text is one with comments of a value exactly when a
JSON text of the value comes of it, and it is tidy: each comment is closed, none stands inside a word
or a numeral, and no comma stands alone between two brackets. -/
theorem denotes_iff {text : List Char} {v : Tree} :
    Denotes text v ↔ Json.Denotes (toJson text) v ∧ Tidy text := by
  refine ⟨fun h => ⟨denotes_toJson h, h.tidy⟩, ?_⟩
  rintro ⟨⟨body, gap, heq, hs, hg⟩, htidy⟩
  obtain ⟨ts, body, gap, hstrip, hbody, hgap, hloose⟩ := blankCommas_eq_spread hs hg heq
  obtain ⟨body, gap, rfl, hbody, hgap, hlone⟩ := stripComments_eq_spread hbody hgap htidy hstrip
  refine ⟨ts, body, gap, rfl, hbody, hgap, ?_⟩
  have hchain := isChain_tokens v
  obtain ⟨t, us, hv, ht⟩ := Json.exists_tokens_eq_cons v
  rw [hv] at hloose hchain ⊢
  cases hloose with
  | cons hl => exact hl.trailing hchain hlone
  | comma hclose => cases hclose.symm.trans (Json.Token.not_isClosing ht)

/-- A word with a comment inside. -/
def joinedText : List Char :=
  ['t', 'r', '/', '*', '*', '/', 'u', 'e']

/-- **A word is joined** of the parts before and behind a comment, which is no text with comments. -/
theorem not_denotes_joinedText :
    (∃ v, Json.Denotes (toJson joinedText) v) ∧ ∀ v, ¬ Denotes joinedText v := by
  have hjoined : toJson joinedText = Scalar.text (.bool true) ++ [] := by decide
  refine ⟨⟨.scalar (.bool true), Scalar.text (.bool true), [], hjoined, ?_, blank_nil⟩,
    fun v hv => ?_⟩
  · exact .cons blank_nil .nil
  · have hplace : ['r', '/', '*', '*', '/', 'u', 'e'] ∈ codeTails .code joinedText := by decide
    have hstops := (hv.tidy _ hplace).apart 'r' _ rfl rfl rfl
    cases hstops 'u' rfl

end BuildLayout.Jsonc
