import BuildLayout.Config.Declared
import BuildLayout.Proofs.Config.Scan
import BuildLayout.Proofs.Json.Noticed
import Mathlib.Data.List.Forall2

/-!
# Taking out comments keeps the lines

* `marked` says of each character of a text with comments whether it belongs to a comment, to a string
  or to neither (`marked_lineComment`, `marked_blockComment`, `marked_string`).
* `Reduces` says what may be made of such a text: characters of comments are left out, except line
  ends, and a comma outside strings and comments may become a space. That is what `Jsonc.toJson` does
  (`reduces_toJson`).
* It does so line by line (`Reduces.lines`), and a place of the result is one of the text, on the
  same line (`Reduces.split`).
* `isAt_of_ofText`: a fault of a configuration file is noticed at a place of the JSON text.
-/

namespace BuildLayout.Jsonc

open Json (Piece bodyChars)

/-! ## What a character belongs to -/

/-- The parts of a text with comments. -/
inductive Region where
  | code
  /-- The quotes of a string belong to it. -/
  | string
  /-- A comment of one line ends before the line end, one with a closing mark behind it. -/
  | comment
deriving DecidableEq, Repr

/-- The characters of a text, and what each belongs to. -/
def marked : Mode → List Char → List (Char × Region)
  | _, [] => []
  | .code, '/' :: '/' :: cs => ('/', .comment) :: ('/', .comment) :: marked .line cs
  | .code, '/' :: '*' :: cs => ('/', .comment) :: ('*', .comment) :: marked (.block false) cs
  | .code, c :: cs =>
    if c = '"' then (c, .string) :: marked .string cs else (c, .code) :: marked .code cs
  | .string, c :: cs =>
    (c, .string) ::
      marked (if c = '\\' then .escape else if c = '"' then .code else .string) cs
  | .escape, c :: cs => (c, .string) :: marked .string cs
  | .line, c :: cs =>
    if c = '\n' then (c, .code) :: marked .code cs else (c, .comment) :: marked .line cs
  | .block star, c :: cs =>
    (c, .comment) ::
      (if c = '\n' then marked (.block false) cs
      else if star ∧ c = '/' then marked .code cs
      else marked (.block (c = '*')) cs)

theorem marked_nil (mode : Mode) : marked mode [] = [] := by
  cases mode <;> rw [marked]

theorem marked_code {c : Char} {cs : List Char} (h : startsComment (c :: cs) = false) :
    marked .code (c :: cs) =
      if c = '"' then (c, .string) :: marked .string cs else (c, .code) :: marked .code cs := by
  rw [marked]
  · rintro rest rfl rfl
    cases h
  · rintro rest rfl rfl
    cases h

/-- Nothing is left out. -/
theorem map_fst_marked (mode : Mode) (cs : List Char) : (marked mode cs).map Prod.fst = cs := by
  induction mode, cs using stripComments.induct with
  | case1 mode => rw [marked_nil, List.map_nil]
  | case2 cs ih => simp [marked, ih]
  | case3 cs ih => simp [marked, ih]
  | case4 c cs hline hblock ih =>
    rw [marked_code (startsComment_eq_false hline hblock)]
    split_ifs at ih ⊢ <;> simp [ih]
  | case5 c cs ih => simp [marked, ih]
  | case6 c cs ih => simp [marked, ih]
  | case7 cs ih => simp [marked, ih]
  | case8 c cs hc ih => simp [marked, hc, ih]
  | case9 star cs ih => simp [marked, ih]
  | case10 star c cs hc hend ih => simp [marked, hend, ih]
  | case11 star c cs hc hend ih => simp [marked, hc, hend, ih]

/-- What belongs to a comment of one line. -/
theorem marked_lineComment {body : List Char} (h : '\n' ∉ body) (cs : List Char) :
    marked .code ('/' :: '/' :: (body ++ '\n' :: cs)) =
      ('/' :: '/' :: body).map (·, .comment) ++ ('\n', .code) :: marked .code cs := by
  have hline : marked .line (body ++ '\n' :: cs) =
      body.map (·, .comment) ++ ('\n', .code) :: marked .code cs := by
    induction body with
    | nil => simp [marked]
    | cons c body ih =>
      rw [List.mem_cons, not_or] at h
      rw [List.cons_append, marked, if_neg (Ne.symm h.1), ih h.2]
      rfl
  rw [marked, hline]
  rfl

/-- One character of a comment; that it is a star counts only when a slash follows. -/
theorem marked_block_cons {c : Char} {cs : List Char} (h : ¬ ['*', '/'] <+: c :: cs) :
    marked (.block false) (c :: cs) = (c, .comment) :: marked (.block false) cs := by
  rw [marked]
  by_cases hc : c = '\n'
  · rw [if_pos hc]
  · rw [if_neg hc, if_neg (by simp)]
    by_cases hs : c = '*'
    · cases cs with
      | nil => rw [marked_nil, marked_nil]
      | cons b cs =>
        have hb : b ≠ '/' := by
          rintro rfl
          exact h ⟨cs, by rw [hs]; rfl⟩
        simp [marked, hb]
    · rw [decide_eq_false hs]

/-- What belongs to a comment with a closing mark. -/
theorem marked_blockComment {body : List Char} (h : ¬ ['*', '/'] <:+: body) (cs : List Char) :
    marked .code ('/' :: '*' :: (body ++ '*' :: '/' :: cs)) =
      ('/' :: '*' :: (body ++ ['*', '/'])).map (·, .comment) ++ marked .code cs := by
  have hblock : marked (.block false) (body ++ '*' :: '/' :: cs) =
      (body ++ ['*', '/']).map (·, .comment) ++ marked .code cs := by
    induction body with
    | nil => simp [marked]
    | cons c body ih =>
      rw [List.infix_cons_iff, not_or] at h
      rw [List.cons_append, marked_block_cons, ih h.2]
      · rfl
      · rintro ⟨rest, hrest⟩
        cases body with
        | nil => simp at hrest
        | cons b body =>
          simp only [List.cons_append, List.nil_append, List.cons.injEq] at hrest
          obtain ⟨rfl, rfl, -⟩ := hrest
          exact h.1 ⟨body, rfl⟩
  rw [marked, hblock]
  rfl

theorem marked_piece (p : Piece) (cs : List Char) :
    marked .string (p.chars ++ cs) = p.chars.map (·, .string) ++ marked .string cs := by
  have hstep : ∀ {c : Char}, c ≠ '\\' ∧ c ≠ '"' → ∀ cs,
      marked .string (c :: cs) = (c, .string) :: marked .string cs := by
    intro c hc cs
    rw [marked, if_neg hc.1, if_neg hc.2]
  have hescape : ∀ c cs, marked .string ('\\' :: c :: cs) =
      ('\\', .string) :: (c, .string) :: marked .string cs := by
    intro c cs
    rw [marked, if_pos rfl, marked]
  cases p with
  | plain c h => exact hstep ⟨h.2.2, h.2.1⟩ cs
  | short letter h => exact hescape letter cs
  | unit d0 d1 d2 d3 h =>
    simp only [Piece.chars, List.cons_append, List.nil_append, hescape, hstep (ne_of_isHex h.1),
      hstep (ne_of_isHex h.2.1), hstep (ne_of_isHex h.2.2.1), hstep (ne_of_isHex h.2.2.2),
      List.map_cons, List.map_nil]

/-- What belongs to a string. -/
theorem marked_string (pieces : List Piece) (cs : List Char) :
    marked .code ('"' :: (bodyChars pieces ++ '"' :: cs)) =
      ('"' :: (bodyChars pieces ++ ['"'])).map (·, .string) ++ marked .code cs := by
  have hbody : marked .string (bodyChars pieces ++ '"' :: cs) =
      (bodyChars pieces ++ ['"']).map (·, .string) ++ marked .code cs := by
    unfold bodyChars
    induction pieces with
    | nil =>
      show marked .string ('"' :: cs) = _
      rw [marked, if_neg (by decide), if_pos rfl]
      rfl
    | cons p pieces ih =>
      rw [List.flatMap_cons, List.append_assoc, marked_piece, ih]
      simp
  rw [marked_code (startsComment_of_ne (by decide) _), if_pos rfl, hbody]
  rfl

/-! ## What is made of a text -/

/-- The characters without those of comments that end no line, and with a space for some commas
that belong neither to a string nor to a comment. -/
inductive Reduces : List (Char × Region) → List Char → Prop
  | nil : Reduces [] []
  | kept {c : Char} {r : Region} {marks : List (Char × Region)} {out : List Char} :
      (r = .comment → c = '\n') → Reduces marks out → Reduces ((c, r) :: marks) (c :: out)
  | dropped {c : Char} {marks : List (Char × Region)} {out : List Char} :
      c ≠ '\n' → Reduces marks out → Reduces ((c, .comment) :: marks) out
  | blanked {marks : List (Char × Region)} {out : List Char} :
      Reduces marks out → Reduces ((',', .code) :: marks) (' ' :: out)

/-- **The two passes** reduce a text, wherever they stand. -/
theorem reduces_marked (mode : Mode) (cs : List Char) :
    Reduces (marked mode cs) (blankCommas mode.outside (stripComments mode cs)) := by
  induction mode, cs using stripComments.induct with
  | case1 mode =>
    rw [marked_nil, stripComments_nil, pass_blankCommas.nil]
    exact .nil
  | case2 cs ih =>
    rw [marked, stripComments]
    exact .dropped (by decide) (.dropped (by decide) ih)
  | case3 cs ih =>
    rw [marked, stripComments]
    exact .dropped (by decide) (.dropped (by decide) ih)
  | case4 c cs hline hblock ih =>
    have hs := startsComment_eq_false hline hblock
    rw [marked_code hs, stripComments_code hs, Mode.outside, blankCommas_cons]
    by_cases hquote : c = '"'
    · subst hquote
      exact .kept (by simp) ih
    · rw [if_neg hquote] at ih ⊢
      rw [if_neg hquote]
      split_ifs with hcomma hclose
      · exact hcomma ▸ .blanked ih
      · exact hcomma ▸ .kept (by simp) ih
      · exact .kept (by simp) ih
  | case5 c cs ih =>
    rw [marked, stripComments, Mode.outside, blankCommas]
    refine .kept (by simp) ?_
    split_ifs at ih ⊢ <;> exact ih
  | case6 c cs ih =>
    rw [marked, stripComments, Mode.outside, blankCommas]
    exact .kept (by simp) ih
  | case7 cs ih =>
    rw [marked, stripComments, if_pos rfl, if_pos rfl, Mode.outside,
      pass_blankCommas.plain (by decide)]
    exact .kept (by simp) ih
  | case8 c cs hc ih =>
    rw [marked, stripComments, if_neg hc, if_neg hc]
    exact .dropped hc ih
  | case9 star cs ih =>
    rw [marked, stripComments, if_pos rfl, if_pos rfl, Mode.outside,
      pass_blankCommas.plain (by decide)]
    exact .kept (fun _ => rfl) ih
  | case10 star c cs hc hend ih =>
    rw [marked, stripComments, if_neg hc, if_neg hc, if_pos hend, if_pos hend]
    exact .dropped hc ih
  | case11 star c cs hc hend ih =>
    rw [marked, stripComments, if_neg hc, if_neg hc, if_neg hend, if_neg hend]
    exact .dropped hc ih

theorem reduces_toJson (text : List Char) : Reduces (marked .code text) (toJson text) :=
  reduces_marked .code text

/-! Lists that are related item by item. -/

theorem forall₂_modifyHead {α β : Type} {R : α → β → Prop} (f : α → α) (g : β → β)
    (hfg : ∀ a b, R a b → R (f a) (g b)) {as : List α} {bs : List β} (h : List.Forall₂ R as bs) :
    List.Forall₂ R (as.modifyHead f) (bs.modifyHead g) := by
  cases h with
  | nil => exact .nil
  | cons hab hrest => exact .cons (hfg _ _ hab) hrest

theorem forall₂_getElem? {α β : Type} {R : α → β → Prop} {as : List α} {bs : List β}
    (h : List.Forall₂ R as bs) {k : Nat} {a : α} (ha : as[k]? = some a) :
    ∃ b, bs[k]? = some b ∧ R a b := by
  induction h generalizing k with
  | nil => simp at ha
  | @cons a' b as bs hab _ ih =>
    cases k with
    | zero =>
      cases ha
      exact ⟨b, rfl, hab⟩
    | succ k => exact ih (by simpa using ha)

theorem splitOnP_map {α β : Type} (f : α → β) (p : β → Bool) (as : List α) :
    (as.map f).splitOnP p = (as.splitOnP fun a => p (f a)).map (List.map f) := by
  induction as with
  | nil => rfl
  | cons a as ih =>
    rw [List.map_cons, List.splitOnP_cons_eq_if_modifyHead, List.splitOnP_cons_eq_if_modifyHead, ih]
    split_ifs
    · rfl
    · cases as.splitOnP fun a => p (f a) <;> rfl

namespace Reduces

variable {marks : List (Char × Region)} {out : List Char}

/-- **Every line end** is kept, and none is added. -/
theorem count_lineEnds (h : Reduces marks out) :
    out.count '\n' = (marks.map Prod.fst).count '\n' := by
  induction h with
  | nil => rfl
  | kept _ _ ih => rw [List.map_cons, List.count_cons, List.count_cons, ih]
  | dropped hc _ ih => rw [List.map_cons, List.count_cons_of_ne hc, ih]
  | blanked _ ih => simpa using ih

/-- **Line by line**: what is made of a text is what is made of its lines. -/
theorem lines (h : Reduces marks out) :
    List.Forall₂ Reduces (marks.splitOnP (·.1 == '\n')) (out.splitOn '\n') := by
  induction h with
  | nil => exact .cons .nil .nil
  | @kept c r marks out hr _ ih =>
    rw [List.splitOnP_cons_eq_if_modifyHead, List.splitOn_cons_eq_if_modifyHead]
    split_ifs with hc
    · exact .cons .nil ih
    · exact forall₂_modifyHead _ _ (fun _ _ hab => .kept hr hab) ih
  | @dropped c marks out hc _ ih =>
    rw [List.splitOnP_cons_eq_if_modifyHead, if_neg (by simpa using hc)]
    have hnext := forall₂_modifyHead (List.cons (c, Region.comment)) id
      (fun _ _ hab => .dropped hc hab) ih
    rwa [List.modifyHead_id] at hnext
  | blanked _ ih =>
    rw [List.splitOnP_cons_eq_if_modifyHead, List.splitOn_cons_eq_if_modifyHead,
      if_neg (by decide), if_neg (by decide)]
    exact forall₂_modifyHead _ _ (fun _ _ hab => .blanked hab) ih

/-- **A place of the result** is one of the text. -/
theorem split {before after : List Char} (h : Reduces marks (before ++ after)) :
    ∃ front back, marks = front ++ back ∧ Reduces front before ∧ Reduces back after := by
  generalize hout : before ++ after = out at h
  induction h generalizing before with
  | nil =>
    obtain ⟨rfl, rfl⟩ := List.append_eq_nil_iff.1 hout
    exact ⟨[], [], rfl, .nil, .nil⟩
  | @kept c r marks out hr h ih =>
    rcases List.append_eq_cons_iff.1 hout with ⟨rfl, rfl⟩ | ⟨before, rfl, hrest⟩
    · exact ⟨[], _, rfl, .nil, .kept hr h⟩
    · obtain ⟨front, back, rfl, hfront, hback⟩ := ih hrest.symm
      exact ⟨(c, r) :: front, back, rfl, .kept hr hfront, hback⟩
  | @dropped c marks out hc h ih =>
    obtain ⟨front, back, rfl, hfront, hback⟩ := ih hout
    exact ⟨(c, .comment) :: front, back, rfl, .dropped hc hfront, hback⟩
  | @blanked marks out h ih =>
    rcases List.append_eq_cons_iff.1 hout with ⟨rfl, rfl⟩ | ⟨before, rfl, hrest⟩
    · exact ⟨[], _, rfl, .nil, .blanked h⟩
    · obtain ⟨front, back, rfl, hfront, hback⟩ := ih hrest.symm
      exact ⟨(',', .code) :: front, back, rfl, .blanked hfront, hback⟩

end Reduces

/-! ## Faults of a configuration file -/

open Json (Placed Step Member)

theorem placed_options : DeclaredOptions.shape.Placed := by
  intro m hm
  simp only [DeclaredOptions.shape, List.mem_cons, List.not_mem_nil, or_false] at hm
  rcases hm with rfl | rfl | rfl | rfl | rfl | rfl
  · exact Member.placed_text _ _
  · exact Member.placed_texts _ _
  · exact Member.placed_text _ _
  · exact Member.placed_flag _ _
  · exact Member.placed_text _ _
  · exact Member.placed_flag _ _

theorem placed_readReferences (levels : Nat) (c : Json.Cursor) :
    Placed c Step.next (Declared.readReferences levels c) := by
  have hvalue := Json.placed_readValue levels c
  unfold Declared.readReferences
  split
  · next hf => exact hvalue.error hf
  · next hok => exact hvalue.ok hok

theorem placed_declared : Declared.shape.Placed := by
  intro m hm
  simp only [Declared.shape, List.mem_cons, List.not_mem_nil, or_false] at hm
  rcases hm with rfl | rfl
  · exact fun levels => Json.placed_readOptional _ (placed_readReferences levels)
  · exact fun levels => Json.placed_readOptional _
      (Json.placed_fitting (Json.placed_readRecord placed_options levels))

/-- A fault is noticed at a place of the JSON text that is made of the file. -/
theorem isAt_of_ofText {file : String} {f : Json.Fault} (h : Declared.ofText file = .error f) :
    ∃ before after, toJson (Declared.withoutMark file.toList) = before ++ after ∧
      f.IsAt before after := by
  unfold Declared.ofText at h
  dsimp only at h
  split at h
  · cases h
  · exact (Json.notices_parseRecord placed_declared h).isAt

/-- The mark that may stand before a text ends no line. -/
theorem exists_mark (text : List Char) :
    ∃ mark, text = mark ++ Declared.withoutMark text ∧ '\n' ∉ mark := by
  unfold Declared.withoutMark
  split
  · next cs => exact ⟨['\uFEFF'], rfl, by decide⟩
  · exact ⟨[], rfl, by simp⟩

/-! ## The main result -/

/-- **The lines of a text with comments** stay what they are when it is made JSON. The pass over it
does not fail. There are as many line ends as before, and each line is what is made of that line of
the text. A fault of a configuration file is at a place that comes of a place of the file, on the
line that it reports. -/
theorem toJson_keeps_lines (text : List Char) :
    scan? .code [] none text = some (toJson text) ∧
    (toJson text).count '\n' = text.count '\n' ∧
    (∀ (k : Nat) (line : List Char), (text.splitOn '\n')[k]? = some line →
      ∃ marks out, ((marked .code text).splitOnP (·.1 == '\n'))[k]? = some marks ∧
        marks.map Prod.fst = line ∧ ((toJson text).splitOn '\n')[k]? = some out ∧
        Reduces marks out) ∧
    ∀ (file : String) (f : Json.Fault), Declared.withoutMark file.toList = text →
      Declared.ofText file = .error f →
      ∃ mark front back before after,
        file.toList = mark ++ (front ++ back).map Prod.fst ∧ marked .code text = front ++ back ∧
        toJson text = before ++ after ∧ Reduces front before ∧ Reduces back after ∧
        f.IsAt before after ∧ f.line = (mark ++ front.map Prod.fst).count '\n' + 1 := by
  have hreduces := reduces_toJson text
  have hfst := map_fst_marked .code text
  refine ⟨scan?_eq text, ?_, fun k line hline => ?_, fun file f hfile herror => ?_⟩
  · rw [hreduces.count_lineEnds, hfst]
  · have hmap : text.splitOn '\n' =
        ((marked .code text).splitOnP (·.1 == '\n')).map (List.map Prod.fst) := by
      rw [List.splitOn_eq_splitOnP, ← hfst, splitOnP_map, hfst]
    rw [hmap, List.getElem?_map, Option.map_eq_some_iff] at hline
    obtain ⟨marks, hmarks, hfst⟩ := hline
    obtain ⟨out, hout, hr⟩ := forall₂_getElem? hreduces.lines hmarks
    exact ⟨marks, out, hmarks, hfst, hout, hr⟩
  · obtain ⟨before, after, hjson, hat⟩ := isAt_of_ofText herror
    rw [hfile] at hjson
    obtain ⟨front, back, hmarked, hfront, hback⟩ := (hjson ▸ hreduces).split
    obtain ⟨mark, hmark, hend⟩ := exists_mark file.toList
    refine ⟨mark, front, back, before, after, ?_, hmarked, hjson, hfront, hback, hat, ?_⟩
    · rw [← hmarked, hfst, ← hfile]
      exact hmark
    · rw [hat.line, hfront.count_lineEnds, List.count_append, List.count_eq_zero_of_not_mem hend,
        Nat.zero_add]

/-- The end of a list, behind a comma and a comment of two lines. -/
def strayEnd : List Char := ['/', '*', 'é', '\n', '*', '/', ',', ']']

/-- The comma is blanked where the comment before it was left out, and that no value begins here is
reported on the second line. -/
theorem toJson_keeps_lines_strayEnd :
    scan? .code [] none strayEnd = some ['\n', ' ', ']'] ∧
    (∃ marks, marks.map Prod.fst = ['*', '/', ',', ']'] ∧ Reduces marks [' ', ']']) ∧
    ∃ f mark, ∃ front back : List (Char × Region),
      Declared.ofText (String.ofList strayEnd) = .error f ∧ f.line = 2 ∧
      strayEnd = mark ++ (front ++ back).map Prod.fst ∧
      f.line = (mark ++ front.map Prod.fst).count '\n' + 1 := by
  obtain ⟨hscan, -, hlines, hfault⟩ := toJson_keeps_lines strayEnd
  refine ⟨hscan, ?_, ?_⟩
  · obtain ⟨marks, out, -, hfst, hout, hr⟩ := hlines 1 ['*', '/', ',', ']'] (by decide)
    have heq : ((toJson strayEnd).splitOn '\n')[1]? = some [' ', ']'] := by decide
    obtain rfl := Option.some.inj (heq.symm.trans hout)
    exact ⟨marks, hfst, hr⟩
  · have herror : Declared.ofText (String.ofList strayEnd) = .error ⟨.expectedValue, 2, 2⟩ := by
      decide +kernel
    obtain ⟨mark, front, back, -, -, heq, -, -, -, -, -, hline⟩ :=
      hfault (String.ofList strayEnd) _ (by decide +kernel) herror
    rw [String.toList_ofList] at heq
    exact ⟨_, mark, front, back, herror, rfl, heq, hline⟩

end BuildLayout.Jsonc
