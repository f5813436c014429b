import BuildLayout.Proofs.Config.Comments
import BuildLayout.Text.Utf8

/-!
# Taking out comments and commas in one pass

The two passes of `Jsonc.toJson` can be one: `scan?` writes what it keeps to the end of a growing
text, remembers at which byte of it the last comma was written, and puts a space there when the next
character that is no blank closes a list or an object. The change is made at a byte index, which has
to be between two characters, so `scan?` can fail. It never does, and gives what the two passes give
(`scan?_eq`): a remembered index is the number of bytes before a comma behind which only blanks
follow (`replaceBytes?_comma`, `Continues`).
-/

namespace BuildLayout.Jsonc

open Text (byteLength)

/-! ## Changing a text at a byte index -/

/-- The text before a byte index and the text from there on; there is none unless the index is
between two characters or at an end. -/
def splitAtByte? : Nat → List Char → Option (List Char × List Char)
  | 0, cs => some ([], cs)
  | _ + 1, [] => none
  | n + 1, c :: cs =>
    if n + 1 < c.utf8Size then none
    else (splitAtByte? (n + 1 - c.utf8Size) cs).map fun parts => (c :: parts.1, parts.2)

/-- The text with other characters for its bytes from `i` up to `j`. -/
def replaceBytes? (text : List Char) (i j : Nat) (new : List Char) : Option (List Char) :=
  if j < i then none
  else
    match splitAtByte? i text, splitAtByte? j text with
    | some (front, _), some (_, back) => some (front ++ new ++ back)
    | _, _ => none

theorem splitAtByte?_append (front back : List Char) :
    splitAtByte? (byteLength front) (front ++ back) = some (front, back) := by
  induction front with
  | nil => cases back <;> rfl
  | cons c front ih =>
    have hpos := c.utf8Size_pos
    have hlen : byteLength (c :: front) = (c.utf8Size - 1 + byteLength front) + 1 := by
      rw [byteLength]
      omega
    have hrest : c.utf8Size - 1 + byteLength front + 1 - c.utf8Size = byteLength front := by omega
    rw [hlen, List.cons_append, splitAtByte?, if_neg (by omega), hrest, ih]
    rfl

/-- **A comma at a known byte** can be replaced, whatever characters stand before and behind it. -/
theorem replaceBytes?_comma (front gap : List Char) :
    replaceBytes? (front ++ ',' :: gap) (byteLength front) (byteLength front + 1) [' '] =
      some (front ++ ' ' :: gap) := by
  have hsecond : byteLength front + 1 = byteLength (front ++ [',']) := by
    rw [Text.byteLength_append]
    rfl
  have hassoc : front ++ ',' :: gap = (front ++ [',']) ++ gap := by simp
  unfold replaceBytes?
  rw [if_neg (by omega), splitAtByte?_append, hsecond, hassoc, splitAtByte?_append]
  simp

/-! ## One pass -/

/-- The text with a space for the comma at a byte, if one is remembered. -/
def blankComma? (out : List Char) : Option Nat → Option (List Char)
  | none => some out
  | some i => replaceBytes? out i (i + 1) [' ']

/-- Scans a text; `out` is what was kept before, and `comma?` the byte of a comma in it that only
blanks and comments were read after. -/
def scan? : Mode → List Char → Option Nat → List Char → Option (List Char)
  | _, out, _, [] => some out
  | .code, out, comma?, '/' :: '/' :: cs => scan? .line out comma? cs
  | .code, out, comma?, '/' :: '*' :: cs => scan? (.block false) out comma? cs
  | .code, out, comma?, c :: cs =>
    if c = ',' then scan? .code (out ++ [c]) (some (byteLength out)) cs
    else if c = '\x7d' ∨ c = ']' then
      match blankComma? out comma? with
      | none => none
      | some out => scan? .code (out ++ [c]) none cs
    else if Text.isBlank c then scan? .code (out ++ [c]) comma? cs
    else scan? (if c = '"' then .string else .code) (out ++ [c]) none cs
  | .string, out, comma?, c :: cs =>
    scan? (if c = '\\' then .escape else if c = '"' then .code else .string) (out ++ [c]) comma? cs
  | .escape, out, comma?, c :: cs => scan? .string (out ++ [c]) comma? cs
  | .line, out, comma?, c :: cs =>
    if c = '\n' then scan? .code (out ++ [c]) comma? cs else scan? .line out comma? cs
  | .block star, out, comma?, c :: cs =>
    if c = '\n' then scan? (.block false) (out ++ [c]) comma? cs
    else if star ∧ c = '/' then scan? .code out comma? cs
    else scan? (.block (c = '*')) out comma? cs

theorem scan?_nil (mode : Mode) (out : List Char) (comma? : Option Nat) :
    scan? mode out comma? [] = some out := by
  cases mode <;> rw [scan?]

/-- One character outside strings and comments. -/
theorem scan?_code {c : Char} {cs : List Char} (h : startsComment (c :: cs) = false)
    (out : List Char) (comma? : Option Nat) :
    scan? .code out comma? (c :: cs) =
      if c = ',' then scan? .code (out ++ [c]) (some (byteLength out)) cs
      else if c = '\x7d' ∨ c = ']' then
        match blankComma? out comma? with
        | none => none
        | some out => scan? .code (out ++ [c]) none cs
      else if Text.isBlank c then scan? .code (out ++ [c]) comma? cs
      else scan? (if c = '"' then .string else .code) (out ++ [c]) none cs := by
  rw [scan?]
  · rintro rest rfl rfl
    cases h
  · rintro rest rfl rfl
    cases h

/-! ## The same as two passes -/

/-- Where the second pass stands when the first one is in a comment. -/
def Mode.outside : Mode → Mode
  | .code => .code
  | .string => .string
  | .escape => .escape
  | .line => .code
  | .block _ => .code

/-- What is written for a comma before a text. -/
def commaBefore (cs : List Char) : Char := if closesNext cs then ' ' else ','

/-- What one pass makes of the rest of a text is what two passes make of it, whether a comma is
remembered or not. None is while a string is read. -/
structure Continues (mode : Mode) (cs : List Char) : Prop where
  plain : ∀ out, scan? mode out none cs =
    some (out ++ blankCommas mode.outside (stripComments mode cs))
  held : mode.outside = .code → ∀ front gap, (∀ c ∈ gap, Text.isBlank c) →
    scan? mode (front ++ ',' :: gap) (some (byteLength front)) cs =
      some (front ++ commaBefore (stripComments mode cs) ::
        (gap ++ blankCommas .code (stripComments mode cs)))

theorem commaBefore_blank {c : Char} (h : Text.isBlank c) (cs : List Char) :
    commaBefore (c :: cs) = commaBefore cs := by
  unfold commaBefore closesNext
  rw [List.dropWhile_cons_of_pos h]

theorem commaBefore_closing {c : Char} (h : c = '\x7d' ∨ c = ']') (cs : List Char) :
    commaBefore (c :: cs) = ' ' := by
  have hblank : Text.isBlank c = false := by rcases h with rfl | rfl <;> decide
  unfold commaBefore
  rw [closesNext_cons hblank, if_pos (by rcases h with rfl | rfl <;> decide)]

theorem commaBefore_other {c : Char} (hb : Text.isBlank c = false) (hc : ¬ (c = '\x7d' ∨ c = ']'))
    (cs : List Char) : commaBefore (c :: cs) = ',' := by
  rw [not_or] at hc
  unfold commaBefore
  rw [closesNext_cons hb, if_neg (by simp [hc])]

theorem blankCommas_of_comma (cs : List Char) :
    blankCommas .code (',' :: cs) = commaBefore cs :: blankCommas .code cs := by
  rw [blankCommas_cons, if_pos rfl, if_neg (by decide : ',' ≠ '"')]
  rfl

/-- One more blank behind the blanks of a comma. -/
theorem isBlank_concat {c : Char} {gap : List Char} (hgap : ∀ b ∈ gap, Text.isBlank b)
    (hc : Text.isBlank c) : ∀ b ∈ gap ++ [c], Text.isBlank b := by
  simpa [or_imp, forall_and] using ⟨hgap, hc⟩

namespace Continues

theorem nil (mode : Mode) : Continues mode [] where
  plain out := by
    rw [scan?_nil, stripComments_nil, pass_blankCommas.nil, List.append_nil]
  held hmode front gap _ := by
    rw [scan?_nil, stripComments_nil, pass_blankCommas.nil, List.append_nil]
    rfl

/-! Outside strings and comments, by what the character is. -/

theorem comma {cs : List Char} (ih : Continues .code cs) : Continues .code (',' :: cs) := by
  have hs := startsComment_of_ne (by decide : ',' ≠ '/') cs
  have hstrip : stripComments .code (',' :: cs) = ',' :: stripComments .code cs := by
    rw [stripComments_code hs, if_neg (by decide)]
  have hnext := fun out => ih.held rfl out [] (by simp)
  constructor
  · intro out
    rw [scan?_code hs, if_pos rfl, hnext, hstrip, Mode.outside, blankCommas_of_comma]
    rfl
  · -- the comma before is followed by this one, and is kept
    intro _ front gap _
    rw [scan?_code hs, if_pos rfl, hnext, hstrip, blankCommas_of_comma,
      commaBefore_other (by decide) (by decide)]
    simp

theorem closing {c : Char} {cs : List Char} (hc : c = '\x7d' ∨ c = ']')
    (ih : Continues .code cs) : Continues .code (c :: cs) := by
  have hne : c ≠ '/' ∧ c ≠ '"' ∧ c ≠ ',' := by rcases hc with rfl | rfl <;> decide
  have hscan := scan?_code (startsComment_of_ne hne.1 cs)
  constructor
  · intro out
    rw [hscan, if_neg hne.2.2, if_pos hc, pass_stripComments.plain hne, Mode.outside,
      pass_blankCommas.plain hne]
    simp [blankComma?, ih.plain, Mode.outside]
  · -- the remembered comma is replaced
    intro _ front gap _
    rw [hscan, if_neg hne.2.2, if_pos hc, pass_stripComments.plain hne,
      pass_blankCommas.plain hne, commaBefore_closing hc]
    simp [blankComma?, replaceBytes?_comma, ih.plain, Mode.outside]

theorem blank {c : Char} {cs : List Char} (hc : Text.isBlank c) (ih : Continues .code cs) :
    Continues .code (c :: cs) := by
  have hne : c ≠ '/' ∧ c ≠ '"' ∧ c ≠ ',' := by
    refine ⟨?_, ?_, ?_⟩ <;> rintro rfl <;> exact absurd hc (by decide)
  have hclose : ¬ (c = '\x7d' ∨ c = ']') := by
    rintro (rfl | rfl) <;> exact absurd hc (by decide)
  have hscan : ∀ out comma?, scan? .code out comma? (c :: cs) =
      scan? .code (out ++ [c]) comma? cs := by
    intro out comma?
    rw [scan?_code (startsComment_of_ne hne.1 cs), if_neg hne.2.2, if_neg hclose, if_pos hc]
  constructor
  · intro out
    rw [hscan, ih.plain, pass_stripComments.plain hne, Mode.outside, pass_blankCommas.plain hne]
    simp
  · -- one more blank stands behind the remembered comma
    intro _ front gap hgap
    rw [hscan, List.append_assoc, List.cons_append, ih.held rfl front _ (isBlank_concat hgap hc),
      pass_stripComments.plain hne, pass_blankCommas.plain hne, commaBefore_blank hc]
    simp

/-- Any other character; a comma before it is forgotten. -/
theorem other {c : Char} {cs : List Char} (hs : startsComment (c :: cs) = false) (hcomma : c ≠ ',')
    (hclose : ¬ (c = '\x7d' ∨ c = ']')) (hb : Text.isBlank c = false)
    (ih : Continues (if c = '"' then .string else .code) cs) : Continues .code (c :: cs) := by
  have hmode : (if c = '"' then Mode.string else .code).outside =
      if c = '"' then .string else .code := by split <;> rfl
  have hscan : ∀ out comma?, scan? .code out comma? (c :: cs) =
      scan? (if c = '"' then .string else .code) (out ++ [c]) none cs := by
    intro out comma?
    rw [scan?_code hs, if_neg hcomma, if_neg hclose, if_neg (by simp [hb])]
  constructor
  · intro out
    rw [hscan, ih.plain, hmode, stripComments_code hs, Mode.outside, blankCommas_cons,
      if_neg hcomma]
    simp
  · intro _ front gap _
    rw [hscan, ih.plain, hmode, stripComments_code hs, blankCommas_cons, if_neg hcomma,
      commaBefore_other hb hclose]
    simp

theorem code {c : Char} {cs : List Char} (hs : startsComment (c :: cs) = false)
    (ih : Continues (if c = '"' then .string else .code) cs) : Continues .code (c :: cs) := by
  by_cases hcomma : c = ','
  · subst hcomma
    exact comma ih
  by_cases hclose : c = '\x7d' ∨ c = ']'
  · refine closing hclose ?_
    rwa [if_neg (by rcases hclose with rfl | rfl <;> decide)] at ih
  by_cases hb : Text.isBlank c
  · refine blank hb ?_
    rwa [if_neg (by rintro rfl; exact absurd hb (by decide))] at ih
  · exact other hs hcomma hclose (by simpa using hb) ih

/-! Inside strings and comments, where neither pass looks for a comma. -/

/-- A character of a string is kept by both passes. -/
theorem string {mode next : Mode} {c : Char} {cs : List Char} (ih : Continues next cs)
    (hmode : mode.outside ≠ .code)
    (hscan : ∀ out, scan? mode out none (c :: cs) = scan? next (out ++ [c]) none cs)
    (hstrip : stripComments mode (c :: cs) = c :: stripComments next cs)
    (hblank : ∀ rest, blankCommas mode.outside (c :: rest) = c :: blankCommas next.outside rest) :
    Continues mode (c :: cs) where
  plain out := by
    rw [hscan, ih.plain, hstrip, hblank]
    simp
  held h := absurd h hmode

/-- What is left out of a comment. -/
theorem dropped {mode next : Mode} {cs rest : List Char} (ih : Continues next rest)
    (hmode : mode.outside = next.outside)
    (hscan : ∀ out comma?, scan? mode out comma? cs = scan? next out comma? rest)
    (hstrip : stripComments mode cs = stripComments next rest) : Continues mode cs where
  plain out := by rw [hscan, ih.plain, hstrip, hmode]
  held h front gap hgap := by rw [hscan, ih.held (hmode ▸ h) front gap hgap, hstrip]

/-- A line end in a comment is kept, as one more blank behind a remembered comma. -/
theorem lineEnd {mode next : Mode} {cs : List Char} (ih : Continues next cs)
    (hmode : mode.outside = .code) (hnext : next.outside = .code)
    (hscan : ∀ out comma?, scan? mode out comma? ('\n' :: cs) =
      scan? next (out ++ ['\n']) comma? cs)
    (hstrip : stripComments mode ('\n' :: cs) = '\n' :: stripComments next cs) :
    Continues mode ('\n' :: cs) where
  plain out := by
    rw [hscan, ih.plain, hstrip, hmode, hnext, pass_blankCommas.plain (by decide)]
    simp
  held _ front gap hgap := by
    rw [hscan, List.append_assoc, List.cons_append,
      ih.held hnext front _ (isBlank_concat hgap (by decide)), hstrip,
      pass_blankCommas.plain (by decide), commaBefore_blank (by decide)]
    simp

end Continues

/-- The character begins no comment when neither of the two ways to begin one is taken. -/
theorem startsComment_eq_false {c : Char} {cs : List Char}
    (hline : ∀ rest, c = '/' → cs = '/' :: rest → False)
    (hblock : ∀ rest, c = '/' → cs = '*' :: rest → False) : startsComment (c :: cs) = false := by
  unfold startsComment
  split
  · next heq =>
    obtain ⟨rfl, rfl⟩ := List.cons.inj heq
    exact absurd rfl (hline _ rfl)
  · next heq =>
    obtain ⟨rfl, rfl⟩ := List.cons.inj heq
    exact absurd rfl (hblock _ rfl)
  · rfl

/-- **One pass is two passes**, wherever the scan stands. -/
theorem continues (mode : Mode) (cs : List Char) : Continues mode cs := by
  induction mode, cs using stripComments.induct with
  | case1 mode => exact .nil mode
  | case2 cs ih => exact ih.dropped rfl (fun _ _ => by rw [scan?]) (by rw [stripComments])
  | case3 cs ih => exact ih.dropped rfl (fun _ _ => by rw [scan?]) (by rw [stripComments])
  | case4 c cs hline hblock ih => exact .code (startsComment_eq_false hline hblock) ih
  | case5 c cs ih =>
    refine ih.string (by decide) (fun _ => by rw [scan?]) (by rw [stripComments]) fun rest => ?_
    rw [Mode.outside, blankCommas]
    split_ifs <;> rfl
  | case6 c cs ih =>
    exact ih.string (by decide) (fun _ => by rw [scan?]) (by rw [stripComments])
      fun _ => by rw [Mode.outside, Mode.outside, blankCommas]
  | case7 cs ih =>
    exact ih.lineEnd rfl rfl (fun _ _ => by rw [scan?, if_pos rfl])
      (by rw [stripComments, if_pos rfl])
  | case8 c cs hc ih =>
    exact ih.dropped rfl (fun _ _ => by rw [scan?, if_neg hc]) (by rw [stripComments, if_neg hc])
  | case9 star cs ih =>
    exact ih.lineEnd rfl rfl (fun _ _ => by rw [scan?, if_pos rfl])
      (by rw [stripComments, if_pos rfl])
  | case10 star c cs hc hend ih =>
    exact ih.dropped rfl (fun _ _ => by rw [scan?, if_neg hc, if_pos hend])
      (by rw [stripComments, if_neg hc, if_pos hend])
  | case11 star c cs hc hend ih =>
    exact ih.dropped rfl (fun _ _ => by rw [scan?, if_neg hc, if_neg hend])
      (by rw [stripComments, if_neg hc, if_neg hend])

/-- **The pass over a whole text** never fails, and makes of it what the two passes make of it. -/
theorem scan?_eq (text : List Char) : scan? .code [] none text = some (toJson text) := by
  have heq := (continues .code text).plain []
  rwa [List.nil_append] at heq

end BuildLayout.Jsonc
