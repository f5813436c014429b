import BuildLayout.Json.Record
import BuildLayout.Text.Utf8
import Mathlib.Data.List.DropRight

/-!
# Where a reader stands, and where its faults are

A reader moves over a text one character at a time (`Cursor.Reaches`), so a cursor that it comes to
tells the line and the byte column of what is left (`Cursor.Reaches.place`). Every reader is
`Placed`: what it reads ends at a cursor that it came to, and a fault is noticed at one, or inside
the character that stands there (`Cursor.Notices`). Here are the readers of scalars and those that go
through lists and objects.
-/

namespace BuildLayout.Json

/-! ## Places of a text -/

/-- The column behind a text: the number of bytes on its last line. -/
def columnAfter (before : List Char) : Nat :=
  Text.byteLength (before.rtakeWhile (· != '\n'))

/-- The fault is between two parts of a text, or inside the first character of the second. -/
structure Fault.IsAt (f : Fault) (before after : List Char) : Prop where
  line : f.line = before.count '\n' + 1
  column : columnAfter before ≤ f.column
  inside : columnAfter before < f.column →
    ∃ ch ∈ after.head?, f.column < columnAfter before + ch.utf8Size

namespace Cursor

/-- The second cursor comes after the first one, some characters later. -/
inductive Reaches (c : Cursor) : Cursor → Prop
  | here : Reaches c c
  | past {d : Cursor} {ch : Char} {rest : List Char} :
      Reaches c d → d.rest = ch :: rest → Reaches c (d.past ch rest)

/-- The fault is at the cursor, or inside the character that stands there. -/
def Marks (d : Cursor) (f : Fault) : Prop :=
  f.line = d.line ∧ d.column ≤ f.column ∧
    (d.column < f.column → ∃ ch ∈ d.peek?, f.column < d.column + ch.utf8Size)

/-- The fault is at a cursor that is come to. -/
def Notices (c : Cursor) (f : Fault) : Prop := ∃ d, c.Reaches d ∧ d.Marks f

theorem Reaches.trans {c d e : Cursor} (h : c.Reaches d) (h' : d.Reaches e) : c.Reaches e := by
  induction h' with
  | here => exact h
  | past _ hrest ih => exact .past ih hrest

theorem Notices.of_reaches {c d : Cursor} {f : Fault} (h : c.Reaches d) (hd : d.Notices f) :
    c.Notices f := by
  obtain ⟨e, he, hf⟩ := hd
  exact ⟨e, h.trans he, hf⟩

theorem notices_fault (c : Cursor) (problem : Problem) : c.Notices (c.fault problem) :=
  ⟨c, .here, rfl, Nat.le_refl _, fun h => absurd h (Nat.lt_irrefl _)⟩

theorem reaches_past {c : Cursor} {ch : Char} {rest : List Char} (h : c.rest = ch :: rest) :
    c.Reaches (c.past ch rest) := .past .here h

theorem rest_past (c : Cursor) (ch : Char) (rest : List Char) : (c.past ch rest).rest = rest := by
  unfold past
  split <;> rfl

theorem faultAfter_past {c : Cursor} {ch : Char} {rest : List Char} {n : Nat}
    (h : c.rest = ch :: rest) (hn : ¬ n < ch.utf8Size) (problem : Problem) :
    c.faultAfter n problem = (c.past ch rest).faultAfter (n - ch.utf8Size) problem := by
  unfold faultAfter past
  rw [h, placeAfter, if_neg hn]
  by_cases hch : ch = '\n'
  · rw [if_pos hch, if_pos hch]
  · rw [if_neg hch, if_neg hch]

theorem notices_faultAfter (c : Cursor) (n : Nat) (problem : Problem) :
    c.Notices (c.faultAfter n problem) := by
  induction h : c.rest generalizing c n with
  | nil =>
    have heq : c.faultAfter n problem = c.fault problem := by
      unfold faultAfter
      rw [h, placeAfter]
      rfl
    exact heq ▸ c.notices_fault problem
  | cons ch rest ih =>
    by_cases hn : n < ch.utf8Size
    · have heq : c.faultAfter n problem = ⟨problem, c.line, c.column + n⟩ := by
        unfold faultAfter
        rw [h, placeAfter, if_pos hn]
      have hpeek : c.peek? = some ch := by
        rw [peek?, h]
        rfl
      exact heq ▸ ⟨c, .here, rfl, Nat.le_add_right _ _, fun _ =>
        ⟨ch, hpeek, Nat.add_lt_add_left hn _⟩⟩
    · rw [faultAfter_past h hn]
      exact .of_reaches (reaches_past h) (ih _ _ (rest_past c ch rest))

theorem notices_faultPast (c : Cursor) (problem : Problem) : c.Notices (c.faultPast problem) :=
  c.notices_faultAfter 1 problem

theorem reaches_next {c : Cursor} {s : Step c Char} (h : c.next? = some s) :
    c.Reaches s.next := by
  unfold next? at h
  split at h
  · cases h
  · next hrest =>
    cases h
    exact reaches_past hrest

theorem utf8Size_of_isBlank {ch : Char} (h : isBlank ch) : ch.utf8Size = 1 := by
  simp only [isBlank, Bool.or_eq_true, beq_iff_eq] at h
  rcases h with ((rfl | rfl) | rfl) | rfl <;> rfl

theorem skipBlank_past {c : Cursor} {ch : Char} {rest : List Char} (h : c.rest = ch :: rest)
    (hb : isBlank ch) : c.skipBlank = (c.past ch rest).skipBlank := by
  unfold skipBlank past
  rw [h, skipBlankFrom, if_pos hb, utf8Size_of_isBlank hb]
  split <;> rfl

theorem reaches_skipBlank (c : Cursor) : c.Reaches c.skipBlank := by
  induction h : c.rest generalizing c with
  | nil =>
    have heq : c.skipBlank = c := by rw [skipBlank, h, skipBlankFrom, ← h]
    exact heq.symm ▸ .here
  | cons ch rest ih =>
    by_cases hb : isBlank ch
    · rw [skipBlank_past h hb]
      exact (reaches_past h).trans (ih _ (rest_past c ch rest))
    · have heq : c.skipBlank = c := by rw [skipBlank, h, skipBlankFrom, if_neg hb, ← h]
      exact heq.symm ▸ .here

/-- A character of one byte that does not end the line. -/
def IsPlain (ch : Char) : Prop := ch ≠ '\n' ∧ ch.utf8Size = 1

theorem isPlain_of_le {ch : Char} (h : 0x20 ≤ ch.toNat ∧ ch.toNat ≤ 0x7F) : IsPlain ch := by
  refine ⟨?_, ?_⟩
  · rintro rfl
    exact absurd h.1 (by decide)
  · unfold Char.utf8Size
    rw [if_pos]
    rw [UInt32.le_iff_toNat_le]
    exact h.2

/-- **Plain characters** are passed on the same line. -/
theorem reaches_ahead {c : Cursor} {passed rest : List Char} (hc : c.rest = passed ++ rest)
    (h : ∀ ch ∈ passed, IsPlain ch) : c.Reaches (c.ahead passed.length) := by
  induction passed generalizing c with
  | nil => exact .here
  | cons ch passed ih =>
    have hplain := h ch (.head _)
    have heq : c.ahead (ch :: passed).length =
        (c.past ch (passed ++ rest)).ahead passed.length := by
      unfold ahead past
      rw [if_neg hplain.1, hplain.2, hc]
      simp [Nat.add_assoc, Nat.add_comm 1]
    rw [heq]
    exact (reaches_past hc).trans (ih (rest_past _ _ _) fun b hb => h b (.tail _ hb))

theorem reaches_ahead_one {c : Cursor} {ch : Char} (hc : c.peek? = some ch) (h : IsPlain ch) :
    c.Reaches (c.ahead 1) := by
  obtain ⟨rest, hrest⟩ : ∃ rest, c.rest = [ch] ++ rest := by
    unfold peek? at hc
    obtain ⟨rest, hrest⟩ := List.head?_eq_some_iff.1 hc
    exact ⟨rest, hrest⟩
  exact reaches_ahead hrest (by simpa using h)

/-- **A cursor tells its place**. -/
theorem Reaches.place {text : List Char} {d : Cursor} (h : (start text).Reaches d) :
    ∃ before, text = before ++ d.rest ∧ d.line = before.count '\n' + 1 ∧
      d.column = columnAfter before := by
  induction h with
  | here => exact ⟨[], rfl, rfl, rfl⟩
  | @past d ch rest _ hrest ih =>
    obtain ⟨before, rfl, hline, hcolumn⟩ := ih
    refine ⟨before ++ [ch], by rw [rest_past, hrest, List.append_assoc]; rfl, ?_, ?_⟩
    · unfold Cursor.past
      split
      · next hch => simp [hch, hline]
      · next hch => simp [hch, hline]
    · unfold columnAfter at hcolumn ⊢
      unfold Cursor.past
      rw [List.rtakeWhile_concat]
      split
      · next hch => simp [hch, Text.byteLength]
      · next hch => simp [hch, hcolumn, Text.byteLength_append, Text.byteLength]

/-- A fault that is noticed is at a place of the text. -/
theorem Notices.isAt {text : List Char} {f : Fault} (h : (start text).Notices f) :
    ∃ before after, text = before ++ after ∧ f.IsAt before after := by
  obtain ⟨d, hd, hline, hcolumn, hinside⟩ := h
  obtain ⟨before, heq, hline', hcolumn'⟩ := hd.place
  exact ⟨before, d.rest, heq, hline.trans hline', hcolumn' ▸ hcolumn, hcolumn' ▸ hinside⟩

end Cursor

/-! ## Readers -/

/-- What a reader gives that starts at a cursor: a fault that is noticed, or something with a cursor
that was come to. -/
def Placed {β : Type} (c : Cursor) (next : β → Cursor) : Except Fault β → Prop
  | .error f => c.Notices f
  | .ok b => c.Reaches (next b)

namespace Placed

variable {α β : Type} {c d : Cursor} {next : β → Cursor} {r : Except Fault β}

theorem error {f : Fault} (h : Placed c next r) (hr : r = .error f) : c.Notices f := by
  rw [hr] at h
  exact h

theorem ok {b : β} (h : Placed c next r) (hr : r = .ok b) : c.Reaches (next b) := by
  rw [hr] at h
  exact h

/-- A reader that goes on where another one stopped. -/
theorem of_reaches (h : c.Reaches d) (hr : Placed d next r) : Placed c next r := by
  cases r with
  | error f => exact .of_reaches h hr
  | ok b => exact h.trans hr

end Placed

open Cursor

/-! ### Words and strings -/

theorem placed_expectWord (word : List Char) (c : Cursor) : Placed c id (expectWord c word) := by
  induction word generalizing c with
  | nil => exact .here
  | cons w word ih =>
    rw [expectWord]
    split
    · exact notices_fault _ _
    · next s hs =>
      split
      · exact .of_reaches (reaches_next hs) (ih s.next)
      · exact notices_faultPast _ _

theorem placed_readWord {α : Type} (c : Cursor) (word : List Char) (value : α) :
    Placed c Step.next (readWord c word value) := by
  unfold readWord
  split
  · exact notices_fault _ _
  · next s hs =>
    have hword := (placed_expectWord (word.drop 1) s.next).of_reaches (reaches_next hs)
    split
    · next hf => exact hword.error hf
    · next hd => exact hword.ok hd

theorem isPlain_of_hexValue? {ch : Char} {v : Nat} (h : hexValue? ch = some v) : IsPlain ch := by
  apply isPlain_of_le
  unfold hexValue? at h
  simp only [Char.le_def, UInt32.le_iff_toNat_le] at h
  split at h
  · next hr => exact ⟨Nat.le_trans (by decide) hr.1, Nat.le_trans hr.2 (by decide)⟩
  · split at h
    · next hr => exact ⟨Nat.le_trans (by decide) hr.1, Nat.le_trans hr.2 (by decide)⟩
    · split at h
      · next hr => exact ⟨Nat.le_trans (by decide) hr.1, Nat.le_trans hr.2 (by decide)⟩
      · cases h

theorem isPlain_of_fourHex? {c0 c1 c2 c3 : Char} {n : Nat} (h : fourHex? c0 c1 c2 c3 = some n) :
    ∀ ch ∈ [c0, c1, c2, c3], IsPlain ch := by
  simp only [fourHex?, Option.bind_eq_bind, Option.bind_eq_some_iff] at h
  obtain ⟨v0, h0, v1, h1, v2, h2, v3, h3, -⟩ := h
  simp [isPlain_of_hexValue? h0, isPlain_of_hexValue? h1, isPlain_of_hexValue? h2,
    isPlain_of_hexValue? h3]

theorem placed_readFourHex (c : Cursor) : Placed c Step.next (readFourHex c) := by
  have hrefused : Placed c Step.next
      (if c.bytesLeft < 4 then .error (c.faultAfter c.bytesLeft .endInString)
        else .error (c.faultAfter 4 .invalidEscape) : Except Fault (Step c Nat)) := by
    split
    · exact notices_faultAfter _ _ _
    · exact notices_faultAfter _ _ _
  unfold readFourHex
  dsimp only
  split
  · next c0 c1 c2 c3 rest hrest =>
    split
    · next n hn =>
      have hfour : c.rest = [c0, c1, c2, c3] ++ rest := hrest
      have hahead : c.Reaches (c.ahead 4) := reaches_ahead hfour (isPlain_of_fourHex? hn)
      rw [ahead, hrest] at hahead
      exact hahead
    · exact hrefused
  · exact hrefused

theorem placed_readInPair (c : Cursor) (ch : Char) : Placed c Step.next (readInPair c ch) := by
  unfold readInPair
  split
  · exact notices_fault _ _
  · next s hs =>
    split
    · exact reaches_next hs
    · exact notices_faultPast _ _

theorem placed_readUnicode (c : Cursor) : Placed c Step.next (readUnicode c) := by
  have hfirst := placed_readFourHex c
  unfold readUnicode
  split
  · next hf => exact hfirst.error hf
  · next s hs =>
    have hs := hfirst.ok hs
    split
    · exact .of_reaches hs (notices_fault _ _)
    · split
      · have hslash := (placed_readInPair s.next '\\').of_reaches hs
        split
        · next hf => exact hslash.error hf
        · next slash hok =>
          have hu := (placed_readInPair slash.next 'u').of_reaches (hslash.ok hok)
          split
          · next hf => exact hu.error hf
          · next u hok =>
            have hlast := (placed_readFourHex u.next).of_reaches (hu.ok hok)
            split
            · next hf => exact hlast.error hf
            · next t ht =>
              split
              · exact hlast.ok ht
              · exact .of_reaches (hlast.ok ht) (notices_fault _ _)
      · exact hs

theorem placed_readEscape (c : Cursor) : Placed c Step.next (readEscape c) := by
  unfold readEscape
  split
  · exact notices_fault _ _
  · next s hs =>
    have hs := reaches_next hs
    split
    · have hunit := (placed_readUnicode s.next).of_reaches hs
      split
      · next hf => exact hunit.error hf
      · next ht => exact hunit.ok ht
    · split
      · exact hs
      · exact notices_faultPast _ _

theorem placed_readChars {origin : Cursor} (c : Cursor) (h : c.left ≤ origin.left)
    (done : List Char) : Placed c Step.next (readChars c h done) := by
  fun_induction readChars c h done with
  | case1 c h done hnext => exact notices_fault _ _
  | case2 c h done s hnext hs hquote => exact reaches_next hnext
  | case3 c h done s hnext hs hquote hslash f hf =>
    exact (placed_readEscape s.next).of_reaches (reaches_next hnext) |>.error hf
  | case4 c h done s hnext hs hquote hslash e he hlt ih =>
    exact ih.of_reaches ((placed_readEscape s.next).of_reaches (reaches_next hnext) |>.ok he)
  | case5 c h done s hnext hs hquote hslash hcontrol => exact notices_faultPast _ _
  | case6 c h done s hnext hs hquote hslash hcontrol ih => exact ih.of_reaches (reaches_next hnext)

theorem placed_skipEscape (c : Cursor) : Placed c Step.next (skipEscape c) := by
  unfold skipEscape
  split
  · exact notices_fault _ _
  · next s hs =>
    have hs := reaches_next hs
    split
    · have hunit := (placed_readFourHex s.next).of_reaches hs
      split
      · next hf => exact hunit.error hf
      · next ht => exact hunit.ok ht
    · split
      · exact hs
      · exact notices_faultPast _ _

theorem placed_skipChars {origin : Cursor} (c : Cursor) (h : c.left ≤ origin.left) :
    Placed c Step.next (skipChars c h) := by
  fun_induction skipChars c h with
  | case1 c h hnext => exact notices_fault _ _
  | case2 c h s hnext hs hquote => exact reaches_next hnext
  | case3 c h s hnext hs hquote hslash f hf =>
    exact (placed_skipEscape s.next).of_reaches (reaches_next hnext) |>.error hf
  | case4 c h s hnext hs hquote hslash e he hlt ih =>
    exact ih.of_reaches ((placed_skipEscape s.next).of_reaches (reaches_next hnext) |>.ok he)
  | case5 c h s hnext hs hquote hslash hcontrol => exact notices_fault _ _
  | case6 c h s hnext hs hquote hslash hcontrol ih => exact ih.of_reaches (reaches_next hnext)

theorem placed_readString (c : Cursor) : Placed c Step.next (readString c) := by
  unfold readString
  split
  · exact notices_fault _ _
  · next hs => exact (placed_readChars _ _ _).of_reaches (reaches_next hs)

theorem placed_skipString (c : Cursor) : Placed c Step.next (skipString c) := by
  unfold skipString
  split
  · exact notices_fault _ _
  · next hs => exact (placed_skipChars _ _).of_reaches (reaches_next hs)

/-! ### Numbers -/

theorem isPlain_of_isDigit {ch : Char} (h : isDigit ch) : IsPlain ch := by
  apply isPlain_of_le
  simp only [isDigit, Bool.and_eq_true, decide_eq_true_eq, Char.le_def,
    UInt32.le_iff_toNat_le] at h
  exact ⟨Nat.le_trans (by decide) h.1, Nat.le_trans h.2 (by decide)⟩

/-- As many characters as there are digits. -/
theorem reaches_ahead_digits {c : Cursor} {n : Nat} (h : n ≤ (digitsAt c).length) :
    c.Reaches (c.ahead n) := by
  have hrest : c.rest =
      (digitsAt c).take n ++ ((digitsAt c).drop n ++ c.rest.dropWhile isDigit) := by
    rw [← List.append_assoc, List.take_append_drop, digitsAt, List.takeWhile_append_dropWhile]
  have hplain : ∀ ch ∈ (digitsAt c).take n, IsPlain ch := fun ch hch =>
    isPlain_of_isDigit (List.mem_takeWhile_imp (List.mem_of_mem_take hch))
  have hahead := reaches_ahead hrest hplain
  rwa [List.length_take, Nat.min_eq_left h] at hahead

theorem reaches_afterDigits (c : Cursor) : c.Reaches (afterDigits c) :=
  reaches_ahead_digits (Nat.le_refl _)

/-- The letter of an exponent is plain. -/
theorem exists_isPlain_of_exponent {c : Cursor}
    (h : (c.peek? == some 'e' || c.peek? == some 'E') = true) :
    ∃ ch, c.peek? = some ch ∧ IsPlain ch := by
  simp only [Bool.or_eq_true, beq_iff_eq] at h
  rcases h with h | h
  · exact ⟨_, h, isPlain_of_le (by decide)⟩
  · exact ⟨_, h, isPlain_of_le (by decide)⟩

theorem reaches_afterExponentSign {c : Cursor}
    (h : (c.peek? == some 'e' || c.peek? == some 'E') = true) :
    c.Reaches (afterExponentSign c) := by
  obtain ⟨ch, hpeek, hplain⟩ := exists_isPlain_of_exponent h
  have hletter := reaches_ahead_one hpeek hplain
  unfold afterExponentSign
  dsimp only
  split
  · next hsign =>
    simp only [Bool.or_eq_true, beq_iff_eq] at hsign
    rcases hsign with hsign | hsign
    · exact hletter.trans (reaches_ahead_one hsign (isPlain_of_le (by decide)))
    · exact hletter.trans (reaches_ahead_one hsign (isPlain_of_le (by decide)))
  · exact hletter

theorem notices_realAt {c : Cursor} {positive : Bool} {m : Nat} {e : Int} {f : Fault}
    (h : realAt c positive m e = .error f) : c.Notices f := by
  unfold realAt at h
  split at h
  · cases h
    exact notices_fault _ _
  · cases h

theorem length_gather (bound n : Nat) (ds : List Char) :
    (gather bound n ds).2.length ≤ ds.length := by
  induction ds generalizing n with
  | nil => exact Nat.le_refl _
  | cons d ds ih =>
    rw [gather]
    split
    · exact Nat.le_refl _
    · exact Nat.le_succ_of_le (ih _)

theorem placed_readExponentDigits (c : Cursor) (positive negative : Bool) (m : Nat) (e : Int) :
    Placed c Prod.snd (readExponentDigits c positive negative m e) := by
  have hafter := reaches_afterDigits c
  unfold readExponentDigits
  split
  · exact notices_fault _ _
  · split
    · dsimp only
      split
      · split
        · next hf => exact .of_reaches hafter (notices_realAt hf)
        · exact hafter
      · next hbeyond =>
        split
        · exact hafter
        · -- the digit that is one too many was looked at
          refine .of_reaches (reaches_ahead_digits ?_) (notices_fault _ _)
          have hlen := length_gather maxExponent 0 (digitsAt c)
          have hpos := List.length_pos_iff.2 (mt List.isEmpty_iff.2 hbeyond)
          omega
    · exact notices_faultPast _ _

theorem placed_readExponent {c : Cursor} (h : (c.peek? == some 'e' || c.peek? == some 'E') = true)
    (positive : Bool) (m : Nat) (e : Int) : Placed c Prod.snd (readExponent c positive m e) :=
  (placed_readExponentDigits _ _ _ _ _).of_reaches (reaches_afterExponentSign h)

theorem placed_readFraction {c : Cursor} (h : c.peek? = some '.') (positive : Bool) (m : Nat)
    (e : Int) : Placed c Prod.snd (readFraction c positive m e) := by
  have hpoint := reaches_ahead_one h (isPlain_of_le (by decide))
  have hafter := hpoint.trans (reaches_afterDigits _)
  unfold readFraction
  dsimp only
  split
  · split
    · exact .of_reaches hpoint (notices_fault _ _)
    · exact .of_reaches hpoint (notices_faultPast _ _)
  · split
    · next hletter => exact (placed_readExponent hletter _ _ _).of_reaches hafter
    · split
      · next hf => exact .of_reaches hafter (notices_realAt hf)
      · exact hafter

theorem placed_readAfterInteger (c : Cursor) (positive : Bool) (m beyond : Nat) :
    Placed c Prod.snd (readAfterInteger c positive m beyond) := by
  unfold readAfterInteger
  split
  · next h => exact placed_readFraction (beq_iff_eq.1 h) _ _ _
  · split
    · next h => exact placed_readExponent h _ _ _
    · split
      · exact .here
      · split
        · next hf => exact notices_realAt hf
        · exact .here

theorem placed_readMagnitude (c : Cursor) (positive : Bool) :
    Placed c Prod.snd (readMagnitude c positive) := by
  unfold readMagnitude
  split
  · exact notices_fault _ _
  · next ch hpeek =>
    split
    · next hzero =>
      have hahead := reaches_ahead_one hpeek (hzero ▸ isPlain_of_le (by decide))
      dsimp only
      split
      · exact .of_reaches hahead (notices_faultPast _ _)
      · exact (placed_readAfterInteger _ _ _ _).of_reaches hahead
    · split
      · exact (placed_readAfterInteger _ _ _ _).of_reaches (reaches_afterDigits c)
      · exact notices_faultPast _ _

theorem placed_readNumber (c : Cursor) : Placed c Prod.snd (readNumber c) := by
  unfold readNumber
  split
  · next h =>
    have hsign := reaches_ahead_one (beq_iff_eq.1 h) (isPlain_of_le (by decide))
    exact (placed_readMagnitude _ _).of_reaches hsign
  · exact placed_readMagnitude _ _

theorem placed_stepNumber (c : Cursor) : Placed c Step.next (stepNumber c) := by
  unfold stepNumber
  split
  · next hf => exact (placed_readNumber c).error hf
  · next hd => exact (placed_readNumber c).ok hd

theorem placed_skipExponent {c : Cursor} (h : (c.peek? == some 'e' || c.peek? == some 'E') = true) :
    Placed c id (skipExponent c) := by
  have hsign := reaches_afterExponentSign h
  unfold skipExponent
  dsimp only
  split
  · exact hsign.trans (reaches_afterDigits _)
  · exact .of_reaches hsign (notices_faultPast _ _)

theorem placed_skipFraction {c : Cursor} (h : c.peek? = some '.') :
    Placed c id (skipFraction c) := by
  have hpoint := reaches_ahead_one h (isPlain_of_le (by decide))
  have hafter := hpoint.trans (reaches_afterDigits _)
  unfold skipFraction
  dsimp only
  split
  · exact .of_reaches hpoint (notices_faultPast _ _)
  · split
    · next hletter => exact (placed_skipExponent hletter).of_reaches hafter
    · exact hafter

theorem placed_skipInteger (c : Cursor) : Placed c id (skipInteger c) := by
  unfold skipInteger
  split
  · exact notices_fault _ _
  · next ch hpeek =>
    split
    · next hzero =>
      have hahead := reaches_ahead_one hpeek (hzero ▸ isPlain_of_le (by decide))
      dsimp only
      split
      · exact .of_reaches hahead (notices_faultPast _ _)
      · exact hahead
    · split
      · exact reaches_afterDigits c
      · exact notices_faultPast _ _

theorem placed_skipNumber (c : Cursor) : Placed c id (skipNumber c) := by
  have hsign : c.Reaches (if c.peek? == some '-' then c.ahead 1 else c) := by
    split
    · next h => exact reaches_ahead_one (beq_iff_eq.1 h) (isPlain_of_le (by decide))
    · exact .here
  have hinteger := (placed_skipInteger _).of_reaches hsign
  unfold skipNumber
  split
  · next hf => exact hinteger.error hf
  · next last hlast =>
    have hlast := hinteger.ok hlast
    split
    · next h => exact (placed_skipFraction (beq_iff_eq.1 h)).of_reaches hlast
    · split
      · next h => exact (placed_skipExponent h).of_reaches hlast
      · exact hlast

theorem placed_stepPastNumber (c : Cursor) : Placed c Step.next (stepPastNumber c) := by
  unfold stepPastNumber
  split
  · next hf => exact (placed_skipNumber c).error hf
  · next hd => exact (placed_skipNumber c).ok hd

/-! ### Steps through lists and objects -/

theorem placed_startItem (c : Cursor) (first : Bool) :
    Placed c Lookahead.at' (startItem c first) := by
  have hd := reaches_skipBlank c
  unfold startItem
  dsimp only
  split
  · exact .of_reaches hd (notices_fault _ _)
  · next s hs =>
    split
    · exact hd
    · split
      · exact hd
      · split
        · have he := (hd.trans (reaches_next hs)).trans (reaches_skipBlank _)
          split
          · exact .of_reaches he (notices_fault _ _)
          · split
            · exact .of_reaches he (notices_faultPast _ _)
            · exact he
        · exact .of_reaches hd (notices_faultPast _ _)

theorem placed_startKey (c : Cursor) (first : Bool) :
    Placed c Lookahead.at' (startKey c first) := by
  have hd := reaches_skipBlank c
  unfold startKey
  dsimp only
  split
  · exact .of_reaches hd (notices_fault _ _)
  · next s hs =>
    split
    · exact hd
    · split
      · split
        · exact hd
        · exact .of_reaches hd (notices_faultPast _ _)
      · split
        · have he := (hd.trans (reaches_next hs)).trans (reaches_skipBlank _)
          split
          · exact .of_reaches he (notices_fault _ _)
          · split
            · exact he
            · split
              · exact .of_reaches he (notices_faultPast _ _)
              · exact .of_reaches he (notices_faultPast _ _)
        · exact .of_reaches hd (notices_faultPast _ _)

theorem placed_readColon (c : Cursor) : Placed c Step.next (readColon c) := by
  have hd := reaches_skipBlank c
  unfold readColon
  dsimp only
  split
  · exact .of_reaches hd (notices_fault _ _)
  · next s hs =>
    split
    · exact hd.trans (reaches_next hs)
    · exact .of_reaches hd (notices_faultPast _ _)

theorem placed_closeList (c : Cursor) : Placed c Step.next (closeList c) := by
  have hd := reaches_skipBlank c
  unfold closeList
  dsimp only
  split
  · exact .of_reaches hd (notices_fault _ _)
  · next s hs =>
    split
    · exact hd.trans (reaches_next hs)
    · split
      · have he := (hd.trans (reaches_next hs)).trans (reaches_skipBlank _)
        split
        · exact .of_reaches he (notices_faultPast _ _)
        · exact .of_reaches he (notices_faultPast _ _)
      · exact .of_reaches hd (notices_faultPast _ _)

theorem placed_closeObject (c : Cursor) : Placed c Step.next (closeObject c) := by
  have hd := reaches_skipBlank c
  unfold closeObject
  dsimp only
  split
  · exact .of_reaches hd (notices_fault _ _)
  · next s hs =>
    split
    · exact hd.trans (reaches_next hs)
    · split
      · exact .of_reaches hd (notices_faultPast _ _)
      · exact .of_reaches hd (notices_faultPast _ _)

theorem notices_finish {c : Cursor} {f : Fault} (h : finish c = .error f) : c.Notices f := by
  have hd := reaches_skipBlank c
  unfold finish at h
  dsimp only at h
  split at h
  · cases h
  · cases h
    exact .of_reaches hd (notices_faultPast _ _)

end BuildLayout.Json
