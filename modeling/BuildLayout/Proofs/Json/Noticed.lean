import BuildLayout.Proofs.Json.Placed

/-!
# Faults of values and records

The readers of values and records are `Placed` as well. Those of nested values call one another, so
each has a lemma that supposes the others to be placed where fewer characters are left
(`placed_readValue_of`, `placed_skipIn_of`), and all of them follow by induction on that number. A
reader of records is placed when those of its members are (`Shape.Placed`), and then a fault of a
whole text is noticed at a place of it (`notices_parseRecord`).
-/

namespace BuildLayout.Json

open Cursor

/-- Induction on the number of characters left. -/
@[elab_as_elim]
theorem Cursor.left_induction {P : Cursor → Prop}
    (step : ∀ c, (∀ d : Cursor, d.left < c.left → P d) → P c) (c : Cursor) : P c :=
  (measure Cursor.left).wf.induction c step

/-! ## Values -/

section
variable {c : Cursor}

theorem placed_readValue_of
    (hitems : ∀ levels first done d, d.left < c.left →
      Placed d Step.next (readItems levels first done d))
    (hfields : ∀ levels first done d, d.left < c.left →
      Placed d Step.next (readFields levels first done d))
    (levels : Nat) : Placed c Step.next (readValue levels c) := by
  have hd := reaches_skipBlank c
  rw [readValue]
  dsimp only
  split
  · exact .of_reaches hd (notices_fault _ _)
  · next s hs =>
    have hlt := Nat.lt_of_lt_of_le s.shorter (left_skipBlank c)
    have hs := reaches_next hs
    generalize hr : (ite (s.value = 'n') _ _ : Except Fault (Step c.skipBlank Json)) = r
    have hstep : Placed c.skipBlank Step.next r := by
      rw [← hr]
      split
      · exact placed_readWord _ _ _
      split
      · exact placed_readWord _ _ _
      split
      · exact placed_readWord _ _ _
      split
      · have hnumber := placed_stepNumber c.skipBlank
        split
        · next hf => exact hnumber.error hf
        · next hok => exact hnumber.ok hok
      split
      · have hstring := placed_readString c.skipBlank
        split
        · next hf => exact hstring.error hf
        · next hok => exact hstring.ok hok
      split
      · cases levels with
        | zero => exact notices_faultPast _ _
        | succ levels =>
          have hitems := (hitems levels true [] s.next hlt).of_reaches hs
          dsimp only
          split
          · next hf => exact hitems.error hf
          · next hok => exact hitems.ok hok
      split
      · cases levels with
        | zero => exact notices_faultPast _ _
        | succ levels =>
          have hfields := (hfields levels true [] s.next hlt).of_reaches hs
          dsimp only
          split
          · next hf => exact hfields.error hf
          · next hok => exact hfields.ok hok
      · exact notices_faultPast _ _
    cases r with
    | error f => exact .of_reaches hd hstep
    | ok t => exact hd.trans hstep

theorem placed_readItems_of
    (hvalue : ∀ levels d, d.left ≤ c.left → Placed d Step.next (readValue levels d))
    (hitems : ∀ levels first done d, d.left < c.left →
      Placed d Step.next (readItems levels first done d))
    (levels : Nat) (first : Bool) (done : List Json) :
    Placed c Step.next (readItems levels first done c) := by
  have hstart := placed_startItem c first
  rw [readItems]
  split
  · next hf => exact hstart.error hf
  · next look hlook =>
    have hlook := hstart.ok hlook
    dsimp only
    split
    · have hvalue := (hvalue levels look.at' look.within).of_reaches hlook
      split
      · next hf => exact hvalue.error hf
      · next v hv =>
        have hlt := Nat.lt_of_lt_of_le v.shorter look.within
        have hitems := (hitems levels false (v.value :: done) v.next hlt).of_reaches (hvalue.ok hv)
        split
        · next hf => exact hitems.error hf
        · next hok => exact hitems.ok hok
    · have hclose := (placed_closeList look.at').of_reaches hlook
      split
      · next hf => exact hclose.error hf
      · next hok => exact hclose.ok hok

theorem placed_readFields_of
    (hvalue : ∀ levels d, d.left ≤ c.left → Placed d Step.next (readValue levels d))
    (hfields : ∀ levels first done d, d.left < c.left →
      Placed d Step.next (readFields levels first done d))
    (levels : Nat) (first : Bool) (done : List (String × Json)) :
    Placed c Step.next (readFields levels first done c) := by
  have hstart := placed_startKey c first
  rw [readFields]
  split
  · next hf => exact hstart.error hf
  · next look hlook =>
    have hlook := hstart.ok hlook
    dsimp only
    split
    · have hkey := (placed_readString look.at').of_reaches hlook
      split
      · next hf => exact hkey.error hf
      · next key hok =>
        have hcolon := (placed_readColon key.next).of_reaches (hkey.ok hok)
        split
        · next hf => exact hcolon.error hf
        · next colon hok =>
          have hlt := Nat.lt_trans colon.shorter (Nat.lt_of_lt_of_le key.shorter look.within)
          have hvalue := (hvalue levels colon.next (Nat.le_of_lt hlt)).of_reaches (hcolon.ok hok)
          split
          · next hf => exact hvalue.error hf
          · next v hv =>
            have hrest := (hfields levels false ((key.value, v.value) :: done) v.next
              (Nat.lt_trans v.shorter hlt)).of_reaches (hvalue.ok hv)
            split
            · next hf => exact hrest.error hf
            · next hok => exact hrest.ok hok
    · have hclose := (placed_closeObject look.at').of_reaches hlook
      split
      · next hf => exact hclose.error hf
      · next hok => exact hclose.ok hok

end

/-- **Values, items and fields**, by the number of characters left. -/
theorem placed_values (c : Cursor) :
    (∀ levels, Placed c Step.next (readValue levels c)) ∧
    (∀ levels first done, Placed c Step.next (readItems levels first done c)) ∧
    (∀ levels first done, Placed c Step.next (readFields levels first done c)) := by
  induction c using Cursor.left_induction with
  | step c ih =>
    have hvalue : ∀ levels d, d.left ≤ c.left → Placed d Step.next (readValue levels d) :=
      fun levels d hd => placed_readValue_of
        (fun levels first done e he => (ih e (by omega)).2.1 levels first done)
        (fun levels first done e he => (ih e (by omega)).2.2 levels first done) levels
    exact ⟨fun levels => hvalue levels c (Nat.le_refl _),
      placed_readItems_of hvalue fun levels first done d hd => (ih d hd).2.1 levels first done,
      placed_readFields_of hvalue fun levels first done d hd => (ih d hd).2.2 levels first done⟩

theorem placed_readValue (levels : Nat) (c : Cursor) : Placed c Step.next (readValue levels c) :=
  (placed_values c).1 levels

/-! ## Skipped values -/

theorem placed_skipKey (c : Cursor) : Placed c Step.next (skipKey c) := by
  have hd := reaches_skipBlank c
  unfold skipKey
  dsimp only
  split
  · exact .of_reaches hd (notices_fault _ _)
  · split
    · have hkey := (placed_skipString c.skipBlank).of_reaches hd
      split
      · next hf => exact hkey.error hf
      · next key hok =>
        have hcolon := (placed_readColon key.next).of_reaches (hkey.ok hok)
        split
        · next hf => exact hcolon.error hf
        · next hok => exact hcolon.ok hok
    · exact .of_reaches hd (notices_faultPast _ _)

section
variable {origin c : Cursor}

theorem placed_skipIn_of
    (hopened : ∀ frame frames d (h : d.left < origin.left), d.left < c.left →
      Placed d Step.next (skipOpened frame frames d h))
    (hafter : ∀ frames d (h : d.left < origin.left), d.left < c.left →
      Placed d Step.next (skipAfter frames d h))
    (frames : List Frame) (h : c.left ≤ origin.left) :
    Placed c Step.next (skipIn frames c h) := by
  have hd := reaches_skipBlank c
  have hle := left_skipBlank c
  rw [skipIn]
  dsimp only
  split
  · exact .of_reaches hd (notices_fault _ _)
  · next s hs =>
    have hlt := Nat.lt_of_lt_of_le s.shorter hle
    have hs := hd.trans (reaches_next hs)
    split
    · exact (hopened _ _ _ _ hlt).of_reaches hs
    split
    · exact (hopened _ _ _ _ hlt).of_reaches hs
    generalize hr : (ite (s.value = 'n') _ _ : Except Fault (Step c.skipBlank Unit)) = scalar
    have hscalar : Placed c.skipBlank Step.next scalar := by
      rw [← hr]
      split
      · exact placed_readWord _ _ _
      split
      · exact placed_readWord _ _ _
      split
      · exact placed_readWord _ _ _
      split
      · exact placed_stepPastNumber _
      split
      · exact placed_skipString _
      · exact notices_faultPast _ _
    cases scalar with
    | error f => exact .of_reaches hd hscalar
    | ok t =>
      have ht := Nat.lt_of_lt_of_le t.shorter hle
      exact (hafter _ _ _ ht).of_reaches (hd.trans hscalar)

theorem placed_skipOpened_of
    (hin : ∀ frames d (h : d.left ≤ origin.left), d.left ≤ c.left →
      Placed d Step.next (skipIn frames d h))
    (hafter : ∀ frames d (h : d.left < origin.left), d.left < c.left →
      Placed d Step.next (skipAfter frames d h))
    (frame : Frame) (frames : List Frame) (h : c.left < origin.left) :
    Placed c Step.next (skipOpened frame frames c h) := by
  have hd := reaches_skipBlank c
  have hle := left_skipBlank c
  rw [skipOpened]
  dsimp only
  split
  · exact .of_reaches hd (notices_fault _ _)
  · next s hs =>
    have hlt := Nat.lt_of_lt_of_le s.shorter hle
    have hs := hd.trans (reaches_next hs)
    split
    · exact (hafter _ _ _ hlt).of_reaches hs
    · cases frame with
      | list => exact (hin _ _ _ hle).of_reaches hd
      | object =>
        have hkey := (placed_skipKey c.skipBlank).of_reaches hd
        dsimp only
        split
        · next hf => exact hkey.error hf
        · next key hok =>
          have hk := Nat.le_of_lt (Nat.lt_of_lt_of_le key.shorter hle)
          exact (hin _ _ _ hk).of_reaches (hkey.ok hok)

theorem placed_skipAfter_of
    (hin : ∀ frames d (h : d.left ≤ origin.left), d.left < c.left →
      Placed d Step.next (skipIn frames d h))
    (hafter : ∀ frames d (h : d.left < origin.left), d.left < c.left →
      Placed d Step.next (skipAfter frames d h))
    (frames : List Frame) (h : c.left < origin.left) :
    Placed c Step.next (skipAfter frames c h) := by
  have hd := reaches_skipBlank c
  cases frames with
  | nil =>
    rw [skipAfter]
    exact .here
  | cons frame outer =>
    rw [skipAfter]
    dsimp only
    split
    · exact .of_reaches hd (notices_fault _ _)
    · next s hs =>
      have hlt := Nat.lt_of_lt_of_le s.shorter (left_skipBlank c)
      have hs := hd.trans (reaches_next hs)
      split
      · cases frame with
        | list => exact (hin _ _ _ hlt).of_reaches hs
        | object =>
          have hkey := (placed_skipKey s.next).of_reaches hs
          dsimp only
          split
          · next hf => exact hkey.error hf
          · next key hok =>
            exact (hin _ _ _ (Nat.lt_trans key.shorter hlt)).of_reaches (hkey.ok hok)
      · split
        · exact (hafter _ _ _ hlt).of_reaches hs
        · exact .of_reaches hd (notices_faultPast _ _)

/-- **What is skipped**, by the number of characters left. -/
theorem placed_skipped (c : Cursor) :
    (∀ frames (h : c.left ≤ origin.left), Placed c Step.next (skipIn frames c h)) ∧
    (∀ frame frames (h : c.left < origin.left),
      Placed c Step.next (skipOpened frame frames c h)) ∧
    (∀ frames (h : c.left < origin.left), Placed c Step.next (skipAfter frames c h)) := by
  induction c using Cursor.left_induction with
  | step c ih =>
    have hafter : ∀ frames d (h : d.left < origin.left), d.left < c.left →
        Placed d Step.next (skipAfter frames d h) :=
      fun frames d h hd => (ih d hd).2.2 frames h
    have hin : ∀ frames d (h : d.left ≤ origin.left), d.left ≤ c.left →
        Placed d Step.next (skipIn frames d h) :=
      fun frames d h hd => placed_skipIn_of
        (fun frame frames e h he => (ih e (by omega)).2.1 frame frames h)
        (fun frames e h he => hafter frames e h (by omega)) frames h
    exact ⟨fun frames h => hin frames c h (Nat.le_refl _), placed_skipOpened_of hin hafter,
      placed_skipAfter_of (fun frames d h hd => hin frames d h (Nat.le_of_lt hd)) hafter⟩

end

theorem placed_skipValue (c : Cursor) : Placed c Step.next (skipValue c) :=
  (placed_skipped c).1 [] (Nat.le_refl _)

/-! ## Single values -/

theorem placed_describeAt (c : Cursor) : Placed c Prod.snd (describeAt c) := by
  unfold describeAt
  split
  · exact notices_fault _ _
  · split
    · exact .here
    split
    · exact .here
    split
    · have hvalue := placed_readValue 0 c
      split
      · next hf => exact hvalue.error hf
      · next hok => exact hvalue.ok hok
    · exact notices_faultPast _ _

theorem notices_wrongKind (c : Cursor) (expected : String) : c.Notices (wrongKind c expected) := by
  have hdescribe := placed_describeAt c
  unfold wrongKind
  split
  · next hf => exact hdescribe.error hf
  · next hok => exact .of_reaches (hdescribe.ok hok) (notices_fault _ _)

theorem placed_readText (c : Cursor) : Placed c Step.next (readText c) := by
  have hd := reaches_skipBlank c
  unfold readText
  dsimp only
  split
  · exact .of_reaches hd (notices_fault _ _)
  · split
    · have hstring := (placed_readString c.skipBlank).of_reaches hd
      split
      · next hf => exact hstring.error hf
      · next hok => exact hstring.ok hok
    · exact .of_reaches hd (notices_wrongKind _ _)

theorem placed_readFlag (c : Cursor) : Placed c Step.next (readFlag c) := by
  have hd := reaches_skipBlank c
  unfold readFlag
  dsimp only
  cases c.skipBlank.peek? with
  | none => exact .of_reaches hd (notices_fault _ _)
  | some ch =>
    dsimp only
    generalize hr : (ite (ch = 't') _ _ : Except Fault (Step c.skipBlank Bool)) = r
    have hstep : Placed c.skipBlank Step.next r := by
      rw [← hr]
      split
      · exact placed_readWord _ _ _
      split
      · exact placed_readWord _ _ _
      · exact notices_wrongKind _ _
    cases r with
    | error f => exact .of_reaches hd hstep
    | ok s => exact hd.trans hstep

theorem placed_readTextItems (first : Bool) (done : List String) (c : Cursor) :
    Placed c Step.next (readTextItems first done c) := by
  induction c using Cursor.left_induction generalizing first done with
  | step c ih =>
    have hstart := placed_startItem c first
    rw [readTextItems]
    split
    · next hf => exact hstart.error hf
    · next look hlook =>
      have hlook := hstart.ok hlook
      dsimp only
      split
      · have htext := (placed_readText look.at').of_reaches hlook
        split
        · next hf => exact htext.error hf
        · next t ht =>
          have hlt := Nat.lt_of_lt_of_le t.shorter look.within
          have hitems := (ih t.next hlt false (t.value :: done)).of_reaches (htext.ok ht)
          split
          · next hf => exact hitems.error hf
          · next hok => exact hitems.ok hok
      · have hclose := (placed_closeList look.at').of_reaches hlook
        split
        · next hf => exact hclose.error hf
        · next hok => exact hclose.ok hok

theorem placed_readTexts (levels : Nat) (c : Cursor) : Placed c Step.next (readTexts levels c) := by
  have hd := reaches_skipBlank c
  unfold readTexts
  dsimp only
  split
  · exact .of_reaches hd (notices_fault _ _)
  · next s hs =>
    split
    · cases levels with
      | zero => exact .of_reaches hd (notices_faultPast _ _)
      | succ levels =>
        have hitems := (placed_readTextItems true [] s.next).of_reaches (hd.trans (reaches_next hs))
        dsimp only
        split
        · next hf => exact hitems.error hf
        · next hok => exact hitems.ok hok
    · exact .of_reaches hd (notices_wrongKind _ _)

/-! ## Records -/

/-- The reader of a member is placed. -/
def Member.Placed {σ : Type} (m : Member σ) : Prop :=
  ∀ levels record c, Json.Placed c Step.next (m.read levels record c)

/-- The readers of the members are placed. -/
def Shape.Placed {σ : Type} (shape : Shape σ) : Prop :=
  ∀ m ∈ shape.members, m.Placed

theorem placed_readOptional {σ α : Type} {read : (c : Cursor) → Outcome c α} (set : σ → α → σ)
    (hread : ∀ c, Placed c Step.next (read c)) (record : σ) (c : Cursor) :
    Placed c Step.next (readOptional read set record c) := by
  have hd := reaches_skipBlank c
  unfold readOptional
  dsimp only
  generalize hr : (ite (c.skipBlank.peek? = some 'n') _ _ : Outcome c.skipBlank σ) = r
  have hstep : Placed c.skipBlank Step.next r := by
    rw [← hr]
    split
    · exact placed_readWord _ _ _
    · have hread := hread c.skipBlank
      split
      · next hf => exact hread.error hf
      · next hok => exact hread.ok hok
  cases r with
  | error f => exact .of_reaches hd hstep
  | ok s => exact hd.trans hstep

theorem placed_fitting {α : Type} {read : (c : Cursor) → Except Fault (Step c α)}
    (hread : ∀ c, Placed c Step.next (read c)) (c : Cursor) :
    Placed c Step.next (fitting read c) := by
  have hread := hread c
  unfold fitting
  split
  · next hf => exact hread.error hf
  · next hok => exact hread.ok hok

section
variable {σ : Type} (name : String)

theorem Member.placed_text (set : σ → String → σ) : (Member.text name set).Placed :=
  fun _ => placed_readOptional set (placed_fitting placed_readText)

theorem Member.placed_flag (set : σ → Bool → σ) : (Member.flag name set).Placed :=
  fun _ => placed_readOptional set (placed_fitting placed_readFlag)

theorem Member.placed_texts (set : σ → List String → σ) : (Member.texts name set).Placed :=
  fun levels => placed_readOptional set (placed_fitting (placed_readTexts levels))

end

theorem placed_readInOrder {σ : Type} (title : String) (count levels index : Nat) (record : σ)
    {members : List (Member σ)}
    (hmembers : ∀ m ∈ members, m.Placed)
    (c : Cursor) :
    Placed c (fun r => r.2.1) (readInOrder title count levels index record members c) := by
  induction members generalizing index record c with
  | nil => exact .here
  | cons m members ih =>
    have hstart := placed_startItem c (index == 0)
    conv => arg 3; whnf
    split
    · next hf => exact hstart.error hf
    · next look hlook =>
      have hlook := hstart.ok hlook
      dsimp only
      split
      · have hvalue := (hmembers m (.head _) levels record look.at').of_reaches hlook
        split
        · next hf => exact hvalue.error hf
        · next v hv =>
          have hvalue := hvalue.ok hv
          split
          · exact hvalue
          · next record _ =>
            have hrest := (ih (index + 1) record (fun m hm => hmembers m (.tail _ hm))
              v.next).of_reaches hvalue
            split
            · next hf => exact hrest.error hf
            · next hok => exact hrest.ok hok
      · exact hlook

theorem reaches_settleList (c : Cursor) : c.Reaches (settleList c) := by
  have hd := reaches_skipBlank c
  unfold settleList
  dsimp only
  split
  · exact hd
  · next s hs =>
    have hs := hd.trans (reaches_next hs)
    split
    · exact hs
    · split
      · exact hs.trans (reaches_skipBlank _)
      · exact hd

theorem reaches_settleObject (c : Cursor) : c.Reaches (settleObject c) := by
  have hd := reaches_skipBlank c
  unfold settleObject Cursor.eat?
  dsimp only
  split
  · exact hd
  · next s hs =>
    split at hs
    · next hnext =>
      split at hs
      · cases hs
        exact hd.trans (reaches_next hnext)
      · cases hs
    · cases hs

section
variable {σ : Type} {shape : Shape σ} (hshape : shape.Placed)
include hshape

theorem placed_readMembers (levels : Nat) (seen : List String) (record : σ) (first : Bool)
    (c : Cursor) :
    Placed c (fun r => r.2.1) (readMembers shape levels seen record first c) := by
  induction c using Cursor.left_induction generalizing seen record first with
  | step c ih =>
    have hstart := placed_startKey c first
    rw [readMembers]
    split
    · next hf => exact hstart.error hf
    · next look hlook =>
      have hlook := hstart.ok hlook
      dsimp only
      split
      · have hkey := (placed_readString look.at').of_reaches hlook
        split
        · next hf => exact hkey.error hf
        · next key hok =>
          have hkey := hkey.ok hok
          split
          · exact hkey
          · have hcolon := (placed_readColon key.next).of_reaches hkey
            split
            · next hf => exact hcolon.error hf
            · next colon hok =>
              have hcolon := hcolon.ok hok
              have hmember : ∀ m ∈ shape.members.find? (·.name = key.value),
                  Placed c Step.next (m.read levels record colon.next) := fun m hm =>
                (hshape m (List.mem_of_find?_eq_some hm) levels record _).of_reaches hcolon
              have hskip := (placed_skipValue colon.next).of_reaches hcolon
              split
              · next hf =>
                split at hf
                · next m hm => exact (hmember m hm).error hf
                · split at hf
                  · next hs => cases hf; exact hskip.error hs
                  · cases hf
              · next v hv =>
                have hvalue : c.Reaches v.next := by
                  split at hv
                  · next m hm => exact (hmember m hm).ok hv
                  · split at hv
                    · cases hv
                    · next hs => cases hv; exact hskip.ok hs
                split
                · exact hvalue
                · next record _ =>
                  have hlt : v.next.left < c.left := Nat.lt_trans v.shorter
                    (Nat.lt_trans colon.shorter (Nat.lt_of_lt_of_le key.shorter look.within))
                  have hrest := (ih v.next hlt (key.value :: seen) record false).of_reaches hvalue
                  split
                  · next hf => exact hrest.error hf
                  · next hok => exact hrest.ok hok
      · exact hlook

theorem placed_readRecord (levels : Nat) (c : Cursor) :
    Placed c Step.next (readRecord shape levels c) := by
  have hd := reaches_skipBlank c
  unfold readRecord
  dsimp only
  split
  · exact .of_reaches hd (notices_fault _ _)
  · next s hs =>
    have hs := hd.trans (reaches_next hs)
    split
    · cases levels with
      | zero => exact .of_reaches hd (notices_faultPast _ _)
      | succ levels =>
        have hitems := (placed_readInOrder shape.title shape.members.length levels 0 shape.blank
          hshape s.next).of_reaches hs
        dsimp only
        split
        · next hf => exact hitems.error hf
        · next e hok =>
          exact .of_reaches ((hitems.ok hok).trans (reaches_settleList _)) (notices_fault _ _)
        · next record e hok =>
          have hclose := (placed_closeList e.1).of_reaches (hitems.ok hok)
          split
          · next hf => exact hclose.error hf
          · next hok => exact hclose.ok hok
    split
    · cases levels with
      | zero => exact .of_reaches hd (notices_faultPast _ _)
      | succ levels =>
        have hmembers := (placed_readMembers hshape levels [] shape.blank true s.next).of_reaches hs
        dsimp only
        split
        · next hf => exact hmembers.error hf
        · next e hok =>
          exact .of_reaches ((hmembers.ok hok).trans (reaches_settleObject _)) (notices_fault _ _)
        · next record e hok =>
          have hclose := (placed_closeObject e.1).of_reaches (hmembers.ok hok)
          split
          · next hf => exact hclose.error hf
          · next hok => exact hclose.ok hok
    · exact .of_reaches hd (notices_wrongKind _ _)

/-- **A fault of a whole text** is noticed at a place of it. -/
theorem notices_parseRecord {text : List Char} {f : Fault}
    (h : parseRecord shape text = .error f) : (Cursor.start text).Notices f := by
  have hrecord := placed_readRecord hshape maxDepth (Cursor.start text)
  unfold parseRecord at h
  split at h
  · next hf =>
    cases h
    exact hrecord.error hf
  · next s hs =>
    split at h
    · next hf =>
      cases h
      exact .of_reaches (hrecord.ok hs) (notices_finish hf)
    · cases h

end

end BuildLayout.Json
