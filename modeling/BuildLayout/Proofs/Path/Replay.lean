import BuildLayout.Proofs.Path.InPlace

/-!
# What a normal form is

The normal form of a path is told here from its text alone:

* `replay`: the segments of the text, between slashes of either kind, go on a stack that `..` pops.
  `laid_foldl` says that the stack holds the segments of the normal form throughout, so the path in
  normal form is the stack spelled out (`normalize_eq_spell`).
* `IsNormalForm`: the texts that are in normal form. What is normalized is one of them
  (`isNormalForm_normalize`), and they are kept as they are (`normalize_of_isNormalForm`).

`normalize_replays` puts the two together, with what is written in place (`normalizeInPlace`).
-/

namespace BuildLayout

namespace Path

/-! ## Segments on a stack -/

/-- A slash of either kind. -/
def isSeparator (c : Char) : Bool := c == '/' || c == '\\'

/-- The segments of the text between slashes of either kind. -/
def pieces (p : Path) : List String :=
  (p.text.toList.splitOnP isSeparator).map String.ofList

/-- The text begins with a slash of either kind. -/
def isRooted (p : Path) : Bool :=
  p.text.toList.head?.any isSeparator

/-- A segment comes to a stack, whose top is its head. A `..` pops a name; where there is none it is
ignored at the root and kept otherwise. -/
def push (rooted : Bool) (stack : List String) (s : String) : List String :=
  if s = "" ∨ s = "." then stack
  else if s = ".." then
    match stack with
    | [] => if rooted then [] else [".."]
    | top :: below => if top = ".." then ".." :: top :: below else below
  else s :: stack

/-- The segments that are left when all have come to an empty stack, in the order of the path. -/
def replay (rooted : Bool) (segments : List String) : List String :=
  (segments.foldl (push rooted) []).reverse

/-- The path of some segments: they stand between slashes, behind a slash at the root, and a
relative path without any is a dot. -/
def spell (rooted : Bool) (segments : List String) : Path :=
  if rooted then ⟨"/" ++ (ofSegments segments).text⟩
  else if segments = [] then ⟨"."⟩ else ofSegments segments

theorem isSeparator_iff {c : Char} : isSeparator c ↔ c = '/' ∨ c = '\\' := by
  simp [isSeparator]

theorem splitOnP_isSeparator (cs : List Char) :
    cs.splitOnP isSeparator = Text.splitOn '/' (slashes cs) := by
  induction cs with
  | nil => rfl
  | cons c cs ih =>
    have hslashes : slashes (c :: cs) = (if c = '\\' then '/' else c) :: slashes cs := rfl
    rw [List.splitOnP_cons_eq_if_modifyHead, ih, hslashes, Text.splitOn]
    by_cases hc : isSeparator c
    · have hslash : (if c = '\\' then '/' else c) = '/' := by
        rcases isSeparator_iff.1 hc with rfl | rfl <;> rfl
      rw [if_pos hc, if_pos hslash]
    · obtain ⟨hslash, hback⟩ := not_or.1 (mt isSeparator_iff.2 hc)
      rw [if_neg hc, if_neg hback, if_neg hslash]
      cases hs : Text.splitOn '/' (slashes cs) with
      | nil => exact absurd hs (Text.splitOn_ne_nil _ _)
      | cons piece pieces => rfl

theorem pieces_eq (p : Path) : p.pieces = p.normalizeSeparators.segments := by
  rw [pieces, segments, toList_normalizeSeparators, splitOnP_isSeparator]

theorem isRooted_eq (p : Path) : p.isRooted = p.normal.absolute := by
  rw [normal_absolute, isAbsolute, toList_normalizeSeparators, isRooted]
  cases p.text.toList with
  | nil => rfl
  | cons c cs =>
    rw [Bool.eq_iff_iff]
    simp only [slashes, List.map_cons, List.head?_cons, Option.any_some, isSeparator_iff,
      beq_iff_eq, Option.some.injEq]
    split <;> simp_all

/-! ## The stack and the normal form -/

/-- The segments of a normal form: `..` some times and then the names. -/
def Normal.laid (n : Normal) : List String :=
  List.replicate n.ups ".." ++ n.names

/-- A normal form that a path can have: its names are plain, and no `..` is kept at the root. -/
structure Normal.Proper (n : Normal) : Prop where
  plain : ∀ s ∈ n.names, IsPlain s
  ups : n.absolute → n.ups = 0

theorem Normal.proper_rooted {names : List String} (h : ∀ s ∈ names, IsPlain s) :
    Normal.Proper ⟨true, 0, names⟩ :=
  ⟨h, fun _ => rfl⟩

theorem Normal.proper_relative {ups : Nat} {names : List String} (h : ∀ s ∈ names, IsPlain s) :
    Normal.Proper ⟨false, ups, names⟩ :=
  ⟨h, fun ha => absurd ha Bool.false_ne_true⟩

theorem proper_normal (p : Path) : p.normal.Proper :=
  ⟨normal_plain p, fun h => by rw [normal_of_absolute h]⟩

theorem Normal.Proper.step {n : Normal} (h : n.Proper) {c : Component} (hroot : c ≠ .root)
    (hname : ∀ s, c = .name s → IsPlain s) : (n.step c).Proper := by
  refine ⟨foldl_step_names [c] n h.plain fun s hs => hname s (List.mem_singleton.1 hs).symm, ?_⟩
  intro ha
  rw [step_absolute hroot] at ha
  have hups : ([c].foldl Normal.step n).ups = 0 := foldl_step_ups ha (h.ups ha)
  exact hups

theorem Normal.reverse_laid_of_nil {n : Normal} (h : n.names = []) :
    n.laid.reverse = List.replicate n.ups ".." := by
  rw [laid, h, List.append_nil, List.reverse_replicate]

theorem Normal.reverse_laid_of_concat {n : Normal} {names : List String} {s : String}
    (h : n.names = names ++ [s]) :
      n.laid.reverse = s :: (laid { n with names := names }).reverse := by
  rw [laid, h, ← List.append_assoc, List.reverse_concat, laid]

/-- What a segment contributes to a normal form comes to the stack of its segments. -/
theorem push_laid {n : Normal} (h : n.Proper) (s : String) :
    push n.absolute n.laid.reverse s = ((Component.ofSegment? s).elim n n.step).laid.reverse := by
  unfold push Component.ofSegment?
  split
  · rfl
  split
  · next hup =>
    rw [Option.elim_some]
    rcases List.eq_nil_or_concat n.names with hn | ⟨names, t, hn⟩
    · cases ha : n.absolute with
      | true =>
        have hstep : n.step .up = n := by rw [Normal.step_up_of_nil hn, if_pos ha]
        rw [hstep, Normal.reverse_laid_of_nil hn, h.ups ha]
        rfl
      | false =>
        have hstep : n.step .up = { n with ups := n.ups + 1 } := by
          rw [Normal.step_up_of_nil hn, ha, if_neg Bool.false_ne_true]
        have hlaid : (Normal.laid { n with ups := n.ups + 1 }).reverse =
            List.replicate (n.ups + 1) ".." := Normal.reverse_laid_of_nil hn
        rw [hstep, hlaid, Normal.reverse_laid_of_nil hn]
        cases n.ups <;> rfl
    · rw [List.concat_eq_append] at hn
      have ht : t ≠ ".." := (h.plain t (by simp [hn])).1.2.2.1
      rw [Normal.step_up_of_concat hn, Normal.reverse_laid_of_concat hn]
      exact if_neg ht
  · rw [Option.elim_some, Normal.laid, Normal.laid, Normal.step, ← List.append_assoc,
      List.reverse_concat]

/-- **The stack holds the segments of the normal form** while the segments of the path come. -/
theorem laid_foldl {ss : List String} (hs : ∀ s ∈ ss, '/' ∉ s.toList ∧ '\\' ∉ s.toList)
    {n : Normal} (h : n.Proper) :
    ss.foldl (push n.absolute) n.laid.reverse =
      ((body ss).foldl Normal.step n).laid.reverse := by
  induction ss generalizing n with
  | nil => rfl
  | cons s ss ih =>
    have ih := @ih fun t ht => hs t (.tail _ ht)
    rw [List.foldl_cons, push_laid h]
    unfold body at ih ⊢
    cases hc : Component.ofSegment? s with
    | none =>
      rw [List.filterMap_cons_none hc]
      exact ih h
    | some c =>
      have hroot : c ≠ .root := by
        rintro rfl
        exact root_not_mem_body [s] (List.mem_filterMap.2 ⟨s, .head _, hc⟩)
      have hname : ∀ t, c = .name t → IsPlain t := by
        rintro t rfl
        obtain ⟨rfl, h1, h2, h3⟩ := ofSegment?_eq_name hc
        exact ⟨⟨h1, h2, h3, (hs t (.head _)).1⟩, (hs t (.head _)).2⟩
      rw [List.filterMap_cons_some hc, List.foldl_cons, Option.elim_some,
        ← Normal.step_absolute hroot n]
      exact ih (h.step hroot hname)

theorem spell_laid {n : Normal} (h : n.Proper) : spell n.absolute n.laid = n.toPath := by
  unfold spell Normal.toPath Normal.segments
  cases ha : n.absolute with
  | true =>
    rw [if_pos rfl, if_pos rfl, Normal.laid, h.ups ha, List.replicate_zero, List.nil_append]
    apply ext_toList
    rw [toList_ofSegments_cons]
    split <;> simp_all [ofSegments, Text.joinWith]
  | false =>
    have hnil : n.laid = [] ↔ n.ups = 0 ∧ n.names = [] := by simp [Normal.laid]
    rw [if_neg Bool.false_ne_true, if_neg Bool.false_ne_true]
    simp only [hnil]
    split
    · exact (ofSegments_singleton ".").symm
    · rfl

/-- **Normalizing is replaying the segments on a stack**. -/
theorem normalize_eq_spell (p : Path) :
    p.normalize = spell p.isRooted (replay p.isRooted p.pieces) := by
  have hsegments : ∀ s ∈ p.normalizeSeparators.segments, '/' ∉ s.toList ∧ '\\' ∉ s.toList := by
    intro s hs
    obtain ⟨hslash, hmem⟩ := of_mem_segments hs
    exact ⟨hslash, fun hback => not_mem_normalizeSeparators p (hmem _ hback)⟩
  have hstart : Normal.Proper ⟨p.normal.absolute, 0, []⟩ := ⟨by simp, fun _ => rfl⟩
  have hstack := laid_foldl hsegments hstart
  rw [normal_absolute, ← normal_eq_foldl_body, ← normal_absolute] at hstack
  have hreplay : replay p.normal.absolute p.normalizeSeparators.segments = p.normal.laid := by
    rw [replay]
    exact (congrArg List.reverse hstack).trans (List.reverse_reverse _)
  rw [isRooted_eq, pieces_eq, hreplay, spell_laid (proper_normal p), normalize]

/-! ## Texts in normal form -/

/-- The text is in normal form: it is a dot, or plain names between slashes behind the root, or some
segments between slashes, of which the first ones may be `..` and the others are plain names. -/
inductive IsNormalForm : Path → Prop
  | dot : IsNormalForm ⟨"."⟩
  | rooted {names : List String} (plain : ∀ s ∈ names, IsPlain s) :
    IsNormalForm ⟨"/" ++ (ofSegments names).text⟩
  | relative {segments : List String} (ne_nil : segments ≠ [])
    (plain : ∀ s ∈ segments, s = ".." ∨ IsPlain s)
    (leading : segments.Pairwise fun s t => t = ".." → s = "..") :
    IsNormalForm (ofSegments segments)

/-- Segments with `..` only at their beginning. -/
theorem exists_laid_of_leading {segments : List String}
    (h : segments.Pairwise fun s t => t = ".." → s = "..") :
    ∃ ups names, segments = List.replicate ups ".." ++ names ∧ ".." ∉ names := by
  induction segments with
  | nil => exact ⟨0, [], rfl, by simp⟩
  | cons s segments ih =>
    obtain ⟨hs, h⟩ := List.pairwise_cons.1 h
    by_cases hup : s = ".."
    · obtain ⟨ups, names, rfl, hn⟩ := ih h
      exact ⟨ups + 1, names, by rw [hup]; rfl, hn⟩
    · refine ⟨0, s :: segments, rfl, fun hm => ?_⟩
      rcases List.mem_cons.1 hm with he | hm
      · exact hup he.symm
      · exact hup (hs _ hm rfl)

/-- A text in normal form is what is written for a normal form. -/
theorem isNormalForm_iff {p : Path} : IsNormalForm p ↔ ∃ n : Normal, n.Proper ∧ p = n.toPath := by
  constructor
  · intro h
    cases h with
    | dot => exact ⟨Normal.empty, Normal.proper_relative (by simp), by decide⟩
    | rooted plain =>
      have hproper := Normal.proper_rooted plain
      exact ⟨_, hproper, spell_laid hproper⟩
    | relative ne_nil plain leading =>
      obtain ⟨ups, names, rfl, hnames⟩ := exists_laid_of_leading leading
      have hproper : Normal.Proper ⟨false, ups, names⟩ := Normal.proper_relative fun s hs =>
        (plain s (by simp [hs])).resolve_left fun he => hnames (he ▸ hs)
      have hlaid : Normal.laid ⟨false, ups, names⟩ ≠ [] := ne_nil
      refine ⟨_, hproper, Eq.trans ?_ (spell_laid hproper)⟩
      rw [spell, if_neg Bool.false_ne_true, if_neg hlaid]
      rfl
  · rintro ⟨n, h, rfl⟩
    rw [← spell_laid h, spell]
    split
    · next ha =>
      rw [Normal.laid, h.ups ha]
      exact .rooted h.plain
    split
    · exact .dot
    · next hne =>
      refine .relative hne (fun s hs => ?_) (List.pairwise_append.2 ⟨?_, ?_, fun s hs _ _ _ => ?_⟩)
      · exact (List.mem_append.1 hs).imp List.eq_of_mem_replicate (h.plain s)
      · exact List.pairwise_replicate.2 (.inr fun _ => rfl)
      · refine List.pairwise_of_forall_mem_list fun s _ t ht hup => ?_
        exact absurd hup (h.plain t ht).1.2.2.1
      · exact List.eq_of_mem_replicate hs

/-- **What is normalized is in normal form**. -/
theorem isNormalForm_normalize (p : Path) : IsNormalForm p.normalize :=
  isNormalForm_iff.2 ⟨p.normal, proper_normal p, rfl⟩

theorem Normal.segments_of_relative {n : Normal} (h : n.absolute = false) :
    n.segments = n.components.map Component.text := by
  unfold segments components
  rw [h, if_neg Bool.false_ne_true, if_neg Bool.false_ne_true]
  split
  · rfl
  · simp [Function.comp_def, Component.text]

/-- A normal form is read back from its text. -/
theorem normal_toPath {n : Normal} (h : n.Proper) : n.toPath.normal = n := by
  cases ha : n.absolute with
  | true =>
    obtain ⟨absolute, ups, names⟩ := n
    obtain rfl : absolute = true := ha
    obtain rfl : ups = 0 := h.ups rfl
    rw [Normal.toPath, Normal.segments, if_pos rfl, ← pathOf_eq]
    exact normal_pathOf h.plain
  | false =>
    have hroot := Normal.root_not_mem_components ha
    have hplain : ∀ s, .name s ∈ n.components → IsPlain s := fun s hs =>
      h.plain s ((Normal.name_mem_components ha).1 hs)
    have htext : ∀ c ∈ n.components, c.text ≠ "" ∧ '/' ∉ c.text.toList := fun c hc =>
      have hc := plain_text (fun he => hroot (he ▸ hc)) fun s he => hplain s (he ▸ hc)
      ⟨hc.1, hc.2.1⟩
    rw [Normal.toPath, Normal.segments_of_relative ha, ← ofComponents_eq htext,
      normal_ofComponents hroot hplain]
    exact Normal.ofComponents_components ha

/-- **A text in normal form is kept** as it is. -/
theorem normalize_of_isNormalForm {p : Path} (h : IsNormalForm p) : p.normalize = p := by
  obtain ⟨n, hn, rfl⟩ := isNormalForm_iff.1 h
  rw [normalize, normal_toPath hn]

/-! ## The main result -/

/-- **Normalizing** gives a text in normal form, which is what is left of the segments of the path
once they are replayed on a stack. It may be written in place, with a counter of the names that can
be taken back. Just the texts in normal form are kept as they are, so normalizing twice is
normalizing once. -/
theorem normalize_replays (p : Path) :
    p.normalizeInPlace = p.normalize ∧ IsNormalForm p.normalize ∧
      p.normalize = spell p.isRooted (replay p.isRooted p.pieces) ∧
      (IsNormalForm p ↔ p.normalize = p) ∧ p.normalize.normalize = p.normalize :=
  ⟨normalizeInPlace_eq p, isNormalForm_normalize p, normalize_eq_spell p,
    ⟨normalize_of_isNormalForm, fun h => h ▸ isNormalForm_normalize p⟩, normalize_normalize p⟩

end Path

end BuildLayout
