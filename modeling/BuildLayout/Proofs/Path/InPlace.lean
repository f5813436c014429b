import BuildLayout.Proofs.Path.Normal

/-!
# Normalizing into one buffer

A path can be normalized by writing it into a buffer: a name is put behind what is written, and a
`..` takes back the last component as long as that is a name, which a counter tells. The buffer and
the counter stay in step with the normal form (`Buffer.InStep.step`), so what is written at the end
is the path in normal form (`normalizeInPlace_eq`). In particular a `..` that was kept is never
taken back, nor is the root.
-/

namespace BuildLayout

open Disk (pathOf)

namespace Path

/-- A path that is being written, and how many names at its end may be taken back. -/
structure Buffer where
  path : Path
  depth : Nat

namespace Buffer

/-- Nothing is written. -/
def empty : Buffer := ⟨⟨""⟩, 0⟩

/-- The path without its last component, if it has one to lose. -/
def pop (p : Path) : Path := p.parent?.getD p

/-- One component further. -/
def step (b : Buffer) : Component → Buffer
  | .here => b
  | .up =>
    if 0 < b.depth then ⟨pop b.path, b.depth - 1⟩
    else if b.path.isAbsolute then b
    else { b with path := b.path.child Component.up.text }
  | .name s => ⟨b.path.child s, b.depth + 1⟩
  | .root => { b with path := b.path.child Component.root.text }

end Buffer

/-- The path as it stands in the buffer once all components are written, or a dot where nothing
is. -/
def normalizeInPlace (p : Path) : Path :=
  let written := (p.normalizeSeparators.components.foldl Buffer.step .empty).path
  if written.text = "" then ⟨"."⟩ else written

/-! ## What is written -/

/-- The path of a normal form while it is being written: a relative one that goes nowhere is
empty. -/
def Normal.written (n : Normal) : Path :=
  if n.absolute then pathOf n.names else Path.ofComponents n.steps

theorem Normal.written_of_absolute {n : Normal} (h : n.absolute) : n.written = pathOf n.names :=
  if_pos h

theorem Normal.written_of_relative {n : Normal} (h : n.absolute = false) :
    n.written = Path.ofComponents n.steps := by
  rw [written, h, if_neg Bool.false_ne_true]

theorem Normal.isAbsolute_written {n : Normal} (h : ∀ s ∈ n.names, IsName s) :
    n.written.isAbsolute = n.absolute := by
  cases ha : n.absolute with
  | true => rw [written_of_absolute ha, isAbsolute_pathOf]
  | false => rw [written_of_relative ha, isAbsolute_ofComponents (isStep_of_mem_steps h)]

/-- A name is written behind what is there. -/
theorem Normal.written_child {n : Normal} {s : String} (h : ∀ t ∈ n.names, IsName t)
    (hs : IsName s) :
    n.written.child s = Normal.written { n with names := n.names ++ [s] } := by
  cases ha : n.absolute with
  | true =>
    rw [written_of_absolute ha, written_of_absolute rfl, child_pathOf h (isAbsolute_of_isName hs)]
  | false =>
    rw [written_of_relative ha, written_of_relative rfl]
    refine (ofComponents_concat n.steps (.name s)).symm.trans ?_
    simp [steps]

/-- Where a name is last it is what a pop takes back. -/
theorem Normal.pop_written {n : Normal} {names : List String} {s : String}
    (hnames : n.names = names ++ [s]) (h : ∀ t ∈ n.names, IsName t) :
    Buffer.pop n.written = Normal.written { n with names := names } := by
  unfold Buffer.pop
  cases ha : n.absolute with
  | true =>
    rw [written_of_absolute ha, written_of_absolute rfl, hnames,
      parent?_pathOf_concat (hnames ▸ h), Option.getD_some]
  | false =>
    have hsteps : n.steps = steps ⟨false, n.ups, names⟩ ++ [.name s] := by
      simp [steps, hnames]
    rw [written_of_relative ha, written_of_relative rfl, hsteps,
      parent?_ofComponents_concat (hsteps ▸ isStep_of_mem_steps h), Option.getD_some]

/-! ## The buffer in step with the normal form -/

/-- The buffer holds what is written of the normal form, and counts its names. -/
structure Buffer.InStep (b : Buffer) (n : Normal) : Prop where
  names : ∀ s ∈ n.names, IsName s
  path : b.path = n.written
  depth : b.depth = n.names.length

/-- A component that is not at the beginning keeps the buffer in step. -/
theorem Buffer.InStep.step {b : Buffer} {n : Normal} (h : b.InStep n) {c : Component}
    (hroot : c ≠ .root) (hname : ∀ s, c = .name s → IsName s) :
    (b.step c).InStep (n.step c) := by
  obtain ⟨hnames, hpath, hdepth⟩ := h
  cases c with
  | root => exact absurd rfl hroot
  | here => exact ⟨hnames, hpath, hdepth⟩
  | name s =>
    have hs := hname s rfl
    refine ⟨fun t ht => ?_, ?_, ?_⟩
    · rcases List.mem_append.1 ht with ht | ht
      · exact hnames t ht
      · exact List.mem_singleton.1 ht ▸ hs
    · exact (congrArg (Path.child · s) hpath).trans (Normal.written_child hnames hs)
    · simp [Buffer.step, Normal.step, hdepth]
  | up =>
    have habs : b.path.isAbsolute = n.absolute := by rw [hpath, Normal.isAbsolute_written hnames]
    rcases List.eq_nil_or_concat n.names with hn | ⟨names, s, hn⟩
    · have hzero : ¬ 0 < b.depth := by simp [hdepth, hn]
      rw [Buffer.step, if_neg hzero, Normal.step_up_of_nil hn, habs]
      cases ha : n.absolute with
      | true => exact ⟨hnames, hpath, hdepth⟩
      | false =>
        refine ⟨hnames, ?_, hdepth⟩
        simp only [Bool.false_eq_true, if_false]
        rw [hpath, Normal.written_of_relative ha, Normal.written_of_relative rfl,
          ← ofComponents_concat]
        simp [Normal.steps, hn, List.replicate_succ']
    · rw [List.concat_eq_append] at hn
      have hpos : 0 < b.depth := by simp [hdepth, hn]
      rw [Buffer.step, if_pos hpos, Normal.step_up_of_concat hn]
      refine ⟨fun t ht => hnames t (by simp [hn, ht]), ?_, by simp [hdepth, hn]⟩
      dsimp only
      rw [hpath, Normal.pop_written hn hnames]

theorem Buffer.InStep.foldl {cs : List Component} (hroot : .root ∉ cs)
    (hname : ∀ s, .name s ∈ cs → IsName s) {b : Buffer} {n : Normal} (h : b.InStep n) :
    (cs.foldl Buffer.step b).InStep (cs.foldl Normal.step n) := by
  induction cs generalizing b n with
  | nil => exact h
  | cons c cs ih =>
    refine ih (fun hc => hroot (.tail _ hc)) (fun s hs => hname s (.tail _ hs)) (h.step ?_ ?_)
    · rintro rfl
      exact hroot (.head _)
    · rintro s rfl
      exact hname s (.head _)

/-- The components of a path keep an empty buffer in step: its root comes first. -/
theorem inStep_components (p : Path) :
    (p.components.foldl Buffer.step .empty).InStep (Normal.ofComponents p.components) := by
  have hname : ∀ s, .name s ∈ p.components → IsName s := fun s hs => (of_name_mem_components hs).2
  by_cases ha : p.isAbsolute
  · obtain ⟨rest, -, hc⟩ := components_of_isAbsolute ha
    rw [hc] at hname ⊢
    have hstart : (Buffer.empty.step .root).InStep (Normal.empty.step .root) :=
      ⟨by simp [Normal.step, Normal.empty], by decide, rfl⟩
    exact hstart.foldl (root_not_mem_body rest) fun s hs => hname s (.tail _ hs)
  · have hstart : Buffer.empty.InStep Normal.empty := ⟨by simp [Normal.empty], by decide, rfl⟩
    exact hstart.foldl (mt (root_mem_components p).1 ha) hname

theorem text_written_eq_empty_iff {n : Normal} (h : ∀ s ∈ n.names, IsName s) :
    n.written.text = "" ↔ n.absolute = false ∧ n.steps = [] := by
  cases ha : n.absolute with
  | true =>
    have habs : n.written.isAbsolute := by rw [Normal.isAbsolute_written h, ha]
    constructor
    · intro hempty
      rw [isAbsolute, hempty] at habs
      cases habs
    · rintro ⟨⟨⟩, -⟩
  | false =>
    rw [Normal.written_of_relative ha]
    constructor
    · intro hempty
      have hcomponents := components_ofComponents (Normal.isStep_of_mem_steps h)
      have hnothing : components ⟨""⟩ = [] := by decide
      refine ⟨rfl, hcomponents.symm.trans ?_⟩
      rw [← hnothing, ← hempty]
    · rintro ⟨-, hnil⟩
      rw [hnil]
      rfl

/-- **What is written into the buffer** is the path in normal form. -/
theorem normalizeInPlace_eq (p : Path) : p.normalizeInPlace = p.normalize := by
  have hstep := inStep_components p.normalizeSeparators
  have hn : Normal.ofComponents p.normalizeSeparators.components = p.normal := rfl
  rw [hn] at hstep
  unfold normalizeInPlace
  rw [hstep.path]
  dsimp only
  simp only [text_written_eq_empty_iff (isName_normal p)]
  cases ha : p.normal.absolute with
  | true => rw [if_neg (by simp), Normal.written_of_absolute ha, normalize_of_absolute ha]
  | false =>
    rw [Normal.written_of_relative ha, normalize_of_relative ha]
    simp

end Path

end BuildLayout
