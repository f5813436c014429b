import BuildLayout.Proofs.Disk.Place

/-!
# Disks that only grow

`Keeps d d'`: everything that stands on `d` stands on `d'` as well, so every path that leads to
something leads to the same thing on both (`Keeps.stat_eq_ok`, `Keeps.read_eq_ok`).

On a disk that is a tree everything stands in a directory (`IsTree`). Directories are made one by
one, each of them in a directory (`MadeToward`): what was made is a directory on the way where
nothing was (`MadeToward.node?_eq`), and nothing is made on the way to a directory that is there
(`MadeToward.eq_of_directory`).
-/

namespace BuildLayout.Disk

/-! ## What is kept -/

/-- Everything that stands on the first disk stands on the second. -/
structure Keeps (d d' : Disk) : Prop where
  node? : ∀ {l node}, d.node? l = some node → d'.node? l = some node
  cwd : d'.cwd = d.cwd

namespace Keeps

variable {d d' : Disk}

theorem refl (d : Disk) : Keeps d d :=
  ⟨id, rfl⟩

theorem trans {d'' : Disk} (h : Keeps d d') (h' : Keeps d' d'') : Keeps d d'' :=
  ⟨fun hn => h'.node? (h.node? hn), h'.cwd.trans h.cwd⟩

/-- What is put where nothing stands is in nobody's way. -/
theorem put {location : Location} (hfree : d.node? location = none) (node : Node) :
    Keeps d (d.put location node) := by
  have hne : location ≠ [] := (fileOrFree_of_free hfree).ne_nil
  refine ⟨fun {l} _ hn => ?_, rfl⟩
  have hl : l ≠ location := by
    rintro rfl
    rw [hfree] at hn
    cases hn
  rw [node?_put hne, if_neg hl, hn]

/-- Where segments lead, they still lead. -/
theorem walk_eq_ok (h : Keeps d d') {followLast : Bool} {links : Nat} {here : Location}
    {ss : List String} {l : Location} (hw : d.walk followLast links here ss = .ok l) :
    d'.walk followLast links here ss = .ok l := by
  fun_induction Disk.walk d followLast links here ss with
  | case1 => rwa [walk]
  | case2 links here s rest hs ih => rw [walk, if_pos hs, ih hw]
  | case3 links here rest hs ih => rw [walk, if_neg hs, if_pos rfl, ih hw]
  | case6 links here s rest h1 h2 h3 hn ih =>
    rw [walk, if_neg h1, if_neg h2, if_neg h3, h.node? hn]
    exact ih hw
  | case7 links here s h1 h2 h3 bytes executable hn =>
    rwa [walk, if_neg h1, if_neg h2, if_neg h3, h.node? hn]
  | case9 links here s rest h1 h2 h3 target hn hlast =>
    rw [walk, if_neg h1, if_neg h2, if_neg h3, h.node? hn]
    dsimp only
    rwa [if_pos hlast]
  | case11 here s rest h1 h2 h3 target hn hlast links ih =>
    rw [walk, if_neg h1, if_neg h2, if_neg h3, h.node? hn]
    dsimp only
    rw [if_neg hlast]
    exact ih hw
  -- the segments lead nowhere
  | case4 | case5 | case8 | case10 => cases hw

theorem locate_eq_ok (h : Keeps d d') {followLast : Bool} {p : Path} {l : Location}
    (hl : d.locate followLast p = .ok l) : d'.locate followLast p = .ok l := by
  unfold locate at hl ⊢
  split at hl
  · cases hl
  next h1 =>
  rw [if_neg h1]
  split at hl
  · cases hl
  next h2 =>
  rw [if_neg h2, h.cwd]
  exact h.walk_eq_ok hl

/-- **What stands at a path** still stands there. -/
theorem stat_eq_ok (h : Keeps d d') {p : Path} {node : Node} (hs : d.stat p = .ok node) :
    d'.stat p = .ok node := by
  unfold stat at hs ⊢
  split at hs
  · cases hs
  next l hl =>
  split at hs
  · cases hs
  next hn =>
  simp only [h.locate_eq_ok hl, h.node? hn, hs]

/-- **A file that could be read** has the same contents. -/
theorem read_eq_ok (h : Keeps d d') {p : Path} {bytes : Text.Bytes} (hr : d.read p = .ok bytes) :
    d'.read p = .ok bytes := by
  unfold read at hr ⊢
  split at hr
  · cases hr
  · next executable hs =>
    rw [h.stat_eq_ok hs]
    exact hr
  · cases hr

end Keeps

/-! ## Trees -/

/-- Everything that stands on the disk stands in a directory. -/
def IsTree (d : Disk) : Prop :=
  ∀ location name node, d.node? (location ++ [name]) = some node →
    d.node? location = some .directory

theorem isTree_of_forall_mem {d : Disk}
    (h : ∀ n ∈ d.nodes, d.node? n.1.dropLast = some .directory) : IsTree d := by
  intro location name node hn
  unfold node? at hn
  rw [if_neg (by simp)] at hn
  obtain ⟨before, after, hl, -⟩ := List.lookup_eq_some_iff.1 hn
  simpa using h (location ++ [name], node) (hl ▸ List.mem_append_right _ (.head _))

namespace IsTree

variable {d : Disk}

/-- All that lead to something are directories. -/
theorem directory_of_prefix (h : IsTree d) {above l : Location} {node : Node}
    (hn : d.node? l = some node) (hp : above <+: l) (hne : above ≠ l) :
    d.node? above = some .directory := by
  induction l using List.reverseRecOn generalizing node with
  | nil => exact absurd (List.prefix_nil.1 hp) hne
  | append_singleton l name ih =>
    have hparent := h l name node hn
    rcases List.prefix_concat_iff.1 hp with rfl | hp
    · exact absurd rfl hne
    · by_cases heq : above = l
      · exact heq ▸ hparent
      · exact ih hparent hp heq

/-- What is put into a directory stands in one. -/
theorem put (h : IsTree d) {location : Location} {name : String} (node : Node)
    (hdir : d.node? location = some .directory) (hfree : d.node? (location ++ [name]) = none) :
    IsTree (d.put (location ++ [name]) node) := by
  have hkeeps := Keeps.put hfree node
  intro l s node' hn
  rw [node?_put (by simp)] at hn
  split at hn
  · next heq =>
    obtain ⟨rfl, -⟩ := List.append_singleton_inj.1 heq
    exact hkeeps.node? hdir
  · exact hkeeps.node? (h l s node' hn)

end IsTree

/-! ## Making directories -/

/-- The second disk comes from the first by making directories that were missing on the way to
`dir`, each of them in a directory. -/
inductive MadeToward (dir : Location) (d : Disk) : Disk → Prop
  | nothing : MadeToward dir d d
  | directory {d' : Disk} {above : Location} {name : String} : MadeToward dir d d' →
      d'.node? above = some .directory → d'.node? (above ++ [name]) = none →
      above ++ [name] <+: dir → MadeToward dir d (d'.put (above ++ [name]) .directory)

namespace MadeToward

variable {dir : Location} {d d' : Disk}

theorem keeps (h : MadeToward dir d d') : Keeps d d' := by
  induction h with
  | nothing => exact .refl d
  | directory _ _ hfree _ ih => exact ih.trans (.put hfree _)

theorem isTree (h : MadeToward dir d d') (hd : IsTree d) : IsTree d' := by
  induction h with
  | nothing => exact hd
  | directory _ habove hfree _ ih => exact ih.put _ habove hfree

/-- **What was made** is a directory on the way, where nothing was. -/
theorem node?_eq (h : MadeToward dir d d') (l : Location) :
    d'.node? l = d.node? l ∨ l <+: dir ∧ d.node? l = none ∧ d'.node? l = some .directory := by
  induction h with
  | nothing => exact .inl rfl
  | @directory d' above name _ _ hfree hp ih =>
    rw [node?_put (by simp)]
    by_cases hl : l = above ++ [name]
    · subst hl
      rw [if_pos rfl]
      rcases ih with he | ⟨-, -, hdir⟩
      · exact .inr ⟨hp, he ▸ hfree, rfl⟩
      · rw [hfree] at hdir
        cases hdir
    · rw [if_neg hl]
      exact ih

/-- No file is made. -/
theorem bytesAt?_eq (h : MadeToward dir d d') (l : Location) : d'.bytesAt? l = d.bytesAt? l := by
  unfold bytesAt?
  rcases h.node?_eq l with he | ⟨-, hbefore, hafter⟩
  · rw [he]
  · rw [hbefore, hafter]

/-- Nothing is made in the last directory. -/
theorem node?_concat (h : MadeToward dir d d') (name : String) :
    d'.node? (dir ++ [name]) = d.node? (dir ++ [name]) := by
  refine (h.node?_eq _).resolve_right fun hmade => ?_
  have hlength := hmade.1.length_le
  rw [List.length_append, List.length_singleton] at hlength
  omega

theorem linkFree (h : MadeToward dir d d') (hd : LinkFree d) : LinkFree d' := by
  intro l target hn
  rcases h.node?_eq l with he | ⟨-, -, hdir⟩
  · exact hd l target (he ▸ hn)
  · rw [hdir] at hn
    cases hn

theorem mono (h : MadeToward dir d d') {below : Location} (hp : dir <+: below) :
    MadeToward below d d' := by
  induction h with
  | nothing => exact .nothing
  | directory _ habove hfree hdir ih => exact .directory ih habove hfree (hdir.trans hp)

/-- Nothing is made on the way to a directory that is there. -/
theorem eq_of_directory (h : MadeToward dir d d') (hd : IsTree d)
    (hdir : d.node? dir = some .directory) : d' = d := by
  induction h with
  | nothing => rfl
  | @directory d' above name h habove hfree hp ih =>
    subst ih
    by_cases heq : above ++ [name] = dir
    · rw [heq, hdir] at hfree
      cases hfree
    · rw [hd.directory_of_prefix hdir hp heq] at hfree
      cases hfree

end MadeToward

end BuildLayout.Disk
