import BuildLayout.Proofs.Disk.Grown

/-!
# New entries of a disk

A path of plain names leads through the directories of these names (`walk_of_directories`), if it is
short enough (`Fits`) and they are all there (`Reachable`). So something is put at its end exactly
where nothing stands in such a directory (`makeNode_eq_ok_iff`), and is refused as being there
already exactly where something does (`makeNode_eq_alreadyThere_iff`).

Making a directory makes those that are missing on the way to it, and when it goes well all of them
are there (`makeDirs_spec`). It goes well wherever nothing but directories is in the way
(`exists_makeDirs`), and leaves the disk as it is when they are there (`makeDirs_of_reachable`).
-/

namespace BuildLayout.Disk

open BuildLayout.Path (IsName)

/-! ## Going through directories -/

/-- The location has a path that is short enough to be looked up, and so is each of its names. -/
structure Fits (location : Location) : Prop where
  path : Text.nameSize (pathOf location).text ≤ maxPath
  name : ∀ s ∈ location, Text.nameSize s ≤ maxName

/-- What leads to a place is shorter. -/
theorem Fits.of_concat {names : Location} {s : String} (h : Fits (names ++ [s]))
    (hn : ∀ t ∈ names ++ [s], IsName t) : Fits names := by
  have hs := Path.isAbsolute_of_isName (hn s (by simp))
  have hlength : Text.nameSize (pathOf names).text ≤
      Text.nameSize ((pathOf names).child s).text := by
    unfold Path.child Path.join
    rw [hs, if_neg Bool.false_ne_true]
    split
    · exact Text.nameSize_le_append _ _
    · rw [String.append_assoc]
      exact Text.nameSize_le_append _ _
  rw [Path.child_pathOf (fun t ht => hn t (by simp [ht])) hs] at hlength
  exact ⟨hlength.trans h.path, fun t ht => h.name t (by simp [ht])⟩

section
variable {d : Disk}

/-- Names lead through the directories of these names. -/
theorem walk_of_directories {followLast : Bool} {links : Nat} {here : Location}
    {names rest : List String} (hn : ∀ s ∈ names, IsName s ∧ Text.nameSize s ≤ maxName)
    (hdir : ∀ above, above ≠ [] → above <+: names → d.node? (here ++ above) = some .directory) :
    d.walk followLast links here (names ++ rest) =
      d.walk followLast links (here ++ names) rest := by
  induction names generalizing here with
  | nil => rw [List.nil_append, List.append_nil]
  | cons s names ih =>
    obtain ⟨⟨h1, h2, h3, -⟩, hlength⟩ := hn s (.head _)
    have hs : d.node? (here ++ [s]) = some .directory :=
      hdir [s] (by simp) (List.cons_prefix_cons.2 ⟨rfl, List.nil_prefix⟩)
    have hbelow : ∀ above, above ≠ [] → above <+: names →
        d.node? (here ++ [s] ++ above) = some .directory := by
      intro above _ hp
      rw [List.append_assoc]
      exact hdir (s :: above) (by simp) (List.cons_prefix_cons.2 ⟨rfl, hp⟩)
    rw [List.cons_append, walk, if_neg (by simp [h1, h2]), if_neg h3, if_neg (by omega), hs]
    dsimp only
    rw [ih (fun t ht => hn t (.tail _ ht)) hbelow, List.append_assoc]
    rfl

/-- Where nothing but directories is in the way, names lead through them or to where one is
missing. -/
theorem walk_of_clear {followLast : Bool} {links : Nat} {here : Location} {names : List String}
    (hn : ∀ s ∈ names, IsName s ∧ Text.nameSize s ≤ maxName)
    (hclear : ∀ above, above ≠ [] → above <+: names →
      d.node? (here ++ above) = none ∨ d.node? (here ++ above) = some .directory) :
    d.walk followLast links here (names ++ [""]) = .ok (here ++ names) ∨
      d.walk followLast links here (names ++ [""]) = .error .noEntry := by
  induction names generalizing here with
  | nil =>
    left
    rw [List.nil_append, walk, if_pos (.inl rfl), walk, List.append_nil]
  | cons s names ih =>
    obtain ⟨⟨h1, h2, h3, -⟩, hlength⟩ := hn s (.head _)
    rw [List.cons_append, walk, if_neg (by simp [h1, h2]), if_neg h3, if_neg (by omega)]
    rcases hclear [s] (by simp) (List.cons_prefix_cons.2 ⟨rfl, List.nil_prefix⟩) with hs | hs
    · right
      rw [hs]
    · rw [hs]
      dsimp only
      have hbelow : ∀ above, above ≠ [] → above <+: names →
          d.node? (here ++ [s] ++ above) = none ∨
            d.node? (here ++ [s] ++ above) = some .directory := fun above _ hp => by
        rw [List.append_assoc]
        exact hclear (s :: above) (by simp) (List.cons_prefix_cons.2 ⟨rfl, hp⟩)
      have hwalk := ih (fun t ht => hn t (.tail _ ht)) hbelow
      rwa [List.append_assoc] at hwalk

/-- Names lead nowhere else, and only through directories, when something has to be in the last. -/
theorem directories_of_arrive {here l : Location} {names : List String}
    (hn : ∀ s ∈ names, IsName s) (ha : d.arrive here (names ++ [""]) = some l) :
    l = here ++ names ∧ (∀ s ∈ names, Text.nameSize s ≤ maxName) ∧
      ∀ above, above ≠ [] → above <+: names → d.node? (here ++ above) = some .directory := by
  induction names generalizing here with
  | nil =>
    rw [List.nil_append, arrive, if_pos (.inl rfl)] at ha
    cases ha
    refine ⟨(List.append_nil _).symm, fun s hs => absurd hs List.not_mem_nil,
      fun above hne hp => ?_⟩
    exact absurd (List.prefix_nil.1 hp) hne
  | cons s names ih =>
    obtain ⟨h1, h2, h3, -⟩ := hn s (.head _)
    rw [List.cons_append, arrive, if_neg (by simp [h1, h2]), if_neg h3] at ha
    split at ha
    · cases ha
    next hlength =>
    split at ha
    · next hdir =>
      obtain ⟨hl, hlengths, hbelow⟩ := ih (fun t ht => hn t (.tail _ ht)) ha
      refine ⟨by simp [hl], List.forall_mem_cons.2 ⟨by omega, hlengths⟩, fun above hne hp => ?_⟩
      cases above with
      | nil => exact absurd rfl hne
      | cons t above =>
        obtain ⟨rfl, hrest⟩ := List.cons_prefix_cons.1 hp
        by_cases hnil : above = []
        · exact hnil ▸ hdir
        · have := hbelow above hnil hrest
          rwa [List.append_assoc] at this
    · simp at ha

/-- A walk is never refused because something is there. -/
theorem walk_ne_alreadyThere {followLast : Bool} {links : Nat} {here : Location}
    {ss : List String} : d.walk followLast links here ss ≠ .error .alreadyThere := by
  fun_induction Disk.walk d followLast links here ss with
  | case1 | case4 | case5 | case7 | case8 | case9 | case10 => simp
  | case2 _ _ _ _ _ ih | case3 _ _ _ _ ih | case6 _ _ _ _ _ _ _ _ ih => exact ih
  | case11 _ _ _ _ _ _ _ _ _ _ ih => exact ih

end

/-! ## New entries -/

/-- All that lead to the location are directories, and so is what stands there. -/
def Reachable (d : Disk) (location : Location) : Prop :=
  ∀ above, above <+: location → d.node? above = some .directory

/-- Nothing but directories is on the way to the location and at it. -/
def Clear (d : Disk) (location : Location) : Prop :=
  ∀ above, above <+: location → d.node? above = none ∨ d.node? above = some .directory

theorem IsTree.reachable {d : Disk} (h : IsTree d) {location : Location}
    (hdir : d.node? location = some .directory) : Reachable d location := by
  intro above hp
  by_cases heq : above = location
  · exact heq ▸ hdir
  · exact h.directory_of_prefix hdir hp heq

theorem text_pathOf_ne_empty (location : Location) : (pathOf location).text ≠ "" := by
  intro hempty
  have habs := Path.isAbsolute_pathOf location
  unfold Path.isAbsolute at habs
  simp [hempty] at habs

section
variable {d : Disk} {names : Location} {s : String} (hn : ∀ t ∈ names ++ [s], IsName t)
include hn

theorem entryOf_pathOf :
    d.entryOf (pathOf (names ++ [s])) =
      if maxPath < Text.nameSize (pathOf (names ++ [s])).text then .error .nameTooLong
      else match d.walk true maxLinks [] (names ++ [""]) with
        | .error e => .error e
        | .ok dir => if maxName < Text.nameSize s then .error .nameTooLong else .ok (dir, s) := by
  have habs := Path.isAbsolute_pathOf (names ++ [s])
  have hs := hn s (by simp)
  have hsegments : (pathOf (names ++ [s])).segments = "" :: (names ++ [s]) := by
    rw [Path.segments_pathOf fun t ht => (hn t ht).2.2.2, if_neg (by simp)]
  have hdrop : (pathOf (names ++ [s])).segments.reverse.dropWhile (· = "") =
      s :: ("" :: names).reverse := by
    rw [hsegments, ← List.cons_append, List.reverse_concat,
      List.dropWhile_cons_of_neg (by simp [hs.1])]
  have hwalk : d.walk true maxLinks [] ("" :: (names ++ [""])) =
      d.walk true maxLinks [] (names ++ [""]) := by
    rw [walk, if_pos (.inl rfl)]
  unfold entryOf
  rw [if_neg (by simpa using text_pathOf_ne_empty _), hdrop]
  dsimp only
  rw [habs, if_pos rfl, List.reverse_reverse, List.cons_append, hwalk]
  split
  · rfl
  · cases d.walk true maxLinks [] (names ++ [""]) with
    | error e => rfl
    | ok dir => simp [hs.2.1, hs.2.2.1]

/-- The entry of a path whose directories are there. -/
theorem entryOf_of_reachable (hf : Fits (names ++ [s])) (hr : Reachable d names) :
    d.entryOf (pathOf (names ++ [s])) = .ok (names, s) := by
  have hname : ∀ t ∈ names, IsName t ∧ Text.nameSize t ≤ maxName := fun t ht =>
    ⟨hn t (by simp [ht]), hf.name t (by simp [ht])⟩
  have hpath := hf.path
  have hlast := hf.name s (by simp)
  rw [entryOf_pathOf hn, if_neg (by omega), walk_of_directories hname fun above _ => hr above,
    List.nil_append, walk, if_pos (.inl rfl), walk]
  dsimp only
  rw [if_neg (by omega)]

/-- The entry of a path is found, or a directory is missing, where nothing but directories is in the
way. -/
theorem entryOf_of_clear (hf : Fits (names ++ [s])) (hc : Clear d names) :
    d.entryOf (pathOf (names ++ [s])) = .ok (names, s) ∨
      d.entryOf (pathOf (names ++ [s])) = .error .noEntry := by
  have hname : ∀ t ∈ names, IsName t ∧ Text.nameSize t ≤ maxName := fun t ht =>
    ⟨hn t (by simp [ht]), hf.name t (by simp [ht])⟩
  have hpath := hf.path
  have hlast := hf.name s (by simp)
  rw [entryOf_pathOf hn, if_neg (by omega)]
  have hclear : ∀ above, above ≠ [] → above <+: names →
      d.node? ([] ++ above) = none ∨ d.node? ([] ++ above) = some .directory := fun above _ =>
    hc above
  have hwalk : d.walk true maxLinks [] (names ++ [""]) = .ok ([] ++ names) ∨
      d.walk true maxLinks [] (names ++ [""]) = .error .noEntry := walk_of_clear hname hclear
  rcases hwalk with hw | hw
  · left
    rw [hw]
    dsimp only
    rw [if_neg (by omega), List.nil_append]
  · right
    rw [hw]

/-- **The entry of a path** is found exactly when the path is short enough and all that lead to its
last name are directories. -/
theorem entryOf_eq_ok_iff (hd : LinkFree d) {entry : Location × String} :
    d.entryOf (pathOf (names ++ [s])) = .ok entry ↔
      entry = (names, s) ∧ Fits (names ++ [s]) ∧ Reachable d names := by
  constructor
  · intro h
    rw [entryOf_pathOf hn] at h
    split at h
    · cases h
    next hpath =>
    split at h
    · cases h
    next dir hw =>
    split at h
    · cases h
    next hlast =>
    cases h
    obtain ⟨rfl, hlengths, hdir⟩ :=
      directories_of_arrive (fun t ht => hn t (by simp [ht])) (arrive_of_walk hd hw)
    refine ⟨rfl, ⟨by omega, fun t ht => ?_⟩, fun above hp => ?_⟩
    · rcases List.mem_append.1 ht with ht | ht
      · exact hlengths t ht
      · rw [List.mem_singleton.1 ht]
        omega
    · by_cases hne : above = []
      · rw [hne]
        rfl
      · exact hdir above hne hp
  · rintro ⟨rfl, hf, hr⟩
    exact entryOf_of_reachable hn hf hr

theorem entryOf_ne_alreadyThere :
    d.entryOf (pathOf (names ++ [s])) ≠ .error .alreadyThere := by
  rw [entryOf_pathOf hn]
  intro h
  split at h
  · cases h
  split at h
  · next hw =>
    cases h
    exact walk_ne_alreadyThere hw
  · split at h <;> cases h

end

/-- Puts a node where nothing stands yet. -/
def makeNode (d : Disk) (p : Path) (node : Node) : Except OsError Disk :=
  match d.entryOf p with
  | .error e => .error e
  | .ok (dir, name) =>
    match d.node? (dir ++ [name]) with
    | some _ => .error .alreadyThere
    | none => .ok (d.put (dir ++ [name]) node)

theorem makeDir_eq (d : Disk) (p : Path) : d.makeDir p = d.makeNode p .directory := rfl

/-- A new file is refused just where any other node is. -/
theorem createNew_eq_error_iff (d : Disk) (p : Path) (node : Node) (e : OsError) :
    d.createNew p = .error e ↔ d.makeNode p node = .error e := by
  unfold createNew makeNode
  cases d.entryOf p with
  | error reason => simp
  | ok entry => cases hnode : d.node? (entry.1 ++ [entry.2]) <;> simp [hnode]

section
variable {d : Disk} {names : Location} {s : String} {node : Node}
  (hn : ∀ t ∈ names ++ [s], IsName t)
include hn

/-- Nothing is put where something stands. -/
theorem makeNode_of_node? (hf : Fits (names ++ [s])) (hr : Reachable d names)
    (hthere : d.node? (names ++ [s]) ≠ none) :
    d.makeNode (pathOf (names ++ [s])) node = .error .alreadyThere := by
  obtain ⟨there, hthere⟩ := Option.ne_none_iff_exists'.1 hthere
  unfold makeNode
  rw [entryOf_of_reachable hn hf hr]
  simp only [hthere]

/-- **A node is put** just where nothing stands in a directory. -/
theorem makeNode_eq_ok_iff (hd : LinkFree d) {d' : Disk} :
    d.makeNode (pathOf (names ++ [s])) node = .ok d' ↔
      Fits (names ++ [s]) ∧ Reachable d names ∧ d.node? (names ++ [s]) = none ∧
        d' = d.put (names ++ [s]) node := by
  unfold makeNode
  constructor
  · intro h
    split at h
    · cases h
    next dir name he =>
    obtain ⟨heq, hf, hr⟩ := (entryOf_eq_ok_iff hn hd).1 he
    cases heq
    split at h
    · cases h
    next hfree =>
    cases h
    exact ⟨hf, hr, hfree, rfl⟩
  · rintro ⟨hf, hr, hfree, rfl⟩
    rw [entryOf_of_reachable hn hf hr]
    simp only [hfree]

/-- Something is there already exactly when something stands in the directory. -/
theorem makeNode_eq_alreadyThere_iff (hd : LinkFree d) :
    d.makeNode (pathOf (names ++ [s])) node = .error .alreadyThere ↔
      Fits (names ++ [s]) ∧ Reachable d names ∧ d.node? (names ++ [s]) ≠ none := by
  constructor
  · intro h
    unfold makeNode at h
    split at h
    · next he =>
      cases h
      exact absurd he (entryOf_ne_alreadyThere hn)
    next dir name he =>
    obtain ⟨heq, hf, hr⟩ := (entryOf_eq_ok_iff hn hd).1 he
    cases heq
    split at h
    · next hthere => exact ⟨hf, hr, by simp [hthere]⟩
    · cases h
  · rintro ⟨hf, hr, hthere⟩
    exact makeNode_of_node? hn hf hr hthere

/-- **A new file is made** just where nothing stands in a directory, and is empty. -/
theorem createNew_eq_ok_iff (hd : LinkFree d) {l : Location} {d' : Disk} :
    d.createNew (pathOf (names ++ [s])) = .ok (l, d') ↔
      Fits (names ++ [s]) ∧ Reachable d names ∧ d.node? (names ++ [s]) = none ∧
        l = names ++ [s] ∧ d' = d.put (names ++ [s]) (.file [] false) := by
  unfold createNew
  constructor
  · intro h
    split at h
    · cases h
    next dir name he =>
    obtain ⟨heq, hf, hr⟩ := (entryOf_eq_ok_iff hn hd).1 he
    cases heq
    split at h
    · cases h
    next hfree =>
    cases h
    exact ⟨hf, hr, hfree, rfl, rfl⟩
  · rintro ⟨hf, hr, hfree, rfl, rfl⟩
    rw [entryOf_of_reachable hn hf hr]
    simp only [hfree]

end

/-! ## What stands at a path -/

section
variable {d : Disk} {names : Location} {s : String} (hn : ∀ t ∈ names ++ [s], IsName t)
  (hf : Fits (names ++ [s])) (hr : Reachable d names)
include hn hf hr

theorem stat_of_reachable {node : Node} (hnode : d.node? (names ++ [s]) = some node)
    (hlink : ∀ target, node ≠ .link target) : d.stat (pathOf (names ++ [s])) = .ok node := by
  obtain ⟨h1, h2, h3, -⟩ := hn s (by simp)
  have hlast := hf.name s (by simp)
  have hpath := hf.path
  have hname : ∀ t ∈ names, IsName t ∧ Text.nameSize t ≤ maxName := fun t ht =>
    ⟨hn t (by simp [ht]), hf.name t (by simp [ht])⟩
  have hwalk : d.walk true maxLinks [] ("" :: (names ++ [s])) = .ok (names ++ [s]) := by
    rw [walk, if_pos (.inl rfl), walk_of_directories hname fun above _ => hr above,
      List.nil_append, walk, if_neg (by simp [h1, h2]), if_neg h3, if_neg (by omega), hnode]
    cases node with
    | file bytes executable => rfl
    | directory => dsimp only; rw [walk]
    | link target => exact absurd rfl (hlink target)
  have hlocate : d.locate true (pathOf (names ++ [s])) = .ok (names ++ [s]) := by
    unfold locate
    rw [if_neg (by simpa using text_pathOf_ne_empty _), if_neg (by omega), Path.isAbsolute_pathOf,
      if_pos rfl, Path.segments_pathOf fun t ht => (hn t ht).2.2.2, if_neg (by simp), hwalk]
  unfold stat
  simp only [hlocate, hnode]

theorem read_of_reachable {bytes : Text.Bytes} {executable : Bool}
    (hnode : d.node? (names ++ [s]) = some (.file bytes executable)) :
    d.read (pathOf (names ++ [s])) = .ok bytes := by
  unfold read
  rw [stat_of_reachable hn hf hr hnode (by simp)]

end

theorem isDirectory_root (d : Disk) : d.isDirectory (pathOf []) := by
  have hwalk : d.walk true maxLinks [] ["", ""] = .ok [] := by
    rw [walk, if_pos (.inl rfl), walk, if_pos (.inl rfl), walk]
  have hlocate : d.locate true (pathOf []) = .ok [] := hwalk
  unfold isDirectory stat
  rw [hlocate]
  rfl

theorem isDirectory_of_reachable {d : Disk} {dir : Location} (hn : ∀ s ∈ dir, IsName s)
    (hf : Fits dir) (hr : Reachable d dir) : d.isDirectory (pathOf dir) := by
  cases dir using List.reverseRecOn with
  | nil => exact isDirectory_root d
  | append_singleton names s =>
    have habove : Reachable d names := fun above hp => hr above (hp.trans (List.prefix_append _ _))
    unfold isDirectory
    rw [stat_of_reachable hn hf habove (hr _ List.prefix_rfl) (by simp)]

theorem node?_of_isDirectory {d : Disk} (hd : LinkFree d) {dir : Location}
    (hn : ∀ s ∈ dir, IsName s) (h : d.isDirectory (pathOf dir)) :
    d.node? dir = some .directory := by
  unfold isDirectory at h
  split at h
  · next hs =>
    obtain ⟨l, hp, hnode⟩ := (stat_eq_ok_iff hd).1 hs
    exact place?_pathOf hn hp ▸ hnode
  · cases h

/-! ## Directories and those above them -/

theorem makeDir_root (d : Disk) : d.makeDir (pathOf []) = .error .alreadyThere := by
  rfl

/-- **Making a directory** makes only directories that are missing on the way to it. When it goes
well, all of them are there. -/
theorem makeDirsUp_spec {d d' : Disk} (hd : LinkFree d) (ht : IsTree d) {dir : Location}
    (hn : ∀ s ∈ dir, IsName s) {result : Except OsError Unit}
    (h : d.makeDirsUp ((upwards dir).map pathOf) = (result, d')) :
    MadeToward dir d d' ∧ (result = .ok () → Reachable d' dir) := by
  induction dir using List.reverseRecOn generalizing result d' with
  | nil =>
    rw [upwards_nil, List.map_singleton, makeDirsUp, if_neg (by simpa using text_pathOf_ne_empty _),
      makeDir_root] at h
    dsimp only at h
    rw [if_pos (isDirectory_root d)] at h
    cases h
    exact ⟨.nothing, fun _ => ht.reachable rfl⟩
  | append_singleton names s ih =>
    have hnames : ∀ t ∈ names, IsName t := fun t ht => hn t (by simp [ht])
    -- one more directory below what was made already
    have hmade : ∀ {e e' : Disk}, MadeToward (names ++ [s]) d e →
        e.makeDir (pathOf (names ++ [s])) = .ok e' →
        MadeToward (names ++ [s]) d e' ∧ Reachable e' (names ++ [s]) := by
      intro e e' he hm
      rw [makeDir_eq, makeNode_eq_ok_iff hn (he.linkFree hd)] at hm
      obtain ⟨-, hr, hfree, rfl⟩ := hm
      have hall := he.directory (hr names List.prefix_rfl) hfree List.prefix_rfl
      refine ⟨hall, (hall.isTree ht).reachable ?_⟩
      rw [node?_put (by simp), if_pos rfl]
    have hthere : ∀ {e : Disk}, MadeToward (names ++ [s]) d e →
        e.isDirectory (pathOf (names ++ [s])) → Reachable e (names ++ [s]) := fun he hdir =>
      (he.isTree ht).reachable (node?_of_isDirectory (he.linkFree hd) hn hdir)
    rw [upwards_concat, List.map_cons, makeDirsUp,
      if_neg (by simpa using text_pathOf_ne_empty _)] at h
    split at h
    · next hm =>
      cases h
      obtain ⟨hall, hr⟩ := hmade .nothing hm
      exact ⟨hall, fun _ => hr⟩
    · split at h
      · next hup =>
        cases h
        exact ⟨(ih hnames hup).1.mono (List.prefix_append _ _), nofun⟩
      next e hup =>
      have he := (ih hnames hup).1.mono (List.prefix_append names [s])
      split at h
      · next hm =>
        cases h
        obtain ⟨hall, hr⟩ := hmade he hm
        exact ⟨hall, fun _ => hr⟩
      · split at h <;> cases h
        · next hdir => exact ⟨he, fun _ => hthere he hdir⟩
        · exact ⟨he, nofun⟩
    · split at h <;> cases h
      · next hdir => exact ⟨.nothing, fun _ => hthere .nothing hdir⟩
      · exact ⟨.nothing, nofun⟩

theorem makeDirs_spec {d d' : Disk} (hd : LinkFree d) (ht : IsTree d) {dir : Location}
    (hn : ∀ s ∈ dir, IsName s) {result : Except OsError Unit}
    (h : d.makeDirs (pathOf dir) = (result, d')) :
    MadeToward dir d d' ∧ (result = .ok () → Reachable d' dir) := by
  unfold makeDirs at h
  rw [Path.ancestors_pathOf hn] at h
  exact makeDirsUp_spec hd ht hn h

/-- The last directory can be made, or is there, when those above it are there. -/
theorem makeDir_of_reachable {d : Disk} (hd : LinkFree d) {names : Location} {s : String}
    (hn : ∀ t ∈ names ++ [s], IsName t) (hf : Fits (names ++ [s])) (hr : Reachable d names)
    (hs : d.node? (names ++ [s]) = none ∨ d.node? (names ++ [s]) = some .directory) :
    (∃ d', d.makeDir (pathOf (names ++ [s])) = .ok d') ∨
      d.makeDir (pathOf (names ++ [s])) = .error .alreadyThere ∧
        d.isDirectory (pathOf (names ++ [s])) := by
  rw [makeDir_eq]
  rcases hs with hs | hs
  · exact .inl ⟨_, (makeNode_eq_ok_iff hn hd).2 ⟨hf, hr, hs, rfl⟩⟩
  · refine .inr ⟨makeNode_of_node? hn hf hr (by simp [hs]), ?_⟩
    unfold isDirectory
    rw [stat_of_reachable hn hf hr hs (by simp)]

theorem exists_makeDirsUp {d : Disk} (hd : LinkFree d) (ht : IsTree d) {dir : Location}
    (hn : ∀ s ∈ dir, IsName s) (hf : Fits dir) (hc : Clear d dir) :
    ∃ d', d.makeDirsUp ((upwards dir).map pathOf) = (.ok (), d') := by
  induction dir using List.reverseRecOn with
  | nil =>
    refine ⟨d, ?_⟩
    rw [upwards_nil, List.map_singleton, makeDirsUp, if_neg (by simpa using text_pathOf_ne_empty _),
      makeDir_root]
    dsimp only
    rw [if_pos (isDirectory_root d)]
  | append_singleton names s ih =>
    have hclear : Clear d names := fun above hp => hc above (hp.trans (List.prefix_append _ _))
    rw [upwards_concat, List.map_cons, makeDirsUp, if_neg (by simpa using text_pathOf_ne_empty _)]
    rcases entryOf_of_clear hn hf hclear with he | he
    · obtain ⟨-, -, hr⟩ := (entryOf_eq_ok_iff hn hd).1 he
      rcases makeDir_of_reachable hd hn hf hr (hc _ List.prefix_rfl) with ⟨d', hm⟩ | ⟨hm, hdir⟩
      · exact ⟨d', by rw [hm]⟩
      · exact ⟨d, by simp only [hm, if_pos hdir]⟩
    · have hmissing : d.makeDir (pathOf (names ++ [s])) = .error .noEntry := by
        unfold makeDir
        rw [he]
      obtain ⟨d₁, hup⟩ := ih (fun t ht => hn t (by simp [ht])) (hf.of_concat hn) hclear
      obtain ⟨hmade, hr⟩ := makeDirsUp_spec hd ht (fun t ht => hn t (by simp [ht])) hup
      simp only [hmissing, hup]
      rcases makeDir_of_reachable (hmade.linkFree hd) hn hf (hr rfl)
        (hmade.node?_concat s ▸ hc _ List.prefix_rfl) with ⟨d', hm⟩ | ⟨hm, hdir⟩
      · exact ⟨d', by rw [hm]⟩
      · exact ⟨d₁, by simp only [hm, if_pos hdir]⟩

theorem exists_makeDirs {d : Disk} (hd : LinkFree d) (ht : IsTree d) {dir : Location}
    (hn : ∀ s ∈ dir, IsName s) (hf : Fits dir) (hc : Clear d dir) :
    ∃ d', d.makeDirs (pathOf dir) = (.ok (), d') := by
  unfold makeDirs
  rw [Path.ancestors_pathOf hn]
  exact exists_makeDirsUp hd ht hn hf hc

/-- A directory that is there need not be made. -/
theorem makeDirs_of_reachable {d : Disk} {dir : Location} (hn : ∀ s ∈ dir, IsName s)
    (hf : Fits dir) (hr : Reachable d dir) : d.makeDirs (pathOf dir) = (.ok (), d) := by
  have hdir := isDirectory_of_reachable hn hf hr
  have hthere : d.makeDir (pathOf dir) = .error .alreadyThere := by
    cases dir using List.reverseRecOn with
    | nil => exact makeDir_root d
    | append_singleton names s =>
      rw [makeDir_eq]
      refine makeNode_of_node? hn hf (fun above hp => hr above ?_) ?_
      · exact hp.trans (List.prefix_append _ _)
      · simp [hr _ List.prefix_rfl]
  have hup : ∃ above, upwards dir = dir :: above := by
    cases dir using List.reverseRecOn with
    | nil => exact ⟨[], rfl⟩
    | append_singleton names s => exact ⟨_, upwards_concat names s⟩
  obtain ⟨above, hup⟩ := hup
  unfold makeDirs
  rw [Path.ancestors_pathOf hn, hup, List.map_cons, makeDirsUp,
    if_neg (by simpa using text_pathOf_ne_empty _), hthere]
  dsimp only
  rw [if_pos hdir]

end BuildLayout.Disk
