import BuildLayout.Proofs.Path.Normal

/-!
# Resolving step by step

Normal forms are put one behind the other in any grouping (`Normal.append_assoc`), because a path
may be replayed from an intermediate place on or joined first (`Normal.foldl_step_foldl`). So it
does not matter whether a path is resolved against a base in one step or in two, nor which of the
two is normalized before (`resolveAgainst_join`).
-/

namespace BuildLayout.Path

theorem Normal.foldl_steps_absolute (m n : Normal) :
    (m.steps.foldl step n).absolute = n.absolute := by
  rw [foldl_step_absolute]
  simp [root_not_mem_steps]

/-- A normal form behind another one starts at the root when one of them does. -/
theorem Normal.append_absolute (base n : Normal) :
    (base.append n).absolute = (base.absolute || n.absolute) := by
  unfold append
  cases hn : n.absolute with
  | true => rw [if_pos rfl, hn, Bool.or_true]
  | false => rw [if_neg Bool.false_ne_true, foldl_steps_absolute, Bool.or_false]

/-- **Normal forms are put one behind the other** in any grouping. -/
theorem Normal.append_assoc (base m n : Normal) :
    (base.append m).append n = base.append (m.append n) := by
  have hrooted : ∀ {k n : Normal}, n.absolute → k.append n = n := fun h => if_pos h
  have hrelative : ∀ {k n : Normal}, n.absolute = false → k.append n = n.steps.foldl step k :=
    fun h => if_neg (Bool.eq_false_iff.1 h)
  have hmn := append_absolute m n
  cases hn : n.absolute with
  | true => rw [hrooted hn, hrooted hn, hrooted hn]
  | false =>
    cases hm : m.absolute with
    | true => rw [hrooted hm, hrooted (hmn.trans (by rw [hm, Bool.true_or]))]
    | false =>
      rw [hrelative (n := m.append n) (by rw [hmn, hm, hn]; rfl), hrelative hn, hrelative hn,
        hrelative hm, foldl_step_foldl n.root_not_mem_steps hm]

end BuildLayout.Path
