/-!
# What has not been seen yet

A search among finitely many things that sees no thing twice ends: each new thing makes the number of
unseen ones smaller (`unseen_cons_lt`).
-/

namespace CurryLisp

/-- Number of things in `all` that are not in `seen`. -/
def unseen {α : Type} [DecidableEq α] (all seen : List α) : Nat :=
  (all.filter fun a => a ∉ seen).length

theorem unseen_cons_lt {α : Type} [DecidableEq α] {all seen : List α} {a : α} (ha : a ∈ all)
    (hnew : a ∉ seen) : unseen all (a :: seen) < unseen all seen := by
  have hsplit : all.filter (fun b => b ∉ a :: seen) =
      (all.filter fun b => b ∉ seen).filter fun b => b ≠ a := by
    rw [List.filter_filter]
    congr 1
    funext b
    by_cases h : b = a <;> simp [h]
  unfold unseen
  rw [hsplit]
  exact List.length_filter_lt_length_iff_exists.2 ⟨a, by simp [ha, hnew], by simp⟩

end CurryLisp
