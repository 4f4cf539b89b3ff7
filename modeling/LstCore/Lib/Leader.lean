import Mathlib.Data.List.MinMax

/-!
# The first greatest element of a list

A search that keeps its leader until a greater element comes ends with the greatest, and of those
that are as great with the one in front (`argmax_first`).
-/

namespace LstCore.Lib

universe u v

variable {α : Type u} {β : Type v} [LinearOrder β] {f : α → β} {l : List α} {m a : α}

/-- One more element takes the lead when it is greater. -/
theorem argmax_snoc (f : α → β) (l : List α) (a : α) : (l ++ [a]).argmax f =
    match l.argmax f with
    | none => some a
    | some m => if f m < f a then some a else some m := by
  rw [List.argmax_concat]
  cases l.argmax f <;> rfl

/-- **Nobody in front is as great.** -/
theorem argmax_first [DecidableEq α] {r : α → α → Prop} (hs : l.Pairwise r)
    (h : l.argmax f = some m) (ha : a ∈ l) (hf : f m ≤ f a) : m = a ∨ r m a := by
  obtain ⟨hm, -, hfirst⟩ := List.argmax_eq_some_iff.1 h
  have hidx := hfirst a ha hf
  have him := List.getElem_idxOf (List.idxOf_lt_length_iff.2 hm)
  have hia := List.getElem_idxOf (List.idxOf_lt_length_iff.2 ha)
  rcases hidx.lt_or_eq with hlt | heq
  · have := List.pairwise_iff_getElem.1 hs _ _ (List.idxOf_lt_length_iff.2 hm)
      (List.idxOf_lt_length_iff.2 ha) hlt
    rw [him, hia] at this
    exact .inr this
  · simp only [heq] at him
    exact .inl (him.symm.trans hia)

end LstCore.Lib
