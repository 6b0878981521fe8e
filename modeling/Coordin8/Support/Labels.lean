import Mathlib.Data.List.Basic

/-!
# Texts cut at a separator

`List.splitOn` cuts a text into its labels and `List.intercalate` joins them
again.  A text has the labels of another one at its end exactly if it ends with
the separator and that text.
-/

namespace Coordin8.Support

variable {α : Type*}

theorem intercalate_append {sep : List α} {front back : List (List α)}
    (hfront : front ≠ []) (hback : back ≠ []) :
    sep.intercalate (front ++ back) =
      sep.intercalate front ++ sep ++ sep.intercalate back := by
  induction front with
  | nil => exact absurd rfl hfront
  | cons label front ih =>
      cases front with
      | nil =>
          rw [List.singleton_append, List.intercalate_cons_of_ne_nil hback,
            List.intercalate_singleton]
      | cons label' front =>
          rw [List.cons_append, List.intercalate_cons_of_ne_nil (by simp),
            ih (by simp), List.intercalate_cons_cons]
          simp only [List.append_assoc]

theorem mem_intercalate {sep : List α} {labels : List (List α)} {x : α}
    (h : x ∈ sep.intercalate labels) :
    x ∈ sep ∨ ∃ label ∈ labels, x ∈ label := by
  induction labels with
  | nil => cases h
  | cons label labels ih =>
      cases labels with
      | nil => exact .inr ⟨label, by simp, by simpa using h⟩
      | cons label' labels =>
          rw [List.intercalate_cons_cons, List.mem_append, List.mem_append] at h
          rcases h with (h | h) | h
          · exact .inr ⟨label, List.mem_cons_self, h⟩
          · exact .inl h
          · refine (ih h).imp_right ?_
            rintro ⟨l, hl, hx⟩
            exact ⟨l, List.mem_cons_of_mem _ hl, hx⟩

variable [BEq α] [LawfulBEq α] {c : α}

/-- A map that sends only the separator to itself cuts a text at the same
places. -/
theorem splitOn_map {f : α → α} (hf : ∀ x, f x = c ↔ x = c) (xs : List α) :
    (xs.map f).splitOn c = (xs.splitOn c).map (List.map f) := by
  induction xs with
  | nil => rfl
  | cons x xs ih =>
      rw [List.map_cons, List.splitOn_cons_eq_if_modifyHead,
        List.splitOn_cons_eq_if_modifyHead, ih]
      by_cases hx : x = c
      · simp [hx, (hf c).mpr rfl]
      · have hfx : f x ≠ c := mt (hf x).mp hx
        obtain ⟨label, rest, hsplit⟩ :=
          List.exists_cons_of_ne_nil (List.splitOn_ne_nil c xs)
        simp [hx, hfx, hsplit]

/-- The labels of `ys` are the last ones of `xs`, after at least one other,
exactly if `xs` ends with the separator and `ys`. -/
theorem exists_splitOn_eq_append_iff {xs ys : List α} :
    (∃ front ≠ [], xs.splitOn c = front ++ ys.splitOn c) ↔
      ∃ front, xs = front ++ c :: ys := by
  constructor
  · rintro ⟨front, hne, heq⟩
    refine ⟨[c].intercalate front, ?_⟩
    calc
      xs = [c].intercalate (xs.splitOn c) := (List.intercalate_splitOn c).symm
      _ = [c].intercalate front ++ [c] ++ [c].intercalate (ys.splitOn c) := by
          rw [heq, intercalate_append hne (List.splitOn_ne_nil c ys)]
      _ = [c].intercalate front ++ c :: ys := by
          rw [List.intercalate_splitOn, List.append_assoc, List.singleton_append]
  · rintro ⟨front, rfl⟩
    exact ⟨front.splitOn c, List.splitOn_ne_nil c front,
      List.splitOn_append_cons_self front ys⟩

end Coordin8.Support
