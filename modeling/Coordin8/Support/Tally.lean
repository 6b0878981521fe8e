import Coordin8.Support.DashMap
import Mathlib.Data.List.Count
import Mathlib.Data.List.Induction

/-!
# Counters by key

A map of counters from which numbers are drawn: the counter of a key starts at
zero with its first draw, and each draw gives the next number.  After any
sequence of draws the counter of a key is the number of draws for it, so a
history in which everything has the number drawn for its key numbers each key
`1, 2, 3, …`.
-/

namespace Coordin8.Support

section Counters

variable {K : Type*} [Ord K] [Std.TransOrd K]

/-- The counters after a draw for `k`. -/
def drawNumber (m : DashMap K Nat) (k : K) : DashMap K Nat :=
  m.insert k (m.getD k 0 + 1)

/-- The counters after draws for all of `ks`, from none. -/
def tally (ks : List K) : DashMap K Nat :=
  ks.foldl drawNumber ∅

theorem tally_concat (ks : List K) (k : K) :
    tally (ks ++ [k]) = drawNumber (tally ks) k := by
  rw [tally, List.foldl_concat, tally]

variable [Std.LawfulEqOrd K] [DecidableEq K]

theorem get_draw (m : DashMap K Nat) (k a : K) :
    (drawNumber m k)[a]? = if k = a then some (m.getD k 0 + 1) else m[a]? :=
  DashMap.get_insert m k a _

/-- There is a counter for each key that was drawn for, and it counts the
draws. -/
theorem get_tally (ks : List K) (k : K) :
    (tally ks)[k]? = if k ∈ ks then some (ks.count k) else none := by
  induction ks using List.reverseRecOn generalizing k with
  | nil => simp [tally]
  | append_singleton ks a ih =>
      rw [tally_concat, get_draw, Std.ExtTreeMap.getD_eq_getD_getElem?, ih a]
      by_cases hak : a = k
      · subst hak
        by_cases ha : a ∈ ks
        · simp [ha]
        · simp [ha, List.count_eq_zero_of_not_mem ha]
      · have hne : k ≠ a := fun h => hak h.symm
        simp [hak, hne, ih k]

theorem getD_tally (ks : List K) (k : K) : (tally ks).getD k 0 = ks.count k := by
  rw [Std.ExtTreeMap.getD_eq_getD_getElem?, get_tally]
  split
  · rfl
  · next h => rw [List.count_eq_zero_of_not_mem h, Option.getD_none]

end Counters

/-! ## Numbered histories -/

section Numbered

variable {α K : Type*} [DecidableEq K] (key : α → K) (num : α → Nat)

/-- Everything in the history has the number drawn for its key. -/
def Numbered (xs : List α) : Prop :=
  ∀ pre x post, xs = pre ++ x :: post → num x = (pre.map key).count (key x) + 1

variable {key num}

/-- The numbers of one key are `1, 2, 3, …`. -/
theorem Numbered.map_filter {xs : List α} (h : Numbered key num xs) (k : K) :
    (xs.filter fun x => key x = k).map num =
      List.range' 1 ((xs.map key).count k) := by
  induction xs using List.reverseRecOn with
  | nil => rfl
  | append_singleton xs x ih =>
      have hxs : Numbered key num xs := fun pre y post heq =>
        h pre y (post ++ [x]) (by rw [heq, List.append_assoc, List.cons_append])
      have hx := h xs x [] rfl
      by_cases hk : key x = k
      · subst hk
        simp [ih hxs, hx, List.range'_concat, Nat.add_comm]
      · simp [ih hxs, hk]

end Numbered

end Coordin8.Support
