import Mathlib.Data.List.Induction

/-!
# Reading numbered entries in order

A reader goes through entries that are numbered from one, page by page: it asks
for the first few entries above the last number it has read.  Entries come and
go meanwhile.  `InOrder due ns` says that the numbers read so far grow and leave
out nothing that is due; it stays true when the reader reads on, and when a new
entry gets a number above those read.
-/

namespace Coordin8.Support

/-- The last of some numbers, zero when there are none. -/
def lastNum (ns : List Nat) : Nat :=
  ns.getLast?.getD 0

/-- The first `k` rows above `c`. -/
def page (c k : Nat) (rows : List Nat) : List Nat :=
  (rows.filter fun n => c < n).take k

/-- The numbers read so far grow, and skip nothing that is due. -/
structure InOrder (due : Nat → Prop) (ns : List Nat) : Prop where
  sorted : ns.Pairwise (· < ·)
  complete : ∀ n, due n → n ≤ lastNum ns → n ∈ ns

section Last

variable {ns ms : List Nat} {n : Nat}

@[simp] theorem lastNum_nil : lastNum [] = 0 := rfl

@[simp] theorem lastNum_append_singleton : lastNum (ns ++ [n]) = n := by
  simp [lastNum]

theorem lastNum_append (hms : ms ≠ []) : lastNum (ns ++ ms) = lastNum ms := by
  simp [lastNum, List.getLast?_append, List.getLast?_eq_some_getLast hms]

theorem lastNum_mem_or : lastNum ns ∈ ns ∨ lastNum ns = 0 := by
  unfold lastNum
  cases hlast : ns.getLast? with
  | none => exact Or.inr rfl
  | some n => exact Or.inl (List.mem_of_getLast? hlast)

theorem le_lastNum (hsorted : ns.Pairwise (· < ·)) (hn : n ∈ ns) :
    n ≤ lastNum ns := by
  induction ns using List.reverseRecOn with
  | nil => cases hn
  | append_singleton ns m _ =>
      rw [lastNum_append_singleton]
      rcases List.mem_append.mp hn with hn | hn
      · exact Nat.le_of_lt ((List.pairwise_append.mp hsorted).2.2 n hn m
          (List.mem_singleton.mpr rfl))
      · exact Nat.le_of_eq (List.mem_singleton.mp hn)

end Last

namespace InOrder

variable {due due' : Nat → Prop} {ns ms : List Nat} {n last : Nat}

theorem nil (hpos : ∀ n, due n → 0 < n) : InOrder due [] := by
  refine ⟨List.Pairwise.nil, fun n hn hle => ?_⟩
  exact absurd (hpos n hn) (Nat.not_lt.mpr hle)

theorem mono (h : InOrder due ns)
    (hdue : ∀ n, n ≤ lastNum ns → due' n → due n) : InOrder due' ns :=
  ⟨h.sorted, fun n hn hle => h.complete n (hdue n hle hn) hle⟩

theorem append (h : InOrder due ns) (hsorted : ms.Pairwise (· < ·))
    (hgt : ∀ n ∈ ms, lastNum ns < n)
    (hall : ∀ n, due n → lastNum ns < n → n ≤ lastNum ms → n ∈ ms) :
    InOrder due (ns ++ ms) := by
  constructor
  · refine List.pairwise_append.mpr ⟨h.sorted, hsorted, ?_⟩
    intro n hn m hm
    exact Nat.lt_of_le_of_lt (le_lastNum h.sorted hn) (hgt m hm)
  · intro n hn hle
    by_cases hold : n ≤ lastNum ns
    · exact List.mem_append_left _ (h.complete n hn hold)
    · by_cases hms : ms = []
      · rw [hms, List.append_nil] at hle
        exact absurd hle hold
      · rw [lastNum_append hms] at hle
        exact List.mem_append_right _ (hall n hn (Nat.lt_of_not_le hold) hle)

/-- Nothing due at or before a number that was passed on has been skipped, even
when some of what was read is still to be passed on. -/
theorem mem_of_le (h : InOrder due (ns ++ ms)) (hlast : ns.getLast? = some last)
    (hn : due n) (hle : n ≤ last) : n ∈ ns := by
  obtain ⟨-, -, hlt⟩ := List.pairwise_append.mp h.sorted
  have hmem := List.mem_of_getLast? hlast
  have hle' : n ≤ lastNum (ns ++ ms) :=
    Nat.le_trans hle (le_lastNum h.sorted (List.mem_append_left _ hmem))
  rcases List.mem_append.mp (h.complete n hn hle') with hns | hms
  · exact hns
  · exact absurd (hlt last hmem n hms) (Nat.not_lt.mpr hle)

end InOrder

section Page

variable {c k n : Nat} {rows : List Nat}

theorem page_sorted (hrows : rows.Pairwise (· < ·)) :
    (page c k rows).Pairwise (· < ·) :=
  (hrows.filter _).take

theorem mem_page (hn : n ∈ page c k rows) : n ∈ rows ∧ c < n := by
  have hmem := List.mem_filter.mp (List.mem_of_mem_take hn)
  exact ⟨hmem.1, of_decide_eq_true hmem.2⟩

/-- A page leaves out nothing below its last row. -/
theorem page_complete (hrows : rows.Pairwise (· < ·)) (hn : n ∈ rows)
    (hc : c < n) (hle : n ≤ lastNum (page c k rows)) : n ∈ page c k rows := by
  have hmem : n ∈ rows.filter fun n => c < n :=
    List.mem_filter.mpr ⟨hn, decide_eq_true hc⟩
  have hsorted := hrows.filter fun n => c < n
  unfold page at hle ⊢
  generalize rows.filter (fun n => c < n) = all at hmem hsorted hle
  rw [← List.take_append_drop k all] at hmem hsorted
  have hcases : lastNum (all.take k) ∈ all.take k ∨ lastNum (all.take k) = 0 :=
    lastNum_mem_or
  rcases List.mem_append.mp hmem with htake | hdrop
  · exact htake
  · rcases hcases with hlast | hlast
    · have hlt := (List.pairwise_append.mp hsorted).2.2 _ hlast n hdrop
      exact absurd hlt (Nat.not_lt.mpr hle)
    · omega

theorem le_of_page_eq_nil (hk : 0 < k) (hpage : page c k rows = [])
    (hn : n ∈ rows) : n ≤ c := by
  by_contra hgt
  have hmem : n ∈ rows.filter fun n => c < n :=
    List.mem_filter.mpr ⟨hn, decide_eq_true (Nat.lt_of_not_le hgt)⟩
  rcases List.take_eq_nil_iff.mp hpage with hzero | hnil
  · omega
  · rw [hnil] at hmem
    cases hmem

end Page

end Coordin8.Support
