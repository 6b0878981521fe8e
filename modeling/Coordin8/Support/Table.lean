import Coordin8.Support.DashMap

/-!
# Tables read page by page

A table is a finite map that is listed in some order of its keys.  A reader asks
for the rows after a key and is given a page: as many rows as the other side
likes, at least one if there are any, with the last key of the page when there
may be more.  The rows of all pages together are the rows of the table.
-/

namespace Coordin8.Support

/-- An order of the keys, and a listing of every map in that order. -/
structure Listing (K V : Type*) [Ord K] [Std.TransOrd K] extends
    Iteration K V where
  cmp : K → K → Ordering
  trans : Std.TransCmp cmp
  sorted : ∀ m, (entries m).Pairwise fun a b => cmp a.1 b.1 = .lt

namespace Listing

variable {K V : Type*} [Ord K] [Std.TransOrd K]

/-- The listing in the order of the keys themselves. -/
def byKey : Listing K V where
  toIteration := .sorted
  cmp := compare
  trans := inferInstance
  sorted _ := Std.ExtTreeMap.ordered_keys_toList

/-- The rows that satisfy `p`, in order, from a key on. -/
def rowsAfter (order : Listing K V) (p : K × V → Bool) (start : Option K)
    (m : DashMap K V) : List (K × V) :=
  match start with
  | none => (order.entries m).filter p
  | some k => ((order.entries m).filter p).filter fun e => order.cmp k e.1 == .lt

variable (order : Listing K V) {p : K × V → Bool} {start : Option K}
  {m : DashMap K V}

theorem rowsAfter_sorted :
    (order.rowsAfter p start m).Pairwise fun a b => order.cmp a.1 b.1 = .lt := by
  have hsorted := (order.sorted m).filter p
  cases start with
  | none => exact hsorted
  | some k => exact hsorted.filter _

theorem rowsAfter_eq {rows : List (K × V)}
    (hsorted : rows.Pairwise fun a b => order.cmp a.1 b.1 = .lt)
    (hmem : ∀ e, e ∈ order.rowsAfter p start m ↔ e ∈ rows) :
    order.rowsAfter p start m = rows := by
  have htrans := order.trans
  have hasymm : ∀ a b : K × V, order.cmp a.1 b.1 = .lt →
      order.cmp b.1 a.1 ≠ .lt := by
    intro a b hab
    rw [Std.OrientedCmp.gt_of_lt hab]
    decide
  have hnodup : ∀ {l : List (K × V)},
      (l.Pairwise fun a b => order.cmp a.1 b.1 = .lt) → l.Nodup := by
    intro l hl
    refine hl.imp ?_
    rintro a b hab rfl
    exact hasymm a a hab hab
  exact List.Perm.eq_of_pairwise
    (fun a b _ _ hab hba => absurd hba (hasymm a b hab))
    order.rowsAfter_sorted hsorted
    ((List.perm_ext_iff_of_nodup (hnodup order.rowsAfter_sorted)
      (hnodup hsorted)).mpr hmem)

theorem filter_above {before rest : List (K × V)} {e : K × V}
    (h : (before ++ e :: rest).Pairwise fun a b => order.cmp a.1 b.1 = .lt) :
    (before ++ e :: rest).filter (fun a => order.cmp e.1 a.1 == .lt) = rest := by
  have htrans := order.trans
  obtain ⟨-, hrest, hbefore⟩ := List.pairwise_append.mp h
  obtain ⟨hafter, -⟩ := List.pairwise_cons.mp hrest
  have hnone : before.filter (fun a => order.cmp e.1 a.1 == .lt) = [] := by
    rw [List.filter_eq_nil_iff]
    intro a ha
    have hgt := Std.OrientedCmp.gt_of_lt (hbefore a ha e List.mem_cons_self)
    simp [hgt]
  have hself : order.cmp e.1 e.1 = .eq := Std.ReflCmp.compare_self
  have hall : rest.filter (fun a => order.cmp e.1 a.1 == .lt) = rest := by
    rw [List.filter_eq_self]
    intro a ha
    simp [hafter a ha]
  rw [List.filter_append, hnone, List.nil_append,
    List.filter_cons_of_neg (by simp [hself]), hall]

/-- After the last key of a page come the rows that the page left out. -/
theorem rowsAfter_of_append {shown rest : List (K × V)} {e : K × V}
    (h : order.rowsAfter p start m = shown ++ e :: rest) :
    order.rowsAfter p (some e.1) m = rest := by
  have htrans := order.trans
  have habove : (order.rowsAfter p start m).filter
      (fun a => order.cmp e.1 a.1 == .lt) = rest := by
    rw [h]
    exact order.filter_above (h ▸ order.rowsAfter_sorted)
  rw [← habove]
  cases start with
  | none => rfl
  | some k =>
      -- What is above `e` is above `k`.
      have he : order.cmp k e.1 = .lt := by
        have hmem : e ∈ order.rowsAfter p (some k) m := by simp [h]
        simpa using (List.mem_filter.mp hmem).2
      simp only [rowsAfter]
      generalize (order.entries m).filter p = all
      rw [List.filter_filter]
      refine List.filter_congr fun a _ => ?_
      by_cases ha : order.cmp e.1 a.1 = .lt
      · simp [ha, Std.TransCmp.lt_trans he ha]
      · simp [ha]

/-- What a page of the rows from a key on may show: some of the rows, in order
and not more than `limit`, and a key after which come the rows left out.
Without a key, no row is left out. -/
structure Shows (p : K × V → Bool) (m : DashMap K V) (start : Option K)
    (limit : Option Nat) (shown : List (K × V)) (lastKey : Option K) : Prop where
  length_le : ∀ n, limit = some n → shown.length ≤ n
  rows : order.rowsAfter p start m = shown ++
    match lastKey with
    | none => []
    | some k => order.rowsAfter p (some k) m

end Listing

/-! ## Pages -/

/-- How the other side cuts a page: one row more than `count` at most, and a
last key even when nothing follows if `more` is set. -/
structure Cut where
  count : Nat
  more : Bool
deriving DecidableEq, Repr

namespace Cut

variable {K V : Type*}

/-- The number of rows looked at for one page. -/
def size (cut : Cut) (limit : Option Nat) : Nat :=
  match limit with
  | none => cut.count + 1
  | some n => min (cut.count + 1) n

/-- A page of the rows, and the key to go on from. -/
def page (cut : Cut) (limit : Option Nat) (rows : List (K × V)) :
    List (K × V) × Option K :=
  let shown := rows.take (cut.size limit)
  (shown,
    if cut.size limit < rows.length ∨ cut.more then
      shown.getLast?.map Prod.fst
    else
      none)

variable {cut : Cut} {limit : Option Nat} {rows shown : List (K × V)}

theorem shown_of_page_none (hlimit : limit ≠ some 0)
    (h : cut.page limit rows = (shown, none)) : shown = rows := by
  have hpos : 0 < cut.size limit := by
    cases limit with
    | none => simp [size]
    | some n =>
        have hn : n ≠ 0 := fun h0 => hlimit (congrArg some h0)
        simp only [size]
        omega
  obtain ⟨rfl, hlast⟩ := Prod.mk.inj h
  by_cases hfits : rows.length ≤ cut.size limit
  · exact List.take_of_length_le hfits
  · rw [if_pos (Or.inl (by omega))] at hlast
    have hnil : rows.take (cut.size limit) = [] := by
      simpa [List.getLast?_eq_none_iff] using hlast
    have hlength := congrArg List.length hnil
    rw [List.length_take, List.length_nil] at hlength
    omega

theorem rows_of_page_some {k : K} (h : cut.page limit rows = (shown, some k)) :
    ∃ before e rest, shown = before ++ [e] ∧ e.1 = k ∧
      rows = before ++ e :: rest := by
  obtain ⟨rfl, hlast⟩ := Prod.mk.inj h
  split at hlast
  · obtain ⟨e, he, rfl⟩ := Option.map_eq_some_iff.mp hlast
    obtain ⟨before, hbefore⟩ := List.getLast?_eq_some_iff.mp he
    refine ⟨before, e, rows.drop (cut.size limit), hbefore, rfl, ?_⟩
    calc rows = rows.take (cut.size limit) ++ rows.drop (cut.size limit) :=
          (List.take_append_drop _ _).symm
      _ = before ++ e :: rows.drop (cut.size limit) := by
          rw [hbefore, List.append_assoc, List.singleton_append]
  · cases hlast

theorem length_page_le {n : Nat} {last : Option K}
    (h : cut.page (some n) rows = (shown, last)) : shown.length ≤ n := by
  obtain ⟨rfl, -⟩ := Prod.mk.inj h
  rw [List.length_take]
  exact (min_le_left _ _).trans (min_le_right _ _)

/-- A page that was cut shows what a page may show, and it is not empty when it
has a key to go on from. -/
theorem shows_page [Ord K] [Std.TransOrd K] {order : Listing K V}
    {p : K × V → Bool} {m : DashMap K V} {start last : Option K}
    (hlimit : limit ≠ some 0)
    (h : cut.page limit (order.rowsAfter p start m) = (shown, last)) :
    order.Shows p m start limit shown last ∧ (last.isSome → shown ≠ []) := by
  have hlength : ∀ n, limit = some n → shown.length ≤ n := by
    rintro n rfl
    exact length_page_le h
  cases last with
  | none =>
      refine ⟨⟨hlength, ?_⟩, by simp⟩
      rw [List.append_nil, shown_of_page_none hlimit h]
  | some k =>
      obtain ⟨before, e, rest, rfl, rfl, hrows⟩ := rows_of_page_some h
      refine ⟨⟨hlength, ?_⟩, by simp⟩
      simp only [order.rowsAfter_of_append hrows]
      rw [hrows, List.append_assoc, List.singleton_append]

end Cut

end Coordin8.Support
