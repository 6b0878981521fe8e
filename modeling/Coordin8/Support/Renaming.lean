import Coordin8.Support.DashMap
import Mathlib.Logic.Equiv.Basic

/-!
# Maps under another name

`rename g f m` is the map `m` with its keys renamed by a permutation `g` and
its values by `f`.  The operations of a map commute with it, and an iteration
can be carried over so that it visits the same entries in the same order.
-/

namespace Coordin8.Support

variable {K V : Type*} [Ord K] [Std.TransOrd K] [Std.LawfulEqOrd K]
  [DecidableEq K]

namespace DashMap

def rename (g : Equiv.Perm K) (f : V → V) (m : DashMap K V) : DashMap K V :=
  insertAll (fun e => g e.1) (fun e => f e.2) ∅ m.toList

variable (g : Equiv.Perm K) (f : V → V) (m : DashMap K V)

omit [DecidableEq K] in
theorem nodup_renamed_keys : (m.toList.map fun e => g e.1).Nodup := by
  have hnodup := (nodup_keys_toList m).map g.injective
  rwa [List.map_map] at hnodup

theorem get_rename (k : K) : (rename g f m)[g k]? = m[k]?.map f := by
  refine Option.ext fun v => ?_
  rw [rename, get_insertAll_eq_some (nodup_renamed_keys g m)]
  constructor
  · rintro (⟨⟨k', v'⟩, hmem, hkey, rfl⟩ | ⟨-, hempty⟩)
    · obtain rfl := g.injective hkey
      rw [Std.ExtTreeMap.mem_toList_iff_getElem?_eq_some.mp hmem]
      rfl
    · simp at hempty
  · intro hv
    obtain ⟨v', hget, rfl⟩ := Option.map_eq_some_iff.mp hv
    exact .inl ⟨(k, v'),
      Std.ExtTreeMap.mem_toList_iff_getElem?_eq_some.mpr hget, rfl, rfl⟩

omit [DecidableEq K] in
/-- Two maps are equal when they agree at every renamed key. -/
theorem ext_renamed {m₁ m₂ : DashMap K V}
    (h : ∀ k, m₁[g k]? = m₂[g k]?) : m₁ = m₂ := by
  refine Std.ExtTreeMap.ext_getElem? fun k => ?_
  simpa using h (g.symm k)

theorem rename_insert (k : K) (v : V) :
    rename g f (m.insert k v) = (rename g f m).insert (g k) (f v) := by
  refine ext_renamed g fun k' => ?_
  rw [get_rename, get_insert, get_insert, get_rename]
  simp only [g.injective.eq_iff]
  split <;> rfl

theorem rename_erase (k : K) :
    rename g f (m.erase k) = (rename g f m).erase (g k) := by
  refine ext_renamed g fun k' => ?_
  rw [get_rename, get_erase, get_erase, get_rename]
  simp only [g.injective.eq_iff]
  split <;> rfl

theorem contains_rename (k : K) :
    (rename g f m).contains (g k) = m.contains k := by
  rw [Std.ExtTreeMap.contains_eq_isSome_getElem?,
    Std.ExtTreeMap.contains_eq_isSome_getElem?, get_rename, Option.isSome_map]

theorem rename_filter {p : V → Bool} (hp : ∀ v, p (f v) = p v) :
    rename g f (m.filter fun _ v => p v) =
      (rename g f m).filter fun _ v => p v := by
  refine ext_renamed g fun k => ?_
  rw [get_rename, Std.ExtTreeMap.getElem?_filter',
    Std.ExtTreeMap.getElem?_filter', get_rename]
  cases m[k]? with
  | none => rfl
  | some v =>
      rw [Option.map_some, Option.filter_some, Option.filter_some, hp]
      split <;> rfl

theorem toList_rename :
    (rename g f m).toList.Perm (m.toList.map fun e => (g e.1, f e.2)) := by
  refine (List.perm_ext_iff_of_nodup (nodup_toList _) ?_).mpr fun e => ?_
  · refine List.Nodup.of_map Prod.fst ?_
    rw [List.map_map]
    exact nodup_renamed_keys g m
  · obtain ⟨k, v⟩ := e
    obtain ⟨k, rfl⟩ := g.surjective k
    rw [Std.ExtTreeMap.mem_toList_iff_getElem?_eq_some, get_rename,
      Option.map_eq_some_iff]
    constructor
    · rintro ⟨v', hget, rfl⟩
      exact List.mem_map.mpr ⟨(k, v'),
        Std.ExtTreeMap.mem_toList_iff_getElem?_eq_some.mpr hget, rfl⟩
    · intro hmem
      obtain ⟨⟨k', v'⟩, hmem', heq⟩ := List.mem_map.mp hmem
      obtain ⟨hkey, rfl⟩ := Prod.mk.inj heq
      obtain rfl := g.injective hkey
      exact ⟨v', Std.ExtTreeMap.mem_toList_iff_getElem?_eq_some.mp hmem', rfl⟩

theorem rename_symm {f' : V → V} (hf : ∀ v, f' (f v) = v) :
    rename g.symm f' (rename g f m) = m := by
  refine ext_renamed g.symm fun k => ?_
  rw [get_rename]
  obtain ⟨k, rfl⟩ := g.surjective k
  rw [get_rename, Option.map_map, Equiv.symm_apply_apply]
  cases m[k]? with
  | none => rfl
  | some v => simp [hf]

end DashMap

namespace Iteration

/-- The iteration of renamed maps that visits the entries in the same order. -/
def rename (g : Equiv.Perm K) (f : Equiv.Perm V) (it : Iteration K V) :
    Iteration K V where
  entries m :=
    (it.entries (DashMap.rename g.symm f.symm m)).map fun e => (g e.1, f e.2)
  perm m := by
    have hback : DashMap.rename g f (DashMap.rename g.symm f.symm m) = m :=
      DashMap.rename_symm g.symm f.symm m f.apply_symm_apply
    refine ((it.perm _).map _).trans ?_
    refine (DashMap.toList_rename g f _).symm.trans ?_
    rw [hback]

theorem entries_rename (g : Equiv.Perm K) (f : Equiv.Perm V)
    (it : Iteration K V) (m : DashMap K V) :
    (it.rename g f).entries (DashMap.rename g f m) =
      (it.entries m).map fun e => (g e.1, f e.2) := by
  simp only [rename, DashMap.rename_symm g f m f.symm_apply_apply]

end Iteration

end Coordin8.Support
