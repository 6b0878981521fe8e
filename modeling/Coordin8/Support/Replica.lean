import Coordin8.Support.DashMap

/-!
# Filtered replicas of a map

A replica holds, under the same keys, an image of the entries of a map that
satisfy a predicate.  It follows the map from its changes alone, when the
changes are filtered by the value they carry: a removal carries the value that
is removed, and an entry that satisfies the predicate must not be replaced by
one that does not.
-/

namespace Coordin8.Support

variable {K V W : Type*} [Ord K] [Std.TransOrd K]

/-- The images of the entries that satisfy `p`, in the order of an iteration. -/
def Iteration.select (it : Iteration K V) (p : V → Bool) (f : V → W)
    (m : DashMap K V) : List W :=
  (((it.entries m).map Prod.snd).filter p).map f

theorem Iteration.mem_select [Std.LawfulEqOrd K] (it : Iteration K V)
    {p : V → Bool} {f : V → W} {m : DashMap K V} {w : W} :
    w ∈ it.select p f m ↔
      ∃ (k : K) (v : V), m[k]? = some v ∧ p v = true ∧ f v = w := by
  simp only [select, List.mem_map, List.mem_filter, Prod.exists,
    exists_eq_right, it.mem_entries]
  constructor
  · rintro ⟨v, ⟨⟨k, hget⟩, hv⟩, hw⟩
    exact ⟨k, v, hget, hv, hw⟩
  · rintro ⟨k, v, hget, hv, hw⟩
    exact ⟨v, ⟨⟨k, hget⟩, hv⟩, hw⟩

/-- Images that show the key of their entry are selected once. -/
theorem Iteration.nodup_keys_select [Std.LawfulEqOrd K] (it : Iteration K V)
    {p : V → Bool} {f : V → W} {m : DashMap K V} {key : W → K}
    (hkey : ∀ (k : K) (v : V), m[k]? = some v → key (f v) = k) :
    ((it.select p f m).map key).Nodup := by
  have hentries : ((it.entries m).map Prod.snd).map (key ∘ f) =
      (it.entries m).map Prod.fst := by
    rw [List.map_map]
    apply List.map_congr_left
    intro e he
    exact hkey e.1 e.2 (it.mem_entries.mp he)
  have hsub : ((it.select p f m).map key).Sublist
      (((it.entries m).map Prod.snd).map (key ∘ f)) := by
    rw [select, List.map_map]
    exact List.filter_sublist.map (key ∘ f)
  rw [hentries] at hsub
  exact (it.nodup_keys m).sublist hsub

/-- The replica shows the entries of `m` that satisfy `p`, through `f`. -/
def Mirrors (p : V → Bool) (f : V → W) (m : DashMap K V)
    (replica : DashMap K W) : Prop :=
  ∀ k : K, replica[k]? = (m[k]?.filter p).map f

namespace Mirrors

variable {p : V → Bool} {f : V → W} {m : DashMap K V} {replica : DashMap K W}
  {k : K} {v : V}

theorem get_eq_some (h : Mirrors p f m replica) {w : W} :
    replica[k]? = some w ↔ ∃ v, m[k]? = some v ∧ p v = true ∧ f v = w := by
  rw [h k]
  simp [Option.filter_eq_some_iff, and_assoc]

variable [Std.LawfulEqOrd K]

/-- The replica holds what a selection from the map returns. -/
theorem values_eq (h : Mirrors p f m replica) (it : Iteration K V) :
    DashMap.values replica = (it.select p f m : List W) := by
  have hkeys : (((it.entries m).filter fun e => p e.2).map Prod.fst).Nodup :=
    (it.nodup_keys m).sublist (List.filter_sublist.map Prod.fst)
  have hnodup : (((it.entries m).filter fun e => p e.2).map
      fun e => (e.1, f e.2)).Nodup := by
    apply List.Nodup.of_map Prod.fst
    rw [List.map_map]
    exact hkeys
  have hperm : replica.toList.Perm (((it.entries m).filter fun e => p e.2).map
      fun e => (e.1, f e.2)) := by
    rw [List.perm_ext_iff_of_nodup (DashMap.nodup_toList replica) hnodup]
    rintro ⟨k, w⟩
    rw [Std.ExtTreeMap.mem_toList_iff_getElem?_eq_some, h.get_eq_some]
    simp only [List.mem_map, List.mem_filter, Prod.exists, Prod.mk.injEq,
      it.mem_entries]
    constructor
    · rintro ⟨v, hget, hv, hw⟩
      exact ⟨k, v, ⟨hget, hv⟩, rfl, hw⟩
    · rintro ⟨k', v, ⟨hget, hv⟩, rfl, hw⟩
      exact ⟨v, hget, hv, hw⟩
  have hvalues := hperm.map Prod.snd
  rw [List.map_map] at hvalues
  rw [Iteration.select, List.filter_map, List.map_map]
  exact Multiset.coe_eq_coe.mpr hvalues

theorem ofSelect [DecidableEq K] (key : W → K)
    (hkey : ∀ (k : K) (v : V), m[k]? = some v → key (f v) = k)
    (it : Iteration K V) :
    Mirrors p f m (DashMap.insertAll key id ∅ (it.select p f m)) := by
  intro k
  refine Option.ext fun w => ?_
  rw [DashMap.get_insertAll_eq_some (it.nodup_keys_select hkey)]
  simp only [it.mem_select, Option.map_eq_some_iff, Option.filter_eq_some_iff]
  constructor
  · rintro (⟨x, ⟨k', v, hget, hv, rfl⟩, hk, rfl⟩ | ⟨-, hempty⟩)
    · obtain rfl : k' = k := (hkey k' v hget).symm.trans hk
      exact ⟨v, ⟨hget, hv⟩, rfl⟩
    · simp at hempty
  · rintro ⟨v, ⟨hget, hv⟩, rfl⟩
    exact .inl ⟨f v, ⟨k, v, hget, hv, rfl⟩, hkey k v hget, rfl⟩

variable [DecidableEq K]

theorem insert (h : Mirrors p f m replica)
    (hkeep : ∀ old, m[k]? = some old → p old = true → p v = true) :
    Mirrors p f (m.insert k v)
      (if p v then replica.insert k (f v) else replica) := by
  intro a
  rw [DashMap.get_insert]
  by_cases ha : k = a
  · subst ha
    by_cases hv : p v = true
    · simp [hv]
    · have hold : m[k]?.filter p = none := by
        rw [Option.filter_eq_none_iff]
        intro old hget hp
        exact hv (hkeep old hget hp)
      simp [hv, h k, hold]
  · by_cases hv : p v = true
    · simp [hv, DashMap.get_insert, ha, h a]
    · simp [hv, ha, h a]

theorem erase (h : Mirrors p f m replica) (hget : m[k]? = some v) :
    Mirrors p f (m.erase k) (if p v then replica.erase k else replica) := by
  intro a
  rw [DashMap.get_erase]
  by_cases ha : k = a
  · subst ha
    by_cases hv : p v = true
    · simp [hv]
    · simp [hv, h k, hget]
  · by_cases hv : p v = true
    · simp [hv, DashMap.get_erase, ha, h a]
    · simp [hv, ha, h a]

end Mirrors

end Coordin8.Support
