import Std.Data.ExtTreeMap
import Mathlib.Data.Multiset.Bind
import Mathlib.Data.List.Perm.Basic

/-!
# Finite maps with an arbitrary iteration order

A concurrent hash map is, between two calls, a finite map: two maps with the
same entries are equal, and nothing but the order of an iteration tells them
apart.  The map itself is the extensional tree map of the standard library.
What an iteration visits first is left open: an `Iteration` is any enumeration
of the entries.

The second half counts the values of a map as a multiset, which is what a
conservation law over several maps is stated in.
-/

namespace Coordin8.Support

/-- A finite map from `K` to `V`. -/
abbrev DashMap (K V : Type*) [Ord K] := Std.ExtTreeMap K V compare

/-- An order in which an iteration may visit the entries of a map. -/
structure Iteration (K V : Type*) [Ord K] [Std.TransOrd K] where
  entries : DashMap K V → List (K × V)
  perm : ∀ m, (entries m).Perm m.toList

namespace DashMap

variable {K V : Type*} [Ord K] [Std.TransOrd K]

/-- The buffer filed under `k`, empty when there is none. -/
def bucket (m : DashMap K (List V)) (k : K) : List V :=
  m.getD k []

/-- Append `v` to the buffer filed under `k`, creating it when absent. -/
def push (m : DashMap K (List V)) (k : K) (v : V) : DashMap K (List V) :=
  m.insert k (bucket m k ++ [v])

/-- Take the first element that satisfies `p` out of the buffer filed under
`k`. -/
def takeFirst (p : V → Bool) (m : DashMap K (List V)) (k : K) :
    Option (V × DashMap K (List V)) :=
  match m[k]? with
  | none => none
  | some buf =>
      match buf.find? p with
      | none => none
      | some v => some (v, m.insert k (buf.eraseP p))

/-- Insert one entry for each element of a list, in order. -/
def insertAll {ι : Type*} (key : ι → K) (val : ι → V)
    (m : DashMap K V) (xs : List ι) : DashMap K V :=
  xs.foldl (fun m x => m.insert (key x) (val x)) m

/-- Remove the entry of each element of a list. -/
def eraseAll {ι : Type*} (key : ι → K)
    (m : DashMap K V) (xs : List ι) : DashMap K V :=
  xs.foldl (fun m x => m.erase (key x)) m

section Lookup

theorem bucket_eq (m : DashMap K (List V)) (k : K) :
    bucket m k = (m[k]?).getD [] := by
  simp [bucket, Std.ExtTreeMap.getD_eq_getD_getElem?]

variable {m : DashMap K (List V)} {k : K} {p : V → Bool} {v : V} {vs : List V}

theorem bucket_of_get (h : m[k]? = some vs) : bucket m k = vs := by
  simp [bucket_eq, h]

theorem bucket_of_get_none (h : m[k]? = none) : bucket m k = [] := by
  simp [bucket_eq, h]

theorem perm_cons_eraseP (h : vs.find? p = some v) :
    vs.Perm (v :: vs.eraseP p) := by
  obtain ⟨hp, pre, post, rfl, hpre⟩ := List.find?_eq_some_iff_append.mp h
  have herase : (pre ++ v :: post).eraseP p = pre ++ post := by
    rw [List.eraseP_append_right]
    · simp [List.eraseP_cons_of_pos hp]
    · intro a ha
      simpa using hpre a ha
  rw [herase]
  exact List.perm_middle

theorem takeFirst_eq_none :
    takeFirst p m k = none ↔ ∀ v ∈ bucket m k, p v = false := by
  unfold takeFirst
  cases hk : m[k]? with
  | none => simp [bucket_of_get_none hk]
  | some buf =>
      rw [bucket_of_get hk]
      cases hfind : buf.find? p with
      | none => simpa [hfind] using List.find?_eq_none.mp hfind
      | some v =>
          simp only [hfind, reduceCtorEq, false_iff]
          intro h
          have hv := h v (List.mem_of_find?_eq_some hfind)
          rw [List.find?_some hfind] at hv
          cases hv

theorem find?_eq_some_of_unique (hv : v ∈ vs) (hp : p v = true)
    (hunique : ∀ w ∈ vs, p w = true → w = v) : vs.find? p = some v := by
  cases hfind : vs.find? p with
  | none => exact absurd hp (List.find?_eq_none.mp hfind v hv)
  | some w =>
      rw [hunique w (List.mem_of_find?_eq_some hfind) (List.find?_some hfind)]

theorem takeFirst_of_find? (h : (bucket m k).find? p = some v) :
    takeFirst p m k = some (v, m.insert k ((bucket m k).eraseP p)) := by
  unfold takeFirst
  cases hk : m[k]? with
  | none => simp [bucket_of_get_none hk] at h
  | some buf =>
      rw [bucket_of_get hk] at h
      simp [h, bucket_of_get hk]

theorem takeFirst_eq_some {m' : DashMap K (List V)}
    (h : takeFirst p m k = some (v, m')) :
    p v = true ∧
      ∃ rest, (bucket m k).Perm (v :: rest) ∧ m' = m.insert k rest := by
  unfold takeFirst at h
  cases hk : m[k]? with
  | none => simp [hk] at h
  | some buf =>
      cases hfind : buf.find? p with
      | none => simp [hk, hfind] at h
      | some w =>
          simp only [hk, hfind, Option.some.injEq, Prod.mk.injEq] at h
          obtain ⟨rfl, rfl⟩ := h
          refine ⟨List.find?_some hfind, buf.eraseP p, ?_, rfl⟩
          rw [bucket_of_get hk]
          exact perm_cons_eraseP hfind

variable [Std.LawfulEqOrd K] [DecidableEq K]

theorem get_insert (m : DashMap K V) (k a : K) (v : V) :
    (m.insert k v)[a]? = if k = a then some v else m[a]? := by
  simp [Std.ExtTreeMap.getElem?_insert]

theorem get_erase (m : DashMap K V) (k a : K) :
    (m.erase k)[a]? = if k = a then none else m[a]? := by
  simp [Std.ExtTreeMap.getElem?_erase]

theorem bucket_erase (m : DashMap K (List V)) (k a : K) :
    bucket (m.erase k) a = if k = a then [] else bucket m a := by
  simp only [bucket_eq, get_erase]
  split <;> rfl

variable {ι : Type*} {key : ι → K} {xs : List ι}

theorem get_insertAll_of_notMem (val : ι → V) (m : DashMap K V)
    (h : ∀ x ∈ xs, key x ≠ k) :
    (insertAll key val m xs)[k]? = m[k]? := by
  induction xs generalizing m with
  | nil => rfl
  | cons x xs ih =>
      have hx : key x ≠ k := h x (by simp)
      have hxs : ∀ y ∈ xs, key y ≠ k := fun y hy => h y (by simp [hy])
      rw [insertAll, List.foldl_cons]
      exact (ih (m.insert (key x) (val x)) hxs).trans
        (by rw [get_insert, if_neg hx])

theorem get_insertAll_of_mem (val : ι → V) (m : DashMap K V) {x : ι}
    (hnodup : (xs.map key).Nodup) (hx : x ∈ xs) :
    (insertAll key val m xs)[key x]? = some (val x) := by
  induction xs generalizing m with
  | nil => simp at hx
  | cons y ys ih =>
      rw [List.map_cons, List.nodup_cons] at hnodup
      rw [insertAll, List.foldl_cons]
      rcases List.mem_cons.mp hx with rfl | hys
      · have hrest : ∀ z ∈ ys, key z ≠ key x := by
          intro z hz heq
          exact hnodup.1 (heq ▸ List.mem_map_of_mem hz)
        exact (get_insertAll_of_notMem val _ hrest).trans
          (by rw [get_insert, if_pos rfl])
      · exact ih (m.insert (key y) (val y)) hnodup.2 hys

theorem get_insertAll_eq_some {val : ι → V} {m : DashMap K V}
    (hnodup : (xs.map key).Nodup) :
    (insertAll key val m xs)[k]? = some v ↔
      (∃ x ∈ xs, key x = k ∧ val x = v) ∨
        (∀ x ∈ xs, key x ≠ k) ∧ m[k]? = some v := by
  by_cases h : ∃ x ∈ xs, key x = k
  · obtain ⟨x, hx, rfl⟩ := h
    rw [get_insertAll_of_mem val m hnodup hx]
    constructor
    · intro hv
      exact Or.inl ⟨x, hx, rfl, Option.some.inj hv⟩
    · rintro (⟨y, hy, hkey, rfl⟩ | ⟨hno, -⟩)
      · rw [List.inj_on_of_nodup_map hnodup hy hx hkey]
      · exact absurd rfl (hno x hx)
  · push Not at h
    rw [get_insertAll_of_notMem val m h]
    constructor
    · exact fun hv => Or.inr ⟨h, hv⟩
    · rintro (⟨x, hx, hkey, -⟩ | ⟨-, hv⟩)
      · exact absurd hkey (h x hx)
      · exact hv

omit [DecidableEq K] in
theorem nodup_keys_toList (m : DashMap K V) : (m.toList.map Prod.fst).Nodup := by
  rw [List.Nodup, List.pairwise_map]
  refine (Std.ExtTreeMap.distinct_keys_toList (t := m)).imp ?_
  intro a b hne heq
  rw [heq] at hne
  exact hne Std.ReflCmp.compare_self

theorem insertAll_toList (m : DashMap K V) :
    insertAll Prod.fst Prod.snd ∅ m.toList = m := by
  refine Std.ExtTreeMap.ext_getElem? fun k => Option.ext fun v => ?_
  rw [get_insertAll_eq_some (nodup_keys_toList m)]
  constructor
  · rintro (⟨e, he, rfl, rfl⟩ | ⟨-, hv⟩)
    · exact Std.ExtTreeMap.mem_toList_iff_getElem?_eq_some.mp he
    · simp at hv
  · intro hv
    exact Or.inl ⟨(k, v),
      Std.ExtTreeMap.mem_toList_iff_getElem?_eq_some.mpr hv, rfl, rfl⟩

/-- Inserting all entries of `n` lets those of `n` win. -/
theorem get_insertAll_toList (m n : DashMap K V) (k : K) :
    (insertAll Prod.fst Prod.snd m n.toList)[k]? = n[k]?.or m[k]? := by
  cases hn : n[k]? with
  | some v =>
      exact get_insertAll_of_mem Prod.snd m (nodup_keys_toList n)
        (Std.ExtTreeMap.mem_toList_iff_getElem?_eq_some.mpr hn)
  | none =>
      rw [get_insertAll_of_notMem, Option.none_or]
      rintro ⟨k', v⟩ hmem rfl
      rw [Std.ExtTreeMap.mem_toList_iff_getElem?_eq_some.mp hmem] at hn
      cases hn

theorem get_eraseAll (key : ι → K) (m : DashMap K V) (xs : List ι) (k : K) :
    (eraseAll key m xs)[k]? =
      if ∃ x ∈ xs, key x = k then none else m[k]? := by
  induction xs generalizing m with
  | nil => simp [eraseAll]
  | cons x xs ih =>
      rw [eraseAll, List.foldl_cons]
      refine (ih (m.erase (key x))).trans ?_
      rw [get_erase]
      by_cases hx : key x = k <;> simp [hx]

end Lookup

/-! ## Counting the values -/

section Values

/-- The values of a map, each as often as it occurs. -/
def values (m : DashMap K V) : Multiset V :=
  (m.toList.map Prod.snd : List V)

/-- The contents of all buffers of a map of buffers, each under its key. -/
def contents (m : DashMap K (List V)) : Multiset (K × V) :=
  (m.toList : Multiset (K × List V)).bind fun e => (e.2.map (e.1, ·) : List _)

@[simp] theorem values_empty : values (∅ : DashMap K V) = 0 := by
  simp [values]

@[simp] theorem contents_empty : contents (∅ : DashMap K (List V)) = 0 := by
  simp [contents]

theorem nodup_toList (m : DashMap K V) : m.toList.Nodup := by
  refine (Std.ExtTreeMap.distinct_keys_toList (t := m)).imp ?_
  rintro a b hne rfl
  exact hne Std.ReflCmp.compare_self

variable [Std.LawfulEqOrd K] {m : DashMap K V} {k : K} {v : V} {vs : List V}

theorem mem_values : v ∈ values m ↔ ∃ k : K, m[k]? = some v := by
  simp [values, Std.ExtTreeMap.mem_toList_iff_getElem?_eq_some]

theorem mem_contents {m : DashMap K (List V)} :
    (k, v) ∈ contents m ↔ v ∈ bucket m k := by
  simp only [contents, Multiset.mem_bind, Multiset.mem_coe, List.mem_map,
    Prod.exists, Std.ExtTreeMap.mem_toList_iff_getElem?_eq_some,
    Prod.mk.injEq]
  constructor
  · rintro ⟨a, vs, ha, w, hw, rfl, rfl⟩
    rwa [bucket_of_get ha]
  · intro hv
    cases hk : m[k]? with
    | none => simp [bucket_of_get_none hk] at hv
    | some vs =>
        rw [bucket_of_get hk] at hv
        exact ⟨k, vs, hk, v, hv, rfl, rfl⟩

variable [DecidableEq K]

theorem toList_insert_of_get_none (h : m[k]? = none) (v : V) :
    (m.insert k v).toList.Perm ((k, v) :: m.toList) := by
  rw [List.perm_ext_iff_of_nodup (nodup_toList _)]
  · rintro ⟨a, w⟩
    simp only [Std.ExtTreeMap.mem_toList_iff_getElem?_eq_some, get_insert,
      List.mem_cons, Prod.mk.injEq]
    by_cases hak : k = a
    · subst hak
      simp [h, eq_comm]
    · simp [hak, Ne.symm hak]
  · rw [List.nodup_cons]
    refine ⟨?_, nodup_toList m⟩
    simp [Std.ExtTreeMap.mem_toList_iff_getElem?_eq_some, h]

theorem insert_erase (m : DashMap K V) (k : K) (v : V) :
    (m.erase k).insert k v = m.insert k v := by
  refine Std.ExtTreeMap.ext_getElem? fun a => ?_
  rw [get_insert, get_insert, get_erase]
  split <;> rfl

theorem toList_insert (m : DashMap K V) (k : K) (v : V) :
    (m.insert k v).toList.Perm ((k, v) :: (m.erase k).toList) := by
  rw [← insert_erase]
  exact toList_insert_of_get_none (by rw [get_erase, if_pos rfl]) v

theorem insert_get (h : m[k]? = some v) : m.insert k v = m := by
  refine Std.ExtTreeMap.ext_getElem? fun a => ?_
  rw [get_insert]
  split
  · next hka => rw [← hka, h]
  · rfl

theorem erase_of_get_none (h : m[k]? = none) : m.erase k = m := by
  refine Std.ExtTreeMap.ext_getElem? fun a => ?_
  rw [get_erase]
  split
  · next hka => rw [← hka, h]
  · rfl

theorem values_insert_of_get_none (h : m[k]? = none) (v : V) :
    values (m.insert k v) = v ::ₘ values m :=
  Multiset.coe_eq_coe.mpr ((toList_insert_of_get_none h v).map Prod.snd)

theorem values_erase (h : m[k]? = some v) :
    values m = v ::ₘ values (m.erase k) := by
  have hperm := toList_insert m k v
  rw [insert_get h] at hperm
  exact Multiset.coe_eq_coe.mpr (hperm.map Prod.snd)

theorem contents_insert (m : DashMap K (List V)) (k : K) (vs : List V) :
    contents (m.insert k vs) =
      (vs.map (k, ·) : List _) + contents (m.erase k) := by
  rw [contents, Multiset.coe_eq_coe.mpr (toList_insert m k vs),
    ← Multiset.cons_coe, Multiset.cons_bind, contents]

/-- Taking one buffer out leaves the contents of the others. -/
theorem contents_erase (m : DashMap K (List V)) (k : K) :
    contents m = ((bucket m k).map (k, ·) : List _) + contents (m.erase k) := by
  cases h : m[k]? with
  | none => simp [erase_of_get_none h, bucket_of_get_none h]
  | some vs => rw [← contents_insert, bucket_of_get h, insert_get h]

theorem contents_push (m : DashMap K (List V)) (k : K) (v : V) :
    contents (push m k v) = (k, v) ::ₘ contents m := by
  rw [push, contents_insert, contents_erase m k, List.map_append,
    ← Multiset.coe_add, List.map_singleton, Multiset.coe_singleton,
    ← Multiset.singleton_add (k, v)]
  exact (add_right_comm _ _ _).trans (add_comm _ _)

/-- Replacing one buffer by what is left of it after removing `v`. -/
theorem contents_insert_of_perm {m : DashMap K (List V)}
    (h : (bucket m k).Perm (v :: vs)) :
    contents m = (k, v) ::ₘ contents (m.insert k vs) := by
  rw [contents_insert, contents_erase m k,
    Multiset.coe_eq_coe.mpr (h.map (k, ·)), List.map_cons,
    ← Multiset.cons_coe, Multiset.cons_add]

/-- Inserting records under distinct new keys adds exactly those records. -/
theorem values_insertAll {ι : Type*} {key : ι → K} {val : ι → V} {xs : List ι}
    (hnodup : (xs.map key).Nodup) (hnew : ∀ x ∈ xs, m[key x]? = none) :
    values (insertAll key val m xs) = (xs.map val : Multiset V) + values m := by
  induction xs generalizing m with
  | nil => simp [insertAll]
  | cons x xs ih =>
      rw [List.map_cons, List.nodup_cons] at hnodup
      rw [insertAll, List.foldl_cons]
      refine (ih hnodup.2 ?_).trans ?_
      · intro y hy
        rw [get_insert, if_neg, hnew y (by simp [hy])]
        intro heq
        exact hnodup.1 (heq ▸ List.mem_map_of_mem hy)
      · rw [values_insert_of_get_none (hnew x (by simp)), List.map_cons,
          ← Multiset.cons_coe, Multiset.cons_add, Multiset.add_cons]

end Values

/-! ## Maps that agree off one key -/

/-- The maps have the same entry under every key but `x`. -/
def AgreeOff (x : K) (m₁ m₂ : DashMap K V) : Prop :=
  ∀ y ≠ x, m₁[y]? = m₂[y]?

namespace AgreeOff

variable {x y : K} {m₁ m₂ m₃ : DashMap K V}

theorem symm (h : AgreeOff x m₁ m₂) : AgreeOff x m₂ m₁ :=
  fun y hy => (h y hy).symm

theorem trans (h₁ : AgreeOff x m₁ m₂) (h₂ : AgreeOff x m₂ m₃) :
    AgreeOff x m₁ m₃ :=
  fun y hy => (h₁ y hy).trans (h₂ y hy)

theorem bucket_eq {m₁ m₂ : DashMap K (List V)} (h : AgreeOff x m₁ m₂)
    (hy : y ≠ x) : bucket m₁ y = bucket m₂ y := by
  rw [DashMap.bucket_eq, DashMap.bucket_eq, h y hy]

variable [Std.LawfulEqOrd K] [DecidableEq K]

theorem insert (h : AgreeOff x m₁ m₂) (k : K) (v : V) :
    AgreeOff x (m₁.insert k v) (m₂.insert k v) := by
  intro y hy
  rw [get_insert, get_insert, h y hy]

theorem erase (h : AgreeOff x m₁ m₂) (k : K) :
    AgreeOff x (m₁.erase k) (m₂.erase k) := by
  intro y hy
  rw [get_erase, get_erase, h y hy]

theorem insert_self (m : DashMap K V) (x : K) (v : V) :
    AgreeOff x (m.insert x v) m := by
  intro y hy
  rw [get_insert, if_neg hy.symm]

theorem push {m₁ m₂ : DashMap K (List V)} (h : AgreeOff x m₁ m₂) (k : K)
    (v : V) : AgreeOff x (push m₁ k v) (push m₂ k v) := by
  by_cases hk : k = x
  · subst hk
    exact (insert_self m₁ k _).trans (h.trans (insert_self m₂ k _).symm)
  · rw [DashMap.push, DashMap.push, h.bucket_eq hk]
    exact h.insert k _

/-- Taking the first match under another key gives the same record. -/
theorem takeFirst {m₁ m₂ : DashMap K (List V)} (h : AgreeOff x m₁ m₂)
    (hy : y ≠ x) (p : V → Bool) :
    (takeFirst p m₁ y = none ∧ takeFirst p m₂ y = none) ∨
      ∃ v m₁' m₂', takeFirst p m₁ y = some (v, m₁') ∧
        takeFirst p m₂ y = some (v, m₂') ∧ AgreeOff x m₁' m₂' := by
  cases hfind : (bucket m₁ y).find? p with
  | none =>
      have hnone : ∀ v ∈ bucket m₁ y, p v = false := by
        simpa using List.find?_eq_none.mp hfind
      refine Or.inl ⟨takeFirst_eq_none.mpr hnone, takeFirst_eq_none.mpr ?_⟩
      rw [← h.bucket_eq hy]
      exact hnone
  | some v =>
      have hfind' := hfind
      rw [h.bucket_eq hy] at hfind'
      refine Or.inr ⟨v, _, _, takeFirst_of_find? hfind,
        takeFirst_of_find? hfind', ?_⟩
      rw [h.bucket_eq hy]
      exact h.insert y _

end AgreeOff

end DashMap

/-! ## Iteration -/

namespace Iteration

variable {K V : Type*} [Ord K] [Std.TransOrd K]

/-- The iteration in key order. -/
def sorted : Iteration K V where
  entries m := m.toList
  perm m := List.Perm.refl m.toList

variable [Std.LawfulEqOrd K]

theorem mem_entries (it : Iteration K V) {m : DashMap K V} {k : K} {v : V} :
    (k, v) ∈ it.entries m ↔ m[k]? = some v := by
  rw [(it.perm m).mem_iff, Std.ExtTreeMap.mem_toList_iff_getElem?_eq_some]

theorem nodup_keys (it : Iteration K V) (m : DashMap K V) :
    ((it.entries m).map Prod.fst).Nodup :=
  ((it.perm m).map Prod.fst).nodup_iff.mpr (DashMap.nodup_keys_toList m)

end Iteration

end Coordin8.Support
