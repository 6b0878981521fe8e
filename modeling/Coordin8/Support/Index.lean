import Coordin8.Support.DashMap

/-!
# Maps that index a multiset

`Lists key val m M` says that the map `m` has one row for each element of `M`,
filed under the element's key.  The lemmas follow an index through the updates
a program makes beside the updates of what it indexes.
-/

namespace Coordin8.Support

open DashMap

variable {K W α : Type*} [Ord K] [Std.TransOrd K]

/-- The rows of `m` are exactly the elements of `M`, under their keys. -/
def Lists (key : α → K) (val : α → W) (m : DashMap K W) (M : Multiset α) :
    Prop :=
  ∀ k w, m[k]? = some w ↔ ∃ a ∈ M, key a = k ∧ val a = w

namespace Lists

variable {key : α → K} {val : α → W} {m : DashMap K W} {M : Multiset α}
  {a : α}

theorem empty (key : α → K) (val : α → W) : Lists key val ∅ 0 := by
  intro k w
  simp

theorem get (h : Lists key val m M) (ha : a ∈ M) : m[key a]? = some (val a) :=
  (h _ _).mpr ⟨a, ha, rfl, rfl⟩

theorem get_eq_none (h : Lists key val m M) {k : K} :
    m[k]? = none ↔ ∀ b ∈ M, key b ≠ k := by
  rw [Option.eq_none_iff_forall_ne_some]
  constructor
  · rintro hnone b hb rfl
    exact hnone _ (h.get hb)
  · intro hne w hw
    obtain ⟨b, hb, hkey, -⟩ := (h k w).mp hw
    exact hne b hb hkey

variable [Std.LawfulEqOrd K] [DecidableEq K]

theorem insert (h : Lists key val m M) (hnew : ∀ b ∈ M, key b ≠ key a) :
    Lists key val (m.insert (key a) (val a)) (a ::ₘ M) := by
  intro k w
  rw [get_insert]
  split
  · next hk =>
    subst hk
    constructor
    · intro hw
      exact ⟨a, Multiset.mem_cons_self a M, rfl, Option.some.inj hw⟩
    · rintro ⟨b, hb, hkey, rfl⟩
      rcases Multiset.mem_cons.mp hb with rfl | hb
      · rfl
      · exact absurd hkey (hnew b hb)
  · next hk =>
    rw [h k w]
    constructor
    · rintro ⟨b, hb, hrest⟩
      exact ⟨b, Multiset.mem_cons_of_mem hb, hrest⟩
    · rintro ⟨b, hb, hkey, hval⟩
      rcases Multiset.mem_cons.mp hb with rfl | hb
      · exact absurd hkey hk
      · exact ⟨b, hb, hkey, hval⟩

theorem eraseAll {xs : List α} (h : Lists key val m ((xs : Multiset α) + M))
    (hnew : ∀ x ∈ xs, ∀ b ∈ M, key b ≠ key x) :
    Lists key val (eraseAll key m xs) M := by
  intro k w
  rw [get_eraseAll]
  split
  · next hk =>
    obtain ⟨x, hx, rfl⟩ := hk
    constructor
    · intro hw
      cases hw
    · rintro ⟨b, hb, hkey, -⟩
      exact absurd hkey (hnew x hx b hb)
  · next hk =>
    rw [h k w]
    constructor
    · rintro ⟨b, hb, hkey, hval⟩
      rcases Multiset.mem_add.mp hb with hb | hb
      · exact absurd ⟨b, Multiset.mem_coe.mp hb, hkey⟩ hk
      · exact ⟨b, hb, hkey, hval⟩
    · rintro ⟨b, hb, hrest⟩
      exact ⟨b, Multiset.mem_add.mpr (Or.inr hb), hrest⟩

theorem erase (h : Lists key val m (a ::ₘ M)) (hnew : ∀ b ∈ M, key b ≠ key a) :
    Lists key val (m.erase (key a)) M := by
  have hsingle : Lists key val m (([a] : List α) + M) := by
    rwa [Multiset.coe_singleton, Multiset.singleton_add]
  exact hsingle.eraseAll (by simpa using hnew)

theorem insertAll {xs : List α} (h : Lists key val m M)
    (hnodup : (xs.map key).Nodup)
    (hnew : ∀ x ∈ xs, ∀ b ∈ M, key b ≠ key x) :
    Lists key val (insertAll key val m xs) ((xs : Multiset α) + M) := by
  intro k w
  rw [get_insertAll_eq_some hnodup, h k w]
  constructor
  · rintro (⟨x, hx, hrest⟩ | ⟨-, b, hb, hrest⟩)
    · exact ⟨x, by simp [hx], hrest⟩
    · exact ⟨b, by simp [hb], hrest⟩
  · rintro ⟨b, hb, hkey, hval⟩
    rcases Multiset.mem_add.mp hb with hb | hb
    · exact Or.inl ⟨b, Multiset.mem_coe.mp hb, hkey, hval⟩
    · refine Or.inr ⟨?_, b, hb, hkey, hval⟩
      rintro x hx rfl
      exact hnew x hx b hb hkey

end Lists

end Coordin8.Support
