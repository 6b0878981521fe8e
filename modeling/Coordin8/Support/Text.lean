import Mathlib.Data.List.Infix

/-!
# Prefixes of strings

`stripPrefix` removes a literal prefix when it is there.  The one fact the
developments use is that it inverts concatenation.
-/

namespace Coordin8.Support

/-- Remove the prefix `p` from `s`, or nothing when `s` does not start with
it. -/
def stripPrefix (p s : String) : Option String :=
  if p.toList.isPrefixOf s.toList then
    some (String.ofList (s.toList.drop p.toList.length))
  else
    none

theorem stripPrefix_eq_some_iff {p s rest : String} :
    stripPrefix p s = some rest ↔ s = p ++ rest := by
  unfold stripPrefix
  split
  · next hp =>
    obtain ⟨tail, htail⟩ := List.isPrefixOf_iff_prefix.mp hp
    rw [← htail, List.drop_left, Option.some.injEq, ← String.toList_inj,
      ← String.toList_inj, String.toList_append, ← htail,
      String.toList_ofList]
    simp
  · next hp =>
    constructor
    · intro h
      cases h
    · rintro rfl
      refine absurd (List.isPrefixOf_iff_prefix.mpr ?_) hp
      rw [String.toList_append]
      exact List.prefix_append _ _

end Coordin8.Support
