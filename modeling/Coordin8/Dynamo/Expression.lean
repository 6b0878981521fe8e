import Coordin8.Dynamo.Service

/-!
# Update expressions

An update changes attributes of an item.  This is the part of the language that
the providers use.
-/

namespace Coordin8.Dynamo

open Support

/-- An update expression: `SET` with its values, and `REMOVE`. -/
structure Update where
  set : List (String × AttributeValue)
  remove : List String

/-- The item after the update. -/
def Update.apply (u : Update) (item : Item) : Item :=
  DashMap.eraseAll id (DashMap.insertAll Prod.fst Prod.snd item u.set) u.remove

namespace Update

variable {u : Update} {item : Item} {attr : String}

theorem get_apply_of_not_removed (h : attr ∉ u.remove) :
    (u.apply item)[attr]? =
      (DashMap.insertAll Prod.fst Prod.snd item u.set)[attr]? := by
  rw [apply, DashMap.get_eraseAll, if_neg]
  rintro ⟨a, ha, rfl⟩
  exact h ha

theorem get_apply_of_unnamed (hset : ∀ e ∈ u.set, e.1 ≠ attr)
    (hremove : attr ∉ u.remove) : (u.apply item)[attr]? = item[attr]? := by
  rw [get_apply_of_not_removed hremove]
  exact DashMap.get_insertAll_of_notMem Prod.snd item hset

theorem get_apply_of_removed (h : attr ∈ u.remove) :
    (u.apply item)[attr]? = none := by
  rw [apply, DashMap.get_eraseAll, if_pos ⟨attr, h, rfl⟩]

theorem get_apply_of_set {value : AttributeValue}
    (hnodup : (u.set.map Prod.fst).Nodup) (hset : (attr, value) ∈ u.set)
    (hremove : attr ∉ u.remove) : (u.apply item)[attr]? = some value := by
  rw [get_apply_of_not_removed hremove]
  exact DashMap.get_insertAll_of_mem Prod.snd item hnodup hset

end Update

end Coordin8.Dynamo
