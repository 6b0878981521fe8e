import Coordin8.Support.DashMap
import Mathlib.Data.List.Basic

/-!
# The keys of the discovery caches

The Go, Node and Java SDKs cache one connection for each template, under a key
they build from it: the entries in the order of their names, each written
`name=value`, joined with commas.  Nothing is escaped, so a value that reads
like further entries gives the key of another template.

A string is a list of characters: bytes in Go, UTF-16 code units in Node and
Java.
-/

namespace Coordin8

open Support Support.DashMap

/-! ## Joined entries -/

section Join

variable {α : Type} {eqSign comma : α}

/-- `name=value`. -/
def keyPart (eqSign : α) (entry : List α × List α) : List α :=
  entry.1 ++ eqSign :: entry.2

def joinParts (eqSign comma : α) (entries : List (List α × List α)) : List α :=
  [comma].intercalate (entries.map (keyPart eqSign))

@[simp] theorem joinParts_singleton (e : List α × List α) :
    joinParts eqSign comma [e] = keyPart eqSign e := by
  simp [joinParts]

theorem joinParts_cons_cons (e e' : List α × List α)
    (es : List (List α × List α)) :
    joinParts eqSign comma (e :: e' :: es) =
      keyPart eqSign e ++ comma :: joinParts eqSign comma (e' :: es) := by
  simp [joinParts]

/-- All but one entry can be read as part of the first value. -/
theorem joinParts_absorb (name value : List α) (e : List α × List α)
    (es : List (List α × List α)) :
    joinParts eqSign comma
        [(name, value ++ comma :: joinParts eqSign comma (e :: es))] =
      joinParts eqSign comma ((name, value) :: e :: es) := by
  rw [joinParts_cons_cons, joinParts_singleton]
  simp [keyPart]

variable [DecidableEq α]

theorem length_le_count_joinParts (eqSign comma : α)
    (es : List (List α × List α)) :
    es.length ≤ (joinParts eqSign comma es).count eqSign := by
  induction es with
  | nil => simp
  | cons e es ih =>
      cases es with
      | nil =>
          simp only [joinParts_singleton, keyPart, List.count_append,
            List.count_cons_self, List.length_singleton]
          omega
      | cons e' es =>
          have hcomma := List.count_le_count_cons (a := eqSign) (b := comma)
            (l := joinParts eqSign comma (e' :: es))
          rw [joinParts_cons_cons, List.count_append]
          simp only [keyPart, List.count_append, List.count_cons_self,
            List.length_cons] at ih ⊢
          omega

/-- With one equals sign in all, there is one entry, and it is known. -/
theorem eq_singleton_of_joinParts {name value : List α}
    (hname : eqSign ∉ name) (hvalue : eqSign ∉ value)
    {es : List (List α × List α)}
    (h : joinParts eqSign comma es = keyPart eqSign (name, value)) :
    es = [(name, value)] := by
  have hcount : (keyPart eqSign (name, value)).count eqSign = 1 := by
    simp [keyPart, List.count_eq_zero_of_not_mem hname,
      List.count_eq_zero_of_not_mem hvalue]
  have hlength := length_le_count_joinParts eqSign comma es
  rw [h, hcount] at hlength
  match es, hlength with
  | [], _ => simp [joinParts, keyPart] at h
  | [(name', value')], _ =>
      rw [joinParts_singleton] at h
      obtain ⟨rfl, -, rfl⟩ :=
        (List.append_cons_inj_of_notMem hname hvalue).mp h.symm
      rfl

/-- Names hold neither of the two signs, and values no comma. -/
def SeparatedParts (eqSign comma : α) (es : List (List α × List α)) : Prop :=
  ∀ e ∈ es, eqSign ∉ e.1 ∧ comma ∉ e.1 ∧ comma ∉ e.2

/-- The name and the value of a part. -/
def cutPart (eqSign : α) (part : List α) : List α × List α :=
  (part.takeWhile (· != eqSign), (part.dropWhile (· != eqSign)).tail)

theorem cutPart_keyPart {e : List α × List α} (h : eqSign ∉ e.1) :
    cutPart eqSign (keyPart eqSign e) = e := by
  have hname : ∀ a ∈ e.1, (a != eqSign) = true := by
    rintro a ha
    exact bne_iff_ne.mpr fun heq => h (heq ▸ ha)
  rw [cutPart, keyPart, List.takeWhile_append_of_pos hname,
    List.dropWhile_append_of_pos hname]
  simp

theorem SeparatedParts.parts {es : List (List α × List α)}
    (h : SeparatedParts eqSign comma es) (hne : comma ≠ eqSign) (hes : es ≠ []) :
    ((joinParts eqSign comma es).splitOn comma).map (cutPart eqSign) = es := by
  have hfree : ∀ part ∈ es.map (keyPart eqSign), comma ∉ part := by
    simp only [List.mem_map, forall_exists_index, and_imp]
    rintro part e he rfl
    simp [keyPart, h e he, hne]
  rw [joinParts, List.splitOn_intercalate comma hfree (by simpa using hes),
    List.map_map]
  exact (List.map_congr_left fun e he => cutPart_keyPart (h e he).1).trans
    (List.map_id _)

theorem SeparatedParts.eq {es es' : List (List α × List α)}
    (h : SeparatedParts eqSign comma es) (h' : SeparatedParts eqSign comma es')
    (hne : comma ≠ eqSign)
    (heq : joinParts eqSign comma es = joinParts eqSign comma es') :
    es = es' := by
  have hnil : es = [] ↔ es' = [] := by
    have hle := length_le_count_joinParts eqSign comma es
    have hle' := length_le_count_joinParts eqSign comma es'
    constructor <;> rintro rfl <;> simp_all [joinParts]
  by_cases hes : es = []
  · rw [hes, hnil.mp hes]
  · rw [← h.parts hne hes, heq, h'.parts hne (mt hnil.mpr hes)]

end Join

/-! ## Templates -/

section Key

variable {α : Type} [Ord α] [Std.TransOrd α] [Std.LawfulEqOrd α]

/-- A template, as an SDK's client writes it. -/
abbrev SdkTemplate (α : Type) [Ord α] := DashMap (List α) (List α)

/-- The key from the names in the order `it` visits them: they are sorted, and
the values are looked up. -/
def sortedTemplateKey (eqSign comma : α) (it : Iteration (List α) (List α))
    (t : SdkTemplate α) : List α :=
  let names := ((it.entries t).map Prod.fst).mergeSort
    fun a b => (compare a b).isLE
  joinParts eqSign comma (names.map fun name => (name, t.getD name []))

theorem sorted_names (it : Iteration (List α) (List α)) (t : SdkTemplate α) :
    ((it.entries t).map Prod.fst).mergeSort (fun a b => (compare a b).isLE) =
      t.toList.map Prod.fst := by
  have htotal : ∀ a b : List α,
      ((compare a b).isLE || (compare b a).isLE) = true := by
    intro a b
    rw [Std.OrientedOrd.eq_swap (a := b)]
    cases compare a b <;> rfl
  have hnames : (t.toList.map Prod.fst).Pairwise
      fun a b => (compare a b).isLE = true := by
    rw [List.pairwise_map]
    exact Std.ExtTreeMap.ordered_keys_toList.imp fun h => by simp [h]
  have hantisymm : ∀ a b : List α, (compare a b).isLE = true →
      (compare b a).isLE = true → a = b := fun a b hab hba =>
    Std.LawfulEqCmp.eq_of_compare (Std.OrientedCmp.isLE_antisymm hab hba)
  have hsorted := List.pairwise_mergeSort
    (fun _ _ _ => Std.TransCmp.isLE_trans) htotal ((it.entries t).map Prod.fst)
  exact List.Perm.eq_of_pairwise (fun a b _ _ => hantisymm a b) hsorted hnames
    ((List.mergeSort_perm _ _).trans ((it.perm t).map _))

theorem sortedTemplateKey_eq (eqSign comma : α)
    (it : Iteration (List α) (List α)) (t : SdkTemplate α) :
    sortedTemplateKey eqSign comma it t = joinParts eqSign comma t.toList := by
  simp only [sortedTemplateKey, sorted_names, List.map_map]
  congr 1
  refine (List.map_congr_left ?_).trans (List.map_id _)
  rintro ⟨name, value⟩ hmem
  have hget := Std.ExtTreeMap.mem_toList_iff_getElem?_eq_some.mp hmem
  simp [Std.ExtTreeMap.getD_eq_getD_getElem?, hget]

/-! ## What a key determines -/

/-- The template is empty, or has one entry without an equals sign. -/
def SdkTemplate.Plain (eqSign : α) (t : SdkTemplate α) : Prop :=
  match t.toList with
  | [] => True
  | [(name, value)] => eqSign ∉ name ∧ eqSign ∉ value
  | _ => False

variable [DecidableEq α] {eqSign comma : α}

theorem SdkTemplate.toList_single (name value : List α) :
    ((∅ : SdkTemplate α).insert name value).toList = [(name, value)] := by
  have hperm := toList_insert_of_get_none (m := (∅ : SdkTemplate α))
    (k := name) (by simp) value
  rwa [show (∅ : SdkTemplate α).toList = [] from rfl, List.perm_singleton]
    at hperm

omit [Std.LawfulEqOrd α] in
theorem SdkTemplate.Plain.unique {s t : SdkTemplate α} (h : s.Plain eqSign)
    (heq : joinParts eqSign comma s.toList = joinParts eqSign comma t.toList) :
    s = t := by
  refine Std.ExtTreeMap.ext_toList (List.Perm.of_eq ?_)
  unfold SdkTemplate.Plain at h
  split at h
  · next hs =>
    have hlength := length_le_count_joinParts eqSign comma t.toList
    rw [← heq, hs] at hlength
    rw [hs, List.eq_nil_of_length_eq_zero (Nat.le_zero.mp hlength)]
  · next name value hs =>
    rw [hs, joinParts_singleton] at heq
    rw [hs, eq_singleton_of_joinParts h.1 h.2 heq.symm]
  · exact h.elim

omit [Std.LawfulEqOrd α] in
/-- Any other template shares its key with a template of one entry. -/
theorem SdkTemplate.exists_collision {s : SdkTemplate α} (h : ¬ s.Plain eqSign) :
    ∃ name value, s.toList ≠ [(name, value)] ∧
      joinParts eqSign comma s.toList =
        joinParts eqSign comma [(name, value)] := by
  unfold SdkTemplate.Plain at h
  split at h
  · exact absurd trivial h
  · next name value hs =>
    rw [hs]
    by_cases hname : eqSign ∈ name
    · -- the name is cut at its equals sign
      obtain ⟨pre, post, rfl⟩ := List.append_of_mem hname
      refine ⟨pre, post ++ eqSign :: value, ?_, by simp [keyPart]⟩
      simp
    · -- or the value is
      have hvalue : eqSign ∈ value := by
        by_contra hvalue
        exact h ⟨hname, hvalue⟩
      obtain ⟨pre, post, rfl⟩ := List.append_of_mem hvalue
      refine ⟨name ++ eqSign :: pre, post, ?_, by simp [keyPart]⟩
      simp
  · next hnil hone =>
    match hs : s.toList with
    | [] => exact absurd hs hnil
    | [(name, value)] => exact absurd hs (hone name value)
    | (name, value) :: e :: es =>
        exact ⟨name, value ++ comma :: joinParts eqSign comma (e :: es),
          by simp, (joinParts_absorb name value e es).symm⟩

/-- No name of the template has an equals sign or a comma, and no value has a
comma. -/
def SdkTemplate.Separated (eqSign comma : α) (t : SdkTemplate α) : Prop :=
  SeparatedParts eqSign comma t.toList

omit [Std.LawfulEqOrd α] in
theorem SdkTemplate.Separated.unique {s t : SdkTemplate α}
    (hs : s.Separated eqSign comma) (ht : t.Separated eqSign comma)
    (hne : comma ≠ eqSign)
    (heq : joinParts eqSign comma s.toList = joinParts eqSign comma t.toList) :
    s = t :=
  Std.ExtTreeMap.ext_toList (List.Perm.of_eq (SeparatedParts.eq hs ht hne heq))

/-- A template is determined by its key if and only if it is plain. -/
theorem SdkTemplate.plain_iff (eqSign comma : α) (s : SdkTemplate α) :
    (∀ t : SdkTemplate α,
      joinParts eqSign comma s.toList = joinParts eqSign comma t.toList →
        s = t) ↔ s.Plain eqSign := by
  refine ⟨fun hinj => ?_, fun hplain t => hplain.unique⟩
  by_contra hplain
  obtain ⟨name, value, hne, heq⟩ := exists_collision hplain
  rw [← toList_single] at hne heq
  exact hne (congrArg Std.ExtTreeMap.toList (hinj _ heq))

end Key

/-! ## The three SDKs -/

namespace Go

/-- Names and values are bytes; `it` is the order in which the map is ranged
over. -/
def templateKey (it : Iteration (List UInt8) (List UInt8))
    (tmpl : SdkTemplate UInt8) : List UInt8 :=
  sortedTemplateKey 0x3d 0x2c it tmpl

end Go

namespace Node

/-- Names and values are UTF-16 code units, which is also how they are
sorted. -/
def templateKey (it : Iteration (List UInt16) (List UInt16))
    (template : SdkTemplate UInt16) : List UInt16 :=
  sortedTemplateKey 0x3d 0x2c it template

end Node

namespace Java

/-- The entries are put in order by a `TreeMap`. -/
def templateKey (template : SdkTemplate UInt16) : List UInt16 :=
  joinParts 0x3d 0x2c template.toList

end Java

end Coordin8
