import Coordin8.Dynamo.SpaceStore

/-!
# The rows of the DynamoDB Space store

A tuple is read back from its row as it was written, whatever table the row is
in, and the row's key is the tuple's.  The second part has the rule for the
loops over the rows of a scan.
-/

namespace Coordin8.DynamoSpaceStore

open Support Dynamo

variable (fmt : Rfc3339)

/-! ## Reading back -/

theorem tupleFromItem_tupleToItem (record : TupleRecord) :
    tupleFromItem fmt (tupleToItem fmt record) = .ok record := by
  have hget : (tupleToItem fmt record)["tuple_id"]? = some (.s record.tupleId) ∧
      (tupleToItem fmt record)["lease_id"]? = some (.s record.leaseId) ∧
      (tupleToItem fmt record)["written_by"]? = some (.s record.writtenBy) ∧
      (tupleToItem fmt record)["written_at"]? =
        some (.s (fmt.print record.writtenAt)) ∧
      (tupleToItem fmt record)["attrs"]? = some (stringsToAv record.attrs) := by
    simp only [tupleToItem, get_insertSome, DashMap.get_insert, String.reduceEq,
      if_true, if_false, and_self]
  obtain ⟨hid, hlease, hby, hat, hattrs⟩ := hget
  have hpayload : (tupleToItem fmt record).blob "payload" = record.payload := by
    rw [tupleToItem, Item.blob, get_insertSome, if_neg (by decide)]
    exact blob_insertSome_blobToAv _ (by simp)
  have hinput : (tupleToItem fmt record).text "input_tuple_id" =
      record.inputTupleId := by
    cases h : record.inputTupleId <;>
      simp [tupleToItem, h, AttributeValue.asS, get_insertSome, Item.text]
  rw [tupleFromItem, requiredText_of_get hid, requiredText_of_get hlease,
    requiredText_of_get hby, requiredText_of_get hat, hattrs, hpayload, hinput]
  simp only [bind, Except.bind, fmt.parse_print, Except.mapError, stringsFromAv,
    readStrings_stringsToAv]
  rfl

theorem tupleFromItem_insert {attr : String}
    (hattr : attr = "txn_id" ∨ attr = "own_write") (item : Item)
    (value : AttributeValue) :
    tupleFromItem fmt (item.insert attr value) = tupleFromItem fmt item := by
  rcases hattr with rfl | rfl <;>
    simp [tupleFromItem, requiredText, DashMap.get_insert]

theorem tupleFromItem_bufferItem (x : String) (record : TupleRecord) :
    tupleFromItem fmt (bufferItem fmt x record) = .ok record := by
  rw [bufferItem, tupleFromItem_insert fmt (.inl rfl), tupleFromItem_tupleToItem]

@[simp] theorem text_tupleToItem_tuple_id (record : TupleRecord) :
    (tupleToItem fmt record).text "tuple_id" = some record.tupleId := by
  simp [tupleToItem, text_insertSome, AttributeValue.asS]

theorem keyOf_tuples (item : Item) :
    spaceSchema.keyOf .tuples item =
      (item.text "tuple_id").map fun id => (id, none) := by
  simp only [Schema.keyOf, spaceSchema]
  cases item.text "tuple_id" <;> rfl

variable {t : SpaceTable} {item : Item} {record : TupleRecord} {k : Key String}

theorem keyOf_buffer (ht : t.IsBuffer) (item : Item) :
    spaceSchema.keyOf t item =
      (item.text "txn_id").bind fun x =>
        (item.text "tuple_id").map fun id => (x, some id) := by
  rcases ht with rfl | rfl
  all_goals
    simp only [Schema.keyOf, spaceSchema, Item.text]
    cases (item["txn_id"]?).bind AttributeValue.asS with
    | none => rfl
    | some x => cases (item["tuple_id"]?).bind AttributeValue.asS <;> rfl

@[simp] theorem keyOf_tupleToItem (record : TupleRecord) :
    spaceSchema.keyOf .tuples (tupleToItem fmt record) =
      some (record.tupleId, none) := by
  rw [keyOf_tuples, text_tupleToItem_tuple_id]
  rfl

theorem keyOf_bufferItem (ht : t.IsBuffer) (x : String) (record : TupleRecord) :
    spaceSchema.keyOf t (bufferItem fmt x record) =
      some (x, some record.tupleId) := by
  rw [keyOf_buffer ht]
  simp [bufferItem, AttributeValue.asS]

variable {fmt}

theorem text_of_tupleFromItem (h : tupleFromItem fmt item = .ok record) :
    item.text "tuple_id" = some record.tupleId ∧
      item.text "lease_id" = some record.leaseId := by
  obtain ⟨tupleId, hid, h⟩ := bind_eq_ok_iff.mp h
  obtain ⟨leaseId, hlease, h⟩ := bind_eq_ok_iff.mp h
  obtain ⟨writtenBy, -, h⟩ := bind_eq_ok_iff.mp h
  obtain ⟨text, -, h⟩ := bind_eq_ok_iff.mp h
  obtain ⟨writtenAt, -, h⟩ := bind_eq_ok_iff.mp h
  obtain ⟨attrs, -, h⟩ := bind_eq_ok_iff.mp h
  obtain rfl := Except.ok.inj h
  exact ⟨text_of_requiredText hid, text_of_requiredText hlease⟩

variable {s : SpaceTables}

theorem key_of_get_buffer (ht : t.IsBuffer) (hget : s.get t k = some item) :
    ∃ x id, k = (x, some id) ∧ item.text "txn_id" = some x ∧
      item.text "tuple_id" = some id := by
  have hkey := s.keyed t k item hget
  rw [keyOf_buffer ht] at hkey
  obtain ⟨x, hx, hkey⟩ := Option.bind_eq_some_iff.mp hkey
  obtain ⟨id, hid, rfl⟩ := Option.map_eq_some_iff.mp hkey
  exact ⟨x, id, rfl, hx, hid⟩

theorem key_of_get_buffer_record (ht : t.IsBuffer)
    (hget : s.get t k = some item) (h : tupleFromItem fmt item = .ok record) :
    k = (k.1, some record.tupleId) := by
  obtain ⟨x, id, rfl, -, hid⟩ := key_of_get_buffer ht hget
  rw [(text_of_tupleFromItem h).1] at hid
  rw [Option.some.inj hid]

theorem exists_rows (order : SpaceTable → Listing (Key String) Item) (ht : t.IsBuffer) (x : String) :
    ∃ rows : List (String × Item),
      (selected order s t (.partition x none)).map Prod.snd =
        rows.map Prod.snd ∧
      (rows.Pairwise fun a b => compare a.1 b.1 = .lt) ∧
      ∀ id item, (id, item) ∈ rows ↔ s.get t (x, some id) = some item := by
  have hkey : ∀ e ∈ selected order s t (.partition x none),
      ∃ id, e.1 = (x, some id) := by
    intro e he
    obtain ⟨hget, hreads, -⟩ := mem_selected.mp he
    obtain ⟨y, id, hk, -, -⟩ := key_of_get_buffer ht hget
    have hy : e.1.1 = x := by simpa [Selection.reads] using hreads
    rw [hk] at hy
    exact ⟨id, by rw [hk, ← hy]⟩
  refine ⟨(selected order s t (.partition x none)).map fun e =>
    (e.1.2.getD "", e.2), ?_, ?_, ?_⟩
  · rw [List.map_map]
    rfl
  · rw [List.pairwise_map]
    have hsorted : (selected order s t (.partition x none)).Pairwise
        fun a b => compare a.1 b.1 = .lt :=
      (Listing.byKey.rowsAfter_sorted).filter _
    refine hsorted.imp_of_mem fun {a b} ha hb hlt => ?_
    obtain ⟨id, hid⟩ := hkey a ha
    obtain ⟨id', hid'⟩ := hkey b hb
    rw [hid, hid', compare_key] at hlt
    rw [hid, hid']
    exact hlt
  · intro id item
    constructor
    · intro hmem
      obtain ⟨e, he, heq⟩ := List.mem_map.mp hmem
      obtain ⟨hid, rfl⟩ := Prod.mk.inj heq
      obtain ⟨id', hk⟩ := hkey e he
      have hget := (mem_selected.mp he).1
      rw [hk] at hid hget
      rw [← hid]
      exact hget
    · intro hget
      refine List.mem_map.mpr ⟨((x, some id), item), ?_, rfl⟩
      exact mem_selected.mpr ⟨hget, by simp [Selection.reads], rfl⟩

/-! ## The loop over the rows of a scan -/

open Fallible in
/-- A matching row is acted on; the rows whose action has no result satisfy
`P`. -/
theorem yields_firstThat {Γ : Type*}
    {C : Client.Contract (Request SpaceTable String) Request.Answer Γ}
    {total : Bool} {ops : DashMap String MatchOp}
    {act : TupleRecord → SpaceStoreCall (Option TupleRecord)}
    {Q : Option TupleRecord → Γ → Prop} {E : Error → Γ → Prop}
    {I : Γ → Prop} {P : TupleRecord → Prop} {items : List Item} {g : Γ}
    (hbad : ∀ item ∈ items, ∀ e g, tupleFromItem fmt item = .error e → I g →
      E e g)
    (hact : ∀ item ∈ items, ∀ record g, tupleFromItem fmt item = .ok record →
      templateMatches ops record.attrs = true → I g →
      Yields C total (act record)
        (fun o g =>
          match o with
          | some r => Q (some r) g
          | none => P record ∧ I g) E g)
    (hnone : (∀ item ∈ items, ∀ record, tupleFromItem fmt item = .ok record →
      templateMatches ops record.attrs = true → P record) →
      ∀ g, I g → Q none g)
    (hI : I g) :
    Yields C total (firstThat fmt ops act items) Q E g := by
  induction items generalizing g with
  | nil => exact hnone (by simp) g hI
  | cons item items ih =>
      -- The rest of the loop, when this item has been passed over.
      have hrest : ∀ g, I g → (∀ record, tupleFromItem fmt item = .ok record →
          templateMatches ops record.attrs = true → P record) →
          Yields C total (firstThat fmt ops act items) Q E g := by
        intro g hI hitem
        refine ih (fun i hi => hbad i (List.mem_cons_of_mem _ hi))
          (fun i hi => hact i (List.mem_cons_of_mem _ hi)) ?_ hI
        intro hskip
        refine hnone fun i hi => ?_
        rcases List.mem_cons.mp hi with rfl | hi
        · exact hitem
        · exact hskip i hi
      rw [firstThat]
      refine yields_bind ?_
      cases hdecode : tupleFromItem fmt item with
      | error e => exact hbad item List.mem_cons_self e g hdecode hI
      | ok record =>
          refine yields_pure ?_
          by_cases hmatch : templateMatches ops record.attrs = true
          · rw [if_pos hmatch]
            refine yields_bind (yields_mono
              (hact item List.mem_cons_self record g hdecode hmatch hI)
              ?_ fun _ _ he => he)
            intro o g ho
            cases o with
            | some r => exact yields_pure ho
            | none =>
                refine hrest g ho.2 fun record' h' _ => ?_
                rw [hdecode] at h'
                exact Except.ok.inj h' ▸ ho.1
          · rw [if_neg hmatch]
            refine hrest g hI fun record' h' hmatch' => ?_
            rw [hdecode] at h'
            exact absurd (Except.ok.inj h' ▸ hmatch') hmatch

end Coordin8.DynamoSpaceStore
