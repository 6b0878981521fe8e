import Coordin8.Dynamo.SpaceFailure

/-!
# A commit that fails half-way

`commit_txn` publishes the writes of a transaction one by one, in the order of
their tuple ids.  Which of them are visible when it returns an error is read off
the request it stopped at.
-/

namespace Coordin8.DynamoSpaceStore

open Support Dynamo Fallible

/-- The writes that a commit has published when it stops at a request: those
with a smaller id when it stops at a put, the one being deleted as well when it
stops at a delete, and all of them once it has turned to the tuples taken. -/
def PublishedAt : Request SpaceTable String → String → Prop
  | .putItem _ item _, id =>
      ∃ id', item.text "tuple_id" = some id' ∧ compare id id' = .lt
  | .deleteItem .uncommitted k _, id =>
      ∃ id', k.2 = some id' ∧ compare id id' ≠ .gt
  | .readPage .uncommitted .., _ => False
  | _, _ => True

/-- The writes of `x` that satisfy `P` are visible, and nothing else has become
visible. -/
structure Visible (fmt : Rfc3339) (s : SpaceTables) (x : String)
    (P : String → Prop) (s' : SpaceTables) : Prop where
  published : ∀ id item, P id → s.get .uncommitted (x, some id) = some item →
    ∃ record, tupleFromItem fmt item = .ok record ∧
      s'.get .tuples (id, none) = some (tupleToItem fmt record)
  same : ∀ id, (P id → s.get .uncommitted (x, some id) = none) →
    s'.get .tuples (id, none) = s.get .tuples (id, none)

namespace Visible

variable {fmt : Rfc3339} {s s' s'' : SpaceTables} {x : String}
  {P P' : String → Prop}

theorem refl (fmt : Rfc3339) (s : SpaceTables) (x : String) :
    Visible fmt s x (fun _ => False) s where
  published _ _ h := h.elim
  same _ _ := rfl

theorem congr (h : Visible fmt s x P s')
    (hP : ∀ id item, s.get .uncommitted (x, some id) = some item →
      (P' id ↔ P id))
    (htuples : ∀ id, s''.get .tuples (id, none) = s'.get .tuples (id, none)) :
    Visible fmt s x P' s'' where
  published id item hid hget := by
    rw [htuples]
    exact h.published id item ((hP id item hget).mp hid) hget
  same id hid := by
    rw [htuples]
    refine h.same id fun hp => ?_
    cases hget : s.get .uncommitted (x, some id) with
    | none => rfl
    | some item =>
        rw [← hget]
        exact hid ((hP id item hget).mpr hp)

theorem insert (h : Visible fmt s x P s') {item : Item} {record : TupleRecord}
    (hget : s.get .uncommitted (x, some record.tupleId) = some item)
    (hdecode : tupleFromItem fmt item = .ok record) :
    Visible fmt s x (fun id => P id ∨ id = record.tupleId)
      (s'.insert .tuples (tupleToItem fmt record)) where
  published id item' hid hget' := by
    rw [Tables.get_insert (keyOf_tupleToItem fmt record)]
    by_cases heq : record.tupleId = id
    · subst heq
      obtain rfl := Option.some.inj (hget.symm.trans hget')
      exact ⟨record, hdecode, if_pos ⟨rfl, rfl⟩⟩
    · rw [if_neg (by simpa using heq)]
      exact h.published id item' (hid.resolve_right (Ne.symm heq)) hget'
  same id hid := by
    have heq : record.tupleId ≠ id := by
      rintro rfl
      rw [hid (Or.inr rfl)] at hget
      cases hget
    rw [Tables.get_insert (keyOf_tupleToItem fmt record),
      if_neg (by simpa using heq)]
    exact h.same id fun hp => hid (Or.inl hp)

end Visible

/-- The call stopped at a request, with the writes visible that it had published
by then. -/
def StoppedAt (fmt : Rfc3339) (s : SpaceTables) (x : String)
    (g : State spaceSchema) : Prop :=
  ∃ r i, g.2 = some (r, i) ∧ Visible fmt s x (PublishedAt r) g.1

section Rows

variable {rows done todo : List (String × Item)} {cur : String × Item}
  (hrows : rows = done ++ cur :: todo)
  (hsorted : rows.Pairwise fun a b => compare a.1 b.1 = .lt)

include hrows hsorted

theorem lt_iff_mem_done (e : String × Item) (he : e ∈ rows) :
    compare e.1 cur.1 = .lt ↔ e ∈ done := by
  subst hrows
  obtain ⟨-, hrest, hbefore⟩ := List.pairwise_append.mp hsorted
  obtain ⟨hafter, -⟩ := List.pairwise_cons.mp hrest
  constructor
  · intro hlt
    rcases List.mem_append.mp he with he | he
    · exact he
    · rcases List.mem_cons.mp he with rfl | he
      · have hself : compare e.1 e.1 = .eq := Std.ReflCmp.compare_self
        rw [hself] at hlt
        cases hlt
      · have hgt := Std.OrientedCmp.gt_of_lt (hafter e he)
        rw [hgt] at hlt
        cases hlt
  · intro hdone
    exact hbefore e hdone cur List.mem_cons_self

theorem ne_gt_iff_mem_done (e : String × Item) (he : e ∈ rows) :
    compare e.1 cur.1 ≠ .gt ↔ e ∈ done ++ [cur] := by
  subst hrows
  obtain ⟨-, hrest, hbefore⟩ := List.pairwise_append.mp hsorted
  obtain ⟨hafter, -⟩ := List.pairwise_cons.mp hrest
  constructor
  · intro hne
    rcases List.mem_append.mp he with he | he
    · exact List.mem_append_left _ he
    · rcases List.mem_cons.mp he with rfl | he
      · exact List.mem_append_right _ List.mem_cons_self
      · exact absurd (Std.OrientedCmp.gt_of_lt (hafter e he)) hne
  · intro hmem
    rcases List.mem_append.mp hmem with hdone | hcur
    · rw [hbefore e hdone cur List.mem_cons_self]
      simp
    · have hself : compare cur.1 cur.1 = .eq := Std.ReflCmp.compare_self
      rw [List.mem_singleton.mp hcur, hself]
      simp

end Rows

section Commit

variable {fmt : Rfc3339} {s s' : SpaceTables} {x : String}
  {order : SpaceTable → Listing (Key String) Item} {ok : Choice → Prop}
  {total : Bool} {i : Choice}

theorem flush_visible {rows done todo : List (String × Item)}
    {r : Request SpaceTable String} (hrows : rows = done ++ todo)
    (hsorted : rows.Pairwise fun a b => compare a.1 b.1 = .lt)
    (hmem : ∀ id item, (id, item) ∈ rows ↔
      s.get .uncommitted (x, some id) = some item)
    (hvisible : Visible fmt s x (PublishedAt r) s')
    (hdone : ∀ e ∈ rows, PublishedAt r e.1 ↔ e ∈ done) :
    Yields (alone spaceSchema order ok) total (flush fmt x (todo.map Prod.snd))
      (fun _ g => Visible fmt s x (fun _ => True) g.1)
      (fun _ g => StoppedAt fmt s x g) (s', some (r, i)) := by
  induction todo generalizing done s' r i with
  | nil =>
      refine yields_pure (hvisible.congr (fun id item hget => ?_) fun _ => rfl)
      rw [true_iff, hdone _ ((hmem id item).mpr hget)]
      rw [List.append_nil] at hrows
      exact hrows ▸ (hmem id item).mpr hget
  | cons cur todo ih =>
      obtain ⟨id, item⟩ := cur
      have hget : s.get .uncommitted (x, some id) = some item :=
        (hmem id item).mp (by simp [hrows])
      rw [List.map_cons, flush]
      refine yields_bind (yields_propagate ?_ fun _ _ => ⟨r, i, rfl, hvisible⟩)
      intro record hdecode
      have hid : id = record.tupleId := by
        have hkey := key_of_get_buffer_record (Or.inl rfl) hget hdecode
        exact Option.some.inj (Prod.mk.inj hkey).2
      subst hid
      -- The writes published so far are those with a smaller id.
      have hbefore : ∀ id' item', s.get .uncommitted (x, some id') = some item' →
          (compare id' record.tupleId = .lt ↔ PublishedAt r id') := by
        intro id' item' hget'
        have hrow := (hmem id' item').mpr hget'
        rw [lt_iff_mem_done hrows hsorted _ hrow, hdone _ hrow]
      have hupto : ∀ id' item', s.get .uncommitted (x, some id') = some item' →
          (compare id' record.tupleId ≠ .gt ↔
            PublishedAt r id' ∨ id' = record.tupleId) := by
        intro id' item' hget'
        have hrow := (hmem id' item').mpr hget'
        rw [ne_gt_iff_mem_done hrows hsorted _ hrow, hdone _ hrow,
          List.mem_append, List.mem_singleton]
        refine or_congr_right ⟨fun h => (Prod.mk.inj h).1, ?_⟩
        rintro rfl
        rw [Option.some.inj (hget'.symm.trans hget)]
      refine yields_bind (yields_put (keyOf_tupleToItem fmt record) ?_ ?_)
      · intro j text _ _
        refine ⟨_, j, rfl, hvisible.congr (fun id' item' hget' => ?_)
          fun _ => rfl⟩
        rw [← hbefore id' item' hget']
        simp [PublishedAt]
      · intro j _ _
        have hinsert := hvisible.insert hget hdecode
        have hdelete : ∀ s'' : SpaceTables, (∀ id',
            s''.get .tuples (id', none) =
              (s'.insert .tuples (tupleToItem fmt record)).get .tuples
                (id', none)) →
            Visible fmt s x (PublishedAt
              (.deleteItem .uncommitted (x, item.text "tuple_id") .always))
              s'' := by
          intro s'' htuples
          refine hinsert.congr (fun id' item' hget' => ?_) htuples
          rw [← hupto id' item' hget']
          simp [PublishedAt, (text_of_tupleFromItem hdecode).1]
        refine yields_bind (yields_bind (yields_delete ?_ ?_))
        · intro j' text _ _
          exact ⟨_, j', rfl, hdelete _ fun _ => rfl⟩
        · intro j' _ _
          have hrows' : rows = (done ++ [(record.tupleId, item)]) ++ todo := by
            simp [hrows]
          refine yields_pure (yields_bind (yields_mono
            (ih hrows' (hdelete _ fun id' => ?_) fun e he => ?_) ?_
            fun _ _ hE => hE))
          · rw [Tables.get_erase, if_neg (by simp)]
          · rw [← ne_gt_iff_mem_done hrows hsorted e he]
            simp [PublishedAt, (text_of_tupleFromItem hdecode).1]
          · exact fun _ _ hQ => yields_pure hQ

theorem clear_visible {r : Request SpaceTable String}
    (hr : ∀ id, PublishedAt r id) (items : List Item)
    (hvisible : Visible fmt s x (fun _ => True) s') :
    Yields (alone spaceSchema order ok) total (clear fmt .txnTaken x items)
      (fun _ _ => True) (fun _ g => StoppedAt fmt s x g) (s', some (r, i)) := by
  have hstop : ∀ r j s'', (∀ id, PublishedAt r id) →
      (∀ id, s''.get .tuples (id, none) = s'.get .tuples (id, none)) →
      StoppedAt fmt s x (s'', some (r, j)) := by
    intro r j s'' hr htuples
    refine ⟨r, j, rfl, hvisible.congr (fun id _ _ => ?_) htuples⟩
    exact iff_of_true (hr id) trivial
  induction items generalizing s' r i with
  | nil => exact yields_pure trivial
  | cons item items ih =>
      rw [clear]
      refine yields_bind (yields_propagate ?_ fun _ _ =>
        hstop r i s' hr fun _ => rfl)
      intro record _
      refine yields_bind (yields_bind (yields_delete ?_ ?_))
      · intro j text _ _
        exact hstop _ j s' (fun _ => trivial) fun _ => rfl
      · intro j _ _
        have htuples : ∀ id : String,
            (s'.erase .txnTaken (x, item.text "tuple_id")).get .tuples
              (id, none) = s'.get .tuples (id, none) := by
          intro id
          rw [Tables.get_erase, if_neg (by simp)]
        refine yields_pure (yields_bind (yields_mono (ih ?_ ?_ ?_) ?_
          fun _ _ hE => hE))
        · exact fun _ => trivial
        · exact hvisible.congr (fun _ _ _ => Iff.rfl) htuples
        · intro r' j' s'' hr' htuples'
          exact hstop r' j' s'' hr' fun id => (htuples' id).trans (htuples id)
        · exact fun _ _ _ => yields_pure trivial

/-- A commit that returns an error has published the writes before the request
it stopped at. -/
theorem commitTxn_visible {last : Option (Request SpaceTable String × Choice)} :
    Yields (alone spaceSchema order ok) total (commitTxn fmt x)
      (fun _ _ => True) (fun _ g => StoppedAt fmt s x g) (s, last) := by
  obtain ⟨rows, hitems, hsorted, hmem⟩ := exists_rows order (Or.inl rfl) x
  refine yields_bind (yields_readAll ?_ ?_)
  · intro i text start _ _
    exact ⟨_, i, rfl, Visible.refl fmt s x⟩
  · intro i start _
    rw [hitems]
    refine yields_bind (yields_mono (flush_visible (List.nil_append rows).symm
      hsorted hmem (Visible.refl fmt s x) fun e _ => ?_) ?_ fun _ _ hE => hE)
    · simp [PublishedAt]
    rintro flushed ⟨s₁, last₁⟩ h₁
    refine yields_bind (yields_readAll ?_ ?_)
    · intro j text start' _ _
      refine ⟨_, j, rfl, h₁.congr (fun id _ _ => ?_) fun _ => rfl⟩
      exact iff_of_true trivial trivial
    · intro j start' _
      have hr : ∀ id, PublishedAt
          (.readPage .txnTaken (.partition x none) start' none) id :=
        fun _ => trivial
      refine yields_bind (yields_mono (clear_visible hr _ h₁) ?_ fun _ _ hE => hE)
      exact fun _ _ _ => yields_pure trivial

theorem get_tuples_some (s : SpaceTables) (id sort : String) :
    s.get .tuples (id, some sort) = none := by
  cases hget : s.get .tuples (id, some sort) with
  | none => rfl
  | some item =>
      have hkey := s.keyed .tuples _ item hget
      rw [keyOf_tuples] at hkey
      obtain ⟨id', -, h⟩ := Option.map_eq_some_iff.mp hkey
      cases h

/-- Nothing has become visible exactly when every write published so far was
visible before, with the same contents. -/
theorem Visible.rows_eq_iff {P : String → Prop} (h : Visible fmt s x P s') :
    s'.rows .tuples = s.rows .tuples ↔
      ∀ id item record, s.get .uncommitted (x, some id) = some item → P id →
        tupleFromItem fmt item = .ok record →
        s.get .tuples (id, none) = some (tupleToItem fmt record) := by
  constructor
  · intro heq id item record hget hid hdecode
    obtain ⟨record', hdecode', hpublished⟩ := h.published id item hid hget
    rw [hdecode] at hdecode'
    obtain rfl := Except.ok.inj hdecode'
    rw [← hpublished, Tables.get, Tables.get, heq]
  · intro hvisible
    refine Std.ExtTreeMap.ext_getElem? fun k => ?_
    change s'.get .tuples k = s.get .tuples k
    obtain ⟨id, _ | sort⟩ := k
    · by_cases hid : P id ∧ (s.get .uncommitted (x, some id)).isSome
      · obtain ⟨hid, hsome⟩ := hid
        obtain ⟨item, hget⟩ := Option.isSome_iff_exists.mp hsome
        obtain ⟨record, hdecode, hpublished⟩ := h.published id item hid hget
        rw [hpublished, hvisible id item record hget hid hdecode]
      · refine h.same id fun hp => ?_
        by_contra hne
        exact hid ⟨hp, Option.isSome_iff_ne_none.mpr hne⟩
    · rw [get_tuples_some, get_tuples_some]

variable {choices : List Choice} {r : Request SpaceTable String} {e : Error}

/-- A commit that returns an error leaves the visible tuples as they were exactly
when every write it had published, up to the request it stopped at, was visible
before with the same contents. -/
theorem failed_commit_invisible_iff
    (hrun : Client.exec (Client.noting (serve order)) (s, none)
      (call fmt (.commitTxn x)).run choices = some ((s', some (r, i)), .error e)) :
    s'.rows .tuples = s.rows .tuples ↔
      ∀ id item record, s.get .uncommitted (x, some id) = some item →
        PublishedAt r id → tupleFromItem fmt item = .ok record →
        s.get .tuples (id, none) = some (tupleToItem fmt record) := by
  have hcall : Yields (alone spaceSchema order fun _ => True) false
      (call fmt (.commitTxn x)) (fun _ _ => True)
      (fun _ g => StoppedAt fmt s x g) (s, none) :=
    yields_bind (yields_mono commitTxn_visible
      (fun _ _ _ => yields_pure trivial) fun _ _ hE => hE)
  obtain ⟨r', i', hlast, hvisible⟩ := hcall.of_exec (fun _ _ => trivial) hrun
  obtain ⟨rfl, rfl⟩ := Prod.mk.inj (Option.some.inj hlast)
  exact hvisible.rows_eq_iff

end Commit

def loadingDock : SpaceTables :=
  (Tables.empty.insert .uncommitted (bufferItem epochFormat "x" (parcel "1"))).insert
    .uncommitted (bufferItem epochFormat "x" (parcel "2"))

def commitParcels (dock : SpaceTables) (choices : List Choice) :
    Option (State spaceSchema × Except Error SpaceResult) :=
  Client.exec (Client.noting (serve fun _ => .byKey)) (dock, none)
    (call epochFormat (.commitTxn "x")).run choices

/-- The first parcel is published, the put of the second one fails. -/
def halfCommit : State spaceSchema × Except Error SpaceResult :=
  (commitParcels loadingDock [.plain, .plain, .plain, outage]).get
    (by decide +kernel)

theorem commit_publishes_half :
    commitParcels loadingDock [.plain, .plain, .plain, outage] =
        some halfCommit ∧
      halfCommit.2 = .error (failed "put_item" "dispatch failure") ∧
      (halfCommit.1.1.get .tuples ("parcel-1", none)).isSome ∧
      halfCommit.1.1.rows .tuples ≠ loadingDock.rows .tuples := by
  refine ⟨rfl, rfl, rfl, fun hsame => ?_⟩
  have hempty : (halfCommit.1.1.rows .tuples).isEmpty = false := rfl
  rw [hsame] at hempty
  cases hempty

/-- The first parcel is visible already: an earlier commit has failed to delete
its row. -/
def secondTry : SpaceTables :=
  loadingDock.insert .tuples (tupleToItem epochFormat (parcel "1"))

theorem get_secondTry {id : String} {item : Item}
    (h : secondTry.get .uncommitted ("x", some id) = some item) :
    id = "parcel-1" ∧ item = bufferItem epochFormat "x" (parcel "1") ∨
      id = "parcel-2" := by
  have hkey := fun n => keyOf_bufferItem epochFormat (.inl rfl) "x" (parcel n)
  rw [secondTry, Tables.get_insert (keyOf_tupleToItem epochFormat (parcel "1")),
    if_neg (by simp), loadingDock, Tables.get_insert (hkey "2")] at h
  split at h
  · next heq => exact .inr (by simpa [parcel] using heq.2.symm)
  · rw [Tables.get_insert (hkey "1")] at h
    split at h
    · next heq =>
      exact .inl ⟨by simpa [parcel] using heq.2.symm, (Option.some.inj h).symm⟩
    · simp [Tables.get, Tables.empty] at h

def secondFailure : State spaceSchema × Except Error SpaceResult :=
  (commitParcels secondTry [.plain, .plain, outage]).get (by decide +kernel)

/-- The commit stops inside its loop, after it has put the first parcel over
itself. -/
theorem failed_commit_invisible_iff_parcels :
    commitParcels secondTry [.plain, .plain, outage] = some secondFailure ∧
      secondFailure.2 = .error (failed "delete_item" "dispatch failure") ∧
      secondFailure.1.1.rows .tuples = secondTry.rows .tuples := by
  have hrun : commitParcels secondTry [.plain, .plain, outage] =
      some ((secondFailure.1.1, some (.deleteItem .uncommitted
        ("x", some "parcel-1") .always, outage)),
      .error (failed "delete_item" "dispatch failure")) := rfl
  refine ⟨rfl, rfl, (failed_commit_invisible_iff hrun).mpr ?_⟩
  rintro id item record hget ⟨id', hid', hle⟩ hrecord
  obtain rfl := Option.some.inj hid'
  rcases get_secondTry hget with ⟨rfl, rfl⟩ | rfl
  · rw [tupleFromItem_bufferItem] at hrecord
    obtain rfl := Except.ok.inj hrecord
    exact (Tables.get_insert (keyOf_tupleToItem epochFormat (parcel "1")) ..).trans
      (if_pos ⟨rfl, rfl⟩)
  · exact absurd (by decide) hle

end Coordin8.DynamoSpaceStore
