import Coordin8.Dynamo.SpaceCommit
import Coordin8.Support.Pool

/-!
# Takes that run at the same time

Any number of `take_match` calls on one set of tables, their requests
interleaved in any way.  A call claims a tuple with the request that deletes it.
The delete of a committed tuple is conditional, so only one call can claim it;
the delete of a transaction's own write is not.
-/

namespace Coordin8.DynamoSpaceStore

open Support Dynamo Fallible

/-- The requests of a take and what they tell it; the state is the tuple it has
claimed.  The delete of an own write counts as a claim. -/
def takeContract :
    Client.Contract (Request SpaceTable String) Request.Answer
      (Option String) where
  allowed claimed
    | .readPage .. => True
    | .putItem t _ _ => t = .txnTaken
    | .deleteItem .tuples _ condition =>
        condition = .itemExists ∧ claimed = none
    | .deleteItem .uncommitted _ condition =>
        condition = .always ∧ claimed = none
    | _ => False
  answers claimed r answer claimed' :=
    match r with
    | .deleteItem .tuples k _ =>
        match answer with
        | .ok (some item) =>
            item.text "tuple_id" = some k.1 ∧ claimed' = some k.1
        | _ => claimed' = claimed
    | .deleteItem .uncommitted k _ =>
        match answer with
        | .ok _ => claimed' = k.2
        | .error _ => claimed' = claimed
    | _ => claimed' = claimed

/-- What a take returns is what it has claimed. -/
def Claims (o : Option TupleRecord) (claimed : Option String) : Prop :=
  ∀ record, o = some record → claimed = some record.tupleId

section Takes

variable {fmt : Rfc3339} {ops : DashMap String MatchOp}

theorem put_claims {item : Item} {record : TupleRecord} {claimed : Option String}
    (h : claimed = some record.tupleId) :
    Yields takeContract false (do
      send (.putItem .txnTaken item .always) "put_item (txn_taken)"
      pure (some record))
      (fun o claimed => o = some record ∧ claimed = some record.tupleId)
      (fun _ _ => True) claimed := by
  refine yields_bind (yields_send_of rfl ?_ fun _ _ _ => trivial)
  rintro output claimed' rfl
  exact yields_pure ⟨rfl, h⟩

theorem takeCommitted_claims (txnId : Option String) (record : TupleRecord) :
    Yields takeContract false (takeCommitted fmt txnId record)
      (fun o claimed => Claims o claimed ∧ (o = none → claimed = none))
      (fun _ _ => True) none := by
  refine yields_bind (yields_attempt_of ⟨rfl, rfl⟩ fun answer claimed h => ?_)
  cases answer with
  | error e =>
      cases e with
      | conditionalCheckFailed => exact yields_pure ⟨by simp [Claims], fun _ => h⟩
      | other text => exact yields_throw trivial
  | ok old =>
      cases old with
      | none => exact yields_pure ⟨by simp [Claims], fun _ => h⟩
      | some item =>
          obtain ⟨hid, hclaimed⟩ := h
          refine yields_bind (yields_propagate ?_ fun _ _ => trivial)
          intro taken hdecode
          have htaken : claimed = some taken.tupleId := by
            rw [hclaimed, ← hid, (text_of_tupleFromItem hdecode).1]
          have hclaims : Claims (some taken) claimed := by
            intro r hr
            rw [htaken, Option.some.inj hr]
          cases txnId with
          | none => exact yields_pure ⟨hclaims, by simp⟩
          | some tid =>
              refine yields_mono (put_claims htaken) ?_ fun _ _ h => h
              rintro o claimed' ⟨rfl, hclaimed'⟩
              rw [hclaimed', ← htaken]
              exact ⟨hclaims, by simp⟩

theorem takeVisible_claims (txnId : Option String) :
    Yields takeContract false (takeVisible fmt ops txnId) Claims
      (fun _ _ => True) none := by
  refine yields_bind (yields_readAll_of (fun _ => trivial) (fun _ _ _ h => h)
    ?_ fun _ => trivial)
  intro items
  refine yields_firstThat (I := fun claimed => claimed = none)
    (P := fun _ => True) (fun _ _ _ _ _ _ => trivial) ?_
    (fun _ _ _ => by simp [Claims]) rfl
  rintro item - record claimed - - rfl
  refine yields_mono (takeCommitted_claims txnId record) ?_ fun _ _ h => h
  rintro o claimed ⟨hclaims, hnone⟩
  cases o with
  | none => exact ⟨trivial, hnone rfl⟩
  | some r => exact hclaims

theorem takeMatch_claims (fmt : Rfc3339) (template : Attrs)
    (txnId : Option String) :
    Yields takeContract false (takeMatch fmt template txnId) Claims
      (fun _ _ => True) none := by
  cases txnId with
  | none => exact takeVisible_claims none
  | some tid =>
      refine yields_bind (yields_readAll_of (fun _ => trivial)
        (fun _ _ _ h => h) ?_ fun _ => trivial)
      intro items
      refine yields_bind ?_
      refine yields_firstThat (I := fun claimed => claimed = none)
        (P := fun _ => True) (fun _ _ _ _ _ _ => trivial) ?_ ?_ rfl
      · rintro item - record claimed - - rfl
        refine yields_bind (yields_send_of ⟨rfl, rfl⟩ ?_ fun _ _ _ => trivial)
        rintro output claimed rfl
        refine yields_mono (put_claims rfl) ?_ fun _ _ h => h
        rintro o claimed ⟨rfl, rfl⟩
        refine yields_pure fun r hr => ?_
        rw [Option.some.inj hr]
      · rintro - claimed rfl
        exact takeVisible_claims (some tid)

end Takes

/-! ## The calls as tasks -/

/-- A call of `take_match`, before its first request or between two of them. -/
inductive TakeTask where
  | start (template : Attrs) (txnId : Option String)
  | running (client : Client (Request SpaceTable String) Request.Answer
      (Except Error (Option TupleRecord)))

variable (fmt : Rfc3339)

/-- What the call still does. -/
def TakeTask.client : TakeTask → Client (Request SpaceTable String)
    Request.Answer (Except Error (Option TupleRecord))
  | .start template txnId => (takeMatch fmt template txnId).run
  | .running client => client

/-- What the call has returned. -/
def TakeTask.result (task : TakeTask) :
    Option (Except Error (Option TupleRecord)) :=
  match (task.client fmt).next with
  | .inl result => some result
  | .inr _ => none

/-- Each move of a call is one request. -/
def takeProgram (order : SpaceTable → Listing (Key String) Item) :
    Program SpaceTables TakeTask Unit Choice Empty where
  entry
    | .start .. => true
    | .running _ => false
  advance _ s task choice :=
    match (task.client fmt).next with
    | .inl _ => none
    | .inr ⟨r, rest⟩ =>
        some ((serve order s r choice).1,
          .running (rest (serve order s r choice).2), [])
  ambient _ event := nomatch event

abbrev TakeProc := Pool SpaceTables TakeTask Unit

/-- The delete of an own write, unless the request fails, finds its row. -/
def findsRow (s : TakeProc) : PoolAct TakeTask Choice Empty → Bool
  | .step i choice =>
      match s.tasks[i]? with
      | none => true
      | some task =>
          match (task.client fmt).next with
          | .inr ⟨.deleteItem .uncommitted k _, _⟩ =>
              choice.fault.isSome || (s.shared.get .uncommitted k).isSome
          | _ => true
  | _ => true

/-- The tables a take deletes from. -/
def Takeable (t : SpaceTable) : Prop :=
  t = .tuples ∨ t = .uncommitted

/-- The tuple a row is about. -/
def rowTuple : SpaceTable → Key String → Option String
  | .tuples, k => some k.1
  | .uncommitted, k | .txnTaken, k => k.2
  | .watches, _ => none

/-- A tuple that can be taken is in one row. -/
def OnePlace (s : SpaceTables) : Prop :=
  ∀ t k t' k' id, Takeable t → Takeable t' → rowTuple t k = some id →
    rowTuple t' k' = some id → (s.get t k).isSome → (s.get t' k').isSome →
    (t, k) = (t', k')

/-- What each call has claimed: nothing is claimed twice, and what is claimed
can no longer be taken. -/
structure ClaimedOnce (s : TakeProc) (claims : Nat → Option String) : Prop where
  tasks : ∀ i (task : TakeTask), s.tasks[i]? = some task →
    Yields takeContract false (ExceptT.mk (task.client fmt)) Claims
      (fun _ _ => True) (claims i)
  idle : ∀ i, s.tasks.length ≤ i → claims i = none
  unique : ∀ i j id, claims i = some id → claims j = some id → i = j
  gone : ∀ i id, claims i = some id → ∀ t k, Takeable t →
    rowTuple t k = some id → s.shared.get t k = none
  onePlace : OnePlace s.shared

section Step

variable {fmt} {order : SpaceTable → Listing (Key String) Item}
  {s : SpaceTables} {r : Request SpaceTable String} {claimed : Option String}
  {choice : Choice}

/-- A request of a take leaves all rows that can be taken alone and tells the
call nothing new, or deletes one of them and claims it. -/
theorem serve_take (order : SpaceTable → Listing (Key String) Item)
    (hallowed : takeContract.allowed claimed r)
    (hfinds : ∀ k condition, r = .deleteItem .uncommitted k condition →
      choice.fault.isSome ∨ (s.get .uncommitted k).isSome) :
    (takeContract.answers claimed r (serve order s r choice).2 claimed ∧
      ∀ t k, Takeable t → (serve order s r choice).1.get t k = s.get t k) ∨
    ∃ t k id, Takeable t ∧ rowTuple t k = some id ∧ (s.get t k).isSome ∧
      (serve order s r choice).1 = s.erase t k ∧
      takeContract.answers claimed r (serve order s r choice).2 (some id) := by
  cases hfault : choice.fault with
  | some text =>
      -- A request that fails does nothing.
      rw [serve_of_fault hfault]
      refine Or.inl ⟨?_, fun _ _ _ => rfl⟩
      cases r with
      | deleteItem t k condition =>
          cases t with
          | tuples | uncommitted => rfl
          | txnTaken | watches => exact hallowed.elim
      | readPage | putItem => rfl
      | getItem | addOne | batchDelete => exact hallowed.elim
  | none =>
      rw [serve_of_none hfault]
      cases r with
      | readPage t selection start limit =>
          exact Or.inl ⟨rfl, fun _ _ _ => rfl⟩
      | putItem t item condition =>
          obtain rfl : t = .txnTaken := hallowed
          refine Or.inl ⟨rfl, fun u k hu => ?_⟩
          simp only [perform]
          cases hkey : spaceSchema.keyOf .txnTaken item with
          | none => rfl
          | some key =>
              simp only
              split
              · rw [Tables.get_insert hkey, if_neg]
                rintro ⟨rfl, -⟩
                rcases hu with hu | hu <;> cases hu
              · rfl
      | deleteItem t k condition =>
          cases t with
          | tuples =>
              obtain ⟨rfl, rfl⟩ := hallowed
              cases hget : s.get .tuples k with
              | none =>
                  simp only [perform, Condition.holds, hget]
                  exact Or.inl ⟨rfl, fun _ _ _ => rfl⟩
              | some item =>
                  have hkey := s.keyed .tuples k item hget
                  rw [keyOf_tuples] at hkey
                  obtain ⟨id, hid, rfl⟩ := Option.map_eq_some_iff.mp hkey
                  refine Or.inr ⟨.tuples, (id, none), id, Or.inl rfl, rfl,
                    by rw [hget]; rfl, ?_⟩
                  simp only [perform, Condition.holds, hget]
                  exact ⟨rfl, hid, rfl⟩
          | uncommitted =>
              obtain ⟨rfl, rfl⟩ := hallowed
              have hsome : (s.get .uncommitted k).isSome := by
                rcases hfinds k .always rfl with h | h
                · rw [hfault] at h
                  cases h
                · exact h
              obtain ⟨item, hget⟩ := Option.isSome_iff_exists.mp hsome
              obtain ⟨x, id, rfl, -, -⟩ := key_of_get_buffer (Or.inl rfl) hget
              refine Or.inr ⟨.uncommitted, (x, some id), id, Or.inr rfl, rfl,
                hsome, ?_⟩
              simp only [perform, Condition.holds]
              exact ⟨rfl, rfl⟩
          | txnTaken | watches => exact hallowed.elim
      | getItem | addOne | batchDelete => exact hallowed.elim

theorem OnePlace.erase (h : OnePlace s) (t : SpaceTable) (k : Key String) :
    OnePlace (s.erase t k) := by
  have hold : ∀ u k', ((s.erase t k).get u k').isSome → (s.get u k').isSome := by
    intro u k' hsome
    rw [Tables.get_erase] at hsome
    split at hsome
    · cases hsome
    · exact hsome
  intro u k₁ u' k₂ id hu hu' hid hid' h₁ h₂
  exact h u k₁ u' k₂ id hu hu' hid hid' (hold u k₁ h₁) (hold u' k₂ h₂)

variable {p p' : TakeProc} {claims : Nat → Option String}

/-- A call moves on, having claimed `c`. -/
theorem ClaimedOnce.move (h : ClaimedOnce fmt p claims) {i : Nat}
    {call : SpaceStoreCall (Option TupleRecord)} {c : Option String}
    (hi : i < p.tasks.length)
    (hcall : Yields takeContract false call Claims (fun _ _ => True) c)
    (hown : ∀ j id, claims j = some id → c = some id → j = i)
    (hclaims : ∀ j id, claims j = some id → ∀ t k, Takeable t →
      rowTuple t k = some id → s.get t k = none)
    (hc : ∀ id, c = some id → ∀ t k, Takeable t → rowTuple t k = some id →
      s.get t k = none)
    (hplace : OnePlace s) :
    ClaimedOnce fmt ⟨s, p.tasks.set i (.running call), p.log⟩
      (Function.update claims i c) := by
  refine ⟨?_, ?_, ?_, ?_, hplace⟩
  · intro j task hj
    rcases getElem?_set_cases hj with ⟨rfl, rfl⟩ | ⟨hij, hj⟩
    · rw [Function.update_self]
      exact hcall
    · rw [Function.update_of_ne hij.symm]
      exact h.tasks j task hj
  · intro j hj
    rw [List.length_set] at hj
    rw [Function.update_of_ne (by omega)]
    exact h.idle j hj
  · intro j j' id hj hj'
    by_cases hij : j = i <;> by_cases hij' : j' = i
    · rw [hij, hij']
    · rw [hij, Function.update_self] at hj
      rw [Function.update_of_ne hij'] at hj'
      exact absurd (hown j' id hj' hj) hij'
    · rw [hij', Function.update_self] at hj'
      rw [Function.update_of_ne hij] at hj
      exact absurd (hown j id hj hj') hij
    · rw [Function.update_of_ne hij] at hj
      rw [Function.update_of_ne hij'] at hj'
      exact h.unique j j' id hj hj'
  · intro j id hj
    by_cases hij : j = i
    · rw [hij, Function.update_self] at hj
      exact hc id hj
    · rw [Function.update_of_ne hij] at hj
      exact hclaims j id hj

/-- A call that makes a request stays within what it has claimed, or claims a
tuple that nobody had. -/
theorem ClaimedOnce.request (h : ClaimedOnce fmt p claims) {i : Nat}
    {task : TakeTask} {rest : r.Answer → Client (Request SpaceTable String)
      Request.Answer (Except Error (Option TupleRecord))}
    (htask : p.tasks[i]? = some task)
    (hnext : (task.client fmt).next = .inr ⟨r, rest⟩)
    (hfinds : ∀ k condition, r = .deleteItem .uncommitted k condition →
      choice.fault.isSome ∨ (p.shared.get .uncommitted k).isSome) :
    ∃ claims', ClaimedOnce fmt
      ⟨(serve order p.shared r choice).1,
        p.tasks.set i (.running (rest (serve order p.shared r choice).2)),
        p.log⟩ claims' := by
  have hi : i < p.tasks.length := (List.getElem?_eq_some_iff.mp htask).1
  have hmeets : Client.Meets _ _ (task.client fmt) _ _ := h.tasks i task htask
  replace hmeets := hmeets.next
  rw [hnext] at hmeets
  obtain ⟨hallowed, hrest⟩ := hmeets
  rcases serve_take order hallowed hfinds with
    ⟨hanswer, hsame⟩ | ⟨t, k, id, ht, hid, hsome, hserve, hanswer⟩
  · have hgone : ∀ j id, claims j = some id → ∀ t k, Takeable t →
        rowTuple t k = some id →
        (serve order p.shared r choice).1.get t k = none := by
      intro j id hj t k ht hid
      rw [hsame t k ht]
      exact h.gone j id hj t k ht hid
    refine ⟨_, h.move hi (hrest _ _ hanswer) (h.unique · i) hgone (hgone i) ?_⟩
    intro t k t' k' id ht ht' hid hid' h₁ h₂
    rw [hsame t k ht] at h₁
    rw [hsame t' k' ht'] at h₂
    exact h.onePlace t k t' k' id ht ht' hid hid' h₁ h₂
  · refine ⟨_, h.move hi (hrest _ _ hanswer) ?_ ?_ ?_
      (hserve ▸ h.onePlace.erase t k)⟩
    · -- Nobody had claimed the tuple, because its row was there.
      intro j id' hj hid'
      obtain rfl := Option.some.inj hid'
      rw [h.gone j id hj t k ht hid] at hsome
      cases hsome
    · intro j id' hj u k' hu hid'
      rw [hserve, Tables.get_erase, h.gone j id' hj u k' hu hid', ite_self]
    · -- Its row was the only one, and is deleted.
      intro id' hid' u k' hu hu'
      obtain rfl := Option.some.inj hid'
      rw [hserve, Tables.get_erase]
      split
      · rfl
      · next hne =>
        by_contra hsome'
        have hone := h.onePlace t k u k' id ht hu hid hu' hsome
          (Option.isSome_iff_ne_none.mpr hsome')
        obtain ⟨rfl, rfl⟩ := Prod.mk.inj hone
        exact hne ⟨rfl, rfl⟩

theorem ClaimedOnce.step (h : ClaimedOnce fmt p claims)
    {act : PoolAct TakeTask Choice Empty} (hfinds : findsRow fmt p act = true)
    (hstep : (takeProgram fmt order).step p act = some p') :
    ∃ claims', ClaimedOnce fmt p' claims' := by
  cases act with
  | call task =>
      obtain ⟨hentry, rfl⟩ := Program.step_call.mp hstep
      refine ⟨claims, ?_, ?_, h.unique, h.gone, h.onePlace⟩
      · intro i task' hi
        rcases Nat.lt_trichotomy i p.tasks.length with hlt | rfl | hgt
        · rw [List.getElem?_append_left hlt] at hi
          exact h.tasks i task' hi
        · rw [List.getElem?_concat_length] at hi
          obtain rfl := Option.some.inj hi
          rw [h.idle _ (Nat.le_refl _)]
          cases task with
          | start template txnId => exact takeMatch_claims fmt template txnId
          | running client => cases hentry
        · rw [List.getElem?_eq_none (by simp; omega)] at hi
          cases hi
      · intro i hi
        refine h.idle i ?_
        rw [List.length_append] at hi
        omega
  | step i choice =>
      obtain ⟨task, shared, task', events, htask, hadv, rfl⟩ :=
        Program.step_step.mp hstep
      simp only [takeProgram] at hadv
      split at hadv
      · cases hadv
      · next r rest hnext =>
        simp only [Option.some.injEq, Prod.mk.injEq] at hadv
        obtain ⟨rfl, rfl, rfl⟩ := hadv
        rw [List.append_nil]
        refine h.request htask hnext fun k condition hr => ?_
        subst hr
        simpa [findsRow, htask, hnext] using hfinds
  | ambient event => cases event

/-- In every interleaving of takes in which each delete of an own write finds
its row, no two calls return the same tuple. -/
theorem take_claims_once {s₀ : SpaceTables} (hplace : OnePlace s₀)
    {acts : List (PoolAct TakeTask Choice Empty)}
    (hrun : run (takeProgram fmt order).step ⟨s₀, [], []⟩ acts = some p)
    (hmeet : StepsMeet (takeProgram fmt order).step
      (fun p act => findsRow fmt p act = true) ⟨s₀, [], []⟩ acts)
    {i j : Nat} {task task' : TakeTask} {record record' : TupleRecord}
    (hi : p.tasks[i]? = some task) (hj : p.tasks[j]? = some task')
    (hresult : task.result fmt = some (.ok (some record)))
    (hresult' : task'.result fmt = some (.ok (some record')))
    (hij : i ≠ j) : record.tupleId ≠ record'.tupleId := by
  have hclaimed : ∃ claims, ClaimedOnce fmt p claims := by
    refine run_invariant_of_stepsMeet
      (P := fun p => ∃ claims, ClaimedOnce fmt p claims) ?_ ?_ hrun hmeet
    · refine ⟨fun _ => none, ?_, fun _ _ => rfl, ?_, ?_, hplace⟩
      · intro i task hi
        simp at hi
      · intro i j id hi
        cases hi
      · intro i id hi
        cases hi
    · rintro p act p' - ⟨claims, hclaims⟩ hfinds hstep
      exact hclaims.step hfinds hstep
  obtain ⟨claims, hclaims⟩ := hclaimed
  have hresult_claims : ∀ i task record, p.tasks[i]? = some task →
      task.result fmt = some (.ok (some record)) →
      claims i = some record.tupleId := by
    intro i task record hi hresult
    have hmeets : Client.Meets _ _ (task.client fmt) _ _ :=
      hclaims.tasks i task hi
    replace hmeets := hmeets.next
    unfold TakeTask.result at hresult
    split at hresult
    · next result hnext =>
      rw [hnext, Option.some.inj hresult] at hmeets
      exact hmeets record rfl
    · cases hresult
  have hc := hresult_claims i task record hi hresult
  have hc' := hresult_claims j task' record' hj hresult'
  intro hid
  exact hij (hclaims.unique i j _ hc (hid ▸ hc'))

end Step

/-! ## Two calls under one transaction -/

/-- A transaction has written one parcel. -/
def consigned : SpaceTables :=
  Tables.empty.insert .uncommitted (bufferItem epochFormat "x" (parcel "1"))

def takesUnder (s : SpaceTables) (acts : List (PoolAct TakeTask Choice Empty)) :
    Option TakeProc :=
  run (takeProgram epochFormat fun _ => .byKey).step ⟨s, [], []⟩ acts

/-- Two calls read the parcel, and then both delete it. -/
def raceActs : List (PoolAct TakeTask Choice Empty) :=
  [.call (.start ∅ (some "x")), .call (.start ∅ (some "x")),
    .step 0 .plain, .step 1 .plain, .step 0 .plain, .step 1 .plain,
    .step 0 .plain, .step 1 .plain]

def race : TakeProc :=
  (takesUnder consigned raceActs).get (by decide +kernel)

def returnedBy (p : TakeProc) (i : Nat) :
    Option (Except Error (Option TupleRecord)) :=
  p.tasks[i]?.bind (TakeTask.result epochFormat)

theorem onePlace_of_rows {s : SpaceTables} {x : String}
    (h : ∀ t k, Takeable t → (s.get t k).isSome →
      t = .uncommitted ∧ k.1 = x) : OnePlace s := by
  intro t k t' k' id ht ht' hid hid' hsome hsome'
  obtain ⟨rfl, hx⟩ := h t k ht hsome
  obtain ⟨rfl, hx'⟩ := h t' k' ht' hsome'
  obtain ⟨y, sort⟩ := k
  obtain ⟨y', sort'⟩ := k'
  have hsort : sort = some id := hid
  have hsort' : sort' = some id := hid'
  rw [hsort, hsort', show y = x from hx, show y' = x from hx']

theorem onePlace_consigned : OnePlace consigned := by
  refine onePlace_of_rows (x := "x") fun t k _ hsome => ?_
  rw [consigned, Tables.get_insert
    (keyOf_bufferItem epochFormat (Or.inl rfl) "x" (parcel "1"))] at hsome
  split at hsome
  · next h => exact ⟨h.1, by rw [← h.2]⟩
  · cases hsome

theorem take_returned_twice :
    OnePlace consigned ∧ takesUnder consigned raceActs = some race ∧
      returnedBy race 0 = some (.ok (some (parcel "1"))) ∧
      returnedBy race 1 = some (.ok (some (parcel "1"))) :=
  ⟨onePlace_consigned, rfl, rfl, rfl⟩

/-- The second call reads the writes when the first one has deleted its row. -/
def turnActs : List (PoolAct TakeTask Choice Empty) :=
  [.call (.start ∅ (some "x")), .call (.start ∅ (some "x")),
    .step 0 .plain, .step 0 .plain, .step 1 .plain, .step 0 .plain,
    .step 1 .plain, .step 1 .plain]

def turns : TakeProc :=
  (takesUnder loadingDock turnActs).get (by decide +kernel)

theorem onePlace_loadingDock : OnePlace loadingDock := by
  refine onePlace_of_rows (x := "x") fun t k _ hsome => ?_
  rw [loadingDock, Tables.get_insert
    (keyOf_bufferItem epochFormat (Or.inl rfl) "x" (parcel "2"))] at hsome
  split at hsome
  · next h => exact ⟨h.1, by rw [← h.2]⟩
  · rw [Tables.get_insert
      (keyOf_bufferItem epochFormat (Or.inl rfl) "x" (parcel "1"))] at hsome
    split at hsome
    · next h => exact ⟨h.1, by rw [← h.2]⟩
    · cases hsome

theorem take_claims_once_turns :
    takesUnder loadingDock turnActs = some turns ∧
      returnedBy turns 0 = some (.ok (some (parcel "1"))) ∧
      returnedBy turns 1 = some (.ok (some (parcel "2"))) ∧
      (parcel "1").tupleId ≠ (parcel "2").tupleId := by
  have hmeet : StepsMeet (takeProgram epochFormat fun _ => .byKey).step
      (fun p act => findsRow epochFormat p act = true) ⟨loadingDock, [], []⟩
      turnActs := by
    decide +kernel
  obtain ⟨task, htask, hresult⟩ := Option.bind_eq_some_iff.mp
    (show returnedBy turns 0 = some (.ok (some (parcel "1"))) from rfl)
  obtain ⟨task', htask', hresult'⟩ := Option.bind_eq_some_iff.mp
    (show returnedBy turns 1 = some (.ok (some (parcel "2"))) from rfl)
  have hrun : takesUnder loadingDock turnActs = some turns := rfl
  exact ⟨hrun, rfl, rfl, take_claims_once onePlace_loadingDock hrun hmeet
    htask htask' hresult hresult' (by decide)⟩

end Coordin8.DynamoSpaceStore
