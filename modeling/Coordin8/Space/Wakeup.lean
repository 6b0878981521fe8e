import Coordin8.Space.Moves

/-!
# No lost wake-ups

A call that waits for a tuple has subscribed to the broadcast before it searched
the store.  A tuple becomes visible by a write, a commit or an abort, and each
of these keeps the tuple in hand, `SpacePc.announcing`, until it has broadcast
it.  So every match of a parked call is on its way to it: some task still has to
send it, or it is in the part of the broadcast that the call has not received.
Lag loses nothing, because a call that lags searches the store again.

A write under a transaction is not announced to anybody.  A call that waits
under the same transaction could see the tuple, but it is not woken for it.
-/

namespace Coordin8

open Support Support.DashMap SpacePc

/-- The records a call still has to send on `tuple_tx`. -/
def SpacePc.announcing : SpacePc → List TupleRecord
  | .insertSend r _ => [r]
  | .unmark _ _ sends _ | .settleCancel _ _ sends _ => sends
  | .settleSend r sends _ => r :: sends
  | _ => []

/-- The record that the call sends on `tuple_tx` next. -/
def SpacePc.sending : SpacePc → Option TupleRecord
  | .insertSend r _ | .settleSend r _ _ => some r
  | _ => none

/-- The position in the broadcast of a call that has subscribed to it. -/
def SpacePc.position : SpacePc → Option Nat
  | .query _ _ cursor | .wait _ _ cursor => some cursor
  | _ => none

/-- The tuples the call is looking for. -/
def Query.Matches (q : Query) (r : TupleRecord) : Prop :=
  templateMatches (parseTemplate q.template) r.attrs = true

instance (q : Query) (r : TupleRecord) : Decidable (q.Matches r) :=
  inferInstanceAs (Decidable (_ = true))

/-! ## Searches that find nothing -/

namespace InMemorySpaceStore

variable {s : InMemorySpaceStore} {it : TupleIteration} {q : Query}

theorem not_matches_of_find?_entries
    (hfind : ((it.entries s.tuples).find? fun e =>
      templateMatches (parseTemplate q.template) e.2.attrs) = none)
    {t : String} {r : TupleRecord} (ht : s.tuples[t]? = some r) :
    ¬ q.Matches r :=
  List.find?_eq_none.mp hfind (t, r) (it.mem_entries.mpr ht)

/-- Nothing the call may see matches. -/
def Barren (s : InMemorySpaceStore) (q : Query) : Prop :=
  (∀ (t : String) r, s.tuples[t]? = some r → ¬ q.Matches r) ∧
    ∀ x, q.txnId = some x → ∀ r ∈ bucket s.uncommitted x, ¬ q.Matches r

theorem barren_of_findMatch
    (hnone : s.findMatch it q.template q.txnId = none) : s.Barren q := by
  simp only [findMatch] at hnone
  split at hnone
  · cases hnone
  · next hfind =>
    refine ⟨fun t r ht => not_matches_of_find?_entries hfind ht, ?_⟩
    intro x hx r hr
    rw [hx] at hnone
    exact List.find?_eq_none.mp hnone r hr

theorem find?_entries_of_takeCommitted {txnId : Option String}
    (hnone : (s.takeCommitted it (parseTemplate q.template) txnId).1 = none) :
    ((it.entries s.tuples).find? fun e =>
      templateMatches (parseTemplate q.template) e.2.attrs) = none := by
  unfold takeCommitted at hnone
  split at hnone
  · assumption
  · next t r hfind =>
    have hget := it.mem_entries.mp (List.mem_of_find?_eq_some hfind)
    simp [hget] at hnone

theorem barren_of_takeMatch
    (hnone : (s.takeMatch it q.template q.txnId).1 = none) :
    (s.takeMatch it q.template q.txnId).2.Barren q := by
  cases hx : q.txnId with
  | none =>
      rw [hx] at hnone
      have hfind := find?_entries_of_takeCommitted hnone
      have hsame : s.takeMatch it q.template none = (none, s) := by
        simp [takeMatch, takeCommitted, hfind]
      rw [hsame]
      refine ⟨fun t r ht => not_matches_of_find?_entries hfind ht, ?_⟩
      intro x hx'
      rw [hx] at hx'
      cases hx'
  | some x =>
      rw [hx] at hnone
      cases hown : s.takeUncommitted (parseTemplate q.template) x with
      | some taken => simp [takeMatch, hown] at hnone
      | none =>
          simp only [takeMatch, hown] at hnone
          have hfind := find?_entries_of_takeCommitted hnone
          have hsame : s.takeMatch it q.template (some x) = (none, s) := by
            simp [takeMatch, hown, takeCommitted, hfind]
          rw [hsame]
          refine ⟨fun t r ht => not_matches_of_find?_entries hfind ht, ?_⟩
          intro y hy r hr
          obtain rfl := Option.some.inj (hx.symm.trans hy)
          have hwrites : ∀ r ∈ bucket s.uncommitted x,
              templateMatches (parseTemplate q.template) r.attrs = false := by
            unfold takeUncommitted at hown
            split at hown
            · next htake => exact takeFirst_eq_none.mp htake
            · cases hown
          simp [Query.Matches, hwrites r hr]

end InMemorySpaceStore

/-! ## What one move announces -/

section Announcing

variable {config : SpaceConfig} {i : Nat} {h h' : SpaceHost} {pc pc' : SpacePc}
  {events : List SpaceEvent} {op : SpaceOp} {result : SpaceResult}
  {r : TupleRecord} {mode : Mode} {q : Query} {c c' : Nat}

theorem SpacePc.announcing_settle (todo sends : List TupleRecord)
    (reply : SpaceReply) : (settle todo sends reply).announcing = sends := by
  unfold settle
  split <;> rfl

theorem SpacePc.position_settle (todo sends : List TupleRecord)
    (reply : SpaceReply) : (settle todo sends reply).position = none := by
  unfold settle
  split <;> rfl

theorem SpacePc.announcing_afterLease {lpc : LeasePc}
    (hafter : pc.afterLease lpc = some pc') :
    pc'.announcing = pc.announcing ∧ pc'.position = none := by
  cases pc with
  | cancelTaken | leaseCall | lease =>
      cases lpc <;> cases hafter <;> exact ⟨rfl, rfl⟩
  | settleCancel pc todo sends reply =>
      cases lpc <;> cases hafter <;>
        first
        | exact ⟨rfl, rfl⟩
        | exact ⟨announcing_settle .., position_settle ..⟩
  | _ => cases hafter

theorem Calls.announcing_eq_nil (hcalls : Calls pc op result pc') :
    pc.announcing = [] := by
  cases hcalls <;> rfl

theorem SpaceMove.announcing (hmove : SpaceMove config i h pc h' pc' events)
    (hr : r ∈ pc.announcing) :
    r ∈ pc'.announcing ∨ h'.tupleTx = h.tupleTx ++ [r] := by
  cases hmove with
  | store hcalls =>
      rw [hcalls.announcing_eq_nil] at hr
      cases hr
  | pass hpasses => cases hpasses <;> cases hr
  | drawFailed hpc => cases pc <;> cases hpc <;> cases hr
  | unmark =>
      left
      rw [announcing_settle]
      exact hr
  | sendNew =>
      right
      obtain rfl := List.mem_singleton.mp hr
      rfl
  | sendSettled =>
      rcases List.mem_cons.mp hr with rfl | hr
      · exact Or.inr rfl
      · left
        rw [announcing_settle]
        exact hr
  | lease _ _ hafter =>
      left
      rw [(announcing_afterLease hafter).1]
      exact hr
  | _ => cases hr

theorem SpaceMove.tupleTx_cases (hmove : SpaceMove config i h pc h' pc' events) :
    h'.tupleTx = h.tupleTx ∨
      ∃ r, pc.sending = some r ∧ h'.tupleTx = h.tupleTx ++ [r] := by
  cases hmove with
  | sendNew | sendSettled => exact Or.inr ⟨_, rfl, rfl⟩
  | _ => exact Or.inl rfl

/-- A record becomes visible by a call that goes on to announce it. -/
theorem LedgerStep.visible_cases {H H' : Holdings}
    (hstep : LedgerStep H op result H') (hcalls : Calls pc op result pc')
    (hr : (.committed, r) ∈ H') :
    (.committed, r) ∈ H ∨ r ∈ pc'.announcing := by
  rcases hstep.mem_after hr with
    hold | ⟨rfl, -⟩ | ⟨x, -, hplace⟩ | ⟨p, -, hmoved⟩
  · exact Or.inl hold
  · cases hcalls with
    | insert => exact Or.inr (List.mem_singleton_self r)
  · cases hplace
  · cases hmoved with
    | publish x writes taken _ hr =>
        cases hcalls with
        | commitTxn => exact Or.inr hr
    | restore x discarded taken _ hr =>
        cases hcalls with
        | abortTxn => exact Or.inr hr

theorem SpacePc.afterQuery_eq_wait {mode₁ : Mode} {q₁ : Query} {c₁ : Nat}
    {found : Option TupleRecord}
    (heq : afterQuery mode₁ q₁ c₁ found = .wait mode q c) :
    found = none ∧ mode₁ = mode ∧ q₁ = q ∧ c₁ = c := by
  unfold afterQuery at heq
  split at heq
  · split at heq <;> cases heq
  · split at heq
    · obtain ⟨hmode, hq, hc⟩ := SpacePc.wait.inj heq
      exact ⟨rfl, hmode, hq, hc⟩
    · cases heq

theorem Calls.parked
    (hcalls : Calls pc op (h.store.exec op).1 (.wait mode q c)) :
    pc = .query mode q c ∧ (h.store.exec op).2.Barren q := by
  generalize hresult : (h.store.exec op).1 = result at hcalls
  generalize hpc' : SpacePc.wait mode q c = pc' at hcalls
  cases hcalls with
  | findMatch it q₁ cursor found =>
      obtain ⟨rfl, rfl, rfl, rfl⟩ := afterQuery_eq_wait hpc'.symm
      have hnone := SpaceResult.tuple.inj hresult
      exact ⟨rfl, InMemorySpaceStore.barren_of_findMatch hnone⟩
  | takeMatch it q₁ cursor found =>
      obtain ⟨rfl, rfl, rfl, rfl⟩ := afterQuery_eq_wait hpc'.symm
      have hnone := SpaceResult.tuple.inj hresult
      exact ⟨rfl, InMemorySpaceStore.barren_of_takeMatch hnone⟩
  | prepareAndCommit x hasState => cases hasState <;> cases hpc'
  | _ => cases hpc'

theorem SpacePc.afterRecv_eq_wait {mode₁ : Mode} {q₁ : Query} {c₁ : Nat}
    {received : Recv TupleRecord}
    (heq : afterRecv mode₁ q₁ c₁ received = .wait mode q c) :
    mode₁ = mode ∧ q₁ = q ∧ c₁ = c ∧
      ∃ m, received = .message m ∧ ¬ q.Matches m := by
  unfold afterRecv at heq
  split at heq
  · next m =>
    split at heq
    · cases mode₁ <;> cases heq
    · next hmatch =>
      obtain ⟨rfl, rfl, rfl⟩ := SpacePc.wait.inj heq
      exact ⟨rfl, rfl, rfl, m, rfl, hmatch⟩
  · cases heq

/-- A call is parked after a search that found nothing, or goes on waiting when
it has received a tuple that it is not looking for. -/
theorem SpaceMove.parked
    (hmove : SpaceMove config i h pc h' (.wait mode q c') events) :
    (pc = .query mode q c' ∧ h'.store.Barren q) ∨
      ∃ c m, pc = .wait mode q c ∧ h' = h ∧ h.tupleTx[c]? = some m ∧
        ¬ q.Matches m ∧ c' = c + 1 := by
  generalize hpc' : SpacePc.wait mode q c' = pc' at hmove
  cases hmove with
  | store hcalls =>
      subst hpc'
      exact Or.inl hcalls.parked
  | pass hpasses =>
      right
      cases hpasses with
      | @received mode₁ q₁ c c₁ received hrecv =>
          obtain ⟨rfl, rfl, rfl, m, rfl, hmatch⟩ := afterRecv_eq_wait hpc'.symm
          obtain ⟨hget, hc⟩ := recv_eq_message hrecv
          exact ⟨c, m, rfl, rfl, hget, hmatch, hc⟩
      | @noEnlister x next | @known x next => cases next <;> cases hpc'
      | _ => cases hpc'
  | write =>
      unfold afterWrite at hpc'
      split at hpc' <;> cases hpc'
  | @mark x next => cases next <;> cases hpc'
  | unmark | sendSettled =>
      unfold settle at hpc'
      split at hpc' <;> cases hpc'
  | lease _ _ hafter =>
      subst hpc'
      exact absurd (announcing_afterLease hafter).2 (by simp [position])
  | _ => cases hpc'

theorem SpacePc.position_afterQuery {found : Option TupleRecord}
    (hc' : (afterQuery mode q c found).position = some c') : c' = c := by
  unfold afterQuery at hc'
  split at hc'
  · split at hc' <;> cases hc'
  · split at hc' <;> cases hc'
    rfl

theorem SpacePc.position_afterRecv {received : Recv TupleRecord}
    (hc' : (afterRecv mode q c received).position = some c') : c' = c := by
  unfold afterRecv at hc'
  split at hc'
  · split at hc'
    · cases mode <;> cases hc'
      rfl
    · cases hc'
      rfl
  · cases hc'
    rfl

theorem SpaceMove.position_le (hmove : SpaceMove config i h pc h' pc' events)
    (hle : ∀ c, pc.position = some c → c ≤ h.tupleTx.length)
    (hc' : pc'.position = some c') : c' ≤ h'.tupleTx.length := by
  cases hmove with
  | store hcalls =>
      generalize (h.store.exec _).1 = result at hcalls
      cases hcalls with
      | findMatch it q cursor | takeMatch it q cursor =>
          obtain rfl := position_afterQuery hc'
          exact hle c' rfl
      | prepareAndCommit x hasState => cases hasState <;> cases hc'
      | _ => cases hc'
  | pass hpasses =>
      cases hpasses with
      | subscribed =>
          cases hc'
          exact Nat.le_refl _
      | received hrecv =>
          obtain rfl := position_afterRecv hc'
          exact (recv_bounds hrecv).2
      | @noEnlister x next | @known x next => cases next <;> cases hc'
      | _ => cases hc'
  | write =>
      unfold afterWrite at hc'
      split at hc' <;> cases hc'
  | @mark x next => cases next <;> cases hc'
  | unmark | sendSettled =>
      rw [position_settle] at hc'
      cases hc'
  | lease _ _ hafter =>
      rw [(announcing_afterLease hafter).2] at hc'
      cases hc'
  | _ => cases hc'

end Announcing

/-! ## All interleavings -/

/-- Every match of a parked call is on its way to it. -/
structure Alert (s : SpaceProc) : Prop where
  positions : ∀ pc ∈ s.tasks, ∀ c, pc.position = some c →
    c ≤ s.shared.tupleTx.length
  owed : ∀ mode q c, .wait mode q c ∈ s.tasks → ∀ r,
    (.committed, r) ∈ s.shared.store.holdings → q.Matches r →
    r ∈ s.shared.tupleTx.drop c ∨ ∃ pc ∈ s.tasks, r ∈ pc.announcing

section Alert

variable {config : SpaceConfig} {s s' : SpaceProc} {i : Nat} {pc pc' : SpacePc}
  {h' : SpaceHost} {events : List SpaceEvent} {r : TupleRecord} {c : Nat}

theorem SpacePc.entry_announcing (hentry : pc.entry = true) :
    pc.announcing = [] ∧ pc.position = none ∧
      ∀ mode q c, pc ≠ .wait mode q c := by
  cases pc <;> first | exact ⟨rfl, rfl, nofun⟩ | cases hentry

theorem owed_step (hpc : s.tasks[i]? = some pc)
    (hmove : SpaceMove config i s.shared pc h' pc' events)
    (hle : c ≤ s.shared.tupleTx.length)
    (howed : r ∈ s.shared.tupleTx.drop c ∨ ∃ pc ∈ s.tasks, r ∈ pc.announcing) :
    r ∈ h'.tupleTx.drop c ∨ ∃ pc ∈ s.tasks.set i pc', r ∈ pc.announcing := by
  have hgrown : ∃ more, h'.tupleTx = s.shared.tupleTx ++ more := by
    rcases hmove.tupleTx_cases with heq | ⟨r, -, heq⟩
    · exact ⟨[], by simpa using heq⟩
    · exact ⟨[r], heq⟩
  obtain ⟨more, hmore⟩ := hgrown
  rcases howed with hr | ⟨pcj, hpcj, hr⟩
  · left
    rw [hmore]
    exact mem_drop_append hle (Or.inl hr)
  · obtain ⟨j, hj⟩ := List.mem_iff_getElem?.mp hpcj
    have hi : i < s.tasks.length := (List.getElem?_eq_some_iff.mp hpc).1
    by_cases heq : i = j
    · subst heq
      obtain rfl := Option.some.inj (hpc.symm.trans hj)
      rcases hmove.announcing hr with hr | hsent
      · exact Or.inr ⟨pc', List.mem_set hi pc', hr⟩
      · left
        rw [hsent]
        exact mem_drop_append hle (Or.inr (List.mem_singleton_self r))
    · have hj' : (s.tasks.set i pc')[j]? = some pcj :=
        (List.getElem?_set_ne heq).trans hj
      exact Or.inr ⟨pcj, List.mem_of_getElem? hj', hr⟩

theorem SpaceMove.visible_cases (hreach : SpaceReachable config s)
    (hpc : s.tasks[i]? = some pc)
    (hmove : SpaceMove config i s.shared pc h' pc' events)
    (hr : (.committed, r) ∈ h'.store.holdings) :
    (.committed, r) ∈ s.shared.store.holdings ∨ r ∈ pc'.announcing := by
  rcases hmove.events_cases with ⟨op, hcalls, hstore, -⟩ | ⟨hstore, -, -⟩
  · rw [hstore] at hr
    exact (hreach.ledgerStep hpc hcalls).visible_cases hcalls hr
  · rw [hstore] at hr
    exact Or.inl hr

theorem Alert.move (hreach : SpaceReachable config s) (halert : Alert s)
    (hpc : s.tasks[i]? = some pc)
    (hmove : SpaceMove config i s.shared pc h' pc' events) :
    Alert ⟨h', s.tasks.set i pc', s.log ++ events⟩ := by
  have hmem : pc ∈ s.tasks := List.mem_of_getElem? hpc
  have hi : i < s.tasks.length := (List.getElem?_eq_some_iff.mp hpc).1
  have hlength : s.shared.tupleTx.length ≤ h'.tupleTx.length := by
    rcases hmove.tupleTx_cases with heq | ⟨r, -, heq⟩ <;> simp [heq]
  constructor
  · intro pc'' hpc'' c hc
    rcases List.mem_or_eq_of_mem_set hpc'' with hold | rfl
    · exact (halert.positions pc'' hold c hc).trans hlength
    · exact hmove.position_le (halert.positions pc hmem) hc
  · intro mode q c hwait r hr hmatch
    -- A tuple that has just become visible is in the mover's hands.
    rcases hmove.visible_cases hreach hpc hr with hr' | hnew
    swap
    · exact Or.inr ⟨pc', List.mem_set hi pc', hnew⟩
    rcases List.mem_or_eq_of_mem_set hwait with hold | heq
    · have hle := halert.positions _ hold c rfl
      exact owed_step hpc hmove hle (halert.owed mode q c hold r hr' hmatch)
    subst heq
    rcases hmove.parked with ⟨-, hbarren, -⟩ | ⟨c₀, m, rfl, rfl, hget, hm, rfl⟩
    · obtain ⟨t, ht⟩ := InMemorySpaceStore.mem_holdings_committed.mp hr
      exact absurd hmatch (hbarren t r ht)
    · -- The message just received is not the match.
      have hle := halert.positions _ hmem c₀ rfl
      have howed := owed_step hpc hmove hle
        (halert.owed mode q c₀ hmem r hr' hmatch)
      refine howed.imp_left fun hdrop => ?_
      rcases mem_drop_cases hget hdrop with rfl | hdrop
      · exact absurd hmatch hm
      · exact hdrop

theorem Alert.step {act : SpaceAct} (hreach : SpaceReachable config s)
    (halert : Alert s) (hstep : (spaceProgram config).step s act = some s') :
    Alert s' := by
  -- A new task has neither subscribed nor anything to announce.
  have hspawn : ∀ {h' : SpaceHost} {new : List SpacePc},
      h'.store = s.shared.store → h'.tupleTx = s.shared.tupleTx →
      (∀ pc ∈ new, pc.position = none ∧ ∀ mode q c, pc ≠ .wait mode q c) →
      Alert ⟨h', s.tasks ++ new, s.log⟩ := by
    intro h' new hstore htx hnew
    constructor
    · intro pc hpc c hc
      dsimp only
      rw [htx]
      rcases List.mem_append.mp hpc with hpc | hpc
      · exact halert.positions pc hpc c hc
      · rw [(hnew pc hpc).1] at hc
        cases hc
    · intro mode q c hwait r hr hmatch
      dsimp only at hr ⊢
      rw [hstore] at hr
      rw [htx]
      rcases List.mem_append.mp hwait with hold | hwait
      · refine (halert.owed mode q c hold r hr hmatch).imp_right ?_
        rintro ⟨pc, hpc, hr⟩
        exact ⟨pc, List.mem_append_left _ hpc, hr⟩
      · exact absurd rfl ((hnew _ hwait).2 mode q c)
  cases act with
  | call pc =>
      obtain ⟨hentry, rfl⟩ := Program.step_call.mp hstep
      refine hspawn rfl rfl fun pc' hpc' => ?_
      obtain rfl := List.mem_singleton.mp hpc'
      exact (entry_announcing hentry).2
  | ambient event =>
      obtain ⟨shared, spawned, hamb, rfl⟩ := Program.step_ambient.mp hstep
      obtain ⟨hstore, -, -, htx, -, hspawned⟩ := SpaceHost.ambient_cases hamb
      refine hspawn hstore htx fun pc hpc => ?_
      obtain ⟨l, rfl | rfl⟩ := hspawned pc hpc <;> exact ⟨rfl, nofun⟩
  | step i choice =>
      obtain ⟨pc, shared, pc', events, hpc, hadv, rfl⟩ :=
        Program.step_step.mp hstep
      exact halert.move hreach hpc (SpaceMove.of_advance hadv)

theorem SpaceReachable.alert (hreach : SpaceReachable config s) : Alert s := by
  refine Reachable.invariant (P := Alert) ⟨by simp [SpaceProc.new],
    by simp [SpaceProc.new]⟩ ?_ hreach
  intro s act s' (hreach : SpaceReachable config s) halert hstep
  exact halert.step hreach hstep

/-- Nothing visible matches a parked call that has received everything, when no
task has anything to announce. -/
theorem Alert.no_match {mode : Mode} {q : Query} (halert : Alert s)
    (hwait : .wait mode q c ∈ s.tasks)
    (hidle : recv config.tupleCapacity s.shared.tupleTx c = none)
    (hquiet : ∀ pc ∈ s.tasks, pc.announcing = []) (t : String)
    (ht : s.shared.store.tuples[t]? = some r) : ¬ q.Matches r := by
  intro hmatch
  have hr := InMemorySpaceStore.mem_holdings_committed.mpr ⟨t, ht⟩
  rcases halert.owed mode q c hwait r hr hmatch with hdrop | ⟨pc, hpc, hann⟩
  · rw [List.drop_of_length_le (recv_eq_none.mp hidle)] at hdrop
    cases hdrop
  · rw [hquiet pc hpc] at hann
    cases hann

end Alert

/-- Whenever a `read` or `take` is parked, has received everything, and nothing
is about to be broadcast, no visible tuple matches its template. -/
theorem waiters_woken {config : SpaceConfig} {s : SpaceProc} {j c : Nat}
    {mode : Mode} {q : Query} (hreach : SpaceReachable config s)
    (hwait : s.tasks[j]? = some (.wait mode q c))
    (hidle : recv config.tupleCapacity s.shared.tupleTx c = none)
    (hquiet : ∀ pc ∈ s.tasks, pc.announcing = []) :
    ∀ (t : String) r, s.shared.store.tuples[t]? = some r → ¬ q.Matches r :=
  fun t _ ht =>
    hreach.alert.no_match (List.mem_of_getElem? hwait) hidle hquiet t ht

def dish (name : String) (txnId : Option String) : WriteRequest where
  attrs := (∅ : Attrs).insert "dish" name
  payload := []
  ttlSecs := 60
  writtenBy := "cook"
  inputTupleId := none
  txnId := txnId

/-- A blocking call for soup, without a timeout. -/
def soup (txnId : Option String) : Query where
  template := (∅ : Attrs).insert "dish" "soup"
  wait := true
  timeoutMs := 0
  txnId := txnId

/-- A take waits for soup; bread is served, which the take receives and does not
want. -/
def breadServed : List SpaceAct :=
  [.call (.take (soup none)), .step 0 .go, .step 0 .go, .step 0 (.order .sorted),
    .call (.write (dish "bread" none)), .step 1 (.uuids "1" "l"), .step 1 .go,
    .step 1 .go, .step 0 .go]

def breadTable : SpaceProc :=
  (run (spaceProgram quietSpace).step SpaceProc.new breadServed).get (by decide)

theorem breadTable_run :
    run (spaceProgram quietSpace).step SpaceProc.new breadServed =
      some breadTable :=
  rfl

theorem waiters_woken_bread :
    breadTable.tasks[0]? = some (.wait .take (soup none) 1) ∧
      breadTable.shared.store.tuples.size = 1 ∧
      ∀ (t : String) r, breadTable.shared.store.tuples[t]? = some r →
        ¬ (soup none).Matches r :=
  ⟨rfl, by decide, waiters_woken ⟨breadServed, breadTable_run⟩
    (show breadTable.tasks[0]? = some (.wait .take (soup none) 1) from rfl)
    (by decide) (by decide)⟩

/-! ## Waiting inside a transaction -/

/-- The call waits under the transaction `x` for the tuple `r`. -/
def SpacePc.awaitsUnder (x : String) (r : TupleRecord) : SpacePc → Bool
  | .wait _ q _ => decide (q.txnId = some x ∧ q.Matches r)
  | _ => false

/-- The tuple that the call writes under a transaction next. -/
def SpacePc.buffering : SpacePc → Option (String × TupleRecord)
  | .insertUncommitted x r _ => some (x, r)
  | _ => none

/-- A write under a transaction comes when no call waits for the tuple under the
same transaction. -/
def WritesUnawaited (s : SpaceProc) : SpaceAct → Prop
  | .step i _ =>
      ∀ write ∈ (s.tasks[i]?).bind buffering, ∀ pc ∈ s.tasks,
        pc.awaitsUnder write.1 write.2 = false
  | _ => True

instance (s : SpaceProc) : ∀ act, Decidable (WritesUnawaited s act)
  | .step _ _ => inferInstanceAs (Decidable (∀ _ ∈ _, ∀ _ ∈ _, _ = _))
  | .call _ | .ambient _ => .isTrue trivial

/-- No write of its own transaction matches a parked call. -/
def OwnBarren (s : SpaceProc) : Prop :=
  ∀ mode q c x, .wait mode q c ∈ s.tasks → q.txnId = some x →
    ∀ r ∈ bucket s.shared.store.uncommitted x, ¬ q.Matches r

section OwnBarren

variable {config : SpaceConfig} {s s' : SpaceProc} {i : Nat} {pc pc' : SpacePc}
  {h' : SpaceHost} {events : List SpaceEvent} {r : TupleRecord} {x : String}

theorem SpaceMove.uncommitted_cases (hreach : SpaceReachable config s)
    (hpc : s.tasks[i]? = some pc)
    (hmove : SpaceMove config i s.shared pc h' pc' events)
    (hr : r ∈ bucket h'.store.uncommitted x) :
    r ∈ bucket s.shared.store.uncommitted x ∨ pc.buffering = some (x, r) := by
  rw [← InMemorySpaceStore.mem_holdings_uncommitted] at hr ⊢
  rcases hmove.events_cases with ⟨op, hcalls, hstore, -⟩ | ⟨hstore, -, -⟩
  · rw [hstore] at hr
    rcases (hreach.ledgerStep hpc hcalls).mem_after hr with
      hold | ⟨-, hplace⟩ | ⟨y, hop, hplace⟩ | ⟨p, -, hmoved⟩
    · exact Or.inl hold
    · cases hplace
    · cases hplace
      generalize (s.shared.store.exec op).1 = result at hcalls
      subst hop
      cases hcalls
      exact Or.inr rfl
    · generalize (s.shared.store.exec op).1 = result at hmoved
      cases hmoved
  · rw [hstore] at hr
    exact Or.inl hr

theorem OwnBarren.step {act : SpaceAct} (hreach : SpaceReachable config s)
    (hbarren : OwnBarren s) (hunawaited : WritesUnawaited s act)
    (hstep : (spaceProgram config).step s act = some s') : OwnBarren s' := by
  intro mode q c x hwait hx r hr hmatch
  cases act with
  | call pc =>
      obtain ⟨hentry, rfl⟩ := Program.step_call.mp hstep
      rcases List.mem_append.mp hwait with hold | hnew
      · exact hbarren mode q c x hold hx r hr hmatch
      · have heq := List.mem_singleton.mp hnew
        exact (entry_announcing hentry).2.2 mode q c heq.symm
  | ambient event =>
      obtain ⟨shared, spawned, hamb, rfl⟩ := Program.step_ambient.mp hstep
      obtain ⟨hstore, -, -, -, -, hspawned⟩ := SpaceHost.ambient_cases hamb
      dsimp only at hr hwait
      rw [hstore] at hr
      rcases List.mem_append.mp hwait with hold | hnew
      · exact hbarren mode q c x hold hx r hr hmatch
      · obtain ⟨l, heq | heq⟩ := hspawned _ hnew <;> cases heq
  | step i choice =>
      obtain ⟨pc, shared, pc', events, hpc, hadv, rfl⟩ :=
        Program.step_step.mp hstep
      have hmove := SpaceMove.of_advance hadv
      have hmem : pc ∈ s.tasks := List.mem_of_getElem? hpc
      have hold : .wait mode q c ∈ s.tasks → False := by
        intro hold
        rcases hmove.uncommitted_cases hreach hpc hr with hr | hwrite
        · exact hbarren mode q c x hold hx r hr hmatch
        · have hnone := hunawaited (x, r) (by simp [hpc, hwrite]) _ hold
          simp [awaitsUnder, hx, hmatch] at hnone
      rcases List.mem_or_eq_of_mem_set hwait with hwait | heq
      · exact hold hwait
      subst heq
      rcases hmove.parked with ⟨-, -, hown⟩ | ⟨c₀, m, rfl, rfl, -, -, -⟩
      · exact hown x hx r hr hmatch
      · exact hbarren mode q c₀ x hmem hx r hr hmatch

end OwnBarren

/-- In every run in which no tuple is written under a transaction while a call
waits for it under the same transaction: whenever a `read` or `take` under the
transaction `x` is parked, has received everything, and nothing is about to be
broadcast, its template matches neither a visible tuple nor one that `x` has
written. -/
theorem shared_waiters_woken {config : SpaceConfig} {acts : List SpaceAct}
    {s : SpaceProc} {j c : Nat} {mode : Mode} {q : Query} {x : String}
    (hrun : run (spaceProgram config).step SpaceProc.new acts = some s)
    (hmeet : StepsMeet (spaceProgram config).step WritesUnawaited SpaceProc.new
      acts)
    (hwait : s.tasks[j]? = some (.wait mode q c)) (hx : q.txnId = some x)
    (hidle : recv config.tupleCapacity s.shared.tupleTx c = none)
    (hquiet : ∀ pc ∈ s.tasks, pc.announcing = []) :
    (∀ (t : String) r, s.shared.store.tuples[t]? = some r → ¬ q.Matches r) ∧
      ∀ r ∈ bucket s.shared.store.uncommitted x, ¬ q.Matches r := by
  have hreach : SpaceReachable config s := ⟨acts, hrun⟩
  have hmem := List.mem_of_getElem? hwait
  have hbarren : OwnBarren s := by
    refine run_invariant_of_stepsMeet (P := OwnBarren) ?_ ?_ hrun hmeet
    · intro mode q c x hwait
      cases hwait
    · intro s act s' hreach hbarren hunawaited hstep
      exact hbarren.step hreach hunawaited hstep
  constructor
  · intro t r ht
    exact hreach.alert.no_match hmem hidle hquiet t ht
  · exact hbarren mode q c x hmem hx

/-- A read waits for soup under the transaction `t`; then soup is written under
`t`. -/
def soupShared : List SpaceAct :=
  [.call (.subscribe .read (soup (some "t"))), .step 0 .go,
    .step 0 (.order .sorted), .call (.write (dish "soup" (some "t"))),
    .step 1 (.uuids "1" "l"), .step 1 .go, .step 1 .go]

/-- The read is parked, nothing is going to wake it, and the write has returned;
yet the soup is there. -/
theorem shared_waiter_missed :
    ∃ s answer, run (spaceProgram quietSpace).step SpaceProc.new soupShared =
        some s ∧
      s.tasks = [.wait .read (soup (some "t")) 0, .returned answer] ∧
      recv quietSpace.tupleCapacity s.shared.tupleTx 0 = none ∧
      ∃ r ∈ bucket s.shared.store.uncommitted "t",
        (soup (some "t")).Matches r :=
  ⟨_, _, rfl, rfl, rfl, _, List.mem_singleton_self _, by decide⟩

/-- The bread written under `t` is not what the read waits for under `t`. -/
def breadShared : List SpaceAct :=
  [.call (.subscribe .read (soup (some "t"))), .step 0 .go,
    .step 0 (.order .sorted), .call (.write (dish "bread" (some "t"))),
    .step 1 (.uuids "1" "l"), .step 1 .go, .step 1 .go]

def breadBuffered : SpaceProc :=
  (run (spaceProgram quietSpace).step SpaceProc.new breadShared).get (by decide)

theorem breadBuffered_run :
    run (spaceProgram quietSpace).step SpaceProc.new breadShared =
      some breadBuffered :=
  rfl

theorem breadShared_meets :
    StepsMeet (spaceProgram quietSpace).step WritesUnawaited SpaceProc.new
      breadShared := by
  decide +kernel

theorem shared_waiters_woken_bread :
    breadBuffered.tasks[0]? = some (.wait .read (soup (some "t")) 0) ∧
      (bucket breadBuffered.shared.store.uncommitted "t").length = 1 ∧
      (∀ (t : String) r, breadBuffered.shared.store.tuples[t]? = some r →
        ¬ (soup (some "t")).Matches r) ∧
      ∀ r ∈ bucket breadBuffered.shared.store.uncommitted "t",
        ¬ (soup (some "t")).Matches r :=
  ⟨rfl, by decide, shared_waiters_woken breadBuffered_run breadShared_meets
    (show breadBuffered.tasks[0]? =
      some (.wait .read (soup (some "t")) 0) from rfl) rfl (by decide)
    (by decide)⟩

end Coordin8
