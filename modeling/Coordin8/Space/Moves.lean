import Coordin8.Space.Manager
import Coordin8.Space.Runs

/-!
# The moves of the Space manager

`SpaceMove` lists what one move of a call can do.  `Calls` says which store call
a call makes where it stands, and how it goes on with the answer; all moves on
the store are one case of `SpaceMove`.  `SpaceReachable.storeRun` connects the
process with the store below it: the store calls of all tasks, in the order in which
they happen, are a run of the store, because every write brings identifiers that
nobody else has drawn.
-/

namespace Coordin8

open Support Support.DashMap SpacePc

/-- The store call that a call makes, what it may return, and how the call goes
on. -/
inductive Calls : SpacePc → SpaceOp → SpaceResult → SpacePc → Prop where
  | insertUncommitted (x : String) (r : TupleRecord) (granted : LeaseRecord) :
      Calls (.insertUncommitted x r granted) (.insertUncommitted x r) .unit
        (.returned (.ok (.written r granted)))
  | insert (r : TupleRecord) (granted : LeaseRecord) :
      Calls (.insert r granted) (.insert r) .unit (.insertSend r granted)
  | findMatch (it : TupleIteration) (q : Query) (cursor : Nat)
      (found : Option TupleRecord) :
      Calls (.query .read q cursor) (.findMatch it q.template q.txnId)
        (.tuple found) (afterQuery .read q cursor found)
  | takeMatch (it : TupleIteration) (q : Query) (cursor : Nat)
      (found : Option TupleRecord) :
      Calls (.query .take q cursor) (.takeMatch it q.template q.txnId)
        (.tuple found) (afterQuery .take q cursor found)
  | contents (it : TupleIteration) (template : Attrs) (x : Option String)
      (records : List TupleRecord) :
      Calls (.contents template x) (.findAllMatches it template x)
        (.tuples records) (.returned (.ok (.tuples records)))
  | commitTxn (x : String) (reply : SpaceReply)
      (flushed taken : List TupleRecord) :
      Calls (.commitTxn x reply) (.commitTxn x) (.lists flushed taken)
        (.unmark x taken flushed reply)
  | abortTxn (x : String) (discarded restored : List TupleRecord) :
      Calls (.abortTxn x) (.abortTxn x) (.lists discarded restored)
        (.unmark x discarded restored .unit)
  | prepare (x : String) (hasState : Bool) :
      Calls (.prepare x) (.hasTxn x) (.flag hasState)
        (.returned (.ok (.vote (if hasState then 0 else 1))))
  | prepareAndCommit (x : String) (hasState : Bool) :
      Calls (.prepareAndCommit x) (.hasTxn x) (.flag hasState)
        (if hasState then .commitTxn x (.vote 0)
          else .returned (.ok (.vote 1)))
  | createWatch (watch : SpaceWatchRecord) :
      Calls (.createWatch watch) (.createWatch watch) .unit
        (.returned (.ok (.watch watch.watchId watch.leaseId)))
  | expired (l : String) (r : TupleRecord) :
      Calls (.onTupleExpired l) (.removeByLease l) (.tuple (some r))
        (.expirySend r)
  | expiredUnknown (l : String) :
      Calls (.onTupleExpired l) (.removeByLease l) (.tuple none)
        (.returned (.ok .unit))
  | watchExpired (l : String) (watch : Option SpaceWatchRecord) :
      Calls (.onWatchExpired l) (.removeWatchByLease l) (.watch watch)
        (.returned (.ok .unit))
  | cancel (t : String) (r : TupleRecord) :
      Calls (.cancel t) (.remove t) (.tuple (some r))
        (.leaseCall (.cancel r.leaseId))
  | cancelUnknown (t : String) :
      Calls (.cancel t) (.remove t) (.tuple none)
        (.returned (.error (.tupleNotFound t)))
  | renew (t : String) (ttlSecs : UInt64) (r : TupleRecord) :
      Calls (.renew t ttlSecs) (.get t) (.tuple (some r))
        (.leaseCall (.renew r.leaseId ttlSecs))
  | renewUnknown (t : String) (ttlSecs : UInt64) :
      Calls (.renew t ttlSecs) (.get t) (.tuple none)
        (.returned (.error (.tupleNotFound t)))

/-- A step that changes nothing shared. -/
inductive Passes (config : SpaceConfig) (h : SpaceHost) :
    SpacePc → SpacePc → Prop where
  | takeUnder {q : Query} {x : String} (hx : q.txnId = some x) :
      Passes config h (.take q) (.ensureEnlisted x (.take q))
  | takePlain {q : Query} (hx : q.txnId = none) :
      Passes config h (.take q) (.subscribe .take q)
  | noEnlister {x : String} {next : Enlisting} (hnone : config.enlister = none) :
      Passes config h (.ensureEnlisted x next) (afterEnlist x next)
  | known {x : String} {next : Enlisting} (hx : x ∈ h.enlisted) :
      Passes config h (.ensureEnlisted x next) (afterEnlist x next)
  | unknown {x ep : String} {next : Enlisting}
      (hep : config.enlister = some ep) (hx : x ∉ h.enlisted) :
      Passes config h (.ensureEnlisted x next) (.enlist x next)
  | accepted {x : String} {next : Enlisting} :
      Passes config h (.enlist x next) (.markEnlisted x next)
  | refused {x : String} {next : Enlisting} {e : Error} :
      Passes config h (.enlist x next) (.returned (.error e))
  | subscribed {mode : Mode} {q : Query} :
      Passes config h (.subscribe mode q) (.query mode q h.tupleTx.length)
  | received {mode : Mode} {q : Query} {cursor cursor' : Nat}
      {received : Recv TupleRecord}
      (hrecv : recv config.tupleCapacity h.tupleTx cursor =
        some (received, cursor')) :
      Passes config h (.wait mode q cursor) (afterRecv mode q cursor' received)
  | timeout {mode : Mode} {q : Query} {cursor : Nat} :
      Passes config h (.wait mode q cursor) (.returned (.ok (.tuple none)))

/-- The calls that draw identifiers first. -/
def SpacePc.Draws : SpacePc → Prop
  | .write _ | .notify .. => True
  | _ => False

/-- What one move of the task `i` can do. -/
inductive SpaceMove (config : SpaceConfig) (i : Nat) (h : SpaceHost) :
    SpacePc → SpaceHost → SpacePc → List SpaceEvent → Prop where
  | write {req : WriteRequest} {id leaseId : String} {granted : LeaseRecord}
      {landlord : Landlord} {r : TupleRecord} (hid : id ∉ h.landlord.uuids)
      (hlease : leaseId ∉ id :: h.landlord.uuids)
      (hgrant : { h.landlord with
        uuids := id :: h.landlord.uuids }.grant config.lease leaseId
          ("space:" ++ id) req.ttlSecs = .ok (granted, landlord))
      (hr : r = {
        tupleId := id
        attrs := req.attrs
        payload := req.payload
        leaseId := granted.leaseId
        writtenBy := req.writtenBy
        writtenAt := landlord.now
        inputTupleId := req.inputTupleId }) :
      SpaceMove config i h (.write req) { h with landlord := landlord }
        (afterWrite req.txnId r granted) [.drawn i r.tupleId r.leaseId]
  | notify {template : Attrs} {on : SpaceEventKind} {ttlSecs : UInt64}
      {handback : List UInt8} {id leaseId : String} {granted : LeaseRecord}
      {landlord : Landlord} (hid : id ∉ h.landlord.uuids)
      (hlease : leaseId ∉ id :: h.landlord.uuids)
      (hgrant : { h.landlord with
        uuids := id :: h.landlord.uuids }.grant config.lease leaseId
          ("space-watch:" ++ id) ttlSecs = .ok (granted, landlord)) :
      SpaceMove config i h (.notify template on ttlSecs handback)
        { h with landlord := landlord }
        (.createWatch {
          watchId := id
          template := template
          on := on
          leaseId := granted.leaseId
          handback := handback }) []
  | drawFailed {pc : SpacePc} {id : String} {e : Error} (hpc : pc.Draws) :
      SpaceMove config i h pc
        { h with landlord := { h.landlord with
          uuids := id :: h.landlord.uuids } }
        (.returned (.error e)) []
  | store {pc pc' : SpacePc} {op : SpaceOp}
      (hcalls : Calls pc op (h.store.exec op).1 pc') :
      SpaceMove config i h pc { h with store := (h.store.exec op).2 } pc'
        [.store op (h.store.exec op).1]
  | pass {pc pc' : SpacePc} (hpasses : Passes config h pc pc') :
      SpaceMove config i h pc h pc' []
  | mark {x : String} {next : Enlisting} :
      SpaceMove config i h (.markEnlisted x next)
        { h with enlisted := h.enlisted.insert x () } (afterEnlist x next) []
  | unmark {x : String} {todo sends : List TupleRecord} {reply : SpaceReply} :
      SpaceMove config i h (.unmark x todo sends reply)
        { h with enlisted := h.enlisted.erase x } (settle todo sends reply) []
  | sendNew {r : TupleRecord} {granted : LeaseRecord} :
      SpaceMove config i h (.insertSend r granted)
        { h with tupleTx := h.tupleTx ++ [r] }
        (.returned (.ok (.written r granted))) []
  | sendSettled {r : TupleRecord} {sends : List TupleRecord}
      {reply : SpaceReply} :
      SpaceMove config i h (.settleSend r sends reply)
        { h with tupleTx := h.tupleTx ++ [r] } (settle [] sends reply) []
  | sendExpired {r : TupleRecord} :
      SpaceMove config i h (.expirySend r)
        { h with expiryTx := h.expiryTx ++ [r] } (.returned (.ok .unit)) []
  | lease {pc pc' : SpacePc} {lpc lpc' : LeasePc} {c : LeaseChoice}
      {landlord : Landlord} (hpc : pc.leasePc = some lpc)
      (hstep : lpc.advance config.lease h.landlord c = some (landlord, lpc'))
      (hafter : pc.afterLease lpc' = some pc') :
      SpaceMove config i h pc { h with landlord := landlord } pc' []

namespace SpaceMove

variable {config : SpaceConfig} {i : Nat} {h h' : SpaceHost} {pc pc' : SpacePc}
  {events : List SpaceEvent}

theorem of_call {op : SpaceOp} {result : SpaceResult}
    {store : InMemorySpaceStore} {next : SpacePc}
    (hexec : h.store.exec op = (result, store))
    (hcalls : Calls pc op result next)
    (hmove : SpacePc.call h op result store next = some (h', pc', events)) :
    SpaceMove config i h pc h' pc' events := by
  simp only [SpacePc.call, Option.some.injEq, Prod.mk.injEq] at hmove
  obtain ⟨rfl, rfl, rfl⟩ := hmove
  obtain ⟨rfl, rfl⟩ := Prod.mk.inj hexec.symm
  exact .store hcalls

theorem of_stay {next : SpacePc} (hpasses : Passes config h pc next)
    (hmove : SpacePc.stay h next = some (h', pc', events)) :
    SpaceMove config i h pc h' pc' events := by
  simp only [SpacePc.stay, Option.some.injEq, Prod.mk.injEq] at hmove
  obtain ⟨rfl, rfl, rfl⟩ := hmove
  exact .pass hpasses

theorem of_go (hmove : pc.go config h = some (h', pc', events)) :
    SpaceMove config i h pc h' pc' events := by
  cases pc with
  | take q =>
      simp only [go] at hmove
      split at hmove
      · next hx => exact of_stay (.takeUnder hx) hmove
      · next hx => exact of_stay (.takePlain hx) hmove
  | ensureEnlisted x next =>
      simp only [go] at hmove
      split at hmove
      · next hnone => exact of_stay (.noEnlister hnone) hmove
      · next ep hep =>
        split at hmove
        · next hx => exact of_stay (.known (by simpa using hx)) hmove
        · next hx => exact of_stay (.unknown hep (by simpa using hx)) hmove
  | subscribe mode q => exact of_stay .subscribed hmove
  | wait mode q cursor =>
      simp only [go] at hmove
      split at hmove
      · cases hmove
      · next hrecv => exact of_stay (.received hrecv) hmove
  | markEnlisted | insertSend | unmark | settleSend | expirySend =>
      simp only [go, Option.some.injEq, Prod.mk.injEq] at hmove
      obtain ⟨rfl, rfl, rfl⟩ := hmove
      constructor
  | insertUncommitted x r granted =>
      exact of_call rfl (.insertUncommitted x r granted) hmove
  | insert r granted => exact of_call rfl (.insert r granted) hmove
  | commitTxn x reply => exact of_call rfl (.commitTxn x reply _ _) hmove
  | abortTxn x => exact of_call rfl (.abortTxn x _ _) hmove
  | prepare x => exact of_call rfl (.prepare x _) hmove
  | prepareAndCommit x => exact of_call rfl (.prepareAndCommit x _) hmove
  | createWatch watch => exact of_call rfl (.createWatch watch) hmove
  | onTupleExpired l =>
      rcases hfound : (h.store.removeByLease l).1 with _ | r <;>
        simp only [go, hfound] at hmove
      · exact of_call (by simp [InMemorySpaceStore.exec, hfound])
          (.expiredUnknown l) hmove
      · exact of_call (by simp [InMemorySpaceStore.exec, hfound])
          (.expired l r) hmove
  | onWatchExpired l => exact of_call rfl (.watchExpired l _) hmove
  | cancel t =>
      rcases hfound : (h.store.remove t).1 with _ | r <;>
        simp only [go, hfound] at hmove
      · exact of_call (by simp [InMemorySpaceStore.exec, hfound])
          (.cancelUnknown t) hmove
      · exact of_call (by simp [InMemorySpaceStore.exec, hfound])
          (.cancel t r) hmove
  | renew t ttlSecs =>
      rcases hfound : h.store.get t with _ | r <;>
        simp only [go, hfound] at hmove
      · exact of_call (by simp [InMemorySpaceStore.exec, hfound])
          (.renewUnknown t ttlSecs) hmove
      · exact of_call (by simp [InMemorySpaceStore.exec, hfound])
          (.renew t ttlSecs r) hmove
  | _ => cases hmove

theorem of_draw {id leaseId : String} (hid : id ∉ h.landlord.uuids)
    (hlease : leaseId ∉ id :: h.landlord.uuids)
    (hmove : pc.draw config i h id leaseId = some (h', pc', events)) :
    SpaceMove config i h pc h' pc' events := by
  cases pc with
  | write req =>
      simp only [draw] at hmove
      split at hmove <;>
        simp only [Option.some.injEq, Prod.mk.injEq] at hmove <;>
        obtain ⟨rfl, rfl, rfl⟩ := hmove
      · exact .drawFailed trivial
      · next hgrant => exact .write hid hlease hgrant rfl
  | notify =>
      simp only [draw] at hmove
      split at hmove <;>
        simp only [Option.some.injEq, Prod.mk.injEq] at hmove <;>
        obtain ⟨rfl, rfl, rfl⟩ := hmove
      · exact .drawFailed trivial
      · next hgrant => exact .notify hid hlease hgrant
  | _ => cases hmove

theorem of_scan {it : TupleIteration}
    (hmove : pc.scan h it = some (h', pc', events)) :
    SpaceMove config i h pc h' pc' events := by
  cases pc with
  | query mode q cursor =>
      cases mode with
      | read => exact of_call rfl (.findMatch it q cursor _) hmove
      | take => exact of_call rfl (.takeMatch it q cursor _) hmove
  | contents template x => exact of_call rfl (.contents it template x _) hmove
  | _ => cases hmove

theorem of_leaseStep {c : LeaseChoice}
    (hmove : pc.leaseStep config h c = some (h', pc', events)) :
    SpaceMove config i h pc h' pc' events := by
  unfold leaseStep at hmove
  split at hmove
  · cases hmove
  · next lpc hpc =>
    split at hmove
    · cases hmove
    · next landlord lpc' hstep =>
      obtain ⟨pc₁, hafter, heq⟩ := Option.bind_eq_some_iff.mp hmove
      simp only [Option.some.injEq, Prod.mk.injEq] at heq
      obtain ⟨rfl, rfl, rfl⟩ := heq
      exact .lease hpc hstep hafter

theorem of_advance {choice : SpaceChoice}
    (hmove : pc.advance config i h choice = some (h', pc', events)) :
    SpaceMove config i h pc h' pc' events := by
  cases choice with
  | go => exact of_go hmove
  | uuids id leaseId =>
      simp only [advance] at hmove
      split at hmove
      · cases hmove
      · next hfresh =>
        rw [not_or] at hfresh
        exact of_draw hfresh.1 hfresh.2 hmove
  | order it => exact of_scan hmove
  | enlisted result =>
      simp only [advance] at hmove
      split at hmove
      · exact of_stay .accepted hmove
      · exact of_stay .refused hmove
      · cases hmove
  | timeout =>
      simp only [advance] at hmove
      split at hmove
      · split at hmove
        · exact of_stay .timeout hmove
        · cases hmove
      · cases hmove
  | lease c => exact of_leaseStep hmove

end SpaceMove

theorem SpacePc.no_move_of_returned {config : SpaceConfig} {i : Nat}
    {h : SpaceHost} {answer : SpaceAnswer} {choice : SpaceChoice} :
    (SpacePc.returned answer).advance config i h choice = none := by
  cases choice with
  | uuids id leaseId =>
      simp only [advance, draw]
      split <;> rfl
  | _ => rfl

/-! ## The store under the process -/

/-- The store calls of the process, in order. -/
def storeCalls (log : List SpaceEvent) : History :=
  log.filterMap fun
    | .store op result => some (op, result)
    | .drawn .. => none

theorem storeCalls_append (log events : List SpaceEvent) :
    storeCalls (log ++ events) = storeCalls log ++ storeCalls events :=
  List.filterMap_append

/-- The record that a write has not yet put into the store. -/
def SpacePc.pending : SpacePc → Option TupleRecord
  | .ensureEnlisted _ (.write r _) | .enlist _ (.write r _)
  | .markEnlisted _ (.write r _) | .insertUncommitted _ r _ | .insert r _ =>
      some r
  | _ => none

structure StoreGlob (h : SpaceHost) (log : List SpaceEvent) (_ : Nat) :
    Prop where
  run : StoreRun (storeCalls log) h.store
  used : ∀ r ∈ inserted (storeCalls log),
    r.tupleId ∈ h.landlord.uuids ∧ r.leaseId ∈ h.landlord.uuids
  drawn : ∀ i t l, .drawn i t l ∈ log →
    t ∈ h.landlord.uuids ∧ l ∈ h.landlord.uuids
  once : ∀ i j t l t' l', .drawn i t l ∈ log → .drawn j t' l' ∈ log →
    t = t' ∨ l = l' → i = j

/-- The identifiers of a pending write are its own, and not in the store. -/
def StoreLoc (_ : SpaceHost) (log : List SpaceEvent) (i : Nat) (pc : SpacePc) :
    Prop :=
  ∀ r, pc.pending = some r → .drawn i r.tupleId r.leaseId ∈ log ∧
    ∀ r' ∈ inserted (storeCalls log),
      r'.tupleId ≠ r.tupleId ∧ r'.leaseId ≠ r.leaseId

section StoreStep

variable {config : SpaceConfig} {i : Nat} {h h' : SpaceHost} {pc pc' : SpacePc}
  {events log : List SpaceEvent} {op : SpaceOp} {result : SpaceResult}
  {r : TupleRecord}

theorem SpacePc.pending_afterEnlist (x : String) (next : Enlisting) :
    (afterEnlist x next).pending = (ensureEnlisted x next).pending := by
  cases next <;> rfl

theorem SpacePc.pending_settle (todo sends : List TupleRecord)
    (reply : SpaceReply) : (settle todo sends reply).pending = none := by
  unfold settle
  split <;> rfl

theorem SpacePc.pending_afterQuery (mode : Mode) (q : Query) (cursor : Nat)
    (found : Option TupleRecord) :
    (afterQuery mode q cursor found).pending = none := by
  unfold afterQuery
  split
  · split <;> rfl
  · split <;> rfl

theorem SpacePc.pending_afterRecv (mode : Mode) (q : Query) (cursor : Nat)
    (received : Recv TupleRecord) :
    (afterRecv mode q cursor received).pending = none := by
  unfold afterRecv
  split
  · split
    · cases mode <;> rfl
    · rfl
  · rfl

theorem SpacePc.pending_afterLease {lpc : LeasePc}
    (hafter : pc.afterLease lpc = some pc') : pc'.pending = none := by
  cases pc with
  | cancelTaken | leaseCall | lease =>
      cases lpc <;> cases hafter <;> rfl
  | settleCancel pc todo sends reply =>
      cases lpc <;> cases hafter <;> first | rfl | exact pending_settle ..
  | _ => cases hafter

theorem Calls.written (hcalls : Calls pc op result pc')
    (hr : op.written = some r) : pc.pending = some r := by
  cases hcalls <;> cases hr <;> rfl

theorem Calls.pending (hcalls : Calls pc op result pc') :
    pc'.pending = none := by
  cases hcalls with
  | findMatch | takeMatch => exact pending_afterQuery ..
  | prepareAndCommit x hasState => cases hasState <;> rfl
  | _ => rfl

theorem Passes.pending (hpasses : Passes config h pc pc')
    (hr : pc'.pending = some r) : pc.pending = some r := by
  cases hpasses with
  | noEnlister | known => rwa [pending_afterEnlist] at hr
  | @unknown x _ next | @accepted x next => cases next <;> exact hr
  | received =>
      rw [pending_afterRecv] at hr
      cases hr
  | _ => cases hr

theorem SpaceMove.pending (hmove : SpaceMove config i h pc h' pc' events)
    (hr : pc'.pending = some r) :
    (pc.pending = some r ∧ events = []) ∨
      (events = [.drawn i r.tupleId r.leaseId] ∧
        r.tupleId ∉ h.landlord.uuids ∧ r.leaseId ∉ h.landlord.uuids) := by
  cases hmove with
  | @write req id leaseId granted landlord r' hid hlease hgrant hr' =>
      obtain rfl : r' = r := by
        unfold afterWrite at hr
        split at hr <;> exact Option.some.inj hr
      obtain ⟨hgranted, -, -⟩ := Landlord.grant_eq_ok hgrant
      subst hr'
      refine Or.inr ⟨rfl, hid, ?_⟩
      rw [hgranted]
      exact fun hmem => hlease (List.mem_cons_of_mem _ hmem)
  | store hcalls =>
      rw [hcalls.pending] at hr
      cases hr
  | pass hpasses => exact Or.inl ⟨hpasses.pending hr, rfl⟩
  | @mark x next => cases next <;> exact Or.inl ⟨hr, rfl⟩
  | unmark | sendSettled =>
      rw [pending_settle] at hr
      cases hr
  | lease _ _ hafter =>
      rw [pending_afterLease hafter] at hr
      cases hr
  | _ => cases hr

theorem SpaceMove.uuids_subset (hmove : SpaceMove config i h pc h' pc' events) :
    h.landlord.uuids ⊆ h'.landlord.uuids := by
  cases hmove with
  | write _ _ hgrant | notify _ _ hgrant =>
      obtain ⟨-, -, rfl⟩ := Landlord.grant_eq_ok hgrant
      intro u hu
      simp [hu]
  | drawFailed => exact List.subset_cons_self _ _
  | lease _ hstep => exact (LeaseMove.of_advance hstep).uuids_subset
  | _ => exact List.Subset.refl _

theorem SpaceMove.events_cases (hmove : SpaceMove config i h pc h' pc' events) :
    (∃ op, Calls pc op (h.store.exec op).1 pc' ∧
        h'.store = (h.store.exec op).2 ∧
        events = [.store op (h.store.exec op).1]) ∨
      (h'.store = h.store ∧ storeCalls events = [] ∧
        ∀ j t l, .drawn j t l ∈ events → j = i ∧ t ∉ h.landlord.uuids ∧
          l ∉ h.landlord.uuids ∧ t ∈ h'.landlord.uuids ∧
          l ∈ h'.landlord.uuids) := by
  cases hmove with
  | store hcalls => exact Or.inl ⟨_, hcalls, rfl, rfl⟩
  | @write req id leaseId granted landlord r' hid hlease hgrant hr' =>
      obtain ⟨hgranted, -, rfl⟩ := Landlord.grant_eq_ok hgrant
      refine Or.inr ⟨rfl, rfl, fun j t l he => ?_⟩
      obtain ⟨rfl, rfl, rfl⟩ := SpaceEvent.drawn.inj (List.mem_singleton.mp he)
      subst hr'
      refine ⟨rfl, hid, ?_, by simp, by simp [hgranted]⟩
      simp only [hgranted]
      exact fun hmem => hlease (List.mem_cons_of_mem _ hmem)
  | _ => exact Or.inr ⟨rfl, rfl, by simp⟩

theorem StoreRun.snoc {history : History} {store : InMemorySpaceStore}
    (hrun : StoreRun history store) (hfresh : fresh history op = true) :
    StoreRun (history ++ [(op, (store.exec op).1)]) (store.exec op).2 :=
  Reachable.tail (a := op) hrun (by simp [storeStep, hfresh])

theorem StoreLoc.fresh (hloc : StoreLoc h log i pc)
    (hcalls : Calls pc op result pc') :
    Coordin8.fresh (storeCalls log) op = true :=
  fresh_iff.mpr fun r hr => (hloc r (hcalls.written hr)).2

theorem StoreGlob.step_run {n : Nat}
    (hmove : SpaceMove config i h pc h' pc' events)
    (hglob : StoreGlob h log n) (hloc : StoreLoc h log i pc) :
    StoreRun (storeCalls (log ++ events)) h'.store := by
  rw [storeCalls_append]
  rcases hmove.events_cases with
    ⟨op, hcalls, hstore, rfl⟩ | ⟨hstore, hnone, -⟩
  · rw [hstore]
    exact hglob.run.snoc (hloc.fresh hcalls)
  · rw [hstore, hnone, List.append_nil]
    exact hglob.run

theorem SpaceMove.inserted_cases (hmove : SpaceMove config i h pc h' pc' events)
    (hr : r ∈ inserted (storeCalls (log ++ events))) :
    r ∈ inserted (storeCalls log) ∨ pc.pending = some r := by
  rw [storeCalls_append, inserted_append, List.mem_append] at hr
  refine hr.imp_right fun hr => ?_
  rcases hmove.events_cases with ⟨op, hcalls, -, rfl⟩ | ⟨-, hnone, -⟩
  · exact hcalls.written (by simpa [storeCalls, inserted] using hr)
  · rw [hnone] at hr
    cases hr

theorem StoreGlob.step {n : Nat} (hmove : SpaceMove config i h pc h' pc' events)
    (hglob : StoreGlob h log n) (hloc : StoreLoc h log i pc) :
    StoreGlob h' (log ++ events) n := by
  have hdrawn : ∀ j t l, .drawn j t l ∈ events → j = i ∧
      t ∉ h.landlord.uuids ∧ l ∉ h.landlord.uuids ∧
      t ∈ h'.landlord.uuids ∧ l ∈ h'.landlord.uuids := by
    rcases hmove.events_cases with ⟨op, -, -, rfl⟩ | ⟨-, -, hdrawn⟩
    · simp
    · exact hdrawn
  refine ⟨hglob.step_run hmove hloc, fun r hr => ?_, fun j t l he => ?_,
    fun j k t l t' l' hj hk hids => ?_⟩
  · have hold : r.tupleId ∈ h.landlord.uuids ∧ r.leaseId ∈ h.landlord.uuids := by
      rcases hmove.inserted_cases hr with hr | hr
      · exact hglob.used r hr
      · exact hglob.drawn i _ _ (hloc r hr).1
    exact ⟨hmove.uuids_subset hold.1, hmove.uuids_subset hold.2⟩
  · rcases List.mem_append.mp he with he | he
    · obtain ⟨ht, hl⟩ := hglob.drawn j t l he
      exact ⟨hmove.uuids_subset ht, hmove.uuids_subset hl⟩
    · obtain ⟨-, -, -, ht, hl⟩ := hdrawn j t l he
      exact ⟨ht, hl⟩
  · rw [List.mem_append] at hj hk
    rcases hj with hj | hj <;> rcases hk with hk | hk
    · exact hglob.once j k t l t' l' hj hk hids
    · obtain ⟨-, ht, hl, -⟩ := hdrawn k t' l' hk
      obtain ⟨ht', hl'⟩ := hglob.drawn j t l hj
      rcases hids with rfl | rfl
      · exact absurd ht' ht
      · exact absurd hl' hl
    · obtain ⟨-, ht, hl, -⟩ := hdrawn j t l hj
      obtain ⟨ht', hl'⟩ := hglob.drawn k t' l' hk
      rcases hids with rfl | rfl
      · exact absurd ht' ht
      · exact absurd hl' hl
    · exact (hdrawn j t l hj).1.trans (hdrawn k t' l' hk).1.symm

theorem StoreLoc.step {n : Nat} (hmove : SpaceMove config i h pc h' pc' events)
    (hglob : StoreGlob h log n) (hloc : StoreLoc h log i pc) :
    StoreLoc h' (log ++ events) i pc' := by
  intro r hr
  rcases hmove.pending hr with ⟨hold, rfl⟩ | ⟨rfl, ht, hl⟩
  · rw [List.append_nil]
    exact hloc r hold
  · refine ⟨by simp, fun r' hr' => ?_⟩
    rw [storeCalls_append, show storeCalls [.drawn i _ _] = [] from rfl,
      List.append_nil] at hr'
    obtain ⟨ht', hl'⟩ := hglob.used r' hr'
    exact ⟨fun heq => ht (heq ▸ ht'), fun heq => hl (heq ▸ hl')⟩

theorem StoreLoc.other {n j : Nat} {pcj : SpacePc}
    (hmove : SpaceMove config i h pc h' pc' events) (hj : j ≠ i)
    (hglob : StoreGlob h log n) (hloc : StoreLoc h log i pc)
    (hother : StoreLoc h log j pcj) : StoreLoc h' (log ++ events) j pcj := by
  intro r hr
  obtain ⟨hdrawn, hnew⟩ := hother r hr
  refine ⟨List.mem_append_left _ hdrawn, fun r' hr' => ?_⟩
  rcases hmove.inserted_cases hr' with hr' | hr'
  · exact hnew r' hr'
  · have hdrawn' := (hloc r' hr').1
    exact ⟨fun heq => hj (hglob.once _ _ _ _ _ _ hdrawn' hdrawn (Or.inl heq)).symm,
      fun heq => hj (hglob.once _ _ _ _ _ _ hdrawn' hdrawn (Or.inr heq)).symm⟩

end StoreStep

theorem SpaceHost.ambient_cases {config : SpaceConfig} {h h' : SpaceHost}
    {event : SpaceAmbient} {spawned : List SpacePc}
    (hamb : h.ambient config event = some (h', spawned)) :
    h'.store = h.store ∧ h'.landlord.uuids = h.landlord.uuids ∧
      h'.enlisted = h.enlisted ∧ h'.tupleTx = h.tupleTx ∧
      h'.expiryTx = h.expiryTx ∧
      ∀ pc ∈ spawned, ∃ l, pc = .onTupleExpired l ∨ pc = .onWatchExpired l := by
  cases event with
  | tick d =>
      simp only [SpaceHost.ambient, Option.some.injEq, Prod.mk.injEq] at hamb
      obtain ⟨rfl, rfl⟩ := hamb
      simp
  | cascade =>
      simp only [SpaceHost.ambient] at hamb
      split at hamb
      · cases hamb
      · simp only [Option.some.injEq, Prod.mk.injEq] at hamb
        obtain ⟨rfl, rfl⟩ := hamb
        simp
      · next e cursor hrecv =>
        simp only [Option.some.injEq, Prod.mk.injEq] at hamb
        obtain ⟨rfl, rfl⟩ := hamb
        refine ⟨rfl, rfl, rfl, rfl, rfl, fun pc hpc => ?_⟩
        unfold spaceCascade at hpc
        split at hpc
        · exact ⟨_, Or.inl (List.mem_singleton.mp hpc)⟩
        · split at hpc
          · exact ⟨_, Or.inr (List.mem_singleton.mp hpc)⟩
          · cases hpc

theorem SpacePc.entry_pending {pc : SpacePc} (hentry : pc.entry = true) :
    pc.pending = none := by
  cases pc <;> first | rfl | cases hentry

theorem space_store_keeps (config : SpaceConfig) :
    (spaceProgram config).Keeps SpaceProc.new StoreGlob StoreLoc where
  init := by
    refine ⟨⟨Reachable.refl _ _, ?_, ?_, ?_⟩, ?_⟩ <;>
      simp [SpaceProc.new, storeCalls, inserted]
  call := by
    intro s pc _ _ hentry hglob
    refine ⟨⟨hglob.run, hglob.used, hglob.drawn, hglob.once⟩, fun r hr => ?_⟩
    rw [entry_pending hentry] at hr
    cases hr
  step := by
    intro s i pc choice shared pc' events _ _ hpc hadv hglob hloc
    have hmove := SpaceMove.of_advance hadv
    exact ⟨hglob.step hmove (hloc i pc hpc), .step hmove hglob (hloc i pc hpc),
      fun j pcj hj hpcj =>
        .other hmove hj hglob (hloc i pc hpc) (hloc j pcj hpcj)⟩
  ambient := by
    intro s event shared spawned _ _ hamb hglob hloc
    obtain ⟨hstore, huuids, -, -, -, hspawned⟩ := SpaceHost.ambient_cases hamb
    refine ⟨⟨hstore ▸ hglob.run, huuids ▸ hglob.used, huuids ▸ hglob.drawn,
      hglob.once⟩, fun k pc hpc r hr => ?_, hloc⟩
    obtain ⟨l, rfl | rfl⟩ := hspawned pc (List.mem_of_getElem? hpc) <;> cases hr

theorem SpaceReachable.ledgerStep {config : SpaceConfig} {s : SpaceProc}
    {i : Nat} {pc pc' : SpacePc} {op : SpaceOp} {result : SpaceResult}
    (hreach : SpaceReachable config s) (hpc : s.tasks[i]? = some pc)
    (hcalls : Calls pc op result pc') :
    LedgerStep s.shared.store.holdings op (s.shared.store.exec op).1
      (s.shared.store.exec op).2.holdings := by
  obtain ⟨hglob, hloc⟩ := (space_store_keeps config).holds hreach
  exact hglob.run.ledgerStep ((hloc i pc hpc).fresh hcalls)

end Coordin8
