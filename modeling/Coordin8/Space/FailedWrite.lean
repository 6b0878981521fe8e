import Coordin8.Lease.Reclaim
import Coordin8.Space.Moves
import Mathlib.Data.UInt

/-!
# Writes that fail

`write` grants the lease of its tuple first; under a transaction it then enlists
the Space, and only then stores the tuple.  `take` enlists before it does
anything else.  A write that the enlister refuses returns with nothing undone:
its lease stays in the store, for a tuple that is not there.
-/

namespace Coordin8

open Support Support.DashMap SpacePc

theorem SpaceMove.drawn {config : SpaceConfig} {i : Nat} {h h' : SpaceHost}
    {pc pc' : SpacePc} {events : List SpaceEvent}
    (hmove : SpaceMove config i h pc h' pc' events)
    (hdrawn : h.landlord.Drawn) : h'.landlord.Drawn := by
  cases hmove with
  | write hid hlease hgrant | notify hid hlease hgrant =>
      exact (hdrawn.draw _).grant hgrant
  | drawFailed => exact hdrawn.draw _
  | lease hpc hstep hafter =>
      exact (LeaseMove.of_advance hstep).drawn hdrawn
  | _ => exact hdrawn

theorem SpaceHost.ambient_leases {config : SpaceConfig} {h h' : SpaceHost}
    {event : SpaceAmbient} {spawned : List SpacePc}
    (hamb : h.ambient config event = some (h', spawned)) :
    h'.landlord.leases = h.landlord.leases := by
  cases event with
  | tick d =>
      obtain ⟨rfl, -⟩ := Prod.mk.inj (Option.some.inj hamb)
      rfl
  | cascade =>
      simp only [SpaceHost.ambient] at hamb
      split at hamb
      · cases hamb
      all_goals
        obtain ⟨rfl, -⟩ := Prod.mk.inj (Option.some.inj hamb)
        rfl

theorem drawnKeeps (config : SpaceConfig) :
    (spaceProgram config).Keeps SpaceProc.new (fun h _ _ => h.landlord.Drawn)
      (fun _ _ _ _ => True) where
  init := by
    refine ⟨fun k record hk => ?_, fun _ _ _ => trivial⟩
    simp [SpaceProc.new, SpaceHost.new, Landlord.new, InMemoryLeaseStore.new]
      at hk
  call _ _ _ hglob := ⟨hglob, trivial⟩
  step _ _ _ hadv hglob _ :=
    ⟨(SpaceMove.of_advance hadv).drawn hglob, trivial, fun _ _ _ _ => trivial⟩
  ambient := by
    intro s event shared spawned _ _ hamb hglob _
    refine ⟨?_, fun _ _ _ => trivial, fun _ _ _ => trivial⟩
    obtain ⟨-, huuids, -⟩ := SpaceHost.ambient_cases hamb
    intro k record hk
    rw [SpaceHost.ambient_leases hamb] at hk
    exact huuids ▸ hglob k record hk

/-! ## A write that runs alone -/

/-- A call that runs alone to its end, in at most `n` moves; `choose` is what
the outside decides. -/
def SpacePc.conclude (config : SpaceConfig) (choose : SpacePc → SpaceChoice) :
    Nat → SpaceHost → SpacePc → Option (SpaceHost × SpaceAnswer)
  | _, h, .returned answer => some (h, answer)
  | 0, _, _ => none
  | n + 1, h, pc =>
      match pc.advance config 0 h (choose pc) with
      | none => none
      | some (h, pc, _) => conclude config choose n h pc

/-- The identifiers a write draws, and the answer of the enlister. -/
def writeChoice (id leaseId : String) (enlister : Except Error Unit) :
    SpacePc → SpaceChoice
  | .write _ => .uuids id leaseId
  | .enlist .. => .enlisted enlister
  | _ => .go

/-- `write`, with nothing else going on.  It makes at most five moves. -/
def SpaceHost.write (config : SpaceConfig) (h : SpaceHost) (req : WriteRequest)
    (id leaseId : String) (enlister : Except Error Unit) :
    Option (SpaceHost × SpaceAnswer) :=
  conclude config (writeChoice id leaseId enlister) 5 h (.write req)

/-- The enlister is asked about the transaction of the write, and refuses. -/
def RefusedByEnlister (config : SpaceConfig) (h : SpaceHost)
    (req : WriteRequest) (enlister : Except Error Unit) : Bool :=
  config.enlister.isSome &&
    req.txnId.any (fun txnId => !h.enlisted.contains txnId) &&
    !enlister.toBool

/-- The lease is granted, its term being in range, and the enlister refuses. -/
def RefusedAfterGrant (config : SpaceConfig) (h : SpaceHost)
    (req : WriteRequest) (enlister : Except Error Unit) : Bool :=
  (expiryFor h.landlord.now (config.lease.negotiate req.ttlSecs)).toBool &&
    RefusedByEnlister config h req enlister

/-- The store, the enlisted set and the leases are as they were. -/
def SpaceHost.SameContents (h h' : SpaceHost) : Prop :=
  h'.store = h.store ∧ h'.enlisted = h.enlisted ∧
    h'.landlord.leases = h.landlord.leases

section Write

variable {config : SpaceConfig} {h : SpaceHost} {req : WriteRequest}
  {id leaseId : String} {enlister : Except Error Unit}

/-- With its lease a write succeeds, unless the enlister refuses; then it returns
as things stand. -/
theorem SpacePc.conclude_afterWrite (record : TupleRecord)
    (granted : LeaseRecord) :
    ∃ h' answer, conclude config (writeChoice id leaseId enlister) 4 h
        (afterWrite req.txnId record granted) = some (h', answer) ∧
      if RefusedByEnlister config h req enlister then
        h' = h ∧ ∃ e, answer = .error e
      else
        ∃ reply, answer = .ok reply := by
  cases htxn : req.txnId with
  | none => exact ⟨_, _, rfl, by simp [RefusedByEnlister, htxn]⟩
  | some txnId =>
      let buffered := { h with store := h.store.insertUncommitted txnId record }
      cases hconfig : config.enlister with
      | none =>
          refine ⟨buffered, .ok (.written record granted), ?_, ?_⟩
          · simp only [afterWrite, conclude, writeChoice, advance, go, hconfig,
              stay, afterEnlist, call, buffered]
          · simp [RefusedByEnlister, hconfig]
      | some endpoint =>
          cases hmem : h.enlisted.contains txnId with
          | true =>
              refine ⟨buffered, .ok (.written record granted), ?_, ?_⟩
              · simp only [afterWrite, conclude, writeChoice, advance, go,
                  hconfig, hmem, if_true, stay, afterEnlist, call, buffered]
              · simp [RefusedByEnlister, htxn, hmem]
          | false =>
              cases enlister with
              | error e =>
                  refine ⟨h, .error e, ?_, ?_⟩
                  · simp only [afterWrite, conclude, writeChoice, advance, go,
                      hconfig, hmem, Bool.false_eq_true, if_false, stay]
                  · simp [RefusedByEnlister, hconfig, htxn, hmem, Except.toBool]
              | ok u =>
                  refine ⟨{ buffered with
                    enlisted := h.enlisted.insert txnId () },
                    .ok (.written record granted), ?_, ?_⟩
                  · simp only [afterWrite, conclude, writeChoice, advance, go,
                      hconfig, hmem, Bool.false_eq_true, if_false, stay,
                      afterEnlist, call, buffered]
                  · simp [RefusedByEnlister, Except.toBool]

theorem SpaceHost.write_granted {granted : LeaseRecord} {landlord : Landlord}
    (hid : id ∉ h.landlord.uuids) (hlease : leaseId ∉ id :: h.landlord.uuids)
    (hgrant : { h.landlord with
      uuids := id :: h.landlord.uuids }.grant config.lease leaseId
        ("space:" ++ id) req.ttlSecs = .ok (granted, landlord)) :
    ∃ h' answer, h.write config req id leaseId enlister = some (h', answer) ∧
      if RefusedByEnlister config h req enlister then
        h' = { h with landlord := landlord } ∧ ∃ e, answer = .error e
      else
        ∃ reply, answer = .ok reply := by
  simp only [SpaceHost.write, conclude, writeChoice, advance, hid, hlease,
    or_self, if_false, draw, hgrant]
  exact conclude_afterWrite (h := { h with landlord := landlord }) _ granted

theorem SpaceHost.write_refused {e : Error}
    (hid : id ∉ h.landlord.uuids) (hlease : leaseId ∉ id :: h.landlord.uuids)
    (hgrant : { h.landlord with
      uuids := id :: h.landlord.uuids }.grant config.lease leaseId
        ("space:" ++ id) req.ttlSecs = .error e) :
    h.write config req id leaseId enlister =
      some ({ h with landlord := { h.landlord with
        uuids := id :: h.landlord.uuids } }, .error e) := by
  simp only [SpaceHost.write, conclude, writeChoice, advance, hid, hlease,
    or_self, if_false, draw, hgrant]

theorem Landlord.toBool_grant (config : LeaseConfig) (l : Landlord)
    (u resourceId : String) (ttlSecs : UInt64) :
    (l.grant config u resourceId ttlSecs).toBool =
      (expiryFor l.now (config.negotiate ttlSecs)).toBool := by
  unfold Landlord.grant InMemoryLeaseStore.create
  cases expiryFor l.now (config.negotiate ttlSecs) <;> rfl

theorem Landlord.leases_grant_ne {config : LeaseConfig} {l l' : Landlord}
    {u resourceId : String} {ttlSecs : UInt64} {record : LeaseRecord}
    (hdrawn : l.Drawn) (hu : u ∉ l.uuids)
    (hgrant : l.grant config u resourceId ttlSecs = .ok (record, l')) :
    l'.leases ≠ l.leases := by
  obtain ⟨-, -, rfl⟩ := Landlord.grant_eq_ok hgrant
  intro heq
  have hget : l.leases.leases[u]? = some record := by
    rw [← heq, get_insert, if_pos rfl]
  exact hu (hdrawn u record hget)

/-- A write always returns.  When it fails it leaves nothing behind, if and only
if the enlister did not refuse it after its lease was granted. -/
theorem failed_write_clean_iff (config : SpaceConfig) (req : WriteRequest)
    (enlister : Except Error Unit) {s : SpaceProc}
    (hreach : SpaceReachable config s) (hid : id ∉ s.shared.landlord.uuids)
    (hlease : leaseId ∉ id :: s.shared.landlord.uuids) :
    ∃ h' answer,
      s.shared.write config req id leaseId enlister = some (h', answer) ∧
      ((∀ e, answer = .error e → s.shared.SameContents h') ↔
        RefusedAfterGrant config s.shared req enlister = false) := by
  have hterm := Landlord.toBool_grant config.lease { s.shared.landlord with
    uuids := id :: s.shared.landlord.uuids } leaseId ("space:" ++ id) req.ttlSecs
  dsimp only at hterm
  unfold RefusedAfterGrant
  rw [← hterm]
  cases hgrant : Landlord.grant config.lease { s.shared.landlord with
      uuids := id :: s.shared.landlord.uuids } leaseId ("space:" ++ id)
      req.ttlSecs with
  | error e =>
      refine ⟨_, _, SpaceHost.write_refused hid hlease hgrant, ?_⟩
      exact ⟨fun _ => rfl, fun _ _ _ => ⟨rfl, rfl, rfl⟩⟩
  | ok granted =>
      obtain ⟨granted, landlord⟩ := granted
      obtain ⟨h', answer, heq, hends⟩ :=
        SpaceHost.write_granted hid hlease hgrant
      refine ⟨h', answer, heq, ?_⟩
      cases hrefused : RefusedByEnlister config s.shared req enlister with
      | false =>
          rw [hrefused] at hends
          obtain ⟨reply, rfl⟩ := hends
          exact ⟨fun _ => rfl, fun _ => nofun⟩
      | true =>
          rw [hrefused] at hends
          obtain ⟨rfl, e, rfl⟩ := hends
          have hdrawn := ((drawnKeeps config).holds hreach).1
          have hne := Landlord.leases_grant_ne (hdrawn.draw id) hlease hgrant
          exact ⟨fun hclean => absurd (hclean e rfl).2.2 hne, nofun⟩

end Write

/-- A Space that enlists with `localhost:9006`, and whose leases are capped at a
term out of range. -/
def enlisting : SpaceConfig where
  lease := ⟨some (2 ^ 62), 300⟩
  enlister := some "localhost:9006"
  capacity := 256
  tupleCapacity := 256

def jobWrite (ttlSecs : UInt64) : WriteRequest where
  attrs := ∅
  payload := []
  ttlSecs := ttlSecs
  writtenBy := "client"
  inputTupleId := none
  txnId := some "t"

/-- A term out of range: the write fails before anything is done. -/
theorem failed_write_clean_iff_out_of_range :
    ∃ h' e, SpaceHost.write enlisting .new (jobWrite (2 ^ 62)) "1" "l" (.ok ()) =
        some (h', .error e) ∧ SpaceHost.new.SameContents h' := by
  have hid : "1" ∉ SpaceProc.new.shared.landlord.uuids := by decide
  have hlease : "l" ∉ "1" :: SpaceProc.new.shared.landlord.uuids := by decide
  obtain ⟨h', answer, hwrite, hiff⟩ :=
    failed_write_clean_iff enlisting (jobWrite (2 ^ 62)) (.ok ())
      (Reachable.refl _ _) hid hlease
  have hfails : (SpaceHost.write enlisting SpaceProc.new.shared
      (jobWrite (2 ^ 62)) "1" "l" (.ok ())).map (fun out => out.2.toBool) =
        some false := by decide +kernel
  rw [hwrite] at hfails
  cases answer with
  | ok => cases hfails
  | error e => exact ⟨h', e, hwrite, hiff.mpr (by decide +kernel) e rfl⟩

/-- The coordinator does not know the transaction. -/
def jobRefused : SpaceHost × SpaceAnswer :=
  (SpaceHost.write enlisting .new (jobWrite 60) "1" "l"
    (.error (.transactionNotFound "t"))).get (by decide +kernel)

/-- The write fails, and a lease for its tuple is in the store. -/
theorem failed_write_keeps_lease :
    SpaceHost.write enlisting .new (jobWrite 60) "1" "l"
        (.error (.transactionNotFound "t")) = some jobRefused ∧
      jobRefused.2 = .error (.transactionNotFound "t") ∧
      ¬ SpaceHost.new.SameContents jobRefused.1 ∧
      (jobRefused.1.landlord.leases.get "l").map LeaseRecord.resourceId =
        some "space:1" ∧
      jobRefused.1.store = .new := by
  refine ⟨(Option.some_get _).symm, ?_⟩
  unfold SpaceHost.SameContents
  decide +kernel

end Coordin8
