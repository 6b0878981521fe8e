import Coordin8.Lease.Once
import Coordin8.Space.Alone

/-!
# Leases and tuples

Every tuple the Space holds has a lease of its own, and every lease that was
granted for a tuple belongs to one the Space holds.  This is a fact about calls
that are made one after another.  A reclaim removes leases and is followed by
`on_tuple_expired` for each of them; in between there are tuples without a
lease, and for each of them a handler that is still to run.
-/

namespace Coordin8

open Support Support.DashMap SpacePc Relation

/-! ## Calls one after another -/

/-- A lease is cancelled by its holder, or the reaper sweeps. -/
def LeasePc.reclaims : LeasePc → Bool
  | .cancel _ | .drainExpired => true
  | _ => false

/-- The handlers of some reclaimed leases run one after another. -/
inductive Handles (config : SpaceConfig) :
    SpaceHost → List SpacePc → SpaceHost → Prop where
  | nil (h : SpaceHost) : Handles config h [] h
  | cons {h m h' : SpaceHost} {pc : SpacePc} {pcs : List SpacePc}
      {answer : SpaceAnswer} (hfirst : Alone config (h, pc) (m, .returned answer))
      (hrest : Handles config m pcs h') : Handles config h (pc :: pcs) h'

/-- The states that calls made one after another lead to, with the calls that
wait.  A call runs until it returns or waits, and may go on from there when its
turn comes again.  The handler of a lease that a call has cancelled may run at
any time; a reclaim is followed by the handlers of the leases it has announced. -/
inductive Turns (config : SpaceConfig) : SpaceHost → List SpacePc → Prop where
  | new : Turns config .new []
  | tick {h : SpaceHost} {waiting : List SpacePc} (nanoseconds : Nat)
      (hturns : Turns config h waiting) :
      Turns config { h with landlord := { h.landlord with
        now := h.landlord.now + nanoseconds } } waiting
  | call {h h' : SpaceHost} {waiting : List SpacePc} {pc pc' : SpacePc}
      (hturns : Turns config h waiting) (hpc : pc.operation = true)
      (hrun : Alone config (h, pc) (h', pc')) (hidle : pc'.Idle) :
      Turns config h' (pc' :: waiting)
  | resume {h h' : SpaceHost} {waiting : List SpacePc} {pc pc' : SpacePc}
      (hturns : Turns config h (pc :: waiting))
      (hrun : Alone config (h, pc) (h', pc')) (hidle : pc'.Idle) :
      Turns config h' (pc' :: waiting)
  | pick {h : SpaceHost} {waiting waiting' : List SpacePc}
      (hturns : Turns config h waiting) (hperm : waiting.Perm waiting') :
      Turns config h waiting'
  | handle {h h' : SpaceHost} {waiting : List SpacePc} {e : LeaseReclaimed}
      (hturns : Turns config h waiting) (he : e ∈ h.landlord.sent)
      (hcascade : Handles config h (spaceCascade e) h') :
      Turns config h' waiting
  | reclaim {h m h' : SpaceHost} {waiting : List SpacePc} {lpc : LeasePc}
      {result : Except Error (Option LeaseRecord)}
      (hturns : Turns config h waiting) (hlpc : lpc.reclaims = true)
      (hrun : Alone config (h, .lease lpc) (m, .lease (.returned result)))
      (hcascade : Handles config m
        ((m.landlord.sent.drop h.landlord.sent.length).flatMap spaceCascade)
        h') :
      Turns config h' waiting

/-! ## Between calls -/

/-- Between calls leases and tuples agree, but for the tuples whose handlers are
still to run. -/
structure AtRest (h : SpaceHost) (log : List SpaceEvent)
    (handlers : List SpacePc) : Prop where
  store : StoreGlob h log 0
  sound : h.landlord.Sound fun _ _ => True
  leased : ∀ l t, h.landlord.resource l = some ("space:" ++ t) →
    l ∈ h.heldLeases
  held : ∀ r ∈ h.store.records, HasLease h.landlord r ∨
    .onTupleExpired r.leaseId ∈ handlers

variable {r : TupleRecord} {op : SpaceOp} {events : List SpaceEvent}
  {b : SpaceHost × SpacePc} {lpc : LeasePc} {m : SpaceHost}

section Between

variable {config : SpaceConfig} {h h' : SpaceHost} {pc pc' : SpacePc}
  {log : List SpaceEvent}

theorem AtRest.underway (hrest : AtRest h log []) (horderly : pc.Orderly)
    (howes : pc.owes = []) (hpending : pc.pending = none)
    (hlease : pc.leasePc = none) : Underway h log pc where
  store := hrest.store
  fresh := by
    intro r hr
    rw [hpending] at hr
    cases hr
  sound := hrest.sound
  orderly := horderly
  reads := by
    intro lpc hlpc
    rw [hlease] at hlpc
    cases hlpc
  balanced := by
    rw [howes]
    refine ⟨fun l t hl => Or.inl (hrest.leased l t hl), fun r hr => ?_, ?_⟩
    · exact (hrest.held r hr).resolve_right List.not_mem_nil
    · intro l hl
      cases hl
  pending := by
    intro r hr
    rw [hpending] at hr
    cases hr

theorem AtRest.of_operation (hrest : AtRest h log []) (hpc : pc.operation = true) :
    Underway h log pc := by
  cases pc <;> first
    | exact hrest.underway trivial rfl rfl rfl
    | cases hpc

theorem AtRest.of_idle (hrest : AtRest h log []) (hidle : pc.Idle) :
    Underway h log pc := by
  cases pc with
  | returned | wait => exact hrest.underway trivial rfl rfl rfl
  | _ => exact hidle.elim

theorem Underway.atRest (hunder : Underway h log pc) (hidle : pc.Idle) :
    AtRest h log [] := by
  have hacc := hunder.balanced
  have howes : pc.owes = [] := by
    cases pc with
    | returned | wait => rfl
    | _ => exact hidle.elim
  rw [howes] at hacc
  refine ⟨hunder.store, hunder.sound, fun l t hl => ?_, fun r hr => ?_⟩
  · exact (hacc.leased l t hl).resolve_right List.not_mem_nil
  · exact Or.inl (hacc.held r hr)

/-! ## The handlers of reclaimed leases -/

theorem LedgerStep.mem_removeByLease {H H' : Holdings} {l : String}
    {result : SpaceResult}
    (hstep : LedgerStep H (.removeByLease l) result H')
    (hnodup : ((H.map Prod.snd).map TupleRecord.leaseId).Nodup) :
    r ∈ H'.map Prod.snd ↔ r ∈ H.map Prod.snd ∧ r.leaseId ≠ l := by
  cases hstep with
  | expire H p removed =>
      rw [Multiset.map_cons, Multiset.map_cons, Multiset.nodup_cons] at hnodup
      rw [Multiset.map_cons, Multiset.mem_cons]
      constructor
      · intro hr
        refine ⟨Or.inr hr, fun heq => ?_⟩
        exact hnodup.1 (heq ▸ Multiset.mem_map_of_mem _ hr)
      · rintro ⟨rfl | hr, hne⟩
        · exact absurd rfl hne
        · exact hr
  | expireAbsent H l habsent =>
      refine ⟨fun hr => ⟨hr, ?_⟩, fun hr => hr.1⟩
      obtain ⟨⟨p, r'⟩, hmem, rfl⟩ := Multiset.mem_map.mp hr
      exact habsent p r' hmem
  | stationary _ _ _ hop => exact hop.elim

theorem LedgerStep.eq_of_stationary {H H' : Holdings}
    {result : SpaceResult} (hstep : LedgerStep H op result H')
    (hop : op.Stationary) : H' = H := by
  cases hstep <;> first | rfl | exact hop.elim

/-- The handlers of the cascade, with their store calls. -/
inductive Handler : SpacePc → SpaceOp → Prop where
  | tuple (l : String) : Handler (.onTupleExpired l) (.removeByLease l)
  | watch (l : String) : Handler (.onWatchExpired l) (.removeWatchByLease l)

theorem StoreGlob.mem_handled {n : Nat}
    (hglob : StoreGlob h log n) (hop : Handler pc op) :
    r ∈ (h.store.exec op).2.records ↔
      r ∈ h.store.records ∧ pc ≠ .onTupleExpired r.leaseId := by
  have hnodup := hglob.run.coherent.leases
  rw [← InMemorySpaceStore.map_snd_holdings_eq_records,
    ← InMemorySpaceStore.map_snd_holdings_eq_records]
  cases hop with
  | tuple l =>
      rw [(hglob.run.ledgerStep rfl).mem_removeByLease hnodup, ne_eq, ne_eq,
        SpacePc.onTupleExpired.injEq, eq_comm]
  | watch l =>
      have hstep : LedgerStep h.store.holdings (.removeWatchByLease l) _ _ :=
        hglob.run.ledgerStep rfl
      rw [hstep.eq_of_stationary trivial]
      simp

/-- A handler makes its store call, and says so if it has removed a tuple. -/
theorem Handler.move
    (hop : Handler pc op) (hmove : SpaceMove config 0 h pc h' pc' events) :
    h' = { h with store := (h.store.exec op).2 } ∧
      ((∃ r, pc' = .expirySend r) ∨ ∃ answer, pc' = .returned answer) := by
  cases hop with
  | tuple l =>
      cases hmove with
      | @store _ _ op hcalls =>
          generalize (h.store.exec op).1 = result at hcalls
          cases hcalls with
          | expired l r => exact ⟨rfl, Or.inl ⟨r, rfl⟩⟩
          | expiredUnknown l => exact ⟨rfl, Or.inr ⟨_, rfl⟩⟩
      | drawFailed hpc => exact hpc.elim
      | pass hpasses => cases hpasses
      | lease hpc => cases hpc
  | watch l =>
      cases hmove with
      | @store _ _ op hcalls =>
          generalize (h.store.exec op).1 = result at hcalls
          cases hcalls with
          | watchExpired l watch => exact ⟨rfl, Or.inr ⟨_, rfl⟩⟩
      | drawFailed hpc => exact hpc.elim
      | pass hpasses => cases hpasses
      | lease hpc => cases hpc

theorem SpaceMove.of_expirySend {i : Nat}
    (hmove : SpaceMove config i h (.expirySend r) h' pc' events) :
    h' = { h with expiryTx := h.expiryTx ++ [r] } ∧
      pc' = .returned (.ok .unit) := by
  cases hmove with
  | sendExpired => exact ⟨rfl, rfl⟩
  | drawFailed hpc => exact hpc.elim
  | store hcalls => cases hcalls
  | pass hpasses => cases hpasses
  | lease hpc => cases hpc

/-- How far a handler has come. -/
def Handling (h : SpaceHost) (pc : SpacePc) (op : SpaceOp)
    (b : SpaceHost × SpacePc) : Prop :=
  b = (h, pc) ∨
    b.1.landlord = h.landlord ∧ b.1.store = (h.store.exec op).2 ∧
      (∃ log', StoreGlob b.1 log' 0) ∧
      ((∃ r, b.2 = .expirySend r) ∨ ∃ answer, b.2 = .returned answer)

theorem Handler.alone (hop : Handler pc op) (hglob : StoreGlob h log 0)
    (hrun : Alone config (h, pc) b) : Handling h pc op b := by
  induction hrun with
  | refl => exact Or.inl rfl
  | @tail b c _ hstep ih =>
      obtain ⟨choice, events, -, hadv⟩ := hstep
      obtain ⟨m, pcm⟩ := b
      obtain ⟨m', pcm'⟩ := c
      have hmove := SpaceMove.of_advance hadv
      rcases ih with heq | ⟨hlandlord, hstore, ⟨log', hglob'⟩, hat⟩
      · obtain ⟨rfl, rfl⟩ := Prod.mk.inj heq
        have hloc : StoreLoc m log 0 pcm := by
          cases hop <;> intro r hr <;> cases hr
        have hglob' := hglob.step hmove hloc
        obtain ⟨rfl, hat⟩ := hop.move hmove
        exact Or.inr ⟨rfl, rfl, ⟨_, hglob'⟩, hat⟩
      · rcases hat with ⟨r, rfl⟩ | ⟨answer, rfl⟩
        · have hloc : StoreLoc m log' 0 (.expirySend r) := by
            intro r hr
            cases hr
          have hglob'' := hglob'.step hmove hloc
          obtain ⟨rfl, rfl⟩ := hmove.of_expirySend
          exact Or.inr ⟨hlandlord, hstore, ⟨_, hglob''⟩, Or.inr ⟨_, rfl⟩⟩
        · rw [no_move_of_returned] at hadv
          cases hadv

theorem AtRest.handled {handlers : List SpacePc}
    {answer : SpaceAnswer} (hrest : AtRest h log (pc :: handlers))
    (hop : Handler pc op)
    (hgone : ∀ l, pc = .onTupleExpired l → h.landlord.Gone l)
    (hrun : Alone config (h, pc) (h', .returned answer)) :
    h'.landlord = h.landlord ∧ ∃ log', AtRest h' log' handlers := by
  rcases hop.alone hrest.store hrun with heq | ⟨hlandlord, hstore, ⟨log', hglob⟩, -⟩
  · obtain ⟨-, rfl⟩ := Prod.mk.inj heq
    cases hop
  have hmem : ∀ r, r ∈ h'.store.records ↔
      r ∈ h.store.records ∧ pc ≠ .onTupleExpired r.leaseId := by
    intro r
    rw [hstore]
    exact hrest.store.mem_handled hop
  refine ⟨hlandlord, log', hglob, ?_, ?_, ?_⟩
  · rw [hlandlord]
    exact hrest.sound
  · intro l t hl
    rw [hlandlord] at hl
    obtain ⟨r, hr, rfl⟩ := Multiset.mem_map.mp (hrest.leased l t hl)
    refine Multiset.mem_map_of_mem _ ((hmem r).mpr ⟨hr, fun hpc => ?_⟩)
    -- A lease that is still in the store was not reclaimed.
    have hnone := (hgone r.leaseId hpc).2
    rw [Landlord.resource, hnone] at hl
    cases hl
  · intro r hr
    obtain ⟨hr, hpc⟩ := (hmem r).mp hr
    rw [hlandlord]
    refine (hrest.held r hr).imp_right fun hin => ?_
    exact (List.mem_cons.mp hin).resolve_left (Ne.symm hpc)

theorem AtRest.handles {handlers : List SpacePc} (hrest : AtRest h log handlers)
    (hhandlers : ∀ pc ∈ handlers, ∃ op, Handler pc op)
    (hgone : ∀ l, .onTupleExpired l ∈ handlers → h.landlord.Gone l)
    (hcascade : Handles config h handlers h') : ∃ log', AtRest h' log' [] := by
  induction hcascade generalizing log with
  | nil => exact ⟨log, hrest⟩
  | cons hfirst _ ih =>
      obtain ⟨op, hop⟩ := hhandlers _ List.mem_cons_self
      obtain ⟨hlandlord, log', hrest'⟩ :=
        hrest.handled hop (fun l hl => hgone l (hl ▸ List.mem_cons_self)) hfirst
      refine ih hrest' ?_ ?_
      · intro pc hpc
        exact hhandlers pc (List.mem_cons_of_mem _ hpc)
      · intro l hl
        rw [hlandlord]
        exact hgone l (List.mem_cons_of_mem _ hl)

/-! ## Reclaims -/

/-- A cancellation or a sweep, at any point of it. -/
def LeasePc.Reclaiming : LeasePc → Prop
  | .grant .. | .renew .. | .renewStore .. => False
  | _ => True

/-- What a cancellation has read is still what the store has. -/
def LeasePc.UpToDate (l : Landlord) : LeasePc → Prop
  | .cancelStore leaseId record => record = l.leases.leases[leaseId]?
  | _ => True

/-- The lease is in the store, or its announcement is owed. -/
def LeasePc.Covers (l : Landlord) (lpc : LeasePc) (k : String) : Prop :=
  l.leases.leases[k]?.isSome ∨ k ∈ lpc.owed

theorem LeasePc.covers_erase {l : Landlord} {lpc' : LeasePc}
    {leaseId k : String} (howed : ∀ k ∈ lpc.owed, k ∈ lpc'.owed)
    (hremoved : leaseId ∈ lpc'.owed ∨ l.leases.leases[leaseId]? = none)
    (hk : lpc.Covers l k) :
    lpc'.Covers { l with leases := ⟨l.leases.leases.erase leaseId⟩ } k := by
  rcases hk with hk | hk
  · by_cases heq : leaseId = k
    · subst heq
      rcases hremoved with hremoved | hnone
      · exact Or.inr hremoved
      · rw [hnone] at hk
        cases hk
    · refine Or.inl ?_
      simpa [get_erase, heq] using hk
  · exact Or.inr (howed k hk)

section Reclaim

variable {lease : LeaseConfig} {l l' : Landlord} {lpc lpc' : LeasePc}
  {Q : String → String → Prop}

theorem LeaseMove.reclaiming (hmove : LeaseMove lease l lpc l' lpc')
    (hlpc : lpc.Reclaiming) : lpc'.Reclaiming := by
  cases hmove with
  | renewRead => exact hlpc
  | _ => trivial

theorem LeaseMove.upToDate (hmove : LeaseMove lease l lpc l' lpc') :
    lpc'.UpToDate l' := by
  cases hmove with
  | cancelRead => rfl
  | _ => trivial

/-- A lease that a reclaim takes out of the store is announced, now or later. -/
theorem LeaseMove.covers (hmove : LeaseMove lease l lpc l' lpc')
    (hlpc : lpc.Reclaiming) (hsound : lpc.Sound Q l) (hread : lpc.UpToDate l) :
    ∃ new, l'.sent = l.sent ++ new ∧ ∀ k, lpc.Covers l k →
      lpc'.Covers l' k ∨ k ∈ new.map fun e => e.record.leaseId := by
  cases hmove with
  | grant | grantFailed | renewRefused | renewRead | renewFailed | renewed =>
      exact hlpc.elim
  | cancelRead | swept =>
      exact ⟨[], (List.append_nil _).symm, fun k hk => Or.inl hk⟩
  | @cancelled leaseId record =>
      obtain ⟨hid, -⟩ := hsound record rfl
      refine ⟨[], (List.append_nil _).symm, fun k hk => Or.inl ?_⟩
      refine LeasePc.covers_erase ?_ (Or.inl ?_) hk
      · intro k hk
        cases hk
      · exact hid ▸ List.mem_singleton_self _
  | cancelledUnknown =>
      refine ⟨[], (List.append_nil _).symm, fun k hk => Or.inl ?_⟩
      refine LeasePc.covers_erase ?_ (Or.inr hread.symm) hk
      intro k hk
      cases hk
  | cancelSent =>
      refine ⟨_, rfl, fun k hk => ?_⟩
      rcases hk with hk | hk
      · exact Or.inl (Or.inl hk)
      · exact Or.inr hk
  | listed => exact ⟨[], (List.append_nil _).symm, fun k hk => Or.inl hk⟩
  | @removed record cur todo removed =>
      refine ⟨[], (List.append_nil _).symm, fun k hk => Or.inl ?_⟩
      refine LeasePc.covers_erase ?_ (Or.inl ?_) hk
      · intro k hk
        exact List.mem_map.mpr ((List.mem_map.mp hk).imp fun r hr =>
          ⟨List.mem_append_left _ hr.1, hr.2⟩)
      · exact List.mem_map_of_mem (List.mem_append_right _ List.mem_cons_self)
  | kept | drained =>
      exact ⟨[], (List.append_nil _).symm, fun k hk => Or.inl hk⟩
  | @announced record removed =>
      refine ⟨_, rfl, fun k hk => ?_⟩
      rcases hk with hk | hk
      · exact Or.inl (Or.inl hk)
      · rcases List.mem_cons.mp hk with rfl | hk
        · exact Or.inr (List.mem_singleton_self _)
        · exact Or.inl (Or.inr hk)

end Reclaim

/-- The lease was in the store for this resource, or was gone already. -/
def Landlord.Had (l : Landlord) (k resourceId : String) : Prop :=
  l.resource k = some resourceId ∨ l.Gone k

/-- How far a reclaim that began in `h` has come. -/
structure Reclaims (h : SpaceHost) (log : List SpaceEvent) (m : SpaceHost)
    (lpc : LeasePc) : Prop where
  store : m.store = h.store
  glob : StoreGlob m log 0
  later : h.landlord.Later m.landlord
  sound : m.landlord.Sound h.landlord.Had
  reads : lpc.Sound h.landlord.Had m.landlord
  reclaiming : lpc.Reclaiming
  upToDate : lpc.UpToDate m.landlord
  covers : ∃ new, m.landlord.sent = h.landlord.sent ++ new ∧
    ∀ k, h.landlord.leases.leases[k]?.isSome →
      lpc.Covers m.landlord k ∨ k ∈ new.map fun e => e.record.leaseId

theorem AtRest.reclaims (hrest : AtRest h log [])
    (hlpc : lpc.reclaims = true) : Reclaims h log h lpc where
  store := rfl
  glob := hrest.store
  later := .refl _
  sound := by
    refine ⟨fun k record hk => ?_, fun e he => ?_⟩
    · obtain ⟨hid, hmem, -⟩ := hrest.sound.stored k record hk
      exact ⟨hid, hmem, Or.inl (by rw [Landlord.resource, hk, Option.map_some])⟩
    · have hgone := (hrest.sound.sent e he).1
      exact ⟨hgone, Or.inr hgone⟩
  reads := by
    cases lpc with
    | cancel | drainExpired => trivial
    | _ => cases hlpc
  reclaiming := by
    cases lpc with
    | cancel | drainExpired => trivial
    | _ => cases hlpc
  upToDate := by
    cases lpc with
    | cancel | drainExpired => trivial
    | _ => cases hlpc
  covers := ⟨[], (List.append_nil _).symm, fun k hk => Or.inl (Or.inl hk)⟩

theorem Reclaims.move {m' : SpaceHost} (hrec : Reclaims h log m lpc)
    (hmove : SpaceMove config 0 m (.lease lpc) m' pc' events) :
    ∃ lpc', pc' = .lease lpc' ∧ Reclaims h log m' lpc' := by
  have hloc : StoreLoc m log 0 (.lease lpc) := by
    intro r hr
    cases hr
  have hglob := hrec.glob.step hmove hloc
  cases hmove with
  | @lease _ _ _ lpc' _ landlord hpc hstep hafter =>
      obtain rfl := Option.some.inj hpc
      obtain rfl : SpacePc.lease lpc' = pc' := by
        cases lpc' <;> exact Option.some.inj hafter
      have hlease := LeaseMove.of_advance hstep
      have hgrant : ∀ resourceId ttlSecs u, lpc = .grant resourceId ttlSecs →
          h.landlord.Had u resourceId := by
        rintro resourceId ttlSecs u rfl
        exact hrec.reclaiming.elim
      obtain ⟨hsound, hreads⟩ := hlease.sound hrec.sound hrec.reads hgrant
      obtain ⟨new, hnew, hcovers⟩ := hrec.covers
      obtain ⟨more, hmore, hstill⟩ :=
        hlease.covers hrec.reclaiming hrec.reads hrec.upToDate
      rw [List.append_nil] at hglob
      refine ⟨lpc', rfl, hrec.store, hglob, hrec.later.trans hlease.later,
        hsound, hreads, hlease.reclaiming hrec.reclaiming, hlease.upToDate,
        new ++ more, ?_, fun k hk => ?_⟩
      · rw [hmore, hnew, List.append_assoc]
      · rw [List.map_append, List.mem_append]
        rcases hcovers k hk with hk | hk
        · exact (hstill k hk).imp_right Or.inr
        · exact Or.inr (Or.inl hk)
  | drawFailed hpc => exact hpc.elim
  | store hcalls => cases hcalls
  | pass hpasses => cases hpasses

theorem Reclaims.alone
    (hrec : Reclaims h log h lpc) (hrun : Alone config (h, .lease lpc) b) :
    ∃ lpc', b.2 = .lease lpc' ∧ Reclaims h log b.1 lpc' := by
  induction hrun with
  | refl => exact ⟨lpc, rfl, hrec⟩
  | @tail b c _ hstep ih =>
      obtain ⟨choice, events, -, hadv⟩ := hstep
      obtain ⟨m, pcm⟩ := b
      obtain ⟨lpc', rfl, hrec'⟩ := ih
      exact hrec'.move (SpaceMove.of_advance hadv)

/-- A lease that the reclaim has left is the one that was there. -/
theorem Reclaims.resource {k resourceId : String} (hrec : Reclaims h log m lpc)
    (hk : m.landlord.resource k = some resourceId) :
    h.landlord.resource k = some resourceId := by
  obtain ⟨record, hrecord, rfl⟩ := Option.map_eq_some_iff.mp hk
  rcases (hrec.sound.stored k record hrecord).2.2 with hhad | hgone
  · exact hhad
  · have hnone := (hrec.later.gone k hgone).2
    rw [hrecord] at hnone
    cases hnone

/-- When the reclaim has returned, every tuple has its lease or a handler that
will remove it. -/
theorem Reclaims.atRest
    {result : Except Error (Option LeaseRecord)} (hrest : AtRest h log [])
    (hrec : Reclaims h log m (.returned result)) :
    AtRest m log ((m.landlord.sent.drop h.landlord.sent.length).flatMap
      spaceCascade) := by
  obtain ⟨new, hnew, hcovers⟩ := hrec.covers
  have hdrop : m.landlord.sent.drop h.landlord.sent.length = new := by
    rw [hnew, List.drop_left]
  rw [hdrop]
  refine ⟨hrec.glob, hrec.sound.weaken fun _ _ _ _ => trivial, ?_, ?_⟩
  · intro l t hl
    have hheld := hrest.leased l t (hrec.resource hl)
    rwa [SpaceHost.heldLeases, hrec.store]
  · intro r hr
    rw [hrec.store] at hr
    have hlease := (hrest.held r hr).resolve_right List.not_mem_nil
    have hsome : h.landlord.leases.leases[r.leaseId]?.isSome := by
      obtain ⟨record, hrecord, -⟩ := Option.map_eq_some_iff.mp hlease
      rw [hrecord, Option.isSome_some]
    rcases hcovers r.leaseId hsome with (hin | howed) | hsent
    · obtain ⟨record, hrecord⟩ := Option.isSome_iff_exists.mp hin
      have hresource : m.landlord.resource r.leaseId = some record.resourceId := by
        rw [Landlord.resource, hrecord, Option.map_some]
      refine Or.inl ?_
      rw [HasLease, hresource, ← hrec.resource hresource]
      exact hlease
    · cases howed
    · obtain ⟨e, he, hid⟩ := List.mem_map.mp hsent
      refine Or.inr (List.mem_flatMap.mpr ⟨e, he, ?_⟩)
      have hmem : e ∈ m.landlord.sent := hnew ▸ List.mem_append_right _ he
      have hresource : e.record.resourceId = "space:" ++ r.tupleId := by
        rcases (hrec.sound.sent e hmem).2 with hhad | hgone
        · rw [hid, hlease] at hhad
          exact (Option.some.inj hhad).symm
        · rw [hid] at hgone
          rw [hgone.2] at hsome
          cases hsome
      unfold spaceCascade
      rw [stripPrefix_eq_some_iff.mpr hresource, hid]
      exact List.mem_singleton_self _

/-! ## Turns -/

theorem spaceCascade_handlers {e : LeaseReclaimed} (hpc : pc ∈ spaceCascade e) :
    (∃ op, Handler pc op) ∧ ∀ l, pc = .onTupleExpired l → l = e.record.leaseId := by
  unfold spaceCascade at hpc
  split at hpc
  · obtain rfl := List.mem_singleton.mp hpc
    refine ⟨⟨_, .tuple _⟩, ?_⟩
    rintro l ⟨rfl⟩
    rfl
  · split at hpc
    · obtain rfl := List.mem_singleton.mp hpc
      refine ⟨⟨_, .watch _⟩, ?_⟩
      rintro l ⟨⟩
    · cases hpc

/-- The handlers of leases that have been announced. -/
theorem AtRest.cascade {es : List LeaseReclaimed}
    (hrest : AtRest h log (es.flatMap spaceCascade))
    (hes : ∀ e ∈ es, e ∈ h.landlord.sent)
    (hcascade : Handles config h (es.flatMap spaceCascade) h') :
    ∃ log', AtRest h' log' [] := by
  refine hrest.handles ?_ ?_ hcascade
  · intro pc hpc
    obtain ⟨e, -, hpc⟩ := List.mem_flatMap.mp hpc
    exact (spaceCascade_handlers hpc).1
  · intro l hl
    obtain ⟨e, he, hl⟩ := List.mem_flatMap.mp hl
    rw [(spaceCascade_handlers hl).2 l rfl]
    exact (hrest.sound.sent e (hes e he)).1

theorem atRest_new : AtRest .new [] [] where
  store := by
    refine ⟨Reachable.refl _ _, ?_, ?_, ?_⟩ <;> simp [storeCalls, inserted]
  sound := by
    constructor
    · intro k record hk
      simp [SpaceHost.new, Landlord.new, InMemoryLeaseStore.new] at hk
    · intro e he
      cases he
  leased := by
    intro l t hl
    simp [Landlord.resource, SpaceHost.new, Landlord.new,
      InMemoryLeaseStore.new] at hl
  held := by
    intro r hr
    rw [← InMemorySpaceStore.map_snd_holdings_eq_records] at hr
    simp [SpaceHost.new, InMemorySpaceStore.holdings_new] at hr

theorem Turns.atRest {waiting : List SpacePc} (hturns : Turns config h waiting) :
    (∃ log, AtRest h log []) ∧ ∀ pc ∈ waiting, pc.Idle := by
  induction hturns with
  | new => exact ⟨⟨[], atRest_new⟩, fun pc hpc => by cases hpc⟩
  | tick nanoseconds _ ih =>
      obtain ⟨⟨log, hrest⟩, hidle⟩ := ih
      obtain ⟨⟨hrun, hused, hdrawn, honce⟩, ⟨hstored, hsent⟩, hleased, hheld⟩ :=
        hrest
      exact ⟨⟨log, ⟨hrun, hused, hdrawn, honce⟩, ⟨hstored, hsent⟩, hleased,
        hheld⟩, hidle⟩
  | call _ hpc hrun hidle ih =>
      obtain ⟨⟨log, hrest⟩, hwaiting⟩ := ih
      obtain ⟨log', hunder⟩ := (hrest.of_operation hpc).alone hrun
      exact ⟨⟨log', hunder.atRest hidle⟩, List.forall_mem_cons.mpr ⟨hidle, hwaiting⟩⟩
  | resume _ hrun hidle ih =>
      obtain ⟨⟨log, hrest⟩, hwaiting⟩ := ih
      obtain ⟨hpc, hwaiting⟩ := List.forall_mem_cons.mp hwaiting
      obtain ⟨log', hunder⟩ := (hrest.of_idle hpc).alone hrun
      exact ⟨⟨log', hunder.atRest hidle⟩, List.forall_mem_cons.mpr ⟨hidle, hwaiting⟩⟩
  | pick _ hperm ih =>
      exact ⟨ih.1, fun pc hpc => ih.2 pc (hperm.mem_iff.mpr hpc)⟩
  | @handle h h' _ e _ he hcascade ih =>
      obtain ⟨⟨log, hrest⟩, hwaiting⟩ := ih
      refine ⟨?_, hwaiting⟩
      have hone : [e].flatMap spaceCascade = spaceCascade e := by
        rw [List.flatMap_singleton]
      have hmore : AtRest h log ([e].flatMap spaceCascade) :=
        ⟨hrest.store, hrest.sound, hrest.leased, fun r hr =>
          Or.inl ((hrest.held r hr).resolve_right List.not_mem_nil)⟩
      refine hmore.cascade ?_ (hone ▸ hcascade)
      intro e' he'
      exact List.mem_singleton.mp he' ▸ he
  | reclaim _ hlpc hrun hcascade ih =>
      obtain ⟨⟨log, hrest⟩, hwaiting⟩ := ih
      refine ⟨?_, hwaiting⟩
      obtain ⟨lpc', heq, hrec⟩ := (hrest.reclaims hlpc).alone hrun
      obtain rfl := SpacePc.lease.inj heq
      refine (Reclaims.atRest hrest hrec).cascade ?_ hcascade
      intro e he
      exact List.mem_of_mem_drop he

end Between

/-- After any calls and reclaims, made one after another, the leases granted for
tuples are those of the tuples in the Space, one for each. -/
theorem leases_match_tuples {config : SpaceConfig} {h : SpaceHost}
    {waiting : List SpacePc} (hturns : Turns config h waiting) :
    (∀ l, (∃ record, h.landlord.leases.get l = some record ∧
        (stripPrefix "space:" record.resourceId).isSome) ↔
      ∃ r ∈ h.store.records, r.leaseId = l) ∧
    (∀ r ∈ h.store.records, ∃ record,
      h.landlord.leases.get r.leaseId = some record ∧
        record.resourceId = "space:" ++ r.tupleId) ∧
    (h.store.records.map TupleRecord.leaseId).Nodup := by
  obtain ⟨⟨log, hrest⟩, -⟩ := hturns.atRest
  have hlease : ∀ r ∈ h.store.records, ∃ record,
      h.landlord.leases.get r.leaseId = some record ∧
        record.resourceId = "space:" ++ r.tupleId := by
    intro r hr
    have hheld := (hrest.held r hr).resolve_right List.not_mem_nil
    exact Option.map_eq_some_iff.mp hheld
  refine ⟨fun l => ⟨?_, ?_⟩, hlease, ?_⟩
  · rintro ⟨record, hrecord, hspace⟩
    obtain ⟨t, ht⟩ := Option.isSome_iff_exists.mp hspace
    have hresource : h.landlord.resource l = some ("space:" ++ t) :=
      Option.map_eq_some_iff.mpr
        ⟨record, hrecord, stripPrefix_eq_some_iff.mp ht⟩
    exact Multiset.mem_map.mp (hrest.leased l t hresource)
  · rintro ⟨r, hr, rfl⟩
    obtain ⟨record, hrecord, hresource⟩ := hlease r hr
    refine ⟨record, hrecord, ?_⟩
    rw [stripPrefix_eq_some_iff.mpr hresource, Option.isSome_some]
  · have hleases := hrest.store.run.coherent.leases
    rwa [InMemorySpaceStore.map_snd_holdings_eq_records] at hleases

/-- A call that runs alone, with what the outside decides in each move. -/
def play (config : SpaceConfig) :
    SpaceHost × SpacePc → List SpaceChoice → Option (SpaceHost × SpacePc)
  | a, [] => some a
  | a, choice :: choices =>
      match a.2.advance config 0 a.1 choice with
      | none => none
      | some (h, pc, _) => play config (h, pc) choices

theorem Alone.of_play {config : SpaceConfig} {a : SpaceHost × SpacePc}
    {choices : List SpaceChoice} (haccepts : ∀ c ∈ choices, c.Accepts)
    (hplay : play config a choices = some b) : Alone config a b := by
  induction choices generalizing a with
  | nil =>
      obtain rfl := Option.some.inj hplay
      exact .refl
  | cons choice choices ih =>
      obtain ⟨hfirst, hothers⟩ := List.forall_mem_cons.mp haccepts
      simp only [play] at hplay
      split at hplay
      · cases hplay
      · next h pc events hadv =>
        exact .head ⟨choice, events, hfirst, hadv⟩ (ih hothers hplay)

def loanWrite : WriteRequest where
  attrs := ∅
  payload := []
  ttlSecs := 60
  writtenBy := "shop"
  inputTupleId := none
  txnId := some "t"

def loanWritten : SpaceHost × SpacePc :=
  (play quietSpace (.new, .write loanWrite) [.uuids "1" "l", .go, .go]).get
    (by decide +kernel)

def loanDue : SpaceHost :=
  { loanWritten.1 with landlord := { loanWritten.1.landlord with
    now := loanWritten.1.landlord.now + 60 * 10 ^ 9 } }

def loanSwept : SpaceHost × SpacePc :=
  (play quietSpace (loanDue, .lease .drainExpired)
    [.lease (.order .sorted), .lease .go, .lease .go, .lease .go,
      .lease .go]).get (by decide +kernel)

def loanHandled : SpaceHost × SpacePc :=
  (play quietSpace (loanSwept.1, .onTupleExpired "l") [.go, .go]).get
    (by decide +kernel)

theorem loanWritten_turns : Turns quietSpace loanWritten.1 [loanWritten.2] := by
  have hrun : Alone quietSpace (.new, .write loanWrite) loanWritten :=
    .of_play (by simp [SpaceChoice.Accepts]) (Option.some_get _).symm
  exact .call .new rfl hrun trivial

theorem loanHandled_turns : Turns quietSpace loanHandled.1 [loanWritten.2] := by
  have hsweep : Alone quietSpace (loanDue, .lease .drainExpired) loanSwept :=
    .of_play (by simp [SpaceChoice.Accepts]) (Option.some_get _).symm
  have hhandler : Alone quietSpace (loanSwept.1, .onTupleExpired "l") loanHandled :=
    .of_play (by simp [SpaceChoice.Accepts]) (Option.some_get _).symm
  rw [show loanSwept = (loanSwept.1, .lease (.returned (.ok none))) from rfl]
    at hsweep
  rw [show loanHandled = (loanHandled.1, .returned (.ok .unit)) from rfl]
    at hhandler
  exact .reclaim (.tick (60 * 10 ^ 9) loanWritten_turns) rfl hsweep
    (.cons hhandler (.nil _))

/-- The tuple has its lease while it is there, and both go together. -/
theorem leases_match_tuples_minute :
    (∃ r ∈ loanWritten.1.store.records, r.leaseId = "l") ∧
      ¬ ∃ r ∈ loanHandled.1.store.records, r.leaseId = "l" := by
  constructor
  · apply ((leases_match_tuples loanWritten_turns).1 "l").mp
    exact ⟨_, rfl, rfl⟩
  · intro hheld
    obtain ⟨record, hrecord, -⟩ :=
      ((leases_match_tuples loanHandled_turns).1 "l").mpr hheld
    have hnone : loanHandled.1.landlord.leases.get "l" = none := by
      decide +kernel
    rw [hnone] at hrecord
    cases hrecord

end Coordin8
