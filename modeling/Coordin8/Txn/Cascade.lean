import Coordin8.Lease.Reclaim
import Coordin8.Txn.Agreement

/-!
# The cascade from leases to transactions

When a lease is reclaimed, the `txn` cascade aborts the transaction that the
resource id of the lease names.  The process lets clients choose the resource
ids of their own leases, so a client's lease may name a transaction too, and
then the transaction is aborted although its own lease is alive.  When no client
does that, only the transaction's own lease aborts it.
-/

namespace Coordin8

open Support Support.DashMap TxnPc

/-! ## Where leases come from -/

/-- A lease that names a transaction is the transaction's own, or a client has
asked for it. -/
def NamedBy (log : List TxnEvent) (leaseId resourceId : String) : Prop :=
  ∀ x, resourceId = "txn:" ++ x →
    (∃ i, .began i x leaseId ∈ log) ∨ .granted resourceId ∈ log

theorem NamedBy.append {log : List TxnEvent} (events : List TxnEvent)
    (u r : String) (h : NamedBy log u r) : NamedBy (log ++ events) u r := by
  intro x hx
  rcases h x hx with ⟨i, hi⟩ | hgranted
  · exact Or.inl ⟨i, List.mem_append_left _ hi⟩
  · exact Or.inr (List.mem_append_left _ hgranted)

/-- A reclaimed lease names the transaction `x`. -/
def Announced (l : Landlord) (x : String) : Prop :=
  ∃ e ∈ l.sent, e.record.resourceId = "txn:" ++ x

structure CascadeGlob (h : TxnHost) (log : List TxnEvent) (_ : Nat) : Prop where
  landlord : h.landlord.Sound (NamedBy log)
  aborted : ∀ i x new,
    .moved i (.abortExpired .cascade) x .active new ∈ log →
      Announced h.landlord x

def CascadeLoc (h : TxnHost) (log : List TxnEvent) (_ : Nat) : TxnPc → Prop
  | .cancelLease lpc _ => lpc.Cancelling ∧ lpc.Sound (NamedBy log) h.landlord
  | .lease lpc => lpc.Sound (NamedBy log) h.landlord
  | .abortExpired .cascade x => Announced h.landlord x
  | _ => True

section Step

variable {config : TxnConfig} {i : Nat} {h h' : TxnHost} {pc pc' : TxnPc}
  {events log : List TxnEvent}

theorem Announced.later {l l' : Landlord} {x : String} (h : Announced l x)
    (hlater : l.Later l') : Announced l' x := by
  obtain ⟨e, he, hx⟩ := h
  exact ⟨e, hlater.sent he, hx⟩

theorem CascadeLoc.later (hloc : CascadeLoc h log i pc)
    (hlater : h.landlord.Later h'.landlord) (events : List TxnEvent) :
    CascadeLoc h' (log ++ events) i pc := by
  cases pc with
  | cancelLease lpc result =>
      exact ⟨hloc.1, hloc.2.later hlater (fun u r _ => NamedBy.append events u r)⟩
  | lease lpc => exact LeasePc.Sound.later hloc hlater (fun u r _ => NamedBy.append events u r)
  | abortExpired origin x =>
      cases origin with
      | cascade => exact Announced.later hloc hlater
      | sweep => trivial
  | _ => trivial

theorem CascadeLoc.of_owned {x : String} (hown : pc.owned = some x) :
    CascadeLoc h log i pc := by
  cases pc <;> trivial

theorem TxnMove.later (hmove : TxnMove config i h pc h' pc' events) :
    h.landlord.Later h'.landlord := by
  cases hmove with
  | begin _ hlease hgrant =>
      exact (Landlord.Later.draw _ _).trans (.grant hlease hgrant)
  | beginFailed => exact .draw _ _
  | cancelLease hstep | lease hstep => exact (LeaseMove.of_advance hstep).later
  | _ => exact .refl _

theorem CascadeLoc.of_plain (hmove : TxnMove config i h pc h' pc' events)
    (hcancel : ∀ lpc result, pc ≠ .cancelLease lpc result)
    (hlease : ∀ lpc, pc ≠ .lease lpc) : CascadeLoc h' log i pc' := by
  cases hmove with
  | begin | beginFailed | create | enlist | fetchFailed | transitionFailed =>
      trivial
  | idle hpc hpc' =>
      cases pc' <;> trivial
  | claim hclaims => cases hclaims <;> trivial
  | fetch hfetches =>
      cases hfetches with
      | commit =>
          unfold plan
          split <;> trivial
      | abort | expired => trivial
  | @transition _ _ _ _ after =>
      cases after with
      | finish => exact ⟨trivial, trivial⟩
      | commitPhase | abortPhase => trivial
  | join hjoin =>
      rcases join_cases hjoin with
        ⟨_, _, _, _, rfl, -⟩ | ⟨_, _, rfl⟩ | ⟨_, rfl⟩
      · trivial
      · exact ⟨trivial, trivial⟩
      · trivial
  | send hsend =>
      obtain ⟨y, -, hown⟩ := owned_of_send hsend
      exact .of_owned hown
  | vote hvote =>
      obtain ⟨y, -, hown⟩ := owned_of_vote hvote
      exact .of_owned hown
  | ack hack =>
      obtain ⟨y, -, hown⟩ := owned_of_ack hack
      exact .of_owned hown
  | cancelLease => exact absurd rfl (hcancel _ _)
  | lease => exact absurd rfl (hlease _)

theorem NamedBy.own {leaseId x : String} (hbegan : .began i x leaseId ∈ log) :
    NamedBy log leaseId ("txn:" ++ x) := by
  intro y hy
  have hx := stripPrefix_eq_some_iff.mpr hy
  rw [stripPrefix_eq_some_iff.mpr rfl] at hx
  exact Or.inl ⟨i, Option.some.inj hx ▸ hbegan⟩

theorem CascadeGlob.landlord_step (hmove : TxnMove config i h pc h' pc' events)
    (hl : h.landlord.Sound (NamedBy log)) (hloc : CascadeLoc h log i pc) :
    h'.landlord.Sound (NamedBy (log ++ events)) := by
  have hl' := hl.weaken (fun u r _ => NamedBy.append events u r)
  cases hmove with
  | begin _ hlease hgrant =>
      refine (hl'.draw _).grant hlease hgrant (.own (i := i) ?_)
      simp [(Landlord.grant_eq_ok hgrant).1]
  | beginFailed => exact hl'.draw _
  | cancelLease hstep =>
      refine ((LeaseMove.of_advance hstep).sound hl'
        (hloc.2.later (.refl _) (fun u r _ => NamedBy.append [] u r)) ?_).1
      rintro resourceId ttlSecs u rfl
      exact False.elim hloc.1
  | lease hstep =>
      refine ((LeaseMove.of_advance hstep).sound_of_fresh hl'
        (LeasePc.Sound.later hloc (.refl _) (fun u r _ => NamedBy.append _ u r)) ?_).1
      rintro resourceId ttlSecs u rfl - ⟨record, rfl⟩ x hx
      exact Or.inr (by simp [grantEvents])
  | _ => exact hl'

theorem TxnMove.of_cascaded (hmove : TxnMove config i h pc h' pc' events)
    {j : Nat} {x : String} {new : TransactionState}
    (he : .moved j (.abortExpired .cascade) x .active new ∈ events) :
    pc = .abortExpired .cascade x := by
  cases hmove with
  | claim hclaims => cases hclaims <;> simp_all
  | transitionFailed _ hevents => cases hevents _ he
  | @send pc _ _ _ hsend =>
      obtain rfl := List.mem_singleton.mp he
      cases pc <;> simp [TxnPc.send] at hsend
  | @vote pc _ _ _ _ hvote =>
      obtain rfl := List.mem_singleton.mp he
      cases pc <;> simp [TxnPc.vote] at hvote
  | lease => cases (eq_of_mem_grantEvents he).choose_spec
  | _ => simp at he

theorem CascadeGlob.step {n : Nat} (hmove : TxnMove config i h pc h' pc' events)
    (hglob : CascadeGlob h log n) (hloc : CascadeLoc h log i pc) :
    CascadeGlob h' (log ++ events) n := by
  refine ⟨landlord_step hmove hglob.landlord hloc, fun j x new he => ?_⟩
  rcases List.mem_append.mp he with he | he
  · exact (hglob.aborted j x new he).later hmove.later
  · obtain rfl := hmove.of_cascaded he
    exact Announced.later hloc hmove.later

theorem CascadeLoc.step {n : Nat} (hmove : TxnMove config i h pc h' pc' events)
    (hglob : CascadeGlob h log n) (hloc : CascadeLoc h log i pc) :
    CascadeLoc h' (log ++ events) i pc' := by
  have hl' := hglob.landlord.weaken (fun u r _ => NamedBy.append events u r)
  cases pc with
  | cancelLease lpc result =>
      obtain ⟨c, landlord, lpc', hstep, rfl, rfl, rfl⟩ := hmove.of_cancelLease
      have hlease := LeaseMove.of_advance hstep
      obtain ⟨-, hsound⟩ := hlease.sound hl'
        (hloc.2.later (.refl _) (fun u r _ => NamedBy.append [] u r)) (by
          rintro resourceId ttlSecs u rfl
          exact False.elim hloc.1)
      rcases hlease.cancelling hloc.1 with hcancelling | ⟨answer, rfl⟩
      · cases lpc' <;> first | exact ⟨hcancelling, hsound⟩ | trivial
      · trivial
  | lease lpc =>
      obtain ⟨c, landlord, lpc', hstep, rfl, rfl, rfl⟩ := hmove.of_lease
      exact ((LeaseMove.of_advance hstep).sound_of_fresh hl'
        (LeasePc.Sound.later hloc (.refl _) (fun u r _ => NamedBy.append _ u r)) (by
          rintro resourceId ttlSecs u rfl - ⟨record, rfl⟩ x hx
          exact Or.inr (by simp [grantEvents]))).2
  | _ => exact .of_plain hmove (by simp) (by simp)

end Step

theorem cascade_keeps (config : TxnConfig) :
    (txnProgram config).Keeps TxnProc.new CascadeGlob CascadeLoc where
  init := by
    refine ⟨⟨⟨?_, ?_⟩, ?_⟩, ?_⟩ <;>
      simp [TxnProc.new, TxnHost.new, Landlord.new, InMemoryLeaseStore.new]
  call := by
    intro s pc _ _ hentry hglob
    refine ⟨⟨hglob.landlord, hglob.aborted⟩, ?_⟩
    cases pc with
    | lease lpc => cases lpc <;> trivial
    | abortExpired origin x => cases origin <;> trivial
    | _ => trivial
  step := by
    intro s i pc choice shared pc' events _ _ hpc hadv hglob hloc
    have hmove := TxnMove.of_advance hadv
    refine ⟨hglob.step hmove (hloc i pc hpc), .step hmove hglob (hloc i pc hpc),
      fun j pcj _ hpcj => (hloc j pcj hpcj).later hmove.later events⟩
  ambient := by
    intro s event shared spawned _ _ hamb hglob hloc
    obtain ⟨-, huuids, hleases, hsent, hspawned⟩ := TxnHost.ambient_cases hamb
    have hlater := Landlord.Later.of_eq huuids hleases hsent
    refine ⟨⟨?_, fun i x new he => (hglob.aborted i x new he).later hlater⟩,
      fun k pc hpc => ?_, fun j pc hpc => ?_⟩
    · refine hglob.landlord.of_stored hlater hsent fun k record hk => ?_
      rw [hleases] at hk
      rw [huuids]
      exact hglob.landlord.stored k record hk
    · obtain ⟨e, he, x, hx, rfl⟩ := hspawned pc (List.mem_of_getElem? hpc)
      exact ⟨e, hsent ▸ he, stripPrefix_eq_some_iff.mp hx⟩
    · simpa using (hloc j pc hpc).later hlater []

/-! ## Only the own lease, when no client names a transaction -/

/-- No lease that was granted to a client names a transaction of this process,
whether it has begun before the grant or after it. -/
def Apart (log : List TxnEvent) : Prop :=
  ∀ j x l, .began j x l ∈ log → .granted ("txn:" ++ x) ∉ log

/-- In every run in which no client's lease names a transaction, a transaction
that the cascade aborts has lost its own lease. -/
theorem cascade_own_lease {config : TxnConfig} {s : TxnProc} {i : Nat}
    {x : String} (hreach : TxnReachable config s) (hapart : Apart s.log)
    (hmoved : .moved i (.abortExpired .cascade) x .active .aborted ∈ s.log) :
    ∃ r, s.shared.txns.records[x]? = some r ∧
      s.shared.landlord.leases.leases[r.leaseId]? = none := by
  have hglob := ((cascade_keeps config).holds hreach).1
  obtain ⟨e, he, hx⟩ := hglob.aborted i x _ hmoved
  obtain ⟨hgone, hnamed⟩ := hglob.landlord.sent e he
  have hrec := hreach.glob.record x
  cases hr : s.shared.txns.records[x]? with
  | none =>
      rw [hr] at hrec
      have hmem := (mem_about (x := x) (by simp [TxnEvent.txn])).mpr hmoved
      rw [show about x s.log = [] from hrec] at hmem
      cases hmem
  | some r =>
      refine ⟨r, rfl, ?_⟩
      obtain ⟨j, hj⟩ := hreach.glob.began x r hr
      rcases hnamed x hx with ⟨k, hk⟩ | hgranted
      · rw [(hreach.glob.once j k x _ _ hj hk).2]
        exact hgone.2
      · exact absurd (hx ▸ hgranted) (hapart j x _ hj)

/-- The transaction `t` with the lease `l`; a client is granted the lease `m` on
the resource `txn:t` and cancels it. -/
def intrusion : List TxnAct :=
  [.call (.begin 300), .step 0 (.uuids "t" "l"), .step 0 .go,
    .call (.lease (.grant "txn:t" 300)), .step 1 (.lease (.uuid "m")),
    .call (.lease (.cancel "m")), .step 2 (.lease .go), .step 2 (.lease .go),
    .step 2 (.lease .go), .ambient .cascade, .step 3 .go]

/-- The cascade aborts `t` although its lease `l` is in the store. -/
theorem cascade_foreign_lease :
    ∃ s, run (txnProgram openHouse).step TxnProc.new intrusion = some s ∧
      .moved 3 (.abortExpired .cascade) "t" .active .aborted ∈ s.log ∧
      ∃ r, s.shared.txns.records["t"]? = some r ∧
        (s.shared.landlord.leases.leases[r.leaseId]?).isSome := by
  refine ⟨_, rfl, by decide, _, rfl, by decide⟩

def ownCancel : List TxnAct :=
  [.call (.begin 300), .step 0 (.uuids "t" "l"), .step 0 .go,
    .call (.lease (.cancel "l")), .step 1 (.lease .go), .step 1 (.lease .go),
    .step 1 (.lease .go), .ambient .cascade, .step 2 .go]

def afterOwnCancel : TxnProc :=
  (run (txnProgram openHouse).step TxnProc.new ownCancel).get rfl

theorem cascade_own_lease_cancelled :
    .moved 2 (.abortExpired .cascade) "t" .active .aborted ∈ afterOwnCancel.log ∧
      ∃ r, afterOwnCancel.shared.txns.records["t"]? = some r ∧
        afterOwnCancel.shared.landlord.leases.leases[r.leaseId]? = none := by
  have hlog : afterOwnCancel.log = [.began 0 "t" "l",
      .moved 2 (.abortExpired .cascade) "t" .active .aborted] := rfl
  have hmoved : .moved 2 (.abortExpired .cascade) "t" .active .aborted ∈
      afterOwnCancel.log := by simp [hlog]
  have hapart : Apart afterOwnCancel.log := by simp [Apart, hlog]
  have hreach : TxnReachable openHouse afterOwnCancel :=
    ⟨ownCancel, (Option.some_get _).symm⟩
  exact ⟨hmoved, cascade_own_lease hreach hapart hmoved⟩

end Coordin8
