import Coordin8.Txn.Protocol

/-!
# One owner for each transaction

The invariant of the transaction manager's process.  A transaction that left
`Active` has exactly one claimant, the task that won the compare-and-set, and
its history is the progress of that task; an active transaction has no history
but its enlistments.  No other task can touch a transaction that has left
`Active`, so the transitions of the claimant always find the state they
expect.
-/

namespace Coordin8

open Support Support.DashMap TxnPc

/-! ## What a move leaves alone -/

/-- The transaction the next move of a call may touch. -/
def TxnPc.target : TxnPc → Option String
  | .beginCreate txnId _ | .enlist txnId _ _ | .commit txnId | .abort txnId
  | .abortExpired _ txnId => some txnId
  | pc => pc.owned

variable {pc won : TxnPc} {agent : Agent} {x : String} {new : TransactionState}
  {k : Nat} {e : TxnEvent}

theorem TxnPc.Claims.target (h : Claims pc agent x new won) :
    pc.target = some x := by
  cases h <;> rfl

theorem TxnPc.Claims.allowed (h : Claims pc agent x new won) :
    Allowed .active new := by
  cases h with
  | commit => exact .vote
  | abort | abortExpired => exact .abort

theorem TxnPc.target_of_owned (h : pc.owned = some x) : pc.target = some x := by
  cases pc <;> first | exact h | cases h

theorem TxnPc.send_txn {pc' : TxnPc}
    (h : pc.send k = some (e, pc')) : e.txn = pc.owned := by
  cases pc with
  | prepareAndCommit | preparing | committing | aborting =>
      obtain ⟨⟨ep, batch⟩, -, heq⟩ := Option.map_eq_some_iff.mp h
      obtain ⟨rfl, -⟩ := Prod.mk.inj heq
      rfl
  | _ => cases h

theorem TxnPc.vote_txn {pc' : TxnPc} {reply : Option Int32} (h : pc.vote k reply = some (e, pc')) :
    e.txn = pc.owned := by
  cases pc with
  | prepareAndCommit | preparing =>
      obtain ⟨⟨ep, batch⟩, -, heq⟩ := Option.map_eq_some_iff.mp h
      obtain ⟨rfl, -⟩ := Prod.mk.inj heq
      rfl
  | _ => cases h

section Untouched

variable {config : TxnConfig} {i : Nat} {h h' : TxnHost} {pc pc' : TxnPc}
  {events : List TxnEvent}

theorem TxnMove.untouched (hmove : TxnMove config i h pc h' pc' events) (hx : pc.target ≠ some x) :
    h'.txns.records[x]? = h.txns.records[x]? ∧
      ∀ e ∈ events, e.txn ≠ some x := by
  have hne : ∀ {y : String}, pc.target = some y → y ≠ x := by
    rintro y hy rfl
    exact hx hy
  have howned : pc.owned ≠ some x := fun hown => hx (target_of_owned hown)
  cases hmove with
  | begin | beginFailed => simp [TxnEvent.txn]
  | create => simp [InMemoryTxnStore.create, get_insert, hne rfl]
  | enlist | transition => simp [get_insert, hne rfl, TxnEvent.txn]
  | idle | fetch | fetchFailed | join | ack | cancelLease => simp
  | claim hclaims => simp [get_insert, hne hclaims.target, TxnEvent.txn]
  | transitionFailed _ hevents =>
      refine ⟨rfl, fun e he => ?_⟩
      rw [hevents e he]
      simpa [TxnEvent.txn] using hne rfl
  | send hsend =>
      refine ⟨rfl, fun e he => ?_⟩
      rw [List.mem_singleton.mp he, send_txn hsend]
      exact howned
  | vote hvote =>
      refine ⟨rfl, fun e he => ?_⟩
      rw [List.mem_singleton.mp he, vote_txn hvote]
      exact howned
  | lease =>
      refine ⟨rfl, fun e he => ?_⟩
      obtain ⟨r, rfl⟩ := eq_of_mem_grantEvents he
      simp [TxnEvent.txn]

end Untouched

/-! ## The invariant -/

/-- The record of the transaction `x` and its history agree. -/
def RecordInv (x : String) (n : Nat) (g : List TxnEvent) :
    Option TransactionRecord → Prop
  | none => g = []
  | some r =>
      r.txnId = x ∧ r.participants = enlistedIn g ∧
        (r.state = .active → claimants g = [] ∧ Rounds.None x g) ∧
        (r.state ≠ .active → ∃ i < n, claimants g = [i])

/-- What holds of the shared state and the log of a process with `n` tasks. -/
structure TxnGlob (h : TxnHost) (log : List TxnEvent) (n : Nat) : Prop where
  record : ∀ x, RecordInv x n (about x log) h.txns.records[x]?
  expected : ∀ x old new, .unexpected x old new ∉ log
  began : ∀ x r, h.txns.records[x]? = some r → ∃ i, .began i x r.leaseId ∈ log
  drawn : ∀ i x l, .began i x l ∈ log →
    x ∈ h.landlord.uuids ∧ l ∈ h.landlord.uuids
  once : ∀ i j x l l', .began i x l ∈ log → .began j x l' ∈ log → i = j ∧ l = l'

/-- Each record is stored under its own id. -/
def Keyed (h : TxnHost) : Prop :=
  ∀ (x : String) (r : TransactionRecord), h.txns.records[x]? = some r →
    r.txnId = x

theorem TxnGlob.keyed {h : TxnHost} {log : List TxnEvent} {n : Nat}
    (hglob : TxnGlob h log n) : Keyed h := by
  intro x r hr
  have hrec := hglob.record x
  rw [hr] at hrec
  exact hrec.1

/-- What holds of the task `i`. -/
structure TxnLoc (h : TxnHost) (log : List TxnEvent) (i : Nat) (pc : TxnPc) :
    Prop where
  owner : ∀ x, pc.owned = some x → claimants (about x log) = [i]
  progress : ∀ x, claimants (about x log) = [i] →
    ∃ r, h.txns.records[x]? = some r ∧ Progress x r (about x log) pc
  create : ∀ x granted, pc = .beginCreate x granted →
    .began i x granted.leaseId ∈ log ∧ h.txns.records[x]? = none

/-- What a step may do to the record of a transaction: make a new one, add
participants while it is active, or move the state as the code allows. -/
def RecordStep : Option TransactionRecord → Option TransactionRecord → Prop
  | none, none => True
  | none, some r' => r'.state = .active
  | some _, none => False
  | some r, some r' =>
      (r'.state = r.state ∨ Allowed r.state r'.state) ∧
        (r.state ≠ .active → r'.participants = r.participants)

theorem RecordStep.refl (rec : Option TransactionRecord) :
    RecordStep rec rec := by
  cases rec with
  | none => trivial
  | some r => exact ⟨Or.inl rfl, fun _ => rfl⟩

/-- What a move does to a transaction: nothing, or it was unclaimed and is still
unclaimed or now claimed by the mover, or the mover had claimed it. -/
def Touched (i : Nat) (g g' : List TxnEvent)
    (rec rec' : Option TransactionRecord) : Prop :=
  (g' = g ∧ rec' = rec) ∨
    (claimants g = [] ∧ (claimants g' = [] ∨ claimants g' = [i])) ∨
    (claimants g = [i] ∧ claimants g' = [i])

theorem claimants_append (g g' : List TxnEvent) :
    claimants (g ++ g') = claimants g ++ claimants g' :=
  List.filterMap_append

theorem enlistedIn_append (g g' : List TxnEvent) :
    enlistedIn (g ++ g') = enlistedIn g ++ enlistedIn g' :=
  List.filterMap_append

/-! ## Moves of the owner -/

/-- What a move of the owner does to the record: at most the state changes, and
only as the code allows. -/
structure Advanced (x : String) (r r' : TransactionRecord) : Prop where
  txnId : r'.txnId = x
  leaseId : r'.leaseId = r.leaseId
  participants : r'.participants = r.participants
  state : r'.state = r.state ∨ Allowed r.state r'.state

/-- The events of an owner's move are calls, votes and moves past `Active`. -/
structure OwnerEvents (x : String) (events : List TxnEvent) : Prop where
  txn : ∀ e ∈ events, e.txn = some x
  claimants : claimants events = []
  enlisted : enlistedIn events = []
  expected : ∀ y old new, .unexpected y old new ∉ events

theorem OwnerEvents.nil (x : String) : OwnerEvents x [] :=
  ⟨by simp, rfl, rfl, by simp⟩

section OwnerStep

variable {config : TxnConfig} {i : Nat} {h h' : TxnHost} {pc pc' : TxnPc}
  {events : List TxnEvent} {x : String} {r : TransactionRecord}
  {g : List TxnEvent}

theorem TxnPc.not_owned_of_idle (hidle : pc.Idle) : pc.owned ≠ some x := by
  cases pc <;> first | exact False.elim hidle | simp [owned]

theorem TxnPc.Claims.not_owned {y : String} (hclaims : Claims pc agent y new won) :
    pc.owned ≠ some x := by
  cases hclaims <;> simp [owned]

theorem TxnPc.Fetches.owned {found : TransactionRecord → TxnPc}
    (hfetches : Fetches pc x found) : pc.owned = some x := by
  cases hfetches <;> rfl

/-- A move of the owner: it finds its transaction as it expects it, and makes
progress. -/
theorem Progress.step (hmove : TxnMove config i h pc h' pc' events)
    (hown : pc.owned = some x) (hr : h.txns.records[x]? = some r)
    (hid : r.txnId = x) (hp : Progress x r g pc) :
    ∃ r', h'.txns.records[x]? = some r' ∧ Advanced x r r' ∧
      OwnerEvents x events ∧ Progress x r' (g ++ events) pc' := by
  have hsame : Advanced x r r := ⟨hid, rfl, rfl, Or.inl rfl⟩
  cases hmove with
  | begin | beginFailed | create | enlist | cancelLease | lease => cases hown
  | idle hpc => exact absurd hown (not_owned_of_idle hpc)
  | claim hclaims => exact absurd hown hclaims.not_owned
  | fetch hfetches hr₁ =>
      obtain rfl := Option.some.inj (hfetches.owned.symm.trans hown)
      rw [hr] at hr₁
      obtain rfl := Option.some.inj hr₁
      refine ⟨r, hr, hsame, .nil _, ?_⟩
      rw [List.append_nil]
      exact hp.fetch hfetches
  | fetchFailed hfetches hr₁ =>
      obtain rfl := Option.some.inj (hfetches.owned.symm.trans hown)
      rw [hr] at hr₁
      cases hr₁
  | @transition txn r₁ old new after hr₁ hstate =>
      obtain rfl := Option.some.inj hown
      rw [hr] at hr₁
      obtain rfl := Option.some.inj hr₁
      have hplanned := hp.2.2
      have hevents : OwnerEvents txn.txnId
          [.moved i .commit txn.txnId old new] := by
        refine ⟨by simp [TxnEvent.txn], ?_, rfl, by simp⟩
        cases hplanned <;> rfl
      refine ⟨{ r with state := new }, by simp,
        ⟨hid, rfl, rfl, Or.inr ?_⟩, hevents, hp.transition hid i⟩
      rw [hstate]
      exact hplanned.allowed
  | transitionFailed hr₁ =>
      obtain rfl := Option.some.inj hown
      exact absurd hp.2.1 (hr₁ r hr)
  | join hjoin =>
      refine ⟨r, hr, hsame, .nil _, ?_⟩
      rw [List.append_nil]
      exact hp.join hid hjoin
  | send hsend =>
      obtain ⟨⟨kind, ep, rfl⟩, hp'⟩ := hp.send hid hsend
      exact ⟨r, hr, hsame, ⟨by simp [TxnEvent.txn], rfl, rfl, by simp⟩, hp'⟩
  | vote hvote =>
      obtain ⟨⟨kind, rfl⟩, hp'⟩ := hp.vote hid hvote
      exact ⟨r, hr, hsame, ⟨by simp [TxnEvent.txn], rfl, rfl, by simp⟩, hp'⟩
  | ack hack =>
      refine ⟨r, hr, hsame, .nil _, ?_⟩
      rw [List.append_nil]
      exact hp.ack hack

/-! ## All moves -/

/-- What a move of the task `i` leaves of the invariant at the transaction
`x`. -/
structure StepAt (x : String) (i n : Nat) (h h' : TxnHost)
    (g g' : List TxnEvent) (pc pc' : TxnPc) : Prop where
  record : RecordInv x n g' h'.txns.records[x]?
  owner : pc'.owned = some x → claimants g' = [i]
  progress : claimants g' = [i] →
    ∃ r, h'.txns.records[x]? = some r ∧ Progress x r g' pc'
  touched : Touched i g g' h.txns.records[x]? h'.txns.records[x]?
  moves : RecordStep h.txns.records[x]? h'.txns.records[x]?
  lease : ∀ r', h'.txns.records[x]? = some r' →
    (∃ r, h.txns.records[x]? = some r ∧ r'.leaseId = r.leaseId) ∨
      ∃ granted, pc = .beginCreate x granted ∧ r'.leaseId = granted.leaseId

variable {n : Nat} {log : List TxnEvent}

theorem TxnPc.Parked.not_owned (hparked : pc.Parked) : pc.owned ≠ some x := by
  cases pc <;> first | exact False.elim hparked | simp [TxnPc.owned]

namespace StepAt

theorem create {granted : LeaseRecord} (hg : about x log = [])
    (hnone : h.txns.records[x]? = none)
    (hnew : h'.txns.records[x]? = some {
      txnId := x
      leaseId := granted.leaseId
      state := .active
      participants := []
      begunAt := h.landlord.now }) {result : TxnResult} :
    StepAt x i n h h' (about x log) (about x (log ++ []))
      (.beginCreate x granted) (.returned result) := by
  rw [List.append_nil, hg]
  refine ⟨?_, by simp [TxnPc.owned], by simp [claimants], ?_, ?_, ?_⟩
  · rw [hnew]
    exact ⟨rfl, rfl, fun _ => ⟨rfl, Rounds.nil x⟩, fun hne => absurd rfl hne⟩
  · exact Or.inr (Or.inl ⟨rfl, Or.inl rfl⟩)
  · rw [hnone, hnew]
    exact rfl
  · intro r' hr'
    rw [hnew] at hr'
    obtain rfl := Option.some.inj hr'
    exact Or.inr ⟨granted, rfl, rfl⟩

theorem enlist {p : ParticipantRecord} (hr : h.txns.records[x]? = some r)
    (hactive : r.state = .active)
    (hglob : RecordInv x n (about x log) (some r))
    (hnew : h'.txns.records[x]? = some
      { r with participants := r.participants ++ [p] }) {result : TxnResult} :
    StepAt x i n h h' (about x log) (about x (log ++ [.enlisted x p])) pc
      (.returned result) := by
  obtain ⟨hid, hps, hunclaimed, -⟩ := hglob
  obtain ⟨hclaimants, hrounds⟩ := hunclaimed hactive
  rw [about_append_self (by simp [TxnEvent.txn])]
  have hclaimants' : claimants (about x log ++ [.enlisted x p]) = [] := by
    rw [claimants_append, hclaimants]
    rfl
  refine ⟨?_, by simp [TxnPc.owned], by simp [hclaimants'], ?_, ?_, ?_⟩
  · rw [hnew]
    refine ⟨hid, ?_, fun _ => ⟨hclaimants', ?_⟩, fun hne => absurd hactive hne⟩
    · rw [enlistedIn_append, ← hps]
      rfl
    · exact hrounds.other (by simp [callsOf]) (by simp)
  · exact Or.inr (Or.inl ⟨hclaimants, Or.inl hclaimants'⟩)
  · rw [hr, hnew]
    exact ⟨Or.inl rfl, fun hne => absurd hactive hne⟩
  · intro r' hr'
    rw [hnew] at hr'
    obtain rfl := Option.some.inj hr'
    exact Or.inl ⟨r, hr, rfl⟩

theorem claim {agent : Agent} {new : TransactionState} (hi : i < n)
    (hclaims : Claims pc agent x new pc') (hr : h.txns.records[x]? = some r)
    (hactive : r.state = .active)
    (hglob : RecordInv x n (about x log) (some r))
    (hnew : h'.txns.records[x]? = some { r with state := new }) :
    StepAt x i n h h' (about x log)
      (about x (log ++ [.moved i agent x .active new])) pc pc' := by
  obtain ⟨hid, hps, hunclaimed, -⟩ := hglob
  obtain ⟨hclaimants, hrounds⟩ := hunclaimed hactive
  rw [about_append_self (by simp [TxnEvent.txn])]
  have hclaimants' :
      claimants (about x log ++ [.moved i agent x .active new]) = [i] := by
    rw [claimants_append, hclaimants]
    rfl
  have hp : Progress x { r with state := new }
      (about x log ++ [.moved i agent x .active new]) pc' := by
    have hrounds' := hrounds.moved (y := x) i agent .active new
    cases hclaims <;> exact ⟨rfl, rfl, hrounds'⟩
  refine ⟨?_, fun _ => hclaimants', fun _ => ⟨_, hnew, hp⟩, ?_, ?_, ?_⟩
  · rw [hnew]
    refine ⟨hid, ?_, fun hact => absurd hact hp.not_active,
      fun _ => ⟨i, hi, hclaimants'⟩⟩
    rw [enlistedIn_append, ← hps]
    simp [enlistedIn]
  · exact Or.inr (Or.inl ⟨hclaimants, Or.inr hclaimants'⟩)
  · rw [hr, hnew]
    refine ⟨Or.inr ?_, fun hne => absurd hactive hne⟩
    rw [hactive]
    exact hclaims.allowed
  · intro r' hr'
    rw [hnew] at hr'
    obtain rfl := Option.some.inj hr'
    exact Or.inl ⟨r, hr, rfl⟩

theorem idle (hidle : pc.Idle) (hparked : pc'.Parked)
    (hglob : RecordInv x n (about x log) h.txns.records[x]?)
    (hloc : TxnLoc h log i pc) :
    StepAt x i n h h (about x log) (about x (log ++ [])) pc pc' := by
  rw [List.append_nil]
  refine ⟨hglob, fun howned => absurd howned hparked.not_owned, ?_,
    Or.inl ⟨rfl, rfl⟩, .refl _, fun r' hr' => Or.inl ⟨r', hr', rfl⟩⟩
  intro hclaim
  obtain ⟨r, -, hp⟩ := hloc.progress x hclaim
  cases pc <;> first | exact False.elim hidle | exact False.elim hp

theorem owned (hmove : TxnMove config i h pc h' pc' events) (hi : i < n)
    (hown : pc.owned = some x)
    (hglob : RecordInv x n (about x log) h.txns.records[x]?)
    (hloc : TxnLoc h log i pc) :
    StepAt x i n h h' (about x log) (about x (log ++ events)) pc pc' := by
  have hclaim := hloc.owner x hown
  obtain ⟨r, hr, hp⟩ := hloc.progress x hclaim
  rw [hr] at hglob
  obtain ⟨hid, hps, -, -⟩ := hglob
  obtain ⟨r', hr', hadv, hevents, hp'⟩ := hp.step hmove hown hr hid
  rw [about_append_self hevents.txn]
  have hclaim' : claimants (about x log ++ events) = [i] := by
    rw [claimants_append, hclaim, hevents.claimants]
    rfl
  refine ⟨?_, fun _ => hclaim', fun _ => ⟨r', hr', hp'⟩,
    Or.inr (Or.inr ⟨hclaim, hclaim'⟩), ?_, ?_⟩
  · rw [hr']
    refine ⟨hadv.txnId, ?_, fun hact => absurd hact hp'.not_active,
      fun _ => ⟨i, hi, hclaim'⟩⟩
    rw [hadv.participants, hps, enlistedIn_append, hevents.enlisted,
      List.append_nil]
  · rw [hr, hr']
    exact ⟨hadv.state, fun _ => hadv.participants⟩
  · intro r'' hr''
    rw [hr'] at hr''
    obtain rfl := Option.some.inj hr''
    exact Or.inl ⟨r, hr, hadv.leaseId⟩

end StepAt

theorem TxnPc.target_of_join (hjoin : pc.join = some pc') :
    pc.target = pc.owned := by
  cases pc <;> first | rfl | cases hjoin

theorem TxnPc.owned_of_send (hsend : pc.send k = some (e, pc')) :
    ∃ y, pc.owned = some y ∧ pc'.owned = some y := by
  cases pc with
  | prepareAndCommit | preparing | committing | aborting =>
      obtain ⟨out, -, heq⟩ := Option.map_eq_some_iff.mp hsend
      obtain ⟨-, rfl⟩ := Prod.mk.inj heq
      exact ⟨_, rfl, rfl⟩
  | _ => cases hsend

theorem TxnPc.owned_of_vote {reply : Option Int32}
    (hvote : pc.vote k reply = some (e, pc')) :
    ∃ y, pc.owned = some y ∧ pc'.owned = some y := by
  cases pc with
  | prepareAndCommit | preparing =>
      obtain ⟨out, -, heq⟩ := Option.map_eq_some_iff.mp hvote
      obtain ⟨-, rfl⟩ := Prod.mk.inj heq
      exact ⟨_, rfl, rfl⟩
  | _ => cases hvote

theorem TxnPc.owned_of_ack {ok : Bool} (hack : pc.ack k ok = some pc') :
    ∃ y, pc.owned = some y ∧ pc'.owned = some y := by
  cases pc with
  | committing | aborting =>
      obtain ⟨out, -, rfl⟩ := Option.map_eq_some_iff.mp hack
      exact ⟨_, rfl, rfl⟩
  | _ => cases hack

theorem TxnPc.owned_of_target {y : String} (hown : pc.owned = some y)
    (hx : pc.target = some x) : pc.owned = some x :=
  hown.trans ((target_of_owned hown).symm.trans hx)

theorem TxnMove.target_step
    (hmove : TxnMove config i h pc h' pc' events) (hi : i < n)
    (hx : pc.target = some x)
    (hglob : RecordInv x n (about x log) h.txns.records[x]?)
    (hloc : TxnLoc h log i pc) :
    StepAt x i n h h' (about x log) (about x (log ++ events)) pc pc' := by
  by_cases hown : pc.owned = some x
  · exact StepAt.owned hmove hi hown hglob hloc
  · cases hmove with
    | begin | beginFailed | cancelLease | lease => cases hx
    | transition | transitionFailed => exact absurd hx hown
    | fetch hfetches | fetchFailed hfetches =>
        exact absurd (owned_of_target hfetches.owned hx) hown
    | join hjoin => exact absurd (target_of_join hjoin ▸ hx) hown
    | send hsend =>
        obtain ⟨y, hy, -⟩ := owned_of_send hsend
        exact absurd (owned_of_target hy hx) hown
    | vote hvote =>
        obtain ⟨y, hy, -⟩ := owned_of_vote hvote
        exact absurd (owned_of_target hy hx) hown
    | ack hack =>
        obtain ⟨y, hy, -⟩ := owned_of_ack hack
        exact absurd (owned_of_target hy hx) hown
    | @create y granted =>
        obtain rfl := Option.some.inj hx
        have hnone := (hloc.create y granted rfl).2
        rw [hnone] at hglob
        exact StepAt.create hglob hnone (by simp [InMemoryTxnStore.create])
    | enlist hallow hr hactive =>
        obtain rfl := Option.some.inj hx
        exact StepAt.enlist hr hactive (hr ▸ hglob) (by simp)
    | idle hpc hpc' => exact StepAt.idle hpc hpc' hglob hloc
    | claim hclaims hr hactive =>
        obtain rfl := Option.some.inj (hclaims.target.symm.trans hx)
        exact StepAt.claim hi hclaims hr hactive (hr ▸ hglob) (by simp)

theorem Progress.owned (hid : r.txnId = x) (hp : Progress x r g pc) :
    pc.owned = some x ∨ (∃ lease result, pc = .cancelLease lease result) ∨
      ∃ result, pc = .returned result := by
  cases pc with
  | commitFetch | abortFetch | expiredFetch | aborting =>
      exact Or.inl (congrArg some hp.1)
  | prepareAndCommit | preparing | transition | committing =>
      exact Or.inl (congrArg some (hp.1.1.trans hid))
  | cancelLease lease result => exact Or.inr (Or.inl ⟨lease, result, rfl⟩)
  | returned result => exact Or.inr (Or.inr ⟨result, rfl⟩)
  | _ => exact False.elim hp

theorem Progress.elsewhere (hmove : TxnMove config i h pc h' pc' events)
    (hx : pc.target ≠ some x) (hid : r.txnId = x) (hp : Progress x r g pc) :
    Progress x r g pc' := by
  rcases hp.owned hid with hown | ⟨lease, result, rfl⟩ | ⟨result, rfl⟩
  · exact absurd (target_of_owned hown) hx
  · obtain ⟨c, landlord, lease', hstep, rfl, rfl, rfl⟩ := hmove.of_cancelLease
    obtain ⟨hcancelling, hsettled⟩ := hp
    rcases (LeaseMove.of_advance hstep).cancelling hcancelling with
      hcancelling' | ⟨answer, rfl⟩
    · cases lease' <;> first
        | exact ⟨hcancelling', hsettled⟩ | exact Or.inl hsettled
    · exact Or.inl hsettled
  · exact absurd hmove TxnMove.not_returned

/-- After a `join_all` the call records the outcome, or is done with it. -/
theorem TxnPc.join_cases (hjoin : pc.join = some pc') :
    (∃ txn old new after, pc' = .transition txn old new after ∧
        pc.owned = some txn.txnId) ∨
      (∃ leaseId result, pc' = .cancelLease (.cancel leaseId) result) ∨
      ∃ result, pc' = .returned result := by
  cases pc with
  | prepareAndCommit txn =>
      simp only [TxnPc.join] at hjoin
      split at hjoin
      · next reply _ =>
        obtain rfl := Option.some.inj hjoin
        cases reply with
        | none => exact Or.inr (Or.inr ⟨_, rfl⟩)
        | some v =>
            simp only [TxnPc.decideSingle]
            split <;> exact Or.inl ⟨txn, _, _, _, rfl, rfl⟩
      · cases hjoin
  | preparing txn =>
      obtain ⟨rs, -, rfl⟩ := Option.map_eq_some_iff.mp hjoin
      simp only [TxnPc.decideVotes]
      split <;> exact Or.inl ⟨txn, _, _, _, rfl, rfl⟩
  | committing txn =>
      obtain ⟨rs, -, rfl⟩ := Option.map_eq_some_iff.mp hjoin
      exact Or.inl ⟨txn, _, _, _, rfl, rfl⟩
  | aborting y batch cancel =>
      obtain ⟨rs, -, rfl⟩ := Option.map_eq_some_iff.mp hjoin
      cases cancel with
      | none => exact Or.inr (Or.inr ⟨_, rfl⟩)
      | some leaseId => exact Or.inr (Or.inl ⟨_, _, rfl⟩)
  | _ => cases hjoin

theorem TxnPc.owned_of_join (hjoin : pc.join = some pc')
    (hown : pc'.owned = some x) : pc.owned = some x := by
  rcases join_cases hjoin with
    ⟨txn, old, new, after, rfl, howned⟩ | ⟨_, _, rfl⟩ | ⟨_, rfl⟩
  · exact howned.trans hown
  · cases hown
  · cases hown

theorem TxnMove.target_of_owned (hmove : TxnMove config i h pc h' pc' events)
    (hkeyed : Keyed h) (hown : pc'.owned = some x) : pc.target = some x := by
  cases hmove with
  | begin | beginFailed | create | enlist | fetchFailed | transitionFailed
  | lease => cases hown
  | idle hpc hpc' => exact absurd hown hpc'.not_owned
  | claim hclaims => cases hclaims <;> exact hown
  | fetch hfetches hr =>
      cases hfetches with
      | commit =>
          unfold plan at hown
          split at hown <;>
            exact (congrArg some (hkeyed _ _ hr)).symm.trans hown
      | abort | expired => exact hown
  | @transition _ _ _ _ after => cases after <;> first | exact hown | cases hown
  | @cancelLease _ lease => cases lease <;> cases hown
  | join hjoin => exact TxnPc.target_of_owned (owned_of_join hjoin hown)
  | send hsend =>
      obtain ⟨y, hy, hy'⟩ := owned_of_send hsend
      exact TxnPc.target_of_owned (hy.trans (hy'.symm.trans hown))
  | vote hvote =>
      obtain ⟨y, hy, hy'⟩ := owned_of_vote hvote
      exact TxnPc.target_of_owned (hy.trans (hy'.symm.trans hown))
  | ack hack =>
      obtain ⟨y, hy, hy'⟩ := owned_of_ack hack
      exact TxnPc.target_of_owned (hy.trans (hy'.symm.trans hown))

/-- The branch for an unexpected state is never taken. -/
theorem TxnMove.expected (hmove : TxnMove config i h pc h' pc' events)
    (hkeyed : Keyed h) (hloc : TxnLoc h log i pc) (y : String) (old new : TransactionState) :
    .unexpected y old new ∉ events := by
  cases hown : pc.owned with
  | some x =>
      obtain ⟨r, hr, hp⟩ := hloc.progress x (hloc.owner x hown)
      obtain ⟨-, -, -, hevents, -⟩ := hp.step hmove hown hr (hkeyed x r hr)
      exact hevents.expected y old new
  | none =>
      intro he
      cases hmove with
      | transition | transitionFailed => cases hown
      | send hsend =>
          have htxn := send_txn hsend
          rw [← List.mem_singleton.mp he, hown] at htxn
          cases htxn
      | vote hvote =>
          have htxn := vote_txn hvote
          rw [← List.mem_singleton.mp he, hown] at htxn
          cases htxn
      | lease => cases (eq_of_mem_grantEvents he).choose_spec
      | _ => simp at he

theorem TxnMove.uuids_subset (hmove : TxnMove config i h pc h' pc' events) :
    h.landlord.uuids ⊆ h'.landlord.uuids := by
  cases hmove with
  | begin _ _ hgrant =>
      obtain ⟨-, -, rfl⟩ := Landlord.grant_eq_ok hgrant
      intro u hu
      simp [hu]
  | beginFailed => exact List.subset_cons_self _ _
  | cancelLease hstep | lease hstep =>
      exact (LeaseMove.of_advance hstep).uuids_subset
  | _ => exact List.Subset.refl _

/-- Only `begin` makes a new transaction, with identifiers it has drawn. -/
theorem TxnMove.begins (hmove : TxnMove config i h pc h' pc' events) :
    (∃ y granted, pc' = .beginCreate y granted ∧ h'.txns = h.txns ∧
        events = [.began i y granted.leaseId] ∧ y ∉ h.landlord.uuids ∧
        y ∈ h'.landlord.uuids ∧ granted.leaseId ∈ h'.landlord.uuids) ∨
      (∀ y granted, pc' ≠ .beginCreate y granted) ∧
        ∀ j y l, .began j y l ∉ events := by
  cases hmove with
  | @begin _ txnId leaseId granted landlord htxn hlease hgrant =>
      obtain ⟨hid, -, rfl⟩ := Landlord.grant_eq_ok hgrant
      exact Or.inl ⟨txnId, granted, rfl, rfl, rfl, htxn, by simp, by simp [hid]⟩
  | idle hpc hpc' =>
      refine Or.inr ⟨?_, by simp⟩
      rintro y granted rfl
      exact hpc'
  | claim hclaims => cases hclaims <;> exact Or.inr ⟨by simp, by simp⟩
  | fetch hfetches =>
      refine Or.inr ⟨?_, by simp⟩
      cases hfetches with
      | commit =>
          unfold plan
          split <;> simp
      | abort | expired => simp
  | @transition _ _ _ _ after =>
      cases after <;> exact Or.inr ⟨by simp [resume], by simp⟩
  | transitionFailed _ hevents =>
      refine Or.inr ⟨by simp, fun j y l he => ?_⟩
      cases hevents _ he
  | join hjoin =>
      refine Or.inr ⟨?_, by simp⟩
      rcases join_cases hjoin with
        ⟨_, _, _, _, rfl, -⟩ | ⟨_, _, rfl⟩ | ⟨_, rfl⟩ <;> simp
  | @send pc _ _ _ hsend =>
      refine Or.inr ⟨?_, fun j y l he => ?_⟩
      · rintro y granted rfl
        cases pc <;> simp [TxnPc.send] at hsend
      · obtain rfl := List.mem_singleton.mp he
        cases pc <;> simp [TxnPc.send] at hsend
  | @vote pc _ _ _ _ hvote =>
      refine Or.inr ⟨?_, fun j y l he => ?_⟩
      · rintro y granted rfl
        cases pc <;> simp [TxnPc.vote] at hvote
      · obtain rfl := List.mem_singleton.mp he
        cases pc <;> simp [TxnPc.vote] at hvote
  | @ack pc _ _ _ hack =>
      refine Or.inr ⟨?_, by simp⟩
      rintro y granted rfl
      cases pc <;> simp [TxnPc.ack] at hack
  | @cancelLease _ lease =>
      cases lease <;> exact Or.inr ⟨by simp [afterCancel], by simp⟩
  | lease =>
      refine Or.inr ⟨by simp, fun j y l he => ?_⟩
      cases (eq_of_mem_grantEvents he).choose_spec
  | beginFailed | create | enlist | fetchFailed =>
      exact Or.inr ⟨by simp, by simp⟩

theorem TxnMove.stepAt (hmove : TxnMove config i h pc h' pc' events)
    (hi : i < n) (hglob : TxnGlob h log n) (hloc : TxnLoc h log i pc)
    (x : String) :
    StepAt x i n h h' (about x log) (about x (log ++ events)) pc pc' := by
  by_cases hx : pc.target = some x
  · exact hmove.target_step hi hx (hglob.record x) hloc
  · obtain ⟨hrecord, hevents⟩ := hmove.untouched hx
    rw [about_append_other hevents]
    refine ⟨hrecord ▸ hglob.record x, ?_, ?_, Or.inl ⟨rfl, hrecord⟩,
      hrecord ▸ .refl _, ?_⟩
    · exact fun hown => absurd (hmove.target_of_owned hglob.keyed hown) hx
    · intro hclaim
      obtain ⟨r, hr, hp⟩ := hloc.progress x hclaim
      exact ⟨r, hrecord ▸ hr, hp.elsewhere hmove hx (hglob.keyed x r hr)⟩
    · exact fun r' hr' => Or.inl ⟨r', hrecord ▸ hr', rfl⟩

theorem TxnGlob.step (hmove : TxnMove config i h pc h' pc' events)
    (hi : i < n) (hglob : TxnGlob h log n) (hloc : TxnLoc h log i pc) :
    TxnGlob h' (log ++ events) n := by
  have hat := hmove.stepAt hi hglob hloc
  refine ⟨fun x => (hat x).record, fun x old new he => ?_, fun x r' hr' => ?_,
    fun j x l he => ?_, fun j k x l l' hj hk => ?_⟩
  · rcases List.mem_append.mp he with he | he
    · exact hglob.expected x old new he
    · exact hmove.expected hglob.keyed hloc x old new he
  · rcases (hat x).lease r' hr' with ⟨r, hr, heq⟩ | ⟨granted, hpc, heq⟩
    · obtain ⟨j, hj⟩ := hglob.began x r hr
      exact ⟨j, List.mem_append_left _ (heq ▸ hj)⟩
    · exact ⟨i, List.mem_append_left _ (heq ▸ (hloc.create x granted hpc).1)⟩
  · rcases List.mem_append.mp he with he | he
    · obtain ⟨hx, hl⟩ := hglob.drawn j x l he
      exact ⟨hmove.uuids_subset hx, hmove.uuids_subset hl⟩
    · rcases hmove.begins with
        ⟨y, granted, -, -, rfl, -, hy, hlease⟩ | ⟨-, hnone⟩
      · obtain ⟨-, rfl, rfl⟩ := TxnEvent.began.inj (List.mem_singleton.mp he)
        exact ⟨hy, hlease⟩
      · exact absurd he (hnone j x l)
  · rcases hmove.begins with ⟨y, granted, -, -, rfl, hfresh, -⟩ | ⟨-, hnone⟩
    · rw [List.mem_append] at hj hk
      rcases hj with hj | hj <;> rcases hk with hk | hk
      · exact hglob.once j k x l l' hj hk
      · obtain ⟨-, rfl, -⟩ := TxnEvent.began.inj (List.mem_singleton.mp hk)
        exact absurd (hglob.drawn j x l hj).1 hfresh
      · obtain ⟨-, rfl, -⟩ := TxnEvent.began.inj (List.mem_singleton.mp hj)
        exact absurd (hglob.drawn k x l' hk).1 hfresh
      · obtain ⟨rfl, -, rfl⟩ := TxnEvent.began.inj (List.mem_singleton.mp hj)
        obtain ⟨rfl, -, rfl⟩ := TxnEvent.began.inj (List.mem_singleton.mp hk)
        exact ⟨rfl, rfl⟩
    · simp only [List.mem_append, hnone, or_false] at hj hk
      exact hglob.once j k x l l' hj hk

theorem TxnLoc.step (hmove : TxnMove config i h pc h' pc' events)
    (hi : i < n) (hglob : TxnGlob h log n) (hloc : TxnLoc h log i pc) :
    TxnLoc h' (log ++ events) i pc' := by
  have hat := hmove.stepAt hi hglob hloc
  refine ⟨fun x => (hat x).owner, fun x => (hat x).progress, ?_⟩
  rintro x granted rfl
  rcases hmove.begins with ⟨y, granted', heq, htxns, rfl, hfresh, -⟩ | ⟨hne, -⟩
  · obtain ⟨rfl, rfl⟩ := TxnPc.beginCreate.inj heq
    refine ⟨by simp, ?_⟩
    rw [htxns]
    cases hr : h.txns.records[x]? with
    | none => rfl
    | some r =>
        obtain ⟨j, hj⟩ := hglob.began x r hr
        exact absurd (hglob.drawn j x _ hj).1 hfresh
  · exact absurd rfl (hne x granted)

theorem TxnLoc.other {j : Nat} {pcj : TxnPc}
    (hmove : TxnMove config i h pc h' pc' events) (hi : i < n) (hj : j ≠ i)
    (hglob : TxnGlob h log n) (hloc : TxnLoc h log i pc)
    (hother : TxnLoc h log j pcj) : TxnLoc h' (log ++ events) j pcj := by
  have hat := hmove.stepAt hi hglob hloc
  refine ⟨fun x hown => ?_, fun x hclaim => ?_, fun x granted hpcj => ?_⟩
  · have hclaim := hother.owner x hown
    rcases (hat x).touched with ⟨heq, -⟩ | ⟨hnil, -⟩ | ⟨hi', -⟩
    · rw [heq, hclaim]
    · simp [hnil] at hclaim
    · exact absurd (by simpa [hi'] using hclaim) (Ne.symm hj)
  · rcases (hat x).touched with ⟨heq, hrec⟩ | ⟨-, hnil | hi'⟩ | ⟨-, hi'⟩
    · rw [heq] at hclaim ⊢
      rw [hrec]
      exact hother.progress x hclaim
    · simp [hnil] at hclaim
    · exact absurd (by simpa [hi'] using hclaim) (Ne.symm hj)
    · exact absurd (by simpa [hi'] using hclaim) (Ne.symm hj)
  · obtain ⟨hbegan, hnone⟩ := hother.create x granted hpcj
    refine ⟨List.mem_append_left _ hbegan, ?_⟩
    cases hr' : h'.txns.records[x]? with
    | none => rfl
    | some r' =>
        rcases (hat x).lease r' hr' with ⟨r, hr, -⟩ | ⟨granted', hpc, -⟩
        · rw [hnone] at hr
          cases hr
        · have hi' := (hloc.create x granted' hpc).1
          exact absurd (hglob.once j i x _ _ hbegan hi').1 hj

theorem TxnLoc.fresh (hglob : TxnGlob h log n) (hk : n ≤ k)
    (hown : pc.owned = none) (hcreate : ∀ x granted, pc ≠ .beginCreate x granted) :
    TxnLoc h log k pc := by
  refine ⟨fun x hx => ?_, fun x hclaim => ?_, fun x granted heq => ?_⟩
  · rw [hown] at hx
    cases hx
  · have hrec := hglob.record x
    cases hr : h.txns.records[x]? with
    | none =>
        rw [hr] at hrec
        rw [show about x log = [] from hrec] at hclaim
        cases hclaim
    | some r =>
        rw [hr] at hrec
        obtain ⟨-, -, hactive, hclaimed⟩ := hrec
        by_cases hstate : r.state = .active
        · rw [(hactive hstate).1] at hclaim
          cases hclaim
        · obtain ⟨i, hi, heq⟩ := hclaimed hstate
          rw [heq] at hclaim
          cases hclaim
          omega
  · exact absurd heq (hcreate x granted)

theorem TxnGlob.mono {m : Nat} (hglob : TxnGlob h log n) (hm : n ≤ m)
    (htxns : h'.txns = h.txns) (huuids : h'.landlord.uuids = h.landlord.uuids) :
    TxnGlob h' log m := by
  refine ⟨fun x => ?_, hglob.expected, htxns ▸ hglob.began,
    huuids ▸ hglob.drawn, hglob.once⟩
  have hrec := hglob.record x
  rw [htxns]
  cases hr : h.txns.records[x]? with
  | none =>
      rw [hr] at hrec
      exact hrec
  | some r =>
      rw [hr] at hrec
      obtain ⟨hid, hps, hactive, hclaimed⟩ := hrec
      refine ⟨hid, hps, hactive, fun hstate => ?_⟩
      obtain ⟨i, hi, heq⟩ := hclaimed hstate
      exact ⟨i, by omega, heq⟩

theorem TxnLoc.of_txns {j : Nat} (hloc : TxnLoc h log j pc)
    (htxns : h'.txns = h.txns) : TxnLoc h' log j pc :=
  ⟨hloc.owner, htxns ▸ hloc.progress, htxns ▸ hloc.create⟩

end OwnerStep

theorem TxnHost.ambient_cases {config : TxnConfig} {h h' : TxnHost}
    {event : TxnAmbient} {spawned : List TxnPc}
    (hamb : h.ambient config event = some (h', spawned)) :
    h'.txns = h.txns ∧ h'.landlord.uuids = h.landlord.uuids ∧
      h'.landlord.leases = h.landlord.leases ∧
      h'.landlord.sent = h.landlord.sent ∧
      ∀ pc ∈ spawned, ∃ e ∈ h.landlord.sent, ∃ x,
        stripPrefix "txn:" e.record.resourceId = some x ∧
          pc = .abortExpired .cascade x := by
  cases event with
  | tick d =>
      simp only [TxnHost.ambient, Option.some.injEq, Prod.mk.injEq] at hamb
      obtain ⟨rfl, rfl⟩ := hamb
      simp
  | cascade =>
      simp only [TxnHost.ambient] at hamb
      split at hamb
      · cases hamb
      · simp only [Option.some.injEq, Prod.mk.injEq] at hamb
        obtain ⟨rfl, rfl⟩ := hamb
        simp
      · next e cursor hrecv =>
        simp only [Option.some.injEq, Prod.mk.injEq] at hamb
        obtain ⟨rfl, rfl⟩ := hamb
        refine ⟨rfl, rfl, rfl, rfl, fun pc hpc => ?_⟩
        unfold cascadeHandler at hpc
        split at hpc
        · next x hx =>
          exact ⟨e, mem_of_recv hrecv, x, hx, List.mem_singleton.mp hpc⟩
        · cases hpc

theorem TxnPc.entry_plain (hentry : pc.entry = true) :
    pc.owned = none ∧ ∀ x granted, pc ≠ .beginCreate x granted := by
  cases pc <;> simp_all [TxnPc.entry, TxnPc.owned]

theorem txn_keeps (config : TxnConfig) :
    (txnProgram config).Keeps TxnProc.new TxnGlob TxnLoc where
  init := by
    refine ⟨⟨?_, ?_, ?_, ?_, ?_⟩, ?_⟩ <;>
      simp [TxnProc.new, TxnHost.new, InMemoryTxnStore.new, RecordInv, about]
  call := by
    intro s pc _ _ hentry hglob
    obtain ⟨hown, hcreate⟩ := entry_plain hentry
    exact ⟨hglob.mono (Nat.le_succ _) rfl rfl,
      TxnLoc.fresh hglob (Nat.le_refl _) hown hcreate⟩
  step := by
    intro s i pc choice shared pc' events _ _ hpc hadv hglob hloc
    have hmove := TxnMove.of_advance hadv
    have hi : i < s.tasks.length := (List.getElem?_eq_some_iff.mp hpc).1
    refine ⟨hglob.step hmove hi (hloc i pc hpc),
      TxnLoc.step hmove hi hglob (hloc i pc hpc), fun j pcj hj hpcj => ?_⟩
    exact TxnLoc.other hmove hi hj hglob (hloc i pc hpc) (hloc j pcj hpcj)
  ambient := by
    intro s event shared spawned _ _ hamb hglob hloc
    obtain ⟨htxns, huuids, -, -, hspawned⟩ := TxnHost.ambient_cases hamb
    refine ⟨hglob.mono (Nat.le_add_right _ _) htxns huuids, fun k pc hpc => ?_,
      fun j pc hpc => (hloc j pc hpc).of_txns htxns⟩
    obtain ⟨-, -, x, -, rfl⟩ := hspawned pc (List.mem_of_getElem? hpc)
    exact (TxnLoc.fresh hglob (Nat.le_add_right _ _) rfl (by simp)).of_txns htxns

end Coordin8
