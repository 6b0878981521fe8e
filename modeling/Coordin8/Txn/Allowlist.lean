import Coordin8.Txn.Owner

/-!
# The participants a coordinator may call

`Enlist` stores an endpoint its caller names, and the coordinator later dials
it.  `ParticipantAllowlist::check` is the guard: an endpoint must be
`host:port`, and where the list has entries, one of them must match.

The guard stands in `enlist` alone, while endpoints are dialled from every phase
of `commit`, `abort` and `abort_expired`.  `TxnPc.dials` collects the endpoints
a call still has in hand; no move puts a new one there but by reading a stored
record, and none reaches a record but past the guard.
-/

namespace Coordin8

open Support Support.DashMap

namespace Allowlist

/-! ## Hosts and patterns -/

inductive IpAddr where
  | v4 (bits : BitVec 32)
  | v6 (bits : BitVec 128)
deriving DecidableEq, Repr

def IpAddr.width : IpAddr → Nat
  | .v4 _ => 32
  | .v6 _ => 128

/-- An IPv4-mapped IPv6 address is the IPv4 address it maps. -/
def canon : IpAddr → IpAddr
  | .v6 bits =>
      if bits >>> 32 = 0xffff#128 then .v4 (bits.setWidth 32) else .v6 bits
  | ip => ip

/-- `suffix` is stored without the leading `*.`.  A prefix is never longer than
its address. -/
inductive HostPattern where
  | exact (name : String)
  | suffix (domain : String)
  | ip (address : IpAddr)
  | cidr (net : IpAddr) (len : Nat) (hlen : len ≤ net.width)
deriving DecidableEq

structure Entry where
  host : HostPattern
  port : Option UInt16
deriving DecidableEq

inductive Host where
  | name (n : String)
  | ip (address : IpAddr)
deriving DecidableEq, Repr

def cidrContains (net : IpAddr) (len : Nat) (ip : IpAddr) : Bool :=
  -- a shift by the whole width leaves no bit, as the source's case of length 0
  match net, ip with
  | .v4 n, .v4 i =>
      let mask := BitVec.allOnes 32 <<< (32 - len)
      n &&& mask == i &&& mask
  | .v6 n, .v6 i =>
      let mask := BitVec.allOnes 128 <<< (128 - len)
      n &&& mask == i &&& mask
  | _, _ => false

/-- `h` is a name below the domain `s`, with at least one character before the
dot. -/
def below (h s : List Char) : Bool :=
  h.length > s.length + 1 && s.isSuffixOf h &&
    ['.'].isSuffixOf (h.take (h.length - s.length))

def Entry.matches (e : Entry) (host : Host) (port : UInt16) : Bool :=
  if e.port.any (· != port) then
    false
  else
    match e.host, host with
    | .exact name, .name h => name == h
    | .suffix domain, .name h => below h.toList domain.toList
    | .ip a, .ip b => canon a == b
    | .cidr net len _, .ip b => cidrContains net len b
    | _, _ => false

/-! ## Endpoints -/

def validHostname (h : List Char) : Bool :=
  !h.isEmpty && (h.splitOn '.').all fun label =>
    !label.isEmpty && label.all fun c => c.isAlphanum || c == '-' || c == '_'

/-- `str::split_once`. -/
def splitOnce (c : Char) : List Char → Option (List Char × List Char)
  | [] => none
  | x :: xs =>
      if x = c then
        some ([], xs)
      else
        (splitOnce c xs).map fun (before, after) => (x :: before, after)

/-- `str::parse::<u16>`: decimal digits, after an optional plus sign. -/
def parseU16 (p : List Char) : Option UInt16 :=
  let digits := if p.head? = some '+' then p.tail else p
  let n := digits.foldl (fun n c => 10 * n + (c.toNat - '0'.toNat)) 0
  if !digits.isEmpty && digits.all Char.isDigit && n < 2 ^ 16 then
    some (UInt16.ofNat n)
  else
    none

def parsePort (p : List Char) : Except String UInt16 :=
  match parseU16 p with
  | some 0 | none =>
      let text := String.ofList p
      .error s!"invalid port '{text}'"
  | some n => .ok n

/-- Split `host[:port]`, `[v6][:port]` or a bare IPv6 literal. -/
def splitHostPort (s : List Char) :
    Except String (List Char × Option (List Char)) :=
  match s with
  | '[' :: rest =>
      match splitOnce ']' rest with
      | none => .error "missing ']'"
      | some (host, []) => .ok (host, none)
      | some (host, ':' :: p) => .ok (host, some p)
      | some (_, _) => .error "unexpected text after ']'"
  | _ =>
      match s.count ':', splitOnce ':' s with
      | 1, some (h, p) => .ok (h, some p)
      | _, _ => .ok (s, none)

variable (parseIp : String → Option IpAddr)

/-- `parseIp` is the standard library's parser of IP literals. -/
def parseHost (h : List Char) : Except String Host :=
  if h = [] then
    .error "empty host"
  else
    let text := String.ofList h
    match parseIp text with
    | some ip => .ok (.ip (canon ip))
    | none =>
        let lower := h.map Char.toLower
        if validHostname lower then
          .ok (.name (String.ofList lower))
        else
          .error s!"invalid host '{text}'"

/-- An endpoint is strictly `host:port` or `[v6]:port`. -/
def parseEndpoint (endpoint : String) : Except String (Host × UInt16) :=
  let bad := fun why : String =>
    s!"participant_endpoint '{endpoint}' must be host:port ({why})"
  let text := endpoint.toList
  -- an IPv6 literal without brackets is ambiguous as an endpoint
  if 1 < text.count ':' ∧ text.head? ≠ some '[' then
    .error (bad "IPv6 literals must be bracketed")
  else do
    let (host, port) ← (splitHostPort text).mapError bad
    let port ← port.elim (.error (bad "missing port")) .ok
    let port ← (parsePort port).mapError bad
    let host ← (parseHost parseIp host).mapError bad
    return (host, port)

end Allowlist

/-- A list without entries allows every endpoint. -/
structure ParticipantAllowlist where
  entries : List Allowlist.Entry
deriving DecidableEq

/-- An endpoint must be well formed, and permitted where the list restricts. -/
def ParticipantAllowlist.check (a : ParticipantAllowlist)
    (parseIp : String → Option Allowlist.IpAddr) (endpoint : String) :
    Except Error Unit :=
  match Allowlist.parseEndpoint parseIp endpoint with
  | .error e => .error (.invalidArgument e)
  | .ok (host, port) =>
      if a.entries.isEmpty || a.entries.any (·.matches host port) then
        .ok ()
      else
        .error (.permissionDenied
          (s!"participant endpoint '{endpoint}' is not permitted by " ++
            "COORDIN8_TXN_PARTICIPANT_ALLOW"))

/-! ## The endpoints in hand -/

def After.targets : After → List String
  | .commitPhase preparedEps => preparedEps
  | _ => []

/-- The endpoints the call dials, now or later, without reading the store
again. -/
def TxnPc.dials : TxnPc → List String
  | .prepareAndCommit txn batch | .preparing txn batch =>
      endpoints txn.participants ++ batch.targets
  | .transition txn _ _ after => endpoints txn.participants ++ after.targets
  | .committing txn batch => endpoints txn.participants ++ batch.targets
  | .aborting _ batch _ _ => batch.targets
  | _ => []

namespace TxnPc

variable {pc pc' : TxnPc} {k : Nat}

theorem dials_plan (txn : TransactionRecord) :
    (plan txn).dials ⊆ endpoints txn.participants := by
  unfold plan
  split
  · next h => simp [dials, After.targets]
  · next p h => simp [dials, h, endpoints]
  · next h => simp [dials]

theorem dials_resume (txn : TransactionRecord) (after : After) :
    (resume txn after).dials ⊆ endpoints txn.participants ++ after.targets := by
  cases after <;> simp [resume, dials, After.targets]

theorem countVotes_subset {acc preparedEps : List String}
    {results : List (String × Option Int32)}
    (h : countVotes acc results = some preparedEps) :
    preparedEps ⊆ acc ++ results.map Prod.fst := by
  fun_induction countVotes acc results with
  | case1 acc =>
      obtain rfl := Option.some.inj h
      exact List.subset_append_left _ _
  | case2 => cases h
  | case3 acc ep v rest hv ih => simpa using ih h
  | case4 acc ep v rest hv ih =>
      intro e he
      have hmem := ih h he
      simp only [List.map_cons, List.mem_append, List.mem_cons] at hmem ⊢
      exact hmem.imp_right Or.inr
  | case5 => cases h

theorem dials_join (h : pc.join = some pc') : pc'.dials ⊆ pc.dials := by
  cases pc with
  | prepareAndCommit txn batch =>
      simp only [join] at h
      split at h
      · next reply _ =>
        obtain rfl := Option.some.inj h
        unfold decideSingle
        split
        · simp [dials]
        · split <;> simp [dials, After.targets]
      · cases h
  | preparing txn batch =>
      obtain ⟨results, hresults, rfl⟩ := Option.map_eq_some_iff.mp h
      unfold decideVotes
      split
      · simp [dials, After.targets]
      · next preparedEps hcount =>
        have hsub := countVotes_subset hcount
        rw [(Batch.results_eq_some hresults).1, List.nil_append] at hsub
        simp only [dials, After.targets, List.append_subset,
          List.subset_append_left, true_and]
        exact List.Subset.trans hsub (List.subset_append_right _ _)
  | committing txn batch =>
      obtain ⟨_, -, rfl⟩ := Option.map_eq_some_iff.mp h
      simp [dials, After.targets]
  | aborting txnId batch cancel result =>
      obtain ⟨_, -, rfl⟩ := Option.map_eq_some_iff.mp h
      cases cancel <;> simp [dials]
  | _ => cases h

theorem dials_send {e : TxnEvent} (h : pc.send k = some (e, pc')) :
    pc'.dials = pc.dials ∧ ∃ x kind, ∃ ep ∈ pc.dials, e = .called x kind ep := by
  cases pc with
  | prepareAndCommit | preparing | committing | aborting =>
      simp only [send, Option.map_eq_some_iff, Prod.mk.injEq] at h
      obtain ⟨⟨ep, batch'⟩, hsend, rfl, rfl⟩ := h
      obtain ⟨hready, rfl⟩ := Batch.send_eq_some.mp hsend
      have hmem : ep ∈ Batch.targets _ :=
        List.mem_map_of_mem (List.mem_of_getElem? hready)
      exact ⟨by simp only [dials, Batch.targets_set hready],
        _, _, ep, by simp [dials, hmem], rfl⟩
  | _ => cases h

theorem dials_vote {reply : Option Int32} {e : TxnEvent}
    (h : pc.vote k reply = some (e, pc')) :
    pc'.dials = pc.dials ∧ ∀ x kind ep, e ≠ .called x kind ep := by
  cases pc with
  | prepareAndCommit | preparing =>
      simp only [vote, Option.map_eq_some_iff, Prod.mk.injEq] at h
      obtain ⟨⟨ep, batch'⟩, hanswer, rfl, rfl⟩ := h
      obtain ⟨hsent, rfl⟩ := Batch.answer_eq_some.mp hanswer
      exact ⟨by simp only [dials, Batch.targets_set hsent], by simp⟩
  | _ => cases h

theorem dials_ack {ok : Bool} (h : pc.ack k ok = some pc') :
    pc'.dials = pc.dials := by
  cases pc with
  | committing | aborting =>
      simp only [ack, Option.map_eq_some_iff] at h
      obtain ⟨⟨ep, batch'⟩, hanswer, rfl⟩ := h
      obtain ⟨hsent, rfl⟩ := Batch.answer_eq_some.mp hanswer
      simp only [dials, Batch.targets_set hsent]
  | _ => cases h

theorem dials_parked (h : pc.Parked) : pc.dials = [] := by
  cases pc <;> first | rfl | exact h.elim

theorem dials_entry (h : pc.entry = true) : pc.dials = [] := by
  cases pc <;> first | rfl | cases h

theorem dials_afterCancel (result : TxnResult) (lpc : LeasePc) :
    (afterCancel result lpc).dials = [] := by
  cases lpc <;> rfl

end TxnPc

/-! ## Along every run -/

section Guard

variable (allow : String → Except Error Unit)

/-- The guard lets every one of the endpoints pass. -/
def Permits (eps : List String) : Prop :=
  ∀ ep ∈ eps, allow ep = .ok ()

/-- Only permitted endpoints are stored. -/
def StoresPermitted (h : TxnHost) : Prop :=
  ∀ (x : String) (r : TransactionRecord), h.txns.records[x]? = some r →
    Permits allow (endpoints r.participants)

/-- Only permitted endpoints have been called. -/
def CallsPermitted (log : List TxnEvent) : Prop :=
  ∀ x kind ep, .called x kind ep ∈ log → allow ep = .ok ()

variable {allow} {h h' : TxnHost}

theorem Permits.mono {eps eps' : List String} (hp : Permits allow eps)
    (hsub : eps' ⊆ eps) : Permits allow eps' :=
  fun ep hep => hp ep (hsub hep)

theorem StoresPermitted.insert {x : String} {r : TransactionRecord}
    (hs : StoresPermitted allow h)
    (hr : Permits allow (endpoints r.participants)) :
    StoresPermitted allow { h with txns := ⟨h.txns.records.insert x r⟩ } := by
  intro y r' hy
  dsimp only at hy
  rw [get_insert] at hy
  split at hy
  · exact Option.some.inj hy ▸ hr
  · exact hs y r' hy

theorem CallsPermitted.append {log events : List TxnEvent}
    (hlog : CallsPermitted allow log) (hevents : CallsPermitted allow events) :
    CallsPermitted allow (log ++ events) := by
  intro x kind ep hmem
  exact (List.mem_append.mp hmem).elim (hlog x kind ep) (hevents x kind ep)

theorem callsPermitted_of_forall_ne {events : List TxnEvent}
    (h : ∀ e ∈ events, ∀ x kind ep, e ≠ .called x kind ep) :
    CallsPermitted allow events :=
  fun x kind ep hmem => absurd rfl (h _ hmem x kind ep)

variable {config : TxnConfig} {i : Nat} {pc pc' : TxnPc}
  {events : List TxnEvent}

/-- A move stores, calls and keeps in hand only permitted endpoints. -/
theorem TxnMove.permitted (hmove : TxnMove config i h pc h' pc' events)
    (hstores : StoresPermitted config.allow h)
    (hdials : Permits config.allow pc.dials) :
    StoresPermitted config.allow h' ∧ CallsPermitted config.allow events ∧
      Permits config.allow pc'.dials := by
  have hnone : Permits config.allow [] := by simp [Permits]
  have hsilent : CallsPermitted config.allow [] := by simp [CallsPermitted]
  cases hmove with
  | begin | beginFailed =>
      exact ⟨hstores, by simp [CallsPermitted], hnone⟩
  | create => exact ⟨hstores.insert hnone, hsilent, hnone⟩
  | @enlist x p r hallow hr hactive =>
      refine ⟨hstores.insert ?_, by simp [CallsPermitted], hnone⟩
      intro ep hep
      simp only [endpoints, List.map_append, List.map_cons, List.map_nil,
        List.mem_append, List.mem_singleton] at hep
      rcases hep with hep | rfl
      · exact hstores x r hr ep hep
      · exact hallow
  | idle hpc hpc' =>
      exact ⟨hstores, hsilent, TxnPc.dials_parked hpc' ▸ hnone⟩
  | @claim _ _ agent x new r hclaims hr hactive =>
      refine ⟨hstores.insert (hstores x r hr), by simp [CallsPermitted], ?_⟩
      cases hclaims <;> exact hnone
  | @fetch _ x found r hfetches hr =>
      refine ⟨hstores, hsilent, ?_⟩
      cases hfetches with
      | commit => exact (hstores x r hr).mono (TxnPc.dials_plan r)
      | abort | expired =>
          simpa [TxnPc.dials] using hstores x r hr
  | fetchFailed => exact ⟨hstores, hsilent, hnone⟩
  | @transition txn r old new after hr hstate =>
      exact ⟨hstores.insert (hstores txn.txnId r hr), by simp [CallsPermitted],
        hdials.mono (TxnPc.dials_resume txn after)⟩
  | transitionFailed hr hevents =>
      refine ⟨hstores, callsPermitted_of_forall_ne ?_, hnone⟩
      intro e he
      simp [hevents e he]
  | join hjoin =>
      exact ⟨hstores, hsilent, hdials.mono (TxnPc.dials_join hjoin)⟩
  | send hsend =>
      obtain ⟨heq, x, kind, ep, hep, rfl⟩ := TxnPc.dials_send hsend
      refine ⟨hstores, ?_, heq ▸ hdials⟩
      intro x' kind' ep' hmem
      obtain ⟨-, -, rfl⟩ := TxnEvent.called.inj (List.mem_singleton.mp hmem)
      exact hdials ep' hep
  | vote hvote =>
      obtain ⟨heq, hne⟩ := TxnPc.dials_vote hvote
      exact ⟨hstores, callsPermitted_of_forall_ne (by simpa using hne),
        heq ▸ hdials⟩
  | ack hack => exact ⟨hstores, hsilent, TxnPc.dials_ack hack ▸ hdials⟩
  | cancelLease hstep =>
      exact ⟨hstores, hsilent, TxnPc.dials_afterCancel _ _ ▸ hnone⟩
  | lease =>
      refine ⟨hstores, callsPermitted_of_forall_ne fun e he => ?_, hnone⟩
      obtain ⟨r, rfl⟩ := TxnPc.eq_of_mem_grantEvents he
      simp

end Guard

theorem permittedKeeps (config : TxnConfig) :
    (txnProgram config).Keeps TxnProc.new
      (fun h log _ =>
        StoresPermitted config.allow h ∧ CallsPermitted config.allow log)
      (fun _ _ _ pc => Permits config.allow pc.dials) where
  init := by
    refine ⟨⟨?_, by simp [TxnProc.new, CallsPermitted]⟩, by simp [TxnProc.new]⟩
    intro x r hr
    simp [TxnProc.new, TxnHost.new, InMemoryTxnStore.new] at hr
  call := by
    intro s pc _ _ hentry hglob
    exact ⟨hglob, by simp [Permits, TxnPc.dials_entry hentry]⟩
  step := by
    intro s i pc choice shared pc' events _ _ hpc hadv hglob hloc
    obtain ⟨hstores, hcalls, hdials⟩ :=
      (TxnMove.of_advance hadv).permitted hglob.1 (hloc i pc hpc)
    exact ⟨⟨hstores, hglob.2.append hcalls⟩, hdials, fun j pc _ => hloc j pc⟩
  ambient := by
    intro s event shared spawned _ _ hamb hglob hloc
    obtain ⟨htxns, -, -, -, hspawned⟩ := TxnHost.ambient_cases hamb
    refine ⟨⟨?_, hglob.2⟩, ?_, hloc⟩
    · intro x r hr
      exact hglob.1 x r (htxns ▸ hr)
    · intro k pc hpc
      obtain ⟨-, -, x, -, rfl⟩ := hspawned pc (List.mem_of_getElem? hpc)
      simp [Permits, TxnPc.dials]

/-- An enlistment that is refused leaves the store as it is. -/
theorem TxnMove.enlist_refused {config : TxnConfig} {i : Nat} {h h' : TxnHost}
    {x ep : String} {crashCount : UInt64} {e : Error} {events : List TxnEvent}
    (hmove : TxnMove config i h (.enlist x ep crashCount) h'
      (.returned (.error e)) events) : h'.txns = h.txns := by
  generalize hpc' : TxnPc.returned (.error e) = pc' at hmove
  cases hmove with
  | enlist => cases hpc'
  | claim hclaims => cases hclaims
  | idle | fetch | fetchFailed | join | send | vote | ack => rfl

/-- Every endpoint that is stored or dialled has passed the allowlist, and an
enlistment that is refused leaves the store as it is. -/
theorem dials_only_permitted (parseIp : String → Option Allowlist.IpAddr)
    (a : ParticipantAllowlist) (lease : LeaseConfig) (capacity : Nat)
    {s : TxnProc}
    (hreach : TxnReachable ⟨lease, a.check parseIp, capacity⟩ s) :
    (∀ x r, s.shared.txns.get x = some r →
      ∀ p ∈ r.participants, a.check parseIp p.endpoint = .ok ()) ∧
    (∀ x kind ep, .called x kind ep ∈ s.log → a.check parseIp ep = .ok ()) ∧
    ∀ i x ep crashCount choice s' e,
      s.tasks[i]? = some (.enlist x ep crashCount) →
      (txnProgram ⟨lease, a.check parseIp, capacity⟩).step s
        (.step i choice) = some s' →
      s'.tasks[i]? = some (.returned (.error e)) →
      s'.shared.txns = s.shared.txns := by
  obtain ⟨⟨hstores, hcalls⟩, -⟩ := (permittedKeeps _).holds hreach
  refine ⟨?_, hcalls, ?_⟩
  · intro x r hr p hp
    exact hstores x r hr p.endpoint (List.mem_map_of_mem hp)
  · intro i x ep crashCount choice s' e hpc hstep hreturned
    obtain ⟨pc, shared, pc', events, hpc₁, hadv, rfl⟩ :=
      Program.step_step.mp hstep
    obtain rfl := Option.some.inj (hpc.symm.trans hpc₁)
    have hlt := (List.getElem?_eq_some_iff.mp hpc).1
    rw [List.getElem?_set_self hlt, Option.some.injEq] at hreturned
    exact (TxnMove.of_advance (hreturned ▸ hadv)).enlist_refused

def spaceOnly : TxnConfig where
  lease := .default
  allow := ParticipantAllowlist.check ⟨[⟨.exact "space", none⟩]⟩ fun _ => none
  capacity := 16

/-- A transaction whose participant is `SPACE:9006`; an endpoint elsewhere waits
to be enlisted. -/
def spaceEnlisted : List TxnAct :=
  [.call (.begin 300), .step 0 (.uuids "t" "l"), .step 0 .go,
    .call (.enlist "t" "SPACE:9006" 0), .step 1 .go, .call (.commit "t"),
    .call (.enlist "t" "evil:9006" 0)]

def spaceReady : TxnProc :=
  (run (txnProgram spaceOnly).step TxnProc.new spaceEnlisted).get
    (by decide +kernel)

/-- The commit has called its participant, the other enlistment is refused. -/
theorem dials_only_permitted_space :
    ∃ s, run (txnProgram spaceOnly).step spaceReady
        [.step 2 .go, .step 2 .go, .step 2 (.send 0)] = some s ∧
      .called "t" .prepareAndCommit "SPACE:9006" ∈ s.log ∧
      spaceOnly.allow "SPACE:9006" = .ok () ∧
      ∃ s' e, (txnProgram spaceOnly).step s (.step 3 .go) = some s' ∧
        s'.tasks[3]? = some (.returned (.error (.permissionDenied e))) ∧
        s'.shared.txns = s.shared.txns := by
  obtain ⟨s, hrun, hcalled, htask, s', e, hstep, hrefused⟩ :
      ∃ s, run (txnProgram spaceOnly).step spaceReady
          [.step 2 .go, .step 2 .go, .step 2 (.send 0)] = some s ∧
        .called "t" .prepareAndCommit "SPACE:9006" ∈ s.log ∧
        s.tasks[3]? = some (.enlist "t" "evil:9006" 0) ∧
        ∃ s' e, (txnProgram spaceOnly).step s (.step 3 .go) = some s' ∧
          s'.tasks[3]? = some (.returned (.error (.permissionDenied e))) :=
    ⟨_, rfl, by decide +kernel, by decide +kernel, _, _, rfl, rfl⟩
  have hreach : TxnReachable spaceOnly s :=
    Reachable.append ⟨spaceEnlisted, (Option.some_get _).symm⟩ hrun
  obtain ⟨-, hcalls, hrefusal⟩ := dials_only_permitted _ _ _ _ hreach
  exact ⟨s, hrun, hcalled, hcalls _ _ _ hcalled, s', e, hstep, hrefused,
    hrefusal 3 "t" "evil:9006" 0 .go s' _ htask hstep hrefused⟩

end Coordin8
