import Coordin8.Txn.Moves
import Mathlib.Tactic.Tauto

/-!
# The commit protocol, seen from one transaction

The history of a transaction is the part of the log that is about it.  `Rounds`
sums up its calls and votes: which endpoints were called how, and who answered
what.  `Progress` says, for the call that owns the transaction, which rounds
have been made when it stands at each point; `Progress.step` shows that its
moves keep to this, so the history of a transaction is that of one sequential
commit or abort, whatever else runs beside it.
-/

namespace Coordin8

open Support Support.DashMap TxnPc

/-! ## Histories -/

/-- The transaction an event of the protocol is about. -/
def TxnEvent.txn : TxnEvent → Option String
  | .enlisted txnId _ | .moved _ _ txnId _ _ | .called txnId _ _
  | .voted txnId _ _ _ | .unexpected txnId _ _ => some txnId
  | .began .. | .granted _ => none

/-- The history of the transaction `x`. -/
def about (x : String) (log : List TxnEvent) : List TxnEvent :=
  log.filter fun e => e.txn = some x

variable {x : String} {log events : List TxnEvent}
  {batch : Batch String (Option Int32)}

theorem about_append_other (h : ∀ e ∈ events, e.txn ≠ some x) :
    about x (log ++ events) = about x log := by
  have hnone : events.filter (fun e => decide (e.txn = some x)) = [] := by
    simpa using h
  simp [about, hnone]

theorem about_append_self (h : ∀ e ∈ events, e.txn = some x) :
    about x (log ++ events) = about x log ++ events := by
  have hall : events.filter (fun e => decide (e.txn = some x)) = events := by
    simpa using h
  simp [about, hall]

theorem mem_about {e : TxnEvent}
    (he : e.txn = some x) : e ∈ about x log ↔ e ∈ log := by
  simp [about, he]

/-- The participants whose enlistment succeeded. -/
def enlistedIn (g : List TxnEvent) : List ParticipantRecord :=
  g.filterMap fun
    | .enlisted _ p => some p
    | _ => none

/-- The tasks that moved the transaction out of `Active`. -/
def claimants (g : List TxnEvent) : List Nat :=
  g.filterMap fun
    | .moved i _ _ .active _ => some i
    | _ => none

/-- The endpoints called for one purpose. -/
def callsOf (kind : CallKind) (g : List TxnEvent) : List String :=
  g.filterMap fun
    | .called _ k ep => if k = kind then some ep else none
    | _ => none

/-! ## Rounds -/

/-- The answers to the calls of a batch, as far as they are in. -/
abbrev Votes := Nat → Option (Option Int32)

def noVotes : Votes := fun _ => none

def votesOf (vs : List (Option Int32)) : Votes := fun k => vs[k]?

/-- The calls and votes of a history. -/
structure Rounds (x : String) (g : List TxnEvent)
    (calls : CallKind → List String) (votes : CallKind → Votes) : Prop where
  calls : ∀ kind, (callsOf kind g).Perm (calls kind)
  votes : ∀ kind k v, .voted x kind k v ∈ g ↔ votes kind k = some v

def roundCalls (single prepare commit abort : List String) :
    CallKind → List String
  | .prepareAndCommit => single
  | .prepare => prepare
  | .commit => commit
  | .abort => abort

def roundVotes (single prepare : Votes) : CallKind → Votes
  | .prepareAndCommit => single
  | .prepare => prepare
  | .commit | .abort => noVotes

/-- No calls at all. -/
abbrev Rounds.None (x : String) (g : List TxnEvent) : Prop :=
  Rounds x g (roundCalls [] [] [] []) (roundVotes noVotes noVotes)

namespace Rounds

variable {x : String} {g : List TxnEvent} {calls calls' : CallKind → List String}
  {votes votes' : CallKind → Votes}

theorem nil (x : String) : Rounds.None x [] := by
  refine ⟨fun kind => ?_, fun kind k v => ?_⟩
  · cases kind <;> simp [callsOf, roundCalls]
  · cases kind <;> simp [roundVotes, noVotes]

theorem other (h : Rounds x g calls votes)
    (hcall : ∀ kind, callsOf kind events = [])
    (hvote : ∀ kind k v, TxnEvent.voted x kind k v ∉ events) :
    Rounds x (g ++ events) calls votes := by
  refine ⟨fun kind => ?_, fun kind k v => ?_⟩
  · have hnone := hcall kind
    simp only [callsOf] at hnone
    simpa [callsOf, hnone] using h.calls kind
  · simp [hvote, h.votes kind k v]

theorem call (h : Rounds x g calls votes) {y ep : String} {kind : CallKind}
    (hcalls : ∀ k, (calls' k).Perm
      (if k = kind then ep :: calls k else calls k)) :
    Rounds x (g ++ [.called y kind ep]) calls' votes := by
  refine ⟨fun k => ?_, fun kind k v => ?_⟩
  · refine List.Perm.trans ?_ (hcalls k).symm
    by_cases hk : k = kind
    · subst hk
      simpa [callsOf] using
        List.perm_append_singleton ep (callsOf k g) |>.trans
          ((h.calls k).cons ep)
    · simpa [callsOf, hk, Ne.symm hk] using h.calls k
  · simp [h.votes kind k v]

theorem vote (h : Rounds x g calls votes) {kind : CallKind} {k : Nat}
    {v : Option Int32}
    (hvotes : ∀ kind' k' v', votes' kind' k' = some v' ↔
      votes kind' k' = some v' ∨ (kind' = kind ∧ k' = k ∧ v' = v)) :
    Rounds x (g ++ [.voted x kind k v]) calls votes' := by
  refine ⟨fun kind => ?_, fun kind' k' v' => ?_⟩
  · simpa [callsOf] using h.calls kind
  · rw [hvotes, ← h.votes]
    simp

end Rounds

/-! ## Votes -/

/-- Every participant is ready to commit, or has nothing to commit. -/
def Unanimous (vs : List (Option Int32)) : Prop :=
  ∀ v ∈ vs, v = some 0 ∨ v = some 1

/-- The endpoints that have something to commit. -/
def toCommit (eps : List String) (vs : List (Option Int32)) : List String :=
  ((eps.zip vs).filter fun e => e.2 = some 0).map Prod.fst

theorem voteFromI32_cases (v : Int32) :
    (v = 0 ∧ voteFromI32 v = .prepared) ∨
      (v = 1 ∧ voteFromI32 v = .notChanged) ∨
      (v ≠ 0 ∧ v ≠ 1 ∧ voteFromI32 v = .aborted) := by
  unfold voteFromI32
  by_cases h0 : v = 0
  · simp [h0]
  · by_cases h1 : v = 1
    · simp [h1]
    · simp [h0, h1]

/-- The loop over the prepare results finds no veto exactly when all votes
allow a commit, and then collects the endpoints to commit. -/
theorem countVotes_spec (acc : List String)
    (rs : List (String × Option Int32)) :
    (Unanimous (rs.map Prod.snd) ∧ countVotes acc rs =
      some (acc ++ (rs.filter fun e => e.2 = some 0).map Prod.fst)) ∨
    (¬ Unanimous (rs.map Prod.snd) ∧ countVotes acc rs = none) := by
  induction rs generalizing acc with
  | nil => simp [countVotes, Unanimous]
  | cons a rs ih =>
      obtain ⟨ep, reply⟩ := a
      cases reply with
      | none => exact Or.inr ⟨by simp [Unanimous], rfl⟩
      | some v =>
          rcases voteFromI32_cases v with
            ⟨rfl, hvote⟩ | ⟨rfl, hvote⟩ | ⟨h0, h1, hvote⟩
          · simpa [countVotes, hvote, Unanimous, List.append_assoc] using
              ih (acc ++ [ep])
          · simpa [countVotes, hvote, Unanimous] using ih acc
          · exact Or.inr ⟨by simp [Unanimous, h0, h1],
              by simp [countVotes, hvote]⟩

theorem toCommit_map (rs : List (String × Option Int32)) :
    toCommit (rs.map Prod.fst) (rs.map Prod.snd) =
      (rs.filter fun e => e.2 = some 0).map Prod.fst := by
  simp only [toCommit]
  rw [List.zip_map', List.filter_map, List.map_map]
  simp [Function.comp_def]

/-! ## Where the owner stands -/

section Grounds

variable (x : String) (ps : List ParticipantRecord) (g : List TxnEvent)

/-- The history of a commit. -/
inductive CommitGround : Prop where
  | nobody (hps : ps = []) (hg : Rounds.None x g)
  | single {p : ParticipantRecord} {v : Option Int32} (hps : ps = [p])
      (hv : v = some 0 ∨ v = some 1)
      (hg : Rounds x g (roundCalls [p.endpoint] [] [] [])
        (roundVotes (votesOf [v]) noVotes))
  | unanimous {vs : List (Option Int32)} (hps : 2 ≤ ps.length)
      (hlen : vs.length = ps.length) (hvs : Unanimous vs)
      (hg : Rounds x g
        (roundCalls [] (endpoints ps) (toCommit (endpoints ps) vs) [])
        (roundVotes noVotes (votesOf vs)))

/-- The history of an abort that has called `aborts`, and the answer of the
call that made it: somebody asked for it, or a participant vetoed the
commit. -/
inductive AbortGround (aborts : List String) : TxnResult → Prop where
  | asked (hg : Rounds x g (roundCalls [] [] [] aborts)
      (roundVotes noVotes noVotes)) : AbortGround aborts (.ok .unit)
  | vetoed {vs : List (Option Int32)} (hps : 2 ≤ ps.length)
      (hlen : vs.length = ps.length) (hvs : ¬ Unanimous vs)
      (hg : Rounds x g (roundCalls [] (endpoints ps) [] aborts)
        (roundVotes noVotes (votesOf vs))) :
      AbortGround aborts (.error (.transactionAborted x))

/-- The only participant was called, and answered `v`. -/
def SingleAnswer (v : Option Int32) : Prop :=
  ∃ p, ps = [p] ∧ Rounds x g (roundCalls [p.endpoint] [] [] [])
    (roundVotes (votesOf [v]) noVotes)

/-- The only participant voted to abort. -/
def SingleVeto : Prop :=
  ∃ v : Int32, v ≠ 0 ∧ v ≠ 1 ∧ SingleAnswer x ps g (some v)

/-- The transitions the owner of a commit makes, and when. -/
inductive Planned : TransactionState → TransactionState → After → Prop where
  | early (hground : CommitGround x ps g) (hps : ps.length < 2) :
      Planned .voting .committed (.finish (.ok .unit))
  | late (hground : CommitGround x ps g) (hps : 2 ≤ ps.length) :
      Planned .prepared .committed (.finish (.ok .unit))
  | singleVeto (hveto : SingleVeto x ps g) :
      Planned .voting .aborted (.finish (.error (.transactionAborted x)))
  | commitPhase {vs : List (Option Int32)} (hps : 2 ≤ ps.length)
      (hlen : vs.length = ps.length) (hvs : Unanimous vs)
      (hg : Rounds x g (roundCalls [] (endpoints ps) [] [])
        (roundVotes noVotes (votesOf vs))) :
      Planned .voting .prepared (.commitPhase (toCommit (endpoints ps) vs))
  | abortPhase
      (hground : AbortGround x ps g [] (.error (.transactionAborted x))) :
      Planned .voting .aborted .abortPhase

end Grounds

/-- The outcome is recorded, all calls to participants have been made, and the
owner answers `result`. -/
inductive Settled (x : String) (r : TransactionRecord) (g : List TxnEvent) :
    TxnResult → Prop where
  | committed (hstate : r.state = .committed)
      (hground : CommitGround x r.participants g) : Settled x r g (.ok .unit)
  | aborted {result : TxnResult} (hstate : r.state = .aborted)
      (hground : AbortGround x r.participants g (endpoints r.participants)
        result) : Settled x r g result
  | singleVeto (hstate : r.state = .aborted)
      (hveto : SingleVeto x r.participants g) :
      Settled x r g (.error (.transactionAborted x))

/-- The copy of the record that a commit works on. -/
def CopyOf (txn r : TransactionRecord) : Prop :=
  txn.txnId = r.txnId ∧ txn.participants = r.participants

/-- The history `g` of the transaction `x` with the record `r`, when its owner
stands at the given point. -/
def Progress (x : String) (r : TransactionRecord) (g : List TxnEvent) :
    TxnPc → Prop
  | .commitFetch y => y = x ∧ r.state = .voting ∧ Rounds.None x g
  | .prepareAndCommit txn batch =>
      CopyOf txn r ∧ r.state = .voting ∧
        (∃ p, r.participants = [p] ∧ batch.targets = [p.endpoint]) ∧
        Rounds x g (roundCalls batch.called [] [] [])
          (roundVotes batch.reply noVotes)
  | .preparing txn batch =>
      CopyOf txn r ∧ r.state = .voting ∧ 2 ≤ r.participants.length ∧
        batch.targets = endpoints r.participants ∧
        Rounds x g (roundCalls [] batch.called [] [])
          (roundVotes noVotes batch.reply)
  | .transition txn old new after =>
      CopyOf txn r ∧ r.state = old ∧ Planned x r.participants g old new after
  | .committing txn batch =>
      CopyOf txn r ∧ r.state = .prepared ∧ 2 ≤ r.participants.length ∧
        ∃ vs, vs.length = r.participants.length ∧ Unanimous vs ∧
          batch.targets = toCommit (endpoints r.participants) vs ∧
          Rounds x g (roundCalls [] (endpoints r.participants) batch.called [])
            (roundVotes noVotes (votesOf vs))
  | .abortFetch y | .expiredFetch y =>
      y = x ∧ r.state = .aborted ∧ Rounds.None x g
  | .aborting y batch _ result =>
      y = x ∧ r.state = .aborted ∧ batch.targets = endpoints r.participants ∧
        AbortGround x r.participants g batch.called result
  | .cancelLease lpc result => lpc.Cancelling ∧ Settled x r g result
  | .returned result =>
      Settled x r g result ∨
        (r.state = .voting ∧ SingleAnswer x r.participants g none ∧
          result = .error (.transactionOutcomeUnknown x))
  | _ => False

/-- The moves of the recorded state that the code allows. -/
inductive Allowed : TransactionState → TransactionState → Prop where
  | vote : Allowed .active .voting
  | abort : Allowed .active .aborted
  | prepare : Allowed .voting .prepared
  | commitEarly : Allowed .voting .committed
  | veto : Allowed .voting .aborted
  | commit : Allowed .prepared .committed

theorem Planned.allowed {ps : List ParticipantRecord}
    {g : List TxnEvent} {old new : TransactionState} {after : After}
    (h : Planned x ps g old new after) : Allowed old new := by
  cases h with
  | early => exact .commitEarly
  | late => exact .commit
  | singleVeto => exact .veto
  | commitPhase => exact .prepare
  | abortPhase => exact .veto

theorem Progress.not_active {r : TransactionRecord}
    {g : List TxnEvent} {pc : TxnPc} (h : Progress x r g pc) :
    r.state ≠ .active := by
  intro hactive
  cases pc with
  | transition txn old new after =>
      obtain ⟨-, hold, hplanned⟩ := h
      rw [hactive] at hold
      subst hold
      cases hplanned
  | cancelLease lease result =>
      obtain ⟨-, hsettled⟩ := h
      cases hsettled <;> simp_all
  | returned result =>
      rcases h with h | ⟨hstate, -⟩
      · cases h <;> simp_all
      · simp_all
  | _ => simp_all [Progress]

/-! ## The owner's moves -/

theorem reply_start_eq (eps : List String) :
    Batch.reply (Batch.start eps : Batch String (Option Int32)) = noVotes :=
  funext fun k => Batch.reply_start eps k

theorem reply_eq_votesOf
    {rs : List (String × Option Int32)} (h : batch.results = some rs) :
    batch.reply = votesOf (rs.map Prod.snd) :=
  funext fun k => (Batch.results_eq_some h).2.2 k

theorem Rounds.moved {x y : String} {g : List TxnEvent}
    {calls : CallKind → List String} {votes : CallKind → Votes}
    (h : Rounds x g calls votes) (i : Nat) (agent : Agent)
    (old new : TransactionState) :
    Rounds x (g ++ [.moved i agent y old new]) calls votes :=
  h.other (by simp [callsOf]) (by simp)

theorem CommitGround.moved {x : String} {ps : List ParticipantRecord}
    {g : List TxnEvent} (h : CommitGround x ps g) (i : Nat) (agent : Agent)
    (old new : TransactionState) :
    CommitGround x ps (g ++ [.moved i agent x old new]) := by
  cases h with
  | nobody hps hg => exact .nobody hps (hg.moved ..)
  | single hps hv hg => exact .single hps hv (hg.moved ..)
  | unanimous hps hlen hvs hg => exact .unanimous hps hlen hvs (hg.moved ..)

namespace Progress

variable {x : String} {r : TransactionRecord} {g : List TxnEvent}
  {pc pc' : TxnPc}

theorem fetch {found : TransactionRecord → TxnPc}
    (hfetches : Fetches pc x found) (h : Progress x r g pc) :
    Progress x r g (found r) := by
  cases hfetches with
  | commit =>
      obtain ⟨-, hstate, hg⟩ := h
      unfold plan
      split
      · next hps =>
        exact ⟨⟨rfl, rfl⟩, hstate, .early (.nobody hps hg) (by simp [hps])⟩
      · next p hps =>
        refine ⟨⟨rfl, rfl⟩, hstate, ⟨p, hps, by simp⟩, ?_⟩
        rw [Batch.called_start, reply_start_eq]
        exact hg
      · next hnil hone =>
        refine ⟨⟨rfl, rfl⟩, hstate, ?_, by simp, ?_⟩
        · match hps : r.participants with
          | [] => exact absurd hps hnil
          | [p] => exact absurd hps (hone p)
          | _ :: _ :: _ => simp
        · rw [Batch.called_start, reply_start_eq]
          exact hg
  | abort | expired =>
      obtain ⟨-, hstate, hg⟩ := h
      refine ⟨rfl, hstate, by simp, ?_⟩
      rw [Batch.called_start]
      exact .asked hg

theorem transition {txn : TransactionRecord} {old new : TransactionState}
    {after : After} (hid : r.txnId = x) (i : Nat)
    (h : Progress x r g (.transition txn old new after)) :
    Progress x { r with state := new }
      (g ++ [.moved i .commit x old new]) (resume txn after) := by
  obtain ⟨⟨hcopyId, hcopyPs⟩, hold, hplanned⟩ := h
  cases hplanned with
  | early hground | late hground =>
      exact ⟨trivial, .committed rfl (hground.moved ..)⟩
  | singleVeto hveto =>
      obtain ⟨v, h0, h1, p, hps, hg⟩ := hveto
      exact ⟨trivial, .singleVeto rfl ⟨v, h0, h1, p, hps, hg.moved ..⟩⟩
  | commitPhase hps hlen hvs hg =>
      refine ⟨⟨hcopyId, hcopyPs⟩, rfl, hps, _, hlen, hvs, by simp, ?_⟩
      rw [Batch.called_start]
      exact hg.moved ..
  | abortPhase hground =>
      refine ⟨hcopyId.trans hid, rfl, by simp [hcopyPs], ?_⟩
      rw [Batch.called_start, hcopyId, hid]
      cases hground with
      | vetoed hps hlen hvs hg => exact .vetoed hps hlen hvs (hg.moved ..)

theorem decideVotes {txn : TransactionRecord}
    {rs : List (String × Option Int32)} (hrs : batch.results = some rs)
    (h : Progress x r g (.preparing txn batch)) :
    Progress x r g (TxnPc.decideVotes txn rs) := by
  obtain ⟨hcopy, hstate, hps, htargets, hg⟩ := h
  obtain ⟨hfst, hcalled, -⟩ := Batch.results_eq_some hrs
  rw [hcalled, htargets, reply_eq_votesOf hrs] at hg
  have hlen : (rs.map Prod.snd).length = r.participants.length := by
    have hlen' := congrArg List.length (hfst.trans htargets)
    simpa [endpoints] using hlen'
  unfold TxnPc.decideVotes
  rcases countVotes_spec [] rs with ⟨hvs, heq⟩ | ⟨hvs, heq⟩
  · rw [heq, List.nil_append, ← toCommit_map, hfst, htargets]
    exact ⟨hcopy, hstate, .commitPhase hps hlen hvs hg⟩
  · rw [heq]
    exact ⟨hcopy, hstate, .abortPhase (.vetoed hps hlen hvs hg)⟩

theorem decideSingle {txn : TransactionRecord} {ep : String}
    {reply : Option Int32} (hid : r.txnId = x)
    (hrs : batch.results = some [(ep, reply)])
    (h : Progress x r g (.prepareAndCommit txn batch)) :
    Progress x r g (TxnPc.decideSingle txn reply) := by
  obtain ⟨hcopy, hstate, ⟨p, hps, htargets⟩, hg⟩ := h
  obtain ⟨-, hcalled, -⟩ := Batch.results_eq_some hrs
  rw [hcalled, htargets, reply_eq_votesOf hrs] at hg
  cases reply with
  | none =>
      refine Or.inr ⟨hstate, ⟨p, hps, hg⟩, ?_⟩
      rw [hcopy.1, hid]
  | some v =>
      unfold TxnPc.decideSingle
      have hshort : r.participants.length < 2 := by simp [hps]
      rcases voteFromI32_cases v with
        ⟨rfl, hvote⟩ | ⟨rfl, hvote⟩ | ⟨h0, h1, hvote⟩
      · simp only [hvote]
        exact ⟨hcopy, hstate, .early (.single hps (Or.inl rfl) hg) hshort⟩
      · simp only [hvote]
        exact ⟨hcopy, hstate, .early (.single hps (Or.inr rfl) hg) hshort⟩
      · simp only [hvote]
        rw [hcopy.1, hid]
        exact ⟨hcopy, hstate, .singleVeto ⟨v, h0, h1, p, hps, hg⟩⟩

theorem join (hid : r.txnId = x) (hjoin : pc.join = some pc')
    (h : Progress x r g pc) : Progress x r g pc' := by
  cases pc with
  | prepareAndCommit txn batch =>
      simp only [TxnPc.join] at hjoin
      split at hjoin
      · next hrs =>
        obtain rfl := Option.some.inj hjoin
        exact decideSingle hid hrs h
      · cases hjoin
  | preparing txn batch =>
      obtain ⟨rs, hrs, rfl⟩ := Option.map_eq_some_iff.mp hjoin
      exact decideVotes hrs h
  | committing txn batch =>
      obtain ⟨rs, hrs, rfl⟩ := Option.map_eq_some_iff.mp hjoin
      obtain ⟨hcopy, hstate, hps, vs, hlen, hvs, htargets, hg⟩ := h
      rw [(Batch.results_eq_some hrs).2.1, htargets] at hg
      exact ⟨hcopy, hstate, .late (.unanimous hps hlen hvs hg) hps⟩
  | aborting y batch cancel result =>
      obtain ⟨rs, hrs, rfl⟩ := Option.map_eq_some_iff.mp hjoin
      obtain ⟨-, hstate, htargets, hground⟩ := h
      rw [(Batch.results_eq_some hrs).2.1, htargets] at hground
      cases cancel with
      | none => exact Or.inl (.aborted hstate hground)
      | some leaseId => exact ⟨trivial, .aborted hstate hground⟩
  | _ => cases hjoin

theorem send {k : Nat} {e : TxnEvent} (hid : r.txnId = x)
    (hsend : pc.send k = some (e, pc')) (h : Progress x r g pc) :
    (∃ kind ep, e = .called x kind ep) ∧ Progress x r (g ++ [e]) pc' := by
  cases pc with
  | prepareAndCommit txn batch =>
      obtain ⟨⟨ep, batch'⟩, hbatch, heq⟩ := Option.map_eq_some_iff.mp hsend
      obtain ⟨rfl, rfl⟩ := Prod.mk.inj heq
      obtain ⟨hready, rfl⟩ := Batch.send_eq_some.mp hbatch
      obtain ⟨hcopy, hstate, ⟨p, hps, htargets⟩, hg⟩ := h
      refine ⟨⟨_, _, by rw [hcopy.1, hid]⟩, hcopy, hstate, ⟨p, hps, ?_⟩, ?_⟩
      · rw [Batch.targets_set hready, htargets]
      · rw [Batch.reply_send hready]
        refine hg.call fun kind => ?_
        cases kind <;> simp [roundCalls, Batch.called_send hready]
  | preparing txn batch =>
      obtain ⟨⟨ep, batch'⟩, hbatch, heq⟩ := Option.map_eq_some_iff.mp hsend
      obtain ⟨rfl, rfl⟩ := Prod.mk.inj heq
      obtain ⟨hready, rfl⟩ := Batch.send_eq_some.mp hbatch
      obtain ⟨hcopy, hstate, hps, htargets, hg⟩ := h
      refine ⟨⟨_, _, by rw [hcopy.1, hid]⟩, hcopy, hstate, hps, ?_, ?_⟩
      · rw [Batch.targets_set hready, htargets]
      · rw [Batch.reply_send hready]
        refine hg.call fun kind => ?_
        cases kind <;> simp [roundCalls, Batch.called_send hready]
  | committing txn batch =>
      obtain ⟨⟨ep, batch'⟩, hbatch, heq⟩ := Option.map_eq_some_iff.mp hsend
      obtain ⟨rfl, rfl⟩ := Prod.mk.inj heq
      obtain ⟨hready, rfl⟩ := Batch.send_eq_some.mp hbatch
      obtain ⟨hcopy, hstate, hps, vs, hlen, hvs, htargets, hg⟩ := h
      refine ⟨⟨_, _, by rw [hcopy.1, hid]⟩, hcopy, hstate, hps, vs, hlen, hvs,
        ?_, ?_⟩
      · rw [Batch.targets_set hready, htargets]
      · refine hg.call fun kind => ?_
        cases kind <;> simp [roundCalls, Batch.called_send hready]
  | aborting y batch cancel result =>
      obtain ⟨⟨ep, batch'⟩, hbatch, heq⟩ := Option.map_eq_some_iff.mp hsend
      obtain ⟨rfl, rfl⟩ := Prod.mk.inj heq
      obtain ⟨hready, rfl⟩ := Batch.send_eq_some.mp hbatch
      obtain ⟨rfl, hstate, htargets, hground⟩ := h
      refine ⟨⟨_, _, rfl⟩, rfl, hstate, ?_, ?_⟩
      · rw [Batch.targets_set hready, htargets]
      · cases hground with
        | asked hg =>
            refine .asked (hg.call fun kind => ?_)
            cases kind <;> simp [roundCalls, Batch.called_send hready]
        | vetoed hps hlen hvs hg =>
            refine .vetoed hps hlen hvs (hg.call fun kind => ?_)
            cases kind <;> simp [roundCalls, Batch.called_send hready]
  | _ => cases hsend

theorem vote {k : Nat} {reply : Option Int32} {e : TxnEvent} (hid : r.txnId = x)
    (hvote : pc.vote k reply = some (e, pc')) (h : Progress x r g pc) :
    (∃ kind, e = .voted x kind k reply) ∧ Progress x r (g ++ [e]) pc' := by
  cases pc with
  | prepareAndCommit txn batch =>
      obtain ⟨⟨ep, batch'⟩, hbatch, heq⟩ := Option.map_eq_some_iff.mp hvote
      obtain ⟨rfl, rfl⟩ := Prod.mk.inj heq
      obtain ⟨hsent, rfl⟩ := Batch.answer_eq_some.mp hbatch
      obtain ⟨hcopy, hstate, ⟨p, hps, htargets⟩, hg⟩ := h
      rw [hcopy.1, hid]
      refine ⟨⟨_, rfl⟩, hcopy, hstate, ⟨p, hps, ?_⟩, ?_⟩
      · rw [Batch.targets_set hsent, htargets]
      · rw [Batch.called_answer hsent]
        refine hg.vote fun kind j v => ?_
        cases kind <;> simp [roundVotes, noVotes, Batch.reply_answer hsent]
  | preparing txn batch =>
      obtain ⟨⟨ep, batch'⟩, hbatch, heq⟩ := Option.map_eq_some_iff.mp hvote
      obtain ⟨rfl, rfl⟩ := Prod.mk.inj heq
      obtain ⟨hsent, rfl⟩ := Batch.answer_eq_some.mp hbatch
      obtain ⟨hcopy, hstate, hps, htargets, hg⟩ := h
      rw [hcopy.1, hid]
      refine ⟨⟨_, rfl⟩, hcopy, hstate, hps, ?_, ?_⟩
      · rw [Batch.targets_set hsent, htargets]
      · rw [Batch.called_answer hsent]
        refine hg.vote fun kind j v => ?_
        cases kind <;> simp [roundVotes, noVotes, Batch.reply_answer hsent]
  | _ => cases hvote

theorem ack {k : Nat} {ok : Bool} (hack : pc.ack k ok = some pc')
    (h : Progress x r g pc) : Progress x r g pc' := by
  cases pc with
  | committing txn batch =>
      obtain ⟨⟨ep, batch'⟩, hbatch, rfl⟩ := Option.map_eq_some_iff.mp hack
      obtain ⟨hsent, rfl⟩ := Batch.answer_eq_some.mp hbatch
      obtain ⟨hcopy, hstate, hps, vs, hlen, hvs, htargets, hg⟩ := h
      refine ⟨hcopy, hstate, hps, vs, hlen, hvs, ?_, ?_⟩
      · rw [Batch.targets_set hsent, htargets]
      · rw [Batch.called_answer hsent]
        exact hg
  | aborting y batch cancel result =>
      obtain ⟨⟨ep, batch'⟩, hbatch, rfl⟩ := Option.map_eq_some_iff.mp hack
      obtain ⟨hsent, rfl⟩ := Batch.answer_eq_some.mp hbatch
      obtain ⟨rfl, hstate, htargets, hground⟩ := h
      refine ⟨rfl, hstate, ?_, ?_⟩
      · rw [Batch.targets_set hsent, htargets]
      · rw [Batch.called_answer hsent]
        exact hground
  | _ => cases hack

end Progress

end Coordin8
