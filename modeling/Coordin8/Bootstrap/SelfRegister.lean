import Coordin8.Registry.Service
import Coordin8.Support.Transition

/-!
# Self-registration

`self_register` of `coordin8-bootstrap`: a service registers itself in the
Registry and keeps the entry alive with a renewal task.  On every tick the task
sends its current request; when the Registry answers that the entry is unusable,
it registers afresh and adopts the ids of the answer.  The answers come from
outside.

The recovery call has a branch of its own for success.  When it fails, the
request is left without ids and the next tick registers afresh through the
branch for renewals, which adopts the lease of the answer for `cancel` and
nothing for the request.
-/

namespace Coordin8

open Support

/-- What the Registry answers to `Register`. -/
abbrev RegisterAnswer := Except Status RegisterResponse

/-- The lease id of an answer, empty when it brings no lease. -/
def RegisterResponse.leaseId (resp : RegisterResponse) : String :=
  (resp.lease.map LeaseRecord.leaseId).getD ""

structure CurrentRegistration where
  leaseId : String
  capabilityId : String
deriving DecidableEq

/-- The request of the renewal task and the state it shares with the handle. -/
structure SelfRegistration where
  request : RegisterRequest
  current : CurrentRegistration
deriving DecidableEq

/-- What is registered, with the ids of the entry to update. -/
def registrationOf (interface : String) (attrs : Attrs) (host : String)
    (port : UInt16) (ttlSeconds : UInt64) (capabilityId leaseId : String) :
    RegisterRequest where
  interface := interface
  attrs := attrs
  ttlSeconds := ttlSeconds
  transport := some
    { transportType := "grpc"
      config := ((∅ : Attrs).insert "host" host).insert "port"
        (toString port.toNat) }
  capabilityId := capabilityId
  leaseId := leaseId

/-- The first registration. -/
def selfRegister (interface : String) (attrs : Attrs) (host : String)
    (port : UInt16) (ttlSeconds : UInt64) :
    RegisterAnswer → Except Status SelfRegistration
  | .error status => .error status
  | .ok resp =>
      .ok
        { request := registrationOf interface attrs host port ttlSeconds
            resp.capabilityId resp.leaseId
          current := ⟨resp.leaseId, resp.capabilityId⟩ }

/-- The entry is gone, or its lease has expired. -/
def entryIsUnusable : Code → Bool
  | .notFound | .failedPrecondition => true
  | _ => false

/-- The answers a tick gets: to the renewal, and to the recovery call when there
is one. -/
structure Tick where
  renewal : RegisterAnswer
  recovery : RegisterAnswer
deriving DecidableEq

namespace SelfRegistration

/-- The request without ids, for a fresh registration. -/
def freshRequest (s : SelfRegistration) : RegisterRequest :=
  { s.request with capabilityId := "", leaseId := "" }

/-- The entry is unusable: register afresh. -/
def recover (s : SelfRegistration) : RegisterAnswer → SelfRegistration
  | .ok resp =>
      { request :=
          { s.freshRequest with
            leaseId := resp.leaseId, capabilityId := resp.capabilityId }
        current := ⟨resp.leaseId, resp.capabilityId⟩ }
  | .error _ =>
      { request := s.freshRequest
        current := { s.current with leaseId := "" } }

/-- One tick of the renewal task. -/
def tick (s : SelfRegistration) (t : Tick) : SelfRegistration :=
  match t.renewal with
  | .ok resp =>
      match resp.lease with
      | some l => { s with current := { s.current with leaseId := l.leaseId } }
      | none => s
  | .error status =>
      if entryIsUnusable status.code then
        s.recover t.recovery
      else
        s

/-- The calls of a tick with their answers. -/
def calls (s : SelfRegistration) (t : Tick) :
    List (RegisterRequest × RegisterAnswer) :=
  (s.request, t.renewal) ::
    match t.renewal with
    | .ok _ => []
    | .error status =>
        if entryIsUnusable status.code then
          [(s.freshRequest, t.recovery)]
        else
          []

/-- The lease that `cancel` asks the lease service to cancel. -/
def cancelTarget (s : SelfRegistration) : Option String :=
  if s.current.leaseId = "" then none else some s.current.leaseId

/-- Both the next request and the shared state name this entry. -/
def Cites (s : SelfRegistration) (capabilityId leaseId : String) : Prop :=
  s.request.capabilityId = capabilityId ∧ s.request.leaseId = leaseId ∧
    s.current.capabilityId = capabilityId ∧ s.current.leaseId = leaseId

/-- What a tick can do, with the calls it makes. -/
inductive TickMove (s : SelfRegistration) (t : Tick) :
    SelfRegistration → List (RegisterRequest × RegisterAnswer) → Prop where
  | renewed (resp : RegisterResponse) (hok : t.renewal = .ok resp) :
      TickMove s t
        { s with
          current :=
            { s.current with
              leaseId :=
                (resp.lease.map LeaseRecord.leaseId).getD s.current.leaseId } }
        [(s.request, .ok resp)]
  | failed (status : Status) (herror : t.renewal = .error status)
      (husable : entryIsUnusable status.code = false) :
      TickMove s t s [(s.request, .error status)]
  | recovered (status : Status) (resp : RegisterResponse)
      (hunusable : entryIsUnusable status.code = true)
      (hok : t.recovery = .ok resp) :
      TickMove s t (s.recover (.ok resp))
        [(s.request, .error status), (s.freshRequest, .ok resp)]
  | unrecovered (status status' : Status)
      (hunusable : entryIsUnusable status.code = true) :
      TickMove s t (s.recover (.error status'))
        [(s.request, .error status), (s.freshRequest, .error status')]

theorem tick_move (s : SelfRegistration) (t : Tick) :
    TickMove s t (s.tick t) (s.calls t) := by
  obtain ⟨renewal, recovery⟩ := t
  cases renewal with
  | ok resp =>
      have hmove := TickMove.renewed (s := s)
        (t := ⟨.ok resp, recovery⟩) resp rfl
      cases hlease : resp.lease with
      | none | some l => simpa [tick, calls, hlease] using hmove
  | error status =>
      cases hunusable : entryIsUnusable status.code with
      | false =>
          have hmove := TickMove.failed (s := s)
            (t := ⟨.error status, recovery⟩) status rfl hunusable
          simpa [tick, calls, hunusable] using hmove
      | true =>
          cases recovery with
          | ok resp =>
              have hmove := TickMove.recovered (s := s)
                (t := ⟨.error status, .ok resp⟩) status resp hunusable rfl
              simpa [tick, calls, hunusable] using hmove
          | error status' =>
              have hmove := TickMove.unrecovered (s := s)
                (t := ⟨.error status, .error status'⟩) status status' hunusable
              simpa [tick, calls, hunusable] using hmove

end SelfRegistration

/-! ## Runs -/

/-- The entry that is owned after some calls, by its ids: the one a fresh
registration has created last, until a call that cites it is told that it is
unusable. -/
def ownedAfter (owned : Option (String × String)) :
    RegisterRequest × RegisterAnswer → Option (String × String)
  | (req, .ok resp) =>
      if req.capabilityId = "" then
        some (resp.capabilityId, resp.leaseId)
      else
        owned
  | (_, .error status) => if entryIsUnusable status.code then none else owned

def owned (log : List (RegisterRequest × RegisterAnswer)) :
    Option (String × String) :=
  log.foldl ownedAfter none

/-- The task and every call it has made. -/
structure Renewal where
  task : SelfRegistration
  log : List (RegisterRequest × RegisterAnswer)
deriving DecidableEq

namespace Renewal

def step (r : Renewal) (t : Tick) : Option Renewal :=
  some { task := r.task.tick t, log := r.log ++ r.task.calls t }

/-- The condition on a tick: a renewal succeeds only if its request cites an
entry, and brings back no other lease than the one it cites; and an entry that
is created has an id. -/
def CitesEntry (r : Renewal) (t : Tick) : Prop :=
  (∀ resp, t.renewal = .ok resp →
    r.task.request.capabilityId ≠ "" ∧
      ∀ l, resp.lease = some l → l.leaseId = r.task.request.leaseId) ∧
  ∀ resp, t.recovery = .ok resp → resp.capabilityId ≠ ""

/-- Every fresh registration is made when no entry is owned. -/
def Frugal (log : List (RegisterRequest × RegisterAnswer)) : Prop :=
  ∀ pre req answer post, log = pre ++ (req, answer) :: post →
    req.capabilityId = "" → owned pre = none

/-- If the last call has succeeded, the task cites its entry: the one that was
created, or the one that was renewed. -/
def CitesLast (r : Renewal) : Prop :=
  ∀ pre req resp, r.log = pre ++ [(req, .ok resp)] →
    if req.capabilityId = "" then
      r.task.Cites resp.capabilityId resp.leaseId
    else
      r.task.Cites req.capabilityId req.leaseId

/-- What the task cites is what it owns. -/
inductive InStep (r : Renewal) : Prop where
  | owning (capabilityId leaseId : String)
      (howned : owned r.log = some (capabilityId, leaseId))
      (hid : capabilityId ≠ "") (hcites : r.task.Cites capabilityId leaseId)
  | recovering (howned : owned r.log = none)
      (hcapability : r.task.request.capabilityId = "")
      (hlease : r.task.current.leaseId = "")

section Step

variable {r r' : Renewal} {t : Tick}

theorem owned_append (log calls : List (RegisterRequest × RegisterAnswer)) :
    owned (log ++ calls) = calls.foldl ownedAfter (owned log) :=
  List.foldl_append

theorem frugal_snoc {log : List (RegisterRequest × RegisterAnswer)}
    {call : RegisterRequest × RegisterAnswer} (hfrugal : Frugal log)
    (hfresh : call.1.capabilityId = "" → owned log = none) :
    Frugal (log ++ [call]) := by
  intro pre req answer post heq hid
  rcases List.eq_nil_or_concat post with rfl | ⟨post, last, rfl⟩
  · obtain ⟨rfl, hcall⟩ := List.append_inj' heq rfl
    obtain rfl := List.singleton_inj.mp hcall
    exact hfresh hid
  · rw [List.concat_eq_append, ← List.cons_append, ← List.append_assoc] at heq
    obtain ⟨hlog, -⟩ := List.append_inj' heq rfl
    exact hfrugal pre req answer post hlog hid

/-- A task that owns an entry makes no call without its id. -/
theorem InStep.unowned (hinStep : r.InStep)
    (hid : r.task.request.capabilityId = "") : owned r.log = none := by
  cases hinStep with
  | owning c l howned hne hcited => exact absurd (hcited.1.symm.trans hid) hne
  | recovering howned _ _ => exact howned

theorem InStep.frugal (hinStep : r.InStep) (hfrugal : Frugal r.log)
    (hstep : r.step t = some r') : Frugal r'.log := by
  obtain rfl := Option.some.inj hstep
  have hrenewal : ∀ answer, Frugal (r.log ++ [(r.task.request, answer)]) :=
    fun answer => frugal_snoc hfrugal hinStep.unowned
  have hrecovery : ∀ status answer, entryIsUnusable status.code = true →
      Frugal (r.log ++
        [(r.task.request, .error status), (r.task.freshRequest, answer)]) := by
    intro status answer hunusable
    rw [← List.singleton_append, ← List.append_assoc]
    apply frugal_snoc (hrenewal (.error status))
    intro _
    simp [owned_append, ownedAfter, hunusable]
  have hmove := r.task.tick_move t
  generalize r.task.tick t = task at hmove
  generalize r.task.calls t = calls at hmove
  cases hmove with
  | renewed resp _ => exact hrenewal (.ok resp)
  | failed status _ _ => exact hrenewal (.error status)
  | recovered status resp hunusable _ | unrecovered status status' hunusable =>
      exact hrecovery status _ hunusable

theorem InStep.tick (hinStep : r.InStep) (hcites : CitesEntry r t)
    (hstep : r.step t = some r') : r'.InStep := by
  obtain ⟨hrenewal, hrecovery⟩ := hcites
  obtain rfl := Option.some.inj hstep
  have hmove := r.task.tick_move t
  generalize r.task.tick t = task at hmove
  generalize r.task.calls t = calls at hmove
  cases hmove with
  | renewed resp hok =>
      -- an in-place renewal: the entry stays, and so does its lease
      obtain ⟨hcapability, hlease⟩ := hrenewal resp hok
      cases hinStep with
      | recovering _ hempty _ => exact absurd hempty hcapability
      | owning c l howned hid hcited =>
          obtain ⟨hc, hl, hcc, hcl⟩ := hcited
          refine .owning c l ?_ hid ⟨hc, hl, hcc, ?_⟩
          · simp [owned_append, ownedAfter, hcapability, howned]
          · cases hbrought : resp.lease with
            | none => exact hcl
            | some lease => exact (hlease lease hbrought).trans hl
  | failed status _ husable =>
      have hsame : owned (r.log ++ [(r.task.request, .error status)]) =
          owned r.log := by
        simp [owned_append, ownedAfter, husable]
      cases hinStep with
      | owning c l howned hid hcited =>
          exact .owning c l (hsame.trans howned) hid hcited
      | recovering howned hcapability hlease =>
          exact .recovering (hsame.trans howned) hcapability hlease
  | recovered status resp hunusable hok =>
      refine .owning resp.capabilityId resp.leaseId ?_ (hrecovery resp hok)
        ⟨rfl, rfl, rfl, rfl⟩
      simp [owned_append, ownedAfter, SelfRegistration.freshRequest]
  | unrecovered status status' hunusable =>
      refine .recovering ?_ rfl rfl
      simp [owned_append, ownedAfter, hunusable]

theorem InStep.citesLast (hinStep : r.InStep) (hcites : CitesEntry r t)
    (hstep : r.step t = some r') : r'.CitesLast := by
  obtain rfl := Option.some.inj hstep
  intro pre req resp hlast
  have hmove := r.task.tick_move t
  generalize r.task.tick t = task at hmove ⊢
  simp only at hlast
  generalize r.task.calls t = calls at hmove hlast
  cases hmove with
  | renewed resp' hok =>
      obtain ⟨hcapability, hlease⟩ := hcites.1 resp' hok
      obtain ⟨-, hcall⟩ := List.append_inj' hlast rfl
      obtain ⟨rfl, -⟩ := Prod.mk.inj (List.singleton_inj.mp hcall)
      rw [if_neg hcapability]
      cases hinStep with
      | recovering _ hempty _ => exact absurd hempty hcapability
      | owning c l howned hid hcited =>
          obtain ⟨hc, hl, hcc, hcl⟩ := hcited
          refine ⟨rfl, rfl, hcc.trans hc.symm, ?_⟩
          cases hbrought : resp'.lease with
          | none => exact hcl.trans hl.symm
          | some lease => exact hlease lease hbrought
  | failed status _ _ =>
      obtain ⟨-, hcall⟩ := List.append_inj' hlast rfl
      cases (Prod.mk.inj (List.singleton_inj.mp hcall)).2
  | recovered status resp' _ _ =>
      rw [← List.singleton_append, ← List.append_assoc] at hlast
      obtain ⟨-, hcall⟩ := List.append_inj' hlast rfl
      obtain ⟨rfl, hresp⟩ := Prod.mk.inj (List.singleton_inj.mp hcall)
      obtain rfl := Except.ok.inj hresp
      have hfresh : r.task.freshRequest.capabilityId = "" := rfl
      rw [if_pos hfresh]
      exact ⟨rfl, rfl, rfl, rfl⟩
  | unrecovered status status' _ =>
      rw [← List.singleton_append, ← List.append_assoc] at hlast
      obtain ⟨-, hcall⟩ := List.append_inj' hlast rfl
      cases (Prod.mk.inj (List.singleton_inj.mp hcall)).2

end Step

section Runs

variable (interface : String) (attrs : Attrs) (host : String) (port : UInt16)
  (ttlSeconds : UInt64)

/-- The task that `self_register` starts, after its call. -/
def start (answer : RegisterAnswer) : Except Status Renewal :=
  (selfRegister interface attrs host port ttlSeconds answer).map fun task =>
    { task
      log := [(registrationOf interface attrs host port ttlSeconds "" "",
        answer)] }

variable {answer : RegisterAnswer} {first : Renewal}

theorem sound_start
    (hstart : start interface attrs host port ttlSeconds answer = .ok first)
    (hid : ∀ resp, answer = .ok resp → resp.capabilityId ≠ "") :
    first.InStep ∧ first.CitesLast ∧ Frugal first.log := by
  cases answer with
  | error status => cases hstart
  | ok resp =>
      obtain rfl := Except.ok.inj hstart
      refine ⟨.owning resp.capabilityId resp.leaseId rfl (hid resp rfl)
        ⟨rfl, rfl, rfl, rfl⟩, ?_, ?_⟩
      · intro pre req resp' hlast
        rw [← List.nil_append [_]] at hlast
        obtain ⟨-, hcall⟩ := List.append_inj' hlast rfl
        obtain ⟨rfl, hresp⟩ := Prod.mk.inj (List.singleton_inj.mp hcall)
        obtain rfl := Except.ok.inj hresp
        exact ⟨rfl, rfl, rfl, rfl⟩
      · have hnil : Frugal [] := by
          intro pre req answer post heq
          simp at heq
        exact frugal_snoc hnil fun _ => rfl

/-- Whatever the Registry answers, as long as every tick meets the condition:
after a successful call the task cites the entry that was created or renewed, in
its next request and in the state it shares; it creates no entry while it owns
one; and `cancel` goes to the lease of the entry it owns. -/
theorem selfRegister_cites_owned
    (hstart : start interface attrs host port ttlSeconds answer = .ok first)
    (hid : ∀ resp, answer = .ok resp → resp.capabilityId ≠ "")
    (ticks : List Tick) (r : Renewal) (hrun : run step first ticks = some r)
    (hmeet : StepsMeet step CitesEntry first ticks) :
    r.CitesLast ∧ Frugal r.log ∧
      match owned r.log with
      | some (capabilityId, leaseId) =>
          r.task.Cites capabilityId leaseId ∧
            r.task.cancelTarget = if leaseId = "" then none else some leaseId
      | none => r.task.cancelTarget = none := by
  have hsound : r.InStep ∧ r.CitesLast ∧ Frugal r.log := by
    apply run_invariant_of_stepsMeet
      (P := fun r => r.InStep ∧ r.CitesLast ∧ Frugal r.log) _ _ hrun hmeet
    · exact sound_start _ _ _ _ _ hstart hid
    · rintro r t r' - ⟨hinStep, -, hfrugal⟩ hcites hstep
      exact ⟨hinStep.tick hcites hstep, hinStep.citesLast hcites hstep,
        hinStep.frugal hfrugal hstep⟩
  obtain ⟨hinStep, hlast, hfrugal⟩ := hsound
  refine ⟨hlast, hfrugal, ?_⟩
  cases hinStep with
  | owning c l howned _ hcited =>
      rw [howned]
      refine ⟨hcited, ?_⟩
      rw [SelfRegistration.cancelTarget, hcited.2.2.2]
  | recovering howned _ hlease =>
      rw [howned]
      exact if_pos hlease

end Runs

/-! ## A recovery that succeeds at once, and one that does not -/

def registered (capabilityId leaseId : String) : RegisterAnswer :=
  .ok ⟨capabilityId, some ⟨leaseId, "registry:" ++ capabilityId, 0, 60, 60⟩⟩

def entryGone : RegisterAnswer :=
  .error (capabilityNotFound "cap-1")

def registryDown : RegisterAnswer :=
  .error ⟨.unavailable, "connect error"⟩

def greeter : Renewal :=
  (start "Greeter" ∅ "localhost" 9100 60
    (registered "cap-1" "lease-1")).toOption.get rfl

/-- The entry is found to be gone, and a new one is created and renewed. -/
def goneThenBack : List Tick :=
  [⟨entryGone, registered "cap-2" "lease-2"⟩,
    ⟨registered "cap-2" "lease-2", registryDown⟩]

def greeterBack : Renewal :=
  (run step greeter goneThenBack).get rfl

theorem citesEntry_goneThenBack :
    StepsMeet step CitesEntry greeter goneThenBack := by
  have hcreated : ∀ resp, registered "cap-2" "lease-2" = .ok resp →
      resp.capabilityId ≠ "" ∧
        ∀ l, resp.lease = some l → l.leaseId = "lease-2" := by
    intro resp hok
    obtain rfl := Except.ok.inj hok
    refine ⟨by decide, fun l hl => ?_⟩
    obtain rfl := Option.some.inj hl
    rfl
  refine StepsMeet.cons ⟨?_, ?_⟩ rfl (StepsMeet.cons ⟨?_, ?_⟩ rfl trivial)
  · intro resp hok
    cases hok
  · intro resp hok
    exact (hcreated resp hok).1
  · intro resp hok
    exact ⟨by decide, (hcreated resp hok).2⟩
  · intro resp hok
    cases hok

theorem selfRegister_cites_owned_back :
    owned greeterBack.log = some ("cap-2", "lease-2") ∧
      greeterBack.task.Cites "cap-2" "lease-2" ∧
      greeterBack.task.cancelTarget = some "lease-2" :=
  have hid : ∀ resp, registered "cap-1" "lease-1" = .ok resp →
      resp.capabilityId ≠ "" := by
    intro resp hok
    obtain rfl := Except.ok.inj hok
    decide
  have hstart : start "Greeter" ∅ "localhost" 9100 60
      (registered "cap-1" "lease-1") = .ok greeter := rfl
  ⟨rfl, (selfRegister_cites_owned _ _ _ _ _ hstart hid goneThenBack greeterBack
    (Option.some_get _).symm citesEntry_goneThenBack).2.2⟩

/-- The Registry is down when the entry is to be created again, and then it
is back. -/
def goneThenDown : List Tick :=
  [⟨entryGone, registryDown⟩, ⟨registered "cap-2" "lease-2", registryDown⟩,
    ⟨registered "cap-3" "lease-3", registryDown⟩]

/-- After the second tick the task has created `cap-2` and does not cite it; on
the third tick it creates another entry. -/
theorem second_entry_created :
    ∃ r₂ r₃, run step greeter (goneThenDown.take 2) = some r₂ ∧
      run step greeter goneThenDown = some r₃ ∧
      owned r₂.log = some ("cap-2", "lease-2") ∧
      r₂.task.request.capabilityId = "" ∧
      r₂.task.current.capabilityId = "cap-1" ∧
      r₃.log = r₂.log ++ [(r₂.task.request, registered "cap-3" "lease-3")] ∧
      owned r₃.log = some ("cap-3", "lease-3") :=
  ⟨_, _, rfl, rfl, rfl, rfl, rfl, rfl, rfl⟩

end Renewal

end Coordin8
