import Coordin8.Support.DashMap

/-!
# Records shared by the services

The data types of `coordin8-core`: errors, leases and their negotiation,
transactions, tuples, events and registry entries; and the gRPC statuses the
services answer with.  Times are nanoseconds since the Unix epoch, lease
terms are whole seconds in 64 bits.
-/

namespace Coordin8

open Support

/-- A `DateTime<Utc>`, in nanoseconds since the epoch. -/
abbrev Timestamp := Int

/-- One second in nanoseconds. -/
def second : Int := 10 ^ 9

/-- `DateTime::timestamp`: whole seconds, rounded down. -/
def timestamp (time : Timestamp) : Int :=
  time / second

/-- `HashMap<String, String>`, the attributes of a tuple and the fields of a
template. -/
abbrev Attrs := DashMap String String

inductive Error where
  | leaseNotFound (id : String)
  | leaseExpired (id : String)
  | resourceNotFound (id : String)
  | noMatch
  | storage (msg : String)
  | subscriptionNotFound (id : String)
  | subscriptionExpired (id : String)
  | transactionNotFound (id : String)
  | transactionTerminal (id : String)
  | transactionAborted (id : String)
  | transactionCommitInProgress (id : String)
  | transactionOutcomeUnknown (id : String)
  | tupleNotFound (id : String)
  | watchNotFound (id : String)
  | internal (msg : String)
  | invalidArgument (msg : String)
  | permissionDenied (msg : String)
  | unavailable (msg : String)
deriving DecidableEq, Repr

/-- The text of an error. -/
def Error.display : Error → String
  | .leaseNotFound id => "lease not found: " ++ id
  | .leaseExpired id => "lease expired: " ++ id
  | .resourceNotFound id => "resource not found: " ++ id
  | .noMatch => "no match found for template"
  | .storage msg => "storage error: " ++ msg
  | .subscriptionNotFound id => "subscription not found: " ++ id
  | .subscriptionExpired id => "subscription expired: " ++ id
  | .transactionNotFound id => "transaction not found: " ++ id
  | .transactionTerminal id => "transaction in terminal state: " ++ id
  | .transactionAborted id => "transaction aborted: " ++ id
  | .transactionCommitInProgress id =>
      "transaction commit already in progress: " ++ id
  | .transactionOutcomeUnknown id =>
      "transaction commit outcome unknown: " ++ id
  | .tupleNotFound id => "tuple not found: " ++ id
  | .watchNotFound id => "watch not found: " ++ id
  | .internal msg => "internal error: " ++ msg
  | .invalidArgument msg => "invalid argument: " ++ msg
  | .permissionDenied msg => "permission denied: " ++ msg
  | .unavailable msg => "unavailable: " ++ msg

/-! ## Leases -/

/-- The client defers to the server's preferred term. -/
def leaseAny : UInt64 := 0

/-- The client asks for a lease without end. -/
def leaseForever : UInt64 := 0xFFFFFFFFFFFFFFFF

/-- Largest finite term the server grants. -/
def maxRepresentableTtlSecs : UInt64 := 100 * 365 * 24 * 60 * 60

/-- `DateTime::<Utc>::MAX_UTC`, the last nanosecond of the year 262142. -/
def maxUtc : Timestamp := 8210266876799 * 10 ^ 9 + 999999999

/-- `DateTime::<Utc>::MIN_UTC`, the first nanosecond of the year -262143. -/
def minUtc : Timestamp := -8334601228800 * 10 ^ 9

/-- `from + ttl_secs`, or nothing when the term is not a `TimeDelta` (which
counts milliseconds in 64 bits) or the sum is not a `DateTime`. -/
def checkedExpiry (start : Timestamp) (ttlSecs : UInt64) : Option Timestamp :=
  if ttlSecs.toNat ≤ (2 ^ 63 - 1) / 1000 then
    let expiry := start + ttlSecs.toNat * 10 ^ 9
    if expiry ≤ maxUtc then some expiry else none
  else
    none

structure LeaseRecord where
  leaseId : String
  resourceId : String
  grantedAt : Timestamp
  expiresAt : Timestamp
  ttlSeconds : UInt64
deriving DecidableEq, Repr

/-- Expiry at the time `now`; a lease without end never expires. -/
def LeaseRecord.isExpired (r : LeaseRecord) (now : Timestamp) : Bool :=
  if r.ttlSeconds = leaseForever then false else decide (r.expiresAt ≤ now)

/-- Server-side lease policy; `maxTtl = none` sets no cap. -/
structure LeaseConfig where
  maxTtl : Option UInt64
  preferredTtl : UInt64
deriving DecidableEq, Repr

def LeaseConfig.default : LeaseConfig where
  maxTtl := some 3600
  preferredTtl := 300

/-- The term granted for a requested one. -/
def LeaseConfig.negotiate (c : LeaseConfig) (requested : UInt64) : UInt64 :=
  if requested = leaseAny then
    c.preferredTtl
  else if requested = leaseForever then
    match c.maxTtl with
    | none => leaseForever
    | some cap => cap
  else
    match c.maxTtl with
    | none =>
        if maxRepresentableTtlSecs < requested then leaseForever
        else requested
    | some cap => min requested cap

inductive ReclaimReason where
  | expired
  | cancelled
deriving DecidableEq, Repr

structure LeaseReclaimed where
  record : LeaseRecord
  reason : ReclaimReason
deriving DecidableEq, Repr

/-! ## Transactions -/

inductive TransactionState where
  | active
  | voting
  | prepared
  | committed
  | aborted
deriving DecidableEq, Repr

inductive PrepareVote where
  | prepared
  | notChanged
  | aborted
deriving DecidableEq, Repr

structure ParticipantRecord where
  endpoint : String
  crashCount : UInt64
deriving DecidableEq, Repr

structure TransactionRecord where
  txnId : String
  leaseId : String
  state : TransactionState
  participants : List ParticipantRecord
  begunAt : Timestamp
deriving DecidableEq, Repr

/-! ## Tuples -/

structure TupleRecord where
  tupleId : String
  attrs : Attrs
  payload : List UInt8
  leaseId : String
  writtenBy : String
  writtenAt : Timestamp
  inputTupleId : Option String
deriving DecidableEq

inductive SpaceEventKind where
  | appearance
  | expiration
deriving DecidableEq, Repr

structure SpaceWatchRecord where
  watchId : String
  template : Attrs
  on : SpaceEventKind
  leaseId : String
  handback : List UInt8
deriving DecidableEq

/-! ## Events

Sequence numbers count events one by one from zero; the source keeps them in 64
bits, which no run fills, so they are natural numbers here. -/

structure EventRecord where
  eventId : String
  source : String
  eventType : String
  seqNum : Nat
  attrs : Attrs
  payload : List UInt8
  emittedAt : Timestamp
deriving DecidableEq

inductive DeliveryMode where
  | durable
  | bestEffort
deriving DecidableEq, Repr

structure SubscriptionRecord where
  registrationId : String
  source : String
  template : Attrs
  delivery : DeliveryMode
  leaseId : String
  handback : List UInt8
  initialSeqNum : Nat
deriving DecidableEq

/-! ## Registry entries -/

structure TransportConfig where
  transportType : String
  config : Attrs
deriving DecidableEq

structure RegistryEntry where
  capabilityId : String
  leaseId : String
  interface : String
  attrs : Attrs
  transport : Option TransportConfig
deriving DecidableEq

/-! ## Statuses -/

inductive Code where
  | unavailable
  | notFound
  | failedPrecondition
  | invalidArgument
  | permissionDenied
  | unauthenticated
  | dataLoss
  | internal
deriving DecidableEq, Repr

/-- A gRPC status. -/
structure Status where
  code : Code
  message : String
deriving DecidableEq, Repr

end Coordin8
