import Coordin8.Core.Records

/-!
# The in-memory event store

`InMemoryEventStore` of the local provider: the subscriptions, and one mailbox
for each of them.  A mailbox numbers what is put into it; its numbers only grow,
so an acknowledged number is never given out again.  Each trait operation is a
function from the store to its result and the store after it.
-/

namespace Coordin8

open Support

/-- A call of the `EventStore` trait. -/
inductive EventOp where
  | createSubscription (sub : SubscriptionRecord)
  | getSubscription (registrationId : String)
  | removeSubscription (registrationId : String)
  | removeByLease (leaseId : String)
  | listSubscriptions
  | enqueue (registrationId : String) (event : EventRecord)
  | peek (registrationId : String) (afterSeq limit : Nat)
  | ack (registrationId : String) (seqNums : List Nat)
deriving DecidableEq

/-- What a call of the trait returns when it succeeds. -/
@[reducible]
def EventOp.Payload : EventOp → Type
  | .createSubscription _ | .removeSubscription _ | .ack .. => Unit
  | .getSubscription _ | .removeByLease _ => Option SubscriptionRecord
  | .listSubscriptions => List SubscriptionRecord
  | .enqueue .. => Nat
  | .peek .. => List EventRecord

/-- What a call of the trait returns. -/
abbrev EventOp.Result (op : EventOp) := Except Error op.Payload

structure Mailbox where
  lastSeq : Nat
  entries : DashMap Nat EventRecord
deriving DecidableEq

namespace Mailbox

def empty : Mailbox where
  lastSeq := 0
  entries := ∅

/-- Number an event and file it. -/
def push (box : Mailbox) (event : EventRecord) : Mailbox where
  lastSeq := box.lastSeq + 1
  entries := box.entries.insert (box.lastSeq + 1)
    { event with seqNum := box.lastSeq + 1 }

/-- The first `limit` entries with a number above `afterSeq`, in order. -/
def after (box : Mailbox) (afterSeq limit : Nat) : List EventRecord :=
  ((box.entries.toList.filter fun e => afterSeq < e.1).take limit).map Prod.snd

def drop (box : Mailbox) (seqNums : List Nat) : Mailbox :=
  { box with entries := DashMap.eraseAll id box.entries seqNums }

end Mailbox

/-- An order in which a scan visits the subscriptions. -/
abbrev SubscriptionIteration := Iteration String SubscriptionRecord

structure InMemoryEventStore where
  subscriptions : DashMap String SubscriptionRecord
  mailboxes : DashMap String Mailbox
deriving DecidableEq

namespace InMemoryEventStore

def new : InMemoryEventStore where
  subscriptions := ∅
  mailboxes := ∅

def createSubscription (s : InMemoryEventStore) (sub : SubscriptionRecord) :
    InMemoryEventStore where
  subscriptions := s.subscriptions.insert sub.registrationId sub
  mailboxes := s.mailboxes.insert sub.registrationId .empty

def removeSubscription (s : InMemoryEventStore) (registrationId : String) :
    InMemoryEventStore where
  subscriptions := s.subscriptions.erase registrationId
  mailboxes := s.mailboxes.erase registrationId

def removeByLease (s : InMemoryEventStore) (it : SubscriptionIteration)
    (leaseId : String) : Option SubscriptionRecord × InMemoryEventStore :=
  match (it.entries s.subscriptions).find? fun e => e.2.leaseId == leaseId with
  | none => (none, s)
  | some (registrationId, _) =>
      (s.subscriptions[registrationId]?, s.removeSubscription registrationId)

def listSubscriptions (s : InMemoryEventStore) (it : SubscriptionIteration) :
    List SubscriptionRecord :=
  (it.entries s.subscriptions).map Prod.snd

def enqueue (s : InMemoryEventStore) (registrationId : String)
    (event : EventRecord) : Except Error Nat × InMemoryEventStore :=
  match s.mailboxes[registrationId]? with
  | some box =>
      (.ok (box.lastSeq + 1),
        { s with
          mailboxes := s.mailboxes.insert registrationId (box.push event) })
  | none => (.error (.subscriptionNotFound registrationId), s)

def peek (s : InMemoryEventStore) (registrationId : String)
    (afterSeq limit : Nat) : List EventRecord :=
  match s.mailboxes[registrationId]? with
  | some box => box.after afterSeq limit
  | none => []

def ack (s : InMemoryEventStore) (registrationId : String)
    (seqNums : List Nat) : InMemoryEventStore :=
  match s.mailboxes[registrationId]? with
  | some box =>
      { s with
        mailboxes := s.mailboxes.insert registrationId (box.drop seqNums) }
  | none => s

/-- One atomic call of the trait. -/
def exec (s : InMemoryEventStore) (it : SubscriptionIteration) :
    (op : EventOp) → op.Result × InMemoryEventStore
  | .createSubscription sub => (.ok (), s.createSubscription sub)
  | .getSubscription registrationId =>
      (.ok s.subscriptions[registrationId]?, s)
  | .removeSubscription registrationId =>
      (.ok (), s.removeSubscription registrationId)
  | .removeByLease leaseId =>
      let (sub, s) := s.removeByLease it leaseId
      (.ok sub, s)
  | .listSubscriptions => (.ok (s.listSubscriptions it), s)
  | .enqueue registrationId event => s.enqueue registrationId event
  | .peek registrationId afterSeq limit =>
      (.ok (s.peek registrationId afterSeq limit), s)
  | .ack registrationId seqNums => (.ok (), s.ack registrationId seqNums)

end InMemoryEventStore

end Coordin8
