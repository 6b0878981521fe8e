import Coordin8.Core.Records

/-!
# The in-memory transaction store

`InMemoryTxnStore` of the local provider.  A compare-and-set and an enlistment
hold the record's lock throughout, so each is one atomic call.
-/

namespace Coordin8

open Support

structure InMemoryTxnStore where
  records : DashMap String TransactionRecord
deriving DecidableEq

namespace InMemoryTxnStore

def new : InMemoryTxnStore where
  records := ∅

def create (s : InMemoryTxnStore) (record : TransactionRecord) :
    InMemoryTxnStore :=
  { records := s.records.insert record.txnId record }

def get (s : InMemoryTxnStore) (txnId : String) : Option TransactionRecord :=
  s.records[txnId]?

/-- Move the state from `expected` to `new`; `false` when it is another. -/
def updateStateIf (s : InMemoryTxnStore) (txnId : String)
    (expected new : TransactionState) :
    Except Error (Bool × InMemoryTxnStore) :=
  match s.records[txnId]? with
  | none => .error (.transactionNotFound txnId)
  | some r =>
      if r.state = expected then
        .ok (true, { records := s.records.insert txnId { r with state := new } })
      else
        .ok (false, s)

/-- Add a participant while the transaction is active. -/
def addParticipant (s : InMemoryTxnStore) (txnId : String)
    (participant : ParticipantRecord) : Except Error InMemoryTxnStore :=
  match s.records[txnId]? with
  | none => .error (.transactionNotFound txnId)
  | some r =>
      if r.state ≠ .active then
        .error (.transactionTerminal txnId)
      else
        .ok {
          records := s.records.insert txnId
            { r with participants := r.participants ++ [participant] } }

variable {s s' : InMemoryTxnStore} {txnId : String}

theorem updateStateIf_cases (s : InMemoryTxnStore) (txnId : String)
    (expected new : TransactionState) :
    (∃ r, s.records[txnId]? = some r ∧ r.state = expected ∧
      s.updateStateIf txnId expected new = .ok (true,
        ⟨s.records.insert txnId { r with state := new }⟩)) ∨
    (∃ r, s.records[txnId]? = some r ∧ r.state ≠ expected ∧
      s.updateStateIf txnId expected new = .ok (false, s)) ∨
    (s.records[txnId]? = none ∧ s.updateStateIf txnId expected new =
      .error (.transactionNotFound txnId)) := by
  unfold updateStateIf
  cases hr : s.records[txnId]? with
  | none => exact Or.inr (Or.inr ⟨rfl, rfl⟩)
  | some r =>
      by_cases hstate : r.state = expected
      · exact Or.inl ⟨r, rfl, hstate, by simp [hstate]⟩
      · exact Or.inr (Or.inl ⟨r, rfl, hstate, by simp [hstate]⟩)

theorem addParticipant_eq_ok {participant : ParticipantRecord}
    (h : s.addParticipant txnId participant = .ok s') :
    ∃ r, s.records[txnId]? = some r ∧ r.state = .active ∧
      s' = ⟨s.records.insert txnId
        { r with participants := r.participants ++ [participant] }⟩ := by
  unfold addParticipant at h
  cases hr : s.records[txnId]? with
  | none => simp [hr] at h
  | some r =>
      simp only [hr] at h
      split at h
      · cases h
      · next hactive =>
        exact ⟨r, rfl, by simpa using hactive, (Except.ok.inj h).symm⟩

end InMemoryTxnStore

end Coordin8
