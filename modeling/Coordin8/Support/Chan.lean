import Mathlib.Data.List.Basic

/-!
# Buffered channels that may be closed

A Go channel with a buffer of `n` values.  The sender never waits: a send in a
`select` with a `default` branch drops the value when the buffer is full.  The
receiver takes the oldest value, waits while there is none, and learns that the
channel is closed once the buffer is empty.
-/

namespace Coordin8.Support

structure Chan (α : Type*) (n : Nat) where
  buffer : List α
  closed : Bool
  bounded : buffer.length ≤ n
deriving DecidableEq

/-- What a receive finds. -/
inductive Chan.Received (α : Type*) (n : Nat) where
  | value (a : α) (rest : Chan α n)
  | closed
  | waits

namespace Chan

variable {α : Type*} {n : Nat}

def new : Chan α n where
  buffer := []
  closed := false
  bounded := Nat.zero_le n

/-- `select { case ch <- a: default: }`. -/
def trySend (ch : Chan α n) (a : α) : Chan α n :=
  if h : ch.buffer.length < n then
    { ch with
      buffer := ch.buffer ++ [a]
      bounded := by
        rw [List.length_append]
        exact h }
  else
    ch

def close (ch : Chan α n) : Chan α n :=
  { ch with closed := true }

/-- `<-ch`. -/
def receive (ch : Chan α n) : Received α n :=
  match h : ch.buffer with
  | a :: rest =>
      .value a { ch with
        buffer := rest
        bounded := by
          have := ch.bounded
          rw [h, List.length_cons] at this
          omega }
  | [] => if ch.closed then .closed else .waits

theorem buffer_trySend_of_lt {ch : Chan α n} (a : α) (h : ch.buffer.length < n) :
    (ch.trySend a).buffer = ch.buffer ++ [a] := by
  simp [trySend, h]

@[simp] theorem closed_trySend (ch : Chan α n) (a : α) :
    (ch.trySend a).closed = ch.closed := by
  unfold trySend
  split <;> rfl

theorem receive_eq_value {ch rest : Chan α n} {a : α}
    (h : ch.receive = .value a rest) :
    ch.buffer = a :: rest.buffer ∧ rest.closed = ch.closed := by
  unfold receive at h
  split at h
  · next b bs hbuffer =>
    cases h
    exact ⟨hbuffer, rfl⟩
  · split at h <;> cases h

theorem receive_eq_closed {ch : Chan α n} (h : ch.receive = .closed) :
    ch.buffer = [] ∧ ch.closed = true := by
  unfold receive at h
  split at h
  · cases h
  · next hbuffer =>
    split at h
    · next hclosed => exact ⟨hbuffer, hclosed⟩
    · cases h

theorem exists_receive_of_buffer {ch : Chan α n} {a : α} {as : List α}
    (h : ch.buffer = a :: as) : ∃ rest, ch.receive = .value a rest := by
  unfold receive
  split
  · next b bs hbuffer =>
    rw [hbuffer] at h
    obtain ⟨rfl, rfl⟩ := List.cons.inj h
    exact ⟨_, rfl⟩
  · next hbuffer =>
    rw [hbuffer] at h
    cases h

end Chan

end Coordin8.Support
