import Mathlib.Data.List.Basic

/-!
# Bounded channels

A channel with one receiver is the list of everything sent on it, oldest first,
the number of messages the receiver has pulled, and whether the receiver is
still there.  A sender waits for room, and fails once the receiver is gone; what
was sent and not pulled is then lost.
-/

namespace Coordin8.Support

structure Mpsc (α : Type*) where
  sent : List α
  received : Nat
  alive : Bool
  received_le : received ≤ sent.length
deriving DecidableEq

/-- What a sender that asks for a slot is told. -/
inductive Mpsc.Slot where
  | room
  | full
  | closed
deriving DecidableEq, Repr

namespace Mpsc

variable {α : Type*}

def new : Mpsc α where
  sent := []
  received := 0
  alive := true
  received_le := Nat.le_refl 0

/-- Whether there is a slot for one more message. -/
def slot (capacity : Nat) (ch : Mpsc α) : Slot :=
  if ch.alive then
    if ch.sent.length < ch.received + capacity then .room else .full
  else
    .closed

def send (ch : Mpsc α) (a : α) : Mpsc α where
  sent := ch.sent ++ [a]
  received := ch.received
  alive := ch.alive
  received_le := by
    rw [List.length_append]
    exact Nat.le_add_right_of_le ch.received_le

/-- The receiver takes the oldest message it has not got, if there is one. -/
def pull (ch : Mpsc α) : Option (Mpsc α) :=
  if h : ch.alive ∧ ch.received < ch.sent.length then
    some {
      sent := ch.sent
      received := ch.received + 1
      alive := ch.alive
      received_le := h.2 }
  else
    none

/-- The receiver is dropped. -/
def disconnect (ch : Mpsc α) : Mpsc α :=
  { ch with alive := false }

/-- The messages the receiver has got. -/
def pulled (ch : Mpsc α) : List α :=
  ch.sent.take ch.received

section Pulled

variable {ch ch' : Mpsc α} {a : α}

@[simp] theorem sent_send : (ch.send a).sent = ch.sent ++ [a] := rfl

@[simp] theorem sent_disconnect : ch.disconnect.sent = ch.sent := rfl

theorem sent_pull (h : ch.pull = some ch') : ch'.sent = ch.sent := by
  unfold pull at h
  split at h
  · obtain rfl := Option.some.inj h
    rfl
  · cases h

@[simp] theorem pulled_send : (ch.send a).pulled = ch.pulled :=
  List.take_append_of_le_length ch.received_le

theorem pulled_subset_pull (h : ch.pull = some ch') :
    ch.pulled ⊆ ch'.pulled := by
  unfold pull at h
  split at h
  · obtain rfl := Option.some.inj h
    exact List.take_subset_take_left _ (Nat.le_succ _)
  · cases h

/-- A channel for one message has room only when everything sent on it has been
pulled. -/
theorem pulled_eq_sent (h : ch.slot 1 = .room) : ch.pulled = ch.sent := by
  unfold slot at h
  split at h
  · split at h
    · next hroom => exact List.take_of_length_le (Nat.le_of_lt_succ hroom)
    · cases h
  · cases h

end Pulled

end Mpsc

end Coordin8.Support
