import Mathlib.Data.List.Basic

/-!
# Broadcast channels

A channel is the list of everything sent on it, oldest first; a receiver is a
position in that list.  The channel keeps the last `capacity` messages: a
receiver that falls further behind is told how many it missed and goes on with
the oldest message kept.
-/

namespace Coordin8.Support

variable {α : Type*}

/-- What a receiver gets: a message, or the number of messages it missed. -/
inductive Recv (α : Type*) where
  | message (a : α)
  | lagged (missed : Nat)
deriving DecidableEq, Repr

/-- The next thing for the receiver at `cursor`, and its new position; nothing
when it is up to date. -/
def recv (capacity : Nat) (sent : List α) (cursor : Nat) :
    Option (Recv α × Nat) :=
  if cursor + capacity < sent.length then
    some (.lagged (sent.length - capacity - cursor), sent.length - capacity)
  else
    sent[cursor]?.map fun a => (.message a, cursor + 1)

def Recv.map {β : Type*} (f : α → β) : Recv α → Recv β
  | .message a => .message (f a)
  | .lagged missed => .lagged missed

section Recv

variable {capacity cursor cursor' : Nat} {sent : List α} {a : α}

theorem recv_map {β : Type*} (f : α → β) :
    recv capacity (sent.map f) cursor =
      (recv capacity sent cursor).map (Prod.map (Recv.map f) id) := by
  unfold recv
  rw [List.length_map]
  split
  · rfl
  · rw [List.getElem?_map, Option.map_map, Option.map_map]
    rfl

theorem recv_eq_none :
    recv capacity sent cursor = none ↔ sent.length ≤ cursor := by
  unfold recv
  split
  · next hlag =>
    have hlt : ¬ sent.length ≤ cursor := by omega
    simp [hlt]
  · simp

theorem recv_eq_message
    (h : recv capacity sent cursor = some (.message a, cursor')) :
    sent[cursor]? = some a ∧ cursor' = cursor + 1 := by
  unfold recv at h
  split at h
  · cases h
  · obtain ⟨b, hb, heq⟩ := Option.map_eq_some_iff.mp h
    obtain ⟨hmessage, rfl⟩ := Prod.mk.inj heq
    obtain rfl := Recv.message.inj hmessage
    exact ⟨hb, rfl⟩

/-- A receiver that is at most `capacity` messages behind misses none. -/
theorem recv_ne_lagged {missed : Nat} (hpace : sent.length ≤ cursor + capacity) :
    recv capacity sent cursor ≠ some (.lagged missed, cursor') := by
  have hnot : ¬ cursor + capacity < sent.length := by omega
  simp [recv, hnot]

theorem recv_lagged_pos {missed : Nat}
    (h : recv capacity sent cursor = some (.lagged missed, cursor')) :
    0 < missed := by
  unfold recv at h
  split at h
  · next hlag =>
    obtain ⟨hmissed, -⟩ := Prod.mk.inj (Option.some.inj h)
    have heq := Recv.lagged.inj hmissed
    omega
  · obtain ⟨a, -, heq⟩ := Option.map_eq_some_iff.mp h
    cases heq

theorem recv_bounds {received : Recv α}
    (h : recv capacity sent cursor = some (received, cursor')) :
    cursor ≤ cursor' ∧ cursor' ≤ sent.length := by
  unfold recv at h
  split at h
  · next hlag =>
    obtain ⟨-, rfl⟩ := Prod.mk.inj (Option.some.inj h)
    omega
  · obtain ⟨b, hb, heq⟩ := Option.map_eq_some_iff.mp h
    obtain ⟨-, rfl⟩ := Prod.mk.inj heq
    have hlt := (List.getElem?_eq_some_iff.mp hb).1
    omega

theorem mem_of_recv
    (h : recv capacity sent cursor = some (.message a, cursor')) :
    a ∈ sent :=
  List.mem_of_getElem? (recv_eq_message h).1

/-- The messages a receiver has not got yet: the next one, and those it has not
got after that. -/
theorem mem_drop_cases {b : α} (hget : sent[cursor]? = some b)
    (ha : a ∈ sent.drop cursor) : a = b ∨ a ∈ sent.drop (cursor + 1) := by
  obtain ⟨hlt, hb⟩ := List.getElem?_eq_some_iff.mp hget
  rw [List.drop_eq_getElem_cons hlt, hb] at ha
  exact List.mem_cons.mp ha

theorem mem_drop_append {more : List α} (hle : cursor ≤ sent.length)
    (ha : a ∈ sent.drop cursor ∨ a ∈ more) :
    a ∈ (sent ++ more).drop cursor := by
  rw [List.drop_append_of_le_length hle]
  exact List.mem_append.mpr ha

end Recv

end Coordin8.Support
