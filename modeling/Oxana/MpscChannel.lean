import Mathlib.Data.List.Basic

/-!
A bounded channel with one receiver.  A message is accepted when a send of it succeeds;
the accepted messages are those already received followed by those still buffered, so
that receiving one changes nothing about them.
-/

structure MpscChannel (α : Type) where
  capacity : Nat
  received : List α
  buffered : List α
  closed : Bool
  bounded : buffered.length ≤ capacity

namespace MpscChannel

variable {α : Type}

def new (capacity : Nat) : MpscChannel α where
  capacity := capacity
  received := []
  buffered := []
  closed := false
  bounded := Nat.zero_le _

def accepted (channel : MpscChannel α) : List α :=
  channel.received ++ channel.buffered

/-- The state of a send: a full channel keeps the sender waiting, a closed one hands the
message back. -/
inductive Sending (α : Type)
  | sent (channel : MpscChannel α)
  | waiting
  | refused (message : α)

def send (channel : MpscChannel α) (message : α) : Sending α :=
  if channel.closed then .refused message
  else if room : channel.buffered.length < channel.capacity then
    .sent { channel with
      buffered := channel.buffered ++ [message]
      bounded := by
        rw [List.length_append, List.length_singleton]
        exact room }
  else .waiting

/-- The state of a receive: `closed` is the `None` after the last message. -/
inductive Receiving (α : Type)
  | message (message : α) (channel : MpscChannel α)
  | waiting
  | closed

/-- `connected` tells whether a sender is left. -/
def recv (channel : MpscChannel α) (connected : Bool) : Receiving α :=
  match buffer : channel.buffered with
  | message :: rest =>
      .message message { channel with
        received := channel.received ++ [message]
        buffered := rest
        bounded := by
          have bounded := channel.bounded
          rw [buffer, List.length_cons] at bounded
          omega }
  | [] => if channel.closed || !connected then .closed else .waiting

def close (channel : MpscChannel α) : MpscChannel α :=
  { channel with closed := true }

variable {channel after : MpscChannel α} {message returned : α} {connected : Bool}

@[simp] theorem accepted_new (capacity : Nat) : (new capacity : MpscChannel α).accepted = [] := rfl

@[simp] theorem accepted_close (channel : MpscChannel α) :
    channel.close.accepted = channel.accepted := rfl

theorem send_sent (sent : channel.send message = .sent after) :
    channel.closed = false ∧ after.received = channel.received ∧
      after.buffered = channel.buffered ++ [message] ∧ after.closed = false ∧
      after.capacity = channel.capacity := by
  unfold send at sent
  split at sent
  · cases sent
  · rename_i unclosed
    split at sent
    · cases sent
      exact ⟨by simpa using unclosed, rfl, rfl, by simpa using unclosed, rfl⟩
    · cases sent

theorem accepted_send (sent : channel.send message = .sent after) :
    after.accepted = channel.accepted ++ [message] := by
  obtain ⟨_, received, buffered, _⟩ := send_sent sent
  rw [accepted, accepted, received, buffered, List.append_assoc]

theorem send_refused (refused : channel.send message = .refused returned) :
    returned = message ∧ channel.closed = true := by
  unfold send at refused
  split at refused
  · rename_i closed
    cases refused
    exact ⟨rfl, closed⟩
  · split at refused <;> cases refused

theorem recv_message (got : channel.recv connected = .message message after) :
    channel.buffered = message :: after.buffered ∧
      after.received = channel.received ++ [message] ∧ after.closed = channel.closed ∧
      after.capacity = channel.capacity := by
  unfold recv at got
  split at got
  · rename_i first rest buffer
    cases got
    exact ⟨buffer, rfl, rfl, rfl⟩
  · split at got <;> cases got

theorem accepted_recv (got : channel.recv connected = .message message after) :
    after.accepted = channel.accepted := by
  obtain ⟨buffered, received, _⟩ := recv_message got
  rw [accepted, accepted, received, buffered, List.append_assoc]
  rfl

theorem recv_of_cons {rest : List α} (buffer : channel.buffered = message :: rest)
    (connected : Bool) :
    ∃ after, channel.recv connected = .message message after ∧ after.buffered = rest := by
  unfold recv
  split
  · rename_i first others found
    rw [buffer] at found
    cases found
    exact ⟨_, rfl, rfl⟩
  · rename_i empty
    rw [buffer] at empty
    cases empty

theorem recv_closed (ended : channel.recv connected = .closed) :
    channel.buffered = [] ∧ (channel.closed = true ∨ connected = false) := by
  unfold recv at ended
  split at ended
  · cases ended
  · rename_i empty
    split at ended
    · rename_i none
      exact ⟨empty, by simpa using none⟩
    · cases ended

theorem send_new {capacity : Nat} (room : 0 < capacity) (message : α) :
    ∃ after, (new capacity).send message = .sent after := by
  have empty : (new capacity : MpscChannel α).buffered.length < capacity := room
  exact ⟨_, (if_neg (by simp [new])).trans (dif_pos empty)⟩

end MpscChannel
