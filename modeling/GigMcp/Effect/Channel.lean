import Mathlib.Data.List.Basic

/-!
# Buffered channels

A channel with a buffer, as Go has them: a send that does not block is dropped when the
buffer is full, a receive takes the oldest element and reports the end once the channel is
closed and drained, and to send on a closed channel, or to close it again, panics.  That it
was misused in one of these two ways is noted.
-/

namespace GigMcp.Effect

variable {α : Type}

/-- A buffered channel. -/
structure Chan (α : Type) where
  /-- What was sent and not received, the oldest first. -/
  queue : List α
  closed : Bool
  /-- It was sent on or closed when it was closed. -/
  misused : Bool

/-- What becomes of a send that does not block. -/
inductive Sending
  | sent
  | full
  | panics
deriving DecidableEq

namespace Chan

def fresh : Chan α := ⟨[], false, false⟩

/-- Send, unless the buffer is full. -/
def trySend (cap : ℕ) (c : Chan α) (a : α) : Sending × Chan α :=
  if c.closed then (.panics, { c with misused := true })
  else if c.queue.length < cap then (.sent, { c with queue := c.queue ++ [a] })
  else (.full, c)

def close (c : Chan α) : Chan α :=
  if c.closed then { c with misused := true } else { c with closed := true }

/-- A receive; on an open channel with nothing in it there is none. -/
def receive (c : Chan α) : Option (Option α × Chan α) :=
  match c.queue with
  | a :: rest => some (some a, { c with queue := rest })
  | [] => if c.closed then some (none, c) else none

variable {c c' : Chan α} {a : α}

theorem trySend_of_open (cap : ℕ) (h : c.closed = false) (a : α) :
    c.trySend cap a = (.sent, { c with queue := c.queue ++ [a] }) ∨
      c.trySend cap a = (.full, c) := by
  rw [trySend, h, if_neg Bool.false_ne_true]
  split
  · exact .inl rfl
  · exact .inr rfl

theorem close_of_open (h : c.closed = false) : c.close = { c with closed := true } := by
  rw [close, h, if_neg Bool.false_ne_true]

theorem receive_eq_some (h : c.receive = some (some a, c')) :
    ∃ rest, c.queue = a :: rest ∧ c' = { c with queue := rest } := by
  unfold receive at h
  split at h
  · rename_i b rest hq
    obtain ⟨hb, rfl⟩ := Prod.mk.inj (Option.some.inj h)
    exact ⟨rest, Option.some.inj hb ▸ hq, rfl⟩
  · split at h
    · cases h
    · cases h

theorem receive_eq_none (h : c.receive = some (none, c')) :
    c.queue = [] ∧ c.closed = true ∧ c' = c := by
  unfold receive at h
  split at h
  · cases h
  · rename_i hq
    split at h
    · rename_i hclosed
      cases h
      exact ⟨hq, hclosed, rfl⟩
    · cases h

end Chan

end GigMcp.Effect
