import CallArchive.Store.Table

/-!
# Notifications

For each record that has been committed a notification goes out. A `Notifier` says what its three
steps do to a state of its own; a delivery may be refused, and it may break the worker that makes
it. `Channel` is a queue of bounded length between a sender and a receiver.
-/

namespace CallArchive.Ingest

open Store (RowId)

structure Notification where
  product : String
  forge : String
  version : String
  generator : String
  packageId : RowId
  versionId : RowId
  deriving DecidableEq, Repr

/-- What became of a notification. -/
inductive Delivery where
  | delivered
  | refused (reason : String)
  | blocked
  | crashed
  deriving DecidableEq, Repr

structure Notifier (ν : Type) where
  start : ν → Except String Unit × ν
  notify : Notification → ν → Delivery × ν
  close : ν → Except String Unit × ν

namespace Notifier

/-- Drops every notification. -/
def silent : Notifier ν :=
  { start := fun s => (.ok (), s)
    notify := fun _ s => (.delivered, s)
    close := fun s => (.ok (), s) }

end Notifier

structure Channel where
  capacity : Nat
  queue : List Notification
  senderOpen : Bool
  receiverOpen : Bool
  deriving DecidableEq, Repr

/-- What the receiver finds without waiting. -/
inductive Received where
  | item (n : Notification)
  | nothing
  | closed
  | noReceiver
  deriving DecidableEq, Repr

namespace Channel

/-- A channel holds at least one notification. -/
def new (capacity : Nat) : Channel := ⟨max capacity 1, [], true, true⟩

def send (n : Notification) (c : Channel) : Delivery × Channel :=
  if !c.senderOpen then (.refused "notifier is closed", c)
  else if !c.receiverOpen then (.refused "receiver dropped", c)
  else if c.capacity ≤ c.queue.length then (.blocked, c)
  else (.delivered, { c with queue := c.queue ++ [n] })

def receive (c : Channel) : Received × Channel :=
  if !c.receiverOpen then (.noReceiver, c)
  else
    match c.queue with
    | n :: rest => (.item n, { c with queue := rest })
    | [] => (if c.senderOpen then .nothing else .closed, c)

def dropReceiver (c : Channel) : Channel := { c with receiverOpen := false, queue := [] }

def closeSender (c : Channel) : Channel := { c with senderOpen := false }

def notifier : Notifier Channel :=
  { start := fun c => (.ok (), c), notify := send, close := fun c => (.ok (), c.closeSender) }

theorem queue_send {n : Notification} {c : Channel} (h : (c.send n).1 = .delivered) :
    (c.send n).2.queue = c.queue ++ [n] := by
  by_cases hs : c.senderOpen
  · by_cases hr : c.receiverOpen
    · by_cases hc : c.capacity ≤ c.queue.length
      · simp [send, hs, hr, hc] at h
      · simp [send, hs, hr, hc]
    · simp_all [send]
  · simp_all [send]

end Channel

end CallArchive.Ingest
