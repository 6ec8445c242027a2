import Coauthor.Table
import Coauthor.Identifier

/-!
# Subscriptions

Whoever subscribes to a topic gets a stream of its own: the items sent to the topic
wait there until they are taken.  A stream ends when the sender gives the
subscription up, once the items sent before have been taken, and is gone when its
reader hangs up.
-/

namespace Coauthor

abbrev SubscriptionId := Nat

structure Subscription (Topic Item : Type) where
  topic : Topic
  client : ClientId
  /-- Items that have not been taken, oldest first. -/
  items : List Item
  /-- The sender has not given the subscription up. -/
  active : Bool
  deriving Repr

structure Subscriptions (Topic Item : Type) where
  table : Table SubscriptionId (Subscription Topic Item)
  /-- The id of the next subscription. -/
  next : SubscriptionId
  deriving Repr

namespace Subscriptions

variable {Topic Item : Type} [DecidableEq Topic]

def empty : Subscriptions Topic Item := { table := ∅, next := 0 }

instance : Inhabited (Subscriptions Topic Item) := ⟨empty⟩

instance : EmptyCollection (Subscriptions Topic Item) := ⟨empty⟩

def mapAll (subscriptions : Subscriptions Topic Item)
    (change : Subscription Topic Item → Subscription Topic Item) : Subscriptions Topic Item :=
  { subscriptions with table := subscriptions.table.mapValues fun _ => change }

/-- Gives up every subscription that passes the test. -/
def release (subscriptions : Subscriptions Topic Item) (test : Topic → ClientId → Bool) :
    Subscriptions Topic Item :=
  subscriptions.mapAll fun subscription =>
    if test subscription.topic subscription.client then { subscription with active := false }
    else subscription

/-- Gives up the subscription of one client to one topic. -/
def unsubscribe (subscriptions : Subscriptions Topic Item) (topic : Topic) (client : ClientId) :
    Subscriptions Topic Item :=
  subscriptions.release fun other name => other = topic && name = client

/-- Gives up every subscription of a client. -/
def detach (subscriptions : Subscriptions Topic Item) (client : ClientId) :
    Subscriptions Topic Item :=
  subscriptions.release fun _ name => name = client

/-- Gives up every subscription to a topic. -/
def close (subscriptions : Subscriptions Topic Item) (topic : Topic) :
    Subscriptions Topic Item :=
  subscriptions.release fun other _ => other = topic

/-- Opens a stream; an earlier one of the same client to the same topic is given up. -/
def subscribe (subscriptions : Subscriptions Topic Item) (topic : Topic) (client : ClientId) :
    Subscriptions Topic Item × SubscriptionId :=
  let subscriptions := subscriptions.unsubscribe topic client
  ({ table := subscriptions.table.insert subscriptions.next
      { topic, client, items := [], active := true }
     next := subscriptions.next + 1 },
    subscriptions.next)

/-- Sends an item to the subscribers of a topic that pass the test. -/
def sendTo (subscriptions : Subscriptions Topic Item) (topic : Topic) (test : ClientId → Bool)
    (item : Item) : Subscriptions Topic Item :=
  subscriptions.mapAll fun subscription =>
    if subscription.active && subscription.topic = topic && test subscription.client then
      { subscription with items := subscription.items ++ [item] }
    else subscription

/-- Sends an item to all subscribers of a topic. -/
def send (subscriptions : Subscriptions Topic Item) (topic : Topic) (item : Item) :
    Subscriptions Topic Item :=
  subscriptions.sendTo topic (fun _ => true) item

/-- Takes what waits in a stream, and tells whether that was the end of it. -/
def poll (subscriptions : Subscriptions Topic Item) (id : SubscriptionId) :
    Subscriptions Topic Item × List Item × Bool :=
  match subscriptions.table.get? id with
  | none => (subscriptions, [], true)
  | some subscription =>
      let emptied := { subscription with items := [] }
      ({ subscriptions with table := subscriptions.table.insert id emptied },
        subscription.items, !subscription.active)

/-- What a reader finds at the front of a stream. -/
inductive Front (Item : Type) where
  | item (item : Item)
  /-- Nothing yet. -/
  | pending
  | ended
  deriving DecidableEq, Repr, Inhabited

/-- Takes the first item of a stream. -/
def take (subscriptions : Subscriptions Topic Item) (id : SubscriptionId) :
    Subscriptions Topic Item × Front Item :=
  match subscriptions.table.get? id with
  | none => (subscriptions, .ended)
  | some subscription =>
      match subscription.items with
      | [] => (subscriptions, if subscription.active then .pending else .ended)
      | item :: rest =>
          ({ subscriptions with
              table := subscriptions.table.insert id { subscription with items := rest } },
            .item item)

/-- A reader of the stream need not wait. -/
def hasNews (subscriptions : Subscriptions Topic Item) (id : SubscriptionId) : Bool :=
  match subscriptions.table.get? id with
  | none => true
  | some subscription => !subscription.items.isEmpty || !subscription.active

/-- Removes a stream whose reader is gone. -/
def hangUp (subscriptions : Subscriptions Topic Item) (id : SubscriptionId) :
    Subscriptions Topic Item :=
  { subscriptions with table := subscriptions.table.erase id }

end Subscriptions

end Coauthor
