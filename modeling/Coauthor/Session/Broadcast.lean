/-!
# Broadcasts

A channel that keeps a limited number of the latest items for a reader, and counts
those that it had to drop.
-/

namespace Coauthor

structure Broadcast (Item : Type) where
  capacity : Nat
  /-- The items kept, oldest first. -/
  items : List Item
  /-- How many items were dropped since the last reading. -/
  dropped : Nat
  deriving Repr, Inhabited

namespace Broadcast

variable {Item : Type}

/-- The capacity is rounded up to a power of two. -/
def start (capacity : Nat) : Broadcast Item :=
  { capacity := capacity.nextPowerOfTwo, items := [], dropped := 0 }

def send (broadcast : Broadcast Item) (item : Item) : Broadcast Item :=
  if broadcast.items.length < broadcast.capacity then
    { broadcast with items := broadcast.items ++ [item] }
  else
    { broadcast with
      items := broadcast.items.tail ++ [item], dropped := broadcast.dropped + 1 }

/-- Takes what is kept, and the number of items that were lost. -/
def takeAll (broadcast : Broadcast Item) : Broadcast Item × Nat × List Item :=
  ({ broadcast with items := [], dropped := 0 }, broadcast.dropped, broadcast.items)

end Broadcast

end Coauthor
