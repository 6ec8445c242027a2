import Coauthor.Subscription
import Mathlib.Tactic.Common

/-!
# What waits in a stream

An item waits only in streams that it was sent to, and a stream keeps its topic and its client.
What holds of every item when it is sent therefore holds of every item that is taken.
-/

namespace Coauthor.Subscriptions

variable {Topic Item : Type} {subscriptions taken : Subscriptions Topic Item}
  {Meets Holds : Topic → ClientId → Item → Prop} {id : SubscriptionId} {topic other : Topic}
  {client name : ClientId} {item : Item}

/-- Every item that waits for a client meets what is asked of the items of its topic. -/
def Carries (subscriptions : Subscriptions Topic Item) (Meets : Topic → ClientId → Item → Prop) :
    Prop :=
  ∀ id subscription, subscriptions.table.get? id = some subscription →
    ∀ item ∈ subscription.items, Meets subscription.topic subscription.client item

/-- The stream has been opened by this client for this topic. -/
structure Belongs (subscriptions : Subscriptions Topic Item) (id : SubscriptionId) (topic : Topic)
    (client : ClientId) : Prop where
  opened : id < subscriptions.next
  owned : ∀ subscription, subscriptions.table.get? id = some subscription →
    subscription.topic = topic ∧ subscription.client = client

theorem carries_empty : (empty : Subscriptions Topic Item).Carries Meets := by
  intro id subscription hsome
  cases hsome

theorem Carries.mono (h : subscriptions.Carries Meets)
    (himp : ∀ topic client item, Meets topic client item → Holds topic client item) :
    subscriptions.Carries Holds :=
  fun id subscription hsome item hmem => himp _ _ _ (h id subscription hsome item hmem)

/-! ## Changing all streams -/

theorem Carries.mapAll {change : Subscription Topic Item → Subscription Topic Item}
    (h : subscriptions.Carries Meets)
    (hchange : ∀ subscription, (∀ item ∈ subscription.items,
        Meets subscription.topic subscription.client item) →
      ∀ item ∈ (change subscription).items,
        Meets (change subscription).topic (change subscription).client item) :
    (subscriptions.mapAll change).Carries Meets := by
  intro id subscription hsome
  rw [Subscriptions.mapAll, Table.get?_mapValues] at hsome
  obtain ⟨old, hold, rfl⟩ := Option.map_eq_some_iff.mp hsome
  exact hchange old (h id old hold)

theorem Belongs.mapAll {change : Subscription Topic Item → Subscription Topic Item}
    (h : subscriptions.Belongs id topic client)
    (hchange : ∀ subscription, (change subscription).topic = subscription.topic ∧
      (change subscription).client = subscription.client) :
    (subscriptions.mapAll change).Belongs id topic client where
  opened := h.opened
  owned := by
    intro subscription hsome
    rw [Subscriptions.mapAll, Table.get?_mapValues] at hsome
    obtain ⟨old, hold, rfl⟩ := Option.map_eq_some_iff.mp hsome
    rw [(hchange old).1, (hchange old).2]
    exact h.owned old hold

theorem Carries.release (h : subscriptions.Carries Meets) (test : Topic → ClientId → Bool) :
    (subscriptions.release test).Carries Meets :=
  h.mapAll fun subscription hitems => by split <;> exact hitems

theorem Belongs.release (h : subscriptions.Belongs id topic client)
    (test : Topic → ClientId → Bool) : (subscriptions.release test).Belongs id topic client :=
  h.mapAll fun subscription => by split <;> exact ⟨rfl, rfl⟩

/-! ## Reading a stream -/

/-- An item is taken from the front of its stream, and the stream goes on behind it. -/
theorem exists_of_take (htake : subscriptions.take id = (taken, .item item)) :
    ∃ subscription rest, subscriptions.table.get? id = some subscription ∧
      subscription.items = item :: rest ∧
      taken = { subscriptions with
        table := subscriptions.table.insert id { subscription with items := rest } } := by
  cases hget : subscriptions.table.get? id with
  | none => simp [take, hget] at htake
  | some subscription =>
      cases hitems : subscription.items with
      | nil =>
          simp only [take, hget, hitems, Prod.mk.injEq] at htake
          split at htake <;> cases htake.2
      | cons first rest =>
          simp only [take, hget, hitems, Prod.mk.injEq, Front.item.injEq] at htake
          exact ⟨subscription, rest, rfl, htake.2 ▸ hitems, htake.1.symm⟩

theorem Carries.take (h : subscriptions.Carries Meets)
    (htake : subscriptions.take id = (taken, .item item)) : taken.Carries Meets := by
  obtain ⟨subscription, rest, hget, hitems, rfl⟩ := exists_of_take htake
  intro other found hsome
  rw [Table.get?_insert] at hsome
  split_ifs at hsome
  · obtain rfl := Option.some.inj hsome
    exact fun next hmem => h id subscription hget next (hitems ▸ List.mem_cons_of_mem _ hmem)
  · exact h other found hsome

/-- The item that is taken meets what is asked at the stream's owner. -/
theorem Carries.of_take (h : subscriptions.Carries Meets)
    (hstream : subscriptions.Belongs id topic client)
    (htake : subscriptions.take id = (taken, .item item)) : Meets topic client item := by
  obtain ⟨subscription, rest, hget, hitems, -⟩ := exists_of_take htake
  obtain ⟨rfl, rfl⟩ := hstream.owned subscription hget
  exact h id subscription hget item (hitems ▸ List.mem_cons_self)

theorem Belongs.take {stream : SubscriptionId} (h : subscriptions.Belongs stream topic client)
    (htake : subscriptions.take id = (taken, .item item)) : taken.Belongs stream topic client := by
  obtain ⟨subscription, rest, hget, -, rfl⟩ := exists_of_take htake
  refine ⟨h.opened, fun found hsome => ?_⟩
  rw [Table.get?_insert] at hsome
  split_ifs at hsome with hstream
  · obtain rfl := Option.some.inj hsome
    exact h.owned subscription (hstream ▸ hget)
  · exact h.owned found hsome

/-! ## Sending and opening a stream -/

variable [DecidableEq Topic]

/-- What is sent has to meet what is asked at each of its receivers. -/
theorem Carries.sendTo {test : ClientId → Bool} (h : subscriptions.Carries Meets)
    (hitem : ∀ client, test client = true → Meets topic client item) :
    (subscriptions.sendTo topic test item).Carries Meets := by
  refine h.mapAll fun subscription hitems => ?_
  split
  · rename_i hreceives
    simp only [Bool.and_eq_true, decide_eq_true_eq] at hreceives
    intro next hmem
    rcases List.mem_append.mp hmem with hmem | hmem
    · exact hitems next hmem
    · obtain rfl := List.mem_singleton.mp hmem
      exact hreceives.1.2 ▸ hitem _ hreceives.2
  · exact hitems

theorem Belongs.sendTo (h : subscriptions.Belongs id topic client) (test : ClientId → Bool)
    (item : Item) : (subscriptions.sendTo other test item).Belongs id topic client :=
  h.mapAll fun subscription => by split <;> exact ⟨rfl, rfl⟩

theorem Carries.subscribe (h : subscriptions.Carries Meets) (topic : Topic) (client : ClientId) :
    (subscriptions.subscribe topic client).1.Carries Meets := by
  intro id subscription hsome
  simp only [Subscriptions.subscribe, Table.get?_insert] at hsome
  split_ifs at hsome
  · obtain rfl := Option.some.inj hsome
    exact List.forall_mem_nil _
  · exact h.release _ id subscription hsome

theorem Belongs.subscribe (h : subscriptions.Belongs id topic client) (other : Topic)
    (name : ClientId) : (subscriptions.subscribe other name).1.Belongs id topic client where
  opened := Nat.lt_succ_of_lt h.opened
  owned := by
    intro subscription hsome
    have hkept : (subscriptions.unsubscribe other name).Belongs id topic client := h.release _
    simp only [Subscriptions.subscribe, Table.get?_insert] at hsome
    rw [if_neg (Nat.ne_of_lt hkept.opened)] at hsome
    exact hkept.owned subscription hsome

theorem belongs_subscribe (subscriptions : Subscriptions Topic Item) (topic : Topic)
    (client : ClientId) : (subscriptions.subscribe topic client).1.Belongs
      (subscriptions.subscribe topic client).2 topic client where
  opened := Nat.lt_succ_self _
  owned := by
    intro subscription hsome
    simp only [Subscriptions.subscribe, Table.get?_insert] at hsome
    obtain rfl := Option.some.inj hsome
    exact ⟨rfl, rfl⟩

end Coauthor.Subscriptions
