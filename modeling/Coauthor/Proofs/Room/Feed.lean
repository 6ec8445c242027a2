import Coauthor.Subscription
import Mathlib.Tactic.Common

/-!
# Streams that are fed

A stream is fed until it is given up, and then it ends where it is.  Nothing but the opening of a
stream lets one be fed that was not fed before, and a stream is given up when its client opens
another on the same topic.
-/

namespace Coauthor.Subscriptions

variable {Topic Item : Type} {subscriptions earlier later : Subscriptions Topic Item}
  {stream : SubscriptionId} {topic other : Topic} {client name : ClientId} {items : List Item}
  {item : Item}

/-- The stream is fed with what is sent to its client on its topic, and these items wait in it. -/
def Stands (subscriptions : Subscriptions Topic Item) (stream : SubscriptionId) (topic : Topic)
    (client : ClientId) (items : List Item) : Prop :=
  subscriptions.table.get? stream = some { topic, client, items, active := true }

/-- The stream has been given up, and these items wait in it. -/
def Ended (subscriptions : Subscriptions Topic Item) (stream : SubscriptionId)
    (items : List Item) : Prop :=
  ∃ topic client, subscriptions.table.get? stream = some { topic, client, items, active := false }

/-- No stream has been opened or taken up again. -/
structure Thins (earlier later : Subscriptions Topic Item) : Prop where
  next : later.next = earlier.next
  kept : ∀ stream subscription, later.table.get? stream = some subscription →
    ∃ old, earlier.table.get? stream = some old ∧ old.topic = subscription.topic ∧
      old.client = subscription.client ∧ (subscription.active = true → old.active = true)

theorem Thins.refl (subscriptions : Subscriptions Topic Item) :
    subscriptions.Thins subscriptions :=
  ⟨rfl, fun _ subscription hget => ⟨subscription, hget, rfl, rfl, id⟩⟩

theorem Thins.trans {middle : Subscriptions Topic Item} (hfirst : earlier.Thins middle)
    (hsecond : middle.Thins later) : earlier.Thins later where
  next := hsecond.next.trans hfirst.next
  kept := by
    intro stream subscription hget
    obtain ⟨between, hbetween, htopic, hclient, hactive⟩ := hsecond.kept stream subscription hget
    obtain ⟨old, hold, htopic', hclient', hactive'⟩ := hfirst.kept stream between hbetween
    exact ⟨old, hold, htopic'.trans htopic, hclient'.trans hclient, fun h => hactive' (hactive h)⟩

theorem get?_mapAll (change : Subscription Topic Item → Subscription Topic Item)
    (stream : SubscriptionId) :
    (subscriptions.mapAll change).table.get? stream =
      (subscriptions.table.get? stream).map change :=
  Table.get?_mapValues ..

theorem thins_mapAll {change : Subscription Topic Item → Subscription Topic Item}
    (hchange : ∀ subscription, (change subscription).topic = subscription.topic ∧
      (change subscription).client = subscription.client ∧
      ((change subscription).active = true → subscription.active = true)) :
    subscriptions.Thins (subscriptions.mapAll change) where
  next := rfl
  kept := by
    intro stream subscription hget
    rw [get?_mapAll] at hget
    obtain ⟨old, hold, rfl⟩ := Option.map_eq_some_iff.mp hget
    obtain ⟨htopic, hclient, hactive⟩ := hchange old
    exact ⟨old, hold, htopic.symm, hclient.symm, hactive⟩

theorem thins_release (test : Topic → ClientId → Bool) :
    subscriptions.Thins (subscriptions.release test) :=
  thins_mapAll fun subscription => by
    split
    · exact ⟨rfl, rfl, nofun⟩
    · exact ⟨rfl, rfl, id⟩

/-- A stream that is not released goes on. -/
theorem Stands.release (h : subscriptions.Stands stream topic client items)
    {test : Topic → ClientId → Bool} (htest : test topic client = false) :
    (subscriptions.release test).Stands stream topic client items := by
  rw [Stands, Subscriptions.release, get?_mapAll, h]
  simp [htest]

theorem Stands.ended_release (h : subscriptions.Stands stream topic client items)
    {test : Topic → ClientId → Bool} (htest : test topic client = true) :
    (subscriptions.release test).Ended stream items := by
  refine ⟨topic, client, ?_⟩
  rw [Subscriptions.release, get?_mapAll, h]
  simp [htest]

theorem Ended.release (h : subscriptions.Ended stream items) (test : Topic → ClientId → Bool) :
    (subscriptions.release test).Ended stream items := by
  obtain ⟨topic, client, hget⟩ := h
  refine ⟨topic, client, ?_⟩
  rw [Subscriptions.release, get?_mapAll, hget]
  simp

theorem Stands.not_ended {others : List Item}
    (h : subscriptions.Stands stream topic client items) : ¬ subscriptions.Ended stream others := by
  rintro ⟨topic, client, hget⟩
  have hsame := Option.some.inj (h.symm.trans hget)
  exact absurd (congrArg Subscription.active hsame) (by simp)

theorem Thins.stands (h : earlier.Thins later) (hstands : later.Stands stream topic client items) :
    ∃ before, earlier.Stands stream topic client before := by
  obtain ⟨⟨topic', client', before, active⟩, hold, rfl, rfl, hactive⟩ := h.kept stream _ hstands
  obtain rfl : active = true := hactive rfl
  exact ⟨before, hold⟩

/-! ## One stream for a client on a topic -/

/-- Streams have been opened under their numbers, and no client is fed by two on one topic. -/
structure Single (subscriptions : Subscriptions Topic Item) : Prop where
  opened : ∀ stream subscription, subscriptions.table.get? stream = some subscription →
    stream < subscriptions.next
  alone : ∀ stream other topic client items others,
    subscriptions.Stands stream topic client items →
      subscriptions.Stands other topic client others → stream = other

theorem single_empty : (∅ : Subscriptions Topic Item).Single where
  opened := by rintro stream subscription ⟨⟩
  alone := by rintro stream other topic client items others ⟨⟩

theorem Single.thin (h : earlier.Single) (hthins : earlier.Thins later) : later.Single where
  opened := by
    intro stream subscription hget
    obtain ⟨old, hold, -⟩ := hthins.kept stream subscription hget
    exact hthins.next ▸ h.opened stream old hold
  alone := by
    intro stream other topic client items others hstands hother
    obtain ⟨before, hbefore⟩ := hthins.stands hstands
    obtain ⟨same, hsame⟩ := hthins.stands hother
    exact h.alone stream other topic client before same hbefore hsame

/-! ## Reading -/

/-- A stream that is read goes on with what is left. -/
theorem get?_take (subscriptions : Subscriptions Topic Item) (read stream : SubscriptionId) :
    (subscriptions.take read).1.table.get? stream =
      (subscriptions.table.get? stream).map fun subscription =>
        if stream = read then { subscription with items := subscription.items.tail }
        else subscription := by
  unfold take
  cases hget : subscriptions.table.get? read with
  | none =>
      by_cases hsame : stream = read
      · simp [hsame, hget]
      · simp [hsame]
  | some subscription =>
      obtain ⟨topic, client, items, active⟩ := subscription
      cases items with
      | nil =>
          by_cases hsame : stream = read
          · simp [hsame, hget]
          · simp [hsame]
      | cons item rest =>
          by_cases hsame : stream = read
          · simp [hsame, hget, Table.get?_insert]
          · simp [hsame, Table.get?_insert]

theorem exists_get?_take {subscription : Subscription Topic Item}
    (h : subscriptions.table.get? stream = some subscription) (read : SubscriptionId) :
    ∃ left, left.length ≤ subscription.items.length ∧
      (subscriptions.take read).1.table.get? stream = some { subscription with items := left } := by
  rw [get?_take, h, Option.map_some]
  by_cases hread : stream = read
  · exact ⟨subscription.items.tail, by simp, by rw [if_pos hread]⟩
  · exact ⟨subscription.items, Nat.le_refl _, by rw [if_neg hread]⟩

theorem thins_take (subscriptions : Subscriptions Topic Item) (read : SubscriptionId) :
    subscriptions.Thins (subscriptions.take read).1 where
  next := by
    unfold take
    split
    · rfl
    · split
      · rfl
      · rfl
  kept := by
    intro stream subscription hget
    rw [get?_take] at hget
    obtain ⟨old, hold, rfl⟩ := Option.map_eq_some_iff.mp hget
    refine ⟨old, hold, ?_⟩
    split_ifs with hread
    · exact ⟨rfl, rfl, id⟩
    · exact ⟨rfl, rfl, id⟩

/-! ## Sending and opening -/

variable [DecidableEq Topic]

theorem thins_sendTo (topic : Topic) (test : ClientId → Bool) (item : Item) :
    subscriptions.Thins (subscriptions.sendTo topic test item) :=
  thins_mapAll fun subscription => by
    split
    · exact ⟨rfl, rfl, id⟩
    · exact ⟨rfl, rfl, id⟩

theorem Stands.sendTo (h : subscriptions.Stands stream topic client items) (other : Topic)
    (test : ClientId → Bool) (item : Item) :
    (subscriptions.sendTo other test item).Stands stream topic client
      (items ++ if topic = other ∧ test client = true then [item] else []) := by
  rw [Stands, Subscriptions.sendTo, get?_mapAll, h]
  by_cases hsent : topic = other ∧ test client = true
  · simp [hsent.1, hsent.2]
  · rw [if_neg hsent, List.append_nil, Option.map_some, if_neg (by simpa using hsent)]

theorem Ended.sendTo (h : subscriptions.Ended stream items) (other : Topic)
    (test : ClientId → Bool) (item : Item) :
    (subscriptions.sendTo other test item).Ended stream items := by
  obtain ⟨topic, client, hget⟩ := h
  refine ⟨topic, client, ?_⟩
  rw [Subscriptions.sendTo, get?_mapAll, hget]
  rfl

theorem get?_subscribe (subscriptions : Subscriptions Topic Item) (topic : Topic)
    (client : ClientId) (stream : SubscriptionId) :
    (subscriptions.subscribe topic client).1.table.get? stream =
      if stream = subscriptions.next then some { topic, client, items := [], active := true }
      else (subscriptions.unsubscribe topic client).table.get? stream :=
  Table.get?_insert ..

theorem stands_subscribe (subscriptions : Subscriptions Topic Item) (topic : Topic)
    (client : ClientId) : (subscriptions.subscribe topic client).1.Stands
      (subscriptions.subscribe topic client).2 topic client [] := by
  rw [Stands, get?_subscribe]
  exact if_pos rfl

/-- An older stream goes on unless it is the same client's on the same topic. -/
theorem Stands.subscribe (h : subscriptions.Stands stream topic client items)
    (hopened : stream < subscriptions.next) (hother : ¬ (topic = other ∧ client = name)) :
    (subscriptions.subscribe other name).1.Stands stream topic client items := by
  rw [Stands, get?_subscribe, if_neg (Nat.ne_of_lt hopened)]
  exact h.release (by simpa using hother)

theorem Stands.ended_subscribe (h : subscriptions.Stands stream topic client items)
    (hopened : stream < subscriptions.next) :
    (subscriptions.subscribe topic client).1.Ended stream items := by
  obtain ⟨topic', client', hget⟩ : (subscriptions.unsubscribe topic client).Ended stream items :=
    h.ended_release (by simp)
  exact ⟨topic', client', by rw [get?_subscribe, if_neg (Nat.ne_of_lt hopened), hget]⟩

theorem Ended.subscribe (h : subscriptions.Ended stream items)
    (hopened : stream < subscriptions.next) (other : Topic) (name : ClientId) :
    (subscriptions.subscribe other name).1.Ended stream items := by
  obtain ⟨topic, client, hget⟩ : (subscriptions.unsubscribe other name).Ended stream items :=
    h.release _
  exact ⟨topic, client, by rw [get?_subscribe, if_neg (Nat.ne_of_lt hopened), hget]⟩

/-- After a stream was opened, no other is fed for the same client on the same topic. -/
theorem cases_of_stands_subscribe
    (h : (subscriptions.subscribe other name).1.Stands stream topic client items) :
    (stream = subscriptions.next ∧ topic = other ∧ client = name) ∨
      (¬ (topic = other ∧ client = name) ∧ ∃ before,
        subscriptions.Stands stream topic client before) := by
  rw [Stands, get?_subscribe] at h
  split_ifs at h with hnext
  · obtain ⟨htopic, hclient, -⟩ := Subscription.mk.inj (Option.some.inj h)
    exact .inl ⟨hnext, htopic.symm, hclient.symm⟩
  · refine .inr ⟨?_, (thins_release _).stands h⟩
    rintro ⟨rfl, rfl⟩
    rw [unsubscribe, release, get?_mapAll] at h
    obtain ⟨old, -, hold⟩ := Option.map_eq_some_iff.mp h
    split_ifs at hold with htest
    · cases congrArg Subscription.active hold
    · subst hold
      simp at htest

/-- A new stream replaces an older one of its client on its topic. -/
theorem Single.subscribe (h : subscriptions.Single) (topic : Topic) (client : ClientId) :
    (subscriptions.subscribe topic client).1.Single where
  opened := by
    intro stream subscription hget
    rw [get?_subscribe] at hget
    split_ifs at hget with hnext
    · exact hnext ▸ Nat.lt_succ_self _
    · obtain ⟨old, hold, -⟩ := (thins_release _).kept stream subscription hget
      exact Nat.lt_succ_of_lt (h.opened stream old hold)
  alone := by
    intro stream other found name items others hstands hother
    rcases cases_of_stands_subscribe hstands with ⟨rfl, rfl, rfl⟩ | ⟨hnew, before, hbefore⟩
    · rcases cases_of_stands_subscribe hother with ⟨rfl, -⟩ | ⟨hnew, -⟩
      · rfl
      · exact absurd ⟨rfl, rfl⟩ hnew
    · rcases cases_of_stands_subscribe hother with ⟨-, hsame⟩ | ⟨-, same, hsame⟩
      · exact absurd hsame hnew
      · exact h.alone stream other found name before same hbefore hsame

end Coauthor.Subscriptions
