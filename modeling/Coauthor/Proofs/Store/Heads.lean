import Coauthor.Proofs.Store.Push

/-!
# How the head of a branch moves

Every call that moves the head of a branch sends the new head, once and in order, to those
who listen to the branch; no call forgets a commit.  A push either moves the head to the
pushed commit or to its merge, or finds the commit at the head already, or leaves the head
where it was.
-/

namespace Coauthor

namespace Store

/-- The heads that wait in a stream. -/
def announced (store : Store) (stream : SubscriptionId) : List CommitData :=
  match store.watchers.table.get? stream with
  | none => []
  | some subscription => subscription.items

/-- A stream is fed with the heads of a branch. -/
def Feeds (store : Store) (stream : SubscriptionId) (id : ProjectId) (branch : BranchName) :
    Prop :=
  ∃ subscription, store.watchers.table.get? stream = some subscription ∧
    subscription.active = true ∧ subscription.topic = (id, branch)

/-- What one call does to a branch as a listener sees it: it forgets nothing, and it moves
the head at most once and tells. -/
structure Moved (id : ProjectId) (branch : BranchName) (stream : SubscriptionId)
    (store later : Store) (move : Option CommitData) : Prop where
  sound : later.Sound
  feeds : later.Feeds stream id branch
  kept : ∀ other hash, store.Stored other hash → later.Stored other hash
  head : later.headOf id branch = (move.map (·.hash)).or (store.headOf id branch)
  announced : later.announced stream = store.announced stream ++ move.toList
  stored : ∀ data, move = some data → later.Stored id data.hash

variable {store middle later : Store} {id other : ProjectId} {branch name : BranchName}
  {stream : SubscriptionId} {hash : CommitHash} {data : CommitData} {move : Option CommitData}
  {project current : Project}

theorem moved_refl (hsound : store.Sound) (hfeeds : store.Feeds stream id branch) :
    Moved id branch stream store store none :=
  ⟨hsound, hfeeds, fun _ _ hstored => hstored, rfl, (List.append_nil _).symm, fun _ hmove =>
    nomatch hmove⟩

theorem Moved.trans (hfirst : Moved id branch stream store middle none)
    (hsecond : Moved id branch stream middle later move) :
    Moved id branch stream store later move where
  sound := hsecond.sound
  feeds := hsecond.feeds
  kept := fun other hash hstored => hsecond.kept other hash (hfirst.kept other hash hstored)
  head := hsecond.head.trans (by rw [hfirst.head]; rfl)
  announced := by
    rw [hsecond.announced, hfirst.announced, Option.toList_none, List.append_nil]
  stored := hsecond.stored

/-- Storing commits moves no head. -/
theorem moved_setProject (hsound : store.Sound) (hfeeds : store.Feeds stream id branch)
    (hcurrent : store.projects.get? other = some current) (hproject : project.Sound)
    (hbranches : project.branches = current.branches)
    (hkept : ∀ hash, current.commits.contains hash → project.commits.contains hash) :
    Moved id branch stream store (store.setProject other project) none where
  sound := hsound.setProject hproject
  feeds := hfeeds
  kept := fun _ _ hstored => hstored.setProject hcurrent hkept
  head := by
    rw [headOf_setProject]
    by_cases hid : id = other
    · rw [if_pos hid, hbranches, headOf, hid, hcurrent]
      rfl
    · rw [if_neg hid]
      rfl
  announced := (List.append_nil _).symm
  stored := fun _ hmove => nomatch hmove

/-! ## Listening -/

theorem announced_watch {watching : Store} {client : ClientId}
    (hwatch : store.watch id branch client = .ok (watching, stream)) :
    watching.projects = store.projects ∧ watching.Feeds stream id branch ∧
      watching.announced stream = [] := by
  unfold watch at hwatch
  cases hproject : store.project id with
  | error error => simp [hproject, bind, Except.bind] at hwatch
  | ok project =>
      simp only [hproject, bind, Except.bind, pure, Except.pure] at hwatch
      obtain ⟨rfl, rfl⟩ := Prod.mk.inj (Except.ok.inj hwatch)
      let opened : Subscription BranchTopic CommitData :=
        { topic := (id, branch), client, items := [], active := true }
      refine ⟨rfl, ⟨opened, ?_, rfl, rfl⟩, ?_⟩
      · simp [opened, Subscriptions.subscribe, Table.get?_insert]
      · simp [announced, Subscriptions.subscribe, Table.get?_insert]

/-- A reader gets the first of the heads that wait, and the others go on waiting. -/
theorem exists_take (hfeeds : store.Feeds stream id branch) {rest : List CommitData}
    (hannounced : store.announced stream = data :: rest) :
    ∃ watchers, store.watchers.take stream = (watchers, .item data) ∧
      ({ store with watchers } : Store).Feeds stream id branch ∧
      ({ store with watchers } : Store).announced stream = rest := by
  obtain ⟨subscription, hget, hactive, htopic⟩ := hfeeds
  simp only [announced, hget] at hannounced
  let watchers : Subscriptions BranchTopic CommitData :=
    { store.watchers with
      table := store.watchers.table.insert stream { subscription with items := rest } }
  refine ⟨watchers, ?_, ?_, ?_⟩
  · simp only [Subscriptions.take, hget, hannounced]
    rfl
  · have hopen : watchers.table.get? stream = some { subscription with items := rest } := by
      simp [watchers, Table.get?_insert]
    exact ⟨_, hopen, hactive, htopic⟩
  · simp [watchers, announced, Table.get?_insert]

theorem take_of_nil (hfeeds : store.Feeds stream id branch)
    (hannounced : store.announced stream = []) :
    store.watchers.take stream = (store.watchers, .pending) := by
  obtain ⟨subscription, hget, hactive, -⟩ := hfeeds
  simp only [announced, hget] at hannounced
  simp only [Subscriptions.take, hget, hannounced, hactive, if_true]

/-! ## Moving a head -/

theorem announced_send (store : Store) (stream : SubscriptionId) (topic : BranchTopic)
    (data : CommitData) (hfeeds : store.Feeds stream id branch) :
    ({ store with watchers := store.watchers.send topic data } : Store).announced stream =
      store.announced stream ++ if topic = (id, branch) then [data] else [] := by
  obtain ⟨subscription, hget, hactive, htopic⟩ := hfeeds
  simp only [announced, Subscriptions.send, Subscriptions.sendTo, Subscriptions.mapAll,
    Table.get?_mapValues, hget, Option.map_some, hactive, htopic, Bool.true_and, Bool.and_true]
  by_cases hsame : topic = (id, branch)
  · simp [hsame]
  · simp [hsame, Ne.symm hsame]

theorem Feeds.send (h : store.Feeds stream id branch) (topic : BranchTopic) (data : CommitData) :
    ({ store with watchers := store.watchers.send topic data } : Store).Feeds stream id branch := by
  obtain ⟨subscription, hget, hactive, htopic⟩ := h
  simp only [Feeds, Subscriptions.send, Subscriptions.sendTo, Subscriptions.mapAll,
    Table.get?_mapValues, hget, Option.map_some]
  refine ⟨_, rfl, ?_⟩
  by_cases hsame : topic = (id, branch)
  · simp [hactive, htopic, hsame]
  · simp [hactive, htopic, Ne.symm hsame]

/-- A head is moved to a stored commit, and those who listen to it are told. -/
theorem moved_moved (hsound : store.Sound) (hfeeds : store.Feeds stream id branch)
    (hget : store.projects.get? other = some project)
    (hstored : project.commits.get? hash = some data) (name : BranchName) :
    Moved id branch stream store (store.moved other project name data)
      (if (other, name) = (id, branch) then some data else none) where
  sound := hsound.moved hget hstored name
  feeds := hfeeds.send _ data
  kept := fun _ _ hkept => hkept.setProject hget fun _ hcontains => hcontains
  head := by
    rw [headOf_moved hget]
    split_ifs with hsame
    · rfl
    · rfl
  announced := by
    refine (announced_send store stream (other, name) data hfeeds).trans ?_
    split_ifs with hsame
    · rfl
    · rfl
  stored := by
    intro told htold
    split_ifs at htold with hsame
    obtain ⟨rfl, rfl⟩ := Prod.mk.inj hsame
    obtain rfl := Option.some.inj htold
    obtain rfl := (hsound other project hget).keyed hash data hstored
    exact Stored.setProject ⟨project, hget, Option.isSome_iff_exists.mpr ⟨data, hstored⟩⟩ hget
      fun _ hcontains => hcontains

/-- Setting a head moves it and tells, or changes nothing. -/
theorem moved_setHead (hsound : store.Sound) (hfeeds : store.Feeds stream id branch)
    {old : Option CommitHash} {response : CommitResponse}
    (hset : store.setHead other name old hash = .ok (later, response)) :
    ∃ move, Moved id branch stream store later move := by
  rcases setHead_cases hsound hset with ⟨rfl, -⟩ | ⟨-, project, data, hget, hstored, rfl⟩
  · exact ⟨none, moved_refl hsound hfeeds⟩
  · exact ⟨_, moved_moved hsound hfeeds hget hstored name⟩

/-! ## Pushing -/

/-- How a commit comes onto a branch at `head`, and where the head moves. -/
inductive Landed (data : CommitData) (head : CommitHash) :
    CommitResponse → Option CommitData → Prop where
  | forked : Landed data head (.of .forked data.hash) none
  /-- The commit was the head before. -/
  | already (hhead : head = data.hash) : Landed data head (.of .synced data.hash) none
  | advanced (told : CommitData) (htold : told.hash = data.hash) :
      Landed data head (.of .synced data.hash) (some told)
  | merged (told : CommitData) : Landed data head (.merged data.hash told.hash) (some told)

/-- What a push leads to. -/
inductive Pushed (id : ProjectId) (branch : BranchName) (stream : SubscriptionId)
    (store : Store) (data : CommitData) :
    Store × Except RemoteError CommitResponse → Prop where
  | refused {later : Store} {error : RemoteError} (herror : error.isTransport = false)
      (hmoved : Moved id branch stream store later none) :
      Pushed id branch stream store data (later, .error error)
  | canceled {parent : CommitHash} (hparent : data.commit.parent? = some parent)
      (hunknown : ¬ store.Stored data.projectId parent)
      (hmoved : Moved id branch stream store store none) :
      Pushed id branch stream store data (store, .ok (.of .canceled data.hash))
  /-- The commit names no branch. -/
  | kept {later : Store} (hbranch : data.branchName = none)
      (hmoved : Moved id branch stream store later none) :
      Pushed id branch stream store data (later, .ok (.of .synced data.hash))
  | landed {later : Store} {name : BranchName} {head : CommitHash} {response : CommitResponse}
      {move : Option CommitData} (hbranch : data.branchName = some name)
      (hhead : store.headOf data.projectId name = some head)
      (hlanded : Landed data head response move)
      (hmoved : Moved id branch stream store later
        (if (data.projectId, name) = (id, branch) then move else none))
      (hstored : later.Stored data.projectId data.hash) :
      Pushed id branch stream store data (later, .ok response)

/-- Whatever becomes of a push, the head moves at most once and is told. -/
theorem Pushed.exists_moved {result : Store × Except RemoteError CommitResponse}
    (h : Pushed id branch stream store data result) :
    ∃ move, Moved id branch stream store result.1 move := by
  cases h with
  | refused herror hmoved => exact ⟨_, hmoved⟩
  | canceled hparent hunknown hmoved => exact ⟨_, hmoved⟩
  | kept hbranch hmoved => exact ⟨_, hmoved⟩
  | landed hbranch hhead hlanded hmoved hstored => exact ⟨_, hmoved⟩

theorem exists_parent_of_knowsParent (h : knowsParent project data = false) :
    ∃ parent, data.commit.parent? = some parent ∧ ¬ project.commits.contains parent := by
  unfold knowsParent at h
  cases hparent : data.commit.parent? with
  | none => simp [hparent] at h
  | some parent =>
      rw [hparent] at h
      exact ⟨parent, rfl, by simpa using h⟩

theorem Admits.moved_keeping (hadmits : store.Admits data project) (hsound : store.Sound)
    (hfeeds : store.Feeds stream id branch) :
    Moved id branch stream store (store.keeping project data) none :=
  moved_setProject hsound hfeeds hadmits.found (hadmits.sound hsound) (branches_keep project data)
    fun _ hcontains => (contains_keep ..).mpr (.inr hcontains)

theorem Admits.moved_storing (hadmits : store.Admits data project) (hsound : store.Sound)
    (hfeeds : store.Feeds stream id branch) (merge : CommitData) :
    Moved id branch stream store (store.storing project data merge) none :=
  have hkeeping := hadmits.moved_keeping hsound hfeeds
  hkeeping.trans (moved_setProject hkeeping.sound hkeeping.feeds (get?_keeping ..)
    ((hadmits.sound hsound).insert merge) rfl
    fun _ hcontains => (Table.contains_insert ..).mpr (.inr hcontains))

theorem stored_keeping (store : Store) (project : Project) (data : CommitData) :
    (store.keeping project data).Stored data.projectId data.hash :=
  ⟨_, get?_keeping .., (contains_keep ..).mpr (.inl rfl)⟩

/-- A push that is denied changes nothing. -/
theorem Denies.pushed {answer : Except RemoteError CommitResponse} (h : store.Denies data answer)
    (hsound : store.Sound) (hfeeds : store.Feeds stream id branch) :
    Pushed id branch stream store data (store, answer) := by
  have hsame := moved_refl hsound hfeeds
  cases h with
  | altered hintact => exact .refused rfl hsame
  | homeless hnone => exact .refused rfl hsame
  | orphaned hget hunknown =>
      obtain ⟨parent, hparent, hmissing⟩ := exists_parent_of_knowsParent hunknown
      refine .canceled hparent ?_ hsame
      rintro ⟨found, hfound, hcontains⟩
      obtain rfl := Option.some.inj (hget.symm.trans hfound)
      exact hmissing hcontains

/-- A commit that is kept moves no head by itself. -/
theorem Rests.pushed {answer : Except RemoteError CommitResponse} (h : Rests project data answer)
    (hadmits : store.Admits data project) (hsound : store.Sound)
    (hfeeds : store.Feeds stream id branch) :
    Pushed id branch stream store data (store.keeping project data, answer) := by
  have hkeeping := hadmits.moved_keeping hsound hfeeds
  have hhead (name : BranchName) (head : CommitHash)
      (hbranch : project.branches.get? name = some head) :
      store.headOf data.projectId name = some head :=
    (headOf_of_get? hadmits.found).trans hbranch
  cases h with
  | unaddressed hbranch => exact .kept hbranch hkeeping
  | branchless hbranch hnone => exact .refused rfl hkeeping
  | already hbranch hsame =>
      exact .landed hbranch (hhead _ _ hsame) (.already rfl) ((ite_self none).symm ▸ hkeeping)
        (stored_keeping ..)
  | forked hbranch hsome hother hexpected =>
      exact .landed hbranch (hhead _ _ hsome) .forked ((ite_self none).symm ▸ hkeeping)
        (stored_keeping ..)

theorem Push.pushed {result : Store × Except RemoteError CommitResponse}
    (h : Push store data result) (hsound : store.Sound) (hfeeds : store.Feeds stream id branch) :
    Pushed id branch stream store data result := by
  cases h with
  | denied hdenies => exact hdenies.pushed hsound hfeeds
  | rested hadmits hrests => exact hrests.pushed hadmits hsound hfeeds
  | @advanced project name head kept hadmits hbranch hhead hother hexpected hkept =>
      have hhash : kept.hash = data.hash := (hadmits.sound hsound).keyed _ kept hkept
      have hkeeping := hadmits.moved_keeping hsound hfeeds
      have hmoved := moved_moved hkeeping.sound hkeeping.feeds (get?_keeping ..) hkept name
      exact .landed hbranch ((headOf_of_get? hadmits.found).trans hhead) (.advanced kept hhash)
        (hkeeping.trans hmoved) (hmoved.kept _ _ (stored_keeping ..))
  | @merged project name head base merge hadmits hbranch hhead hother hexpected hbase hmerge =>
      have hstoring := hadmits.moved_storing hsound hfeeds merge
      have hmoved := moved_moved hstoring.sound hstoring.feeds (get?_storing ..)
        ((Table.get?_insert ..).trans (if_pos rfl)) name
      refine .landed hbranch ((headOf_of_get? hadmits.found).trans hhead) (.merged merge)
        (hstoring.trans hmoved) (hmoved.kept _ _ ?_)
      exact (stored_keeping store project data).setProject (get?_keeping ..)
        fun _ hcontains => (Table.contains_insert ..).mpr (.inr hcontains)

theorem pushed_makeCommit (hsound : store.Sound) (hfeeds : store.Feeds stream id branch)
    (data : CommitData) : Pushed id branch stream store data (store.makeCommit data) :=
  (push_makeCommit hsound data).pushed hsound hfeeds

end Store

end Coauthor
