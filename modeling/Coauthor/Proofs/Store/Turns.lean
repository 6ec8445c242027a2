import Coauthor.Proofs.Store.Push

/-!
# A store in use

Projects are started, commits pushed, branches created and set, and streams of heads opened, read
and given up, in any order and by any clients.  A head is set by the turns that are answered so and
by no others: by a push that is answered as a merge, or as synced where the commit was not the head
already, and by a branch that is created or set.
-/

namespace Coauthor

namespace CommitResponse

/-- The commit that a branch at `head` is moved to by a push with this answer. -/
def landing (response : CommitResponse) (data : CommitData) (head : Option CommitHash) :
    Option CommitHash :=
  match response.mergeHash with
  | some merge => some merge
  | none =>
      if response.status? = some .synced ∧ head ≠ some data.hash then some data.hash else none

theorem landing_of (status : CommitStatus) (hash : CommitHash) (data : CommitData)
    (head : Option CommitHash) : (of status hash).landing data head =
      if status = .synced ∧ head ≠ some data.hash then some data.hash else none := by
  have hstatus : (of status hash).status? = some status := CommitStatus.ofText?_text status
  simp only [landing, hstatus, Option.some.injEq]
  rfl

end CommitResponse

namespace Store

/-- What is asked of a store, or done at a stream. -/
inductive Turn where
  | createProject (id : ProjectId) (branch : BranchName) (root : CommitData)
  | push (data : CommitData)
  | createBranch (id : ProjectId) (branch : BranchName) (hash : CommitHash)
  | setHead (id : ProjectId) (branch : BranchName) (old : Option CommitHash) (new : CommitHash)
  | watch (id : ProjectId) (branch : BranchName) (client : ClientId)
  | detach (client : ClientId)
  /-- The reader of a stream takes what is at its front. -/
  | read (stream : SubscriptionId)

/-- The turn starts a project, or starts it again. -/
def Turn.Founds (id : ProjectId) : Turn → Prop
  | .createProject other .. => other = id
  | _ => False

def step (store : Store) : Turn → Store
  | .createProject id branch root => store.createProject id branch root
  | .push data => (store.makeCommit data).1
  | .createBranch id branch hash =>
      match store.createBranch id branch hash with
      | .ok later => later
      | .error _ => store
  | .setHead id branch old new =>
      match store.setHead id branch old new with
      | .ok (later, _) => later
      | .error _ => store
  | .watch id branch client =>
      match store.watch id branch client with
      | .ok (later, _) => later
      | .error _ => store
  | .detach client => store.detach client
  | .read stream => { store with watchers := (store.watchers.take stream).1 }

def run (store : Store) (turns : List Turn) : Store := turns.foldl step store

/-- The branch that a push moves, and to which commit, as its answer tells. -/
def lands (store : Store) (data : CommitData) (answer : Except RemoteError CommitResponse) :
    Option (BranchTopic × CommitHash) := do
  let branch ← data.branchName
  let response ← answer.toOption
  let hash ← response.landing data (store.headOf data.projectId branch)
  return ((data.projectId, branch), hash)

/-- The branch that a turn sets, and to which commit. -/
def assigns (store : Store) : Turn → Option (BranchTopic × CommitHash)
  | .createProject id branch root => some ((id, branch), root.hash)
  | .push data => store.lands data (store.makeCommit data).2
  | .createBranch id branch hash =>
      if (store.createBranch id branch hash).isOk then some ((id, branch), hash) else none
  | .setHead id branch old new =>
      match store.setHead id branch old new with
      | .ok (_, response) =>
          if response.status? = some .synced then some ((id, branch), new) else none
      | .error _ => none
  | .watch .. | .detach _ | .read _ => none

/-- The commit, if it is set on this branch. -/
def onTopic (topic : BranchTopic) : Option (BranchTopic × CommitHash) → Option CommitHash
  | some (other, hash) => if other = topic then some hash else none
  | none => none

/-- What a turn sets a branch to. -/
def assignsTo (store : Store) (topic : BranchTopic) (turn : Turn) : Option CommitHash :=
  onTopic topic (store.assigns turn)

/-- What a branch is set to in a run, in order. -/
def assigned (topic : BranchTopic) (store : Store) : List Turn → List CommitHash
  | [] => []
  | turn :: rest => (store.assignsTo topic turn).toList ++ assigned topic (store.step turn) rest

variable {store later : Store} {id other : ProjectId} {branch name : BranchName}
  {topic : BranchTopic} {hash : CommitHash} {data : CommitData} {turn : Turn} {turns : List Turn}

/-! ## Moves -/

/-- A branch and the hash of the commit that it is moved to. -/
def told (move : Option (BranchTopic × CommitData)) : Option (BranchTopic × CommitHash) :=
  move.map fun (topic, data) => (topic, data.hash)

/-- What is done to the branches and to those who listen: one head is moved, and those who listen to
it are told, or none. -/
structure Moves (store later : Store) (move : Option (BranchTopic × CommitData)) : Prop where
  sound : later.Sound
  watchers : later.watchers =
    move.elim store.watchers fun (topic, data) => store.watchers.send topic data
  head : ∀ id branch, later.headOf id branch =
    (onTopic (id, branch) (told move)).or (store.headOf id branch)
  kept : ∀ id, (store.projects.get? id).isSome → (later.projects.get? id).isSome

theorem Moves.refl (h : store.Sound) : store.Moves store none :=
  ⟨h, rfl, fun _ _ => rfl, fun _ => id⟩

theorem Moves.trans {middle : Store} {move : Option (BranchTopic × CommitData)}
    (hfirst : store.Moves middle none) (hsecond : middle.Moves later move) :
    store.Moves later move where
  sound := hsecond.sound
  watchers := hsecond.watchers.trans (by rw [hfirst.watchers]; rfl)
  head id branch := (hsecond.head id branch).trans (by rw [hfirst.head]; rfl)
  kept id hget := hsecond.kept id (hfirst.kept id hget)

theorem isSome_setProject (hget : (store.projects.get? id).isSome) (project : Project) :
    ((store.setProject other project).projects.get? id).isSome := by
  rw [get?_setProject]
  split_ifs with hid
  · rfl
  · exact hget

theorem moves_moved (h : store.Sound) {project : Project}
    (hget : store.projects.get? id = some project)
    (hstored : project.commits.get? data.hash = some data) (branch : BranchName) :
    store.Moves (store.moved id project branch data) (some ((id, branch), data)) where
  sound := h.moved hget hstored branch
  watchers := rfl
  head other name := by
    rw [headOf_moved hget, told, Option.map_some, onTopic]
    split_ifs with hsame
    · rfl
    · rfl
  kept other hother := isSome_setProject hother _

theorem moves_keeping (h : store.Sound) {project : Project} (hadmits : store.Admits data project) :
    store.Moves (store.keeping project data) none where
  sound := hadmits.sound_keeping h
  watchers := rfl
  head id branch := headOf_keeping hadmits id branch
  kept _ hget := isSome_setProject hget _

theorem moves_storing (h : store.Sound) {project : Project} (hadmits : store.Admits data project)
    (merge : CommitData) : store.Moves (store.storing project data merge) none where
  sound := hadmits.sound_storing h merge
  watchers := rfl
  head id branch := headOf_storing hadmits merge id branch
  kept _ hget := isSome_setProject (isSome_setProject hget _) _

theorem lands_error (error : RemoteError) : store.lands data (.error error) = none := by
  unfold lands
  cases data.branchName with
  | none => rfl
  | some branch => rfl

theorem lands_of {status : CommitStatus} (h : status = .synced → ∀ branch,
    data.branchName = some branch → store.headOf data.projectId branch = some data.hash)
    (hash : CommitHash) : store.lands data (.ok (.of status hash)) = none := by
  unfold lands
  cases hbranch : data.branchName with
  | none => rfl
  | some branch =>
      have hstays : ¬ (status = .synced ∧
          store.headOf data.projectId branch ≠ some data.hash) :=
        fun hmoves => hmoves.2 (h hmoves.1 branch hbranch)
      simp only [Except.toOption, bind, Option.bind_some, CommitResponse.landing_of, if_neg hstays,
        Option.bind_none]

theorem Push.exists_moves {answer : Except RemoteError CommitResponse} (h : store.Sound)
    (hpush : Push store data (later, answer)) :
    ∃ move, store.Moves later move ∧ store.lands data answer = told move := by
  cases hpush with
  | denied hdenies =>
      refine ⟨none, .refl h, ?_⟩
      cases hdenies with
      | altered hintact => exact lands_error _
      | homeless hnone => exact lands_error _
      | orphaned hget hunknown => exact lands_of (by nofun) _
  | @rested project _ hadmits hrests =>
      refine ⟨none, moves_keeping h hadmits, ?_⟩
      cases hrests with
      | unaddressed hbranch =>
          exact lands_of (fun _ branch hname => nomatch hbranch.symm.trans hname) _
      | branchless hbranch hhead => exact lands_error _
      | @already branch hbranch hhead =>
          refine lands_of (fun _ name hname => ?_) _
          obtain rfl := Option.some.inj (hbranch.symm.trans hname)
          exact (headOf_of_get? hadmits.found).trans hhead
      | forked hbranch hhead hother hexpected => exact lands_of (by nofun) _
  | @advanced project branch head kept hadmits hbranch hhead hother hexpected hkept =>
      have hhash : kept.hash = data.hash := (hadmits.sound h).keyed _ kept hkept
      have hkeeping := moves_keeping h hadmits
      have hmoves : store.headOf data.projectId branch ≠ some data.hash := by
        rw [headOf_of_get? hadmits.found, hhead]
        exact fun hsame => hother (Option.some.inj hsame)
      refine ⟨_, hkeeping.trans (moves_moved hkeeping.sound (get?_keeping ..) (hhash.symm ▸ hkept)
        branch), ?_⟩
      simp [lands, hbranch, Except.toOption, CommitResponse.landing_of, hmoves, told, hhash]
  | @merged project branch head base merge hadmits hbranch hhead hother hexpected hbase hmerge =>
      have hstoring := moves_storing h hadmits merge
      refine ⟨_, hstoring.trans (moves_moved hstoring.sound (get?_storing ..)
        ((Table.get?_insert ..).trans (if_pos rfl)) branch), ?_⟩
      simp [lands, hbranch, Except.toOption, CommitResponse.landing, CommitResponse.merged, told]

theorem exists_moves_createBranch (h : store.Sound) (id : ProjectId) (branch : BranchName)
    (hash : CommitHash) : ∃ move, store.Moves (store.step (.createBranch id branch hash)) move ∧
      store.assigns (.createBranch id branch hash) = told move := by
  simp only [step, assigns]
  cases hcreate : store.createBranch id branch hash with
  | error error => exact ⟨none, .refl h, rfl⟩
  | ok later =>
      obtain ⟨-, project, data, hget, hstored, rfl⟩ := exists_of_createBranch h hcreate
      obtain rfl : data.hash = hash := (h id project hget).keyed hash data hstored
      exact ⟨_, moves_moved h hget hstored branch, rfl⟩

theorem exists_moves_setHead (h : store.Sound) (id : ProjectId) (branch : BranchName)
    (old : Option CommitHash) (new : CommitHash) :
    ∃ move, store.Moves (store.step (.setHead id branch old new)) move ∧
      store.assigns (.setHead id branch old new) = told move := by
  simp only [step, assigns]
  cases hset : store.setHead id branch old new with
  | error error => exact ⟨none, .refl h, rfl⟩
  | ok result =>
      obtain ⟨later, response⟩ := result
      rcases setHead_cases h hset with ⟨rfl, rfl⟩ | ⟨rfl, project, data, hget, hstored, rfl⟩
      · exact ⟨none, .refl h, rfl⟩
      · obtain rfl : data.hash = new := (h id project hget).keyed new data hstored
        exact ⟨_, moves_moved h hget hstored branch, rfl⟩

/-! ## Turns of those who listen -/

theorem watch_of_isSome (hget : (store.projects.get? id).isSome) (branch : BranchName)
    (client : ClientId) : store.watch id branch client =
      .ok ({ store with watchers := (store.watchers.subscribe (id, branch) client).1 },
        (store.watchers.subscribe (id, branch) client).2) := by
  obtain ⟨project, hproject⟩ := Option.isSome_iff_exists.mp hget
  simp only [watch, project_of_get? hproject, bind, Except.bind, pure, Except.pure]

theorem step_watch_of_isSome (hget : (store.projects.get? id).isSome) (branch : BranchName)
    (client : ClientId) : store.step (.watch id branch client) =
      { store with watchers := (store.watchers.subscribe (id, branch) client).1 } := by
  simp only [step, watch_of_isSome hget]

theorem step_watch_of_none (hget : store.projects.get? id = none) (branch : BranchName)
    (client : ClientId) : store.step (.watch id branch client) = store := by
  simp [step, watch, Store.project, hget, bind, Except.bind]

theorem isSome_of_watch {client : ClientId} {stream : SubscriptionId}
    (hwatch : store.watch id branch client = .ok (later, stream)) :
    (store.projects.get? id).isSome := by
  cases hget : store.projects.get? id with
  | none => simp [watch, Store.project, hget, bind, Except.bind] at hwatch
  | some project => rfl

/-- To listen changes no project. -/
theorem projects_step_watch (store : Store) (id : ProjectId) (branch : BranchName)
    (client : ClientId) : (store.step (.watch id branch client)).projects = store.projects := by
  cases hget : store.projects.get? id with
  | none => rw [step_watch_of_none hget]
  | some project => rw [step_watch_of_isSome (Option.isSome_of_eq_some hget)]

theorem Sound.of_projects (h : store.Sound) (hsame : later.projects = store.projects) :
    later.Sound :=
  fun id project hget => h id project (hsame ▸ hget)

theorem headOf_of_projects (hsame : later.projects = store.projects) :
    later.headOf id branch = store.headOf id branch := by
  rw [headOf, hsame, headOf]

/-! ## All turns -/

theorem headOf_createProject (store : Store) (id other : ProjectId) (branch name : BranchName)
    (root : CommitData) : (store.createProject other name root).headOf id branch =
      if (other, name) = (id, branch) then some root.hash else store.headOf id branch := by
  refine (headOf_setProject ..).trans ?_
  by_cases hid : id = other
  · subst hid
    rw [if_pos rfl, Table.get?_insert]
    refine if_congr (by simp [eq_comm]) rfl ?_
    cases hget : store.projects.get? id with
    | none => rw [headOf, hget]; rfl
    | some project => rw [headOf_of_get? hget]; rfl
  · rw [if_neg hid, if_neg fun hsame => hid (Prod.mk.inj hsame).1.symm]

/-- A turn that moves heads and does not start a project. -/
def Turn.isMove : Turn → Bool
  | .push _ | .createBranch .. | .setHead .. => true
  | .createProject .. | .watch .. | .detach _ | .read _ => false

theorem exists_moves_step (h : store.Sound) (hturn : turn.isMove) :
    ∃ move, store.Moves (store.step turn) move ∧ store.assigns turn = told move := by
  cases turn with
  | push data => exact (push_makeCommit h data).exists_moves h
  | createBranch id branch hash => exact exists_moves_createBranch h id branch hash
  | setHead id branch old new => exact exists_moves_setHead h id branch old new
  | createProject id branch root => cases hturn
  | watch id branch client => cases hturn
  | detach client => cases hturn
  | read stream => cases hturn

/-- What a turn does to the projects: no project is lost, and the heads are what they are set to. -/
structure Evolves (store : Store) (turn : Turn) : Prop where
  sound : (store.step turn).Sound
  kept : ∀ id, (store.projects.get? id).isSome → ((store.step turn).projects.get? id).isSome
  head : ∀ id branch, (store.step turn).headOf id branch =
    (store.assignsTo (id, branch) turn).or (store.headOf id branch)

theorem evolves_of_projects (h : store.Sound) (hsame : (store.step turn).projects = store.projects)
    (hnone : store.assigns turn = none) : store.Evolves turn where
  sound := h.of_projects hsame
  kept id hget := by rwa [hsame]
  head id branch := by
    rw [assignsTo, hnone]
    exact headOf_of_projects hsame

theorem evolves_of_moves (h : store.Sound) (hturn : turn.isMove) : store.Evolves turn := by
  obtain ⟨move, hmoves, hassigns⟩ := exists_moves_step h hturn
  refine ⟨hmoves.sound, hmoves.kept, fun id branch => ?_⟩
  rw [hmoves.head, assignsTo, hassigns]

theorem Sound.evolves (h : store.Sound) (turn : Turn) : store.Evolves turn := by
  cases turn with
  | createProject id branch root =>
      refine ⟨h.createProject id branch root, fun other hget => isSome_setProject hget _,
        fun other name => ?_⟩
      refine (headOf_createProject ..).trans ?_
      simp only [assignsTo, assigns, onTopic]
      split_ifs with hsame
      · rfl
      · rfl
  | push data => exact evolves_of_moves h rfl
  | createBranch id branch hash => exact evolves_of_moves h rfl
  | setHead id branch old new => exact evolves_of_moves h rfl
  | watch id branch client =>
      exact evolves_of_projects h (projects_step_watch store id branch client) rfl
  | detach client => exact evolves_of_projects h rfl rfl
  | read stream => exact evolves_of_projects h rfl rfl

theorem Sound.run (h : store.Sound) (turns : List Turn) : (store.run turns).Sound := by
  induction turns generalizing store with
  | nil => exact h
  | cons turn rest ih => exact ih (h.evolves turn).sound

/-- The head of a branch is what the branch was set to last. -/
theorem Sound.headOf_run (h : store.Sound) (id : ProjectId) (branch : BranchName)
    (turns : List Turn) : (store.run turns).headOf id branch =
      (assigned (id, branch) store turns).getLast?.or (store.headOf id branch) := by
  induction turns generalizing store with
  | nil => rfl
  | cons turn rest ih =>
      have hstep := h.evolves turn
      refine (ih hstep.sound).trans ?_
      rw [hstep.head, assigned, List.getLast?_append, Option.or_assoc]
      cases store.assignsTo (id, branch) turn with
      | none => rfl
      | some hash => rfl

/-- A commit without parents. -/
def lone (hash : CommitHash) (branch : Option BranchName) : CommitData :=
  { projectId := "p", branchName := branch, coreObjects := ∅, oldHash := none
    commit := { id := hash, root := "", parents := [], updater := [], time := 0, message := ""
                branchName := none } }

/-- The hash that fits a commit without parents. -/
def loneHash : CommitHash := "#d3d119c733e2ef239a8213b6f79e692b66f3d998"

end Store

end Coauthor
