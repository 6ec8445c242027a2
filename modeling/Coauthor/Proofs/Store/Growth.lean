import Coauthor.Proofs.Store.Ancestry
import Coauthor.Proofs.Store.Push

/-!
# How a store grows

A push, and the start of a branch, keep every stored commit under its hash, and move a head only
to a commit that the head is an ancestor of.  So what is part of a branch stays part of it.  For
this a push must expect no other head than its own parent, and no two commits may share an id:
a commit that is stored already is not stored again, and a merge is stored in any case.
-/

namespace Coauthor

namespace Table

variable {Key Value : Type} [DecidableEq Key] {table : Table Key Value} {key : Key} {value : Value}

theorem mem_values_of_get? (hget : table.get? key = some value) : value ∈ table.values := by
  obtain ⟨entry, hentry, rfl⟩ := Option.map_eq_some_iff.mp hget
  exact List.mem_map_of_mem (List.mem_of_find?_eq_some hentry)

theorem insertEntry_subset (key : Key) (value : Value) (entries : List (Key × Value)) :
    insertEntry key value entries ⊆ (key, value) :: entries := by
  induction entries with
  | nil => exact List.Subset.refl _
  | cons entry rest ih =>
      intro found hmem
      unfold insertEntry at hmem
      split_ifs at hmem with hkey
      · rcases List.mem_cons.mp hmem with rfl | hrest
        · exact List.mem_cons_self
        · exact .tail _ (.tail _ hrest)
      · rcases List.mem_cons.mp hmem with rfl | hrest
        · exact .tail _ List.mem_cons_self
        · rcases List.mem_cons.mp (ih hrest) with rfl | hrest
          · exact List.mem_cons_self
          · exact .tail _ (.tail _ hrest)

theorem values_insert_subset (table : Table Key Value) (key : Key) (value : Value) :
    (table.insert key value).values ⊆ value :: table.values :=
  List.map_subset _ (insertEntry_subset key value table.entries)

end Table

/-- No two of the commits share an id. -/
def Commit.Distinct (made : List Commit) : Prop :=
  ∀ commit ∈ made, ∀ other ∈ made, commit.id = other.id → commit = other

theorem Commit.Distinct.subset {made all : List Commit} (h : Commit.Distinct all)
    (hsubset : made ⊆ all) : Commit.Distinct made :=
  fun commit hcommit other hother => h commit (hsubset hcommit) other (hsubset hother)

/-- The commit was taken, as it is or merged. -/
def CommitStatus.isAccepted : CommitStatus → Bool
  | .synced | .merged => true
  | .forked | .canceled => false

def CommitResponse.Accepts (response : CommitResponse) : Prop :=
  ∃ status, response.status? = some status ∧ status.isAccepted

theorem CommitResponse.not_accepts_of {status : CommitStatus} (hash : CommitHash)
    (hstatus : status.isAccepted = false) : ¬ (CommitResponse.of status hash).Accepts := by
  rintro ⟨other, hother, haccepted⟩
  obtain rfl := Option.some.inj ((CommitStatus.ofText?_text status).symm.trans hother)
  rw [hstatus] at haccepted
  cases haccepted

/-- A merge is made on both of what it merges. -/
def Merger.Joins (merger : Merger) : Prop :=
  ∀ pushed head merge, merger pushed head = some merge →
    pushed.hash ∈ merge.commit.parents ∧ head.hash ∈ merge.commit.parents

theorem Merger.joins_never : Merger.never.Joins := fun _ _ _ hmerge => nomatch hmerge

theorem Merger.joins_snapshot : Merger.snapshot.Joins := by
  intro pushed head merge hmerge
  obtain rfl := Option.some.inj hmerge
  exact ⟨.tail _ List.mem_cons_self, List.mem_cons_self⟩

namespace Commits

variable {commits later grown : Commits} {a b hash : CommitHash}

/-- Every commit is stored in the other table as well. -/
def Kept (commits later : Commits) : Prop :=
  ∀ hash data, commits.get? hash = some data →
    ∃ same, later.get? hash = some same ∧ same.commit = data.commit

theorem Kept.refl (commits : Commits) : commits.Kept commits := fun _ data hget => ⟨data, hget, rfl⟩

theorem Kept.trans (hfirst : commits.Kept later) (hsecond : later.Kept grown) :
    commits.Kept grown := by
  intro hash data hget
  obtain ⟨middle, hmiddle, hsame⟩ := hfirst hash data hget
  obtain ⟨last, hlast, hlater⟩ := hsecond hash middle hmiddle
  exact ⟨last, hlast, hlater.trans hsame⟩

theorem Kept.contains (h : commits.Kept later) (hstored : commits.contains hash) :
    later.contains hash := by
  obtain ⟨data, hget⟩ := Option.isSome_iff_exists.mp hstored
  obtain ⟨same, hsame, -⟩ := h hash data hget
  exact Option.isSome_iff_exists.mpr ⟨same, hsame⟩

theorem parentsOf_of_get? {data : CommitData} (hget : commits.get? hash = some data) :
    commits.parentsOf hash = data.commit.parents := by
  rw [parentsOf, hget]

/-- Ancestors stay ancestors. -/
theorem Kept.reaches (h : commits.Kept later) (hreaches : commits.Reaches b a) :
    later.Reaches b a := by
  refine Relation.ReflTransGen.mono (fun child parent hlink => ?_) _ _ hreaches
  cases hget : commits.get? child with
  | none => simp [parentsOf, hget] at hlink
  | some data =>
      obtain ⟨same, hsame, hcommit⟩ := h child data hget
      rw [parentsOf_of_get? hget] at hlink
      rw [parentsOf_of_get? hsame, hcommit]
      exact hlink

/-- A commit may be stored if it is new, or the same as before. -/
theorem kept_insert {data : CommitData}
    (hsame : ∀ stored, commits.get? data.hash = some stored → data.commit = stored.commit) :
    commits.Kept (commits.insert data.hash data) := by
  intro hash stored hget
  by_cases hhash : hash = data.hash
  · subst hhash
    exact ⟨data, by rw [Table.get?_insert, if_pos rfl], hsame stored hget⟩
  · exact ⟨stored, by rw [Table.get?_insert, if_neg hhash, hget], rfl⟩

end Commits

/-! ## Projects -/

/-- Commits are kept, and heads move on to commits that they are ancestors of. -/
structure Project.Grows (project grown : Project) : Prop where
  sound : grown.Sound
  kept : project.commits.Kept grown.commits
  heads : ∀ branch head, project.branches.get? branch = some head →
    ∃ moved, grown.branches.get? branch = some moved ∧ grown.commits.Reaches moved head

namespace Project

variable {project grown later : Project} {branch : BranchName} {hash : CommitHash}
  {data : CommitData}

theorem Grows.refl (h : project.Sound) : project.Grows project :=
  ⟨h, .refl _, fun _ head hhead => ⟨head, hhead, .refl⟩⟩

theorem Grows.trans (hfirst : project.Grows grown) (hsecond : grown.Grows later) :
    project.Grows later where
  sound := hsecond.sound
  kept := hfirst.kept.trans hsecond.kept
  heads := by
    intro branch head hhead
    obtain ⟨moved, hmoved, hreaches⟩ := hfirst.heads branch head hhead
    obtain ⟨last, hlast, hlater⟩ := hsecond.heads branch moved hmoved
    exact ⟨last, hlast, hlater.trans (hsecond.kept.reaches hreaches)⟩

theorem grows_insert (h : project.Sound)
    (hsame : ∀ stored, project.commits.get? data.hash = some stored → data.commit = stored.commit) :
    project.Grows { project with commits := project.commits.insert data.hash data } :=
  ⟨h.insert data, Commits.kept_insert hsame, fun _ head hhead => ⟨head, hhead, .refl⟩⟩

theorem grows_keep (h : project.Sound) (data : CommitData) :
    project.Grows (Store.keep project data) := by
  unfold Store.keep
  by_cases hstored : project.commits.contains data.hash
  · rw [if_pos hstored]
    exact .refl h
  · rw [if_neg hstored]
    refine grows_insert h fun stored hget => ?_
    exact absurd (Option.isSome_iff_exists.mpr ⟨stored, hget⟩) hstored

/-- A head may be moved to a commit that it is an ancestor of. -/
theorem grows_moveHead (h : project.Sound) (hhash : project.commits.contains hash)
    (hreaches : ∀ head, project.branches.get? branch = some head →
      project.commits.Reaches hash head) :
    project.Grows { project with branches := project.branches.insert branch hash } where
  sound := h.moveHead hhash branch
  kept := .refl _
  heads := by
    intro other head hhead
    by_cases hbranch : other = branch
    · subst hbranch
      exact ⟨hash, by rw [Table.get?_insert, if_pos rfl], hreaches head hhead⟩
    · exact ⟨head, by rw [Table.get?_insert, if_neg hbranch, hhead], .refl⟩

end Project

/-! ## Stores -/

namespace Store

variable {store later grown : Store} {id : ProjectId} {branch : BranchName}
  {a b hash head : CommitHash} {project : Project} {data found : CommitData}

structure Grows (store later : Store) : Prop where
  sound : later.Sound
  merger : later.merger = store.merger
  projects : ∀ id project, store.projects.get? id = some project →
    ∃ grown, later.projects.get? id = some grown ∧ project.Grows grown

/-- A stored commit is another or one of its ancestors. -/
def Descends (store : Store) (id : ProjectId) (b a : CommitHash) : Prop :=
  ∃ project, store.projects.get? id = some project ∧ project.commits.contains a ∧
    project.commits.Reaches b a

/-- A stored commit is the head of a branch or one of its ancestors. -/
def OnBranch (store : Store) (id : ProjectId) (branch : BranchName) (hash : CommitHash) : Prop :=
  ∃ head, store.headOf id branch = some head ∧ store.Descends id head hash

theorem Grows.refl (h : store.Sound) : store.Grows store :=
  ⟨h, rfl, fun id project hget => ⟨project, hget, .refl (h id project hget)⟩⟩

theorem Grows.trans (hfirst : store.Grows later) (hsecond : later.Grows grown) :
    store.Grows grown where
  sound := hsecond.sound
  merger := hsecond.merger.trans hfirst.merger
  projects := by
    intro id project hget
    obtain ⟨middle, hmiddle, hbefore⟩ := hfirst.projects id project hget
    obtain ⟨last, hlast, hafter⟩ := hsecond.projects id middle hmiddle
    exact ⟨last, hlast, hbefore.trans hafter⟩

/-- Nothing depends on who listens. -/
theorem Grows.of_projects (h : store.Grows later) (hprojects : grown.projects = later.projects)
    (hmerger : grown.merger = later.merger) : store.Grows grown where
  sound := fun id project hget => h.sound id project (hprojects ▸ hget)
  merger := hmerger.trans h.merger
  projects := by
    rw [hprojects]
    exact h.projects

theorem Grows.descends (h : store.Grows later) (hdescends : store.Descends id b a) :
    later.Descends id b a := by
  obtain ⟨project, hget, hstored, hreaches⟩ := hdescends
  obtain ⟨grown, hgrown, hproject⟩ := h.projects id project hget
  exact ⟨grown, hgrown, hproject.kept.contains hstored, hproject.kept.reaches hreaches⟩

theorem Descends.trans {c : CommitHash} (hfirst : store.Descends id c b)
    (hsecond : store.Descends id b a) : store.Descends id c a := by
  obtain ⟨project, hget, -, hreaches⟩ := hfirst
  obtain ⟨same, hsame, hstored, hlater⟩ := hsecond
  obtain rfl := Option.some.inj (hget.symm.trans hsame)
  exact ⟨project, hget, hstored, hreaches.trans hlater⟩

theorem headOf_eq_some_iff : store.headOf id branch = some head ↔
    ∃ project, store.projects.get? id = some project ∧
      project.branches.get? branch = some head :=
  Option.bind_eq_some_iff

/-- What is part of a branch stays part of it. -/
theorem Grows.onBranch (h : store.Grows later) (honBranch : store.OnBranch id branch hash) :
    later.OnBranch id branch hash := by
  obtain ⟨head, hhead, project, hget, hstored, hreaches⟩ := honBranch
  obtain ⟨same, hsame, hbranch⟩ := headOf_eq_some_iff.mp hhead
  obtain rfl := Option.some.inj (hget.symm.trans hsame)
  obtain ⟨grown, hgrown, hproject⟩ := h.projects id project hget
  obtain ⟨moved, hmoved, hforth⟩ := hproject.heads branch head hbranch
  exact ⟨moved, headOf_eq_some_iff.mpr ⟨grown, hgrown, hmoved⟩, grown, hgrown,
    hproject.kept.contains hstored, hforth.trans (hproject.kept.reaches hreaches)⟩

/-- The ancestors of what is part of a branch are part of it. -/
theorem OnBranch.descend (h : store.OnBranch id branch b) (hdescends : store.Descends id b a) :
    store.OnBranch id branch a := by
  obtain ⟨head, hhead, hbranch⟩ := h
  exact ⟨head, hhead, hbranch.trans hdescends⟩

/-- A head is part of its branch. -/
theorem onBranch_head (h : store.Sound) (hhead : store.headOf id branch = some head) :
    store.OnBranch id branch head := by
  obtain ⟨project, hget, hbranch⟩ := headOf_eq_some_iff.mp hhead
  exact ⟨head, hhead, project, hget, (h id project hget).heads branch head hbranch, .refl⟩

theorem grows_setProject {grown : Project} (h : store.Sound)
    (hget : store.projects.get? id = some project) (hgrows : project.Grows grown) :
    store.Grows (store.setProject id grown) where
  sound := h.setProject hgrows.sound
  merger := rfl
  projects := by
    intro other found hfound
    by_cases hid : other = id
    · subst hid
      obtain rfl := Option.some.inj (hget.symm.trans hfound)
      exact ⟨grown, by rw [get?_setProject, if_pos rfl], hgrows⟩
    · exact ⟨found, by rw [get?_setProject, if_neg hid, hfound], .refl (h other found hfound)⟩

theorem grows_watch (h : store.Sound) {client : ClientId} {stream : SubscriptionId}
    (hwatch : store.watch id branch client = .ok (later, stream)) : store.Grows later := by
  unfold watch at hwatch
  cases hproject : store.project id with
  | error error => simp [hproject, bind, Except.bind] at hwatch
  | ok project =>
      simp only [hproject, bind, Except.bind, pure, Except.pure] at hwatch
      obtain ⟨rfl, -⟩ := Prod.mk.inj (Except.ok.inj hwatch)
      exact (Grows.refl h).of_projects rfl rfl

/-! ## Moving heads -/

theorem grows_moved (h : store.Sound) (hget : store.projects.get? id = some project)
    (hstored : project.commits.contains data.hash)
    (hreaches : ∀ head, project.branches.get? branch = some head →
      project.commits.Reaches data.hash head) :
    store.Grows (store.moved id project branch data) := by
  have hproject := Project.grows_moveHead (h id project hget) hstored hreaches
  exact (grows_setProject h hget hproject).of_projects rfl rfl

theorem onBranch_moved {commit : CommitHash} (hstored : project.commits.contains commit)
    (hreaches : project.commits.Reaches data.hash commit) :
    (store.moved id project branch data).OnBranch id branch commit := by
  let grown : Project := { project with branches := project.branches.insert branch data.hash }
  have hgrown : (store.moved id project branch data).projects.get? id = some grown := by
    exact (get?_setProject ..).trans (if_pos rfl)
  have hhead : grown.branches.get? branch = some data.hash := by
    rw [Table.get?_insert, if_pos rfl]
  exact ⟨data.hash, headOf_eq_some_iff.mpr ⟨grown, hgrown, hhead⟩, grown, hgrown, hstored, hreaches⟩

/-- A branch may be started anywhere. -/
theorem grows_createBranch (h : store.Sound)
    (hcreate : store.createBranch id branch hash = .ok later) : store.Grows later := by
  obtain ⟨hnew, project, data, hget, hstored, rfl⟩ := exists_of_createBranch h hcreate
  obtain rfl : data.hash = hash := (h id project hget).keyed hash data hstored
  refine grows_moved h hget (Option.isSome_iff_exists.mpr ⟨data, hstored⟩) fun head hhead => ?_
  cases ((headOf_of_get? hget).trans hhead).symm.trans hnew

/-! ## Pushing -/

/-- The commits of all projects. -/
def commitList (store : Store) : List Commit :=
  store.projects.values.flatMap fun project => project.commits.values.map (·.commit)

theorem mem_commitList (hget : store.projects.get? id = some project)
    (hstored : project.commits.get? hash = some data) : data.commit ∈ store.commitList :=
  List.mem_flatMap.mpr ⟨project, Table.mem_values_of_get? hget,
    List.mem_map_of_mem (Table.mem_values_of_get? hstored)⟩

/-- A store of commits that were made with distinct ids, with a merger that joins. -/
structure Orderly (made : List Commit) (store : Store) : Prop where
  sound : store.Sound
  joins : store.merger.Joins
  distinct : Commit.Distinct made
  stores : store.commitList ⊆ made

variable {made : List Commit}

theorem Orderly.grow (h : store.Orderly made) (hgrows : store.Grows later)
    (hstores : later.commitList ⊆ made) : later.Orderly made :=
  ⟨hgrows.sound, hgrows.merger.symm ▸ h.joins, h.distinct, hstores⟩

/-- Of one id there is one commit. -/
theorem Orderly.commit_eq_of_hash (h : store.Orderly made)
    (hget : store.projects.get? id = some project)
    (hstored : project.commits.get? data.hash = some found) (hmade : data.commit ∈ made) :
    data.commit = found.commit := by
  have hkey : found.hash = data.hash := (h.sound id project hget).keyed _ found hstored
  exact h.distinct _ hmade _ (h.stores (mem_commitList hget hstored)) hkey.symm

/-- To change a project adds no commit to the others. -/
theorem commitList_setProject_subset (hstores : store.commitList ⊆ made)
    (hproject : project.commits.values.map (·.commit) ⊆ made) (id : ProjectId) :
    (store.setProject id project).commitList ⊆ made := by
  intro commit hmem
  obtain ⟨changed, hchanged, hcommit⟩ := List.mem_flatMap.mp hmem
  rcases List.mem_cons.mp (Table.values_insert_subset _ _ _ hchanged) with rfl | hother
  · exact hproject hcommit
  · exact hstores (List.mem_flatMap.mpr ⟨changed, hother, hcommit⟩)

theorem commits_subset (hget : store.projects.get? id = some project)
    (hstores : store.commitList ⊆ made) : project.commits.values.map (·.commit) ⊆ made :=
  fun _ hmem => hstores (List.mem_flatMap.mpr ⟨project, Table.mem_values_of_get? hget, hmem⟩)

theorem commits_insert_subset {commits : Commits} (hcommits : commits.values.map (·.commit) ⊆ made)
    (hmade : data.commit ∈ made) :
    (commits.insert data.hash data).values.map (·.commit) ⊆ made := by
  intro commit hmem
  obtain ⟨found, hfound, rfl⟩ := List.mem_map.mp hmem
  rcases List.mem_cons.mp (Table.values_insert_subset _ _ _ hfound) with rfl | hfound
  · exact hmade
  · exact hcommits (List.mem_map_of_mem hfound)

theorem commits_keep_subset (hcommits : project.commits.values.map (·.commit) ⊆ made)
    (hmade : data.commit ∈ made) : (keep project data).commits.values.map (·.commit) ⊆ made := by
  unfold keep
  split_ifs with hstored
  · exact hcommits
  · exact commits_insert_subset hcommits hmade

/-- To keep a commit adds no other. -/
theorem commitList_keep_subset (hget : store.projects.get? id = some project)
    (hstores : store.commitList ⊆ made) (hmade : data.commit ∈ made) :
    (store.setProject id (keep project data)).commitList ⊆ made :=
  commitList_setProject_subset hstores (commits_keep_subset (commits_subset hget hstores) hmade) id

/-- A pushed commit is kept beside the others. -/
theorem Orderly.keeping (h : store.Orderly made) (hadmits : store.Admits data project)
    (hmade : data.commit ∈ made) :
    store.Grows (store.keeping project data) ∧ (store.keeping project data).Orderly made := by
  have hgrows : store.Grows (store.keeping project data) :=
    grows_setProject h.sound hadmits.found (Project.grows_keep (h.sound _ _ hadmits.found) data)
  exact ⟨hgrows, h.grow hgrows (commitList_keep_subset hadmits.found h.stores hmade)⟩

/-- What a push leads to: the store grows, and an accepted commit is part of its branch. -/
structure Takes (store : Store) (data : CommitData)
    (result : Store × Except RemoteError CommitResponse) : Prop where
  grows : store.Grows result.1
  landed : ∀ response, result.2 = .ok response → response.Accepts →
    ∀ branch, data.branchName = some branch → result.1.OnBranch data.projectId branch data.hash

/-- A push that is not carried out, or refused, lets the store grow at most. -/
theorem takes_of_error {error : RemoteError} (hgrows : store.Grows later) :
    store.Takes data (later, .error error) :=
  ⟨hgrows, fun _ hresponse => nomatch hresponse⟩

/-- A branch is advanced to a commit that was made on its head. -/
theorem Admits.takes_advanced (hadmits : store.Admits data project) (h : store.Orderly made)
    (hmade : data.commit ∈ made) (hhead : project.branches.get? branch = some head)
    (hparent : head ∈ data.commit.parents)
    (hkept : (keep project data).commits.get? data.hash = some found) :
    let later := (store.keeping project data).moved data.projectId (keep project data) branch found
    store.Grows later ∧ later.OnBranch data.projectId branch data.hash := by
  obtain ⟨hgrows, horderly⟩ := h.keeping hadmits hmade
  have hget := get?_keeping store project data
  have hcommit : data.commit = found.commit := horderly.commit_eq_of_hash hget hkept hmade
  have hhash : found.hash = data.hash := (hadmits.sound h.sound).keyed _ found hkept
  have hstored : (keep project data).commits.contains data.hash :=
    Option.isSome_iff_exists.mpr ⟨found, hkept⟩
  refine ⟨hgrows.trans (grows_moved horderly.sound hget (hhash ▸ hstored) fun other hother => ?_),
    onBranch_moved hstored (hhash ▸ .refl)⟩
  rw [branches_keep] at hother
  obtain rfl := Option.some.inj (hhead.symm.trans hother)
  refine .single ?_
  rw [hhash, Commits.parentsOf_of_get? hkept, ← hcommit]
  exact hparent

/-- A branch is advanced to the merge of a commit with its head. -/
theorem Admits.takes_merged {base merge : CommitData} (hadmits : store.Admits data project)
    (h : store.Orderly made) (hmade : data.commit ∈ made)
    (hhead : project.branches.get? branch = some head)
    (hbase : (keep project data).commits.get? head = some base)
    (hmerge : store.merger data base = some merge) (hmerged : merge.commit ∈ made) :
    let later := (store.storing project data merge).moved data.projectId
      (merging project data merge) branch merge
    store.Grows later ∧ later.OnBranch data.projectId branch data.hash := by
  obtain ⟨hgrows, horderly⟩ := h.keeping hadmits hmade
  have hsound := hadmits.sound h.sound
  have hbasehash : base.hash = head := hsound.keyed head base hbase
  obtain ⟨hpushed, hparent⟩ := h.joins data base merge hmerge
  -- The merge is stored over whatever had its id before, which was the same commit.
  have hinsert : (keep project data).Grows (merging project data merge) :=
    Project.grows_insert hsound fun other hother =>
      horderly.commit_eq_of_hash (get?_keeping ..) hother hmerged
  have hstoring : (store.keeping project data).Grows (store.storing project data merge) :=
    grows_setProject horderly.sound (get?_keeping ..) hinsert
  have hmergeget : (merging project data merge).commits.get? merge.hash = some merge :=
    (Table.get?_insert ..).trans (if_pos rfl)
  have hlinks : (merging project data merge).commits.parentsOf merge.hash = merge.commit.parents :=
    Commits.parentsOf_of_get? hmergeget
  have hstored : (merging project data merge).commits.contains data.hash :=
    hinsert.kept.contains ((contains_keep project data).mpr (.inl rfl))
  refine ⟨(hgrows.trans hstoring).trans (grows_moved hstoring.sound (get?_storing ..)
    (Option.isSome_iff_exists.mpr ⟨merge, hmergeget⟩) fun other hother => .single ?_),
    onBranch_moved hstored (.single ?_)⟩
  · have hsame : project.branches.get? branch = some other :=
      (congrArg (·.get? branch) (branches_keep project data)).symm.trans hother
    obtain rfl := Option.some.inj (hhead.symm.trans hsame)
    rw [hlinks]
    exact hbasehash ▸ hparent
  · rw [hlinks]
    exact hpushed

/-- A push that is denied. -/
theorem Denies.takes {answer : Except RemoteError CommitResponse}
    (hdenies : store.Denies data answer) (h : store.Sound) : store.Takes data (store, answer) := by
  cases hdenies with
  | altered hintact => exact takes_of_error (.refl h)
  | homeless hnone => exact takes_of_error (.refl h)
  | orphaned hget hunknown =>
      refine ⟨.refl h, fun response hresponse haccepts => ?_⟩
      obtain rfl := Except.ok.inj hresponse
      exact absurd haccepts (CommitResponse.not_accepts_of data.hash rfl)

/-- A push that moves no head. -/
theorem Rests.takes {answer : Except RemoteError CommitResponse}
    (hrests : Rests project data answer) (hadmits : store.Admits data project)
    (h : store.Orderly made) (hmade : data.commit ∈ made) :
    store.Takes data (store.keeping project data, answer) := by
  obtain ⟨hgrows, horderly⟩ := h.keeping hadmits hmade
  refine ⟨hgrows, fun response hresponse haccepts name hname => ?_⟩
  cases hrests with
  | unaddressed hbranch => cases hbranch.symm.trans hname
  | branchless hbranch hnone => cases hresponse
  | already hbranch hhead =>
      obtain rfl := Option.some.inj (hbranch.symm.trans hname)
      refine onBranch_head horderly.sound ?_
      rw [headOf_keeping hadmits]
      exact (headOf_of_get? hadmits.found).trans hhead
  | forked hbranch hhead hother hexpected =>
      obtain rfl := Except.ok.inj hresponse
      exact absurd haccepts (CommitResponse.not_accepts_of data.hash rfl)

theorem takes_of_onBranch {answer : Except RemoteError CommitResponse}
    (hbranch : data.branchName = some branch)
    (h : store.Grows later ∧ later.OnBranch data.projectId branch data.hash) :
    store.Takes data (later, answer) := by
  refine ⟨h.1, fun response hresponse haccepts name hname => ?_⟩
  obtain rfl := Option.some.inj (hbranch.symm.trans hname)
  exact h.2

theorem Push.takes {result : Store × Except RemoteError CommitResponse}
    (hpush : Push store data result) (h : store.Orderly made)
    (hlater : result.1.commitList ⊆ made) (hmade : data.commit ∈ made)
    (hold : data.oldHash = none) : store.Takes data result := by
  cases hpush with
  | denied hdenies => exact hdenies.takes h.sound
  | rested hadmits hrests => exact hrests.takes hadmits h hmade
  | advanced hadmits hbranch hhead hother hexpected hkept =>
      refine takes_of_onBranch hbranch (hadmits.takes_advanced h hmade hhead ?_ hkept)
      rw [CommitData.expectedHead, hold] at hexpected
      exact List.mem_of_mem_head? hexpected
  | @merged project branch head base merge hadmits hbranch hhead hother hexpected hbase hmerge =>
      have hmerged : merge.commit ∈ made :=
        hlater (mem_commitList ((get?_setProject ..).trans (if_pos rfl))
          ((Table.get?_insert ..).trans (if_pos rfl)))
      exact takes_of_onBranch hbranch (hadmits.takes_merged h hmade hhead hbase hmerge hmerged)

theorem takes_makeCommit (h : store.Orderly made)
    (hlater : (store.makeCommit data).1.commitList ⊆ made) (hmade : data.commit ∈ made)
    (hold : data.oldHash = none) : store.Takes data (store.makeCommit data) :=
  (push_makeCommit h.sound data).takes h hlater hmade hold

end Store

end Coauthor
