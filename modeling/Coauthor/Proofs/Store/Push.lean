import Coauthor.Proofs.Store.Sound

/-!
# What becomes of a pushed commit

A push is denied and leaves the store alone, or its commit is kept and rests, or the branch is
moved to it, or it is merged with the head and the branch is moved to the merge.  In the last case
alone is something stored in place of what was there before: a pushed commit is kept only where no
commit has its hash, a merge is stored in any case.
-/

namespace Coauthor

namespace Store

variable {store later : Store} {id other : ProjectId} {branch : BranchName} {hash : CommitHash}
  {data found : CommitData} {project : Project} {response : CommitResponse}

/-- The commit that a project has under a hash. -/
def commitAt (store : Store) (id : ProjectId) (hash : CommitHash) : Option CommitData :=
  store.projects.get? id >>= (·.commits.get? hash)

theorem load_eq_ok_iff : store.load id hash = .ok data ↔ store.commitAt id hash = some data := by
  unfold load commitAt
  cases hget : store.projects.get? id with
  | none => simp [Store.project, hget, bind, Except.bind]
  | some project =>
      simp only [project_of_get? hget, bind, Except.bind, Option.bind_some]
      cases project.commits.get? hash with
      | none => simp
      | some found => simp [pure, Except.pure]

theorem commitAt_of_get? (hget : store.projects.get? id = some project) :
    store.commitAt id hash = project.commits.get? hash := by
  rw [commitAt, hget]
  rfl

theorem headOf_of_get? (hget : store.projects.get? id = some project) :
    store.headOf id branch = project.branches.get? branch := by
  rw [headOf, hget]
  rfl

theorem commitAt_setProject (store : Store) (id other : ProjectId) (hash : CommitHash)
    (project : Project) : (store.setProject other project).commitAt id hash =
      if id = other then project.commits.get? hash else store.commitAt id hash := by
  rw [commitAt, get?_setProject]
  split_ifs with hid
  · rfl
  · rfl

/-! ## Moving heads -/

/-- The store after a head was moved. -/
def moved (store : Store) (id : ProjectId) (project : Project) (branch : BranchName)
    (data : CommitData) : Store :=
  { store.setProject id { project with branches := project.branches.insert branch data.hash } with
    watchers := store.watchers.send (id, branch) data }

theorem advance_eq_ok_iff (hget : store.projects.get? id = some project)
    (hproject : project.Sound) :
    store.advance id branch hash = .ok later ↔ ∃ data,
      project.commits.get? hash = some data ∧ later = store.moved id project branch data := by
  simp only [advance, project_of_get? hget, bind, Except.bind]
  cases hstored : project.commits.get? hash with
  | none => simp
  | some data =>
      have hhash : data.hash = hash := hproject.keyed hash data hstored
      simp only [pure, Except.pure, Except.ok.injEq, Option.some.injEq, exists_eq_left', moved,
        hhash, eq_comm]
      exact Iff.rfl

/-- A head is moved in a store that has its project and the commit. -/
theorem advance_eq_ok (h : store.Sound) : store.advance id branch hash = .ok later ↔
    ∃ project data, store.projects.get? id = some project ∧
      project.commits.get? hash = some data ∧ later = store.moved id project branch data := by
  cases hget : store.projects.get? id with
  | none => simp [advance, Store.project, hget, bind, Except.bind]
  | some project => simp [advance_eq_ok_iff hget (h id project hget)]

theorem Sound.moved (h : store.Sound) (hget : store.projects.get? id = some project)
    (hstored : project.commits.get? hash = some data) (branch : BranchName) :
    (store.moved id project branch data).Sound := by
  obtain rfl : data.hash = hash := (h id project hget).keyed hash data hstored
  exact h.setProject ((h id project hget).moveHead (Option.isSome_iff_exists.mpr ⟨data, hstored⟩)
    branch)

/-- No commit is stored where a head is moved. -/
theorem commitAt_moved (hget : store.projects.get? id = some project) (branch : BranchName)
    (data : CommitData) (other : ProjectId) (hash : CommitHash) :
    (store.moved id project branch data).commitAt other hash = store.commitAt other hash := by
  refine (commitAt_setProject ..).trans ?_
  split_ifs with hid
  · rw [hid, commitAt_of_get? hget]
  · rfl

theorem headOf_moved (hget : store.projects.get? id = some project) (branch name : BranchName)
    (data : CommitData) (other : ProjectId) :
    (store.moved id project branch data).headOf other name =
      if (id, branch) = (other, name) then some data.hash else store.headOf other name := by
  refine (headOf_setProject ..).trans ?_
  by_cases hid : other = id
  · subst hid
    rw [if_pos rfl, Table.get?_insert, headOf_of_get? hget]
    exact if_congr (by simp [eq_comm]) rfl rfl
  · rw [if_neg hid, if_neg fun hsame => hid (Prod.mk.inj hsame).1.symm]

/-- A branch is created at a stored commit, where there is none of its name. -/
theorem exists_of_createBranch (h : store.Sound)
    (hcreate : store.createBranch id branch hash = .ok later) :
    store.headOf id branch = none ∧ ∃ project data, store.projects.get? id = some project ∧
      project.commits.get? hash = some data ∧ later = store.moved id project branch data := by
  unfold createBranch at hcreate
  cases hget : store.projects.get? id with
  | none => simp [Store.project, hget, bind, Except.bind] at hcreate
  | some project =>
      simp only [project_of_get? hget, bind, Except.bind] at hcreate
      split_ifs at hcreate with hexists
      obtain ⟨data, hstored, rfl⟩ := (advance_eq_ok_iff hget (h id project hget)).mp hcreate
      refine ⟨(headOf_of_get? hget).trans ?_, project, data, rfl, hstored, rfl⟩
      exact Option.not_isSome_iff_eq_none.mp hexists

/-- Setting a head is answered as a fork, or moves it to a stored commit. -/
theorem setHead_cases (h : store.Sound) {old : Option CommitHash}
    (hset : store.setHead id branch old hash = .ok (later, response)) :
    (later = store ∧ response = .of .forked hash) ∨
      (response = .of .synced hash ∧ ∃ project data, store.projects.get? id = some project ∧
        project.commits.get? hash = some data ∧ later = store.moved id project branch data) := by
  unfold setHead at hset
  cases hproject : store.project id with
  | error error => simp [hproject, bind, Except.bind] at hset
  | ok project =>
      simp only [hproject, bind, Except.bind] at hset
      split_ifs at hset with hstale
      · obtain ⟨rfl, rfl⟩ := Prod.mk.inj (Except.ok.inj hset)
        exact .inl ⟨rfl, rfl⟩
      · cases hadvance : store.advance id branch hash with
        | error error => simp [hadvance] at hset
        | ok moved =>
            simp only [hadvance, pure, Except.pure] at hset
            obtain ⟨rfl, rfl⟩ := Prod.mk.inj (Except.ok.inj hset)
            exact .inr ⟨rfl, (advance_eq_ok h).mp hadvance⟩

/-! ## Pushing -/

/-- The push of a commit that is not kept. -/
inductive Denies (store : Store) (data : CommitData) :
    Except RemoteError CommitResponse → Prop where
  | altered (hintact : data.commit.isIntact = false) :
      Denies store data (.error (.rejected (data.hash ++ " does not match its content")))
  | homeless (hnone : store.projects.get? data.projectId = none) :
      Denies store data (.error (.notFound data.projectId))
  | orphaned {project : Project} (hget : store.projects.get? data.projectId = some project)
      (hunknown : knowsParent project data = false) :
      Denies store data (.ok (.of .canceled data.hash))

/-- A pushed commit is kept: it is intact, and its project has its first parent. -/
structure Admits (store : Store) (data : CommitData) (project : Project) : Prop where
  intact : data.commit.isIntact = true
  found : store.projects.get? data.projectId = some project
  rooted : knowsParent project data = true

/-- The push of a commit that is kept and moves no branch. -/
inductive Rests (project : Project) (data : CommitData) :
    Except RemoteError CommitResponse → Prop where
  | unaddressed (hbranch : data.branchName = none) :
      Rests project data (.ok (.of .synced data.hash))
  | branchless {branch : BranchName} (hbranch : data.branchName = some branch)
      (hhead : project.branches.get? branch = none) :
      Rests project data (.error (.notFound branch))
  /-- The commit was the head before. -/
  | already {branch : BranchName} (hbranch : data.branchName = some branch)
      (hhead : project.branches.get? branch = some data.hash) :
      Rests project data (.ok (.of .synced data.hash))
  | forked {branch : BranchName} {head : CommitHash} (hbranch : data.branchName = some branch)
      (hhead : project.branches.get? branch = some head) (hother : head ≠ data.hash)
      (hexpected : data.expectedHead ≠ some head) : Rests project data (.ok (.of .forked data.hash))

/-- The store with a pushed commit. -/
def keeping (store : Store) (project : Project) (data : CommitData) : Store :=
  store.setProject data.projectId (keep project data)

/-- The project of a pushed commit with the commit and a merge of it. -/
def merging (project : Project) (data merge : CommitData) : Project :=
  { keep project data with commits := (keep project data).commits.insert merge.hash merge }

def storing (store : Store) (project : Project) (data merge : CommitData) : Store :=
  (store.keeping project data).setProject data.projectId (merging project data merge)

/-- What a push leads to. -/
inductive Push (store : Store) (data : CommitData) :
    Store × Except RemoteError CommitResponse → Prop where
  | denied {answer : Except RemoteError CommitResponse} (hdenies : store.Denies data answer) :
      Push store data (store, answer)
  | rested {project : Project} {answer : Except RemoteError CommitResponse}
      (hadmits : store.Admits data project) (hrests : Rests project data answer) :
      Push store data (store.keeping project data, answer)
  | advanced {project : Project} {branch : BranchName} {head : CommitHash} {kept : CommitData}
      (hadmits : store.Admits data project) (hbranch : data.branchName = some branch)
      (hhead : project.branches.get? branch = some head) (hother : head ≠ data.hash)
      (hexpected : data.expectedHead = some head)
      (hkept : (keep project data).commits.get? data.hash = some kept) :
      Push store data
        ((store.keeping project data).moved data.projectId (keep project data) branch kept,
          .ok (.of .synced data.hash))
  | merged {project : Project} {branch : BranchName} {head : CommitHash} {base merge : CommitData}
      (hadmits : store.Admits data project) (hbranch : data.branchName = some branch)
      (hhead : project.branches.get? branch = some head) (hother : head ≠ data.hash)
      (hexpected : data.expectedHead ≠ some head)
      (hbase : (keep project data).commits.get? head = some base)
      (hmerge : store.merger data base = some merge) :
      Push store data
        ((store.storing project data merge).moved data.projectId (merging project data merge) branch
          merge, .ok (.merged data.hash merge.hash))

theorem Admits.sound (h : store.Sound) (hadmits : store.Admits data project) :
    (keep project data).Sound :=
  keep_sound (h _ _ hadmits.found) data

theorem Admits.sound_keeping (h : store.Sound) (hadmits : store.Admits data project) :
    (store.keeping project data).Sound :=
  h.setProject (hadmits.sound h)

theorem get?_keeping (store : Store) (project : Project) (data : CommitData) :
    (store.keeping project data).projects.get? data.projectId = some (keep project data) :=
  (get?_setProject ..).trans (if_pos rfl)

theorem get?_storing (store : Store) (project : Project) (data merge : CommitData) :
    (store.storing project data merge).projects.get? data.projectId =
      some (merging project data merge) :=
  (get?_setProject ..).trans (if_pos rfl)

theorem exists_get?_keep (project : Project) (data : CommitData) :
    ∃ kept, (keep project data).commits.get? data.hash = some kept :=
  Option.isSome_iff_exists.mp ((contains_keep project data).mpr (.inl rfl))

/-- A kept commit rests, or its branch is moved. -/
theorem push_land (h : store.Sound) (hadmits : store.Admits data project)
    (hbranch : data.branchName = some branch) {head : CommitHash}
    (hhead : project.branches.get? branch = some head) :
    ∃ later response, (store.keeping project data).land (keep project data) data branch head =
      .ok (later, response) ∧ Push store data (later, .ok response) := by
  have hsound := hadmits.sound_keeping h
  unfold land
  by_cases halready : head = data.hash
  · subst halready
    exact ⟨_, _, if_pos rfl, .rested hadmits (.already hbranch hhead)⟩
  rw [if_neg halready]
  by_cases hexpected : data.expectedHead = some head
  · obtain ⟨kept, hkept⟩ := exists_get?_keep project data
    have hadvance : (store.keeping project data).advance data.projectId branch data.hash =
        .ok ((store.keeping project data).moved data.projectId (keep project data) branch kept) :=
      (advance_eq_ok_iff (get?_keeping store project data) (hadmits.sound h)).mpr ⟨kept, hkept, rfl⟩
    refine ⟨_, _, ?_, .advanced hadmits hbranch hhead halready hexpected hkept⟩
    simp [hexpected, hadvance, bind, Except.bind, pure, Except.pure]
  rw [if_neg hexpected]
  cases hmerge : (store.keeping project data).merge? (keep project data) data head with
  | none => exact ⟨_, _, rfl, .rested hadmits (.forked hbranch hhead halready hexpected)⟩
  | some merge =>
      obtain ⟨base, hbase, hmerger⟩ := Option.bind_eq_some_iff.mp hmerge
      have hadvance : (store.storing project data merge).advance data.projectId branch merge.hash =
          .ok ((store.storing project data merge).moved data.projectId
            (merging project data merge) branch merge) := by
        refine (advance_eq_ok_iff (get?_storing ..) ((hadmits.sound h).insert merge)).mpr ?_
        exact ⟨merge, (Table.get?_insert ..).trans (if_pos rfl), rfl⟩
      refine ⟨_, _, ?_, .merged hadmits hbranch hhead halready hexpected hbase hmerger⟩
      simp only [storing, merging] at hadvance
      simp [merging, storing, hadvance, bind, Except.bind, pure, Except.pure]

theorem push_makeCommit (h : store.Sound) (data : CommitData) :
    Push store data (store.makeCommit data) := by
  unfold makeCommit
  split_ifs with hintact
  · exact .denied (.altered hintact)
  cases hget : store.projects.get? data.projectId with
  | none =>
      simp only [Store.project, hget]
      exact .denied (.homeless hget)
  | some project =>
      simp only [project_of_get? hget]
      split_ifs with hparent
      · exact .denied (.orphaned hget hparent)
      have hadmits : store.Admits data project :=
        ⟨eq_true_of_ne_false hintact, hget, eq_true_of_ne_false hparent⟩
      cases hbranch : data.branchName with
      | none => exact .rested hadmits (.unaddressed hbranch)
      | some branch =>
          simp only [branches_keep]
          cases hhead : project.branches.get? branch with
          | none => exact .rested hadmits (.branchless hbranch hhead)
          | some head =>
              obtain ⟨later, response, hland, hpush⟩ := push_land h hadmits hbranch hhead
              rw [keeping] at hland
              simp only [hland]
              exact hpush

/-! ## Commits and heads behind a push -/

theorem get?_keep (project : Project) (data : CommitData) (hash : CommitHash) :
    (keep project data).commits.get? hash =
      (project.commits.get? hash).or (if hash = data.hash then some data else none) := by
  by_cases hhash : hash = data.hash
  · subst hhash
    unfold keep
    by_cases hstored : project.commits.contains data.hash
    · obtain ⟨found, hfound⟩ := Option.isSome_iff_exists.mp hstored
      rw [if_pos hstored, hfound]
      rfl
    · have hnone : project.commits.get? data.hash = none := by
        simpa [Table.contains] using hstored
      rw [if_neg hstored, hnone, Table.get?_insert, if_pos rfl, if_pos rfl, Option.none_or]
  · unfold keep
    rw [if_neg hhash, Option.or_none]
    split_ifs with hstored
    · rfl
    · rw [Table.get?_insert, if_neg hhash]

/-- A commit that is kept takes no other's place. -/
theorem commitAt_keeping (hadmits : store.Admits data project) (id : ProjectId)
    (hash : CommitHash) : (store.keeping project data).commitAt id hash =
      (store.commitAt id hash).or
        (if (id, hash) = (data.projectId, data.hash) then some data else none) := by
  rw [keeping, commitAt_setProject]
  by_cases hid : id = data.projectId
  · subst hid
    rw [if_pos rfl, get?_keep, commitAt_of_get? hadmits.found]
    exact congrArg _ (if_congr (by simp) rfl rfl)
  · rw [if_neg hid, if_neg fun hsame => hid (Prod.mk.inj hsame).1, Option.or_none]

/-- A merge takes the place of what had its hash. -/
theorem commitAt_storing (store : Store) (project : Project) (data merge : CommitData)
    (id : ProjectId) (hash : CommitHash) : (store.storing project data merge).commitAt id hash =
      if (id, hash) = (data.projectId, merge.hash) then some merge
      else (store.keeping project data).commitAt id hash := by
  rw [storing, commitAt_setProject]
  by_cases hid : id = data.projectId
  · subst hid
    rw [if_pos rfl, merging, Table.get?_insert, commitAt_of_get? (get?_keeping ..)]
    exact if_congr (by simp) rfl rfl
  · rw [if_neg hid, if_neg fun hsame => hid (Prod.mk.inj hsame).1]

theorem headOf_keeping (hadmits : store.Admits data project) (id : ProjectId)
    (branch : BranchName) :
    (store.keeping project data).headOf id branch = store.headOf id branch := by
  rw [keeping, headOf_setProject, branches_keep]
  split_ifs with hid
  · rw [hid, headOf_of_get? hadmits.found]
  · rfl

theorem headOf_storing (hadmits : store.Admits data project) (merge : CommitData)
    (id : ProjectId) (branch : BranchName) :
    (store.storing project data merge).headOf id branch = store.headOf id branch := by
  rw [storing, headOf_setProject]
  split_ifs with hid
  · rw [hid, merging, branches_keep, headOf_of_get? hadmits.found]
  · exact headOf_keeping hadmits id branch

theorem Admits.sound_storing (h : store.Sound) (hadmits : store.Admits data project)
    (merge : CommitData) : (store.storing project data merge).Sound :=
  (hadmits.sound_keeping h).setProject ((hadmits.sound h).insert merge)

theorem Push.sound {result : Store × Except RemoteError CommitResponse} (h : store.Sound)
    (hpush : Push store data result) : result.1.Sound := by
  cases hpush with
  | denied hdenies => exact h
  | rested hadmits hrests => exact hadmits.sound_keeping h
  | @advanced project branch head kept hadmits hbranch hhead hother hexpected hkept =>
      have hhash : kept.hash = data.hash := (hadmits.sound h).keyed _ kept hkept
      exact (hadmits.sound_keeping h).moved (get?_keeping ..) (hhash.symm ▸ hkept) branch
  | @merged project branch head base merge hadmits hbranch hhead hother hexpected hbase hmerge =>
      exact (hadmits.sound_storing h merge).moved (get?_storing ..)
        ((Table.get?_insert ..).trans (if_pos rfl)) branch

end Store

end Coauthor
