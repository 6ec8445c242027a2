import Coauthor.Store.Store
import Mathlib.Tactic.Common

/-!
# Sound stores

The commits of a project stand under their own hashes, and the heads of its branches are stored.
A store is started so, and stays so when commits are stored and heads are moved to stored commits.
-/

namespace Coauthor

/-- The commits of a project stand under their own hashes, and its heads are stored. -/
structure Project.Sound (project : Project) : Prop where
  keyed : ∀ hash data, project.commits.get? hash = some data → data.hash = hash
  heads : ∀ branch hash, project.branches.get? branch = some hash →
    project.commits.contains hash

/-- A project may get one more commit. -/
theorem Project.Sound.insert {project : Project} (h : project.Sound) (data : CommitData) :
    Project.Sound { project with commits := project.commits.insert data.hash data } where
  keyed := by
    intro hash stored hget
    rw [Table.get?_insert] at hget
    by_cases hhash : hash = data.hash
    · rw [if_pos hhash] at hget
      rw [← Option.some.inj hget, hhash]
    · rw [if_neg hhash] at hget
      exact h.keyed hash stored hget
  heads := fun name hash hget => (Table.contains_insert ..).mpr (.inr (h.heads name hash hget))

/-- One of its heads may be moved to a stored commit. -/
theorem Project.Sound.moveHead {project : Project} (h : project.Sound) {hash : CommitHash}
    (hhash : project.commits.contains hash) (name : BranchName) :
    Project.Sound { project with branches := project.branches.insert name hash } where
  keyed := h.keyed
  heads := by
    intro other moved hhead
    rw [Table.get?_insert] at hhead
    by_cases hname : other = name
    · rw [if_pos hname] at hhead
      exact Option.some.inj hhead ▸ hhash
    · rw [if_neg hname] at hhead
      exact h.heads other moved hhead

namespace Store

/-- All projects are sound, as they are in a store that was started empty and changed by its
calls alone. -/
def Sound (store : Store) : Prop :=
  ∀ id project, store.projects.get? id = some project → project.Sound

theorem sound_start (merger : Merger) : (start merger).Sound := fun _ _ hget => nomatch hget

/-- A project has a commit. -/
def Stored (store : Store) (id : ProjectId) (hash : CommitHash) : Prop :=
  ∃ project, store.projects.get? id = some project ∧ project.commits.contains hash

def headOf (store : Store) (id : ProjectId) (branch : BranchName) : Option CommitHash :=
  store.projects.get? id >>= (·.branches.get? branch)

/-- The head of a branch is stored. -/
theorem Sound.stored_head {store : Store} (h : store.Sound) {id : ProjectId}
    {branch : BranchName} {head : CommitHash} (hhead : store.headOf id branch = some head) :
    store.Stored id head := by
  obtain ⟨project, hget, hbranch⟩ := Option.bind_eq_some_iff.mp hhead
  exact ⟨project, hget, (h id project hget).heads branch head hbranch⟩

variable {store later : Store} {id other : ProjectId} {branch : BranchName} {hash : CommitHash}
  {data : CommitData} {project current : Project}

theorem project_of_get? (hget : store.projects.get? id = some project) :
    store.project id = .ok project := by
  rw [Store.project, hget]

/-! ## Projects that are changed -/

theorem get?_setProject (store : Store) (id other : ProjectId) (project : Project) :
    (store.setProject id project).projects.get? other =
      if other = id then some project else store.projects.get? other :=
  Table.get?_insert _ _ _ _

theorem headOf_setProject (store : Store) (id other : ProjectId) (branch : BranchName)
    (project : Project) : (store.setProject other project).headOf id branch =
      if id = other then project.branches.get? branch else store.headOf id branch := by
  rw [headOf, get?_setProject]
  by_cases hid : id = other
  · rw [if_pos hid, if_pos hid]
    rfl
  · rw [if_neg hid, if_neg hid, headOf]

theorem Sound.setProject (h : store.Sound) (hproject : project.Sound) :
    (store.setProject other project).Sound := by
  intro id found hget
  rw [get?_setProject] at hget
  by_cases hid : id = other
  · rw [if_pos hid] at hget
    exact Option.some.inj hget ▸ hproject
  · rw [if_neg hid] at hget
    exact h id found hget

/-- A project is started with a root commit, which is the head of its first branch. -/
theorem Sound.createProject (h : store.Sound) (other : ProjectId) (name : BranchName)
    (root : CommitData) : (store.createProject other name root).Sound := by
  have hbase : Project.Sound ((store.projects.get? other).getD default) := by
    cases hget : store.projects.get? other with
    | none => exact ⟨fun _ _ hget => (nomatch hget), fun _ _ hget => (nomatch hget)⟩
    | some project => exact h other project hget
  exact h.setProject
    ((hbase.insert root).moveHead ((Table.contains_insert ..).mpr (.inl rfl)) name)

theorem Stored.setProject (h : store.Stored id hash)
    (hcurrent : store.projects.get? other = some current)
    (hkept : ∀ hash, current.commits.contains hash → project.commits.contains hash) :
    (store.setProject other project).Stored id hash := by
  obtain ⟨found, hget, hcontains⟩ := h
  by_cases hid : id = other
  · subst hid
    obtain rfl := Option.some.inj (hget.symm.trans hcurrent)
    exact ⟨project, by rw [get?_setProject, if_pos rfl], hkept hash hcontains⟩
  · exact ⟨found, by rw [get?_setProject, if_neg hid, hget], hcontains⟩

/-! ## Commits that are kept -/

theorem keep_sound (h : project.Sound) (data : CommitData) : (keep project data).Sound := by
  unfold keep
  by_cases hstored : project.commits.contains data.hash
  · rwa [if_pos hstored]
  · rw [if_neg hstored]
    exact h.insert data

theorem contains_keep (project : Project) (data : CommitData) :
    (keep project data).commits.contains hash ↔
      hash = data.hash ∨ project.commits.contains hash := by
  unfold keep
  by_cases hstored : project.commits.contains data.hash
  · rw [if_pos hstored]
    constructor
    · exact .inr
    · rintro (rfl | hcontains)
      · exact hstored
      · exact hcontains
  · rw [if_neg hstored]
    exact Table.contains_insert ..

theorem branches_keep (project : Project) (data : CommitData) :
    (keep project data).branches = project.branches := by
  unfold keep
  by_cases hstored : project.commits.contains data.hash
  · rw [if_pos hstored]
  · rw [if_neg hstored]

end Store

end Coauthor
