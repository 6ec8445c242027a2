import Coauthor.Proofs.Store.Turns

/-!
# What is stored under a hash

A pushed commit is stored only where nothing is stored under its hash, but a merge is stored in any
case.  The hash of a merge tells nothing of the objects that come with it, nor of the branch that it
was made for.  So when the same two commits are merged again, with other objects or on another
branch, what was stored with the first merge is lost.
-/

namespace Coauthor

namespace Store

/-- The merge that a push has stored, as its answer tells. -/
def mergeOf (store : Store) (data : CommitData) (answer : Except RemoteError CommitResponse) :
    Option CommitData := do
  let response ← answer.toOption
  let _ ← response.mergeHash
  let branch ← data.branchName
  let head ← store.headOf data.projectId branch
  let base ← store.commitAt data.projectId head
  store.merger data base

/-- The merge that a turn stores in a project under a hash. -/
def recordsAt (store : Store) (id : ProjectId) (hash : CommitHash) : Turn → Option CommitData
  | .push data =>
      match store.mergeOf data (store.makeCommit data).2 with
      | some merge => if (id, hash) = (data.projectId, merge.hash) then some merge else none
      | none => none
  | _ => none

/-- The merges that are stored in a run in a project under a hash, in order. -/
def recorded (id : ProjectId) (hash : CommitHash) (store : Store) : List Turn → List CommitData
  | [] => []
  | turn :: rest =>
      (store.recordsAt id hash turn).toList ++ recorded id hash (store.step turn) rest

variable {store later : Store} {id : ProjectId} {hash : CommitHash} {data found : CommitData}
  {turn : Turn} {turns : List Turn}

theorem mergeOf_error (error : RemoteError) : store.mergeOf data (.error error) = none := rfl

theorem mergeOf_of (status : CommitStatus) (hash : CommitHash) :
    store.mergeOf data (.ok (.of status hash)) = none := rfl

/-- The merge that a push has stored was made with the head, which was stored before. -/
theorem mergeOf_merged (h : store.Sound) {project : Project} {branch : BranchName}
    {head : CommitHash} {base : CommitData} (hadmits : store.Admits data project)
    (hbranch : data.branchName = some branch) (hhead : project.branches.get? branch = some head)
    (hbase : (keep project data).commits.get? head = some base) (mergeHash : CommitHash) :
    store.mergeOf data (.ok (.merged data.hash mergeHash)) = store.merger data base := by
  have hstored : project.commits.get? head = some base := by
    obtain ⟨old, hold⟩ :=
      Option.isSome_iff_exists.mp ((h _ _ hadmits.found).heads branch head hhead)
    rw [get?_keep, hold, Option.some_or] at hbase
    rw [hold, hbase]
  simp [mergeOf, Except.toOption, CommitResponse.merged, hbranch, headOf_of_get? hadmits.found,
    hhead, commitAt_of_get? hadmits.found, hstored]

/-- A push leaves a stored commit as it is, unless it stores a merge in its place. -/
theorem Push.commitAt_cases {answer : Except RemoteError CommitResponse} (h : store.Sound)
    (hpush : Push store data (later, answer)) :
    (store.mergeOf data answer = none ∧ ∀ id hash found, store.commitAt id hash = some found →
        later.commitAt id hash = some found) ∨
      ∃ merge, store.mergeOf data answer = some merge ∧
        ∀ id hash found, store.commitAt id hash = some found → later.commitAt id hash =
          some (if (id, hash) = (data.projectId, merge.hash) then merge else found) := by
  cases hpush with
  | denied hdenies =>
      refine .inl ⟨?_, fun id hash found hfound => hfound⟩
      cases hdenies with
      | altered hintact => exact mergeOf_error _
      | homeless hnone => exact mergeOf_error _
      | orphaned hget hunknown => exact mergeOf_of ..
  | rested hadmits hrests =>
      refine .inl ⟨?_, fun id hash found hfound => ?_⟩
      · cases hrests with
        | unaddressed hbranch => exact mergeOf_of ..
        | branchless hbranch hhead => exact mergeOf_error _
        | already hbranch hhead => exact mergeOf_of ..
        | forked hbranch hhead hother hexpected => exact mergeOf_of ..
      · rw [commitAt_keeping hadmits, hfound, Option.some_or]
  | advanced hadmits hbranch hhead hother hexpected hkept =>
      refine .inl ⟨mergeOf_of .., fun id hash found hfound => ?_⟩
      rw [commitAt_moved (get?_keeping ..), commitAt_keeping hadmits, hfound, Option.some_or]
  | @merged project branch head base merge hadmits hbranch hhead hother hexpected hbase hmerge =>
      refine .inr ⟨merge, ?_, fun id hash found hfound => ?_⟩
      · rw [mergeOf_merged h hadmits hbranch hhead hbase, hmerge]
      · rw [commitAt_moved (get?_storing ..), commitAt_storing, commitAt_keeping hadmits, hfound,
          Option.some_or, apply_ite some]

/-- To create a branch stores nothing. -/
theorem commitAt_createBranch (h : store.Sound) {other : ProjectId} {branch : BranchName}
    {target : CommitHash} :
    (store.step (.createBranch other branch target)).commitAt id hash = store.commitAt id hash := by
  simp only [step]
  cases hcreate : store.createBranch other branch target with
  | error error => rfl
  | ok later =>
      obtain ⟨-, project, data, hget, -, rfl⟩ := exists_of_createBranch h hcreate
      exact commitAt_moved hget ..

theorem commitAt_setHead (h : store.Sound) {other : ProjectId} {branch : BranchName}
    {old : Option CommitHash} {new : CommitHash} :
    (store.step (.setHead other branch old new)).commitAt id hash = store.commitAt id hash := by
  simp only [step]
  cases hset : store.setHead other branch old new with
  | error error => rfl
  | ok result =>
      obtain ⟨later, response⟩ := result
      rcases setHead_cases h hset with ⟨rfl, -⟩ | ⟨-, project, data, hget, -, rfl⟩
      · rfl
      · exact commitAt_moved hget ..

/-- What is stored under a hash is a merge that the turn stores there, or what it was before. -/
theorem Sound.commitAt_step (h : store.Sound) (hfounds : ¬ turn.Founds id)
    (hstored : store.commitAt id hash = some data) : (store.step turn).commitAt id hash =
      some ((store.recordsAt id hash turn).getD data) := by
  cases turn with
  | push pushed =>
      have hpush : Push store pushed ((store.makeCommit pushed).1, (store.makeCommit pushed).2) :=
        push_makeCommit h pushed
      rcases hpush.commitAt_cases h with ⟨hnone, hkept⟩ | ⟨merge, hmerge, hkept⟩
      · rw [recordsAt, hnone]
        exact hkept id hash data hstored
      · rw [recordsAt, hmerge]
        refine (hkept id hash data hstored).trans ?_
        dsimp only
        split_ifs with hsame
        · rfl
        · rfl
  | createProject other branch root =>
      refine (commitAt_setProject ..).trans ((if_neg fun hsame => ?_).trans hstored)
      exact hfounds hsame.symm
  | createBranch other branch target => exact (commitAt_createBranch h).trans hstored
  | setHead other branch old new => exact (commitAt_setHead h).trans hstored
  | watch other branch client =>
      rw [commitAt, projects_step_watch]
      exact hstored
  | detach client => exact hstored
  | read stream => exact hstored

theorem Sound.commitAt_run (h : store.Sound) (hfounds : ∀ turn ∈ turns, ¬ turn.Founds id)
    (hstored : store.commitAt id hash = some data) : (store.run turns).commitAt id hash =
      some ((recorded id hash store turns).getLast?.getD data) := by
  induction turns generalizing store data with
  | nil => exact hstored
  | cons turn rest ih =>
      rw [List.forall_mem_cons] at hfounds
      refine (ih (h.evolves turn).sound hfounds.2 (h.commitAt_step hfounds.1 hstored)).trans ?_
      rw [recorded, List.getLast?_append]
      cases (recorded id hash (store.step turn) rest).getLast? with
      | some merge => rfl
      | none =>
          cases store.recordsAt id hash turn with
          | none => rfl
          | some merge => rfl

/-- Whatever is asked of a store, a commit that can be loaded can be loaded ever after.  It is the
same exactly if no merge has been stored under its hash since, or the last one was the same. -/
theorem run_load_eq_iff (merger : Merger) (before : List Turn)
    (hload : ((start merger).run before).load id hash = .ok data) (after : List Turn)
    (hfounds : ∀ turn ∈ after, ¬ turn.Founds id) :
    let store := (start merger).run before
    (∃ latest, (store.run after).load id hash = .ok latest) ∧
      ((store.run after).load id hash = .ok data ↔
        ∀ merge, (recorded id hash store after).getLast? = some merge → merge = data) := by
  intro store
  have hsound : store.Sound := (sound_start merger).run before
  have hlater := hsound.commitAt_run hfounds (load_eq_ok_iff.mp hload)
  refine ⟨⟨_, load_eq_ok_iff.mpr hlater⟩, ?_⟩
  rw [load_eq_ok_iff, hlater, Option.some.injEq]
  cases (recorded id hash store after).getLast? with
  | none => exact iff_of_true rfl nofun
  | some merge => simp

/-- The hash of the merge of the lone commit with the root `#0`. -/
def mergeHash : CommitHash := "#af87103fbdfe63f2a246a83697338d661e3ad282"

/-- A commit is pushed that was not made on the head of its branch. -/
def mergingOnce : List Turn :=
  [.createProject "p" "b" (lone "#0" (some "b")), .push (lone loneHash (some "b"))]

/-- It is pushed again, to another branch with the same head. -/
def mergingAgain : List Turn :=
  [.createBranch "p" "c" "#0", .push (lone loneHash (some "c"))]

/-- The second merge takes the place of the first: it is not the same, as it names its branch. -/
theorem run_load_eq_iff_merged_again :
    let store := (start .snapshot).run mergingOnce
    ∃ data, store.load "p" mergeHash = .ok data ∧
      (store.run mergingAgain).load "p" mergeHash ≠ .ok data := by
  intro store
  have hbranches : (store.commitAt "p" mergeHash).map (·.branchName) = some (some "b") ∧
      (recorded "p" mergeHash store mergingAgain).map (·.branchName) = [some "c"] := by
    decide +kernel
  obtain ⟨data, hstored, hfirst⟩ := Option.map_eq_some_iff.mp hbranches.1
  obtain ⟨merge, hmerges, hsecond⟩ := List.map_eq_singleton_iff.mp hbranches.2
  have hload : store.load "p" mergeHash = .ok data := load_eq_ok_iff.mpr hstored
  have hfounds : ∀ turn ∈ mergingAgain, ¬ turn.Founds "p" := by
    simp [mergingAgain, Turn.Founds]
  obtain ⟨-, hiff⟩ := run_load_eq_iff .snapshot mergingOnce hload mergingAgain hfounds
  refine ⟨data, hload, fun hsame => ?_⟩
  have hmerge : merge = data := hiff.mp hsame merge (by rw [hmerges]; rfl)
  rw [hmerge, hfirst] at hsecond
  exact absurd hsecond (by decide)

end Store

end Coauthor
