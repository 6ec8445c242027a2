import Coauthor.Proofs.Commit.Text
import Coauthor.Proofs.Store.Growth
import Coauthor.Proofs.Store.Turns

/-!
# The history of a branch

A store takes intact commits only, and the merges that it makes are intact.  As the text that an id
is a digest of tells the commit, two stored commits with one id are the same unless their digests
collide.  So nothing is ever stored in place of another commit, and as long as no head is set by
hand, each head is moved to a commit that it is an ancestor of.
-/

namespace Coauthor

namespace Commit

/-- No digest is that of two different texts. -/
def CollisionFree (made : List Commit) : Prop :=
  ∀ first ∈ made, ∀ second ∈ made, first.computedId = second.computedId →
    first.contentText = second.contentText

theorem isIntact_sealed (commit : Commit) : commit.sealed.isIntact = true := decide_eq_true rfl

variable {made : List Commit} {first second : Commit}

theorem CollisionFree.eq_of_isIntact (h : CollisionFree made) (hfirst : first ∈ made)
    (hsecond : second ∈ made) (hintact : first.isIntact) (hother : second.isIntact)
    (hid : first.id = second.id) : first = second := by
  have hdigest : first.computedId = second.computedId :=
    (of_decide_eq_true hintact).symm.trans (hid.trans (of_decide_eq_true hother))
  rw [eq_of_contentText (h first hfirst second hsecond hdigest), hid]

/-- Of intact commits each has an id of its own. -/
theorem CollisionFree.distinct (h : CollisionFree made) :
    Distinct (made.filter (·.isIntact)) := by
  intro first hfirst second hsecond hid
  obtain ⟨hmade, hintact⟩ := List.mem_filter.mp hfirst
  obtain ⟨hother, hsame⟩ := List.mem_filter.mp hsecond
  exact h.eq_of_isIntact hmade hother hintact hsame hid

/-- Digests do not collide where intact commits have ids of their own. -/
theorem collisionFree_of_distinct (hintact : ∀ commit ∈ made, commit.isIntact)
    (hdistinct : Distinct made) : CollisionFree made := by
  intro first hfirst second hsecond hdigest
  have hid : first.id = second.id :=
    (of_decide_eq_true (hintact first hfirst)).trans
      (hdigest.trans (of_decide_eq_true (hintact second hsecond)).symm)
  rw [hdistinct first hfirst second hsecond hid]

theorem CollisionFree.subset {all : List Commit} (h : CollisionFree all) (hsubset : made ⊆ all) :
    CollisionFree made :=
  fun first hfirst second hsecond => h first (hsubset hfirst) second (hsubset hsecond)

end Commit

/-- The merges of a merger are intact. -/
def Merger.Seals (merger : Merger) : Prop :=
  ∀ pushed head merge, merger pushed head = some merge → merge.commit.isIntact

theorem Merger.seals_never : Merger.never.Seals := fun _ _ _ hmerge => nomatch hmerge

theorem Merger.seals_snapshot : Merger.snapshot.Seals := by
  intro pushed head merge hmerge
  obtain rfl := Option.some.inj hmerge
  exact Commit.isIntact_sealed _

namespace Store

variable {store later : Store} {id : ProjectId} {branch : BranchName} {data merge : CommitData}
  {project : Project} {all : List Commit} {turn : Turn} {turns : List Turn}

/-! ## The commits of a store -/

theorem commitList_moved_subset (hget : store.projects.get? id = some project)
    (hstores : store.commitList ⊆ all) (branch : BranchName) (data : CommitData) :
    (store.moved id project branch data).commitList ⊆ all := by
  let moved : Project := { project with branches := project.branches.insert branch data.hash }
  have hcommits := commits_subset hget hstores
  have hset : (store.setProject id moved).commitList ⊆ all :=
    commitList_setProject_subset hstores (by exact hcommits) id
  exact hset

theorem mem_commitList_of_commitAt {hash : CommitHash} (h : store.commitAt id hash = some data) :
    data.commit ∈ store.commitList := by
  obtain ⟨project, hget, hstored⟩ := Option.bind_eq_some_iff.mp h
  exact mem_commitList hget hstored

theorem commitList_storing_subset (hadmits : store.Admits data project)
    (hstores : store.commitList ⊆ all) (hmade : data.commit ∈ all)
    (hmerge : merge.commit ∈ all) : (store.storing project data merge).commitList ⊆ all := by
  have hkept := commits_keep_subset (commits_subset hadmits.found hstores) hmade
  exact commitList_setProject_subset (commitList_keep_subset hadmits.found hstores hmade)
    (commits_insert_subset hkept hmerge) _

/-! ## Intact commits -/

def intactOf (all : List Commit) : List Commit := all.filter (·.isIntact)

/-- Whatever a push stores is intact. -/
theorem Push.commitList_subset {result : Store × Except RemoteError CommitResponse}
    (hpush : Push store data result) (hseals : store.merger.Seals)
    (hstores : store.commitList ⊆ intactOf all) (hlater : result.1.commitList ⊆ all)
    (hmade : data.commit ∈ all) : result.1.commitList ⊆ intactOf all := by
  have hintact (project : Project) (hadmits : store.Admits data project) :
      data.commit ∈ intactOf all :=
    List.mem_filter.mpr ⟨hmade, hadmits.intact⟩
  cases hpush with
  | denied hdenies => exact hstores
  | @rested project _ hadmits hrests =>
      exact commitList_keep_subset hadmits.found hstores (hintact project hadmits)
  | @advanced project _ _ _ hadmits =>
      exact commitList_moved_subset (get?_keeping ..)
        (commitList_keep_subset hadmits.found hstores (hintact project hadmits)) ..
  | @merged project branch head base merge hadmits hbranch hhead hother hexpected hbase hmerge =>
      have hstored : ((store.storing project data merge).moved data.projectId
          (merging project data merge) branch merge).commitAt data.projectId merge.hash =
            some merge := by
        rw [commitAt_moved (get?_storing ..), commitAt_storing, if_pos rfl]
      have hmerged : merge.commit ∈ all := hlater (mem_commitList_of_commitAt hstored)
      have hsealed : merge.commit ∈ intactOf all :=
        List.mem_filter.mpr ⟨hmerged, hseals data base merge hmerge⟩
      exact commitList_moved_subset (get?_storing ..)
        (commitList_storing_subset hadmits hstores (hintact project hadmits) hsealed) ..

/-! ## Turns that leave the heads to the pushes -/

/-- The turn sets no head by hand, expects no other head than the parent of a commit, and starts no
project that was started before, nor with a commit that is not intact. -/
def isOnward (store : Store) : Turn → Bool
  | .createProject id _ root => (store.projects.get? id).isNone && root.commit.isIntact
  | .push data => data.oldHash.isNone
  | .setHead .. => false
  | .createBranch .. | .watch .. | .detach _ | .read _ => true

def areOnward (store : Store) : List Turn → Bool
  | [] => true
  | turn :: rest => store.isOnward turn && (store.step turn).areOnward rest

def Turn.commits : Turn → List Commit
  | .push data => [data.commit]
  | _ => []

/-- All commits that are stored at some time of a run or pushed in it. -/
def made (store : Store) : List Turn → List Commit
  | [] => store.commitList
  | turn :: rest => store.commitList ++ turn.commits ++ (store.step turn).made rest

/-- A store of intact commits, each with an id of its own, whose merges are intact as well. -/
structure Genuine (all : List Commit) (store : Store) : Prop where
  orderly : store.Orderly (intactOf all)
  seals : store.merger.Seals

variable {turn : Turn} {turns more : List Turn}

theorem Genuine.grow (h : store.Genuine all) (hgrows : store.Grows later)
    (hstores : later.commitList ⊆ intactOf all) : later.Genuine all :=
  ⟨h.orderly.grow hgrows hstores, hgrows.merger.symm ▸ h.seals⟩

/-- Turns that store nothing. -/
theorem Genuine.grow_of_projects (h : store.Genuine all)
    (hprojects : later.projects = store.projects) (hmerger : later.merger = store.merger) :
    store.Grows later ∧ later.Genuine all := by
  have hgrows : store.Grows later := (Grows.refl h.orderly.sound).of_projects hprojects hmerger
  refine ⟨hgrows, h.grow hgrows ?_⟩
  rw [commitList, hprojects]
  exact h.orderly.stores

/-- A push lets the store grow, and an accepted commit is part of its branch then. -/
theorem Genuine.push (h : store.Genuine all) (hmade : data.commit ∈ all)
    (hlater : (store.makeCommit data).1.commitList ⊆ all) (hold : data.oldHash = none) :
    store.Takes data (store.makeCommit data) ∧ (store.makeCommit data).1.Genuine all := by
  have hpush := push_makeCommit h.orderly.sound data
  have hstores := hpush.commitList_subset h.seals h.orderly.stores hlater hmade
  by_cases hintact : data.commit.isIntact
  · have hdata : data.commit ∈ intactOf all := List.mem_filter.mpr ⟨hmade, hintact⟩
    have htakes := hpush.takes h.orderly hstores hdata hold
    exact ⟨htakes, h.grow htakes.grows hstores⟩
  · -- A commit that is not intact is not kept.
    generalize store.makeCommit data = result at hpush
    cases hpush with
    | denied hdenies => exact ⟨hdenies.takes h.orderly.sound, h⟩
    | rested hadmits => exact absurd hadmits.intact hintact
    | advanced hadmits => exact absurd hadmits.intact hintact
    | merged hadmits => exact absurd hadmits.intact hintact

/-- A new project takes nothing from the others. -/
theorem grows_createProject (h : store.Sound) (hnew : store.projects.get? id = none)
    (branch : BranchName) (root : CommitData) :
    store.Grows (store.createProject id branch root) where
  sound := h.createProject id branch root
  merger := rfl
  projects := by
    intro other found hfound
    have hother : other ≠ id := by
      rintro rfl
      rw [hnew] at hfound
      cases hfound
    exact ⟨found, (get?_setProject ..).trans ((if_neg hother).trans hfound),
      .refl (h other found hfound)⟩

theorem commitAt_createProject (store : Store) (id : ProjectId) (branch : BranchName)
    (root : CommitData) : (store.createProject id branch root).commitAt id root.hash = some root :=
  (commitAt_setProject ..).trans ((if_pos rfl).trans ((Table.get?_insert ..).trans (if_pos rfl)))

theorem Genuine.createProject (h : store.Genuine all) (hnew : store.projects.get? id = none)
    {root : CommitData} (hintact : root.commit.isIntact) (branch : BranchName)
    (hlater : (store.createProject id branch root).commitList ⊆ all) :
    store.Grows (store.createProject id branch root) ∧
      (store.createProject id branch root).Genuine all := by
  have hgrows := grows_createProject h.orderly.sound hnew branch root
  refine ⟨hgrows, h.grow hgrows ?_⟩
  have hroot : root.commit ∈ intactOf all :=
    List.mem_filter.mpr
      ⟨hlater (mem_commitList_of_commitAt (commitAt_createProject store id branch root)), hintact⟩
  refine commitList_setProject_subset h.orderly.stores (commits_insert_subset ?_ hroot) id
  rw [hnew]
  exact List.nil_subset _

/-- A turn moves each head to a commit that it is an ancestor of, if it moves it at all. -/
theorem Genuine.step (h : store.Genuine all) (hcommits : turn.commits ⊆ all)
    (hlater : (store.step turn).commitList ⊆ all) (honward : store.isOnward turn) :
    store.Grows (store.step turn) ∧ (store.step turn).Genuine all := by
  have hsound := h.orderly.sound
  cases turn with
  | createProject id branch root =>
      obtain ⟨hnew, hintact⟩ := Bool.and_eq_true_iff.mp honward
      exact h.createProject (Option.isNone_iff_eq_none.mp hnew) hintact branch hlater
  | push data =>
      obtain ⟨htakes, hgenuine⟩ := h.push (hcommits List.mem_cons_self) hlater
        (Option.isNone_iff_eq_none.mp honward)
      exact ⟨htakes.grows, hgenuine⟩
  | createBranch id branch hash =>
      simp only [Store.step]
      cases hcreate : store.createBranch id branch hash with
      | error error => exact ⟨.refl hsound, h⟩
      | ok later =>
          have hgrows := grows_createBranch hsound hcreate
          obtain ⟨-, project, data, hget, -, rfl⟩ := exists_of_createBranch hsound hcreate
          exact ⟨hgrows, h.grow hgrows (commitList_moved_subset hget h.orderly.stores ..)⟩
  | setHead id branch old new => cases honward
  | watch id branch client =>
      refine h.grow_of_projects (projects_step_watch store id branch client) ?_
      cases hget : store.projects.get? id with
      | none => rw [step_watch_of_none hget]
      | some project => rw [step_watch_of_isSome (Option.isSome_of_eq_some hget)]
  | detach client => exact h.grow_of_projects rfl rfl
  | read stream => exact h.grow_of_projects rfl rfl

theorem commitList_subset_made (store : Store) (turns : List Turn) :
    store.commitList ⊆ store.made turns := by
  cases turns with
  | nil => exact List.Subset.refl _
  | cons turn rest =>
      exact List.subset_append_of_subset_left _ (List.subset_append_left _ _)

theorem made_cons_subset_iff : store.made (turn :: turns) ⊆ all ↔
    store.commitList ⊆ all ∧ turn.commits ⊆ all ∧ (store.step turn).made turns ⊆ all := by
  rw [made, List.append_subset, List.append_subset, and_assoc]

theorem Genuine.run (h : store.Genuine all) (hmade : store.made turns ⊆ all)
    (honward : store.areOnward turns) :
    store.Grows (store.run turns) ∧ (store.run turns).Genuine all := by
  induction turns generalizing store with
  | nil => exact ⟨.refl h.orderly.sound, h⟩
  | cons turn rest ih =>
      obtain ⟨-, hcommits, hrest⟩ := made_cons_subset_iff.mp hmade
      obtain ⟨hfirst, hothers⟩ := Bool.and_eq_true_iff.mp honward
      have hlater := List.Subset.trans (commitList_subset_made (store.step turn) rest) hrest
      obtain ⟨hgrows, hstep⟩ := h.step hcommits hlater hfirst
      obtain ⟨hrun, hgenuine⟩ := ih hstep hrest hothers
      exact ⟨hgrows.trans hrun, hgenuine⟩

theorem made_append_subset_iff : store.made (turns ++ more) ⊆ all ↔
    store.made turns ⊆ all ∧ (store.run turns).made more ⊆ all := by
  induction turns generalizing store with
  | nil =>
      have hstores := commitList_subset_made store more
      exact ⟨fun h => ⟨List.Subset.trans hstores h, h⟩, fun h => h.2⟩
  | cons turn rest ih =>
      rw [List.cons_append, made_cons_subset_iff, made_cons_subset_iff, ih, and_assoc, and_assoc]
      rfl

theorem areOnward_append (store : Store) (turns more : List Turn) :
    store.areOnward (turns ++ more) =
      (store.areOnward turns && (store.run turns).areOnward more) := by
  induction turns generalizing store with
  | nil => rfl
  | cons turn rest ih =>
      rw [List.cons_append, areOnward, areOnward, ih, Bool.and_assoc]
      rfl

theorem genuine_start {merger : Merger} (hmerger : merger = .never ∨ merger = .snapshot)
    (hfree : Commit.CollisionFree all) : (start merger).Genuine all := by
  have hstores : (start merger).commitList ⊆ intactOf all := List.nil_subset _
  rcases hmerger with rfl | rfl
  · exact ⟨⟨sound_start _, Merger.joins_never, hfree.distinct, hstores⟩, Merger.seals_never⟩
  · exact ⟨⟨sound_start _, Merger.joins_snapshot, hfree.distinct, hstores⟩, Merger.seals_snapshot⟩

/-- Whatever clients push to a store, and whatever else is asked of it but to set heads by hand:
each head is moved to commits that the head before is an ancestor of.  So a commit that was
answered as merged, or as synced on a branch, is part of this branch then and ever after.  Every
head is stored. -/
theorem run_history_grows {merger : Merger} (hmerger : merger = .never ∨ merger = .snapshot)
    {before after : List Turn} {turn : Turn}
    (honward : (start merger).areOnward (before ++ turn :: after))
    (hfree : Commit.CollisionFree ((start merger).made (before ++ turn :: after))) :
    let store := (start merger).run before
    let later := (store.step turn).run after
    (∀ id branch head, store.headOf id branch = some head →
      ∃ moved, (store.step turn).headOf id branch = some moved ∧
        (store.step turn).Descends id moved head) ∧
    (∀ data response branch, turn = .push data → (store.makeCommit data).2 = .ok response →
      response.Accepts → data.branchName = some branch →
      later.OnBranch data.projectId branch data.hash) ∧
    ∀ id branch head, later.headOf id branch = some head → later.Stored id head := by
  intro store later
  rw [areOnward_append, Bool.and_eq_true, areOnward, Bool.and_eq_true] at honward
  obtain ⟨hbefore, hturn, hafter⟩ := honward
  obtain ⟨hfirst, hrest⟩ := made_append_subset_iff.mp
    (List.Subset.refl ((start merger).made (before ++ turn :: after)))
  obtain ⟨-, hcommits, hlast⟩ := made_cons_subset_iff.mp hrest
  have hstep := List.Subset.trans (commitList_subset_made (store.step turn) after) hlast
  obtain ⟨-, hgenuine⟩ := (genuine_start hmerger hfree).run hfirst hbefore
  obtain ⟨hgrows, hmoved⟩ := hgenuine.step hcommits hstep hturn
  obtain ⟨hrun, hkept⟩ := hmoved.run hlast hafter
  refine ⟨fun id branch head hhead => ?_, ?_, fun id branch head => hkept.orderly.sound.stored_head⟩
  · exact hgrows.onBranch (onBranch_head hgenuine.orderly.sound hhead)
  · rintro data response branch rfl hanswer haccepts hbranch
    obtain ⟨htakes, -⟩ := hgenuine.push (hcommits List.mem_cons_self) hstep
      (Option.isNone_iff_eq_none.mp hturn)
    exact hrun.onBranch (htakes.landed response hanswer haccepts branch hbranch)

/-- A commit on the lone one. -/
def child : CommitData :=
  { lone loneHash (some "b") with
    commit := { (lone loneHash none).commit with
      id := "#5a3465e5ff71c2a185cf50844cd7459d43a5e0f0", parents := [loneHash] } }

def rooting : List Turn := [.createProject "p" "b" (lone loneHash (some "b"))]

/-- The project is started, the commit is pushed, and someone listens. -/
def growing : List Turn := rooting ++ .push child :: [.watch "p" "b" "alice"]

theorem collisionFree_growing : Commit.CollisionFree ((start .never).made growing) := by
  let both := [(lone loneHash none).commit, child.commit]
  have hintact : ∀ commit ∈ both, commit.isIntact := by
    decide +kernel
  have hdistinct : Commit.Distinct both := by
    unfold Commit.Distinct
    decide
  have hmade : ((start .never).made growing).all both.contains = true := by
    decide +kernel
  refine (Commit.collisionFree_of_distinct hintact hdistinct).subset fun commit hmem => ?_
  exact List.contains_iff_mem.mp (List.all_eq_true.mp hmade commit hmem)

/-- The pushed commit is part of the branch, and so is the one that was its head. -/
theorem run_history_grows_pushed :
    let store := (start .never).run rooting
    let later := (store.step (.push child)).run [.watch "p" "b" "alice"]
    later.OnBranch "p" "b" child.hash ∧
      ∃ moved, (store.step (.push child)).headOf "p" "b" = some moved ∧
        (store.step (.push child)).Descends "p" moved loneHash := by
  intro store later
  have honward : (start .never).areOnward growing = true := by
    decide +kernel
  have hanswer : (store.makeCommit child).2 = .ok (.of .synced child.hash) := by
    decide +kernel
  obtain ⟨hmoves, hlanded, -⟩ := run_history_grows (.inl rfl) honward collisionFree_growing
  refine ⟨hlanded child _ "b" rfl hanswer ⟨.synced, CommitStatus.ofText?_text .synced, rfl⟩ rfl, ?_⟩
  exact hmoves "p" "b" loneHash rfl

end Store

end Coauthor
