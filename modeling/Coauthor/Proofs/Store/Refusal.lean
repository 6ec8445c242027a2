import Coauthor.Proofs.Store.Turns

/-!
# Refused pushes

A push that is refused, by an error or as canceled, moves no head and is told to nobody.  Most
refusals come before anything is stored, so they leave the commits alone as well.  But the branch
of a commit is looked up when the commit has been stored: where the project has no such branch the
push is refused, and the commit stays.
-/

namespace Coauthor

namespace Store

/-- The push was refused. -/
def Refuses : Except RemoteError CommitResponse → Prop
  | .error _ => True
  | .ok response => response.status? = some .canceled

/-- The commit was to be stored and no more: it is forked, or it is synced and names no branch. -/
def SetsAside (data : CommitData) : Except RemoteError CommitResponse → Prop
  | .error _ => False
  | .ok response => response.status? = some .forked ∨
      response.status? = some .synced ∧ data.branchName = none

/-- The heads of all branches and the streams of all who listen are the same. -/
structure Stands (store later : Store) : Prop where
  heads : ∀ id branch, later.headOf id branch = store.headOf id branch
  watchers : later.watchers = store.watchers

/-- The commits are the same, but for the pushed one where nothing had its hash. -/
def Gains (store later : Store) (data : CommitData) : Prop :=
  ∀ id hash, later.commitAt id hash = (store.commitAt id hash).or
    (if (id, hash) = (data.projectId, data.hash) then some data else none)

/-- The commit is fit to be stored and is new, but it names a branch that is not there. -/
structure Strands (store : Store) (data : CommitData) : Prop where
  admitted : ∃ project, store.Admits data project
  branchless : ∃ branch, data.branchName = some branch ∧ store.headOf data.projectId branch = none
  fresh : store.commitAt data.projectId data.hash = none

variable {store later : Store} {data : CommitData} {project : Project}
  {answer : Except RemoteError CommitResponse}

theorem Moves.stands (h : store.Moves later none) : store.Stands later := ⟨h.head, h.watchers⟩

/-- A commit that is denied is not fit to be stored. -/
theorem Denies.not_admits (h : store.Denies data answer) : ¬ store.Admits data project := by
  rintro ⟨hintact, hfound, hrooted⟩
  cases h with
  | altered haltered => exact absurd (hintact.symm.trans haltered) (by decide)
  | homeless hnone => cases hnone.symm.trans hfound
  | orphaned hget hunknown =>
      obtain rfl := Option.some.inj (hget.symm.trans hfound)
      exact absurd (hrooted.symm.trans hunknown) (by decide)

/-- To keep a commit changes the commits where nothing had its hash. -/
theorem Admits.commitAt_keeping_eq_iff (hadmits : store.Admits data project) :
    (∀ id hash, (store.keeping project data).commitAt id hash = store.commitAt id hash) ↔
      store.commitAt data.projectId data.hash ≠ none := by
  constructor
  · intro hsame hfresh
    have hkept := commitAt_keeping hadmits data.projectId data.hash
    rw [hsame, hfresh, if_pos rfl] at hkept
    cases hkept
  · intro hstored id hash
    rw [commitAt_keeping hadmits]
    split_ifs with hkey
    · obtain ⟨rfl, rfl⟩ := Prod.mk.inj hkey
      obtain ⟨found, hfound⟩ := Option.ne_none_iff_exists'.mp hstored
      rw [hfound, Option.some_or]
    · rw [Option.or_none]

/-- A push is refused when it is denied, or when the commit is kept for a branch that is not
there. -/
theorem Push.refused (hpush : Push store data (later, answer)) (hrefuses : Refuses answer) :
    store.Denies data answer ∧ later = store ∨
      ∃ project branch, store.Admits data project ∧ data.branchName = some branch ∧
        store.headOf data.projectId branch = none ∧ later = store.keeping project data := by
  cases hpush with
  | denied hdenies => exact .inl ⟨hdenies, rfl⟩
  | @rested project _ hadmits hrests =>
      cases hrests with
      | branchless hbranch hhead =>
          exact .inr ⟨project, _, hadmits, hbranch, (headOf_of_get? hadmits.found).trans hhead, rfl⟩
      | unaddressed hbranch => cases hrefuses
      | already hbranch hhead => cases hrefuses
      | forked hbranch hhead hother hexpected => cases hrefuses
  | advanced hadmits hbranch hhead hother hexpected hkept => cases hrefuses
  | merged hadmits hbranch hhead hother hexpected hbase hmerge => cases hrefuses

/-- A refused push moves nothing, and stores nothing unless the commit is stranded. -/
theorem Push.refusal (h : store.Sound) (hpush : Push store data (later, answer))
    (hrefuses : Refuses answer) : store.Stands later ∧
      ((∀ id hash, later.commitAt id hash = store.commitAt id hash) ↔ ¬ store.Strands data) := by
  rcases hpush.refused hrefuses with
    ⟨hdenies, rfl⟩ | ⟨project, branch, hadmits, hbranch, hhead, rfl⟩
  · refine ⟨⟨fun _ _ => rfl, rfl⟩, iff_of_true (fun _ _ => rfl) fun hstrands => ?_⟩
    obtain ⟨project, hadmits⟩ := hstrands.admitted
    exact hdenies.not_admits hadmits
  · refine ⟨(moves_keeping h hadmits).stands, hadmits.commitAt_keeping_eq_iff.trans ?_⟩
    exact not_congr ⟨fun hfresh => ⟨⟨project, hadmits⟩, ⟨branch, hbranch, hhead⟩, hfresh⟩,
      fun hstrands => hstrands.fresh⟩

/-- A commit that is set aside moves nothing. -/
theorem Push.aside (h : store.Sound) (hpush : Push store data (later, answer))
    (haside : SetsAside data answer) : store.Stands later ∧ store.Gains later data := by
  cases hpush with
  | denied hdenies =>
      cases hdenies with
      | altered hintact => cases haside
      | homeless hnone => cases haside
      | orphaned hget hunknown => rcases haside with haside | ⟨haside, -⟩ <;> cases haside
  | rested hadmits hrests => exact ⟨(moves_keeping h hadmits).stands, commitAt_keeping hadmits⟩
  | advanced hadmits hbranch hhead hother hexpected hkept =>
      rcases haside with haside | ⟨-, hnone⟩
      · cases haside
      · cases hbranch.symm.trans hnone
  | merged hadmits hbranch hhead hother hexpected hbase hmerge =>
      rcases haside with haside | ⟨haside, -⟩ <;> cases haside

/-- A commit that is stranded is stored although its push is refused. -/
theorem Push.stranded (hpush : Push store data (later, answer)) (hstrands : store.Strands data) :
    Refuses answer ∧ store.Gains later data := by
  obtain ⟨⟨project, hadmits⟩, ⟨branch, hbranch, hnone⟩, -⟩ := hstrands
  rw [headOf_of_get? hadmits.found] at hnone
  have hbranches {found : Project} (hfound : store.Admits data found) {name : BranchName}
      {head : CommitHash} (hname : data.branchName = some name)
      (hhead : found.branches.get? name = some head) : False := by
    obtain rfl := Option.some.inj (hadmits.found.symm.trans hfound.found)
    obtain rfl := Option.some.inj (hbranch.symm.trans hname)
    cases hnone.symm.trans hhead
  cases hpush with
  | denied hdenies => exact absurd hadmits hdenies.not_admits
  | rested hkept hrests =>
      refine ⟨?_, commitAt_keeping hkept⟩
      cases hrests with
      | branchless hname hhead => trivial
      | unaddressed hname => cases hbranch.symm.trans hname
      | already hname hhead => exact (hbranches hkept hname hhead).elim
      | forked hname hhead hother hexpected => exact (hbranches hkept hname hhead).elim
  | advanced hkept hname hhead hother hexpected hstored => exact (hbranches hkept hname hhead).elim
  | merged hkept hname hhead hother hexpected hbase hmerge =>
      exact (hbranches hkept hname hhead).elim

/-- Whatever has been asked of a store, a push that is refused moves no head and is told to nobody,
and it leaves all commits as they were exactly if the commit is not stranded; a stranded one is
refused and stored.  A push that is forked, or synced for no branch, moves no head either and is
told to nobody, and stores at most the commit that was pushed. -/
theorem run_refusal_keeps_iff (merger : Merger) (turns : List Turn) (data : CommitData) :
    let store := (start merger).run turns
    let later := (store.makeCommit data).1
    let answer := (store.makeCommit data).2
    (Refuses answer → store.Stands later ∧
      ((∀ id hash, later.commitAt id hash = store.commitAt id hash) ↔ ¬ store.Strands data)) ∧
    (store.Strands data → Refuses answer ∧ store.Gains later data) ∧
    (SetsAside data answer → store.Stands later ∧ store.Gains later data) := by
  intro store later answer
  have hsound : store.Sound := (sound_start merger).run turns
  have hpush : Push store data (later, answer) := push_makeCommit hsound data
  exact ⟨hpush.refusal hsound, hpush.stranded, hpush.aside hsound⟩

/-- A project that has one branch. -/
def founding : List Turn := [.createProject "p" "b" (lone "#0" (some "b"))]

/-- A commit is pushed for another branch, which was never created. -/
theorem run_refusal_keeps_iff_nowhere :
    let store := (start .never).run founding
    let data := lone loneHash (some "nowhere")
    let push := store.makeCommit data
    push.2 = .error (.notFound "nowhere") ∧
      store.commitAt "p" loneHash = none ∧ push.1.commitAt "p" loneHash = some data := by
  intro store data push
  have hanswer : push.2 = .error (.notFound "nowhere") := by decide +kernel
  have hfresh : store.commitAt "p" loneHash = none := rfl
  have hstrands : store.Strands data :=
    ⟨⟨_, by decide +kernel, rfl, rfl⟩, ⟨"nowhere", rfl, rfl⟩, hfresh⟩
  obtain ⟨-, hstranded, -⟩ := run_refusal_keeps_iff .never founding data
  have hgains := (hstranded hstrands).2 "p" loneHash
  rw [hfresh] at hgains
  exact ⟨hanswer, hfresh, hgains⟩

end Store

end Coauthor
