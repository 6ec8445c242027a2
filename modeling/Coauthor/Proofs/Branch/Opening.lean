import Coauthor.Proofs.Store.Heads
import Coauthor.Session.Branch
import Mathlib

/-!
# Opening a branch between the calls of others

A branch is opened with two calls: its head is asked for first, and then the stream of the heads to
come is opened.  Other clients may move the head in between.  What is announced then is announced to
no stream of this client, and what is announced later does not tell of it.  So the client starts
from an old head and hears of no other until the head moves again.
-/

namespace Coauthor

namespace Store

/-- What another client asks of the store. -/
inductive Call where
  | makeCommit (data : CommitData)
  | setHead (project : ProjectId) (branch : BranchName) (old : Option CommitHash)
      (new : CommitHash)

/-- Carries a call out; one that is refused may leave a commit behind. -/
def serve (store : Store) : Call → Store
  | .makeCommit data => (store.makeCommit data).1
  | .setHead project branch old new =>
      match store.setHead project branch old new with
      | .ok (later, _) => later
      | .error _ => store

def serveAll (store : Store) (calls : List Call) : Store := calls.foldl serve store

variable {store later : Store} {id : ProjectId} {branch : BranchName} {stream : SubscriptionId}
  {hash : CommitHash} {data : CommitData} {project : Project} {head : Option CommitHash}
  {response : CommitResponse}

/-! ## Soundness without listeners -/

theorem Sound.makeCommit (h : store.Sound) (data : CommitData) :
    (store.makeCommit data).1.Sound :=
  (push_makeCommit h data).sound h

theorem Sound.setHead (h : store.Sound) {old : Option CommitHash}
    (hset : store.setHead id branch old hash = .ok (later, response)) : later.Sound := by
  rcases setHead_cases h hset with ⟨rfl, -⟩ | ⟨-, project, data, hget, hstored, rfl⟩
  · exact h
  · exact h.moved hget hstored branch

theorem Sound.serve (h : store.Sound) (call : Call) : (store.serve call).Sound := by
  cases call with
  | makeCommit data => exact h.makeCommit data
  | setHead project branch old new =>
      simp only [Store.serve]
      split
      · rename_i later response hset
        exact h.setHead hset
      · exact h

theorem Sound.serveAll (h : store.Sound) (calls : List Call) : (store.serveAll calls).Sound := by
  induction calls generalizing store with
  | nil => exact h
  | cons call rest ih => exact ih (h.serve call)

/-! ## What a stream tells of the head -/

/-- Whatever is asked of the store, a head moves at most once and is told. -/
theorem exists_moved_serve (hsound : store.Sound) (hfeeds : store.Feeds stream id branch)
    (call : Call) : ∃ move, Moved id branch stream store (store.serve call) move := by
  cases call with
  | makeCommit data => exact (pushed_makeCommit hsound hfeeds data).exists_moved
  | setHead project name old new =>
      simp only [serve]
      split
      · rename_i later response hset
        exact moved_setHead hsound hfeeds hset
      · exact ⟨none, moved_refl hsound hfeeds⟩

/-- The head is the one that was announced last, or else the one before all announcements. -/
structure Follows (id : ProjectId) (branch : BranchName) (stream : SubscriptionId)
    (before : Option CommitHash) (store : Store) : Prop where
  sound : store.Sound
  feeds : store.Feeds stream id branch
  head : store.headOf id branch =
    ((store.announced stream).getLast?.map (·.hash)).or before

theorem Follows.serve (h : Follows id branch stream head store) (call : Call) :
    Follows id branch stream head (store.serve call) := by
  obtain ⟨move, hmoved⟩ := exists_moved_serve h.sound h.feeds call
  refine ⟨hmoved.sound, hmoved.feeds, ?_⟩
  rw [hmoved.head, hmoved.announced, h.head]
  cases move with
  | none => rw [Option.toList_none, List.append_nil]; rfl
  | some told => rw [Option.toList_some, List.getLast?_concat]; rfl

theorem Follows.serveAll (h : Follows id branch stream head store) (calls : List Call) :
    Follows id branch stream head (store.serveAll calls) := by
  induction calls generalizing store with
  | nil => exact h
  | cons call rest ih => exact ih (h.serve call)

/-- The current head was known before all announcements or is announced exactly if there is an
announcement, or the head was the known one then. -/
theorem Follows.current_iff {known : CommitHash} (h : Follows id branch stream head store) :
    (store.headOf id branch = some known ∨
        ∃ told ∈ store.announced stream, store.headOf id branch = some told.hash) ↔
      head = some known ∨ store.announced stream ≠ [] := by
  rw [h.head]
  cases hlast : (store.announced stream).getLast? with
  | none =>
      have hnil := List.getLast?_eq_none_iff.mp hlast
      simp [hnil]
  | some told =>
      have hmem := List.mem_of_getLast? hlast
      refine iff_of_true (.inr ⟨told, hmem, rfl⟩) (.inr (List.ne_nil_of_mem hmem))

end Store

namespace Line

/-- Other clients ask something of the store. -/
def amid (line : Line) (calls : List Store.Call) : Line :=
  { line with server := { line.server with store := line.server.store.serveAll calls } }

end Line

namespace BranchSession

/-- Opens a branch while other clients ask something of the store between the two calls. -/
def openAmid (line : Line) (calls : List Store.Call) (project : ProjectId) (branch : BranchName)
    (settings : Settings) : Line × Except SessionError BranchSession :=
  match line.branchHead project branch with
  | (line, .error error) => (line, .error (.remote error))
  | (line, .ok none) => (line, .error (.sync (.branchMissing branch)))
  | (line, .ok (some head)) =>
      match (line.amid calls).watchBranch project branch with
      | (line, .error error) => (line, .error (.remote error))
      | (line, .ok stream) =>
          (line, .ok (start project branch head stream line.link.connection settings))

/-- With no call in between this is how a branch is opened. -/
theorem openAmid_nil (line : Line) (project : ProjectId) (branch : BranchName)
    (settings : Settings) :
    openAmid line [] project branch settings = openSession line project branch settings :=
  rfl

variable {line opened : Line} {session : BranchSession} {project : ProjectId}
  {branch : BranchName} {settings : Settings} {calls : List Store.Call}

theorem branchHead_eq_ok {head : CommitHash} {read : Line}
    (hread : line.branchHead project branch = (read, .ok (some head))) :
    read = line ∧ line.link.connection.isConnected = true ∧
      line.server.store.headOf project branch = some head := by
  simp only [Line.branchHead, Line.read, Line.ask] at hread
  split_ifs at hread with hconnected
  · obtain ⟨hline, hstored⟩ := Prod.mk.inj hread
    refine ⟨hline.symm, hconnected, ?_⟩
    cases hget : line.server.store.projects.get? project with
    | none => simp [Store.branchHead, Store.project, hget, bind, Except.bind] at hstored
    | some found =>
        simp only [Store.branchHead, Store.project_of_get? hget, bind, Except.bind, pure,
          Except.pure] at hstored
        exact Option.bind_eq_some_iff.mpr ⟨found, hget, Except.ok.inj hstored⟩
  · cases (Prod.mk.inj hread).2

theorem watchBranch_eq_ok {stream : SubscriptionId}
    (hwatch : line.watchBranch project branch = (opened, .ok stream)) :
    opened.link = line.link ∧
      line.server.store.watch project branch line.link.client =
        .ok (opened.server.store, stream) := by
  simp only [Line.watchBranch, Line.change, Line.ask] at hwatch
  split_ifs at hwatch with hconnected
  · cases hstore : line.server.store.watch project branch line.link.client with
    | error error => simp [Line.carry, hstore] at hwatch
    | ok watched =>
        simp only [Line.carry, hstore] at hwatch
        obtain ⟨rfl, hstream⟩ := Prod.mk.inj hwatch
        exact ⟨rfl, congrArg Except.ok (Prod.ext rfl (Except.ok.inj hstream))⟩
  · cases (Prod.mk.inj hwatch).2

/-- What a client that has opened a branch starts from: the head that it read, and a stream that
was opened once the others were served. -/
theorem exists_of_openAmid
    (hopen : openAmid line calls project branch settings = (opened, .ok session)) :
    ∃ head stream, session.coordinator.branch.originHead = head ∧ session.stream = some stream ∧
      line.server.store.headOf project branch = some head ∧
      (line.server.store.serveAll calls).watch project branch line.link.client =
        .ok (opened.server.store, stream) := by
  unfold openAmid at hopen
  split at hopen
  · cases (Prod.mk.inj hopen).2
  · cases (Prod.mk.inj hopen).2
  · rename_i read head hread
    obtain ⟨rfl, hconnected, hhead⟩ := branchHead_eq_ok hread
    split at hopen
    · cases (Prod.mk.inj hopen).2
    · rename_i watching stream hwatch
      obtain ⟨hlink, hstore⟩ := watchBranch_eq_ok hwatch
      obtain ⟨rfl, hsession⟩ := Prod.mk.inj hopen
      obtain rfl := Except.ok.inj hsession
      have hup : watching.link.connection.isConnected = true := by
        rw [hlink]
        exact hconnected
      refine ⟨head, stream, ?_, rfl, hhead, hstore⟩
      simp only [start, hup, if_true]
      rfl

/-- Other clients are served while a branch is opened and afterwards.  The client that opened it has
the current head, to start from or on its stream, exactly if the head that it read was still the
head when the stream was opened, or the head has been moved since. -/
theorem openAmid_has_head_iff (hsound : line.server.store.Sound) (between after : List Store.Call)
    (hopen : openAmid line between project branch settings = (opened, .ok session)) :
    ∃ head stream, session.coordinator.branch.originHead = head ∧ session.stream = some stream ∧
      let listened := line.server.store.serveAll between
      let later := opened.server.store.serveAll after
      (later.headOf project branch = some head ∨
          ∃ told ∈ later.announced stream, later.headOf project branch = some told.hash) ↔
        listened.headOf project branch = some head ∨ later.announced stream ≠ [] := by
  obtain ⟨head, stream, horigin, hstream, hread, hwatch⟩ := exists_of_openAmid hopen
  refine ⟨head, stream, horigin, hstream, ?_⟩
  intro listened later
  obtain ⟨hprojects, hfeeds, hnone⟩ := Store.announced_watch hwatch
  have hhead : opened.server.store.headOf project branch = listened.headOf project branch := by
    rw [Store.headOf, hprojects]
    rfl
  have hopened :
      Store.Follows project branch stream (listened.headOf project branch) opened.server.store :=
    { sound := fun id found hget => hsound.serveAll between id found (hprojects ▸ hget)
      feeds := hfeeds
      head := by rw [hhead, hnone]; rfl }
  exact (hopened.serveAll after).current_iff

/-- A commit without parents. -/
def rootOn (id : CommitHash) (branch : BranchName) : CommitData :=
  { projectId := "p", branchName := some branch, coreObjects := ∅, oldHash := none
    commit := { id, root := "", parents := [], updater := [], time := 0, message := ""
                branchName := none } }

/-- A server whose project has two branches, and the line of a client to it. -/
def twoBranches : Line :=
  { server := { Server.start .never 0 with
      store := (Store.start .never).createProject "p" "b" (rootOn "#0" "b")
        |>.createProject "p" "c" (rootOn "#1" "c") }
    link := .start "alice" }

/-- Another client moves the head. -/
def movedMeanwhile : List Store.Call := [.setHead "p" "b" none "#1"]

/-- What the opening of the branch leads to. -/
def openedLate : Line × Except SessionError BranchSession :=
  openAmid twoBranches movedMeanwhile "p" "b" .default

/-- The client starts from the old head, and its stream does not tell of the new one. -/
theorem openAmid_has_head_iff_moved :
    ∃ opened session, openedLate = (opened, .ok session) ∧
      session.coordinator.branch.originHead = "#0" ∧
      opened.server.store.headOf "p" "b" = some "#1" ∧
      ∃ stream, session.stream = some stream ∧
        ∀ told ∈ opened.server.store.announced stream,
          opened.server.store.headOf "p" "b" ≠ some told.hash := by
  have hsound : twoBranches.server.store.Sound :=
    ((Store.sound_start .never).createProject _ _ _).createProject _ _ _
  have hlistened :
      (twoBranches.server.store.serveAll movedMeanwhile).headOf "p" "b" = some "#1" := by
    cbv
  have hhead : openedLate.1.server.store.headOf "p" "b" = some "#1" := by
    cbv
  have hnone : openedLate.1.server.store.announced 0 = [] := by
    cbv
  have hread : openedLate.2.toOption.map (·.coordinator.branch.originHead) = some "#0" := by
    cbv
  have hlistens : openedLate.2.toOption.map (·.stream) = some (some 0) := by
    cbv
  obtain ⟨opened, session, hopen⟩ : ∃ opened session, openedLate = (opened, .ok session) :=
    ⟨_, _, rfl⟩
  rw [hopen] at hhead hnone hread hlistens
  have hold : session.coordinator.branch.originHead = "#0" := Option.some.inj hread
  have hopens : session.stream = some 0 := Option.some.inj hlistens
  obtain ⟨head, stream, horigin, hstream, hiff⟩ :=
    openAmid_has_head_iff hsound movedMeanwhile [] hopen
  obtain rfl : 0 = stream := Option.some.inj (hopens.symm.trans hstream)
  obtain rfl : head = "#0" := horigin.symm.trans hold
  refine ⟨opened, session, hopen, hold, hhead, 0, hopens, fun told hmem hcurrent => ?_⟩
  rcases hiff.mp (.inr ⟨told, hmem, hcurrent⟩) with hsame | htold
  · rw [hlistened] at hsame
    exact absurd hsame (by decide)
  · exact htold hnone

end BranchSession

end Coauthor
