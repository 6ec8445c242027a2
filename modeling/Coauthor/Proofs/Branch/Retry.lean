import Coauthor.Proofs.Branch.Interruption
import Coauthor.Proofs.Branch.Repush

/-!
# A push that is answered wrongly

An answer that does not fit a push tells nothing of the commit.  The coordinator stops, with the
commit still first in the queue, and as long as it has stopped it queues what it is told of.  The one
thing that it may begin meanwhile is a rejoin that was due when the answer came.  So when it is told
to go on it pushes the same commit again, and those that were made meanwhile stand behind it, unless
the connection is down or a rejoin is due or under way.
-/

namespace Coauthor

open Coordinator

theorem CommitResponse.status?_eq_none {response : CommitResponse}
    (hstatus : response.status ∉ ["SYNCED", "FORKED", "MERGED", "CANCELED"]) :
    response.status? = none := by
  simp only [List.mem_cons, List.not_mem_nil, or_false, not_or] at hstatus
  obtain ⟨hsynced, hforked, hmerged, hcanceled⟩ := hstatus
  unfold status? CommitStatus.ofText?
  split
  · exact absurd ‹_› hsynced
  · exact absurd ‹_› hforked
  · exact absurd ‹_› hmerged
  · exact absurd ‹_› hcanceled
  · rfl

namespace Coordinator

/-- An answer that does not fit the push of a commit, and the error that it is. -/
inductive Misfits (pushed : CommitHash) :
    Except RemoteError CommitResponse → SyncError → Prop where
  | notFound (what : String) :
      Misfits pushed (.error (.notFound what)) (.remote (.notFound what))
  | rejected (reason : String) :
      Misfits pushed (.error (.rejected reason)) (.remote (.rejected reason))
  | hash {response : CommitResponse} (hhash : response.hash ≠ pushed) :
      Misfits pushed (.ok response) (.ackMismatch pushed response.hash)
  | status {response : CommitResponse} (hhash : response.hash = pushed)
      (hstatus : response.status ∉ ["SYNCED", "FORKED", "MERGED", "CANCELED"]) :
      Misfits pushed (.ok response) (.unexpectedStatus response.status)
  | mergeHash {response : CommitResponse} (hhash : response.hash = pushed)
      (hstatus : response.status = "MERGED") (hmerge : response.mergeHash = none) :
      Misfits pushed (.ok response) .missingMergeHash

/-- The coordinator after it has stopped on an error: the heads and the queues are the same, and one
event names the error. -/
def stopped (coordinator : Coordinator) (error : SyncError) : Coordinator :=
  { coordinator with
    phase := .idle
    halt := some .failed
    branch := { coordinator.branch with status := .error }
    events := coordinator.events ++ [.failed error, .status .error] }

/-- The coordinator is told of a commit, one that is made or one that is announced. -/
def Occasion.brings : Occasion → Bool
  | .commit _ | .update _ => true
  | _ => false

/-- A coordinator that has stopped on an error, and has been told of commits since: a rejoin that was
due may have begun. -/
structure Course.Stalled (course stopped : Course) (made : List CommitData) : Prop where
  halt : course.halt = some .failed
  commits : course.commits = stopped.commits ++ made
  connected : course.connected = stopped.connected
  rejoins : course.phase = .idle ∧ course.rejoinPending = stopped.rejoinPending ∨
    course.phase = .subscribing ∧ course.rejoinPending = false ∧ stopped.rejoinPending = true

variable {coordinator prepared : Coordinator} {course stopped : Course} {pushed : CommitHash}
  {result : Except RemoteError CommitResponse} {error : SyncError} {occasion : Occasion}
  {move : Move} {data : CommitData} {made rest : List CommitData}

/-! ## The answer -/

theorem Misfits.onPushed (h : Misfits pushed result error) (coordinator : Coordinator) :
    coordinator.onPushed pushed result = coordinator.fail error := by
  cases h with
  | notFound what => rfl
  | rejected reason => rfl
  | hash hhash => simp only [Coordinator.onPushed, if_pos hhash]
  | status hhash hstatus =>
      rw [Coordinator.onPushed, if_neg (not_not.mpr hhash), CommitResponse.status?_eq_none hstatus]
  | mergeHash hhash hstatus hmerge =>
      rw [Coordinator.onPushed, if_neg (not_not.mpr hhash), CommitResponse.status?, hstatus, hmerge]
      rfl

/-- A coordinator that runs stops on an error, and with commits queued this changes nothing else. -/
theorem finish_fail (hrunning : coordinator.halt = none) (htold : coordinator.Told)
    (hcommits : coordinator.branch.commits ≠ []) (error : SyncError) :
    finish (coordinator.rested.fail error) = (coordinator.stopped error, none) := by
  let failed : Coordinator :=
    { coordinator.rested with
      halt := some .failed
      events := coordinator.events ++ [.failed error] }
  have hfail : coordinator.rested.fail error = (failed, none) := by
    simp [fail, isForked, rested, hrunning, emit, failed]
  have hreleased : failed.releaseWorkers = failed := by
    rw [releaseWorkers_eq, if_neg fun hrelease => hcommits (List.isEmpty_iff.mp hrelease.1)]
  have hstatus : failed.branch.status ≠ .error := by
    intro hstopped
    have hrests : coordinator.currentStatus = .error := htold.symm.trans hstopped
    rw [currentStatus_eq, hrunning, if_neg (by rintro ⟨⟩)] at hrests
    split_ifs at hrests
  have hrefreshed : failed.refreshStatus = coordinator.stopped error := by
    have hrefresh : failed.refreshStatus =
        { failed with branch := { failed.branch with status := .error } }.emit (.status .error) :=
      if_neg hstatus
    rw [hrefresh, emit, Coordinator.stopped, ← List.append_cons]
    rfl
  rw [hfail, finish, hreleased, hrefreshed]

/-! ## What is told meanwhile -/

theorem Course.Stalled.next (h : prepared.course.Stalled stopped made) :
    prepared.next.1.course.Stalled stopped made := by
  have hhalt : prepared.halt = some .failed := h.halt
  unfold Coordinator.next
  split_ifs with hbusy hrejoin hstopped
  · exact h
  · have hidle : prepared.phase = .idle := not_not.mp fun hwaits => hbusy (.inl hwaits)
    obtain ⟨-, hsame⟩ := h.rejoins.resolve_right fun hbegun => by
      cases hidle.symm.trans hbegun.1
    exact { h with rejoins := .inr ⟨rfl, rfl, hsame.symm.trans hrejoin⟩ }
  · exact h
  · rw [hhalt] at hstopped
    exact absurd rfl hstopped

theorem Course.Stalled.react (h : coordinator.course.Stalled stopped made)
    (hbrings : occasion.brings) (hreact : coordinator.react occasion = some move) :
    move.1.course.Stalled stopped (made ++ occasion.made?.toList) := by
  cases reacted_of_react hreact with
  | @committed data hparent =>
      rw [course_finish]
      refine Course.Stalled.next { h with commits := ?_ }
      exact (congrArg (· ++ [data]) h.commits).trans (List.append_assoc ..)
  | known hknown => exact (List.append_nil made).symm ▸ h
  | announced hunknown =>
      rw [course_finish]
      refine Course.Stalled.next { h with commits := ?_ }
      exact h.commits.trans (congrArg _ (List.append_nil made).symm)
  | _ => cases hbrings

/-! ## To go on -/

/-- A coordinator that has stopped with a commit queued pushes it at once when it is told to go on,
unless the connection is down or a rejoin is due or under way. -/
theorem retry_eq_push_iff (hhalt : coordinator.halt = some .failed)
    (hcommits : coordinator.branch.commits = data :: rest) :
    coordinator.retry.2 = some (.push data) ↔ coordinator.Forgetful := by
  constructor
  · intro hpush
    have hretry := retry_of_queued hhalt (hcommits ▸ List.cons_ne_nil data rest)
    rw [hretry] at hpush
    have hnext : { coordinator with halt := none }.next.2 = some (.push data) := hpush
    unfold next at hnext
    split_ifs at hnext with hbusy hrejoin
    · cases hnext
    · obtain ⟨hidle, hconnected⟩ := not_or.mp hbusy
      exact ⟨not_not.mp hidle, hhalt, eq_true_of_ne_false hconnected, eq_false_of_ne_true hrejoin⟩
  · intro hforgetful
    exact hforgetful.retry hcommits

theorem commits_retry (hhalt : coordinator.halt = some .failed)
    (hcommits : coordinator.branch.commits ≠ []) :
    coordinator.retry.1.branch.commits = coordinator.branch.commits := by
  rw [retry_of_queued hhalt hcommits, commits_finish, commits_next]

/-- While a coordinator has stopped, it is ready to push again if it was so at the beginning. -/
theorem Course.Stalled.forgetful_iff (h : coordinator.course.Stalled stopped made) :
    coordinator.Forgetful ↔ stopped.connected = true ∧ stopped.rejoinPending = false := by
  constructor
  · intro hforgetful
    obtain ⟨-, hsame⟩ := h.rejoins.resolve_right fun hbegun => by
      cases hforgetful.idle.symm.trans hbegun.1
    exact ⟨h.connected.symm.trans hforgetful.connected, hsame.symm.trans hforgetful.rejoined⟩
  · rintro ⟨hconnected, hrejoined⟩
    obtain ⟨hidle, hsame⟩ := h.rejoins.resolve_right fun hbegun => by
      cases hrejoined.symm.trans hbegun.2.2
    exact ⟨hidle, h.halt, h.connected.trans hconnected, hsame.trans hrejoined⟩

end Coordinator

/-! ## Dialogues -/

namespace Dialogue

/-- The coordinator is told of a commit. -/
def Input.brings : Input → Bool
  | .told occasion => occasion.brings
  | .answer _ => false

/-- What comes of a coordinator that has stopped with this commit first in the queue, once it has
been told of others: to go on is to push the commit, unless the connection is down or a rejoin is due
or under way. -/
structure Retries (stopped : Dialogue) (more : List Input) (data : CommitData) : Prop where
  halt : (stopped.run more).coordinator.halt = some .failed
  queue : (stopped.run more).queue = stopped.queue ++ stopped.accepted more
  pushes : (stopped.run more).request? (.told .retry) = some (.push data) ↔
    (stopped.run more).coordinator.phase = .idle ∧
      (stopped.run more).coordinator.connected = true ∧
      (stopped.run more).coordinator.rejoinPending = false
  kept : ((stopped.run more).step (.told .retry)).queue = (stopped.run more).queue
  ready : stopped.coordinator.connected = true → stopped.coordinator.rejoinPending = false →
    (stopped.run more).request? (.told .retry) = some (.push data)

variable {dialogue : Dialogue} {input : Input} {inputs : List Input} {course : Course}
  {made rest : List CommitData} {data : CommitData} {pushed : CommitHash}
  {result : Except RemoteError CommitResponse} {error : SyncError}

theorem stalled_step (h : dialogue.coordinator.course.Stalled course made) (hbrings : input.brings) :
    (dialogue.step input).coordinator.course.Stalled course
      (made ++ (dialogue.accepted? input).toList) := by
  cases input with
  | answer response => cases hbrings
  | told occasion =>
      cases hmove : dialogue.move? (.told occasion) with
      | none =>
          rw [step_of_none hmove, accepted?, hmove]
          exact (List.append_nil made).symm ▸ h
      | some move =>
          rw [step_of_some hmove, accepted?, hmove]
          exact h.react hbrings hmove

theorem stalled_run (h : dialogue.coordinator.course.Stalled course made)
    (hbrings : ∀ input ∈ inputs, input.brings) :
    (dialogue.run inputs).coordinator.course.Stalled course (made ++ dialogue.accepted inputs) := by
  induction inputs generalizing dialogue made with
  | nil => exact (List.append_nil made).symm ▸ h
  | cons input rest ih =>
      have hrest := ih (stalled_step h (hbrings input List.mem_cons_self))
        fun other hmem => hbrings other (.tail _ hmem)
      rw [List.append_assoc] at hrest
      exact hrest

/-- What a coordinator that pushes waits for is the answer to the push of the first queued commit. -/
theorem Attentive.of_pushing (h : dialogue.Attentive)
    (hphase : dialogue.coordinator.phase = .pushing pushed) :
    ∃ data rest, data.hash = pushed ∧ dialogue.queue = data :: rest ∧
      dialogue.unanswered = [.push data] := by
  obtain ⟨request, hunanswered, asking, hasks, hextends⟩ := h
  have hasking : asking.phase = .pushing pushed := hextends.phase.symm.trans hphase
  cases hasks with
  | @push data rest hpushing hcommits =>
      obtain ⟨more, hmore⟩ := hextends.commits
      refine ⟨data, rest ++ more, Phase.pushing.inj (hpushing.symm.trans hasking), ?_, hunanswered⟩
      exact hmore.symm.trans (congrArg (· ++ more) hcommits)
  | _ => simp_all

/-- An answer that does not fit a push stops the coordinator, and changes nothing else. -/
theorem Steady.step_misfits (h : dialogue.Steady)
    (hphase : dialogue.coordinator.phase = .pushing pushed) (hmisfits : Misfits pushed result error)
    (hunanswered : dialogue.unanswered = [.push data]) :
    (dialogue.step (.answer (.pushed result))).coordinator = dialogue.coordinator.stopped error ∧
      (dialogue.step (.answer (.pushed result))).unanswered = [] := by
  have hsuits : (Phase.pushing pushed).suits dialogue.coordinator.halt := by
    rw [← hphase]
    exact h.sequenced.suits
  have hrunning : dialogue.coordinator.halt = none := Option.isNone_iff_eq_none.mp hsuits
  have hqueued : dialogue.coordinator.branch.commits ≠ [] := by
    obtain ⟨-, rest, hcommits⟩ := (h.attentive.awaits hunanswered).push
    rw [show dialogue.coordinator.branch.commits = _ from hcommits]
    exact List.cons_ne_nil data rest
  obtain ⟨owed, howing⟩ := h.owing
  have hanswers : (Response.pushed result).answers (.push data) := rfl
  obtain ⟨hcoordinator, hasked, -⟩ := step_of_answer hunanswered hanswers
  rw [handle_pushed hphase, hmisfits.onPushed, finish_fail hrunning howing.told hqueued]
    at hcoordinator hasked
  exact ⟨hcoordinator, hasked⟩

theorem retries_of_stopped (hhalt : dialogue.coordinator.halt = some .failed)
    (hidle : dialogue.coordinator.phase = .idle) (hqueue : dialogue.queue = data :: rest)
    (hbrings : ∀ input ∈ inputs, input.brings) : dialogue.Retries inputs data := by
  have hbegun : dialogue.coordinator.course.Stalled dialogue.coordinator.course [] :=
    { halt := hhalt, commits := (List.append_nil _).symm, connected := rfl
      rejoins := .inl ⟨hidle, rfl⟩ }
  have hstalled := stalled_run hbegun hbrings
  rw [List.nil_append] at hstalled
  let later := dialogue.run inputs
  have hlater : later.coordinator.branch.commits =
      data :: (rest ++ dialogue.accepted inputs) :=
    hstalled.commits.trans (congrArg (· ++ dialogue.accepted inputs) hqueue)
  have hpushes : later.request? (.told .retry) = some (.push data) ↔ later.coordinator.Forgetful :=
    retry_eq_push_iff hstalled.halt hlater
  refine ⟨hstalled.halt, hstalled.commits, hpushes.trans ?_, ?_, ?_⟩
  · exact ⟨fun h => ⟨h.idle, h.connected, h.rejoined⟩,
      fun ⟨hidle, hconnected, hrejoined⟩ => ⟨hidle, hstalled.halt, hconnected, hrejoined⟩⟩
  · exact commits_retry hstalled.halt (hlater ▸ List.cons_ne_nil _ _)
  · exact fun hconnected hrejoined =>
      hpushes.mpr (hstalled.forgetful_iff.mpr ⟨hconnected, hrejoined⟩)

/-- An answer that does not fit the push leaves the heads and the queues as they are, settles
nothing and stops the coordinator with one event that names the error.  Whatever commits and updates
come after it, to go on is to push the same commit again, with those that were made meanwhile behind
it, unless the connection is down or a rejoin is due or under way. -/
theorem run_retries_push (project : ProjectId) (branch : BranchName) (head : CommitHash)
    (inputs : List Input) (pushed : CommitHash) (result : Except RemoteError CommitResponse)
    (error : SyncError) :
    let reached := (start project branch head).run inputs
    reached.coordinator.phase = .pushing pushed → Misfits pushed result error →
      let answered := reached.step (.answer (.pushed result))
      ∃ data rest, data.hash = pushed ∧ reached.queue = data :: rest ∧
        reached.unanswered = [.push data] ∧ answered.unanswered = [] ∧
        answered.coordinator = reached.coordinator.stopped error ∧
        ∀ more : List Input, (∀ input ∈ more, input.brings) → answered.Retries more data := by
  intro reached hphase hmisfits answered
  have hsteady : reached.Steady := (steady_start project branch head).run inputs
  obtain ⟨data, rest, hpushed, hqueue, hunanswered⟩ := hsteady.attentive.of_pushing hphase
  obtain ⟨hstopped, hclosed⟩ := hsteady.step_misfits hphase hmisfits hunanswered
  refine ⟨data, rest, hpushed, hqueue, hunanswered, hclosed, hstopped, fun more hbrings => ?_⟩
  have hkept : answered.queue = data :: rest := by
    rw [← hqueue, queue, hstopped]
    rfl
  exact retries_of_stopped (hstopped ▸ rfl) (hstopped ▸ rfl) hkept hbrings

/-- The first of two commits is pushed. -/
def pushedFirst : List Input :=
  [.told (.commit (commitOn "#1" "#0")), .told (.commit (commitOn "#2" "#1"))]

/-- The server speaks of another commit. -/
def mistaken : CommitResponse := .of .synced "#9"

/-- A commit is made, another one is announced, and one is made on an old head. -/
def meanwhile : List Input :=
  [.told (.commit (commitOn "#3" "#2")), .told (.update (commitOn "#8" "#0")),
    .told (.commit (commitOn "#4" "#0"))]

/-- Where the answer leads. -/
def misled : Dialogue :=
  ((start "p" "b" "#0").run pushedFirst).step (.answer (.pushed (.ok mistaken)))

/-- The first commit is pushed again, and the other two that were accepted stand behind it. -/
theorem run_retries_push_mistaken :
    misled.coordinator.branch.status = .error ∧
      (misled.run meanwhile).request? (.told .retry) = some (.push (commitOn "#1" "#0")) ∧
      ((misled.run meanwhile).step (.told .retry)).queue =
        [commitOn "#1" "#0", commitOn "#2" "#1", commitOn "#3" "#2"] := by
  have hphase : ((start "p" "b" "#0").run pushedFirst).coordinator.phase = .pushing "#1" := by
    cbv
  have hqueued : ((start "p" "b" "#0").run pushedFirst).queue =
      [commitOn "#1" "#0", commitOn "#2" "#1"] := by
    cbv
  have haccepted : misled.accepted meanwhile = [commitOn "#3" "#2"] := by
    cbv
  have hmisled : misled.queue = [commitOn "#1" "#0", commitOn "#2" "#1"] := by
    cbv
  have hconnected : misled.coordinator.connected = true := by
    cbv
  have hrejoined : misled.coordinator.rejoinPending = false := by
    cbv
  have hmisfits : Misfits "#1" (.ok mistaken) (.ackMismatch "#1" "#9") := .hash (by decide)
  have hbrings : ∀ input ∈ meanwhile, input.brings := by
    simp [meanwhile, Input.brings, Occasion.brings]
  obtain ⟨data, rest, -, hqueue, -, -, hstopped, hretries⟩ :=
    run_retries_push "p" "b" "#0" pushedFirst "#1" (.ok mistaken) _ hphase hmisfits
  obtain ⟨rfl, -⟩ := List.cons.inj (hqueue.symm.trans hqueued)
  have hretries : misled.Retries meanwhile (commitOn "#1" "#0") := hretries meanwhile hbrings
  refine ⟨congrArg (·.branch.status) hstopped, hretries.ready hconnected hrejoined, ?_⟩
  rw [hretries.kept, hretries.queue, haccepted, hmisled]
  rfl

/-- The connection is found to be another one while the first commit is pushed. -/
def pushRenewed : List Input :=
  [.told (.commit (commitOn "#1" "#0")), .told (.connection .reconnected)]

/-- The answer does not fit, and with the next commit the rejoin begins. -/
def listening : List Input :=
  pushRenewed ++ [.answer (.pushed (.ok mistaken)), .told (.commit (commitOn "#2" "#1"))]

/-- A rejoin that was due when the answer came begins with the next commit.  While it is under way
none is due any more, and to go on pushes nothing. -/
theorem retry_waits_for_rejoin :
    let reached := (start "p" "b" "#0").run pushRenewed
    let later := (start "p" "b" "#0").run listening
    reached.coordinator.phase = .pushing "#1" ∧
      Misfits "#1" (.ok mistaken) (.ackMismatch "#1" "#9") ∧
      later.coordinator.halt = some .failed ∧ later.coordinator.connected = true ∧
      later.coordinator.rejoinPending = false ∧ later.request? (.told .retry) = none := by
  have hphase : ((start "p" "b" "#0").run pushRenewed).coordinator.phase = .pushing "#1" := by
    cbv
  have hmisfits : Misfits "#1" (.ok mistaken) (.ackMismatch "#1" "#9") := .hash (by decide)
  have hhalt : ((start "p" "b" "#0").run listening).coordinator.halt = some .failed := by
    cbv
  have hconnected : ((start "p" "b" "#0").run listening).coordinator.connected = true := by
    cbv
  have hrejoined : ((start "p" "b" "#0").run listening).coordinator.rejoinPending = false := by
    cbv
  have hunasked : ((start "p" "b" "#0").run listening).request? (.told .retry) = none := by
    cbv
  exact ⟨hphase, hmisfits, hhalt, hconnected, hrejoined, hunasked⟩

end Dialogue

end Coauthor
