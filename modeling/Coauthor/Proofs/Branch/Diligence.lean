import Coauthor.Proofs.Branch.Resolution

/-!
# Rest

Every input ends with what comes next, with a request, or with a reason to wait.  So a coordinator
that waits for nothing, though it is connected and has not stopped, has nothing left to do: no
rejoin is due, and both queues are empty.
-/

namespace Coauthor

open Coordinator

namespace Coordinator

/-- The coordinator waits for nothing, though it is connected and has not stopped. -/
structure Course.Rests (course : Course) : Prop where
  idle : course.phase = .idle
  connected : course.connected = true
  running : course.halt = none

/-- There is nothing left to do at rest. -/
structure Course.Done (course : Course) : Prop where
  rejoined : course.rejoinPending = false
  commits : course.commits = []
  updates : course.updates = []

/-- A coordinator that only rests when it is done. -/
def Course.Diligent (course : Course) : Prop := course.Rests → course.Done

variable {coordinator prepared : Coordinator} {course : Course} {phase : Phase}
  {response : Response} {move : Move} {request : Request} {occasion : Occasion}

theorem Course.Diligent.of_busy (hphase : course.phase ≠ .idle) : course.Diligent :=
  fun hrests => absurd hrests.idle hphase

theorem Course.Diligent.of_disconnected (hconnected : course.connected = false) :
    course.Diligent := fun hrests => by
  cases hconnected.symm.trans hrests.connected

theorem Course.Diligent.of_halted (hhalt : course.halt ≠ none) : course.Diligent :=
  fun hrests => absurd hrests.running hhalt

theorem diligent_start (project : ProjectId) (name : BranchName) (head : CommitHash) :
    (start project name head).course.Diligent :=
  fun _ => ⟨rfl, rfl, rfl⟩

theorem diligent_finish (h : move.1.course.Diligent) : (finish move).1.course.Diligent := by
  rw [course_finish]
  exact h

theorem diligent_work (hrejoin : coordinator.rejoinPending = false) :
    coordinator.work.1.course.Diligent := by
  cases hcommits : coordinator.branch.commits with
  | cons data rest =>
      rw [work_of_cons hcommits]
      exact .of_busy (by rintro ⟨⟩)
  | nil =>
      rw [work_of_nil hcommits]
      cases hdue : coordinator.due with
      | nil => exact fun _ => ⟨hrejoin, hcommits, hdue⟩
      | cons data rest => exact .of_busy (by rintro ⟨⟩)

/-- Whatever is due is begun, unless something is under way or hinders it. -/
theorem diligent_next (coordinator : Coordinator) : coordinator.next.1.course.Diligent := by
  unfold next
  split_ifs with hbusy hrejoin hhalt
  · rcases hbusy with hbusy | hdown
    · exact .of_busy hbusy
    · exact .of_disconnected hdown
  · exact .of_busy (by rintro ⟨⟩)
  · exact .of_halted (Option.isSome_iff_ne_none.mp hhalt)
  · exact diligent_work (eq_false_of_ne_true hrejoin)

theorem diligent_refreshHead (coordinator : Coordinator) :
    coordinator.refreshHead.1.course.Diligent := by
  unfold refreshHead
  split_ifs with hconnected
  · exact .of_busy (by rintro ⟨⟩)
  · exact .of_disconnected (eq_false_of_ne_true hconnected)

theorem diligent_fail (coordinator : Coordinator) (error : SyncError) :
    (coordinator.fail error).1.course.Diligent :=
  .of_halted (Option.isSome_iff_ne_none.mp (isSome_halt_fail coordinator error))

theorem diligent_acknowledgeRejoined (coordinator : Coordinator) (queued head : CommitHash) :
    (coordinator.acknowledgeRejoined queued head).1.course.Diligent := by
  simp only [acknowledgeRejoined]
  split_ifs with hsettled
  · exact diligent_next _
  · exact .of_busy (by rintro ⟨⟩)

theorem diligent_storeNext (coordinator : Coordinator) (resolution : ForkResolution)
    (stored : Nat) : (coordinator.storeNext resolution stored).1.course.Diligent := by
  unfold storeNext
  cases coordinator.branch.commits[stored]? with
  | some data => exact .of_busy (by rintro ⟨⟩)
  | none =>
      cases resolution with
      | fork name => exact .of_busy (by rintro ⟨⟩)
      | forcePush => exact .of_busy (by rintro ⟨⟩)
      | abandon => exact diligent_refreshHead _

/-- No answer leaves something undone. -/
theorem Handled.diligent (h : Handled coordinator phase response move) :
    move.1.course.Diligent := by
  cases h with
  | interrupted hfault => exact diligent_next _
  | failed hfails => exact diligent_fail coordinator _
  | synced hhash hstatus => exact diligent_next _
  | merged hhash hstatus hmerge => exact .of_busy (by rintro ⟨⟩)
  | forked hstatus => exact .of_halted (Option.some_ne_none _)
  | canceled hstatus => exact diligent_refreshHead _
  | loaded reason hash => exact diligent_next _
  | listening hhalt => exact diligent_next _
  | subscribed hhalt => exact .of_busy (by rintro ⟨⟩)
  | current hcommits => exact diligent_next _
  | behind hcommits hhead => exact .of_busy (by rintro ⟨⟩)
  | landed hcommits => exact diligent_acknowledgeRejoined coordinator _ _
  | searching hcommits hhead => exact .of_busy (by rintro ⟨⟩)
  | emptied hcommits => exact diligent_next _
  | recognised hcommits => exact diligent_acknowledgeRejoined coordinator _ _
  | diverged hcommits hother => exact .of_halted (Option.some_ne_none _)
  | unknown hcommits => exact .of_busy (by rintro ⟨⟩)
  | stored resolution count result => exact diligent_storeNext coordinator _ _
  | refused resolution count error => exact diligent_next _
  | branchCreated name count => exact diligent_refreshHead _
  | forced count hstatus => exact diligent_next _
  | unforced count hstatus => exact diligent_next _

/-- Nor does anything that a coordinator is told. -/
theorem Course.Diligent.react (h : coordinator.course.Diligent)
    (hreact : coordinator.react occasion = some move) : move.1.course.Diligent := by
  cases reacted_of_react hreact with
  | committed hparent => exact diligent_finish (diligent_next _)
  | known hknown => exact h
  | announced hunknown => exact diligent_finish (diligent_next _)
  | connected => exact diligent_finish (diligent_next _)
  | reconnected => exact diligent_finish (diligent_next _)
  | disconnected hstate => exact diligent_finish (.of_disconnected rfl)
  | @resolved resolution hforked hidle =>
      apply diligent_finish
      cases resolution with
      | abandon => exact diligent_refreshHead _
      | fork name => exact diligent_storeNext coordinator _ 0
      | forcePush => exact diligent_storeNext coordinator _ 0
  | unfailed hhalt => exact h
  | refreshed hhalt hidle hcommits => exact diligent_finish (diligent_refreshHead _)
  | resumed hhalt => exact diligent_finish (diligent_next _)
  | queued number =>
      rw [course_queueWorker]
      exact h

end Coordinator

namespace Dialogue

variable {dialogue : Dialogue}

theorem Attentive.diligent_step (hattentive : dialogue.Attentive)
    (h : dialogue.coordinator.course.Diligent) (input : Input) :
    (dialogue.step input).coordinator.course.Diligent := by
  cases hmove : dialogue.move? input with
  | none => exact (step_of_none hmove).symm ▸ h
  | some move =>
      rw [step_of_some hmove]
      cases input with
      | told occasion => exact h.react hmove
      | answer response =>
          obtain ⟨request, handled, -, -, -, hhandled, rfl⟩ := hattentive.handled hmove
          exact diligent_finish hhandled.diligent

/-- In every state that a dialogue reaches, a coordinator only rests when it is done. -/
theorem Attentive.diligent_run (hattentive : dialogue.Attentive)
    (h : dialogue.coordinator.course.Diligent) (inputs : List Input) :
    (dialogue.run inputs).coordinator.course.Diligent :=
  run_keeps (·.coordinator.course.Diligent)
    (fun _ input hbefore hkept => hbefore.diligent_step hkept input) hattentive h inputs

/-- Whatever a coordinator is told and answered, it only comes to rest when nothing is left to do:
no rejoin is due, both queues are empty, and no answer is awaited. -/
theorem run_rests_when_done (project : ProjectId) (branch : BranchName) (head : CommitHash)
    (inputs : List Input) :
    let reached := (start project branch head).run inputs
    reached.coordinator.course.Rests →
      reached.coordinator.course.Done ∧ reached.unanswered = [] := by
  intro reached hrests
  have hstarted : (start project branch head).Attentive := attentive_start project branch head
  obtain ⟨request, hunanswered, hawaits⟩ := hstarted.run inputs
  obtain rfl := hawaits.idle_iff.mp hrests.idle
  exact ⟨hstarted.diligent_run (diligent_start project branch head) inputs hrests, hunanswered⟩

/-- The connection fails under a push that arrives all the same, and another client's commit is
announced during the rejoin that follows. -/
def answerLost : List Input :=
  [.told (.commit (commitOn "#1" "#0")), .told (.connection .disconnected),
    .answer (.pushed (.error .disconnected)), .told (.connection .reconnected),
    .answer (.subscribed (.ok ())), .told (.update (commitOn "#2" "#1")),
    .answer (.head (.ok (some "#1"))), .answer (.delivered (.ok ()))]

/-- The push is not repeated, the announced commit is loaded, and then nothing is left to do. -/
theorem run_rests_when_done_answer_lost :
    ((start "p" "b" "#0").run answerLost).coordinator.course.Done ∧
      ((start "p" "b" "#0").run answerLost).coordinator.branch.localHead = "#2" := by
  have hidle : ((start "p" "b" "#0").run answerLost).coordinator.phase = .idle := by
    cbv
  have hconnected : ((start "p" "b" "#0").run answerLost).coordinator.connected = true := by
    cbv
  have hrunning : ((start "p" "b" "#0").run answerLost).coordinator.halt = none := by
    cbv
  have hhead : ((start "p" "b" "#0").run answerLost).coordinator.branch.localHead = "#2" := by
    cbv
  obtain ⟨hdone, -⟩ :=
    run_rests_when_done "p" "b" "#0" answerLost ⟨hidle, hconnected, hrunning⟩
  exact ⟨hdone, hhead⟩

end Dialogue

end Coauthor
