import Coauthor.Proofs.Branch.Diligence
import Coauthor.Proofs.Branch.Halts
import Coauthor.Proofs.Branch.Workers

/-!
# An attempt to rejoin

A rejoin asks up to three times, and only its last answer leads to more than the next question.  The
handler of an answer reads neither whether the coordinator is connected nor whether another rejoin is
due; it either makes the same of the answer, or leaves it to what comes next.  So two coordinators
that are the same but for the connection hear an attempt alike, as long as there is nothing to load
where one goes on and the other rejoins.
-/

namespace Coauthor

open Coordinator

/-- A rejoin is under way. -/
def Phase.isRejoining : Phase → Bool
  | .subscribing | .fetchingHead | .findingAncestor _ => true
  | _ => false

/-- A rejoin is under way, and its first step is done. -/
def Phase.isAdvanced : Phase → Bool
  | .fetchingHead | .findingAncestor _ => true
  | _ => false

/-- The reason for which a commit is being loaded. -/
def Phase.loads : Phase → Option LoadReason
  | .pulling reason _ => some reason
  | _ => none

/-- The answer is to the step of a rejoin that is under way. -/
def Phase.expects : Phase → Response → Bool
  | .subscribing, .subscribed _ | .fetchingHead, .head _ | .findingAncestor _, .ancestor _ => true
  | _, _ => false

/-- The answer is to a step of a rejoin. -/
def Response.isOfRejoin : Response → Bool
  | .subscribed _ | .head _ | .ancestor _ => true
  | _ => false

/-- What the server answers in the course of a rejoin. -/
structure Attempt where
  subscribed : Except RemoteError Unit
  head : Except RemoteError (Option CommitHash)
  ancestor : Except RemoteError CommitHash

namespace Attempt

/-- The answers in order; those that are not asked for are not taken. -/
def answers (attempt : Attempt) : List Response :=
  [.subscribed attempt.subscribed, .head attempt.head, .ancestor attempt.ancestor]

/-- The transport lets every answer through. -/
def Complete (attempt : Attempt) : Prop := ∀ response ∈ attempt.answers, response.isFault = false

/-- These are the answers that have led to the phase. -/
def Gave (attempt : Attempt) : Phase → Prop
  | .fetchingHead => attempt.subscribed = .ok ()
  | .findingAncestor head => attempt.subscribed = .ok () ∧ attempt.head = .ok (some head)
  | _ => True

end Attempt

namespace Coordinator

/-- The coordinator as if its connection had not changed. -/
def undisturbed (coordinator : Coordinator) : Coordinator :=
  { coordinator with connected := true, rejoinPending := false }

/-- What a coordinator shows to others. -/
def view (coordinator : Coordinator) : Branch × List SyncEvent × Option Halt :=
  (coordinator.branch, coordinator.events, coordinator.halt)

/-- The end of an input has nothing to do. -/
def Finished (coordinator : Coordinator) : Prop := (finish (coordinator, none)).1 = coordinator

/-- To go on shows nothing: there is a reason to stop, or a commit to be pushed, or no update. -/
def Quiet (coordinator : Coordinator) : Prop :=
  coordinator.halt.isSome ∨ coordinator.branch.commits ≠ [] ∨ coordinator.branch.updates = []

/-- The common ancestor is only asked for if the first queued commit is not the head itself. -/
def Course.Seeking (course : Course) : Prop :=
  ∀ head, course.phase = .findingAncestor head →
    ∃ data rest, course.commits = data :: rest ∧ data.hash ≠ head

/-- Takes the answer if it is to the step of a rejoin that is under way. -/
def hear (coordinator : Coordinator) (response : Response) : Coordinator :=
  if coordinator.phase.expects response then (coordinator.handle response).1 else coordinator

/-- The coordinator once the answers have come. -/
def heard (coordinator : Coordinator) (attempt : Attempt) : Coordinator :=
  attempt.answers.foldl hear coordinator

/-- The coordinator at the beginning of another attempt. -/
def restarted (coordinator : Coordinator) : Coordinator :=
  { coordinator with phase := .subscribing, connected := true, rejoinPending := false }

/-- The head drains the queue while updates wait and another rejoin is due. -/
structure Overdue (coordinator : Coordinator)
    (result : Except RemoteError (Option CommitHash)) : Prop where
  pending : coordinator.rejoinPending = true
  running : coordinator.halt = none
  landed : ∃ only, coordinator.branch.commits = [only] ∧ result = .ok (some only.hash)
  waiting : coordinator.branch.updates ≠ []

/-- The coordinator alone, and another one that came to the same point by interruptions: they are the
same but for the connection, or have come to an end that shows the same. -/
inductive Parallel (coordinator : Coordinator) : Coordinator → Prop where
  | going : Parallel coordinator coordinator.undisturbed
  | ended {other : Coordinator} (hview : other.view = coordinator.view)
      (hphase : coordinator.phase.isAdvanced = false) (hother : other.phase.isAdvanced = false) :
      Parallel coordinator other

variable {coordinator other : Coordinator} {phase : Phase} {response : Response} {move : Move}
  {head : CommitHash}

@[simp]
theorem branch_undisturbed (coordinator : Coordinator) :
    coordinator.undisturbed.branch = coordinator.branch :=
  rfl

/-! ## The end of an input -/

theorem isMerging_congr {before after : Phase} (hloads : after.loads = before.loads) :
    after.isMerging = before.isMerging := by
  have hmerging (phase : Phase) : phase.isMerging = (phase.loads == some .merge) := by
    cases phase with
    | pulling reason hash => cases reason <;> rfl
    | _ => rfl
  rw [hmerging, hmerging, hloads]

theorem currentStatus_eq (coordinator : Coordinator) :
    coordinator.currentStatus =
      if coordinator.halt = some .failed then .error
      else if coordinator.phase.loads.isSome then .pulling
      else if coordinator.branch.commits.isEmpty then .sync
      else if coordinator.branch.inSync then .aheadSync
      else .aheadNotSync := by
  unfold currentStatus
  split
  · rename_i hhalt
    rw [if_pos hhalt]
  · rename_i hphase hrunning
    rw [if_neg hrunning, hphase]
    rfl
  · rename_i hrunning hother
    have hloads : coordinator.phase.loads = none := by
      unfold Phase.loads
      split
      · exact absurd ‹_› (hother _ _)
      · rfl
    rw [if_neg hrunning, hloads]
    rfl

theorem releaseWorkers_eq (coordinator : Coordinator) :
    coordinator.releaseWorkers =
      if coordinator.branch.commits.isEmpty ∧ coordinator.phase.isMerging = false ∧
          coordinator.branch.workers.isEmpty = false then
        { coordinator with branch := { coordinator.branch with workers := [] } }.emit
          (.workersReleased coordinator.branch.workers coordinator.branch.localHead)
      else coordinator :=
  rfl

theorem releaseWorkers_wait (hloads : phase.loads = coordinator.phase.loads)
    (connected rejoinPending : Bool) :
    { coordinator with phase, connected, rejoinPending }.releaseWorkers =
      { coordinator.releaseWorkers with phase, connected, rejoinPending } := by
  simp only [releaseWorkers_eq, isMerging_congr hloads]
  split_ifs with hrelease
  · rfl
  · rfl

theorem refreshStatus_wait (hloads : phase.loads = coordinator.phase.loads)
    (connected rejoinPending : Bool) :
    { coordinator with phase, connected, rejoinPending }.refreshStatus =
      { coordinator.refreshStatus with phase, connected, rejoinPending } := by
  have hstatus : { coordinator with phase, connected, rejoinPending }.currentStatus =
      coordinator.currentStatus := by
    rw [currentStatus_eq, currentStatus_eq, hloads]
  simp only [refreshStatus, hstatus]
  split_ifs with hsame
  · rfl
  · rfl

/-- The end of an input looks at the phase only to see what is being loaded, and at the connection
not at all. -/
theorem finish_wait (hloads : phase.loads = coordinator.phase.loads)
    (connected rejoinPending : Bool) (request asked : Option Request) :
    (finish ({ coordinator with phase, connected, rejoinPending }, request)).1 =
      { (finish (coordinator, asked)).1 with phase, connected, rejoinPending } := by
  have hphase : coordinator.releaseWorkers.phase = coordinator.phase :=
    congrArg Course.phase (course_releaseWorkers coordinator)
  simp only [finish, releaseWorkers_wait hloads]
  exact refreshStatus_wait (hphase ▸ hloads) connected rejoinPending

theorem view_finish_wait (hloads : phase.loads = coordinator.phase.loads)
    (connected rejoinPending : Bool) (request asked : Option Request) :
    (finish ({ coordinator with phase, connected, rejoinPending }, request)).1.view =
      (finish (coordinator, asked)).1.view := by
  rw [finish_wait hloads connected rejoinPending request asked]
  rfl

theorem finish_undisturbed (coordinator : Coordinator) (request asked : Option Request) :
    (finish (coordinator.undisturbed, request)).1 = (finish (coordinator, asked)).1.undisturbed := by
  have hphase : (finish (coordinator, asked)).1.phase = coordinator.phase := phase_finish _
  have hloads : coordinator.phase.loads = coordinator.phase.loads := rfl
  rw [undisturbed, finish_wait hloads true false request asked, undisturbed, ← hphase]

theorem view_finish_undisturbed (coordinator : Coordinator) (request asked : Option Request) :
    (finish (coordinator.undisturbed, request)).1.view = (finish (coordinator, asked)).1.view := by
  rw [finish_undisturbed coordinator request asked]
  rfl

theorem finished_of_told (htold : coordinator.Told) (hattended : coordinator.Attended) :
    coordinator.Finished := by
  have hreleased : coordinator.releaseWorkers = coordinator := by
    simp only [releaseWorkers]
    split_ifs with hrelease
    · obtain ⟨hcommits, hphase, hworkers⟩ := hrelease
      refine absurd ⟨List.isEmpty_iff.mp hcommits, hphase⟩ (hattended fun hnil => ?_)
      rw [hnil] at hworkers
      cases hworkers
    · rfl
  simp only [Finished, finish, hreleased, refreshStatus]
  exact if_pos htold

/-- Where the end of an input has nothing to do, it has nothing to do after a change of the phase or
the connection. -/
theorem Finished.finish_wait (h : coordinator.Finished) (hloads : phase.loads = coordinator.phase.loads)
    (connected rejoinPending : Bool) (request : Option Request) :
    finish ({ coordinator with phase, connected, rejoinPending }, request) =
      ({ coordinator with phase, connected, rejoinPending }, request) := by
  have hfinish := Coordinator.finish_wait hloads connected rejoinPending request none
  rw [h] at hfinish
  exact Prod.ext hfinish rfl

theorem Finished.wait (h : coordinator.Finished) (hloads : phase.loads = coordinator.phase.loads)
    (connected rejoinPending : Bool) :
    { coordinator with phase, connected, rejoinPending }.Finished :=
  congrArg Prod.fst (h.finish_wait hloads connected rejoinPending none)

/-! ## To go on -/

/-- With nothing under way a coordinator does nothing, rejoins, pushes a commit or loads an
update. -/
theorem phase_next (hidle : coordinator.phase = .idle) :
    coordinator.next.1.phase = .idle ∨ coordinator.next.1.phase = .subscribing ∨
      (∃ hash, coordinator.next.1.phase = .pushing hash) ∨
      ∃ hash, coordinator.next.1.phase = .pulling .update hash := by
  unfold next
  split_ifs with hbusy hrejoin hhalt
  · exact .inl hidle
  · exact .inr (.inl rfl)
  · exact .inl hidle
  · cases hcommits : coordinator.branch.commits with
    | cons data rest =>
        rw [work_of_cons hcommits]
        exact .inr (.inr (.inl ⟨_, rfl⟩))
    | nil =>
        rw [work_of_nil hcommits]
        cases coordinator.due with
        | nil => exact .inl hidle
        | cons data rest => exact .inr (.inr (.inr ⟨_, rfl⟩))

theorem isAdvanced_next (hidle : coordinator.phase = .idle) :
    coordinator.next.1.phase.isAdvanced = false := by
  rcases phase_next hidle with hphase | hphase | ⟨hash, hphase⟩ | ⟨hash, hphase⟩ <;>
    (rw [hphase]; rfl)

theorem isMerging_next (hidle : coordinator.phase = .idle) :
    coordinator.next.1.phase.isMerging = false := by
  rcases phase_next hidle with hphase | hphase | ⟨hash, hphase⟩ | ⟨hash, hphase⟩ <;>
    (rw [hphase]; rfl)

/-- To go on shows nothing if there is nothing to load. -/
theorem Quiet.view_finish_next (h : coordinator.Quiet) (hidle : coordinator.phase = .idle)
    (asked : Option Request) :
    (finish coordinator.next).1.view = (finish (coordinator, asked)).1.view := by
  have hwait {phase : Phase} (hloads : phase.loads = none) (connected rejoinPending : Bool)
      (request : Option Request) :
      (finish ({ coordinator with phase, connected, rejoinPending }, request)).1.view =
        (finish (coordinator, asked)).1.view :=
    view_finish_wait (hloads.trans (hidle ▸ rfl)) connected rejoinPending request asked
  unfold next
  split_ifs with hbusy hrejoin hhalt
  · rfl
  · exact hwait rfl coordinator.connected false (some .subscribe)
  · rfl
  · cases hcommits : coordinator.branch.commits with
    | cons data rest =>
        rw [work_of_cons hcommits]
        exact hwait rfl coordinator.connected coordinator.rejoinPending (some (.push data))
    | nil =>
        have hupdates : coordinator.branch.updates = [] :=
          (h.resolve_left hhalt).resolve_left (not_not.mpr hcommits)
        have hdue : coordinator.due = [] := by rw [due, hupdates, List.dropWhile_nil]
        have hskip : coordinator.skip = coordinator := by rw [skip, hdue, ← hupdates]
        rw [work_of_nil hcommits, hdue, hskip]
        rfl

theorem status_finish (move : Move) : (finish move).1.branch.status = move.1.currentStatus :=
  (told_finish move).trans
    (currentStatus_congr (footing_finish move) (phase_finish move) (halt_finish move))

/-- Otherwise the first update that is not a head is loaded, unless another rejoin is due. -/
theorem branch_finish_next_ne (hidle : coordinator.phase = .idle)
    (hpending : coordinator.rejoinPending = true) (hquiet : ¬ coordinator.Quiet) :
    (finish coordinator.undisturbed.next).1.branch ≠ (finish coordinator.next).1.branch := by
  obtain ⟨hstopped, hothers⟩ := not_or.mp hquiet
  obtain ⟨hqueued, hwaiting⟩ := not_or.mp hothers
  have hhalt : coordinator.halt = none := Option.not_isSome_iff_eq_none.mp hstopped
  have hcommits : coordinator.branch.commits = [] := not_not.mp hqueued
  have hwaits : ∃ phase rejoinPending, coordinator.next.1 = { coordinator with phase, rejoinPending } ∧
      phase.loads = none := by
    unfold next
    split_ifs with hbusy
    · exact ⟨coordinator.phase, coordinator.rejoinPending, rfl, hidle ▸ rfl⟩
    · exact ⟨_, _, rfl, rfl⟩
  obtain ⟨phase, rejoinPending, hnext, hloads⟩ := hwaits
  have hupdates : (finish coordinator.next).1.branch.updates = coordinator.branch.updates := by
    rw [updates_finish, hnext]
  have hstatus : (finish coordinator.next).1.branch.status = .sync := by
    rw [status_finish, hnext, currentStatus_eq]
    simp [hhalt, hloads, hcommits]
  have hwork : coordinator.undisturbed.next = coordinator.undisturbed.work :=
    next_eq_work hidle rfl rfl hhalt
  have hdrained : coordinator.undisturbed.branch.commits = [] := hcommits
  intro hsame
  rw [← hsame, hwork, work_of_nil hdrained] at hupdates hstatus
  cases hdue : coordinator.undisturbed.due with
  | nil =>
      rw [hdue, updates_finish] at hupdates
      exact hwaiting (hupdates.symm.trans hdue)
  | cons data rest =>
      rw [hdue, status_finish, currentStatus_eq] at hstatus
      simp [pull, Phase.loads, skip, undisturbed, hhalt] at hstatus

/-! ## Both sides -/

/-- How a move and the move of the undisturbed coordinator go together: they are the same but for
the connection, or both go on from coordinators that are. -/
inductive Twins : Move → Move → Prop where
  | same (move : Move) : Twins move (move.1.undisturbed, move.2)
  | resumed {resting : Coordinator} (hidle : resting.phase = .idle)
      (halert : resting.connected = false → resting.rejoinPending = true)
      (hquiet : resting.rejoinPending = true → resting.Quiet) :
      Twins resting.next resting.undisturbed.next

variable {twin : Move}

theorem Twins.view_finish (h : Twins move twin) :
    (finish twin).1.view = (finish move).1.view := by
  cases h with
  | same => exact view_finish_undisturbed move.1 move.2 move.2
  | @resumed resting hidle halert hquiet =>
      cases hpending : resting.rejoinPending with
      | true =>
          have hshown := hquiet hpending
          have hundisturbed : resting.undisturbed.Quiet := hshown
          rw [hshown.view_finish_next hidle none, hundisturbed.view_finish_next hidle none]
          exact view_finish_undisturbed resting none none
      | false =>
          have hconnected : resting.connected = true :=
            eq_true_of_ne_false fun hdown => by cases hpending.symm.trans (halert hdown)
          have hsame : resting.undisturbed = resting := by
            rw [undisturbed, ← hconnected, ← hpending]
          rw [hsame]

theorem twins_fail (coordinator : Coordinator) (error : SyncError) :
    Twins (coordinator.fail error) (coordinator.undisturbed.fail error) :=
  .same (coordinator.fail error)

theorem twins_rejoinFailed (coordinator : Coordinator) {error : RemoteError}
    (herror : error.isTransport = false) :
    Twins (coordinator.rejoinFailed error) (coordinator.undisturbed.rejoinFailed error) := by
  simp only [rejoinFailed, herror, if_neg Bool.false_ne_true]
  exact twins_fail coordinator _

theorem twins_onSubscribed (hidle : coordinator.phase = .idle)
    (halert : coordinator.connected = false → coordinator.rejoinPending = true)
    {result : Except RemoteError Unit} (hresult : (Response.subscribed result).isFault = false) :
    Twins (coordinator.onSubscribed result) (coordinator.undisturbed.onSubscribed result) := by
  cases result with
  | error error => exact twins_rejoinFailed coordinator hresult
  | ok subscribed =>
      cases hhalt : coordinator.halt with
      | some halt =>
          have hstopped : coordinator.halt.isSome := hhalt ▸ rfl
          have hundisturbed : coordinator.undisturbed.halt.isSome := hstopped
          simp only [onSubscribed, if_pos hstopped, if_pos hundisturbed]
          exact .resumed hidle halert fun _ => .inl hstopped
      | none =>
          have hrunning : ¬ coordinator.halt.isSome := by rw [hhalt]; exact Bool.false_ne_true
          have hundisturbed : ¬ coordinator.undisturbed.halt.isSome := hrunning
          simp only [onSubscribed, if_neg hrunning, if_neg hundisturbed]
          exact .same ({ coordinator with phase := .fetchingHead }, some .fetchHead)

theorem twins_acknowledgeRejoined (hidle : coordinator.phase = .idle)
    (halert : coordinator.connected = false → coordinator.rejoinPending = true)
    {queued : CommitHash} (hquiet : coordinator.rejoinPending = true → head = queued →
      (coordinator.confirm queued).Quiet) :
    Twins (coordinator.acknowledgeRejoined queued head)
      (coordinator.undisturbed.acknowledgeRejoined queued head) := by
  let confirmed := coordinator.confirm queued
  have hundisturbed : coordinator.undisturbed.acknowledgeRejoined queued head =
      if confirmed.branch.commits.isEmpty = false ∨ head = queued then confirmed.undisturbed.next
      else confirmed.undisturbed.catchUp head none :=
    rfl
  have hdisturbed : coordinator.acknowledgeRejoined queued head =
      if confirmed.branch.commits.isEmpty = false ∨ head = queued then confirmed.next
      else confirmed.catchUp head none :=
    rfl
  rw [hundisturbed, hdisturbed]
  split_ifs with hsettled
  · have hconfirmed : confirmed.phase = .idle := hidle
    refine .resumed hconfirmed halert fun hpending => ?_
    rcases hsettled with hqueued | hhead
    · exact .inr (.inl fun hnil => by rw [hnil] at hqueued; cases hqueued)
    · exact hquiet hpending hhead
  · exact .same (confirmed.catchUp head none)

theorem twins_onHead (hidle : coordinator.phase = .idle)
    (halert : coordinator.connected = false → coordinator.rejoinPending = true)
    {result : Except RemoteError (Option CommitHash)}
    (hresult : (Response.head result).isFault = false) (hoverdue : ¬ coordinator.Overdue result) :
    Twins (coordinator.onHead result) (coordinator.undisturbed.onHead result) := by
  rcases result with error | _ | head
  · exact twins_rejoinFailed coordinator hresult
  · exact twins_fail coordinator _
  · cases hcommits : coordinator.branch.commits with
    | nil =>
        simp only [onHead, reconcile, branch_undisturbed, hcommits]
        split_ifs with hhead
        · exact .resumed hidle halert fun _ => .inr (.inr rfl)
        · exact .same _
    | cons queued rest =>
        simp only [onHead, reconcile, branch_undisturbed, hcommits]
        split_ifs with hhead
        · refine twins_acknowledgeRejoined hidle halert fun hpending _ => ?_
          by_contra hquiet
          obtain ⟨hrunning, hothers⟩ := not_or.mp hquiet
          obtain ⟨hdrained, hwaiting⟩ := not_or.mp hothers
          have hrest : rest = [] := by simpa [confirm, settle, emit, Branch.dropCommit, hcommits]
            using hdrained
          exact hoverdue ⟨hpending, Option.not_isSome_iff_eq_none.mp hrunning,
            ⟨queued, hrest ▸ hcommits, hhead ▸ rfl⟩, hwaiting⟩
        · exact .same ({ coordinator with phase := .findingAncestor head }, _)

theorem twins_onAncestor (hidle : coordinator.phase = .idle)
    (halert : coordinator.connected = false → coordinator.rejoinPending = true)
    {queued : CommitData} {rest : List CommitData}
    (hcommits : coordinator.branch.commits = queued :: rest) (hother : queued.hash ≠ head)
    {result : Except RemoteError CommitHash} (hresult : (Response.ancestor result).isFault = false) :
    Twins (coordinator.onAncestor head result) (coordinator.undisturbed.onAncestor head result) := by
  rcases result with error | ancestor
  · cases error with
    | notFound what =>
        simp only [onAncestor, branch_undisturbed, hcommits]
        exact .same (coordinator.push queued)
    | rejected reason =>
        simp only [onAncestor, branch_undisturbed, hcommits]
        exact twins_rejoinFailed coordinator rfl
    | disconnected => cases hresult
    | timeout => cases hresult
  · simp only [onAncestor, branch_undisturbed, hcommits]
    split_ifs with hrecognised
    · exact twins_acknowledgeRejoined hidle halert fun _ hhead => absurd hhead.symm hother
    · exact .same (coordinator.fork queued.hash head)

theorem Twins.parallel (h : Twins move twin) : (finish move).1.Parallel (finish twin).1 := by
  have hview := h.view_finish
  cases h with
  | same =>
      rw [finish_undisturbed move.1 move.2 move.2]
      exact .going
  | @resumed resting hidle halert hquiet =>
      have hundisturbed : resting.undisturbed.phase = .idle := hidle
      refine .ended hview ?_ ?_
      · rw [phase_finish]
        exact isAdvanced_next hidle
      · rw [phase_finish]
        exact isAdvanced_next hundisturbed

theorem Parallel.view (h : coordinator.Parallel other) : other.view = coordinator.view := by
  cases h with
  | going => rfl
  | ended hview => exact hview

/-! ## Answers in the course of a rejoin -/

theorem hear_subscribed (hphase : coordinator.phase = .subscribing)
    (result : Except RemoteError Unit) :
    coordinator.hear (.subscribed result) =
      (finish (coordinator.rested.onSubscribed result)).1 := by
  rw [← handle_subscribed hphase, hear, hphase]
  rfl

theorem hear_head (hphase : coordinator.phase = .fetchingHead)
    (result : Except RemoteError (Option CommitHash)) :
    coordinator.hear (.head result) = (finish (coordinator.rested.onHead result)).1 := by
  rw [← handle_head hphase, hear, hphase]
  rfl

theorem hear_ancestor (hphase : coordinator.phase = .findingAncestor head)
    (result : Except RemoteError CommitHash) :
    coordinator.hear (.ancestor result) = (finish (coordinator.rested.onAncestor head result)).1 := by
  rw [← handle_ancestor hphase, hear, hphase]
  rfl

theorem hear_of_other (hother : coordinator.phase.expects response = false) :
    coordinator.hear response = coordinator := by
  rw [hear, hother, if_neg Bool.false_ne_true]

theorem expects_subscribed_iff {result : Except RemoteError Unit} :
    phase.expects (.subscribed result) ↔ phase = .subscribing := by
  cases phase <;> simp [Phase.expects]

theorem expects_head_iff {result : Except RemoteError (Option CommitHash)} :
    phase.expects (.head result) ↔ phase = .fetchingHead := by
  cases phase <;> simp [Phase.expects]

theorem expects_ancestor_iff {result : Except RemoteError CommitHash} :
    phase.expects (.ancestor result) ↔ ∃ head, phase = .findingAncestor head := by
  cases phase <;> simp [Phase.expects]

/-- A coordinator on which nothing depends any more hears nothing. -/
theorem Parallel.hear_of_other (h : coordinator.Parallel other)
    (hother : coordinator.phase.expects response = false)
    (hadvanced : ∀ phase : Phase, phase.isAdvanced = false → phase.expects response = false) :
    (coordinator.hear response).Parallel (other.hear response) := by
  rw [Coordinator.hear_of_other hother]
  cases h with
  | going =>
      have hundisturbed : coordinator.undisturbed.phase.expects response = false := hother
      rw [Coordinator.hear_of_other hundisturbed]
      exact .going
  | ended hview hphase hended =>
      rw [Coordinator.hear_of_other (hadvanced _ hended)]
      exact .ended hview hphase hended

/-- Both hear the first answer alike. -/
theorem parallel_hear_subscribed
    (halert : coordinator.connected = false → coordinator.rejoinPending = true)
    {result : Except RemoteError Unit} (hresult : (Response.subscribed result).isFault = false) :
    (coordinator.hear (.subscribed result)).Parallel
      (coordinator.undisturbed.hear (.subscribed result)) := by
  by_cases hphase : coordinator.phase = .subscribing
  · have hundisturbed : coordinator.undisturbed.phase = .subscribing := hphase
    have hidle : coordinator.rested.phase = .idle := rfl
    rw [hear_subscribed hphase, hear_subscribed hundisturbed]
    exact (twins_onSubscribed hidle halert hresult).parallel
  · have hother : coordinator.phase.expects (.subscribed result) = false :=
      eq_false_of_ne_true (mt expects_subscribed_iff.mp hphase)
    have hundisturbed : coordinator.undisturbed.phase.expects (.subscribed result) = false := hother
    rw [hear_of_other hother, hear_of_other hundisturbed]
    exact .going

/-- Both hear the head alike, unless it drains the queue while updates wait and another rejoin is
due. -/
theorem Parallel.hear_head (h : coordinator.Parallel other)
    (halert : coordinator.connected = false → coordinator.rejoinPending = true)
    {result : Except RemoteError (Option CommitHash)}
    (hresult : (Response.head result).isFault = false)
    (hoverdue : coordinator.phase = .fetchingHead → ¬ coordinator.Overdue result) :
    (coordinator.hear (.head result)).Parallel (other.hear (.head result)) := by
  by_cases hphase : coordinator.phase = .fetchingHead
  · cases h with
    | going =>
        have hundisturbed : coordinator.undisturbed.phase = .fetchingHead := hphase
        have hidle : coordinator.rested.phase = .idle := rfl
        have hrested : ¬ coordinator.rested.Overdue result := fun hdue =>
          hoverdue hphase ⟨hdue.pending, hdue.running, hdue.landed, hdue.waiting⟩
        rw [Coordinator.hear_head hphase, Coordinator.hear_head hundisturbed]
        exact (twins_onHead hidle halert hresult hrested).parallel
    | ended hview hended =>
        rw [hphase] at hended
        cases hended
  · refine h.hear_of_other (eq_false_of_ne_true (mt expects_head_iff.mp hphase)) ?_
    intro phase hadvanced
    refine eq_false_of_ne_true fun hexpects => ?_
    rw [expects_head_iff.mp hexpects] at hadvanced
    cases hadvanced

/-- Both hear of the common ancestor alike. -/
theorem Parallel.hear_ancestor (h : coordinator.Parallel other)
    (halert : coordinator.connected = false → coordinator.rejoinPending = true)
    (hseeking : coordinator.course.Seeking) {result : Except RemoteError CommitHash}
    (hresult : (Response.ancestor result).isFault = false) :
    (coordinator.hear (.ancestor result)).Parallel (other.hear (.ancestor result)) := by
  by_cases hphase : ∃ head, coordinator.phase = .findingAncestor head
  · obtain ⟨head, hphase⟩ := hphase
    cases h with
    | going =>
        obtain ⟨queued, rest, hcommits, hother⟩ := hseeking head hphase
        have hundisturbed : coordinator.undisturbed.phase = .findingAncestor head := hphase
        have hidle : coordinator.rested.phase = .idle := rfl
        have hrested : coordinator.rested.branch.commits = queued :: rest := hcommits
        rw [Coordinator.hear_ancestor hphase, Coordinator.hear_ancestor hundisturbed]
        exact (twins_onAncestor hidle halert hrested hother hresult).parallel
    | ended hview hended =>
        rw [hphase] at hended
        cases hended
  · refine h.hear_of_other (eq_false_of_ne_true (mt expects_ancestor_iff.mp hphase)) ?_
    intro phase hadvanced
    refine eq_false_of_ne_true fun hexpects => ?_
    obtain ⟨head, hfinding⟩ := expects_ancestor_iff.mp hexpects
    rw [hfinding] at hadvanced
    cases hadvanced

/-- A rejoin of a coordinator that goes on asks for the head. -/
theorem Finished.hear_subscribed_ok (h : coordinator.Finished) (hhalt : coordinator.halt = none)
    (hphase : coordinator.phase = .subscribing ∨ coordinator.phase = .fetchingHead) :
    coordinator.hear (.subscribed (.ok ())) = { coordinator with phase := .fetchingHead } := by
  rcases hphase with hphase | hphase
  · have hloads : Phase.fetchingHead.loads = coordinator.phase.loads := by rw [hphase]; rfl
    have hrunning : ¬ coordinator.rested.halt.isSome := by
      rw [show coordinator.rested.halt = none from hhalt]
      exact Bool.false_ne_true
    rw [hear_subscribed hphase, onSubscribed, if_neg hrunning]
    exact congrArg Prod.fst
      (h.finish_wait hloads coordinator.connected coordinator.rejoinPending (some .fetchHead))
  · have hother : coordinator.phase.expects (.subscribed (.ok ())) = false := by rw [hphase]; rfl
    rw [hear_of_other hother, ← hphase]

/-- Only a rejoin of a coordinator that goes on asks for the head. -/
theorem of_hear_subscribed_fetching (hphase : coordinator.phase = .subscribing)
    {result : Except RemoteError Unit}
    (hfetching : (coordinator.hear (.subscribed result)).phase = .fetchingHead) :
    result = .ok () ∧ coordinator.halt = none := by
  have hhandled := handled_onSubscribed coordinator.rested result
  rw [hear_subscribed hphase, phase_finish] at hfetching
  generalize coordinator.rested.onSubscribed result = move at hhandled hfetching
  have hended (prepared : Coordinator) (hidle : prepared.phase = .idle) :
      prepared.next.1.phase ≠ .fetchingHead := fun hnext => by
    have hadvanced := isAdvanced_next hidle
    rw [hnext] at hadvanced
    cases hadvanced
  cases hhandled with
  | interrupted hfault => exact absurd hfetching (hended _ rfl)
  | failed hfails => cases hfetching
  | listening hhalt => exact absurd hfetching (hended _ rfl)
  | subscribed hhalt => exact ⟨rfl, hhalt⟩

/-- The rejoin goes on with the common ancestor, unless the first queued commit is the head. -/
theorem Finished.hear_head_seeking (h : coordinator.Finished)
    (hphase : coordinator.phase = .fetchingHead) {queued : CommitData} {rest : List CommitData}
    (hcommits : coordinator.branch.commits = queued :: rest) (hother : queued.hash ≠ head) :
    coordinator.hear (.head (.ok (some head))) =
      { coordinator with phase := .findingAncestor head } := by
  have hloads : (Phase.findingAncestor head).loads = coordinator.phase.loads := by rw [hphase]; rfl
  have hrested : coordinator.rested.branch.commits = queued :: rest := hcommits
  rw [hear_head hphase]
  simp only [onHead, reconcile, hrested, if_neg hother]
  exact congrArg Prod.fst
    (h.finish_wait hloads coordinator.connected coordinator.rejoinPending _)

/-! ## Complete attempts -/

variable {attempt : Attempt}

theorem heard_eq (coordinator : Coordinator) (attempt : Attempt) :
    coordinator.heard attempt =
      ((coordinator.hear (.subscribed attempt.subscribed)).hear (.head attempt.head)).hear
        (.ancestor attempt.ancestor) :=
  rfl

theorem loads_of_isRejoining (hrejoining : phase.isRejoining) : phase.loads = none := by
  cases phase with
  | pulling reason hash => cases hrejoining
  | _ => rfl

theorem onHead_landed {queued : CommitData} {rest : List CommitData}
    (hcommits : coordinator.branch.commits = queued :: rest) :
    coordinator.onHead (.ok (some queued.hash)) = (coordinator.confirm queued.hash).next := by
  simp only [onHead, reconcile, hcommits, if_true, acknowledgeRejoined, or_true]

/-- A coordinator that has stopped does not go on with a rejoin. -/
theorem halt_of_isAdvanced {halt : Option Halt} (hsuits : phase.suits halt)
    (hadvanced : phase.isAdvanced) : halt = none := by
  cases phase with
  | fetchingHead => exact Option.isNone_iff_eq_none.mp hsuits
  | findingAncestor head => exact Option.isNone_iff_eq_none.mp hsuits
  | _ => cases hadvanced

/-- An attempt that begins anew comes to the step that was interrupted, with the same answers. -/
theorem Finished.heard_restarted (h : coordinator.Finished)
    (hrejoining : coordinator.phase.isRejoining)
    (hrunning : coordinator.phase.isAdvanced → coordinator.halt = none)
    (hseeking : coordinator.course.Seeking) (hgave : attempt.Gave coordinator.phase) :
    coordinator.restarted.heard attempt = coordinator.undisturbed.heard attempt := by
  have hloads (phase : Phase) (hphase : phase.loads = none) :
      phase.loads = coordinator.phase.loads := by
    rw [hphase, loads_of_isRejoining hrejoining]
  have hwaits : coordinator.undisturbed.Finished := h.wait rfl true false
  have hrestarts (hsubscribed : attempt.subscribed = .ok ()) (hhalt : coordinator.halt = none) :
      coordinator.restarted.hear (.subscribed attempt.subscribed) =
        { coordinator.undisturbed with phase := .fetchingHead } := by
    rw [hsubscribed]
    exact (h.wait (hloads .subscribing rfl) true false).hear_subscribed_ok hhalt (.inl rfl)
  cases hphase : coordinator.phase with
  | subscribing =>
      have hsame : coordinator.restarted = coordinator.undisturbed := by
        rw [restarted, undisturbed, ← hphase]
      rw [hsame]
  | fetchingHead =>
      rw [hphase] at hgave hrunning
      have hfirst := hrestarts hgave (hrunning rfl)
      have hundisturbed := hwaits.hear_subscribed_ok (hrunning rfl) (.inr hphase)
      rw [heard_eq, heard_eq, hfirst, hgave, hundisturbed]
  | findingAncestor head =>
      rw [hphase] at hgave hrunning
      obtain ⟨hsubscribed, hhead⟩ := hgave
      obtain ⟨queued, rest, hcommits, hother⟩ := hseeking head hphase
      have hfetching : { coordinator.undisturbed with phase := .fetchingHead }.hear
          (.head attempt.head) = coordinator.undisturbed := by
        rw [hhead, (hwaits.wait (hloads .fetchingHead rfl) _ _).hear_head_seeking rfl hcommits hother,
          undisturbed, ← hphase]
      have hunheard : coordinator.undisturbed.phase.expects (.subscribed attempt.subscribed) = false :=
        by rw [show coordinator.undisturbed.phase = _ from hphase]; rfl
      have hunasked : coordinator.undisturbed.phase.expects (.head attempt.head) = false := by
        rw [show coordinator.undisturbed.phase = _ from hphase]; rfl
      rw [heard_eq, heard_eq, hrestarts hsubscribed (hrunning rfl), hfetching,
        hear_of_other hunheard, hear_of_other hunasked]
  | _ =>
      rw [hphase] at hrejoining
      cases hrejoining

/-- The first answer makes no attempt overdue. -/
theorem Finished.not_overdue_hear (h : coordinator.Finished)
    (hrejoining : coordinator.phase.isRejoining)
    (hrunning : coordinator.phase.isAdvanced → coordinator.halt = none)
    (hgave : attempt.Gave coordinator.phase)
    (hoverdue : ¬ (attempt.subscribed = .ok () ∧ coordinator.Overdue attempt.head))
    (hfetching : (coordinator.hear (.subscribed attempt.subscribed)).phase = .fetchingHead) :
    ¬ (coordinator.hear (.subscribed attempt.subscribed)).Overdue attempt.head := by
  have hbegun (hsubscribed : attempt.subscribed = .ok ()) (hhalt : coordinator.halt = none)
      (hphase : coordinator.phase = .subscribing ∨ coordinator.phase = .fetchingHead) :
      ¬ (coordinator.hear (.subscribed attempt.subscribed)).Overdue attempt.head := by
    rw [hsubscribed, h.hear_subscribed_ok hhalt hphase]
    exact fun hdue => hoverdue
      ⟨hsubscribed, hdue.pending, hdue.running, hdue.landed, hdue.waiting⟩
  cases hphase : coordinator.phase with
  | subscribing =>
      obtain ⟨hsubscribed, hhalt⟩ := of_hear_subscribed_fetching hphase hfetching
      exact hbegun hsubscribed hhalt (.inl hphase)
  | fetchingHead =>
      rw [hphase] at hgave hrunning
      exact hbegun hgave (hrunning rfl) (.inr hphase)
  | findingAncestor head =>
      have hother : coordinator.phase.expects (.subscribed attempt.subscribed) = false := by
        rw [hphase]
        rfl
      rw [hear_of_other hother] at hfetching
      cases hphase.symm.trans hfetching
  | _ =>
      rw [hphase] at hrejoining
      cases hrejoining

/-- Where the head drains the queue while updates wait and another rejoin is due, the coordinator
goes on from the same point, but with the rejoin. -/
theorem Finished.heard_overdue (h : coordinator.Finished)
    (hphase : coordinator.phase = .subscribing ∨ coordinator.phase = .fetchingHead)
    (hsubscribed : attempt.subscribed = .ok ()) (hdue : coordinator.Overdue attempt.head) :
    ∃ resting : Coordinator, resting.phase = .idle ∧ resting.rejoinPending = true ∧
      resting.branch.commits = [] ∧ ¬ resting.Quiet ∧
      coordinator.heard attempt = (finish resting.next).1 ∧
      coordinator.undisturbed.heard attempt = (finish resting.undisturbed.next).1 := by
  obtain ⟨only, hcommits, hhead⟩ := hdue.landed
  let resting := coordinator.rested.confirm only.hash
  have hhears (prepared : Coordinator) (hfinished : prepared.Finished)
      (hhalt : prepared.halt = none)
      (hbegun : prepared.phase = .subscribing ∨ prepared.phase = .fetchingHead)
      (hqueued : prepared.branch.commits = [only]) :
      prepared.heard attempt = (finish (prepared.rested.confirm only.hash).next).1 := by
    have hended : (finish (prepared.rested.confirm only.hash).next).1.phase.isAdvanced = false := by
      rw [phase_finish]
      exact isAdvanced_next rfl
    have hunasked : (finish (prepared.rested.confirm only.hash).next).1.phase.expects
        (.ancestor attempt.ancestor) = false := by
      refine eq_false_of_ne_true fun hexpects => ?_
      obtain ⟨head, hfinding⟩ := expects_ancestor_iff.mp hexpects
      rw [hfinding] at hended
      cases hended
    have hfetching : { prepared with phase := .fetchingHead }.hear (.head attempt.head) =
        (finish (prepared.rested.confirm only.hash).next).1 := by
      rw [hhead, hear_head rfl]
      exact congrArg (fun move => (finish move).1) (onHead_landed hqueued)
    rw [heard_eq, hsubscribed, hfinished.hear_subscribed_ok hhalt hbegun, hfetching,
      hear_of_other hunasked]
  refine ⟨resting, rfl, hdue.pending, congrArg List.tail hcommits, ?_,
    hhears coordinator h hdue.running hphase hcommits,
    hhears coordinator.undisturbed (h.wait rfl true false) hdue.running hphase hcommits⟩
  rintro (hstopped | hqueued | hupdates)
  · rw [show resting.halt = none from hdue.running] at hstopped
    cases hstopped
  · exact hqueued (congrArg List.tail hcommits)
  · exact hdue.waiting hupdates

end Coordinator

end Coauthor
