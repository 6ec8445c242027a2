import Coauthor.Proofs.Branch.Footing

/-!
# Those who wait for the queue to drain

Requests that wait are released at the end of an input, all of them at once, when nothing is queued
and no merge is being loaded; nothing else that a coordinator does touches them.  So the requests
that were released and those that still wait make up, one after the other, all that were ever
enrolled.  And since no input that changes anything ends without a look at them, nobody waits
without something to wait for.
-/

namespace Coauthor

open Coordinator

/-- The requests that an event lets run. -/
def SyncEvent.released : SyncEvent → List Nat
  | .workersReleased requests _ => requests
  | _ => []

namespace Coordinator

/-- The request that the coordinator is told to let wait. -/
def Occasion.worker? : Occasion → Option Nat
  | .worker request => some request
  | _ => none

/-- The requests that were released, in order. -/
def released (coordinator : Coordinator) : List Nat :=
  coordinator.events.flatMap SyncEvent.released

/-- The requests that were released, and behind them those that wait. -/
def roster (coordinator : Coordinator) : List Nat :=
  coordinator.released ++ coordinator.branch.workers

/-- Whoever waits has something to wait for. -/
def Attended (coordinator : Coordinator) : Prop :=
  coordinator.branch.workers ≠ [] → ¬ coordinator.Calm

variable {coordinator later : Coordinator} {move : Move} {phase : Phase} {response : Response}
  {occasion : Occasion}

/-! ## The end of an input -/

theorem roster_releaseWorkers (coordinator : Coordinator) :
    coordinator.releaseWorkers.roster = coordinator.roster := by
  simp only [releaseWorkers]
  split_ifs with hrelease
  · simp [roster, released, emit, SyncEvent.released]
  · rfl

theorem roster_refreshStatus (coordinator : Coordinator) :
    coordinator.refreshStatus.roster = coordinator.roster := by
  simp only [refreshStatus]
  split_ifs with hsame
  · rfl
  · simp [roster, released, emit, SyncEvent.released]

theorem roster_finish (move : Move) : (finish move).1.roster = move.1.roster := by
  rw [finish, roster_refreshStatus, roster_releaseWorkers]

theorem attended_releaseWorkers (coordinator : Coordinator) :
    coordinator.releaseWorkers.Attended := by
  simp only [releaseWorkers]
  split_ifs with hrelease
  · exact fun hwaiting => absurd rfl hwaiting
  · rintro hwaiting ⟨hcommits, hphase⟩
    refine hrelease ⟨List.isEmpty_iff.mpr hcommits, hphase, ?_⟩
    exact Bool.eq_false_iff.mpr fun hempty => hwaiting (List.isEmpty_iff.mp hempty)

theorem workers_refreshStatus (coordinator : Coordinator) :
    coordinator.refreshStatus.branch.workers = coordinator.branch.workers := by
  simp only [refreshStatus]
  split_ifs with hsame
  · rfl
  · rfl

theorem Attended.of_course (h : coordinator.Attended)
    (hworkers : later.branch.workers = coordinator.branch.workers)
    (hcourse : later.course = coordinator.course) : later.Attended := by
  intro hwaiting hcalm
  exact h (hworkers ▸ hwaiting) (hcalm.of_course hcourse.symm)

/-- Every input that changes anything ends with a look at those who wait. -/
theorem attended_finish (move : Move) : (finish move).1.Attended :=
  (attended_releaseWorkers move.1).of_course (workers_refreshStatus _) (course_refreshStatus _)

/-! ## What leaves those who wait alone -/

theorem workers_next (coordinator : Coordinator) :
    coordinator.next.1.branch.workers = coordinator.branch.workers := by
  obtain ⟨phase, updates, rejoinPending, hnext⟩ := exists_next_eq coordinator
  rw [hnext]

theorem workers_refreshHead (coordinator : Coordinator) :
    coordinator.refreshHead.1.branch.workers = coordinator.branch.workers :=
  congrArg Branch.workers (branch_refreshHead coordinator)

theorem workers_acknowledgeRejoined (coordinator : Coordinator) (queued head : CommitHash) :
    (coordinator.acknowledgeRejoined queued head).1.branch.workers =
      coordinator.branch.workers := by
  simp only [acknowledgeRejoined]
  split_ifs with hsettled
  · exact workers_next _
  · rfl

theorem workers_unload (coordinator : Coordinator) (reason : LoadReason) :
    (coordinator.unload reason).branch.workers = coordinator.branch.workers := by
  unfold unload
  split_ifs with hupdate
  · rfl
  · rfl

theorem workers_adopt (coordinator : Coordinator) (hash : CommitHash) :
    (coordinator.adopt hash).branch.workers = coordinator.branch.workers := by
  simp only [adopt]
  split_ifs with hempty
  · rfl
  · rfl

theorem workers_storeNext (coordinator : Coordinator) (resolution : ForkResolution)
    (stored : Nat) :
    (coordinator.storeNext resolution stored).1.branch.workers = coordinator.branch.workers := by
  unfold storeNext
  cases coordinator.branch.commits[stored]? with
  | some data => rfl
  | none =>
      cases resolution with
      | abandon => exact workers_refreshHead _
      | fork name => rfl
      | forcePush => rfl

theorem workers_resolution (coordinator : Coordinator) (resolution : ForkResolution) :
    (coordinator.resolution resolution).1.branch.workers = coordinator.branch.workers := by
  cases resolution with
  | abandon => exact workers_refreshHead _
  | fork name => exact workers_storeNext coordinator _ 0
  | forcePush => exact workers_storeNext coordinator _ 0

/-- No answer makes anyone wait, or lets anyone go before its end. -/
theorem Handled.workers (h : Handled coordinator phase response move) :
    move.1.branch.workers = coordinator.branch.workers := by
  cases h with
  | interrupted hfault => exact workers_next _
  | failed hfails => rfl
  | synced hhash hstatus => exact workers_next _
  | merged hhash hstatus hmerge => rfl
  | forked hstatus => rfl
  | canceled hstatus => exact workers_refreshHead _
  | loaded reason hash =>
      rw [workers_next, workers_adopt, workers_unload]
  | listening hhalt => exact workers_next _
  | subscribed hhalt => rfl
  | current hcommits => exact workers_next _
  | behind hcommits hhead => rfl
  | landed hcommits => exact workers_acknowledgeRejoined coordinator _ _
  | searching hcommits hhead => rfl
  | emptied hcommits => exact workers_next _
  | recognised hcommits => exact workers_acknowledgeRejoined coordinator _ _
  | diverged hcommits hother => rfl
  | unknown hcommits => rfl
  | stored resolution count result => exact workers_storeNext coordinator _ _
  | refused resolution count error => exact workers_next _
  | branchCreated name count => exact workers_refreshHead _
  | forced count hstatus => exact workers_next _
  | unforced count hstatus => exact workers_next _

theorem released_of_any {events : List SyncEvent} (h : events.any SyncEvent.isRelease = false) :
    events.flatMap SyncEvent.released = [] := by
  rw [List.flatMap_eq_nil_iff]
  intro event hmem
  cases event with
  | workersReleased requests head => exact absurd rfl (List.any_eq_false.mp h _ hmem)
  | _ => rfl

theorem roster_of_withoutRelease (h : coordinator.WithoutRelease later)
    (hworkers : later.branch.workers = coordinator.branch.workers) :
    later.roster = coordinator.roster := by
  obtain ⟨added, hadded, hnone⟩ := h
  rw [roster, roster, released, released, hadded, List.flatMap_append, released_of_any hnone,
    List.append_nil, hworkers]

theorem Handled.roster (h : Handled coordinator phase response move) :
    (finish move).1.roster = coordinator.roster := by
  rw [roster_finish]
  exact roster_of_withoutRelease h.withoutRelease h.workers

/-! ## Occasions -/

/-- A request that is enrolled waits behind all others, and nothing else makes anyone wait. -/
theorem roster_react (hreact : coordinator.react occasion = some move) :
    move.1.roster = coordinator.roster ++ occasion.worker?.toList := by
  have hkept {prepared : Coordinator} (hroster : prepared.roster = coordinator.roster) :
      (finish prepared.next).1.roster = coordinator.roster ++ [] := by
    rw [roster_finish, List.append_nil, ← hroster]
    exact roster_of_withoutRelease (.of_same (events_next prepared)) (workers_next prepared)
  cases reacted_of_react hreact with
  | committed hparent => exact hkept rfl
  | known hknown => exact (List.append_nil _).symm
  | announced hunknown => exact hkept rfl
  | connected => exact hkept rfl
  | reconnected => exact hkept rfl
  | disconnected hstate => exact (roster_finish _).trans (List.append_nil _).symm
  | resolved hforked hphase =>
      refine ((roster_finish _).trans ?_).trans (List.append_nil _).symm
      exact roster_of_withoutRelease (withoutRelease_resolution coordinator _)
        (workers_resolution coordinator _)
  | unfailed hhalt => exact (List.append_nil _).symm
  | refreshed hhalt hphase hcommits =>
      let going : Coordinator := { coordinator with halt := none }
      refine ((roster_finish _).trans ?_).trans (List.append_nil _).symm
      exact (roster_of_withoutRelease (.of_same (events_refreshHead going))
        (workers_refreshHead going)).trans rfl
  | resumed hhalt => exact hkept rfl
  | queued number => exact (roster_releaseWorkers _).trans (List.append_assoc ..).symm

theorem Attended.react (h : coordinator.Attended) (hreact : coordinator.react occasion = some move) :
    move.1.Attended := by
  cases reacted_of_react hreact with
  | known hknown => exact h
  | unfailed hhalt => exact h
  | queued number => exact attended_releaseWorkers _
  | _ => exact attended_finish _

end Coordinator

/-! ## Dialogues -/

namespace Dialogue

/-- The request that an input makes wait. -/
def Input.worker? : Input → Option Nat
  | .told occasion => occasion.worker?
  | .answer _ => none

/-- The requests that are made to wait in a run, in order. -/
def enrolled (inputs : List Input) : List Nat := inputs.filterMap Input.worker?

variable {dialogue : Dialogue} {input : Input} {inputs : List Input}

/-- No request is refused. -/
theorem worker?_of_refused (hmove : dialogue.move? input = none) : input.worker? = none := by
  cases input with
  | answer response => rfl
  | told occasion =>
      cases occasion with
      | worker request => cases hmove
      | _ => rfl

theorem Attentive.roster_step (h : dialogue.Attentive) (input : Input) :
    (dialogue.step input).coordinator.roster =
      dialogue.coordinator.roster ++ input.worker?.toList := by
  cases hmove : dialogue.move? input with
  | none =>
      rw [step_of_none hmove, worker?_of_refused hmove]
      exact (List.append_nil _).symm
  | some move =>
      rw [step_of_some hmove]
      cases input with
      | told occasion => exact roster_react hmove
      | answer response =>
          obtain ⟨request, handled, -, -, -, hhandled, rfl⟩ := h.handled hmove
          exact hhandled.roster.trans (List.append_nil _).symm

theorem Attentive.roster_run (h : dialogue.Attentive) (inputs : List Input) :
    (dialogue.run inputs).coordinator.roster =
      dialogue.coordinator.roster ++ enrolled inputs := by
  induction inputs generalizing dialogue with
  | nil => exact (List.append_nil _).symm
  | cons input rest ih =>
      have henrolled : enrolled (input :: rest) = input.worker?.toList ++ enrolled rest := by
        rw [enrolled, List.filterMap_cons]
        cases input.worker? <;> rfl
      rw [run_cons, ih (h.step input), h.roster_step, henrolled, List.append_assoc]

theorem Attentive.attended_step (h : dialogue.Attentive) (hattended : dialogue.coordinator.Attended)
    (input : Input) : (dialogue.step input).coordinator.Attended := by
  cases hmove : dialogue.move? input with
  | none => exact (step_of_none hmove).symm ▸ hattended
  | some move =>
      rw [step_of_some hmove]
      cases input with
      | told occasion => exact hattended.react hmove
      | answer response =>
          obtain ⟨request, handled, -, -, -, -, rfl⟩ := h.handled hmove
          exact attended_finish handled

theorem attended_start (project : ProjectId) (branch : BranchName) (head : CommitHash) :
    (start project branch head).coordinator.Attended :=
  fun hwaiting => absurd rfl hwaiting

theorem attended_run (project : ProjectId) (branch : BranchName) (head : CommitHash)
    (inputs : List Input) : ((start project branch head).run inputs).coordinator.Attended :=
  Attentive.run_keeps (·.coordinator.Attended)
    (fun _ input hattentive hbefore => hattentive.attended_step hbefore input)
    (attentive_start project branch head) (attended_start project branch head) inputs

/-- The requests that were released and those that wait are all that were enrolled, each once and in
order.  Requests are released only while nothing is queued and no merge is being loaded, on the local
head; and whoever waits after an input waits for one of the two. -/
theorem run_releases_in_order (project : ProjectId) (branch : BranchName) (head : CommitHash)
    (inputs : List Input) (hdistinct : (enrolled inputs).Nodup) :
    let reached := (start project branch head).run inputs
    let coordinator := reached.coordinator
    (coordinator.released ++ coordinator.branch.workers = enrolled inputs ∧
        (coordinator.released ++ coordinator.branch.workers).Nodup) ∧
      (∀ input requests hash,
        let after := (reached.step input).coordinator
        .workersReleased requests hash ∈ coordinator.news after →
          after.branch.commits = [] ∧ (∀ merge, after.phase ≠ .pulling .merge merge) ∧
            hash = after.branch.localHead) ∧
      (coordinator.branch.workers ≠ [] →
        coordinator.branch.commits ≠ [] ∨ ∃ merge, coordinator.phase = .pulling .merge merge) := by
  intro reached coordinator
  have hstart : (start project branch head).Attentive := attentive_start project branch head
  have hroster : coordinator.released ++ coordinator.branch.workers = enrolled inputs :=
    (hstart.roster_run inputs).trans (List.nil_append _)
  refine ⟨⟨hroster, hroster ▸ hdistinct⟩, ?_, fun hwaiting => ?_⟩
  · intro input requests hash after hmem
    obtain ⟨hhead, hcalm⟩ := (hstart.run inputs).released_calm hmem
    refine ⟨hcalm.commits, fun merge hmerging => ?_, hhead⟩
    have hphase : after.phase.isMerging = false := hcalm.phase
    rw [hmerging] at hphase
    cases hphase
  · by_contra hnothing
    obtain ⟨hcommits, hphase⟩ := not_or.mp hnothing
    refine attended_run project branch head inputs hwaiting ⟨not_not.mp hcommits, ?_⟩
    by_contra hmerging
    unfold Phase.isMerging at hmerging
    split at hmerging
    · exact hphase ⟨_, ‹_›⟩
    · exact hmerging rfl

/-- Two requests wait for a commit, a third for the merge that the server made of it. -/
def mergeLoading : List Input :=
  [.told (.commit (commitOn "#1" "#0")), .told (.worker 7), .told (.worker 3),
    .answer (.pushed (.ok (.merged "#1" "#m"))), .told (.worker 5)]

/-- The merge is loaded. -/
def mergeLoaded : List Input := mergeLoading ++ [.answer (.delivered (.ok ()))]

/-- While the merge is being loaded all three wait, though nothing is queued any more; once it is
loaded they are released together, in their order. -/
theorem run_releases_in_order_merged :
    let loading := ((start "p" "b" "#0").run mergeLoading).coordinator
    let loaded := ((start "p" "b" "#0").run mergeLoaded).coordinator
    loading.released = [] ∧ loading.branch.workers = [7, 3, 5] ∧ loading.branch.commits = [] ∧
      (∃ merge, loading.phase = .pulling .merge merge) ∧
      loaded.released = [7, 3, 5] ∧ loaded.branch.workers = [] := by
  have hloading : enrolled mergeLoading = [7, 3, 5] := by
    cbv
  have hloaded : enrolled mergeLoaded = [7, 3, 5] := by
    cbv
  have hreleased : ((start "p" "b" "#0").run mergeLoading).coordinator.released = [] := by
    cbv
  have hcommits : ((start "p" "b" "#0").run mergeLoading).coordinator.branch.commits = [] := by
    cbv
  have hdrained : ((start "p" "b" "#0").run mergeLoaded).coordinator.branch.workers = [] := by
    cbv
  obtain ⟨⟨hroster, -⟩, -, htimely⟩ :=
    run_releases_in_order "p" "b" "#0" mergeLoading (by rw [hloading]; decide)
  obtain ⟨⟨hall, -⟩, -, -⟩ :=
    run_releases_in_order "p" "b" "#0" mergeLoaded (by rw [hloaded]; decide)
  rw [hreleased, hloading, List.nil_append] at hroster
  rw [hdrained, hloaded, List.append_nil] at hall
  have hmerging := (htimely (by rw [hroster]; decide)).resolve_left (not_not.mpr hcommits)
  exact ⟨hreleased, hroster, hcommits, hmerging, hall, hdrained⟩

end Dialogue

end Coauthor
