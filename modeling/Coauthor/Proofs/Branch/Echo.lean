import Coauthor.Proofs.Branch.Balance
import Coauthor.Proofs.Branch.Diligence

/-!
# Echoes of own commits

The server announces every commit that becomes the head, also to the client that made it.  The
client does not load such an echo if it knows the commit: while the commit is queued, or one of
the two heads.  But once the commit has left the queue and another head has been taken over, it
is no longer known.  An echo that arrives so late is queued like any announcement, and loading it
moves both heads back.
-/

namespace Coauthor

open Coordinator

namespace Coordinator

/-- The commit whose announcement the coordinator is told of. -/
def Occasion.heard? : Occasion → Option CommitData
  | .update data => some data
  | _ => none

variable {coordinator : Coordinator} {move : Move} {phase : Phase} {response : Response}
  {request : Request} {occasion : Occasion} {data : CommitData} {hash : CommitHash}
  {status : CommitStatus} {accepted : List CommitHash}

/-! ## Updates that wait -/

theorem updates_next_subset (coordinator : Coordinator) :
    coordinator.next.1.branch.updates ⊆ coordinator.branch.updates := by
  unfold next
  split_ifs with hbusy hrejoin hhalt
  · exact List.Subset.refl _
  · exact List.Subset.refl _
  · exact List.Subset.refl _
  · cases hcommits : coordinator.branch.commits with
    | cons data rest =>
        rw [work_of_cons hcommits]
        exact List.Subset.refl _
    | nil =>
        rw [work_of_nil hcommits]
        cases coordinator.due with
        | nil => exact List.dropWhile_subset _
        | cons data rest => exact List.dropWhile_subset _

theorem updates_refreshHead (coordinator : Coordinator) :
    coordinator.refreshHead.1.branch.updates = coordinator.branch.updates := by
  rw [branch_refreshHead]

theorem updates_acknowledgeRejoined_subset (coordinator : Coordinator) (queued head : CommitHash) :
    (coordinator.acknowledgeRejoined queued head).1.branch.updates ⊆
      coordinator.branch.updates := by
  simp only [acknowledgeRejoined]
  split_ifs with hsettled
  · exact updates_next_subset _
  · exact List.Subset.refl _

theorem updates_storeNext (coordinator : Coordinator) (resolution : ForkResolution)
    (stored : Nat) :
    (coordinator.storeNext resolution stored).1.branch.updates = coordinator.branch.updates := by
  unfold storeNext
  cases coordinator.branch.commits[stored]? with
  | some data => rfl
  | none =>
      cases resolution with
      | fork name => rfl
      | forcePush => rfl
      | abandon => exact updates_refreshHead _

theorem updates_adopt (coordinator : Coordinator) (hash : CommitHash) :
    (coordinator.adopt hash).branch.updates = coordinator.branch.updates := by
  simp only [adopt]
  split_ifs with hempty
  · rfl
  · rfl

theorem updates_unload_subset (coordinator : Coordinator) (reason : LoadReason) :
    (coordinator.unload reason).branch.updates ⊆ coordinator.branch.updates := by
  unfold unload
  split_ifs with hupdate
  · exact List.tail_subset _
  · exact List.Subset.refl _

/-- No answer queues an update. -/
theorem Handled.updates_subset (h : Handled coordinator phase response move) :
    move.1.branch.updates ⊆ coordinator.branch.updates := by
  cases h with
  | interrupted hfault => exact updates_next_subset _
  | failed hfails => exact List.Subset.refl _
  | synced hhash hstatus => exact updates_next_subset _
  | merged hhash hstatus hmerge => exact List.Subset.refl _
  | forked hstatus => exact List.Subset.refl _
  | canceled hstatus =>
      rw [cancelQueue, updates_refreshHead]
      exact List.Subset.refl _
  | loaded reason hash =>
      refine List.Subset.trans (updates_next_subset _) ?_
      rw [updates_adopt]
      exact updates_unload_subset coordinator reason
  | listening hhalt => exact updates_next_subset _
  | subscribed hhalt => exact List.Subset.refl _
  | current hcommits => exact List.Subset.trans (updates_next_subset _) (List.nil_subset _)
  | behind hcommits hhead => exact List.nil_subset _
  | landed hcommits => exact updates_acknowledgeRejoined_subset coordinator _ _
  | searching hcommits hhead => exact List.Subset.refl _
  | emptied hcommits => exact updates_next_subset _
  | recognised hcommits => exact updates_acknowledgeRejoined_subset coordinator _ _
  | diverged hcommits hother => exact List.Subset.refl _
  | unknown hcommits => exact List.Subset.refl _
  | stored resolution count result =>
      rw [updates_storeNext]
      exact List.Subset.refl _
  | refused resolution count error => exact updates_next_subset _
  | branchCreated name count =>
      rw [onBranchCreated, updates_refreshHead]
      exact List.Subset.refl _
  | forced count hstatus => exact updates_next_subset _
  | unforced count hstatus => exact updates_next_subset _

/-- Only an announcement queues an update. -/
theorem updates_react_subset (hreact : coordinator.react occasion = some move) :
    move.1.branch.updates ⊆ coordinator.branch.updates ++ occasion.heard?.toList := by
  have hkept : coordinator.branch.updates ⊆ coordinator.branch.updates ++ occasion.heard?.toList :=
    List.subset_append_left _ _
  have hnext {prepared : Coordinator}
      (hprepared : prepared.branch.updates ⊆
        coordinator.branch.updates ++ occasion.heard?.toList) :
      (finish prepared.next).1.branch.updates ⊆
        coordinator.branch.updates ++ occasion.heard?.toList := by
    rw [updates_finish]
    exact List.Subset.trans (updates_next_subset prepared) hprepared
  cases reacted_of_react hreact with
  | committed hparent => exact hnext hkept
  | known hknown => exact hkept
  | announced hunknown => exact hnext (List.Subset.refl _)
  | connected => exact hnext hkept
  | reconnected => exact hnext hkept
  | disconnected hstate =>
      rw [updates_finish]
      exact hkept
  | @resolved resolution hforked hidle =>
      rw [updates_finish]
      cases resolution with
      | abandon =>
          rw [Coordinator.resolution, updates_refreshHead]
          exact hkept
      | fork name => exact (updates_storeNext coordinator _ 0).symm ▸ hkept
      | forcePush => exact (updates_storeNext coordinator _ 0).symm ▸ hkept
  | unfailed hhalt => exact hkept
  | refreshed hhalt hidle hcommits =>
      rw [updates_finish, updates_refreshHead]
      exact hkept
  | resumed hhalt => exact hnext hkept
  | queued number =>
      have hsame : (coordinator.queueWorker number).branch.updates = coordinator.branch.updates :=
        congrArg Course.updates (course_queueWorker coordinator number)
      rw [hsame]
      exact hkept

/-! ## What is heard -/

/-- A commit that does not wait as an update is known exactly if it is queued or a head. -/
theorem knows_iff (hwaiting : hash ∉ coordinator.branch.updates.map (·.hash)) :
    coordinator.branch.knows hash ↔
      hash ∈ coordinator.queued ∨ coordinator.branch.isHead hash := by
  have hcommit : coordinator.branch.hasCommit hash ↔ hash ∈ coordinator.queued := by
    simp [Branch.hasCommit, queued]
  have hupdate : coordinator.branch.hasUpdate hash = false := by
    simpa [Branch.hasUpdate] using hwaiting
  rw [Branch.knows, hupdate, Bool.or_false, Bool.or_eq_true, hcommit, or_comm]

/-- An update that is no head waits until it is loaded. -/
theorem mem_updates_next (hmem : data ∈ coordinator.branch.updates)
    (hhead : coordinator.branch.isHead data.hash = false) :
    data ∈ coordinator.next.1.branch.updates := by
  have hdue : data ∈ coordinator.due := by
    have hall : data ∈ coordinator.branch.updates.takeWhile (coordinator.branch.isHead ·.hash) ++
        coordinator.due := by
      rw [due, List.takeWhile_append_dropWhile]
      exact hmem
    refine (List.mem_append.mp hall).resolve_left fun hskipped => ?_
    exact absurd (List.mem_takeWhile_imp hskipped) (by simp [hhead])
  unfold next
  split_ifs with hbusy hrejoin hhalt
  · exact hmem
  · exact hmem
  · exact hmem
  · cases hcommits : coordinator.branch.commits with
    | cons data rest =>
        rw [work_of_cons hcommits]
        exact hmem
    | nil =>
        rw [work_of_nil hcommits]
        cases hleft : coordinator.due with
        | nil => exact hdue
        | cons first rest => exact hdue

theorem isHead_of_unknown (hunknown : coordinator.branch.knows hash = false) :
    coordinator.branch.isHead hash = false := by
  rw [Branch.knows, Bool.or_eq_false_iff, Bool.or_eq_false_iff] at hunknown
  exact hunknown.1.1

theorem mem_updates_remoteUpdate (hunknown : coordinator.branch.knows data.hash = false) :
    data ∈ (coordinator.remoteUpdate data).1.branch.updates := by
  have hhead := isHead_of_unknown hunknown
  simp only [remoteUpdate, hunknown, Bool.false_eq_true, if_false, updates_finish]
  exact mem_updates_next (List.mem_append_right _ (List.mem_singleton_self data)) hhead

/-- At rest an announcement of an unknown commit is loaded at once. -/
theorem remoteUpdate_at_rest (hrests : coordinator.course.Rests) (hdone : coordinator.course.Done)
    (hunknown : coordinator.branch.knows data.hash = false) :
    (coordinator.remoteUpdate data).2 = some (.deliver data.hash (some data) .update) ∧
      (coordinator.remoteUpdate data).1.branch.commits = [] := by
  have hhead := isHead_of_unknown hunknown
  let prepared : Coordinator := { coordinator with branch := coordinator.branch.queueUpdate data }
  have hmove : coordinator.remoteUpdate data = finish prepared.next := by
    simp only [remoteUpdate, hunknown, Bool.false_eq_true, if_false, prepared]
  have hnext : prepared.next = prepared.work :=
    next_eq_work hrests.idle hrests.connected hdone.rejoined hrests.running
  have hcommits : prepared.branch.commits = [] := hdone.commits
  have hupdates : prepared.branch.updates = [data] := congrArg (· ++ [data]) hdone.updates
  have hdue : prepared.due = [data] := by
    rw [due, hupdates, List.dropWhile_cons_of_neg]
    exact fun hsame => by cases hhead.symm.trans hsame
  refine ⟨?_, ?_⟩
  · rw [hmove, hnext, work_of_nil hcommits, hdue]
    rfl
  · rw [hmove, commits_finish, commits_next]
    exact hcommits

/-- With nothing queued a commit that is loaded becomes both heads. -/
theorem heads_of_loaded {reason : LoadReason}
    (hphase : coordinator.phase = .pulling reason hash)
    (hcommits : coordinator.branch.commits = []) :
    let loaded := (coordinator.handle (.delivered (.ok ()))).1.branch
    loaded.localHead = hash ∧ loaded.originHead = hash := by
  intro loaded
  let unloaded := coordinator.rested.unload reason
  have hempty : unloaded.branch.commits = [] :=
    (commits_unload coordinator.rested reason).trans hcommits
  have hadopted := adopt_of_nil hempty hash
  have hcourse : (coordinator.handle (.delivered (.ok ()))).1.course =
      (unloaded.adopt hash).next.1.course := by
    rw [handle_delivered hphase, course_finish]
    rfl
  obtain ⟨phase, updates, rejoinPending, hnext⟩ := exists_next_eq (unloaded.adopt hash)
  rw [hnext] at hcourse
  exact ⟨(congrArg Course.localHead hcourse).trans (congrArg Course.localHead hadopted),
    (congrArg Course.originHead hcourse).trans (congrArg Course.originHead hadopted)⟩

end Coordinator

/-! ## Dialogues -/

namespace Dialogue

/-- The commit whose announcement the coordinator hears. -/
def Input.heard? : Input → Option CommitData
  | .told occasion => occasion.heard?
  | .answer _ => none

/-- The commits that are announced in a run. -/
def announced (inputs : List Input) : List CommitData := inputs.filterMap Input.heard?

def updates (dialogue : Dialogue) : List CommitData := dialogue.coordinator.branch.updates

variable {dialogue : Dialogue} {input : Input} {inputs : List Input} {data : Option CommitData}
  {hash : CommitHash} {echo : CommitData} {move : Coordinator.Move}

theorem Attentive.updates_step_subset (h : dialogue.Attentive) (input : Input) :
    (dialogue.step input).updates ⊆ dialogue.updates ++ input.heard?.toList := by
  cases hmove : dialogue.move? input with
  | none =>
      rw [step_of_none hmove]
      exact List.subset_append_left _ _
  | some move =>
      rw [step_of_some hmove]
      cases input with
      | told occasion => exact updates_react_subset hmove
      | answer response =>
          obtain ⟨request, handled, -, -, -, hhandled, rfl⟩ := h.handled hmove
          rw [updates, take, updates_finish]
          exact List.Subset.trans hhandled.updates_subset (List.subset_append_left _ _)

theorem announced_cons (input : Input) (inputs : List Input) :
    announced (input :: inputs) = input.heard?.toList ++ announced inputs := by
  rw [announced, List.filterMap_cons]
  cases input.heard? <;> rfl

/-- What waits at the end of a run waited before, or was announced. -/
theorem Attentive.updates_run_subset (h : dialogue.Attentive) (inputs : List Input) :
    (dialogue.run inputs).updates ⊆ dialogue.updates ++ announced inputs := by
  induction inputs generalizing dialogue with
  | nil => exact List.subset_append_left _ _
  | cons input rest ih =>
      rw [announced_cons, ← List.append_assoc]
      refine List.Subset.trans (ih (h.step input)) (List.append_subset.mpr ⟨?_, ?_⟩)
      · exact List.Subset.trans (h.updates_step_subset input) (List.subset_append_left _ _)
      · exact List.subset_append_right _ _

/-- A commit that is loaded as an update waited as one, or was announced. -/
theorem Attentive.mem_of_update (h : dialogue.Attentive)
    (hmem : .deliver hash data .update ∈ dialogue.requests inputs) :
    hash ∈ (dialogue.updates ++ announced inputs).map (·.hash) := by
  induction inputs generalizing dialogue with
  | nil => cases hmem
  | cons input rest ih =>
      have hstep := h.updates_step_subset input
      rw [announced_cons, ← List.append_assoc]
      rcases List.mem_append.mp hmem with hfirst | hlater
      · obtain ⟨move, hmove, hrequest⟩ :=
          Option.bind_eq_some_iff.mp (Option.mem_toList.mp hfirst)
        have hwaits : hash ∈ (dialogue.step input).updates.map (·.hash) := by
          rw [step_of_some hmove]
          cases h.asks hmove hrequest with
          | @update loaded others hphase hupdates =>
              have hqueue : ((dialogue.close input).take move).updates = loaded :: others :=
                hupdates
              rw [hqueue]
              exact List.mem_cons_self
          | load hphase hreason => exact absurd rfl hreason
        exact List.map_subset _ (List.Subset.trans hstep (List.subset_append_left _ _)) hwaits
      · refine List.map_subset _ ?_ (ih (h.step input) hlater)
        exact List.append_subset.mpr ⟨List.Subset.trans hstep (List.subset_append_left _ _),
          List.subset_append_right _ _⟩

/-- The commit is being loaded as an update, and the end of the load moves both heads to it. -/
structure Reloads (dialogue : Dialogue) (echo : CommitData) : Prop where
  loading : dialogue.unanswered = [.deliver echo.hash (some echo) .update]
  localHead : (dialogue.step (.answer (.delivered (.ok ())))).coordinator.branch.localHead =
    echo.hash
  originHead : (dialogue.step (.answer (.delivered (.ok ())))).coordinator.branch.originHead =
    echo.hash

theorem step_known (hknown : dialogue.coordinator.branch.knows echo.hash) :
    dialogue.move? (.told (.update echo)) = some (dialogue.coordinator, none) ∧
      dialogue.step (.told (.update echo)) = dialogue := by
  have hmove : dialogue.move? (.told (.update echo)) = some (dialogue.coordinator, none) := by
    simp only [move?, react, remoteUpdate, hknown, if_true]
  exact ⟨hmove, step_of_some hmove⟩

/-- At rest the echo of a commit that is not known any more is loaded like a foreign update. -/
theorem Attentive.reloads (hattentive : dialogue.Attentive)
    (hdiligent : dialogue.coordinator.course.Diligent) (hrests : dialogue.coordinator.course.Rests)
    (hunknown : dialogue.coordinator.branch.knows echo.hash = false) :
    (dialogue.step (.told (.update echo))).Reloads echo := by
  let later := dialogue.step (.told (.update echo))
  obtain ⟨hrequest, hcommits⟩ := remoteUpdate_at_rest hrests (hdiligent hrests) hunknown
  have hmove : dialogue.move? (.told (.update echo)) =
      some (dialogue.coordinator.remoteUpdate echo) := rfl
  have hlater : later = (dialogue.close (.told (.update echo))).take
      (dialogue.coordinator.remoteUpdate echo) := step_of_some hmove
  have hloading : later.unanswered = [.deliver echo.hash (some echo) .update] := by
    obtain ⟨request, hunanswered, hawaits⟩ := hattentive
    obtain rfl := hawaits.idle_iff.mp hrests.idle
    rw [hlater]
    simp [take, close, hrequest, hunanswered]
  have hphase := ((hattentive.step (.told (.update echo))).awaits hloading).deliver
  have hempty : later.coordinator.branch.commits = [] := by
    rw [hlater]
    exact hcommits
  have hanswer : later.move? (.answer (.delivered (.ok ()))) =
      some (later.coordinator.handle (.delivered (.ok ()))) := by
    rw [move?, hloading]
    rfl
  obtain ⟨hlocal, horigin⟩ := heads_of_loaded hphase hempty
  refine ⟨hloading, ?_, ?_⟩
  · rw [show later.step _ = _ from step_of_some hanswer]
    exact hlocal
  · rw [show later.step _ = _ from step_of_some hanswer]
    exact horigin

/-- The echo of an own commit, not announced before, is ignored exactly if the commit is queued or
one of the two heads; a commit that was settled as synced is not queued any more.  A commit whose
echo is ignored never comes back.  Any other echo is queued like a foreign update; at rest it is
loaded at once, and moves both heads back. -/
theorem run_echo_ignored_iff (project : ProjectId) (branch : BranchName) (head : CommitHash)
    (before after : List Input) {echo : CommitData}
    (hdistinct : ((offered before).map (·.hash)).Nodup)
    (honce : echo.hash ∉ (announced (before ++ after)).map (·.hash)) :
    let dialogue := start project branch head
    let heard := dialogue.run before
    let later := heard.step (.told (.update echo))
    (later = heard ↔
        echo.hash ∈ heard.coordinator.queued ∨ heard.coordinator.branch.isHead echo.hash) ∧
      ((echo.hash, .synced) ∈ heard.coordinator.settlements →
        echo.hash ∉ heard.coordinator.queued) ∧
      (later = heard → ∀ data, .deliver echo.hash data .update ∉
        dialogue.requests (before ++ .told (.update echo) :: after)) ∧
      (later ≠ heard → echo ∈ later.updates ∧
        (heard.coordinator.course.Rests → later.Reloads echo)) := by
  intro dialogue heard later
  have hstarted : dialogue.Attentive := attentive_start project branch head
  have hattentive : heard.Attentive := hstarted.run before
  have hwaiting : echo.hash ∉ heard.updates.map (·.hash) := by
    refine fun hmem => honce (List.map_subset _ ?_ hmem)
    have hsubset : heard.updates ⊆ announced before := hstarted.updates_run_subset before
    rw [announced, List.filterMap_append]
    exact List.Subset.trans hsubset (List.subset_append_left _ _)
  have hignored : later = heard ↔ heard.coordinator.branch.knows echo.hash := by
    refine ⟨fun hsame => ?_, fun hknown => (step_known hknown).2⟩
    by_contra hunknown
    have hmem : echo ∈ later.updates := mem_updates_remoteUpdate (eq_false_of_ne_true hunknown)
    rw [hsame] at hmem
    exact hwaiting (List.mem_map_of_mem hmem)
  refine ⟨hignored.trans (knows_iff hwaiting), fun hsettled => ?_, fun hsame data => ?_,
    fun hother => ?_⟩
  · obtain ⟨hnodup, haccounts⟩ := accounts_run project branch head hdistinct
    rw [List.map_append] at hnodup
    exact haccounts.balanced.not_queued hnodup.of_append_left hsettled nofun
  · obtain ⟨hmove, hstep⟩ := step_known (hignored.mp hsame)
    have hrequests : dialogue.requests (before ++ .told (.update echo) :: after) =
        dialogue.requests (before ++ after) := by
      rw [requests, record_append, record, request?, hmove, hstep, requests, record_append]
      rfl
    rw [hrequests]
    exact fun hmem => honce (hstarted.mem_of_update hmem)
  · have hunknown : heard.coordinator.branch.knows echo.hash = false :=
      eq_false_of_ne_true (mt hignored.mpr hother)
    have hdiligent := hstarted.diligent_run (diligent_start project branch head) before
    exact ⟨mem_updates_remoteUpdate hunknown,
      fun hrests => hattentive.reloads hdiligent hrests hunknown⟩

/-- Two commits are made and synced one after the other. -/
def bothSynced : List Input :=
  [.told (.commit (commitOn "#1" "#0")), .told (.commit (commitOn "#2" "#1")),
    .answer (.pushed (.ok (.of .synced "#1"))), .answer (.pushed (.ok (.of .synced "#2")))]

def synced : Dialogue := (start "p" "b" "#0").run bothSynced

/-- The echo of the first one comes after both were synced, and is loaded. -/
theorem run_echo_ignored_iff_late :
    ("#1", .synced) ∈ synced.coordinator.settlements ∧
      (synced.step (.told (.update (commitOn "#1" "#0")))).Reloads (commitOn "#1" "#0") := by
  have hoffered : (offered bothSynced).map (·.hash) = ["#1", "#2"] := by
    cbv
  have hannounced : announced bothSynced = [] := by
    cbv
  have hsettled : synced.coordinator.settlements = [("#1", .synced), ("#2", .synced)] := by
    cbv
  have hqueued : synced.coordinator.queued = [] := by
    cbv
  have hhead : synced.coordinator.branch.isHead "#1" = false := by
    cbv
  have hidle : synced.coordinator.phase = .idle := by
    cbv
  have hconnected : synced.coordinator.connected = true := by
    cbv
  have hhalt : synced.coordinator.halt = none := by
    cbv
  obtain ⟨hignored, -, -, hreloads⟩ := run_echo_ignored_iff "p" "b" "#0" bothSynced []
    (by rw [hoffered]; decide) (by rw [List.append_nil, hannounced]; exact List.not_mem_nil)
  refine ⟨hsettled ▸ List.mem_cons_self, (hreloads fun hsame => ?_).2 ⟨hidle, hconnected, hhalt⟩⟩
  rcases hignored.mp hsame with hmem | hknown
  · cases hqueued ▸ hmem
  · cases hhead.symm.trans hknown

end Dialogue

end Coauthor
