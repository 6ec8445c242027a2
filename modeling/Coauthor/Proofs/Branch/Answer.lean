import Coauthor.Proofs.Branch.Course

/-!
# What an answer leads to

An answer is of one kind with a request, and is taken in the phase that waits for this kind.
What it leads to is read off here once, one case for each way that an answer can go: what
changes in the coordinator with nothing under way, and how it goes on from there.
-/

namespace Coauthor

/-- The answer is of the kind that the request asks for. -/
def Response.answers : Response → Request → Bool
  | .pushed _, .push _ => true
  | .delivered _, .deliver .. => true
  | .subscribed _, .subscribe => true
  | .head _, .fetchHead => true
  | .ancestor _, .findAncestor .. => true
  | .stored _, .store _ => true
  | .branchCreated _, .createBranch .. => true
  | .headSet _, .setHead .. => true
  | _, _ => false

/-- The answer tells that the transport failed. -/
def Response.isFault : Response → Bool
  | .pushed (.error error) | .subscribed (.error error) | .head (.error error)
  | .ancestor (.error error) => error.isTransport
  | .delivered (.error error) => error.isTransport
  | _ => false

/-- The error with which a step of a resolution is refused. -/
def Response.refusal? : Response → Option RemoteError
  | .stored (.error error) | .branchCreated (.error error) | .headSet (.error error) => some error
  | _ => none

/-- A phase that a coordinator enters on other occasions than one particular answer. -/
def Phase.isOrdinary : Phase → Bool
  | .findingAncestor _ | .resolving .. => false
  | _ => true

namespace Coordinator

/-- The coordinator behind the end of a load. -/
def unload (coordinator : Coordinator) (reason : LoadReason) : Coordinator :=
  if reason = .update then { coordinator with branch := coordinator.branch.dropUpdate }
  else coordinator

/-- The coordinator without the updates that a rejoin makes void. -/
def forgetUpdates (coordinator : Coordinator) : Coordinator :=
  { coordinator with branch := { coordinator.branch with updates := [] } }

/-- The queue is settled and the server has the local head. -/
def takeForced (coordinator : Coordinator) : Coordinator :=
  let settled := coordinator.settleQueue .synced
  { settled with
    branch := { settled.branch with originHead := coordinator.branch.localHead, inSync := true } }

/-- The error with which the coordinator stops on an answer. -/
inductive Fails (coordinator : Coordinator) : Phase → Response → SyncError → Prop where
  | push {hash : CommitHash} {error : RemoteError} (herror : error.isTransport = false) :
      Fails coordinator (.pushing hash) (.pushed (.error error)) (.remote error)
  | mismatch {hash : CommitHash} {response : CommitResponse} (hhash : response.hash ≠ hash) :
      Fails coordinator (.pushing hash) (.pushed (.ok response)) (.ackMismatch hash response.hash)
  | status {hash : CommitHash} {response : CommitResponse} (hhash : response.hash = hash)
      (hstatus : response.status? = none) :
      Fails coordinator (.pushing hash) (.pushed (.ok response))
        (.unexpectedStatus response.status)
  | mergeHash {hash : CommitHash} {response : CommitResponse} (hhash : response.hash = hash)
      (hstatus : response.status? = some .merged) (hmerge : response.mergeHash = none) :
      Fails coordinator (.pushing hash) (.pushed (.ok response)) .missingMergeHash
  | load {reason : LoadReason} {hash : CommitHash} {error : DeliveryError}
      (herror : error.isTransport = false) :
      Fails coordinator (.pulling reason hash) (.delivered (.error error))
        (.loadRejected hash error.message)
  | subscribe {error : RemoteError} (herror : error.isTransport = false) :
      Fails coordinator .subscribing (.subscribed (.error error)) (.remote error)
  | head {error : RemoteError} (herror : error.isTransport = false) :
      Fails coordinator .fetchingHead (.head (.error error)) (.remote error)
  | branch :
      Fails coordinator .fetchingHead (.head (.ok none)) (.branchMissing coordinator.branch.name)
  | ancestor {head : CommitHash} {error : RemoteError} (herror : error.isTransport = false) :
      Fails coordinator (.findingAncestor head) (.ancestor (.error error)) (.remote error)

/-- What an answer leads to in the phase that waits for it, once nothing is under way. -/
inductive Handled (coordinator : Coordinator) : Phase → Response → Move → Prop where
  /-- The coordinator rejoins. -/
  | interrupted {phase : Phase} {response : Response} (hfault : response.isFault) :
      Handled coordinator phase response coordinator.interrupted
  | failed {phase : Phase} {response : Response} {error : SyncError}
      (hfails : Fails coordinator phase response error) :
      Handled coordinator phase response (coordinator.fail error)
  | synced {hash : CommitHash} {response : CommitResponse} (hhash : response.hash = hash)
      (hstatus : response.status? = some .synced) :
      Handled coordinator (.pushing hash) (.pushed (.ok response)) (coordinator.confirm hash).next
  | merged {hash merge : CommitHash} {response : CommitResponse} (hhash : response.hash = hash)
      (hstatus : response.status? = some .merged) (hmerge : response.mergeHash = some merge) :
      Handled coordinator (.pushing hash) (.pushed (.ok response))
        ((coordinator.takeMerge hash merge).pull merge none .merge)
  | forked {hash : CommitHash} {response : CommitResponse}
      (hstatus : response.status? = some .forked) :
      Handled coordinator (.pushing hash) (.pushed (.ok response)) (coordinator.fork hash none)
  | canceled {hash : CommitHash} {response : CommitResponse}
      (hstatus : response.status? = some .canceled) :
      Handled coordinator (.pushing hash) (.pushed (.ok response)) coordinator.cancelQueue
  | loaded (reason : LoadReason) (hash : CommitHash) :
      Handled coordinator (.pulling reason hash) (.delivered (.ok ()))
        ((coordinator.unload reason).adopt hash).next
  /-- A stopped coordinator listens again. -/
  | listening (hhalt : coordinator.halt.isSome) :
      Handled coordinator .subscribing (.subscribed (.ok ())) coordinator.next
  | subscribed (hhalt : coordinator.halt = none) :
      Handled coordinator .subscribing (.subscribed (.ok ()))
        ({ coordinator with phase := .fetchingHead }, some .fetchHead)
  /-- The head of the server is the local head, and nothing is queued. -/
  | current (hcommits : coordinator.branch.commits = []) :
      Handled coordinator .fetchingHead (.head (.ok (some coordinator.branch.localHead)))
        coordinator.forgetUpdates.next
  | behind {head : CommitHash} (hcommits : coordinator.branch.commits = [])
      (hhead : head ≠ coordinator.branch.localHead) :
      Handled coordinator .fetchingHead (.head (.ok (some head)))
        (coordinator.forgetUpdates.catchUp head
          (coordinator.branch.updates.find? (·.hash = head)))
  /-- The first queued commit is the head of the server. -/
  | landed {queued : CommitData} {rest : List CommitData}
      (hcommits : coordinator.branch.commits = queued :: rest) :
      Handled coordinator .fetchingHead (.head (.ok (some queued.hash)))
        (coordinator.acknowledgeRejoined queued.hash queued.hash)
  | searching {queued : CommitData} {rest : List CommitData} {head : CommitHash}
      (hcommits : coordinator.branch.commits = queued :: rest) (hhead : queued.hash ≠ head) :
      Handled coordinator .fetchingHead (.head (.ok (some head)))
        ({ coordinator with phase := .findingAncestor head }, some (.findAncestor queued.hash head))
  | emptied {head : CommitHash} {response : Response}
      (hcommits : coordinator.branch.commits = []) :
      Handled coordinator (.findingAncestor head) response coordinator.next
  /-- The first queued commit is part of the server's history. -/
  | recognised {queued : CommitData} {rest : List CommitData} {head : CommitHash}
      (hcommits : coordinator.branch.commits = queued :: rest) :
      Handled coordinator (.findingAncestor head) (.ancestor (.ok queued.hash))
        (coordinator.acknowledgeRejoined queued.hash head)
  | diverged {queued : CommitData} {rest : List CommitData} {head ancestor : CommitHash}
      (hcommits : coordinator.branch.commits = queued :: rest) (hother : ancestor ≠ queued.hash) :
      Handled coordinator (.findingAncestor head) (.ancestor (.ok ancestor))
        (coordinator.fork queued.hash head)
  /-- The server does not know the first queued commit. -/
  | unknown {queued : CommitData} {rest : List CommitData} {head : CommitHash} {what : String}
      (hcommits : coordinator.branch.commits = queued :: rest) :
      Handled coordinator (.findingAncestor head) (.ancestor (.error (.notFound what)))
        (coordinator.push queued)
  | stored (resolution : ForkResolution) (count : Nat) (response : CommitResponse) :
      Handled coordinator (.resolving resolution count) (.stored (.ok response))
        (coordinator.storeNext resolution (count + 1))
  | refused (resolution : ForkResolution) (count : Nat) {response : Response}
      (error : RemoteError) (hrefusal : response.refusal? = some error) :
      Handled coordinator (.resolving resolution count) response
        (coordinator.resolutionRefused error)
  | branchCreated (name : BranchName) (count : Nat) :
      Handled coordinator (.resolving (.fork name) count) (.branchCreated (.ok ()))
        (coordinator.onBranchCreated name)
  | forced (count : Nat) {response : CommitResponse} (hstatus : response.status? = some .synced) :
      Handled coordinator (.resolving .forcePush count) (.headSet (.ok response))
        coordinator.takeForced.next
  | unforced (count : Nat) {response : CommitResponse}
      (hstatus : response.status? ≠ some .synced) :
      Handled coordinator (.resolving .forcePush count) (.headSet (.ok response))
        (coordinator.resolutionFailed (.unexpectedStatus response.status))

variable {coordinator : Coordinator} {phase : Phase} {response : Response} {move : Move}

theorem handled_onPushed (coordinator : Coordinator) (hash : CommitHash)
    (result : Except RemoteError CommitResponse) :
    Handled coordinator (.pushing hash) (.pushed result) (coordinator.onPushed hash result) := by
  cases result with
  | error error =>
      simp only [onPushed]
      split_ifs with hfault
      · exact .interrupted hfault
      · exact .failed (.push (eq_false_of_ne_true hfault))
  | ok response =>
      simp only [onPushed]
      split_ifs with hother
      · exact .failed (.mismatch hother)
      · have hhash : response.hash = hash := not_not.mp hother
        split
        · rename_i hstatus
          exact .failed (.status hhash hstatus)
        · rename_i hstatus
          exact .synced hhash hstatus
        · rename_i hstatus hmerge
          exact .failed (.mergeHash hhash hstatus hmerge)
        · rename_i hstatus hmerge
          exact .merged hhash hstatus hmerge
        · rename_i hstatus
          exact .forked hstatus
        · rename_i hstatus
          exact .canceled hstatus

theorem handled_onDelivered (coordinator : Coordinator) (reason : LoadReason) (hash : CommitHash)
    (result : Except DeliveryError Unit) :
    Handled coordinator (.pulling reason hash) (.delivered result)
      (coordinator.onDelivered reason hash result) := by
  cases result with
  | error error =>
      simp only [onDelivered]
      split_ifs with hfault
      · exact .interrupted hfault
      · exact .failed (.load (eq_false_of_ne_true hfault))
  | ok loaded => exact .loaded reason hash

theorem handled_rejoinFailed {error : RemoteError} (hfault : response.isFault = error.isTransport)
    (hfails : error.isTransport = false → Fails coordinator phase response (.remote error)) :
    Handled coordinator phase response (coordinator.rejoinFailed error) := by
  unfold rejoinFailed
  split_ifs with htransport
  · exact .interrupted (hfault.trans htransport)
  · exact .failed (hfails (eq_false_of_ne_true htransport))

theorem handled_onSubscribed (coordinator : Coordinator) (result : Except RemoteError Unit) :
    Handled coordinator .subscribing (.subscribed result) (coordinator.onSubscribed result) := by
  cases result with
  | error error => exact handled_rejoinFailed rfl .subscribe
  | ok subscribed =>
      simp only [onSubscribed]
      split_ifs with hhalt
      · exact .listening hhalt
      · exact .subscribed (Option.not_isSome_iff_eq_none.mp hhalt)

theorem handled_onHead (coordinator : Coordinator)
    (result : Except RemoteError (Option CommitHash)) :
    Handled coordinator .fetchingHead (.head result) (coordinator.onHead result) := by
  rcases result with error | _ | head
  · exact handled_rejoinFailed rfl .head
  · exact .failed .branch
  · simp only [onHead, reconcile]
    split
    · rename_i hcommits
      split_ifs with hhead
      · subst hhead
        exact .current hcommits
      · exact .behind hcommits hhead
    · rename_i queued rest hcommits
      split_ifs with hhead
      · subst hhead
        exact .landed hcommits
      · exact .searching hcommits hhead

theorem handled_onAncestor (coordinator : Coordinator) (head : CommitHash)
    (result : Except RemoteError CommitHash) :
    Handled coordinator (.findingAncestor head) (.ancestor result)
      (coordinator.onAncestor head result) := by
  unfold onAncestor
  split
  · rename_i hcommits
    exact .emptied hcommits
  · rename_i queued rest ancestor hcommits
    split_ifs with hancestor
    · subst hancestor
      exact .recognised hcommits
    · exact .diverged hcommits hancestor
  · rename_i hcommits
    exact .unknown hcommits
  · exact handled_rejoinFailed rfl .ancestor

theorem handled_onHeadSet (coordinator : Coordinator) (count : Nat) (response : CommitResponse) :
    Handled coordinator (.resolving .forcePush count) (.headSet (.ok response))
      (coordinator.onHeadSet response) := by
  unfold onHeadSet
  split
  · rename_i hstatus
    exact .forced count hstatus
  · rename_i hstatus
    exact .unforced count hstatus

/-- What an answer that is taken leads to. -/
theorem handled_of_answer? (hanswer : coordinator.answer? phase response = some move) :
    Handled coordinator phase response move := by
  unfold answer? at hanswer
  split at hanswer
  · exact Option.some.inj hanswer ▸ handled_onPushed ..
  · exact Option.some.inj hanswer ▸ handled_onDelivered ..
  · exact Option.some.inj hanswer ▸ handled_onSubscribed ..
  · exact Option.some.inj hanswer ▸ handled_onHead ..
  · exact Option.some.inj hanswer ▸ handled_onAncestor ..
  · exact Option.some.inj hanswer ▸ .stored ..
  · exact Option.some.inj hanswer ▸ .branchCreated ..
  · exact Option.some.inj hanswer ▸ handled_onHeadSet ..
  · exact Option.some.inj hanswer ▸ .refused _ _ _ rfl
  · exact Option.some.inj hanswer ▸ .refused _ _ _ rfl
  · exact Option.some.inj hanswer ▸ .refused _ _ _ rfl
  · cases hanswer

/-! ## Reasons to stop -/

theorem halt_of_isForked (hforked : coordinator.isForked = true) :
    ∃ hash, coordinator.halt = some (.forked hash) := by
  unfold isForked at hforked
  split at hforked
  · exact ⟨_, ‹_›⟩
  · cases hforked

theorem isSome_halt_fail (coordinator : Coordinator) (error : SyncError) :
    (coordinator.fail error).1.halt.isSome := by
  change (if coordinator.isForked then coordinator.halt else some .failed).isSome
  split_ifs with hforked
  · obtain ⟨hash, hhalt⟩ := halt_of_isForked hforked
    rw [hhalt]
    rfl
  · rfl

/-! ## What stays -/

theorem exists_work_eq (coordinator : Coordinator) : ∃ phase updates,
    coordinator.work.1 =
      { coordinator with phase, branch := { coordinator.branch with updates } } := by
  cases hcommits : coordinator.branch.commits with
  | cons data rest =>
      rw [work_of_cons hcommits]
      exact ⟨_, coordinator.branch.updates, rfl⟩
  | nil =>
      rw [work_of_nil hcommits]
      cases coordinator.due with
      | nil => exact ⟨_, _, rfl⟩
      | cons data rest => exact ⟨_, _, rfl⟩

/-- To go on changes nothing but the phase and the updates, and a rejoin that is due is begun. -/
theorem exists_next_eq (coordinator : Coordinator) : ∃ phase updates rejoinPending,
    coordinator.next.1 =
      { coordinator with
        phase, rejoinPending, branch := { coordinator.branch with updates } } := by
  unfold next
  split_ifs with hbusy hrejoin hhalt
  · exact ⟨_, coordinator.branch.updates, _, rfl⟩
  · exact ⟨_, coordinator.branch.updates, _, rfl⟩
  · exact ⟨_, coordinator.branch.updates, _, rfl⟩
  · obtain ⟨phase, updates, hwork⟩ := exists_work_eq coordinator
    exact ⟨phase, updates, coordinator.rejoinPending, hwork⟩

theorem exists_refreshHead_eq (coordinator : Coordinator) : ∃ phase rejoinPending,
    coordinator.refreshHead.1 = { coordinator with phase, rejoinPending } := by
  unfold refreshHead
  split_ifs with hconnected
  · exact ⟨_, _, rfl⟩
  · exact ⟨_, _, rfl⟩

theorem branch_refreshHead (coordinator : Coordinator) :
    coordinator.refreshHead.1.branch = coordinator.branch := by
  obtain ⟨phase, rejoinPending, hrefresh⟩ := exists_refreshHead_eq coordinator
  rw [hrefresh]

theorem commits_next (coordinator : Coordinator) :
    coordinator.next.1.branch.commits = coordinator.branch.commits := by
  obtain ⟨phase, updates, rejoinPending, hnext⟩ := exists_next_eq coordinator
  rw [hnext]

theorem commits_next_suffix (coordinator : Coordinator) :
    coordinator.next.1.branch.commits <:+ coordinator.branch.commits :=
  (commits_next coordinator).symm ▸ List.suffix_rfl

theorem commits_finish (move : Move) : (finish move).1.branch.commits = move.1.branch.commits :=
  congrArg Course.commits (course_finish move)

theorem updates_finish (move : Move) : (finish move).1.branch.updates = move.1.branch.updates :=
  congrArg Course.updates (course_finish move)

theorem commits_unload (coordinator : Coordinator) (reason : LoadReason) :
    (coordinator.unload reason).branch.commits = coordinator.branch.commits := by
  unfold unload
  split_ifs with hupdate
  · rfl
  · rfl

theorem commits_adopt (coordinator : Coordinator) (hash : CommitHash) :
    (coordinator.adopt hash).branch.commits = coordinator.branch.commits := by
  simp only [adopt]
  split_ifs with hempty
  · rfl
  · rfl

theorem commits_acknowledgeRejoined (coordinator : Coordinator) (queued head : CommitHash) :
    (coordinator.acknowledgeRejoined queued head).1.branch.commits =
      coordinator.branch.commits.tail := by
  simp only [acknowledgeRejoined]
  split_ifs with hsettled
  · exact commits_next _
  · rfl

theorem commits_storeNext_suffix (coordinator : Coordinator) (resolution : ForkResolution)
    (stored : Nat) :
    (coordinator.storeNext resolution stored).1.branch.commits <:+ coordinator.branch.commits := by
  unfold storeNext
  cases coordinator.branch.commits[stored]? with
  | some data => exact List.suffix_rfl
  | none =>
      cases resolution with
      | fork name => exact List.suffix_rfl
      | forcePush => exact List.suffix_rfl
      | abandon =>
          simp only [branch_refreshHead]
          exact List.nil_suffix

/-- Commits only ever leave the queue from its front, and no answer queues one. -/
theorem Handled.commits_suffix (h : Handled coordinator phase response move) :
    move.1.branch.commits <:+ coordinator.branch.commits := by
  cases h with
  | interrupted hfault => exact commits_next_suffix _
  | failed hfails => exact List.suffix_rfl
  | synced hhash hstatus =>
      rw [commits_next]
      exact List.tail_suffix _
  | merged hhash hstatus hmerge => exact List.tail_suffix _
  | forked hstatus => exact List.suffix_rfl
  | canceled hstatus =>
      rw [cancelQueue, branch_refreshHead]
      exact List.nil_suffix
  | loaded reason hash =>
      have hkept := (commits_adopt (coordinator.unload reason) hash).trans
        (commits_unload coordinator reason)
      exact hkept ▸ commits_next_suffix _
  | listening hhalt => exact commits_next_suffix _
  | subscribed hhalt => exact List.suffix_rfl
  | current hcommits => exact commits_next_suffix _
  | behind hcommits hhead => exact List.suffix_rfl
  | landed hcommits =>
      rw [commits_acknowledgeRejoined]
      exact List.tail_suffix _
  | searching hcommits hhead => exact List.suffix_rfl
  | emptied hcommits => exact commits_next_suffix _
  | recognised hcommits =>
      rw [commits_acknowledgeRejoined]
      exact List.tail_suffix _
  | diverged hcommits hother => exact List.suffix_rfl
  | unknown hcommits => exact List.suffix_rfl
  | stored resolution count result => exact commits_storeNext_suffix coordinator _ _
  | refused resolution count error => exact commits_next_suffix _
  | branchCreated name count =>
      rw [onBranchCreated, branch_refreshHead]
      exact List.nil_suffix
  | forced count hstatus =>
      rw [commits_next]
      exact List.nil_suffix
  | unforced count hstatus => exact commits_next_suffix _

theorem originHead_next (coordinator : Coordinator) :
    coordinator.next.1.branch.originHead = coordinator.branch.originHead := by
  obtain ⟨phase, updates, rejoinPending, hnext⟩ := exists_next_eq coordinator
  rw [hnext]

/-! ## Phases -/

variable {head : CommitHash} {resolution : ForkResolution} {count : Nat}

theorem isOrdinary_work (hphase : coordinator.phase.isOrdinary) :
    coordinator.work.1.phase.isOrdinary := by
  cases hcommits : coordinator.branch.commits with
  | cons data rest =>
      rw [work_of_cons hcommits]
      rfl
  | nil =>
      rw [work_of_nil hcommits]
      cases coordinator.due with
      | nil => exact hphase
      | cons data rest => rfl

theorem isOrdinary_next (hphase : coordinator.phase.isOrdinary) :
    coordinator.next.1.phase.isOrdinary := by
  unfold next
  split_ifs with hbusy hrejoin hhalt
  · exact hphase
  · rfl
  · exact hphase
  · exact isOrdinary_work hphase

theorem isOrdinary_refreshHead (hphase : coordinator.phase.isOrdinary) :
    coordinator.refreshHead.1.phase.isOrdinary := by
  unfold refreshHead
  split_ifs with hconnected
  · rfl
  · exact hphase

theorem isOrdinary_acknowledgeRejoined (hphase : coordinator.phase.isOrdinary)
    (queued head : CommitHash) :
    (coordinator.acknowledgeRejoined queued head).1.phase.isOrdinary := by
  simp only [acknowledgeRejoined]
  split_ifs with hsettled
  · exact isOrdinary_next hphase
  · rfl

/-- A resolution goes on storing, or asks for its last step; nothing is left to do for one that
drops the queue. -/
theorem isOrdinary_or_storeNext (hphase : coordinator.phase.isOrdinary)
    (resolution : ForkResolution) (count : Nat) :
    (coordinator.storeNext resolution count).1.phase.isOrdinary ∨
      (coordinator.storeNext resolution count).1 =
        { coordinator with phase := .resolving resolution count } := by
  unfold storeNext
  cases coordinator.branch.commits[count]? with
  | some data => exact .inr rfl
  | none =>
      cases resolution with
      | fork name => exact .inr rfl
      | forcePush => exact .inr rfl
      | abandon => exact .inl (isOrdinary_refreshHead hphase)

theorem unload_phase (coordinator : Coordinator) (reason : LoadReason) :
    (coordinator.unload reason).phase = coordinator.phase := by
  unfold unload
  split_ifs with hupdate
  · rfl
  · rfl

/-- What an answer leads to in a phase that only this answer leads to. -/
inductive Led (coordinator : Coordinator) : Phase → Response → Coordinator → Prop where
  | finding {head : CommitHash} :
      Led coordinator .fetchingHead (.head (.ok (some head)))
        { coordinator with phase := .findingAncestor head }
  | resolving {resolution : ForkResolution} {count : Nat} {result : CommitResponse} :
      Led coordinator (.resolving resolution count) (.stored (.ok result))
        { coordinator with phase := .resolving resolution (count + 1) }

theorem Handled.isOrdinary_or_led (h : Handled coordinator phase response move)
    (hphase : coordinator.phase.isOrdinary) :
    move.1.phase.isOrdinary ∨ Led coordinator phase response move.1 := by
  cases h with
  | interrupted hfault => exact .inl (isOrdinary_next hphase)
  | failed hfails => exact .inl hphase
  | synced hhash hstatus => exact .inl (isOrdinary_next hphase)
  | merged hhash hstatus hmerge => exact .inl rfl
  | forked hstatus => exact .inl hphase
  | canceled hstatus => exact .inl (isOrdinary_refreshHead hphase)
  | loaded reason hash =>
      exact .inl (isOrdinary_next ((unload_phase coordinator reason).symm ▸ hphase))
  | listening hhalt => exact .inl (isOrdinary_next hphase)
  | subscribed hhalt => exact .inl rfl
  | current hcommits => exact .inl (isOrdinary_next hphase)
  | behind hcommits hhead => exact .inl rfl
  | landed hcommits => exact .inl (isOrdinary_acknowledgeRejoined hphase _ _)
  | searching hcommits hhead => exact .inr .finding
  | emptied hcommits => exact .inl (isOrdinary_next hphase)
  | recognised hcommits => exact .inl (isOrdinary_acknowledgeRejoined hphase _ _)
  | diverged hcommits hother => exact .inl hphase
  | unknown hcommits => exact .inl rfl
  | stored resolution count result =>
      refine (isOrdinary_or_storeNext hphase resolution (count + 1)).imp_right fun hstore => ?_
      rw [hstore]
      exact .resolving
  | refused resolution count error => exact .inl (isOrdinary_next hphase)
  | branchCreated name count => exact .inl (isOrdinary_refreshHead hphase)
  | forced count hstatus => exact .inl (isOrdinary_next hphase)
  | unforced count hstatus => exact .inl (isOrdinary_next hphase)

/-- A head is only compared with once it was given as the head. -/
theorem Handled.response_of_finding (h : Handled coordinator phase response move)
    (hordinary : coordinator.phase.isOrdinary) (hphase : move.1.phase = .findingAncestor head) :
    response = .head (.ok (some head)) := by
  rcases h.isOrdinary_or_led hordinary with hother | hled
  · rw [hphase] at hother
    cases hother
  · generalize move.1 = later at hled hphase
    cases hled with
    | finding => rw [Phase.findingAncestor.inj hphase]
    | resolving => cases hphase

/-- An answer goes on with a resolution only where one was under way. -/
theorem Handled.exists_of_resolving (h : Handled coordinator phase response move)
    (hordinary : coordinator.phase.isOrdinary)
    (hphase : move.1.phase = .resolving resolution count) :
    ∃ stored, phase = .resolving resolution stored := by
  rcases h.isOrdinary_or_led hordinary with hother | hled
  · rw [hphase] at hother
    cases hother
  · generalize move.1 = later at hled hphase
    cases hled with
    | finding => cases hphase
    | resolving =>
        obtain ⟨rfl, -⟩ := Phase.resolving.inj hphase
        exact ⟨_, rfl⟩

end Coordinator

end Coauthor
