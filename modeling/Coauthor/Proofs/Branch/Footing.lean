import Coauthor.Proofs.Branch.Order

/-!
# What the status tells of the heads

The status of a branch is worked out from the queue and from the flag that the server went another
way, not from the heads.  It tells the truth about them as long as every merge that was acknowledged
has been loaded.  The acknowledgement of a merge moves the head of the server at once, and the local
head only follows when the merge is loaded.  Where the load fails the merge stays owed: the branch
counts as in sync, and those who wait are released, though the local head is an old one.
-/

namespace Coauthor

open Coordinator

/-- The merge that is to be loaded. -/
def Request.merge? : Request → Option CommitHash
  | .deliver merge _ .merge => some merge
  | _ => none

/-- The answer tells that a commit was loaded. -/
def Response.isLoaded : Response → Bool
  | .delivered (.ok ()) => true
  | _ => false

/-- The event lets waiting requests run. -/
def SyncEvent.isRelease : SyncEvent → Bool
  | .workersReleased .. => true
  | _ => false

/-- A merge is being loaded. -/
def Phase.isMerging : Phase → Bool
  | .pulling .merge _ => true
  | _ => false

namespace Coordinator

/-- The heads, and what the status is worked out from but for the phase and the reason to stop. -/
structure Footing where
  localHead : CommitHash
  originHead : CommitHash
  commits : List CommitData
  inSync : Bool

def footing (coordinator : Coordinator) : Footing :=
  { localHead := coordinator.branch.localHead
    originHead := coordinator.branch.originHead
    commits := coordinator.branch.commits
    inSync := coordinator.branch.inSync }

/-- The queued commits lead from the head of the server to the local head, unless they are known to
stand beside it; a merge that is owed is the head of the server, whatever the queue is based on. -/
def Footing.Holds (footing : Footing) : Option CommitHash → Prop
  | none => Chain footing.originHead footing.commits footing.localHead ∨
      (footing.inSync = false ∧ footing.commits ≠ [])
  | some merge => footing.originHead = merge

/-- The merge that is owed behind a move.  It is owed from its acknowledgement until a commit is
loaded or another commit leaves the queue. -/
def owing (coordinator : Coordinator) (loaded : Bool) (owed : Option CommitHash) (move : Move) :
    Option CommitHash :=
  (move.2.bind Request.merge?).or
    (if loaded ∨ move.1.branch.commits.length < coordinator.branch.commits.length then none
      else owed)

variable {coordinator later prepared : Coordinator} {move : Move} {phase : Phase}
  {response : Response} {occasion : Occasion} {owed : Option CommitHash} {hash head : CommitHash}
  {loaded : Bool} {data : CommitData} {rest : List CommitData}

/-! ## Footings -/

@[simp]
theorem footing_next (coordinator : Coordinator) :
    coordinator.next.1.footing = coordinator.footing := by
  obtain ⟨phase, updates, rejoinPending, hnext⟩ := exists_next_eq coordinator
  rw [hnext]
  rfl

@[simp]
theorem footing_refreshHead (coordinator : Coordinator) :
    coordinator.refreshHead.1.footing = coordinator.footing := by
  obtain ⟨phase, rejoinPending, hrefresh⟩ := exists_refreshHead_eq coordinator
  rw [hrefresh]
  rfl

@[simp]
theorem footing_releaseWorkers (coordinator : Coordinator) :
    coordinator.releaseWorkers.footing = coordinator.footing := by
  simp only [releaseWorkers]
  split_ifs with hrelease
  · rfl
  · rfl

@[simp]
theorem footing_refreshStatus (coordinator : Coordinator) :
    coordinator.refreshStatus.footing = coordinator.footing := by
  simp only [refreshStatus]
  split_ifs with hsame
  · rfl
  · rfl

@[simp]
theorem footing_finish (move : Move) : (finish move).1.footing = move.1.footing := by
  rw [finish, footing_refreshStatus, footing_releaseWorkers]

/-- What is loaded is the head of both, or what is queued stands beside it. -/
theorem holds_adopt (coordinator : Coordinator) (hash : CommitHash) :
    (coordinator.adopt hash).footing.Holds none := by
  by_cases hcommits : coordinator.branch.commits = []
  · have hadopted : (coordinator.adopt hash).footing =
        { localHead := hash, originHead := hash, commits := [], inSync := true } := by
      simp [adopt, footing, hcommits]
    exact .inl (hadopted ▸ rfl)
  · have hadopted : (coordinator.adopt hash).footing =
        { coordinator.footing with originHead := hash, inSync := false } := by
      simp [adopt, footing, hcommits]
    rw [hadopted]
    exact .inr ⟨rfl, hcommits⟩

/-- The commits behind the first one start from it. -/
theorem holds_confirm (hchain : ∃ base, Chain base coordinator.branch.commits
      coordinator.branch.localHead)
    (hfirst : coordinator.branch.commits.head?.map (·.hash) = some hash) :
    (coordinator.confirm hash).footing.Holds none := by
  obtain ⟨base, hchain⟩ := hchain
  obtain ⟨data, hdata, rfl⟩ := Option.map_eq_some_iff.mp hfirst
  rw [← List.cons_head?_tail hdata] at hchain
  exact .inl hchain.2

/-- A fork moves no head. -/
theorem Footing.Holds.fork (h : coordinator.footing.Holds owed)
    (hcommits : coordinator.branch.commits ≠ []) (hash : CommitHash) (head : Option CommitHash) :
    (coordinator.fork hash head).1.footing.Holds owed := by
  cases owed with
  | none => exact .inr ⟨rfl, hcommits⟩
  | some merge => exact h

theorem Footing.Holds.queueCommit (h : coordinator.footing.Holds owed)
    (hparent : data.commit.parent? = some coordinator.branch.localHead) :
    { coordinator with
      branch := { coordinator.branch.queueCommit data with localHead := data.hash }
    }.footing.Holds owed := by
  cases owed with
  | none =>
      refine h.imp (fun hchain => hchain.append hparent) fun hbeside => ⟨hbeside.1, ?_⟩
      exact List.append_ne_nil_of_right_ne_nil _ (List.cons_ne_nil _ _)
  | some merge => exact h

/-! ## Requests for merges -/

theorem merge?_work (coordinator : Coordinator) :
    coordinator.work.2.bind Request.merge? = none := by
  cases hcommits : coordinator.branch.commits with
  | cons data rest => rw [work_of_cons hcommits]; rfl
  | nil =>
      rw [work_of_nil hcommits]
      cases coordinator.due with
      | nil => rfl
      | cons data rest => rfl

theorem merge?_next (coordinator : Coordinator) :
    coordinator.next.2.bind Request.merge? = none := by
  unfold next
  split_ifs with hbusy hrejoin hhalt
  · rfl
  · rfl
  · rfl
  · exact merge?_work coordinator

theorem merge?_refreshHead (coordinator : Coordinator) :
    coordinator.refreshHead.2.bind Request.merge? = none := by
  unfold refreshHead
  split_ifs with hconnected
  · rfl
  · rfl

/-! ## What is owed behind a move -/

theorem owing_of_kept (hrequest : move.2.bind Request.merge? = none) (hloaded : loaded = false)
    (hcommits : ¬ move.1.branch.commits.length < coordinator.branch.commits.length) :
    coordinator.owing loaded owed move = owed := by
  simp [owing, hrequest, hloaded, hcommits]

theorem owing_of_cleared (hrequest : move.2.bind Request.merge? = none)
    (hcleared : loaded = true ∨
      move.1.branch.commits.length < coordinator.branch.commits.length) :
    coordinator.owing loaded owed move = none := by
  rw [owing, hrequest, if_pos hcleared, Option.none_or]

/-- What is owed behind a move accounts for the heads. -/
def Upholds (coordinator : Coordinator) (owed : Option CommitHash) (loaded : Bool) (move : Move) :
    Prop :=
  move.1.footing.Holds (coordinator.owing loaded owed move)

theorem upholds_of_kept (hrequest : move.2.bind Request.merge? = none)
    (hcommits : ¬ move.1.branch.commits.length < coordinator.branch.commits.length)
    (h : move.1.footing.Holds owed) : coordinator.Upholds owed false move := by
  rw [Upholds, owing_of_kept hrequest rfl hcommits]
  exact h

/-- A move that changes neither the heads nor the queue. -/
theorem upholds_of_same (h : coordinator.footing.Holds owed)
    (hrequest : move.2.bind Request.merge? = none)
    (hfooting : move.1.footing = coordinator.footing) : coordinator.Upholds owed false move := by
  have hcommits : move.1.branch.commits = coordinator.branch.commits :=
    congrArg Footing.commits hfooting
  exact upholds_of_kept hrequest (by simp [hcommits]) (hfooting ▸ h)

theorem upholds_of_cleared (hrequest : move.2.bind Request.merge? = none)
    (hcleared : loaded = true ∨
      move.1.branch.commits.length < coordinator.branch.commits.length)
    (h : move.1.footing.Holds none) : coordinator.Upholds owed loaded move := by
  rw [Upholds, owing_of_cleared hrequest hcleared]
  exact h

theorem upholds_next (h : coordinator.footing.Holds owed)
    (hprepared : prepared.footing = coordinator.footing) :
    coordinator.Upholds owed false prepared.next :=
  upholds_of_same h (merge?_next prepared) ((footing_next prepared).trans hprepared)

theorem upholds_finish (h : coordinator.Upholds owed loaded move) :
    coordinator.Upholds owed loaded (finish move) := by
  have howing : coordinator.owing loaded owed (finish move) =
      coordinator.owing loaded owed move := by
    rw [owing, owing, commits_finish]
    rfl
  rw [Upholds, howing, footing_finish]
  exact h

theorem length_tail_lt (hcommits : coordinator.branch.commits ≠ []) :
    coordinator.branch.commits.tail.length < coordinator.branch.commits.length := by
  have hpositive := List.length_pos_iff.mpr hcommits
  rw [List.length_tail]
  omega

theorem upholds_acknowledgeRejoined (hchain : ∃ base, Chain base coordinator.branch.commits
      coordinator.branch.localHead)
    (hcommits : coordinator.branch.commits = data :: rest) (head : CommitHash) :
    coordinator.Upholds owed false (coordinator.acknowledgeRejoined data.hash head) := by
  have hconfirmed : (coordinator.confirm data.hash).footing.Holds none :=
    holds_confirm hchain (by rw [hcommits]; rfl)
  have hfewer := length_tail_lt (hcommits ▸ List.cons_ne_nil data rest)
  refine upholds_of_cleared ?_ (.inr ?_) ?_
  · simp only [acknowledgeRejoined]
    split_ifs with hsettled
    · exact merge?_next _
    · rfl
  · rw [commits_acknowledgeRejoined]
    exact hfewer
  · simp only [acknowledgeRejoined]
    split_ifs with hsettled
    · rw [footing_next]
      exact hconfirmed
    · exact hconfirmed

/-- The queue that a fork leaves behind is emptied, and the head of the server is taken. -/
theorem upholds_leave (hcommits : coordinator.branch.commits ≠ []) (status : CommitStatus) :
    coordinator.Upholds owed loaded (coordinator.resetToOrigin status).refreshHead := by
  refine upholds_of_cleared (merge?_refreshHead _) (.inr ?_) ?_
  · rw [branch_refreshHead]
    exact List.length_pos_iff.mpr hcommits
  · rw [footing_refreshHead]
    exact .inl rfl

theorem upholds_storeNext (h : coordinator.footing.Holds owed)
    (hcommits : coordinator.branch.commits ≠ []) (resolution : ForkResolution) (stored : Nat) :
    coordinator.Upholds owed false (coordinator.storeNext resolution stored) := by
  unfold storeNext
  cases coordinator.branch.commits[stored]? with
  | some data => exact upholds_of_same h rfl rfl
  | none =>
      cases resolution with
      | fork name => exact upholds_of_same h rfl rfl
      | forcePush => exact upholds_of_same h rfl rfl
      | abandon => exact upholds_leave hcommits .canceled

theorem Course.Sequenced.commits_ne_nil_of_isForked (h : coordinator.course.Sequenced)
    (hforked : coordinator.isForked = true) : coordinator.branch.commits ≠ [] := by
  obtain ⟨hash, hhalt⟩ := halt_of_isForked hforked
  obtain ⟨data, hdata, -⟩ := Option.map_eq_some_iff.mp (h.forked hash hhalt)
  exact List.ne_nil_of_mem (List.mem_of_head? hdata)

theorem isLoaded_of_isFault (hfault : response.isFault) : response.isLoaded = false := by
  cases response with
  | delivered result =>
      cases result with
      | ok loaded => cases hfault
      | error error => rfl
  | _ => rfl

theorem Fails.isLoaded {error : SyncError} (h : Fails coordinator phase response error) :
    response.isLoaded = false := by
  cases h <;> rfl

/-- Whatever an answer leads to, what is owed accounts for the heads. -/
theorem Handled.upholds (h : Handled coordinator phase response move)
    (hholds : coordinator.footing.Holds owed) (hsequenced : coordinator.course.Sequenced)
    (hsuits : phase.suits coordinator.halt)
    (hpushing : ∀ hash, phase = .pushing hash →
      coordinator.branch.commits.head?.map (·.hash) = some hash)
    (hfinding : ∀ head, phase = .findingAncestor head → coordinator.branch.commits ≠ [])
    (hloading : response.isLoaded → ∃ reason hash, phase = .pulling reason hash) :
    coordinator.Upholds owed response.isLoaded move := by
  have hqueued {hash : CommitHash} (hphase : phase = .pushing hash) :
      coordinator.branch.commits ≠ [] := by
    obtain ⟨data, hdata, -⟩ := Option.map_eq_some_iff.mp (hpushing hash hphase)
    exact List.ne_nil_of_mem (List.mem_of_head? hdata)
  have hforked {resolution : ForkResolution} {stored : Nat}
      (hphase : phase = .resolving resolution stored) : coordinator.branch.commits ≠ [] :=
    hsequenced.commits_ne_nil_of_isForked (isForked_of_suits (hphase ▸ hsuits))
  cases h with
  | interrupted hfault =>
      rw [isLoaded_of_isFault hfault]
      exact upholds_next hholds rfl
  | failed hfails =>
      rw [hfails.isLoaded]
      exact upholds_of_same hholds rfl rfl
  | synced hhash hstatus =>
      refine upholds_of_cleared (merge?_next _) (.inr ?_) ?_
      · rw [commits_next]
        exact length_tail_lt (hqueued rfl)
      · rw [footing_next]
        exact holds_confirm hsequenced.chain (hpushing _ rfl)
  | merged hhash hstatus hmerge => rfl
  | forked hstatus =>
      refine upholds_of_kept rfl (lt_irrefl _) (hholds.fork (hqueued rfl) _ none)
  | canceled hstatus =>
      refine upholds_of_cleared (merge?_refreshHead _) (.inr ?_) ?_
      · rw [cancelQueue, branch_refreshHead]
        exact List.length_pos_iff.mpr (hqueued rfl)
      · rw [cancelQueue, footing_refreshHead]
        exact .inl rfl
  | loaded reason hash =>
      refine upholds_of_cleared (merge?_next _) (.inl rfl) ?_
      rw [footing_next]
      exact holds_adopt _ hash
  | listening hhalt => exact upholds_next hholds rfl
  | subscribed hhalt => exact upholds_of_same hholds rfl rfl
  | current hcommits => exact upholds_next hholds rfl
  | behind hcommits hhead => exact upholds_of_same hholds rfl rfl
  | landed hcommits => exact upholds_acknowledgeRejoined hsequenced.chain hcommits _
  | searching hcommits hhead => exact upholds_of_same hholds rfl rfl
  | emptied hcommits => exact absurd hcommits (hfinding _ rfl)
  | recognised hcommits => exact upholds_acknowledgeRejoined hsequenced.chain hcommits _
  | diverged hcommits hother =>
      refine upholds_of_kept rfl (lt_irrefl _) (hholds.fork (hfinding _ rfl) _ _)
  | unknown hcommits => exact upholds_of_same hholds rfl rfl
  | stored resolution count result => exact upholds_storeNext hholds (hforked rfl) resolution _
  | refused resolution count error =>
      have hother : response.isLoaded = false := eq_false_of_ne_true fun hloaded => by
        obtain ⟨reason, hash, hpulling⟩ := hloading hloaded
        cases hpulling
      rw [hother]
      exact upholds_next hholds rfl
  | branchCreated name count =>
      let created := coordinator.emit (.forkCreated name coordinator.branch.localHead)
      have hcreated : created.branch.commits ≠ [] := hforked rfl
      exact upholds_leave hcreated .forked
  | forced count hstatus =>
      refine upholds_of_cleared (merge?_next _) (.inr ?_) ?_
      · rw [commits_next]
        exact List.length_pos_iff.mpr (hforked rfl)
      · rw [footing_next]
        exact .inl rfl
  | unforced count hstatus => exact upholds_next hholds rfl

/-- Nor does anything that a coordinator is told lead to heads that are not accounted for. -/
theorem upholds_react (hholds : coordinator.footing.Holds owed)
    (hsequenced : coordinator.course.Sequenced) (hreact : coordinator.react occasion = some move) :
    coordinator.Upholds owed false move := by
  cases reacted_of_react hreact with
  | @committed data hparent =>
      let queued : Coordinator := { coordinator with
        branch := { coordinator.branch.queueCommit data with localHead := data.hash } }
      refine upholds_finish (upholds_of_kept (merge?_next queued) ?_ ?_)
      · rw [commits_next]
        simp [Branch.queueCommit]
      · rw [footing_next]
        exact hholds.queueCommit hparent
  | known hknown => exact upholds_of_same hholds rfl rfl
  | announced hunknown => exact upholds_finish (upholds_next hholds rfl)
  | connected => exact upholds_finish (upholds_next hholds rfl)
  | reconnected => exact upholds_finish (upholds_next hholds rfl)
  | disconnected hstate => exact upholds_finish (upholds_of_same hholds rfl rfl)
  | @resolved resolution hforked hphase =>
      have hcommits := hsequenced.commits_ne_nil_of_isForked hforked
      apply upholds_finish
      cases resolution with
      | abandon => exact upholds_leave hcommits .canceled
      | fork name => exact upholds_storeNext hholds hcommits _ 0
      | forcePush => exact upholds_storeNext hholds hcommits _ 0
  | unfailed hhalt => exact upholds_of_same hholds rfl rfl
  | refreshed hhalt hphase hcommits =>
      let going : Coordinator := { coordinator with halt := none }
      exact upholds_finish
        (upholds_of_same hholds (merge?_refreshHead going) (footing_refreshHead going))
  | resumed hhalt => exact upholds_finish (upholds_next hholds rfl)
  | queued number => exact upholds_of_same hholds rfl (footing_releaseWorkers _)

/-! ## The status -/

theorem currentStatus_congr (hfooting : later.footing = coordinator.footing)
    (hphase : later.phase = coordinator.phase) (hhalt : later.halt = coordinator.halt) :
    later.currentStatus = coordinator.currentStatus := by
  have hcommits : later.branch.commits = coordinator.branch.commits :=
    congrArg Footing.commits hfooting
  have hinSync : later.branch.inSync = coordinator.branch.inSync :=
    congrArg Footing.inSync hfooting
  simp only [currentStatus, hcommits, hinSync, hphase, hhalt]

/-- The status is up to date. -/
def Told (coordinator : Coordinator) : Prop :=
  coordinator.branch.status = coordinator.currentStatus

theorem told_finish (move : Move) : (finish move).1.Told := by
  change move.1.releaseWorkers.refreshStatus.Told
  simp only [Told, refreshStatus]
  split_ifs with hsame
  · exact hsame
  · rfl

theorem Told.react (h : coordinator.Told) (hreact : coordinator.react occasion = some move) :
    move.1.Told := by
  cases reacted_of_react hreact with
  | known hknown => exact h
  | unfailed hhalt => exact h
  | queued number =>
      have hcourse := course_queueWorker coordinator number
      have hstatus : (coordinator.queueWorker number).branch.status = coordinator.branch.status := by
        simp only [queueWorker, releaseWorkers]
        split_ifs with hrelease
        · rfl
        · rfl
      exact (hstatus.trans h).trans (currentStatus_congr (footing_releaseWorkers _)
        (congrArg Course.phase hcourse) (congrArg Course.halt hcourse)).symm
  | _ => exact told_finish _

theorem commits_of_sync (h : coordinator.currentStatus = .sync) :
    coordinator.branch.commits = [] := by
  unfold currentStatus at h
  split at h
  · cases h
  · cases h
  · split_ifs at h with hcommits
    exact List.isEmpty_iff.mp hcommits

theorem commits_of_aheadSync (h : coordinator.currentStatus = .aheadSync) :
    coordinator.branch.commits ≠ [] ∧ coordinator.branch.inSync = true := by
  unfold currentStatus at h
  split at h
  · cases h
  · cases h
  · split_ifs at h with hcommits hinSync
    exact ⟨fun hnil => hcommits (List.isEmpty_iff.mpr hnil), hinSync⟩

/-- With an empty queue the heads agree, unless another head is owed. -/
theorem Footing.Holds.heads_iff (h : coordinator.footing.Holds owed)
    (hcommits : coordinator.branch.commits = []) :
    coordinator.branch.localHead = coordinator.branch.originHead ↔
      owed = none ∨ owed = some coordinator.branch.localHead := by
  cases owed with
  | none =>
      refine iff_of_true ?_ (.inl rfl)
      rcases h with hchain | ⟨-, hqueued⟩
      · rw [show coordinator.footing.commits = [] from hcommits] at hchain
        exact hchain
      · exact absurd hcommits hqueued
  | some merge =>
      have horigin : coordinator.branch.originHead = merge := h
      rw [horigin, Option.some_inj, or_iff_right (Option.some_ne_none merge)]
      exact eq_comm

/-- A queue that counts as in sync starts from the head of the server, unless another head is
owed. -/
theorem Footing.Holds.parent_iff (h : coordinator.footing.Holds owed)
    (hcommits : coordinator.branch.commits = data :: rest)
    (hinSync : coordinator.branch.inSync = true) :
    data.commit.parent? = some coordinator.branch.originHead ↔
      owed = none ∨ owed = data.commit.parent? := by
  cases owed with
  | none =>
      refine iff_of_true ?_ (.inl rfl)
      rcases h with hchain | ⟨hbeside, -⟩
      · rw [show coordinator.footing.commits = data :: rest from hcommits] at hchain
        exact hchain.1
      · cases hbeside.symm.trans hinSync
  | some merge =>
      have horigin : coordinator.branch.originHead = merge := h
      rw [horigin, or_iff_right (Option.some_ne_none merge)]
      exact eq_comm

/-! ## Those who wait -/

/-- Nothing is queued and no merge is being loaded, so that whoever waits may run. -/
structure Calm (coordinator : Coordinator) : Prop where
  commits : coordinator.branch.commits = []
  phase : coordinator.phase.isMerging = false

theorem Calm.of_course (h : coordinator.Calm) (hcourse : later.course = coordinator.course) :
    later.Calm where
  commits := (congrArg Course.commits hcourse).trans h.commits
  phase := (congrArg (·.phase.isMerging) hcourse).trans h.phase

/-- What was told in between releases no one. -/
def WithoutRelease (coordinator later : Coordinator) : Prop :=
  ∃ added, later.events = coordinator.events ++ added ∧ added.any SyncEvent.isRelease = false

theorem WithoutRelease.of_same (hevents : later.events = coordinator.events) :
    coordinator.WithoutRelease later :=
  ⟨[], by rw [hevents, List.append_nil], rfl⟩

theorem withoutRelease_storeNext (coordinator : Coordinator) (resolution : ForkResolution)
    (stored : Nat) : coordinator.WithoutRelease (coordinator.storeNext resolution stored).1 := by
  unfold storeNext
  cases coordinator.branch.commits[stored]? with
  | some data => exact .of_same rfl
  | none =>
      cases resolution with
      | fork name => exact .of_same rfl
      | forcePush => exact .of_same rfl
      | abandon =>
          exact ⟨_, (events_refreshHead _).trans (events_settleQueue coordinator .canceled),
            by simp [SyncEvent.isRelease]⟩

theorem withoutRelease_resolution (coordinator : Coordinator) (resolution : ForkResolution) :
    coordinator.WithoutRelease (coordinator.resolution resolution).1 := by
  cases resolution with
  | abandon =>
      exact ⟨_, (events_refreshHead _).trans (events_settleQueue coordinator .canceled),
        by simp [SyncEvent.isRelease]⟩
  | fork name => exact withoutRelease_storeNext coordinator _ 0
  | forcePush => exact withoutRelease_storeNext coordinator _ 0

/-- Only at the end of an input is anyone released. -/
theorem Handled.withoutRelease (h : Handled coordinator phase response move) :
    coordinator.WithoutRelease move.1 := by
  have hnext {prepared : Coordinator} {added : List SyncEvent}
      (hevents : prepared.events = coordinator.events ++ added)
      (hadded : added.any SyncEvent.isRelease = false) :
      coordinator.WithoutRelease prepared.next.1 :=
    ⟨added, (events_next prepared).trans hevents, hadded⟩
  cases h with
  | interrupted hfault => exact .of_same (events_interrupted coordinator)
  | failed hfails => exact ⟨_, events_fail .., by simp [SyncEvent.isRelease]⟩
  | synced hhash hstatus => exact hnext (events_confirm ..) (by simp [SyncEvent.isRelease])
  | @merged hash merge result hhash hstatus hmerge =>
      exact ⟨[.settled hash .merged], rfl, by simp [SyncEvent.isRelease]⟩
  | forked hstatus =>
      exact ⟨_, (events_fork ..).trans (List.append_assoc ..), by simp [SyncEvent.isRelease]⟩
  | canceled hstatus =>
      exact ⟨_, (events_cancelQueue coordinator).trans (List.append_assoc ..),
        by simp [SyncEvent.isRelease]⟩
  | loaded reason hash =>
      exact .of_same ((events_next _).trans (events_unload coordinator reason))
  | listening hhalt => exact .of_same (events_next _)
  | subscribed hhalt => exact .of_same rfl
  | current hcommits => exact .of_same (events_next _)
  | behind hcommits hhead => exact .of_same rfl
  | landed hcommits =>
      exact ⟨_, events_acknowledgeRejoined .., by simp [SyncEvent.isRelease]⟩
  | searching hcommits hhead => exact .of_same rfl
  | emptied hcommits => exact .of_same (events_next _)
  | recognised hcommits =>
      exact ⟨_, events_acknowledgeRejoined .., by simp [SyncEvent.isRelease]⟩
  | diverged hcommits hother =>
      exact ⟨_, (events_fork ..).trans (List.append_assoc ..), by simp [SyncEvent.isRelease]⟩
  | unknown hcommits => exact .of_same rfl
  | stored resolution count result => exact withoutRelease_storeNext coordinator resolution _
  | refused resolution count error =>
      exact ⟨_, events_resolutionFailed .., by simp [SyncEvent.isRelease]⟩
  | branchCreated name count =>
      exact ⟨_, (events_onBranchCreated ..).trans (List.append_assoc ..),
        by simp [SyncEvent.isRelease]⟩
  | forced count hstatus =>
      exact hnext (events_takeForced coordinator) (by simp [SyncEvent.isRelease])
  | unforced count hstatus =>
      exact ⟨_, events_resolutionFailed .., by simp [SyncEvent.isRelease]⟩

/-- Those who wait are released on the local head, once nothing is queued and no merge is being
loaded. -/
theorem released_releaseWorkers {requests : List Nat} {events : List SyncEvent}
    (hevents : coordinator.releaseWorkers.events = coordinator.events ++ events)
    (hmem : .workersReleased requests hash ∈ events) :
    hash = coordinator.branch.localHead ∧ coordinator.Calm := by
  simp only [releaseWorkers] at hevents
  split_ifs at hevents with hrelease
  · obtain rfl := List.append_cancel_left hevents
    obtain ⟨-, rfl⟩ := SyncEvent.workersReleased.inj (List.mem_singleton.mp hmem)
    exact ⟨rfl, List.isEmpty_iff.mp hrelease.1, hrelease.2.1⟩
  · obtain rfl := List.append_right_eq_self.mp hevents.symm
    cases hmem

/-- Whoever is released at the end of an input is released on the local head. -/
theorem released_finish {requests : List Nat} (hwithout : coordinator.WithoutRelease move.1)
    (hmem : .workersReleased requests hash ∈ coordinator.news (finish move).1) :
    hash = (finish move).1.branch.localHead ∧ (finish move).1.Calm := by
  obtain ⟨added, hadded, hnone⟩ := hwithout
  obtain ⟨released, hreleased, -⟩ := exists_events_releaseWorkers move.1
  have hrefreshed : ∃ remarks, (finish move).1.events = move.1.events ++ released ++ remarks ∧
      remarks.any SyncEvent.isRelease = false := by
    rw [← hreleased]
    simp only [finish, refreshStatus]
    split_ifs with hsame
    · exact ⟨[], (List.append_nil _).symm, rfl⟩
    · exact ⟨[_], rfl, rfl⟩
  obtain ⟨remarks, hremarks, hlast⟩ := hrefreshed
  rw [news, hremarks, hadded, List.append_assoc, List.append_assoc, List.drop_left] at hmem
  have hfooting := footing_finish move
  have hlocal : (finish move).1.branch.localHead = move.1.branch.localHead :=
    congrArg Footing.localHead hfooting
  rw [hlocal]
  rcases List.mem_append.mp hmem with hmem | hmem
  · exact absurd rfl (List.any_eq_false.mp hnone _ hmem)
  · rcases List.mem_append.mp hmem with hmem | hmem
    · obtain ⟨hhead, hcalm⟩ := released_releaseWorkers hreleased hmem
      exact ⟨hhead, hcalm.of_course (course_finish move)⟩
    · exact absurd rfl (List.any_eq_false.mp hlast _ hmem)

theorem released_react {requests : List Nat} (hreact : coordinator.react occasion = some move)
    (hmem : .workersReleased requests hash ∈ coordinator.news move.1) :
    hash = move.1.branch.localHead ∧ move.1.Calm := by
  have hsame {prepared : Move} (hevents : prepared.1.events = coordinator.events)
      (hmem : .workersReleased requests hash ∈ coordinator.news (finish prepared).1) :
      hash = (finish prepared).1.branch.localHead ∧ (finish prepared).1.Calm :=
    released_finish (.of_same hevents) hmem
  have hnothing : .workersReleased requests hash ∉ coordinator.news coordinator := by
    simp [news]
  cases reacted_of_react hreact with
  | committed hparent => exact hsame (events_next _) hmem
  | known hknown => exact absurd hmem hnothing
  | announced hunknown => exact hsame (events_next _) hmem
  | connected => exact hsame (events_next _) hmem
  | reconnected => exact hsame (events_next _) hmem
  | disconnected hstate => exact hsame rfl hmem
  | resolved hforked hphase => exact released_finish (withoutRelease_resolution coordinator _) hmem
  | unfailed hhalt => exact absurd hmem hnothing
  | refreshed hhalt hphase hcommits => exact hsame (events_refreshHead _) hmem
  | resumed hhalt => exact hsame (events_next _) hmem
  | queued number =>
      let waiting : Coordinator :=
        { coordinator with branch := coordinator.branch.queueWorker number }
      obtain ⟨released, hreleased, -⟩ := exists_events_releaseWorkers waiting
      have hcourse : (coordinator.queueWorker number).course = waiting.course :=
        course_releaseWorkers waiting
      have hnews : coordinator.news (coordinator.queueWorker number) = released := by
        rw [news, queueWorker, hreleased]
        exact List.drop_left
      obtain ⟨hhead, hcalm⟩ := released_releaseWorkers hreleased (hnews ▸ hmem)
      exact ⟨hhead.trans (congrArg Course.localHead hcourse).symm, hcalm.of_course hcourse⟩

end Coordinator

/-! ## Dialogues -/

namespace Dialogue

/-- The input tells that a commit was loaded. -/
def Input.isLoaded : Input → Bool
  | .told _ => false
  | .answer response => response.isLoaded

/-- The merge that is owed behind an input. -/
def owes (dialogue : Dialogue) (owed : Option CommitHash) (input : Input) : Option CommitHash :=
  match dialogue.move? input with
  | none => owed
  | some move => dialogue.coordinator.owing input.isLoaded owed move

/-- The merge that is owed at the end of a run. -/
def owed (dialogue : Dialogue) (before : Option CommitHash) : List Input → Option CommitHash
  | [] => before
  | input :: rest => (dialogue.step input).owed (dialogue.owes before input) rest

variable {dialogue : Dialogue} {before : Option CommitHash} {input : Input}

theorem owed_append (dialogue : Dialogue) (before : Option CommitHash) (inputs : List Input)
    (input : Input) :
    dialogue.owed before (inputs ++ [input]) =
      (dialogue.run inputs).owes (dialogue.owed before inputs) input := by
  induction inputs generalizing dialogue before with
  | nil => rfl
  | cons first rest ih => exact ih (dialogue.step first) (dialogue.owes before first)

/-- A dialogue in which this merge is owed: what is owed accounts for the heads, and the status is
up to date. -/
structure Owing (dialogue : Dialogue) (before : Option CommitHash) : Prop where
  attentive : dialogue.Attentive
  sequenced : dialogue.coordinator.course.Sequenced
  holds : dialogue.coordinator.footing.Holds before
  told : dialogue.coordinator.Told

theorem owing_start (project : ProjectId) (branch : BranchName) (head : CommitHash) :
    (start project branch head).Owing none where
  attentive := attentive_start project branch head
  sequenced := sequenced_start project branch head
  holds := .inl rfl
  told := rfl

/-- An answer that tells of a load is only taken while one is under way. -/
theorem Attentive.loading {request : Request} {response : Response}
    (hawaits : Awaits dialogue.coordinator.course (some request))
    (hanswers : response.answers request) (hloaded : response.isLoaded) :
    ∃ reason hash, dialogue.coordinator.phase = .pulling reason hash := by
  cases response with
  | delivered result =>
      cases request with
      | deliver hash data reason => exact ⟨reason, hash, hawaits.deliver⟩
      | _ => cases hanswers
  | _ => cases hloaded

theorem Owing.step (h : dialogue.Owing before) (input : Input) :
    (dialogue.step input).Owing (dialogue.owes before input) where
  attentive := h.attentive.step input
  sequenced := h.attentive.sequenced_step h.sequenced input
  holds := by
    rw [owes]
    cases hmove : dialogue.move? input with
    | none => exact (step_of_none hmove).symm ▸ h.holds
    | some move =>
        rw [step_of_some hmove]
        cases input with
        | told occasion => exact upholds_react h.holds h.sequenced hmove
        | answer response =>
            obtain ⟨request, handled, -, hanswers, hawaits, hhandled, rfl⟩ :=
              h.attentive.handled hmove
            have hrested : dialogue.coordinator.rested.course.Sequenced :=
              { h.sequenced with suits := rfl }
            exact upholds_finish (hhandled.upholds h.holds hrested h.sequenced.suits
              (fun hash hphase => hawaits.first_of_pushing hphase)
              (fun head hphase => hawaits.queued_of_finding hphase)
              (Attentive.loading hawaits hanswers))
  told := by
    cases hmove : dialogue.move? input with
    | none => exact (step_of_none hmove).symm ▸ h.told
    | some move =>
        rw [step_of_some hmove]
        cases input with
        | told occasion => exact h.told.react hmove
        | answer response =>
            obtain ⟨request, handled, -, -, -, -, rfl⟩ := h.attentive.handled hmove
            exact told_finish handled

theorem Owing.run (h : dialogue.Owing before) (inputs : List Input) :
    (dialogue.run inputs).Owing (dialogue.owed before inputs) := by
  induction inputs generalizing dialogue before with
  | nil => exact h
  | cons input rest ih => exact ih (h.step input)

/-- Whoever is released by an input is released on the local head, with nothing in the way. -/
theorem Attentive.released_calm {requests : List Nat} {hash : CommitHash} (h : dialogue.Attentive)
    (hmem : .workersReleased requests hash ∈
      dialogue.coordinator.news (dialogue.step input).coordinator) :
    hash = (dialogue.step input).coordinator.branch.localHead ∧
      (dialogue.step input).coordinator.Calm := by
  cases hmove : dialogue.move? input with
  | none =>
      rw [step_of_none hmove] at hmem
      simp [news] at hmem
  | some move =>
      rw [step_of_some hmove] at hmem ⊢
      cases input with
      | told occasion => exact released_react hmove hmem
      | answer response =>
          obtain ⟨request, handled, -, -, -, hhandled, rfl⟩ := h.handled hmove
          exact released_finish hhandled.withoutRelease hmem

theorem Attentive.released {requests : List Nat} {hash : CommitHash} (h : dialogue.Attentive)
    (hmem : .workersReleased requests hash ∈
      dialogue.coordinator.news (dialogue.step input).coordinator) :
    hash = (dialogue.step input).coordinator.branch.localHead ∧
      (dialogue.step input).coordinator.branch.commits = [] :=
  (h.released_calm hmem).imp_right Calm.commits

/-- The status and the releases are true of the heads exactly as long as no merge is owed that is
another head.  A branch in sync has an empty queue, and then its heads agree; a branch that is ahead
in sync has a queue, and then this starts from the head of the server; and whoever is released is
released on the head of the server. -/
theorem run_status_true_iff (project : ProjectId) (branch : BranchName) (head : CommitHash)
    (inputs : List Input) :
    let dialogue := start project branch head
    let reached := (dialogue.run inputs).coordinator
    let owed := dialogue.owed none inputs
    (reached.branch.status = .sync →
      reached.branch.commits = [] ∧
        (reached.branch.localHead = reached.branch.originHead ↔
          owed = none ∨ owed = some reached.branch.localHead)) ∧
      (reached.branch.status = .aheadSync → ∃ first rest,
        reached.branch.commits = first :: rest ∧
          (first.commit.parent? = some reached.branch.originHead ↔
            owed = none ∨ owed = first.commit.parent?)) ∧
      ∀ input requests released,
        let after := ((dialogue.run inputs).step input).coordinator
        let owedAfter := dialogue.owed none (inputs ++ [input])
        .workersReleased requests released ∈ reached.news after →
          (released = after.branch.originHead ↔
            owedAfter = none ∨ owedAfter = some released) := by
  intro dialogue reached owed
  have hreached : (dialogue.run inputs).Owing owed :=
    (owing_start project branch head).run inputs
  refine ⟨fun hsync => ?_, fun hahead => ?_, ?_⟩
  · have hcommits := commits_of_sync (hreached.told.symm.trans hsync)
    exact ⟨hcommits, hreached.holds.heads_iff hcommits⟩
  · obtain ⟨hqueued, hinSync⟩ := commits_of_aheadSync (hreached.told.symm.trans hahead)
    obtain ⟨first, rest, hcommits⟩ := List.exists_cons_of_ne_nil hqueued
    exact ⟨first, rest, hcommits, hreached.holds.parent_iff hcommits hinSync⟩
  · intro input requests released after owedAfter hmem
    obtain ⟨rfl, hcommits⟩ := hreached.attentive.released hmem
    have hafter : ((dialogue.run inputs).step input).Owing owedAfter := by
      rw [show owedAfter = _ from owed_append dialogue none inputs input]
      exact hreached.step input
    exact hafter.holds.heads_iff hcommits

/-- A commit is made while someone waits, and the server merges it. -/
def mergePulled : List Input :=
  [.told (.commit (commitOn "#1" "#0")), .told (.worker 7),
    .answer (.pushed (.ok (.merged "#1" "#m")))]

/-- The merge is being loaded. -/
def mergeAwaited : Dialogue := (start "p" "b" "#0").run mergePulled

/-- The merge is not loaded in time. -/
def mergeMissed : Input := .answer (.delivered (.error (.remote .timeout)))

/-- The branch counts as in sync, and whoever waited is released on the local head, though the head
of the server is the merge. -/
theorem run_status_true_iff_missed :
    let missed := (mergeAwaited.step mergeMissed).coordinator
    missed.branch.status = .sync ∧ missed.branch.localHead ≠ missed.branch.originHead ∧
      .workersReleased [7] "#1" ∈ mergeAwaited.coordinator.news missed ∧
      "#1" ≠ missed.branch.originHead := by
  have hrun : mergeAwaited.step mergeMissed =
      (start "p" "b" "#0").run (mergePulled ++ [mergeMissed]) :=
    step_run ..
  have hsync : (mergeAwaited.step mergeMissed).coordinator.branch.status = .sync := by
    cbv
  have hlocal : (mergeAwaited.step mergeMissed).coordinator.branch.localHead = "#1" := by
    cbv
  have hnews : mergeAwaited.coordinator.news (mergeAwaited.step mergeMissed).coordinator =
      [.workersReleased [7] "#1", .status .sync] := by
    cbv
  have howed : (start "p" "b" "#0").owed none (mergePulled ++ [mergeMissed]) = some "#m" := by
    cbv
  have hreleased : .workersReleased [7] "#1" ∈
      mergeAwaited.coordinator.news (mergeAwaited.step mergeMissed).coordinator :=
    hnews ▸ List.mem_cons_self
  have hother : ¬ ((some "#m" : Option CommitHash) = none ∨ some "#m" = some "#1") := by
    decide
  obtain ⟨hheads, -, -⟩ := run_status_true_iff "p" "b" "#0" (mergePulled ++ [mergeMissed])
  obtain ⟨-, -, hreleases⟩ := run_status_true_iff "p" "b" "#0" mergePulled
  have hfalse := hreleases mergeMissed [7] "#1" hreleased
  rw [← hrun, howed] at hheads
  rw [howed] at hfalse
  refine ⟨hsync, fun hsame => hother ?_, hreleased, fun hsame => hother (hfalse.mp hsame)⟩
  exact hlocal ▸ (hheads hsync).2.mp hsame

end Dialogue

end Coauthor
