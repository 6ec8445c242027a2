import Coauthor.Proofs.Branch.Dialogue

/-!
# How commits are settled

A coordinator only ever adds to its events, and only an answer or a resolution settles a
commit.  Which commit an answer settles, and how, can be read off the answer and the phase that
waited for it.
-/

namespace Coauthor

/-- Remarks on the status of the branch and on those who wait; every input may end with them. -/
def SyncEvent.isRemark : SyncEvent → Bool
  | .status _ | .workersReleased .. => true
  | _ => false

namespace Coordinator

variable {coordinator : Coordinator} {phase : Phase} {response : Response} {move : Move}
  {occasion : Occasion} {hash : CommitHash} {status : CommitStatus}

/-! ## What is told -/

theorem exists_events_releaseWorkers (coordinator : Coordinator) :
    ∃ remarks, coordinator.releaseWorkers.events = coordinator.events ++ remarks ∧
      remarks.all SyncEvent.isRemark := by
  simp only [releaseWorkers]
  split_ifs with hrelease
  · exact ⟨[_], rfl, rfl⟩
  · exact ⟨[], (List.append_nil _).symm, rfl⟩

theorem exists_events_refreshStatus (coordinator : Coordinator) :
    ∃ remarks, coordinator.refreshStatus.events = coordinator.events ++ remarks ∧
      remarks.all SyncEvent.isRemark := by
  simp only [refreshStatus]
  split_ifs with hsame
  · exact ⟨[], (List.append_nil _).symm, rfl⟩
  · exact ⟨[_], rfl, rfl⟩

/-- Every input ends with remarks alone. -/
theorem exists_events_finish (move : Move) :
    ∃ remarks, (finish move).1.events = move.1.events ++ remarks ∧
      remarks.all SyncEvent.isRemark := by
  obtain ⟨released, hreleased, hfirst⟩ := exists_events_releaseWorkers move.1
  obtain ⟨refreshed, hrefreshed, hsecond⟩ := exists_events_refreshStatus move.1.releaseWorkers
  refine ⟨released ++ refreshed, ?_, ?_⟩
  · rw [finish, hrefreshed, hreleased, List.append_assoc]
  · rw [List.all_append, hfirst, hsecond, Bool.and_self]

/-- What is told before the remarks is told by the move itself. -/
theorem mem_events_finish {event : SyncEvent} (hevent : event.isRemark = false) :
    event ∈ (finish move).1.events ↔ event ∈ move.1.events := by
  obtain ⟨remarks, hremarks, hall⟩ := exists_events_finish move
  have hother : event ∉ remarks := fun hmem => by
    have hremark := List.all_eq_true.mp hall event hmem
    rw [hevent] at hremark
    cases hremark
  rw [hremarks, List.mem_append, or_iff_left hother]

/-- What was told in between. -/
def news (before after : Coordinator) : List SyncEvent :=
  after.events.drop before.events.length

/-- What an input tells, but for the remarks. -/
theorem mem_news_finish {event : SyncEvent} {added : List SyncEvent}
    (hadded : move.1.events = coordinator.events ++ added) (hevent : event.isRemark = false) :
    event ∈ coordinator.news (finish move).1 ↔ event ∈ added := by
  obtain ⟨remarks, hremarks, hall⟩ := exists_events_finish move
  have hnews : coordinator.news (finish move).1 = added ++ remarks := by
    rw [news, hremarks, hadded, List.append_assoc, List.drop_left]
  have hother : event ∉ remarks := fun hmem => by
    have hremark := List.all_eq_true.mp hall event hmem
    rw [hevent] at hremark
    cases hremark
  rw [hnews, List.mem_append, or_iff_left hother]

@[simp]
theorem events_next (coordinator : Coordinator) :
    coordinator.next.1.events = coordinator.events := by
  obtain ⟨phase, updates, rejoinPending, hnext⟩ := exists_next_eq coordinator
  rw [hnext]

@[simp]
theorem events_refreshHead (coordinator : Coordinator) :
    coordinator.refreshHead.1.events = coordinator.events := by
  obtain ⟨phase, rejoinPending, hrefresh⟩ := exists_refreshHead_eq coordinator
  rw [hrefresh]

@[simp]
theorem events_interrupted (coordinator : Coordinator) :
    coordinator.interrupted.1.events = coordinator.events :=
  events_next _

@[simp]
theorem events_fail (coordinator : Coordinator) (error : SyncError) :
    (coordinator.fail error).1.events = coordinator.events ++ [.failed error] :=
  rfl

@[simp]
theorem events_confirm (coordinator : Coordinator) (hash : CommitHash) :
    (coordinator.confirm hash).events = coordinator.events ++ [.settled hash .synced] :=
  rfl

@[simp]
theorem events_fork (coordinator : Coordinator) (hash : CommitHash) (head : Option CommitHash) :
    (coordinator.fork hash head).1.events = coordinator.events ++ [.settled hash .forked] ++
      [.forked coordinator.branch.localHead (head.getD coordinator.branch.originHead)] :=
  rfl

@[simp]
theorem events_cancelQueue (coordinator : Coordinator) :
    coordinator.cancelQueue.1.events = coordinator.events ++
      (coordinator.branch.commits.map (·.hash)).map (.settled · .canceled) ++
      [.canceled (coordinator.branch.commits.map (·.hash))] :=
  events_refreshHead _

@[simp]
theorem events_settleQueue (coordinator : Coordinator) (status : CommitStatus) :
    (coordinator.settleQueue status).events =
      coordinator.events ++ coordinator.unsettled.map (.settled · status) :=
  rfl

@[simp]
theorem events_unload (coordinator : Coordinator) (reason : LoadReason) :
    (coordinator.unload reason).events = coordinator.events := by
  unfold unload
  split_ifs with hupdate
  · rfl
  · rfl

@[simp]
theorem events_acknowledgeRejoined (coordinator : Coordinator) (queued head : CommitHash) :
    (coordinator.acknowledgeRejoined queued head).1.events =
      coordinator.events ++ [.settled queued .synced] := by
  simp only [acknowledgeRejoined]
  split_ifs with hsettled
  · exact events_next _
  · rfl

@[simp]
theorem events_resolutionFailed (coordinator : Coordinator) (error : SyncError) :
    (coordinator.resolutionFailed error).1.events = coordinator.events ++ [.failed error] :=
  events_next _

@[simp]
theorem events_onBranchCreated (coordinator : Coordinator) (name : BranchName) :
    (coordinator.onBranchCreated name).1.events =
      coordinator.events ++ [.forkCreated name coordinator.branch.localHead] ++
        coordinator.unsettled.map (.settled · .forked) :=
  events_refreshHead _

@[simp]
theorem events_takeForced (coordinator : Coordinator) :
    coordinator.takeForced.events =
      coordinator.events ++ coordinator.unsettled.map (.settled · .synced) :=
  rfl

/-- Nothing is told while a resolution goes on, unless it drops the queue. -/
theorem settled_of_storeNext {resolution : ForkResolution} {count : Nat}
    (hsettled : .settled hash status ∈ (coordinator.storeNext resolution count).1.events) :
    .settled hash status ∈ coordinator.events ∨
      (resolution = .abandon ∧ status = .canceled) := by
  unfold storeNext at hsettled
  cases hcommits : coordinator.branch.commits[count]? with
  | some data =>
      rw [hcommits] at hsettled
      exact .inl hsettled
  | none =>
      rw [hcommits] at hsettled
      cases resolution with
      | fork name => exact .inl hsettled
      | forcePush => exact .inl hsettled
      | abandon =>
          have habandoned : .settled hash status ∈
              coordinator.events ++ coordinator.unsettled.map (.settled · .canceled) := by
            simpa [resetToOrigin, followOrigin] using hsettled
          refine (List.mem_append.mp habandoned).imp_right fun hmem => ⟨rfl, ?_⟩
          obtain ⟨dropped, -, hsame⟩ := List.mem_map.mp hmem
          exact (SyncEvent.settled.inj hsame).2.symm

/-! ## What is settled -/

/-- Which commits an answer settles in the phase that waits for it. -/
inductive Settles (coordinator : Coordinator) :
    Phase → Response → CommitHash → CommitStatus → Prop where
  | pushed {pushed : CommitHash} {response : CommitResponse} {status : CommitStatus}
      (hstatus : response.status? = some status)
      (hhash : status ≠ .forked → response.hash = pushed) :
      Settles coordinator (.pushing pushed) (.pushed (.ok response)) pushed status
  | canceled {pushed : CommitHash} {response : CommitResponse} {data : CommitData}
      (hstatus : response.status? = some .canceled) (hmem : data ∈ coordinator.branch.commits) :
      Settles coordinator (.pushing pushed) (.pushed (.ok response)) data.hash .canceled
  /-- The first queued commit is the head of the server. -/
  | landed {queued : CommitData} {rest : List CommitData}
      (hcommits : coordinator.branch.commits = queued :: rest) :
      Settles coordinator .fetchingHead (.head (.ok (some queued.hash))) queued.hash .synced
  | recognised {queued : CommitData} {rest : List CommitData} {head : CommitHash}
      (hcommits : coordinator.branch.commits = queued :: rest) :
      Settles coordinator (.findingAncestor head) (.ancestor (.ok queued.hash)) queued.hash .synced
  | diverged {queued : CommitData} {rest : List CommitData} {head ancestor : CommitHash}
      (hcommits : coordinator.branch.commits = queued :: rest) (hother : ancestor ≠ queued.hash) :
      Settles coordinator (.findingAncestor head) (.ancestor (.ok ancestor)) queued.hash .forked
  | abandoned {count : Nat} {result : CommitResponse} {dropped : CommitHash} :
      Settles coordinator (.resolving .abandon count) (.stored (.ok result)) dropped .canceled
  | resolved {name : BranchName} {count : Nat} {kept : CommitHash}
      (hmem : kept ∈ coordinator.unsettled) :
      Settles coordinator (.resolving (.fork name) count) (.branchCreated (.ok ())) kept .forked
  | forced {count : Nat} {result : CommitResponse} {kept : CommitHash}
      (hstatus : result.status? = some .synced) (hmem : kept ∈ coordinator.unsettled) :
      Settles coordinator (.resolving .forcePush count) (.headSet (.ok result)) kept .synced

/-- A list of events that settle commits in one way. -/
theorem mem_map_settled {hashes : List CommitHash} {other : CommitStatus} :
    .settled hash status ∈ hashes.map (SyncEvent.settled · other) ↔
      hash ∈ hashes ∧ status = other := by
  constructor
  · intro hmem
    obtain ⟨settled, hsettled, hsame⟩ := List.mem_map.mp hmem
    obtain ⟨rfl, rfl⟩ := SyncEvent.settled.inj hsame
    exact ⟨hsettled, rfl⟩
  · rintro ⟨hmem, rfl⟩
    exact List.mem_map_of_mem hmem

theorem settled_append_singleton {events : List SyncEvent} {other : CommitHash}
    {outcome : CommitStatus}
    (hsettled : .settled hash status ∈ events ++ [.settled other outcome]) :
    .settled hash status ∈ events ∨ (hash = other ∧ status = outcome) := by
  refine (List.mem_append.mp hsettled).imp_right fun hmem => ?_
  exact SyncEvent.settled.inj (List.mem_singleton.mp hmem)

/-- A commit that is settled once an answer was taken was settled before, or the answer
settles it. -/
theorem Handled.settles (h : Handled coordinator phase response move)
    (hsettled : .settled hash status ∈ move.1.events) :
    .settled hash status ∈ coordinator.events ∨
      Settles coordinator phase response hash status := by
  cases h with
  | interrupted hfault =>
      rw [events_interrupted] at hsettled
      exact .inl hsettled
  | failed hfails => exact .inl (by simpa using hsettled)
  | synced hhash hstatus =>
      rw [events_next, events_confirm] at hsettled
      refine (settled_append_singleton hsettled).imp_right ?_
      rintro ⟨rfl, rfl⟩
      exact .pushed hstatus fun _ => hhash
  | merged hhash hstatus hmerge =>
      refine (settled_append_singleton hsettled).imp_right ?_
      rintro ⟨rfl, rfl⟩
      exact .pushed hstatus fun _ => hhash
  | forked hstatus =>
      rw [events_fork] at hsettled
      have hfork := (List.mem_append.mp hsettled).resolve_right (by simp)
      refine (settled_append_singleton hfork).imp_right ?_
      rintro ⟨rfl, rfl⟩
      exact .pushed hstatus fun hother => absurd rfl hother
  | canceled hstatus =>
      rw [events_cancelQueue] at hsettled
      have hcancel := (List.mem_append.mp hsettled).resolve_right (by simp)
      refine (List.mem_append.mp hcancel).imp_right fun hmem => ?_
      obtain ⟨hdropped, rfl⟩ := mem_map_settled.mp hmem
      obtain ⟨data, hdata, rfl⟩ := List.mem_map.mp hdropped
      exact .canceled hstatus hdata
  | loaded reason loaded =>
      rw [events_next] at hsettled
      exact .inl (events_unload coordinator reason ▸ hsettled)
  | listening hhalt =>
      rw [events_next] at hsettled
      exact .inl hsettled
  | subscribed hhalt => exact .inl hsettled
  | current hcommits =>
      rw [events_next] at hsettled
      exact .inl hsettled
  | behind hcommits hhead => exact .inl hsettled
  | landed hcommits =>
      rw [events_acknowledgeRejoined] at hsettled
      refine (settled_append_singleton hsettled).imp_right ?_
      rintro ⟨rfl, rfl⟩
      exact .landed hcommits
  | searching hcommits hhead => exact .inl hsettled
  | emptied hcommits =>
      rw [events_next] at hsettled
      exact .inl hsettled
  | recognised hcommits =>
      rw [events_acknowledgeRejoined] at hsettled
      refine (settled_append_singleton hsettled).imp_right ?_
      rintro ⟨rfl, rfl⟩
      exact .recognised hcommits
  | diverged hcommits hother =>
      rw [events_fork] at hsettled
      have hfork := (List.mem_append.mp hsettled).resolve_right (by simp)
      refine (settled_append_singleton hfork).imp_right ?_
      rintro ⟨rfl, rfl⟩
      exact .diverged hcommits hother
  | unknown hcommits => exact .inl hsettled
  | stored resolution count result =>
      refine (settled_of_storeNext hsettled).imp_right ?_
      rintro ⟨rfl, rfl⟩
      exact .abandoned
  | refused resolution count error =>
      exact .inl (by simpa [resolutionRefused] using hsettled)
  | branchCreated name count =>
      rw [events_onBranchCreated] at hsettled
      rcases List.mem_append.mp hsettled with hmem | hmem
      · exact .inl (by simpa using hmem)
      · obtain ⟨hkept, rfl⟩ := mem_map_settled.mp hmem
        exact .inr (.resolved hkept)
  | forced count hstatus =>
      rw [events_next, events_takeForced] at hsettled
      refine (List.mem_append.mp hsettled).imp_right fun hmem => ?_
      obtain ⟨hkept, rfl⟩ := mem_map_settled.mp hmem
      exact .forced hstatus hkept
  | unforced count hstatus => exact .inl (by simpa using hsettled)

/-- What a coordinator is told settles no commit, unless the queue is dropped. -/
theorem settled_of_react (hreact : coordinator.react occasion = some move)
    (hsettled : .settled hash status ∈ move.1.events) :
    .settled hash status ∈ coordinator.events ∨
      (occasion = .resolve .abandon ∧ status = .canceled) := by
  have hplain : SyncEvent.isRemark (.settled hash status) = false := rfl
  have hnext {prepared : Coordinator}
      (hmem : .settled hash status ∈ (finish prepared.next).1.events)
      (hsame : prepared.events = coordinator.events) : .settled hash status ∈ coordinator.events := by
    rw [mem_events_finish hplain, events_next, hsame] at hmem
    exact hmem
  cases reacted_of_react hreact with
  | committed hparent => exact .inl (hnext hsettled rfl)
  | known hknown => exact .inl hsettled
  | announced hunknown => exact .inl (hnext hsettled rfl)
  | connected => exact .inl (hnext hsettled rfl)
  | reconnected => exact .inl (hnext hsettled rfl)
  | disconnected hstate => exact .inl ((mem_events_finish hplain).mp hsettled)
  | @resolved resolution hforked hidle =>
      rw [mem_events_finish hplain] at hsettled
      cases resolution with
      | abandon =>
          simp only [Coordinator.resolution, events_refreshHead] at hsettled
          refine (List.mem_append.mp hsettled).imp_right fun hmem => ?_
          exact ⟨rfl, (mem_map_settled.mp hmem).2⟩
      | fork name =>
          refine (settled_of_storeNext hsettled).imp_right ?_
          rintro ⟨hother, -⟩
          cases hother
      | forcePush =>
          refine (settled_of_storeNext hsettled).imp_right ?_
          rintro ⟨hother, -⟩
          cases hother
  | unfailed hhalt => exact .inl hsettled
  | refreshed hhalt hidle hcommits =>
      rw [mem_events_finish hplain, events_refreshHead] at hsettled
      exact .inl hsettled
  | resumed hhalt => exact .inl (hnext hsettled rfl)
  | queued number =>
      obtain ⟨remarks, hremarks, hall⟩ := exists_events_releaseWorkers
        { coordinator with branch := coordinator.branch.queueWorker number }
      simp only [queueWorker, hremarks] at hsettled
      refine (List.mem_append.mp hsettled).imp_right fun hmem => ?_
      exact absurd (List.all_eq_true.mp hall _ hmem) (by simp [hplain])

end Coordinator

end Coauthor
