import Coauthor.Proofs.Branch.Order

/-!
# What becomes of an accepted commit

Commits are settled in the order in which they were accepted.  What was settled and what is
queued but unsettled make up, one after the other, all that was accepted: an input can only move
the border between the two, or add a commit at the end.  The commit that causes a fork is settled
at once and stays queued until the fork is resolved; every other commit is settled when it leaves
the queue.  So if no two commits have the same name, none is settled twice.
-/

namespace Coauthor

open Coordinator

/-- The commit that an event settles, and how. -/
def SyncEvent.settled? : SyncEvent → Option (CommitHash × CommitStatus)
  | .settled hash outcome => some (hash, outcome)
  | _ => none

namespace Coordinator

/-- The commits that were settled, and how, in order. -/
def settlements (coordinator : Coordinator) : List (CommitHash × CommitStatus) :=
  coordinator.events.filterMap SyncEvent.settled?

/-- How a commit was settled, once for each time that it was. -/
def outcomes (coordinator : Coordinator) (hash : CommitHash) : List CommitStatus :=
  (coordinator.settlements.filter (·.1 = hash)).map (·.2)

/-- The names of the queued commits. -/
def queued (coordinator : Coordinator) : List CommitHash :=
  coordinator.branch.commits.map (·.hash)

/-- The commits that are settled on the way to a later state are the next ones that were
unsettled, and the cause of a fork is settled as such. -/
def Advances (made : List CommitHash) (coordinator later : Coordinator) : Prop :=
  ∃ added, later.settlements = coordinator.settlements ++ added ∧
    added.map (·.1) ++ later.unsettled = coordinator.unsettled ++ made ∧
    ∀ hash, later.halt = some (.forked hash) →
      coordinator.halt = some (.forked hash) ∨ (hash, .forked) ∈ added

variable {coordinator later prepared : Coordinator} {move : Move} {phase : Phase}
  {response : Response} {request : Request} {occasion : Occasion} {made : List CommitHash}
  {hash : CommitHash} {status : CommitStatus} {events : List SyncEvent}

/-! ## What an event settles -/

theorem settlements_of_events (hevents : later.events = coordinator.events ++ events) :
    later.settlements = coordinator.settlements ++ events.filterMap SyncEvent.settled? := by
  rw [settlements, hevents, List.filterMap_append]
  rfl

theorem filterMap_settled? (hashes : List CommitHash) (status : CommitStatus) :
    (hashes.map (SyncEvent.settled · status)).filterMap SyncEvent.settled? =
      hashes.map (·, status) := by
  rw [List.filterMap_map, ← List.filterMap_eq_map]
  rfl

theorem settlements_of_silent (hevents : later.events = coordinator.events ++ events)
    (hsilent : ∀ event ∈ events, event.settled? = none) :
    later.settlements = coordinator.settlements := by
  rw [settlements_of_events hevents, List.filterMap_eq_nil_iff.mpr hsilent, List.append_nil]

theorem settled?_of_isRemark {event : SyncEvent} (h : event.isRemark) : event.settled? = none := by
  cases event with
  | settled hash outcome => cases h
  | _ => rfl

theorem settlements_of_remarks (hevents : later.events = coordinator.events ++ events)
    (hremarks : events.all SyncEvent.isRemark) : later.settlements = coordinator.settlements :=
  settlements_of_silent hevents fun event hmem =>
    settled?_of_isRemark (List.all_eq_true.mp hremarks event hmem)

theorem settlements_emit {event : SyncEvent} (hsilent : event.settled? = none) :
    (coordinator.emit event).settlements = coordinator.settlements :=
  settlements_of_silent rfl (List.forall_mem_singleton.mpr hsilent)

theorem settlements_finish (move : Move) : (finish move).1.settlements = move.1.settlements := by
  obtain ⟨remarks, hevents, hremarks⟩ := exists_events_finish move
  exact settlements_of_remarks hevents hremarks

/-! ## What is unsettled -/

theorem unsettled_congr (hcommits : later.branch.commits = coordinator.branch.commits)
    (hhalt : later.halt = coordinator.halt) : later.unsettled = coordinator.unsettled := by
  simp only [unsettled, hcommits, hhalt]

theorem unsettled_of_unforked (hforked : coordinator.isForked = false) :
    coordinator.unsettled = coordinator.queued := by
  unfold unsettled
  split
  · rename_i hash hhalt
    simp [isForked, hhalt] at hforked
  · rfl

theorem unsettled_of_forked (hhalt : coordinator.halt = some (.forked hash)) :
    coordinator.unsettled = coordinator.queued.filter (· ≠ hash) := by
  simp only [unsettled, hhalt, queued]

theorem unsettled_of_nil (hcommits : coordinator.branch.commits = []) :
    coordinator.unsettled = [] := by
  unfold unsettled
  rw [hcommits]
  split
  · rfl
  · rfl

theorem mem_unsettled_iff :
    hash ∈ coordinator.unsettled ↔
      hash ∈ coordinator.queued ∧ coordinator.halt ≠ some (.forked hash) := by
  unfold unsettled
  split
  · rename_i forked hhalt
    rw [List.mem_filter, decide_eq_true_iff, hhalt, ne_comm (b := forked)]
    simp [queued]
  · rename_i hhalt
    exact ⟨fun hmem => ⟨hmem, hhalt hash⟩, And.left⟩

theorem isForked_of_none (hhalt : coordinator.halt = none) : coordinator.isForked = false := by
  simp [isForked, hhalt]

/-! ## Advances -/

/-- Nothing is settled, and the queue and the reason to stop stay. -/
theorem Advances.of_same (hsettlements : later.settlements = coordinator.settlements)
    (hcommits : later.branch.commits = coordinator.branch.commits)
    (hhalt : later.halt = coordinator.halt) : Advances [] coordinator later := by
  refine ⟨[], hsettlements.trans (List.append_nil _).symm, ?_, fun hash hforked => .inl ?_⟩
  · rw [unsettled_congr hcommits hhalt, List.append_nil]
    rfl
  · exact hhalt.symm.trans hforked

theorem Advances.next (h : Advances made coordinator prepared) :
    Advances made coordinator prepared.next.1 := by
  obtain ⟨phase, updates, rejoinPending, hnext⟩ := exists_next_eq prepared
  rw [hnext]
  exact h

theorem Advances.refreshHead (h : Advances made coordinator prepared) :
    Advances made coordinator prepared.refreshHead.1 := by
  obtain ⟨phase, rejoinPending, hrefresh⟩ := exists_refreshHead_eq prepared
  rw [hrefresh]
  exact h

theorem Advances.finish (h : Advances made coordinator move.1) :
    Advances made coordinator (Coordinator.finish move).1 := by
  obtain ⟨added, hadded, hunsettled, hforked⟩ := h
  have hhalt : (Coordinator.finish move).1.halt = move.1.halt :=
    congrArg Course.halt (course_finish move)
  refine ⟨added, (settlements_finish move).trans hadded, ?_, fun hash hafter => ?_⟩
  · rw [unsettled_congr (commits_finish move) hhalt]
    exact hunsettled
  · exact hforked hash (hhalt.symm.trans hafter)

theorem Advances.of_emit {event : SyncEvent} (hsilent : event.settled? = none)
    (h : Advances made (coordinator.emit event) later) : Advances made coordinator later := by
  obtain ⟨added, hadded, hrest⟩ := h
  rw [settlements_emit hsilent] at hadded
  exact ⟨added, hadded, hrest⟩

/-- A coordinator that stops for another reason than a fork, or goes on, settles nothing. -/
theorem Advances.of_unforked (hsettlements : later.settlements = coordinator.settlements)
    (hcommits : later.branch.commits = coordinator.branch.commits)
    (hbefore : coordinator.isForked = false) (hafter : later.isForked = false) :
    Advances [] coordinator later := by
  refine ⟨[], hsettlements.trans (List.append_nil _).symm, ?_, fun hash hhalt => ?_⟩
  · rw [unsettled_of_unforked hbefore, unsettled_of_unforked hafter, queued, hcommits,
      List.append_nil]
    rfl
  · simp [isForked, hhalt] at hafter

/-- The first queued commit is settled as it leaves the queue. -/
theorem Advances.of_first (hhalt : coordinator.halt = none)
    (hfirst : coordinator.branch.commits.head?.map (·.hash) = some hash)
    (hcommits : later.branch.commits = coordinator.branch.commits.tail)
    (hlater : later.halt = none)
    (hsettled : later.settlements = coordinator.settlements ++ [(hash, status)]) :
    Advances [] coordinator later := by
  refine ⟨_, hsettled, ?_, fun other hforked => nomatch hlater.symm.trans hforked⟩
  obtain ⟨data, hdata, rfl⟩ := Option.map_eq_some_iff.mp hfirst
  rw [unsettled_of_unforked (isForked_of_none hhalt),
    unsettled_of_unforked (isForked_of_none hlater),
    queued, queued, hcommits, List.append_nil, ← List.cons_head?_tail hdata]
  rfl

/-- All that was unsettled is settled as the queue is emptied. -/
theorem Advances.of_all (status : CommitStatus) (hcommits : later.branch.commits = [])
    (hhalt : later.isForked = false)
    (hsettled : later.settlements =
      coordinator.settlements ++ coordinator.unsettled.map (·, status)) :
    Advances [] coordinator later := by
  refine ⟨_, hsettled, ?_, fun other hforked => ?_⟩
  · rw [unsettled_of_nil hcommits, List.map_map, List.append_nil, List.append_nil]
    exact List.map_id _
  · simp [isForked, hforked] at hhalt

/-- The first queued commit is settled as the cause of a fork and stays queued. -/
theorem advances_fork (hhalt : coordinator.halt = none) (hnodup : coordinator.queued.Nodup)
    (hfirst : coordinator.branch.commits.head?.map (·.hash) = some hash)
    (head : Option CommitHash) : Advances [] coordinator (coordinator.fork hash head).1 := by
  have hsettled := settlements_of_events
    ((events_fork coordinator hash head).trans (List.append_assoc ..))
  refine ⟨_, hsettled, ?_, fun other hforked => .inr ?_⟩
  · obtain ⟨data, hdata, rfl⟩ := Option.map_eq_some_iff.mp hfirst
    have hqueue :
        coordinator.queued = data.hash :: coordinator.branch.commits.tail.map (·.hash) := by
      rw [queued, ← List.cons_head?_tail hdata]
      rfl
    have hothers : ∀ other ∈ coordinator.branch.commits.tail.map (·.hash), other ≠ data.hash := by
      rw [hqueue] at hnodup
      rintro other hmem rfl
      exact (List.nodup_cons.mp hnodup).1 hmem
    have hforked : (coordinator.fork data.hash head).1.unsettled =
        coordinator.branch.commits.tail.map (·.hash) := by
      have hafter : (coordinator.fork data.hash head).1.halt = some (.forked data.hash) := rfl
      rw [unsettled_of_forked hafter]
      change coordinator.queued.filter _ = _
      rw [hqueue, List.filter_cons_of_neg (by simp), List.filter_eq_self.mpr]
      simpa using hothers
    rw [hforked, unsettled_of_unforked (isForked_of_none hhalt), hqueue, List.append_nil]
    rfl
  · obtain rfl : hash = other := Halt.forked.inj (Option.some.inj hforked)
    exact List.mem_cons_self

theorem advances_fail (coordinator : Coordinator) (error : SyncError) :
    Advances [] coordinator (coordinator.fail error).1 := by
  have hsettlements : (coordinator.fail error).1.settlements = coordinator.settlements :=
    settlements_emit rfl
  cases hforked : coordinator.isForked with
  | true => exact .of_same hsettlements rfl (if_pos hforked)
  | false =>
      have hhalt : (coordinator.fail error).1.halt = some .failed := if_neg (by simp [hforked])
      exact .of_unforked hsettlements rfl hforked (by simp [isForked, hhalt])

theorem advances_confirm (hhalt : coordinator.halt = none)
    (hfirst : coordinator.branch.commits.head?.map (·.hash) = some hash) :
    Advances [] coordinator (coordinator.confirm hash) :=
  .of_first hhalt hfirst rfl hhalt (settlements_of_events (events_confirm coordinator hash))

theorem advances_acknowledgeRejoined (hhalt : coordinator.halt = none)
    (hfirst : coordinator.branch.commits.head?.map (·.hash) = some hash) (head : CommitHash) :
    Advances [] coordinator (coordinator.acknowledgeRejoined hash head).1 := by
  have hconfirmed := advances_confirm hhalt hfirst
  simp only [acknowledgeRejoined]
  split_ifs with hsettled
  · exact hconfirmed.next
  · exact hconfirmed

theorem isForked_settleQueue (coordinator : Coordinator) (status : CommitStatus) :
    (coordinator.settleQueue status).isForked = false := by
  cases hforked : coordinator.isForked with
  | true => exact isForked_of_none (if_pos hforked)
  | false =>
      have hhalt : (coordinator.settleQueue status).halt = coordinator.halt :=
        if_neg (by simp [hforked])
      rw [isForked, hhalt]
      exact hforked

theorem advances_resetToOrigin (coordinator : Coordinator) (status : CommitStatus) :
    Advances [] coordinator (coordinator.resetToOrigin status) := by
  refine .of_all status rfl (isForked_settleQueue coordinator status) ?_
  rw [← filterMap_settled?]
  exact settlements_of_events (events_settleQueue coordinator status)

theorem advances_storeNext (coordinator : Coordinator) (resolution : ForkResolution)
    (stored : Nat) : Advances [] coordinator (coordinator.storeNext resolution stored).1 := by
  unfold storeNext
  cases coordinator.branch.commits[stored]? with
  | some data => exact .of_same rfl rfl rfl
  | none =>
      cases resolution with
      | fork name => exact .of_same rfl rfl rfl
      | forcePush => exact .of_same rfl rfl rfl
      | abandon => exact (advances_resetToOrigin coordinator .canceled).refreshHead

theorem advances_cancelQueue (hhalt : coordinator.halt = none) :
    Advances [] coordinator coordinator.cancelQueue.1 := by
  unfold cancelQueue
  refine .refreshHead (.of_all .canceled rfl (isForked_of_none hhalt) ?_)
  rw [unsettled_of_unforked (isForked_of_none hhalt), ← filterMap_settled?]
  refine (settlements_of_events (List.append_assoc ..)).trans ?_
  rw [List.filterMap_append]
  exact congrArg _ (List.append_nil _)

theorem advances_queueCommit {data : CommitData}
    (hforked : coordinator.halt ≠ some (.forked data.hash)) :
    Advances [data.hash] coordinator
      { coordinator with
        branch := { coordinator.branch.queueCommit data with localHead := data.hash } } := by
  refine ⟨[], (List.append_nil _).symm, ?_, fun hash hhalt => .inl hhalt⟩
  simp only [unsettled, Branch.queueCommit, List.map_append, List.map_nil, List.nil_append]
  split
  · rename_i hash hhalt
    have hother : data.hash ≠ hash := fun hsame => hforked (hsame ▸ hhalt)
    simp [hother]
  · rfl

/-- Only the front of the queue is settled by an answer, in order. -/
theorem Handled.advances (h : Handled coordinator phase response move)
    (hsuits : phase.suits coordinator.halt) (hnodup : coordinator.queued.Nodup)
    (hpushing : ∀ hash, phase = .pushing hash →
      coordinator.branch.commits.head?.map (·.hash) = some hash) :
    Advances [] coordinator move.1 := by
  cases h with
  | interrupted hfault => exact .next (.of_same rfl rfl rfl)
  | failed hfails => exact advances_fail coordinator _
  | synced hhash hstatus =>
      exact (advances_confirm (Option.isNone_iff_eq_none.mp hsuits) (hpushing _ rfl)).next
  | @merged hash merge result hhash hstatus hmerge =>
      have hhalt := Option.isNone_iff_eq_none.mp hsuits
      have hevents : (coordinator.takeMerge hash merge).events =
          coordinator.events ++ [.settled hash .merged] :=
        rfl
      exact .of_first hhalt (hpushing _ rfl) rfl hhalt (settlements_of_events hevents)
  | forked hstatus =>
      exact advances_fork (Option.isNone_iff_eq_none.mp hsuits) hnodup (hpushing _ rfl) none
  | canceled hstatus => exact advances_cancelQueue (Option.isNone_iff_eq_none.mp hsuits)
  | loaded reason hash =>
      refine .next (.of_same ?_ ?_ ?_)
      · exact congrArg (List.filterMap SyncEvent.settled?) (events_unload coordinator reason)
      · rw [commits_adopt, commits_unload]
      · simp only [adopt, unload]
        split_ifs with hupdate
        · rfl
        · rfl
  | listening hhalt => exact .next (.of_same rfl rfl rfl)
  | subscribed hhalt => exact .of_same rfl rfl rfl
  | current hcommits => exact .next (.of_same rfl rfl rfl)
  | behind hcommits hhead => exact .of_same rfl rfl rfl
  | landed hcommits =>
      exact advances_acknowledgeRejoined (Option.isNone_iff_eq_none.mp hsuits)
        (by rw [hcommits]; rfl) _
  | searching hcommits hhead => exact .of_same rfl rfl rfl
  | emptied hcommits => exact .next (.of_same rfl rfl rfl)
  | recognised hcommits =>
      exact advances_acknowledgeRejoined (Option.isNone_iff_eq_none.mp hsuits)
        (by rw [hcommits]; rfl) _
  | diverged hcommits hother =>
      exact advances_fork (Option.isNone_iff_eq_none.mp hsuits) hnodup (by rw [hcommits]; rfl) _
  | unknown hcommits => exact .of_same rfl rfl rfl
  | stored resolution count result => exact advances_storeNext coordinator resolution _
  | refused resolution count error => exact .next (.of_same (settlements_emit rfl) rfl rfl)
  | branchCreated name count => exact .of_emit rfl (advances_resetToOrigin _ .forked).refreshHead
  | forced count hstatus =>
      refine .next (.of_all .synced rfl (isForked_settleQueue coordinator .synced) ?_)
      rw [← filterMap_settled?]
      exact settlements_of_events (events_settleQueue coordinator .synced)
  | unforced count hstatus => exact .next (.of_same (settlements_emit rfl) rfl rfl)

/-- A commit that is made is unsettled, and only a resolution that drops the queue settles what
was made before. -/
theorem advances_react (hreact : coordinator.react occasion = some move)
    (hforked : ∀ data, occasion = .commit data →
      coordinator.halt ≠ some (.forked data.hash)) :
    Advances (occasion.made?.toList.map (·.hash)) coordinator move.1 := by
  cases reacted_of_react hreact with
  | @committed data hparent =>
      exact .finish (.next (advances_queueCommit (hforked data rfl)))
  | known hknown => exact .of_same rfl rfl rfl
  | announced hunknown => exact .finish (.next (.of_same rfl rfl rfl))
  | connected => exact .finish (.next (.of_same rfl rfl rfl))
  | reconnected => exact .finish (.next (.of_same rfl rfl rfl))
  | disconnected hstate => exact .finish (.of_same rfl rfl rfl)
  | @resolved resolution hforked hphase =>
      apply Advances.finish
      cases resolution with
      | abandon => exact (advances_resetToOrigin coordinator .canceled).refreshHead
      | fork name => exact advances_storeNext coordinator _ 0
      | forcePush => exact advances_storeNext coordinator _ 0
  | unfailed hhalt => exact .of_same rfl rfl rfl
  | refreshed hhalt hphase hcommits =>
      exact .finish (.refreshHead (.of_unforked rfl rfl (by simp [isForked, hhalt]) rfl))
  | resumed hhalt =>
      exact .finish (.next (.of_unforked rfl rfl (by simp [isForked, hhalt]) rfl))
  | queued number =>
      obtain ⟨remarks, hremarks, hall⟩ := exists_events_releaseWorkers
        { coordinator with branch := coordinator.branch.queueWorker number }
      have hcourse := course_queueWorker coordinator number
      exact .of_same (settlements_of_remarks hremarks hall) (congrArg Course.commits hcourse)
        (congrArg Course.halt hcourse)

/-! ## The books -/

/-- What was settled and what is unsettled make up what was accepted, and the cause of a fork was
settled as such. -/
structure Balanced (accepted : List CommitHash) (coordinator : Coordinator) : Prop where
  settled : coordinator.settlements.map (·.1) ++ coordinator.unsettled = accepted
  forked : ∀ hash, coordinator.halt = some (.forked hash) →
    (hash, .forked) ∈ coordinator.settlements

theorem Balanced.advance {accepted : List CommitHash} (h : Balanced accepted coordinator)
    (hadvances : Advances made coordinator later) : Balanced (accepted ++ made) later := by
  obtain ⟨added, hadded, hunsettled, hforked⟩ := hadvances
  refine ⟨?_, fun hash hhalt => ?_⟩
  · rw [← h.settled, hadded, List.map_append, List.append_assoc, List.append_assoc, hunsettled]
  · rw [hadded]
    rcases hforked hash hhalt with hbefore | hnew
    · exact List.mem_append_left _ (h.forked hash hbefore)
    · exact List.mem_append_right _ hnew

/-- No settlement is for a commit that is not named among them. -/
theorem filter_settlements_eq_nil {settlements : List (CommitHash × CommitStatus)}
    (hnone : hash ∉ settlements.map (·.1)) : settlements.filter (·.1 = hash) = [] := by
  rw [List.filter_eq_nil_iff]
  intro settlement hsettlement hsame
  exact hnone (of_decide_eq_true hsame ▸ List.mem_map_of_mem hsettlement)

theorem outcomes_of_not_mem (hnone : hash ∉ coordinator.settlements.map (·.1)) :
    coordinator.outcomes hash = [] := by
  rw [outcomes, filter_settlements_eq_nil hnone]
  rfl

/-- A commit that is named once among those that were settled has one outcome. -/
theorem outcomes_of_mem (hnodup : (coordinator.settlements.map (·.1)).Nodup)
    (hmem : (hash, status) ∈ coordinator.settlements) : coordinator.outcomes hash = [status] := by
  obtain ⟨before, after, hsplit⟩ := List.append_of_mem hmem
  rw [hsplit, List.map_append, List.map_cons, List.nodup_middle, List.nodup_cons,
    List.mem_append, not_or] at hnodup
  obtain ⟨⟨hbefore, hafter⟩, -⟩ := hnodup
  rw [outcomes, hsplit, List.filter_append, filter_settlements_eq_nil hbefore,
    List.filter_cons_of_pos (by simp), filter_settlements_eq_nil hafter]
  rfl

/-- How an accepted commit can stand. -/
inductive Standing where
  /-- It is queued and was not settled. -/
  | waiting
  /-- It is queued and was settled as the cause of the fork that is to be resolved. -/
  | forking
  /-- It is queued no longer and was settled. -/
  | done
  deriving DecidableEq, Repr

def Stands (coordinator : Coordinator) (hash : CommitHash) : Standing → Prop
  | .waiting => hash ∈ coordinator.queued ∧ coordinator.outcomes hash = []
  | .forking => hash ∈ coordinator.queued ∧ coordinator.outcomes hash = [.forked] ∧
      coordinator.halt = some (.forked hash)
  | .done => hash ∉ coordinator.queued ∧ ∃ status, coordinator.outcomes hash = [status]

/-- A commit stands in one way only. -/
theorem Stands.unique {standing other : Standing} (h : coordinator.Stands hash standing)
    (hother : coordinator.Stands hash other) : standing = other := by
  cases standing with
  | waiting =>
      cases other with
      | waiting => rfl
      | forking => cases h.2.symm.trans hother.2.1
      | done => exact absurd h.1 hother.1
  | forking =>
      cases other with
      | waiting => cases h.2.1.symm.trans hother.2
      | forking => rfl
      | done => exact absurd h.1 hother.1
  | done =>
      cases other with
      | waiting => exact absurd hother.1 h.1
      | forking => exact absurd hother.1 h.1
      | done => rfl

/-- Only the cause of a fork stays queued once it is settled. -/
theorem Balanced.halt_of_queued {accepted : List CommitHash} (h : Balanced accepted coordinator)
    (hnodup : accepted.Nodup) (hsettled : hash ∈ coordinator.settlements.map (·.1))
    (hqueued : hash ∈ coordinator.queued) : coordinator.halt = some (.forked hash) := by
  rw [← h.settled] at hnodup
  by_contra hother
  exact List.disjoint_of_nodup_append hnodup hsettled (mem_unsettled_iff.mpr ⟨hqueued, hother⟩)

theorem Balanced.nodup_settlements {accepted : List CommitHash} (h : Balanced accepted coordinator)
    (hnodup : accepted.Nodup) : (coordinator.settlements.map (·.1)).Nodup := by
  rw [← h.settled] at hnodup
  exact hnodup.of_append_left

theorem Balanced.stands {accepted : List CommitHash} (h : Balanced accepted coordinator)
    (hnodup : accepted.Nodup) (hmem : hash ∈ accepted) :
    ∃! standing, coordinator.Stands hash standing := by
  suffices hstands : ∃ standing, coordinator.Stands hash standing by
    obtain ⟨standing, hstanding⟩ := hstands
    exact ⟨standing, hstanding, fun other hother => hother.unique hstanding⟩
  have honce := h.nodup_settlements hnodup
  by_cases hsettled : hash ∈ coordinator.settlements.map (·.1)
  · by_cases hqueued : hash ∈ coordinator.queued
    · have hhalt := h.halt_of_queued hnodup hsettled hqueued
      exact ⟨.forking, hqueued, outcomes_of_mem honce (h.forked hash hhalt), hhalt⟩
    · obtain ⟨⟨settled, status⟩, hsettlement, rfl⟩ := List.mem_map.mp hsettled
      exact ⟨.done, hqueued, status, outcomes_of_mem honce hsettlement⟩
  · rw [← h.settled] at hmem
    have hunsettled := (List.mem_append.mp hmem).resolve_left hsettled
    exact ⟨.waiting, (mem_unsettled_iff.mp hunsettled).1, outcomes_of_not_mem hsettled⟩

/-- A commit that was settled otherwise than by a fork is not queued. -/
theorem Balanced.not_queued {accepted : List CommitHash} (h : Balanced accepted coordinator)
    (hnodup : accepted.Nodup) (hmem : (hash, status) ∈ coordinator.settlements)
    (hstatus : status ≠ .forked) : hash ∉ coordinator.queued := by
  intro hqueued
  have honce := h.nodup_settlements hnodup
  have hhalt := h.halt_of_queued hnodup (List.mem_map_of_mem hmem) hqueued
  have hforked := outcomes_of_mem honce (h.forked hash hhalt)
  exact hstatus (List.cons.inj ((outcomes_of_mem honce hmem).symm.trans hforked)).1

end Coordinator

/-! ## Dialogues -/

namespace Dialogue

/-- The commits that are made in a run, whether they are accepted or refused. -/
def offered (inputs : List Input) : List CommitData := inputs.filterMap Input.made?

/-- The commit that an input makes, if the coordinator refuses it. -/
def refused? (dialogue : Dialogue) (input : Input) : Option CommitData :=
  (dialogue.move? input).elim input.made? fun _ => none

/-- The commits that are refused in a run, in order. -/
def refused (dialogue : Dialogue) (inputs : List Input) : List CommitData :=
  dialogue.record refused? inputs

variable {dialogue : Dialogue} {input : Input} {accepted : List CommitData} {data : CommitData}

theorem offered_append (inputs more : List Input) :
    offered (inputs ++ more) = offered inputs ++ offered more :=
  List.filterMap_append

/-- Every commit that is made is either accepted or refused. -/
theorem accepted_append_refused_perm (dialogue : Dialogue) (inputs : List Input) :
    (dialogue.accepted inputs ++ dialogue.refused inputs).Perm (offered inputs) := by
  induction inputs generalizing dialogue with
  | nil => exact .nil
  | cons input rest ih =>
      have hoffered : offered (input :: rest) = input.made?.toList ++ offered rest := by
        rw [offered, List.filterMap_cons]
        cases input.made? <;> rfl
      rw [accepted, refused, record, record, hoffered]
      cases hmove : dialogue.move? input with
      | none =>
          have hnone : dialogue.accepted? input = none := by rw [accepted?, hmove]; rfl
          have hall : dialogue.refused? input = input.made? := by rw [refused?, hmove]; rfl
          rw [hnone, hall]
          exact (List.perm_append_comm_assoc ..).trans ((ih _).append_left _)
      | some move =>
          have hall : dialogue.accepted? input = input.made? := by rw [accepted?, hmove]; rfl
          have hnone : dialogue.refused? input = none := by rw [refused?, hmove]; rfl
          rw [hnone, hall, List.append_assoc]
          exact (ih _).append_left _

/-- A dialogue in which these commits were accepted, and its books are kept. -/
structure Accounts (accepted : List CommitData) (dialogue : Dialogue) : Prop where
  attentive : dialogue.Attentive
  sequenced : dialogue.coordinator.course.Sequenced
  queue : dialogue.queue <:+ accepted
  balanced : Balanced (accepted.map (·.hash)) dialogue.coordinator

theorem accounts_start (project : ProjectId) (branch : BranchName) (head : CommitHash) :
    (start project branch head).Accounts [] where
  attentive := attentive_start project branch head
  sequenced := sequenced_start project branch head
  queue := List.suffix_rfl
  balanced := ⟨rfl, nofun⟩

/-- A commit under a new name is not the cause of a fork. -/
theorem Accounts.halt_ne (h : dialogue.Accounts accepted)
    (hnodup : ((accepted ++ [data]).map (·.hash)).Nodup) :
    dialogue.coordinator.halt ≠ some (.forked data.hash) := by
  intro hhalt
  obtain ⟨first, hfirst, hhash⟩ := Option.map_eq_some_iff.mp (h.sequenced.forked _ hhalt)
  have hmem : first ∈ accepted := h.queue.subset (List.mem_of_head? hfirst)
  rw [List.map_append] at hnodup
  exact List.disjoint_of_nodup_append hnodup (List.mem_map.mpr ⟨first, hmem, hhash⟩)
    (List.mem_singleton_self _)

theorem Accounts.step (h : dialogue.Accounts accepted) (input : Input)
    (hnodup : ((accepted ++ (dialogue.accepted? input).toList).map (·.hash)).Nodup) :
    (dialogue.step input).Accounts (accepted ++ (dialogue.accepted? input).toList) where
  attentive := h.attentive.step input
  sequenced := h.attentive.sequenced_step h.sequenced input
  queue :=
    (h.attentive.queue_step_suffix input).trans ((List.suffix_append_self_iff ..).mpr h.queue)
  balanced := by
    rw [List.map_append]
    apply h.balanced.advance
    cases hmove : dialogue.move? input with
    | none =>
        rw [step_of_none hmove, accepted?, hmove]
        exact .of_same rfl rfl rfl
    | some move =>
        rw [accepted?, hmove] at hnodup ⊢
        rw [step_of_some hmove]
        cases input with
        | told occasion =>
            refine advances_react hmove fun data hcommit => ?_
            subst hcommit
            exact h.halt_ne hnodup
        | answer response =>
            obtain ⟨request, handled, -, -, hawaits, hhandled, rfl⟩ := h.attentive.handled hmove
            have hqueued : dialogue.coordinator.queued.Nodup :=
              hnodup.sublist ((h.queue.sublist.trans (List.sublist_append_left ..)).map _)
            refine Advances.finish (hhandled.advances h.sequenced.suits hqueued ?_)
            exact fun hash hphase => hawaits.first_of_pushing hphase

theorem Accounts.run (h : dialogue.Accounts accepted) (inputs : List Input)
    (hnodup : ((accepted ++ dialogue.accepted inputs).map (·.hash)).Nodup) :
    (dialogue.run inputs).Accounts (accepted ++ dialogue.accepted inputs) := by
  induction inputs generalizing dialogue accepted with
  | nil => exact (List.append_nil accepted).symm ▸ h
  | cons input rest ih =>
      rw [Dialogue.accepted, record, ← List.append_assoc] at hnodup ⊢
      exact ih (h.step input (hnodup.sublist ((List.sublist_append_left ..).map _))) hnodup

/-- The books of a run in which no two commits have the same name. -/
theorem accounts_run (project : ProjectId) (branch : BranchName) (head : CommitHash)
    {inputs : List Input} (hdistinct : ((offered inputs).map (·.hash)).Nodup) :
    let dialogue := start project branch head
    ((dialogue.accepted inputs ++ dialogue.refused inputs).map (·.hash)).Nodup ∧
      (dialogue.run inputs).Accounts (dialogue.accepted inputs) := by
  intro dialogue
  have hnodup :=
    ((accepted_append_refused_perm dialogue inputs).map (·.hash)).nodup_iff.mpr hdistinct
  refine ⟨hnodup, (accounts_start project branch head).run inputs ?_⟩
  exact hnodup.sublist ((List.sublist_append_left ..).map _)

/-- Where no two commits have the same name, none is queued twice. -/
theorem queued_nodup (project : ProjectId) (branch : BranchName) (head : CommitHash)
    {inputs : List Input} (hdistinct : ((offered inputs).map (·.hash)).Nodup) :
    ((start project branch head).run inputs).coordinator.queued.Nodup := by
  obtain ⟨hnodup, haccounts⟩ := accounts_run project branch head hdistinct
  rw [List.map_append] at hnodup
  exact hnodup.of_append_left.sublist (haccounts.queue.sublist.map _)

/-- Nor is a commit accepted again. -/
theorem not_mem_accepted (project : ProjectId) (branch : BranchName) (head : CommitHash)
    {inputs more : List Input} (hdistinct : ((offered (inputs ++ more)).map (·.hash)).Nodup)
    (hmem : data ∈ (start project branch head).accepted inputs) :
    data ∉ ((start project branch head).run inputs).accepted more := by
  obtain ⟨hnodup, -⟩ := accounts_run project branch head hdistinct
  rw [List.map_append, accepted_append, List.map_append] at hnodup
  intro hagain
  exact List.disjoint_of_nodup_append hnodup.of_append_left (List.mem_map_of_mem hmem)
    (List.mem_map_of_mem hagain)

/-- Every accepted commit stands in one way at every moment: it waits, or it caused the fork that
is to be resolved and was settled as such, or it has left the queue and was settled once.  Commits
are settled in the order in which they were accepted, and a commit that was refused never is. -/
theorem run_settles_once (project : ProjectId) (branch : BranchName) (head : CommitHash)
    (inputs : List Input) (hdistinct : ((offered inputs).map (·.hash)).Nodup) :
    let dialogue := start project branch head
    let reached := (dialogue.run inputs).coordinator
    (∀ data ∈ dialogue.accepted inputs, ∃! standing, reached.Stands data.hash standing) ∧
      reached.settlements.map (·.1) <+: (dialogue.accepted inputs).map (·.hash) ∧
      ∀ data ∈ dialogue.refused inputs, reached.outcomes data.hash = [] := by
  intro dialogue reached
  obtain ⟨hnodup, haccounts⟩ := accounts_run project branch head hdistinct
  rw [List.map_append] at hnodup
  have hinitial : reached.settlements.map (·.1) <+: (dialogue.accepted inputs).map (·.hash) :=
    ⟨_, haccounts.balanced.settled⟩
  refine ⟨fun data hmem => ?_, hinitial, fun data hmem => ?_⟩
  · exact haccounts.balanced.stands hnodup.of_append_left (List.mem_map_of_mem hmem)
  · refine outcomes_of_not_mem fun hsettled => ?_
    exact List.disjoint_of_nodup_append hnodup (hinitial.subset hsettled) (List.mem_map_of_mem hmem)

/-- Two commits are accepted, one that was made on an old head is refused, and the first push is
answered with a fork. -/
def firstForked : List Input :=
  [.told (.commit (commitOn "#1" "#0")), .told (.commit (commitOn "#2" "#1")),
    .told (.commit (commitOn "#3" "#0")), .answer (.pushed (.ok (.of .forked "#1")))]

/-- Where this leads. -/
def halfSettled : Coordinator := ((start "p" "b" "#0").run firstForked).coordinator

/-- The first commit is the cause of the fork, the second waits, and the third is never settled. -/
theorem run_settles_once_forked :
    (∃! standing, halfSettled.Stands "#1" standing) ∧ halfSettled.Stands "#1" .forking ∧
      halfSettled.Stands "#2" .waiting ∧ halfSettled.outcomes "#3" = [] := by
  have hdistinct : (offered firstForked).map (·.hash) = ["#1", "#2", "#3"] := by
    cbv
  have haccepted : (start "p" "b" "#0").accepted firstForked =
      [commitOn "#1" "#0", commitOn "#2" "#1"] := by
    cbv
  have hrefused : (start "p" "b" "#0").refused firstForked = [commitOn "#3" "#0"] := by
    cbv
  have hqueued : halfSettled.queued = ["#1", "#2"] := by
    cbv
  have hfirst : halfSettled.outcomes "#1" = [.forked] := by
    cbv
  have hsecond : halfSettled.outcomes "#2" = [] := by
    cbv
  have hhalt : halfSettled.halt = some (.forked "#1") := by
    cbv
  obtain ⟨hstands, -, hnever⟩ :=
    run_settles_once "p" "b" "#0" firstForked (by rw [hdistinct]; decide)
  rw [haccepted] at hstands
  rw [hrefused] at hnever
  exact ⟨hstands _ List.mem_cons_self, ⟨by simp [hqueued], hfirst, hhalt⟩,
    ⟨by simp [hqueued], hsecond⟩, hnever _ List.mem_cons_self⟩

end Dialogue

end Coauthor
