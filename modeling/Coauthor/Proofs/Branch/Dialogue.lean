import Coauthor.Proofs.Branch.Answer

/-!
# Dialogues with a coordinator

A coordinator is told of commits, announcements, the connection and decisions of its user, in
any order, and is given an answer of the right kind, with any content, to the request that it
made last.  What it asks for always fits its phase: a coordinator in the phase `idle` waits for
nothing, and in every other phase it waits for the answer to one request, which can be read off
the phase and the queues.  While it waits, only commits and updates are queued.
-/

namespace Coauthor

namespace Coordinator

/-- What a coordinator is told, other than an answer. -/
inductive Occasion where
  | commit (data : CommitData)
  | update (data : CommitData)
  | connection (state : ConnectionState)
  | resolve (resolution : ForkResolution)
  | retry
  | worker (request : Nat)

/-- The move that an occasion leads to, unless it is refused. -/
def react (coordinator : Coordinator) : Occasion → Option Move
  | .commit data => (coordinator.commitLocally data).toOption
  | .update data => some (coordinator.remoteUpdate data)
  | .connection state => some (coordinator.connectionChanged state)
  | .resolve resolution => (coordinator.resolveFork resolution).toOption
  | .retry => some coordinator.retry
  | .worker request => some (coordinator.queueWorker request, none)

/-! ## Requests and phases -/

/-- A coordinator that has just entered its phase, and the request that goes with it. -/
inductive Asks (course : Course) : Option Request → Prop where
  | nothing (hphase : course.phase = .idle) : Asks course none
  | push {data : CommitData} {rest : List CommitData} (hphase : course.phase = .pushing data.hash)
      (hcommits : course.commits = data :: rest) : Asks course (some (.push data))
  | update {data : CommitData} {rest : List CommitData}
      (hphase : course.phase = .pulling .update data.hash)
      (hupdates : course.updates = data :: rest) :
      Asks course (some (.deliver data.hash (some data) .update))
  | load {reason : LoadReason} {hash : CommitHash} {data : Option CommitData}
      (hphase : course.phase = .pulling reason hash) (hreason : reason ≠ .update) :
      Asks course (some (.deliver hash data reason))
  | subscribe (hphase : course.phase = .subscribing) : Asks course (some .subscribe)
  | fetchHead (hphase : course.phase = .fetchingHead) : Asks course (some .fetchHead)
  | findAncestor {queued : CommitData} {rest : List CommitData} {head : CommitHash}
      (hphase : course.phase = .findingAncestor head) (hcommits : course.commits = queued :: rest) :
      Asks course (some (.findAncestor queued.hash head))
  | store {resolution : ForkResolution} {stored : Nat} {data : CommitData}
      (hphase : course.phase = .resolving resolution stored)
      (hcommits : course.commits[stored]? = some data) :
      Asks course (some (.store data.withoutBranch))
  /-- Every queued commit has been stored. -/
  | createBranch {name : BranchName} {stored : Nat}
      (hphase : course.phase = .resolving (.fork name) stored)
      (hstored : course.commits.length ≤ stored) :
      Asks course (some (.createBranch name course.localHead))
  | setHead {stored : Nat} (hphase : course.phase = .resolving .forcePush stored)
      (hstored : course.commits.length ≤ stored) :
      Asks course (some (.setHead none course.localHead))

/-- Commits and updates may have been queued since; the local head has moved only if commits
were. -/
structure Course.Extends (later earlier : Course) : Prop where
  phase : later.phase = earlier.phase
  originHead : later.originHead = earlier.originHead
  commits : earlier.commits <+: later.commits
  updates : earlier.updates <+: later.updates
  localHead : later.commits = earlier.commits → later.localHead = earlier.localHead

/-- A coordinator that waits for the answer to a request, or for nothing. -/
def Awaits (course : Course) (request : Option Request) : Prop :=
  ∃ asking, Asks asking request ∧ course.Extends asking

/-- The request that goes with a move fits the phase that it leads to. -/
def Coherent (move : Move) : Prop := Asks move.1.course move.2

variable {coordinator : Coordinator} {course middle later : Course} {request : Request}
  {response : Response} {occasion : Occasion} {move : Move}

theorem Course.Extends.refl (course : Course) : course.Extends course :=
  ⟨rfl, rfl, List.prefix_rfl, List.prefix_rfl, fun _ => rfl⟩

theorem Course.Extends.trans (hlater : later.Extends middle) (hmiddle : middle.Extends course) :
    later.Extends course where
  phase := hlater.phase.trans hmiddle.phase
  originHead := hlater.originHead.trans hmiddle.originHead
  commits := hmiddle.commits.trans hlater.commits
  updates := hmiddle.updates.trans hlater.updates
  localHead := by
    intro hsame
    have hbefore : middle.commits = course.commits :=
      (hlater.commits.trans (hsame ▸ List.prefix_rfl)).eq_of_length_le hmiddle.commits.length_le
    rw [hlater.localHead (hsame.trans hbefore.symm), hmiddle.localHead hbefore]

theorem Asks.awaits {request : Option Request} (h : Asks course request) :
    Awaits course request :=
  ⟨course, h, .refl course⟩

theorem Awaits.extend {request : Option Request} (h : Awaits course request)
    (hextends : later.Extends course) : Awaits later request := by
  obtain ⟨asking, hasks, hcourse⟩ := h
  exact ⟨asking, hasks, hextends.trans hcourse⟩

/-- Nothing is waited for in the phase `idle`, and one answer in every other. -/
theorem Awaits.idle_iff {request : Option Request} (h : Awaits course request) :
    course.phase = .idle ↔ request = none := by
  obtain ⟨asking, hasks, hcourse⟩ := h
  rw [hcourse.phase]
  cases hasks <;> simp_all

theorem Awaits.push {data : CommitData} (h : Awaits course (some (.push data))) :
    course.phase = .pushing data.hash ∧ ∃ rest, course.commits = data :: rest := by
  obtain ⟨asking, hasks, hcourse⟩ := h
  obtain ⟨more, hmore⟩ := hcourse.commits
  cases hasks with
  | push hphase hcommits =>
      exact ⟨hcourse.phase.trans hphase, _, hmore.symm.trans (congrArg (· ++ more) hcommits)⟩

theorem Awaits.deliver {hash : CommitHash} {data : Option CommitData} {reason : LoadReason}
    (h : Awaits course (some (.deliver hash data reason))) :
    course.phase = .pulling reason hash := by
  obtain ⟨asking, hasks, hcourse⟩ := h
  rw [hcourse.phase]
  cases hasks with
  | update hphase => exact hphase
  | load hphase => exact hphase

theorem Awaits.subscribe (h : Awaits course (some .subscribe)) : course.phase = .subscribing := by
  obtain ⟨asking, hasks, hcourse⟩ := h
  cases hasks with
  | subscribe hphase => exact hcourse.phase.trans hphase

theorem Awaits.fetchHead (h : Awaits course (some .fetchHead)) :
    course.phase = .fetchingHead := by
  obtain ⟨asking, hasks, hcourse⟩ := h
  cases hasks with
  | fetchHead hphase => exact hcourse.phase.trans hphase

theorem Awaits.findAncestor {queued head : CommitHash}
    (h : Awaits course (some (.findAncestor queued head))) :
    course.phase = .findingAncestor head ∧
      ∃ data rest, data.hash = queued ∧ course.commits = data :: rest := by
  obtain ⟨asking, hasks, hcourse⟩ := h
  obtain ⟨more, hmore⟩ := hcourse.commits
  cases hasks with
  | findAncestor hphase hcommits =>
      exact ⟨hcourse.phase.trans hphase, _, _, rfl,
        hmore.symm.trans (congrArg (· ++ more) hcommits)⟩

theorem Awaits.store {data : CommitData} (h : Awaits course (some (.store data))) :
    ∃ resolution stored queued, course.phase = .resolving resolution stored ∧
      course.commits[stored]? = some queued ∧ data = queued.withoutBranch := by
  obtain ⟨asking, hasks, hcourse⟩ := h
  obtain ⟨more, hmore⟩ := hcourse.commits
  cases hasks with
  | @store _ stored _ hphase hcommits =>
      obtain ⟨hlength, -⟩ := List.getElem?_eq_some_iff.mp hcommits
      have hqueued : course.commits[stored]? = asking.commits[stored]? := by
        rw [← hmore, List.getElem?_append_left hlength]
      exact ⟨_, _, _, hcourse.phase.trans hphase, hqueued.trans hcommits, rfl⟩

theorem Awaits.createBranch {name : BranchName} {hash : CommitHash}
    (h : Awaits course (some (.createBranch name hash))) :
    ∃ stored, course.phase = .resolving (.fork name) stored := by
  obtain ⟨asking, hasks, hcourse⟩ := h
  cases hasks with
  | createBranch hphase => exact ⟨_, hcourse.phase.trans hphase⟩

theorem Awaits.setHead {old : Option CommitHash} {new : CommitHash}
    (h : Awaits course (some (.setHead old new))) :
    old = none ∧ ∃ stored, course.phase = .resolving .forcePush stored := by
  obtain ⟨asking, hasks, hcourse⟩ := h
  cases hasks with
  | setHead hphase => exact ⟨rfl, _, hcourse.phase.trans hphase⟩

/-! ## What comes next -/

theorem Coherent.finish (h : Coherent move) : Coherent (Coordinator.finish move) := by
  rw [Coherent, course_finish]
  exact h

theorem coherent_work (hphase : coordinator.phase = .idle) : Coherent coordinator.work := by
  cases hcommits : coordinator.branch.commits with
  | cons data rest =>
      rw [work_of_cons hcommits]
      exact .push rfl hcommits
  | nil =>
      rw [work_of_nil hcommits]
      cases hdue : coordinator.due with
      | nil => exact .nothing hphase
      | cons data rest => exact .update rfl hdue

theorem coherent_next (hphase : coordinator.phase = .idle) : Coherent coordinator.next := by
  unfold next
  split_ifs with hbusy hrejoin hhalt
  · exact .nothing hphase
  · exact .subscribe rfl
  · exact .nothing hphase
  · exact coherent_work hphase

theorem coherent_refreshHead (hphase : coordinator.phase = .idle) :
    Coherent coordinator.refreshHead := by
  unfold refreshHead
  split_ifs with hconnected
  · exact .fetchHead rfl
  · exact .nothing hphase

theorem coherent_acknowledgeRejoined (hphase : coordinator.phase = .idle)
    (queued head : CommitHash) : Coherent (coordinator.acknowledgeRejoined queued head) := by
  simp only [acknowledgeRejoined]
  split_ifs with hsettled
  · exact coherent_next hphase
  · exact .load rfl (by simp)

theorem coherent_storeNext (hphase : coordinator.phase = .idle) (resolution : ForkResolution)
    (stored : Nat) : Coherent (coordinator.storeNext resolution stored) := by
  unfold storeNext
  cases hcommits : coordinator.branch.commits[stored]? with
  | some data => exact .store rfl hcommits
  | none =>
      have hstored := List.getElem?_eq_none_iff.mp hcommits
      cases resolution with
      | abandon => exact coherent_refreshHead hphase
      | fork name => exact .createBranch rfl hstored
      | forcePush => exact .setHead rfl hstored

/-! ## Answers -/

/-- Whatever an answer leads to fits the next phase. -/
theorem Handled.coherent {phase : Phase} (h : Handled coordinator phase response move)
    (hphase : coordinator.phase = .idle) : Coherent move := by
  cases h with
  | interrupted hfault => exact coherent_next hphase
  | failed hfails => exact .nothing hphase
  | synced hhash hstatus => exact coherent_next hphase
  | merged hhash hstatus hmerge => exact .load rfl (by simp)
  | forked hstatus => exact .nothing hphase
  | canceled hstatus => exact coherent_refreshHead hphase
  | loaded reason hash => exact coherent_next ((unload_phase coordinator reason).trans hphase)
  | listening hhalt => exact coherent_next hphase
  | subscribed hhalt => exact .fetchHead rfl
  | current hcommits => exact coherent_next hphase
  | behind hcommits hhead => exact .load rfl (by simp)
  | landed hcommits => exact coherent_acknowledgeRejoined hphase _ _
  | searching hcommits hhead => exact .findAncestor rfl hcommits
  | emptied hcommits => exact coherent_next hphase
  | recognised hcommits => exact coherent_acknowledgeRejoined hphase _ _
  | diverged hcommits hother => exact .nothing hphase
  | unknown hcommits => exact .push rfl hcommits
  | stored resolution count response => exact coherent_storeNext hphase resolution (count + 1)
  | refused resolution count error => exact coherent_next hphase
  | branchCreated name count => exact coherent_refreshHead hphase
  | forced count hstatus => exact coherent_next hphase
  | unforced count hstatus => exact coherent_next hphase

/-- An answer of the right kind is taken. -/
theorem Awaits.exists_handled (h : Awaits coordinator.course (some request))
    (hanswers : response.answers request) :
    ∃ move, Handled coordinator.rested coordinator.phase response move ∧
      coordinator.handle response = finish move := by
  suffices hmove : ∃ move, coordinator.rested.answer? coordinator.phase response = some move by
    obtain ⟨move, hanswer⟩ := hmove
    refine ⟨move, handled_of_answer? hanswer, ?_⟩
    rw [rested] at hanswer
    rw [handle, hanswer, Option.getD_some]
  have hcourse : coordinator.course.phase = coordinator.phase := rfl
  cases request with
  | push data =>
      cases response with
      | pushed result => exact ⟨_, by rw [← hcourse, h.push.1]; rfl⟩
      | _ => cases hanswers
  | deliver hash data reason =>
      cases response with
      | delivered result => exact ⟨_, by rw [← hcourse, h.deliver]; rfl⟩
      | _ => cases hanswers
  | subscribe =>
      cases response with
      | subscribed result => exact ⟨_, by rw [← hcourse, h.subscribe]; rfl⟩
      | _ => cases hanswers
  | fetchHead =>
      cases response with
      | head result => exact ⟨_, by rw [← hcourse, h.fetchHead]; rfl⟩
      | _ => cases hanswers
  | findAncestor queued head =>
      cases response with
      | ancestor result => exact ⟨_, by rw [← hcourse, h.findAncestor.1]; rfl⟩
      | _ => cases hanswers
  | store data =>
      cases response with
      | stored result =>
          obtain ⟨resolution, count, queued, hphase, -⟩ := h.store
          rw [← hcourse, hphase]
          cases result <;> cases resolution <;> exact ⟨_, rfl⟩
      | _ => cases hanswers
  | createBranch name hash =>
      cases response with
      | branchCreated result =>
          obtain ⟨count, hphase⟩ := h.createBranch
          rw [← hcourse, hphase]
          cases result <;> exact ⟨_, rfl⟩
      | _ => cases hanswers
  | setHead old new =>
      cases response with
      | headSet result =>
          obtain ⟨-, count, hphase⟩ := h.setHead
          rw [← hcourse, hphase]
          cases result <;> exact ⟨_, rfl⟩
      | _ => cases hanswers

/-- What is asked for after an answer fits the next phase. -/
theorem Awaits.coherent_handle (h : Awaits coordinator.course (some request))
    (hanswers : response.answers request) : Coherent (coordinator.handle response) := by
  obtain ⟨move, hhandled, hmove⟩ := h.exists_handled hanswers
  rw [hmove]
  exact (hhandled.coherent rfl).finish

/-! ## Occasions -/

theorem course_queueWorker (coordinator : Coordinator) (request : Nat) :
    (coordinator.queueWorker request).course = coordinator.course :=
  course_releaseWorkers _

/-- What a resolution that is not refused begins with. -/
def resolution (coordinator : Coordinator) : ForkResolution → Move
  | .abandon => (coordinator.resetToOrigin .canceled).refreshHead
  | resolution => coordinator.storeNext resolution 0

/-- What an occasion leads to, unless it is refused. -/
inductive Reacted (coordinator : Coordinator) : Occasion → Move → Prop where
  | committed {data : CommitData}
      (hparent : data.commit.parent? = some coordinator.branch.localHead) :
      Reacted coordinator (.commit data) (finish { coordinator with
        branch := { coordinator.branch.queueCommit data with localHead := data.hash } }.next)
  | known {data : CommitData} (hknown : coordinator.branch.knows data.hash = true) :
      Reacted coordinator (.update data) (coordinator, none)
  | announced {data : CommitData} (hunknown : coordinator.branch.knows data.hash = false) :
      Reacted coordinator (.update data)
        (finish { coordinator with branch := coordinator.branch.queueUpdate data }.next)
  | connected :
      Reacted coordinator (.connection .connected) (finish { coordinator with connected := true }.next)
  | reconnected :
      Reacted coordinator (.connection .reconnected)
        (finish { coordinator with connected := true, rejoinPending := true }.next)
  | disconnected {state : ConnectionState} (hstate : state.isConnected = false) :
      Reacted coordinator (.connection state)
        (finish ({ coordinator with connected := false, rejoinPending := true }, none))
  | resolved {resolution : ForkResolution} (hforked : coordinator.isForked = true)
      (hphase : coordinator.phase = .idle) :
      Reacted coordinator (.resolve resolution) (finish (coordinator.resolution resolution))
  /-- There is nothing to retry. -/
  | unfailed (hhalt : coordinator.halt ≠ some .failed) :
      Reacted coordinator .retry (coordinator, none)
  /-- With nothing queued the head is asked for. -/
  | refreshed (hhalt : coordinator.halt = some .failed) (hphase : coordinator.phase = .idle)
      (hcommits : coordinator.branch.commits = []) :
      Reacted coordinator .retry (finish { coordinator with halt := none }.refreshHead)
  | resumed (hhalt : coordinator.halt = some .failed) :
      Reacted coordinator .retry (finish { coordinator with halt := none }.next)
  | queued (request : Nat) :
      Reacted coordinator (.worker request) (coordinator.queueWorker request, none)

theorem reacted_commit {data : CommitData}
    (hcommit : (coordinator.commitLocally data).toOption = some move) :
    Reacted coordinator (.commit data) move := by
  unfold commitLocally at hcommit
  split_ifs at hcommit with hparent
  · exact Option.some.inj hcommit ▸ .committed hparent
  · cases hcommit

theorem reacted_resolve {resolution : ForkResolution}
    (hresolve : (coordinator.resolveFork resolution).toOption = some move) :
    Reacted coordinator (.resolve resolution) move := by
  unfold resolveFork at hresolve
  split_ifs at hresolve with hforked hidle
  · cases hresolve
  · cases hresolve
  · obtain rfl : finish (coordinator.resolution resolution) = move := by
      cases resolution <;> exact Option.some.inj hresolve
    exact .resolved (by simpa using hforked) (by simpa using hidle)

theorem reacted_retry (coordinator : Coordinator) :
    Reacted coordinator .retry coordinator.retry := by
  simp only [retry]
  split_ifs with hfailed hempty
  · exact .unfailed hfailed
  · exact .refreshed (not_not.mp hfailed) hempty.1 (by simpa using hempty.2.2.2)
  · exact .resumed (not_not.mp hfailed)

theorem reacted_of_react (hreact : coordinator.react occasion = some move) :
    Reacted coordinator occasion move := by
  cases occasion with
  | commit data => exact reacted_commit hreact
  | update data =>
      obtain rfl := Option.some.inj hreact
      unfold remoteUpdate
      split_ifs with hknown
      · exact .known hknown
      · exact .announced (eq_false_of_ne_true hknown)
  | connection state =>
      obtain rfl := Option.some.inj hreact
      cases state with
      | connected => exact .connected
      | reconnected => exact .reconnected
      | disconnected | reconnecting | error => exact .disconnected rfl
  | resolve resolution => exact reacted_resolve hreact
  | retry => exact Option.some.inj hreact ▸ reacted_retry coordinator
  | worker request => exact Option.some.inj hreact ▸ .queued request

theorem coherent_resolution (hphase : coordinator.phase = .idle) (resolution : ForkResolution) :
    Coherent (coordinator.resolution resolution) := by
  cases resolution with
  | abandon => exact coherent_refreshHead hphase
  | fork name => exact coherent_storeNext hphase _ 0
  | forcePush => exact coherent_storeNext hphase _ 0

/-- What a coordinator with nothing under way asks for fits the phase that it enters. -/
theorem coherent_react (hphase : coordinator.phase = .idle)
    (hreact : coordinator.react occasion = some move) : Coherent move := by
  have hnext (prepared : Coordinator) (hsame : prepared.phase = coordinator.phase) :
      Coherent (finish prepared.next) :=
    (coherent_next (hsame.trans hphase)).finish
  cases reacted_of_react hreact with
  | committed hparent => exact hnext _ rfl
  | known hknown => exact .nothing hphase
  | announced hunknown => exact hnext _ rfl
  | connected => exact hnext _ rfl
  | reconnected => exact hnext _ rfl
  | disconnected hstate => exact Coherent.finish (.nothing hphase)
  | resolved hforked hidle => exact (coherent_resolution hphase _).finish
  | unfailed hhalt => exact .nothing hphase
  | refreshed hhalt hidle hcommits =>
      apply Coherent.finish
      exact coherent_refreshHead hphase
  | resumed hhalt => exact hnext _ rfl
  | queued number =>
      exact .nothing ((congrArg Course.phase (course_queueWorker coordinator number)).trans hphase)

theorem phase_finish (move : Move) : (finish move).1.phase = move.1.phase :=
  congrArg Course.phase (course_finish move)

/-- A resolution begins with what is queued first, unless it drops the queue. -/
theorem isOrdinary_or_resolution (hphase : coordinator.phase.isOrdinary)
    (resolution : ForkResolution) :
    (coordinator.resolution resolution).1.phase.isOrdinary ∨
      (coordinator.resolution resolution).1.phase = .resolving resolution 0 := by
  cases resolution with
  | abandon => exact .inl (isOrdinary_refreshHead hphase)
  | fork name =>
      exact (isOrdinary_or_storeNext hphase _ 0).imp_right fun hstore =>
        congrArg Coordinator.phase hstore
  | forcePush =>
      exact (isOrdinary_or_storeNext hphase _ 0).imp_right fun hstore =>
        congrArg Coordinator.phase hstore

/-- With nothing under way, only a resolution is begun without an answer. -/
theorem isOrdinary_or_react (hphase : coordinator.phase = .idle)
    (hreact : coordinator.react occasion = some move) :
    move.1.phase.isOrdinary ∨ ∃ resolution, occasion = .resolve resolution ∧
      move.1.phase = .resolving resolution 0 := by
  have hordinary : coordinator.phase.isOrdinary := hphase ▸ rfl
  have hnext (prepared : Coordinator) (hsame : prepared.phase = coordinator.phase) :
      (finish prepared.next).1.phase.isOrdinary := by
    rw [phase_finish]
    exact isOrdinary_next (hsame ▸ hordinary)
  cases reacted_of_react hreact with
  | committed hparent => exact .inl (hnext _ rfl)
  | known hknown => exact .inl hordinary
  | announced hunknown => exact .inl (hnext _ rfl)
  | connected => exact .inl (hnext _ rfl)
  | reconnected => exact .inl (hnext _ rfl)
  | disconnected hstate =>
      rw [phase_finish]
      exact .inl hordinary
  | resolved hforked hidle =>
      rw [phase_finish]
      exact (isOrdinary_or_resolution hordinary _).imp_right fun hresolving =>
        ⟨_, rfl, hresolving⟩
  | unfailed hhalt => exact .inl hordinary
  | refreshed hhalt hidle hcommits =>
      rw [phase_finish]
      exact .inl (isOrdinary_refreshHead hordinary)
  | resumed hhalt => exact .inl (hnext _ rfl)
  | queued number =>
      have hsame : (coordinator.queueWorker number).phase = coordinator.phase :=
        congrArg Course.phase (course_queueWorker coordinator number)
      rw [← hsame] at hordinary
      exact .inl hordinary

theorem extends_of_busy (hbusy : coordinator.phase ≠ .idle)
    (hextends : coordinator.course.Extends course) :
    (finish coordinator.next).2 = none ∧ (finish coordinator.next).1.course.Extends course := by
  rw [next_of_busy hbusy, course_finish]
  exact ⟨rfl, hextends⟩

/-- While an answer is awaited, nothing is asked for and only the queues grow. -/
theorem react_of_busy (hbusy : coordinator.phase ≠ .idle)
    (hreact : coordinator.react occasion = some move) :
    move.2 = none ∧ move.1.course.Extends coordinator.course := by
  have hsame (halt : Option Halt) (connected rejoinPending : Bool) :
      Course.Extends { coordinator with halt, connected, rejoinPending }.course
        coordinator.course :=
    ⟨rfl, rfl, List.prefix_rfl, List.prefix_rfl, fun _ => rfl⟩
  cases reacted_of_react hreact with
  | committed hparent =>
      refine extends_of_busy hbusy
        ⟨rfl, rfl, List.prefix_append .., List.prefix_rfl, fun hsame => ?_⟩
      exact absurd (List.append_right_eq_self.mp hsame) (List.cons_ne_nil _ [])
  | known hknown => exact ⟨rfl, .refl _⟩
  | announced hunknown =>
      exact extends_of_busy hbusy ⟨rfl, rfl, List.prefix_rfl, List.prefix_append .., fun _ => rfl⟩
  | connected => exact extends_of_busy hbusy (hsame ..)
  | reconnected => exact extends_of_busy hbusy (hsame ..)
  | disconnected hstate => exact ⟨rfl, (course_finish _).symm ▸ hsame ..⟩
  | resolved hforked hidle => exact absurd hidle hbusy
  | unfailed hhalt => exact ⟨rfl, .refl _⟩
  | refreshed hhalt hidle hcommits => exact absurd hidle hbusy
  | resumed hhalt => exact extends_of_busy hbusy (hsame ..)
  | queued number => exact ⟨rfl, course_queueWorker coordinator number ▸ .refl _⟩

/-- Without an answer the phase stays, or becomes an ordinary one, unless a resolution begins. -/
theorem phase_react (hreact : coordinator.react occasion = some move) :
    move.1.phase = coordinator.phase ∨ move.1.phase.isOrdinary ∨
      ∃ resolution, occasion = .resolve resolution ∧ move.1.phase = .resolving resolution 0 := by
  by_cases hphase : coordinator.phase = .idle
  · exact .inr (isOrdinary_or_react hphase hreact)
  · exact .inl (react_of_busy hphase hreact).2.phase

/-- The commit that the coordinator is told of. -/
def Occasion.made? : Occasion → Option CommitData
  | .commit data => some data
  | _ => none

/-- A commit that is made is queued last, and nothing else queues one. -/
theorem commits_react_suffix (hreact : coordinator.react occasion = some move) :
    move.1.branch.commits <:+ coordinator.branch.commits ++ occasion.made?.toList := by
  have hkept : coordinator.branch.commits <:+ coordinator.branch.commits ++ [] :=
    (List.append_nil _).symm ▸ List.suffix_rfl
  have hnext (prepared : Coordinator) :
      (finish prepared.next).1.branch.commits <:+ prepared.branch.commits := by
    rw [commits_finish]
    exact commits_next_suffix prepared
  cases reacted_of_react hreact with
  | committed hparent => exact hnext _
  | known hknown => exact hkept
  | announced hunknown => exact (hnext _).trans hkept
  | connected => exact (hnext _).trans hkept
  | reconnected => exact (hnext _).trans hkept
  | disconnected hstate =>
      rw [commits_finish]
      exact hkept
  | @resolved resolution hforked hidle =>
      rw [commits_finish]
      cases resolution with
      | abandon =>
          rw [Coordinator.resolution, branch_refreshHead]
          exact List.nil_suffix
      | fork name => exact (commits_storeNext_suffix coordinator _ 0).trans hkept
      | forcePush => exact (commits_storeNext_suffix coordinator _ 0).trans hkept
  | unfailed hhalt => exact hkept
  | refreshed hhalt hidle hcommits =>
      rw [commits_finish, branch_refreshHead]
      exact hkept
  | resumed hhalt => exact (hnext _).trans hkept
  | queued number =>
      have hsame : (coordinator.queueWorker number).branch.commits = coordinator.branch.commits :=
        congrArg Course.commits (course_queueWorker coordinator number)
      rw [hsame]
      exact hkept

/-- Only a commit that is made is queued. -/
theorem mem_commits_react {data : CommitData} (hreact : coordinator.react occasion = some move)
    (hmem : data ∈ move.1.branch.commits) :
    data ∈ coordinator.branch.commits ∨ occasion = .commit data := by
  refine (List.mem_append.mp ((commits_react_suffix hreact).subset hmem)).imp_right fun hmade => ?_
  cases occasion with
  | commit made => rw [List.mem_singleton.mp hmade]
  | _ => cases hmade

/-- An occasion changes nothing of what is awaited, unless nothing is. -/
theorem Awaits.react {request : Option Request} (h : Awaits coordinator.course request)
    (hreact : coordinator.react occasion = some move) :
    (request = none ∨ move.2 = none) ∧ Awaits move.1.course (move.2.or request) := by
  by_cases hphase : coordinator.phase = .idle
  · obtain rfl := h.idle_iff.mp hphase
    rw [Option.or_none]
    exact ⟨.inl rfl, (coherent_react hphase hreact).awaits⟩
  · obtain ⟨hnone, hextends⟩ := react_of_busy hphase hreact
    rw [hnone, Option.none_or]
    exact ⟨.inr rfl, h.extend hextends⟩

end Coordinator

/-! ## Dialogues -/

/-- A coordinator, and what was asked of those who answer it. -/
structure Dialogue where
  coordinator : Coordinator
  /-- The requests that wait for an answer, the latest first. -/
  unanswered : List Request
  /-- The requests that were answered, the latest first. -/
  answered : List (Request × Response)

namespace Dialogue

open Coordinator

def start (project : ProjectId) (branch : BranchName) (head : CommitHash) : Dialogue :=
  { coordinator := .start project branch head, unanswered := [], answered := [] }

inductive Input where
  | told (occasion : Occasion)
  | answer (response : Response)

/-- The move that an input leads to.  An occasion may be refused; an answer is only given to
the request made last, and in kind. -/
def move? (dialogue : Dialogue) : Input → Option Coordinator.Move
  | .told occasion => dialogue.coordinator.react occasion
  | .answer response =>
      if dialogue.unanswered.head?.any response.answers then
        some (dialogue.coordinator.handle response)
      else none

/-- The request made last is answered. -/
def close (dialogue : Dialogue) : Input → Dialogue
  | .told _ => dialogue
  | .answer response =>
      { dialogue with
        unanswered := dialogue.unanswered.tail
        answered := (dialogue.unanswered.head?.map (·, response)).toList ++ dialogue.answered }

/-- Takes a move of the coordinator over. -/
def take (dialogue : Dialogue) (move : Coordinator.Move) : Dialogue :=
  { dialogue with coordinator := move.1, unanswered := move.2.toList ++ dialogue.unanswered }

def step (dialogue : Dialogue) (input : Input) : Dialogue :=
  match dialogue.move? input with
  | some move => (dialogue.close input).take move
  | none => dialogue

def run (dialogue : Dialogue) (inputs : List Input) : Dialogue := inputs.foldl step dialogue

/-- What a coordinator waits for is all that is unanswered. -/
def Attentive (dialogue : Dialogue) : Prop :=
  ∃ request : Option Request, dialogue.unanswered = request.toList ∧
    Awaits dialogue.coordinator.course request

variable {dialogue : Dialogue} {input : Input} {move : Coordinator.Move} {request : Request}
  {response : Response}

theorem attentive_start (project : ProjectId) (branch : BranchName) (head : CommitHash) :
    (start project branch head).Attentive :=
  ⟨none, rfl, Asks.awaits (.nothing rfl)⟩

theorem step_of_none (hmove : dialogue.move? input = none) : dialogue.step input = dialogue := by
  rw [step, hmove]

theorem step_of_some (hmove : dialogue.move? input = some move) :
    dialogue.step input = (dialogue.close input).take move := by
  rw [step, hmove]

theorem run_cons (dialogue : Dialogue) (input : Input) (inputs : List Input) :
    dialogue.run (input :: inputs) = (dialogue.step input).run inputs :=
  rfl

theorem Attentive.awaits (h : dialogue.Attentive) (hunanswered : dialogue.unanswered = [request]) :
    Awaits dialogue.coordinator.course (some request) := by
  obtain ⟨awaited, hawaited, hawaits⟩ := h
  cases awaited with
  | none => cases hawaited.symm.trans hunanswered
  | some other =>
      obtain ⟨rfl, -⟩ := List.cons.inj (hawaited.symm.trans hunanswered)
      exact hawaits

/-- An answer in kind to the request that was made last is taken. -/
theorem move?_of_answer {rest : List Request} (hunanswered : dialogue.unanswered = request :: rest)
    (hanswers : response.answers request) :
    dialogue.move? (.answer response) = some (dialogue.coordinator.handle response) := by
  simp [move?, hunanswered, hanswers]

/-- An answer that is taken answers what is awaited. -/
theorem Attentive.answer (h : dialogue.Attentive)
    (hmove : dialogue.move? (.answer response) = some move) :
    ∃ request, dialogue.unanswered = [request] ∧ response.answers request ∧
      Awaits dialogue.coordinator.course (some request) ∧
      move = dialogue.coordinator.handle response := by
  obtain ⟨awaited, hunanswered, hawaits⟩ := h
  simp only [move?, hunanswered] at hmove
  cases awaited with
  | none => simp at hmove
  | some request =>
      split_ifs at hmove with hanswers
      exact ⟨request, hunanswered, by simpa using hanswers, hawaits, (Option.some.inj hmove).symm⟩

/-- What an answer that is taken leads to. -/
theorem Attentive.handled (h : dialogue.Attentive)
    (hmove : dialogue.move? (.answer response) = some move) :
    ∃ request handled, dialogue.unanswered = [request] ∧ response.answers request ∧
      Awaits dialogue.coordinator.course (some request) ∧
      Handled dialogue.coordinator.rested dialogue.coordinator.phase response handled ∧
      move = finish handled := by
  obtain ⟨request, hunanswered, hanswers, hawaits, rfl⟩ := h.answer hmove
  obtain ⟨handled, hhandled, hhandle⟩ := hawaits.exists_handled hanswers
  exact ⟨request, handled, hunanswered, hanswers, hawaits, hhandled, hhandle⟩

theorem Attentive.step (h : dialogue.Attentive) (input : Input) :
    (dialogue.step input).Attentive := by
  cases hmove : dialogue.move? input with
  | none => exact (step_of_none hmove).symm ▸ h
  | some move =>
      rw [step_of_some hmove]
      cases input with
      | told occasion =>
          obtain ⟨request, hunanswered, hawaits⟩ := h
          obtain ⟨hone, hnext⟩ := hawaits.react hmove
          refine ⟨move.2.or request, ?_, hnext⟩
          simp only [take, close, hunanswered]
          rcases hone with rfl | hnone
          · simp
          · simp [hnone]
      | answer response =>
          obtain ⟨request, hunanswered, hanswers, hawaits, rfl⟩ := h.answer hmove
          refine ⟨_, ?_, (hawaits.coherent_handle hanswers).awaits⟩
          simp [take, close, hunanswered]

/-- A request that an input leads to fits the phase that it leads to. -/
theorem Attentive.asks (h : dialogue.Attentive) (hmove : dialogue.move? input = some move)
    (hrequest : move.2 = some request) : Asks move.1.course (some request) := by
  have hcoherent : Coherent move := by
    cases input with
    | told occasion =>
        by_cases hphase : dialogue.coordinator.phase = .idle
        · exact coherent_react hphase hmove
        · have hunasked := (react_of_busy hphase hmove).1
          rw [hrequest] at hunasked
          cases hunasked
    | answer response =>
        obtain ⟨asked, hunanswered, hanswers, hawaits, rfl⟩ := h.answer hmove
        exact hawaits.coherent_handle hanswers
  rw [Coherent, hrequest] at hcoherent
  exact hcoherent

/-- Whatever a coordinator is told while it waits, it goes on waiting for the same answer. -/
theorem run_told {inputs : List Input}
    (htold : ∀ input ∈ inputs, ∃ occasion, input = .told occasion)
    (hbusy : dialogue.coordinator.phase ≠ .idle) :
    (dialogue.run inputs).coordinator.course.Extends dialogue.coordinator.course ∧
      (dialogue.run inputs).unanswered = dialogue.unanswered ∧
      (dialogue.run inputs).answered = dialogue.answered := by
  induction inputs generalizing dialogue with
  | nil => exact ⟨.refl _, rfl, rfl⟩
  | cons input rest ih =>
      obtain ⟨occasion, rfl⟩ := htold _ List.mem_cons_self
      have hrest : ∀ input ∈ rest, ∃ occasion, input = .told occasion :=
        fun input hmem => htold input (.tail _ hmem)
      rw [run_cons]
      cases hmove : dialogue.move? (.told occasion) with
      | none =>
          rw [step_of_none hmove]
          exact ih hrest hbusy
      | some move =>
          obtain ⟨hunasked, hextends⟩ := react_of_busy hbusy hmove
          have hstill :
              ((dialogue.close (.told occasion)).take move).coordinator.phase ≠ .idle :=
            fun hidle => hbusy (hextends.phase.symm.trans hidle)
          rw [step_of_some hmove]
          obtain ⟨hlater, hunanswered, hanswered⟩ := ih hrest hstill
          refine ⟨hlater.trans hextends, hunanswered.trans ?_, hanswered⟩
          simp [take, close, hunasked]

theorem Attentive.run (h : dialogue.Attentive) (inputs : List Input) :
    (dialogue.run inputs).Attentive := by
  induction inputs generalizing dialogue with
  | nil => exact h
  | cons input rest ih => exact ih (h.step input)

/-- What every step keeps is kept in a run. -/
theorem Attentive.run_keeps (kept : Dialogue → Prop)
    (hstep : ∀ dialogue input, dialogue.Attentive → kept dialogue → kept (dialogue.step input))
    (h : dialogue.Attentive) (hbefore : kept dialogue) (inputs : List Input) :
    kept (dialogue.run inputs) := by
  induction inputs generalizing dialogue with
  | nil => exact hbefore
  | cons input rest ih => exact ih (h.step input) (hstep dialogue input h hbefore)

end Dialogue

end Coauthor
