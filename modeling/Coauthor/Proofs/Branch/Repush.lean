import Coauthor.Proofs.Branch.Balance
import Coauthor.Proofs.Branch.Rejoin

/-!
# A push in doubt

After a fault of the transport nobody knows whether a push has arrived.  The coordinator rejoins,
and pushes the commit again once the server has given its head and does not know the commit.
While the commit is first in the queue, a coordinator that waits for nothing has a rejoin due or
has stopped.  But a rejoin is no longer due once it has begun, and a coordinator that stops in
the middle of it, since the server refused an answer, forgets that it has not asked.  When it is
told to go on it pushes the commit again at once.  These are the only two ways.
-/

namespace Coauthor

open Coordinator

/-- The coordinator neither pushes nor loads. -/
def Phase.inquires : Phase → Bool
  | .pushing _ | .pulling .. => false
  | _ => true

namespace Coordinator

/-- The first queued commit is not pushed yet, because the server is asked first or the
coordinator has stopped. -/
structure Course.Withholds (course : Course) : Prop where
  inquires : course.phase.inquires
  due : course.phase = .idle → course.rejoinPending = true ∨ course.halt.isSome

/-- A coordinator that has stopped on an error, with no rejoin due any more. -/
structure Forgetful (coordinator : Coordinator) : Prop where
  idle : coordinator.phase = .idle
  failed : coordinator.halt = some .failed
  connected : coordinator.connected = true
  rejoined : coordinator.rejoinPending = false

variable {coordinator prepared : Coordinator} {course : Course} {phase : Phase}
  {response : Response} {move : Move} {request : Request} {occasion : Occasion}
  {data : CommitData} {rest : List CommitData} {hash head : CommitHash}

/-! ## What is withheld -/

theorem Course.Withholds.of_idle (hphase : course.phase = .idle)
    (hdue : course.rejoinPending = true ∨ course.halt.isSome) : course.Withholds :=
  ⟨hphase ▸ rfl, fun _ => hdue⟩

theorem Course.Withholds.of_busy (hinquires : course.phase.inquires)
    (hphase : course.phase ≠ .idle) : course.Withholds :=
  ⟨hinquires, fun hidle => absurd hidle hphase⟩

theorem withholds_finish (h : move.1.course.Withholds) : (finish move).1.course.Withholds := by
  rw [course_finish]
  exact h

/-- With a rejoin due or a reason to stop, to go on pushes nothing. -/
theorem withholds_next (hphase : prepared.phase = .idle)
    (hdue : prepared.rejoinPending = true ∨ prepared.halt.isSome) :
    prepared.next.1.course.Withholds := by
  unfold next
  split_ifs with hbusy hrejoin hhalt
  · exact .of_idle hphase hdue
  · exact .of_busy rfl nofun
  · exact .of_idle hphase hdue
  · exact absurd hdue (not_or.mpr ⟨hrejoin, hhalt⟩)

theorem withholds_storeNext (hqueue : coordinator.branch.commits ≠ [])
    (resolution : ForkResolution) (stored : Nat)
    (hkept : (coordinator.storeNext resolution stored).1.branch.commits =
      coordinator.branch.commits) :
    (coordinator.storeNext resolution stored).1.course.Withholds := by
  unfold storeNext at hkept ⊢
  cases hcommits : coordinator.branch.commits[stored]? with
  | some data => exact .of_busy rfl nofun
  | none =>
      rw [hcommits] at hkept
      cases resolution with
      | fork name => exact .of_busy rfl nofun
      | forcePush => exact .of_busy rfl nofun
      | abandon =>
          simp only [branch_refreshHead] at hkept
          exact absurd hkept.symm hqueue

/-- Unless the server does not know the first queued commit, an answer that leaves it in the
queue does not lead to a push of it. -/
theorem Handled.withholds (h : Handled coordinator phase response move)
    (hphase : coordinator.phase = .idle) (hinquires : phase.inquires)
    (hsuits : phase.suits coordinator.halt) (hqueue : coordinator.branch.commits ≠ [])
    (hkept : move.1.branch.commits = coordinator.branch.commits)
    (hknown : ∀ what, response ≠ .ancestor (.error (.notFound what))) :
    move.1.course.Withholds := by
  have hleft (htail : coordinator.branch.commits.tail = coordinator.branch.commits) : False := by
    obtain ⟨data, rest, hcommits⟩ := List.exists_cons_of_ne_nil hqueue
    rw [hcommits, List.tail_cons] at htail
    exact List.cons_ne_self data rest htail.symm
  cases h with
  | interrupted hfault => exact withholds_next hphase (.inl rfl)
  | @failed _ _ error hfails =>
      exact .of_idle hphase (.inr (isSome_halt_fail coordinator error))
  | synced hhash hstatus => cases hinquires
  | merged hhash hstatus hmerge => cases hinquires
  | forked hstatus => cases hinquires
  | canceled hstatus => cases hinquires
  | loaded reason hash => cases hinquires
  | listening hhalt => exact withholds_next hphase (.inr hhalt)
  | subscribed hhalt => exact .of_busy rfl nofun
  | current hcommits => exact absurd hcommits hqueue
  | behind hcommits hhead => exact absurd hcommits hqueue
  | landed hcommits =>
      rw [commits_acknowledgeRejoined] at hkept
      exact (hleft hkept).elim
  | searching hcommits hhead => exact .of_busy rfl nofun
  | emptied hcommits => exact absurd hcommits hqueue
  | recognised hcommits =>
      rw [commits_acknowledgeRejoined] at hkept
      exact (hleft hkept).elim
  | diverged hcommits hother => exact .of_idle hphase (.inr rfl)
  | unknown hcommits => exact absurd rfl (hknown _)
  | stored resolution count result => exact withholds_storeNext hqueue _ _ hkept
  | refused resolution count error =>
      obtain ⟨hash, hhalt⟩ := halt_of_isForked (isForked_of_suits hsuits)
      exact withholds_next hphase (.inr (hhalt ▸ rfl))
  | branchCreated name count =>
      rw [onBranchCreated, branch_refreshHead] at hkept
      exact absurd hkept.symm hqueue
  | forced count hstatus =>
      rw [commits_next] at hkept
      exact absurd hkept.symm hqueue
  | unforced count hstatus =>
      obtain ⟨hash, hhalt⟩ := halt_of_isForked (isForked_of_suits hsuits)
      exact withholds_next hphase (.inr (hhalt ▸ rfl))

/-- Of all that a coordinator is told, only that it go on after an error makes it push a commit
that it withholds. -/
theorem withholds_react (h : coordinator.course.Withholds)
    (hsequenced : coordinator.course.Sequenced) (hqueue : coordinator.branch.commits ≠ [])
    (hreact : coordinator.react occasion = some move)
    (hkept : move.1.branch.commits = coordinator.branch.commits ++ occasion.made?.toList)
    (hretry : occasion = .retry → ¬ coordinator.Forgetful) : move.1.course.Withholds := by
  by_cases hphase : coordinator.phase = .idle
  · have hdue := h.due hphase
    have hnone (hempty : move.1.branch.commits = []) : False := by
      rw [hempty] at hkept
      exact hqueue (List.append_eq_nil_iff.mp hkept.symm).1
    cases reacted_of_react hreact with
    | committed hparent => exact withholds_finish (withholds_next hphase hdue)
    | known hknown => exact h
    | announced hunknown => exact withholds_finish (withholds_next hphase hdue)
    | connected => exact withholds_finish (withholds_next hphase hdue)
    | reconnected => exact withholds_finish (withholds_next hphase (.inl rfl))
    | disconnected hstate => exact withholds_finish (.of_idle hphase (.inl rfl))
    | @resolved resolution hforked hidle =>
        rw [commits_finish] at hkept hnone
        refine withholds_finish ?_
        cases resolution with
        | abandon =>
            rw [Coordinator.resolution, branch_refreshHead] at hnone
            exact (hnone rfl).elim
        | fork name =>
            exact withholds_storeNext hqueue _ 0 (hkept.trans (List.append_nil _))
        | forcePush =>
            exact withholds_storeNext hqueue _ 0 (hkept.trans (List.append_nil _))
    | unfailed hhalt => exact h
    | refreshed hhalt hidle hcommits => exact absurd hcommits hqueue
    | resumed hhalt =>
        have hrejoin : coordinator.rejoinPending = true := by
          by_contra hsettled
          have hrejoined := eq_false_of_ne_true hsettled
          have hconnected : coordinator.connected = true := by
            by_contra hdown
            exact hsettled (hsequenced.alert (eq_false_of_ne_true hdown))
          exact hretry rfl ⟨hphase, hhalt, hconnected, hrejoined⟩
        exact withholds_finish (withholds_next hphase (.inl hrejoin))
    | queued number =>
        rw [course_queueWorker]
        exact h
  · obtain ⟨-, hextends⟩ := react_of_busy hphase hreact
    have hsame : move.1.course.phase = coordinator.phase := hextends.phase
    refine .of_busy ?_ (hsame ▸ hphase)
    rw [hsame]
    exact h.inquires

/-! ## What is pushed again -/

/-- What the server does not know is pushed. -/
theorem handle_unknown (hphase : coordinator.phase = .findingAncestor head)
    (hcommits : coordinator.branch.commits = data :: rest) (what : String) :
    (coordinator.handle (.ancestor (.error (.notFound what)))).2 = some (.push data) := by
  rw [handle_ancestor hphase]
  have hrested : coordinator.rested.branch.commits = data :: rest := hcommits
  simp only [onAncestor, hrested]
  rfl

/-- With a commit queued, to go on after an error is to do what comes next. -/
theorem retry_of_queued (hhalt : coordinator.halt = some .failed)
    (hcommits : coordinator.branch.commits ≠ []) :
    coordinator.retry = finish { coordinator with halt := none }.next := by
  simp [Coordinator.retry, hhalt, hcommits]

/-- A forgetful coordinator that is told to go on pushes the first queued commit at once. -/
theorem Forgetful.retry (h : coordinator.Forgetful)
    (hcommits : coordinator.branch.commits = data :: rest) :
    coordinator.retry.2 = some (.push data) := by
  let resumed : Coordinator := { coordinator with halt := none }
  have hretry : coordinator.retry = finish resumed.next :=
    retry_of_queued h.failed (hcommits ▸ List.cons_ne_nil data rest)
  have hnext : resumed.next = resumed.work := next_eq_work h.idle h.connected h.rejoined rfl
  have hwork : resumed.work = resumed.push data := work_of_cons hcommits
  rw [hretry, hnext, hwork]
  rfl

end Coordinator

/-! ## Dialogues -/

namespace Dialogue

/-- The server has given this head in a run, when it was asked for one. -/
def Fetched (dialogue : Dialogue) (inputs : List Input) (head : CommitHash) : Prop :=
  ∃ before after, inputs = before ++ .answer (.head (.ok (some head))) :: after ∧
    (dialogue.run before).unanswered = [.fetchHead]

/-- The commit is first in the queue, and withheld. -/
structure Withholds (dialogue : Dialogue) (data : CommitData) (rest : List CommitData) : Prop where
  attentive : dialogue.Attentive
  sequenced : dialogue.coordinator.course.Sequenced
  queue : dialogue.queue = data :: rest
  fresh : data ∉ rest
  withholds : dialogue.coordinator.course.Withholds

/-- It is unknown whether the commit has arrived: it is withheld while it is queued. -/
structure Doubts (dialogue : Dialogue) (data : CommitData) : Prop where
  attentive : dialogue.Attentive
  sequenced : dialogue.coordinator.course.Sequenced
  withheld : data ∈ dialogue.queue → ∃ rest, dialogue.Withholds data rest

/-- What makes the coordinator push the first queued commit although it was withheld: the server
does not know the commit, or the coordinator is told to go on and has forgotten to ask. -/
inductive Releases (dialogue : Dialogue) (data : CommitData) : Input → Prop where
  | unknown {head : CommitHash} (what : String)
      (hunanswered : dialogue.unanswered = [.findAncestor data.hash head]) :
      Releases dialogue data (.answer (.ancestor (.error (.notFound what))))
  | forgotten (hforgetful : dialogue.coordinator.Forgetful) :
      Releases dialogue data (.told .retry)

variable {dialogue : Dialogue} {input : Input} {inputs : List Input} {data : CommitData}
  {rest : List CommitData} {head : CommitHash} {move : Coordinator.Move} {error : RemoteError}

/-- A commit that stays queued and is not released is withheld further. -/
theorem Withholds.step (h : dialogue.Withholds data rest)
    (hkept : (dialogue.step input).queue = dialogue.queue ++ (dialogue.accepted? input).toList)
    (hreleases : ¬ dialogue.Releases data input) :
    (dialogue.step input).coordinator.course.Withholds := by
  cases hmove : dialogue.move? input with
  | none => exact (step_of_none hmove).symm ▸ h.withholds
  | some move =>
      rw [accepted?, hmove] at hkept
      rw [step_of_some hmove] at hkept ⊢
      have hcommits : dialogue.coordinator.branch.commits = data :: rest := h.queue
      have hnonempty : dialogue.coordinator.branch.commits ≠ [] :=
        hcommits ▸ List.cons_ne_nil data rest
      cases input with
      | told occasion =>
          refine withholds_react h.withholds h.sequenced hnonempty hmove hkept ?_
          rintro rfl hforgetful
          exact hreleases (.forgotten hforgetful)
      | answer response =>
          obtain ⟨request, handled, hunanswered, hanswers, hawaits, hhandled, rfl⟩ :=
            h.attentive.handled hmove
          have hstays : handled.1.branch.commits = dialogue.coordinator.branch.commits := by
            rw [← commits_finish]
            exact hkept.trans (List.append_nil _)
          have hknown (what : String) : response ≠ .ancestor (.error (.notFound what)) := by
            rintro rfl
            cases request with
            | findAncestor queued head =>
                obtain ⟨-, first, more, rfl, hfirst⟩ := hawaits.findAncestor
                obtain ⟨rfl, -⟩ := List.cons.inj (hfirst.symm.trans hcommits)
                exact hreleases (.unknown what hunanswered)
            | _ => cases hanswers
          exact withholds_finish (hhandled.withholds rfl h.withholds.inquires h.sequenced.suits
            hnonempty hstays hknown)

/-- If the first queued commit is still queued after an input, nothing has left the queue. -/
theorem Withholds.queue_step (h : dialogue.Withholds data rest)
    (haccepted : dialogue.accepted? input ≠ some data)
    (hmem : data ∈ (dialogue.step input).queue) :
    (dialogue.step input).queue = dialogue.queue ++ (dialogue.accepted? input).toList := by
  have hsuffix := h.attentive.queue_step_suffix input
  rw [h.queue, List.cons_append] at hsuffix ⊢
  refine (List.suffix_cons_iff.mp hsuffix).resolve_right fun hshorter => ?_
  rcases List.mem_append.mp (hshorter.subset hmem) with hold | hnew
  · exact h.fresh hold
  · exact haccepted (Option.mem_toList.mp hnew)

/-- A commit that is withheld is pushed exactly when it is released. -/
theorem Withholds.request?_eq_push_iff (h : dialogue.Withholds data rest)
    (haccepted : dialogue.accepted? input ≠ some data) :
    dialogue.request? input = some (.push data) ↔ dialogue.Releases data input := by
  constructor
  · intro hrequest
    by_contra hreleases
    have hfirst := h.attentive.first_of_push hrequest
    have hwithholds := h.step (h.queue_step haccepted (List.mem_of_head? hfirst)) hreleases
    obtain ⟨move, hmove, hpush⟩ := Option.bind_eq_some_iff.mp hrequest
    have hpushing := (h.attentive.asks hmove hpush).awaits.push.1
    rw [step_of_some hmove] at hwithholds
    have hinquires := hwithholds.inquires
    simp only [take] at hinquires
    rw [hpushing] at hinquires
    cases hinquires
  · rintro (⟨what, hunanswered⟩ | hforgetful)
    · simp only [request?, move?, hunanswered]
      exact handle_unknown (h.attentive.awaits hunanswered).findAncestor.1 h.queue what
    · exact hforgetful.retry h.queue

/-- What is queued was queued before, or has just been accepted. -/
theorem Attentive.mem_queue_of_step (hattentive : dialogue.Attentive)
    (haccepted : dialogue.accepted? input ≠ some data) (hmem : data ∈ (dialogue.step input).queue) :
    data ∈ dialogue.queue := by
  have hbefore := (hattentive.queue_step_suffix input).subset hmem
  refine (List.mem_append.mp hbefore).resolve_right fun hnew => ?_
  exact haccepted (Option.mem_toList.mp hnew)

/-- A commit in doubt is pushed exactly when it is still queued and released. -/
theorem Doubts.request?_eq_push_iff (h : dialogue.Doubts data)
    (haccepted : dialogue.accepted? input ≠ some data) :
    dialogue.request? input = some (.push data) ↔
      dialogue.queue.head? = some data ∧ dialogue.Releases data input := by
  constructor
  · intro hrequest
    have hmem : data ∈ dialogue.queue := h.attentive.mem_queue_of_step haccepted
      (List.mem_of_head? (h.attentive.first_of_push hrequest))
    obtain ⟨rest, hwithholds⟩ := h.withheld hmem
    exact ⟨hwithholds.queue ▸ rfl, (hwithholds.request?_eq_push_iff haccepted).mp hrequest⟩
  · rintro ⟨hhead, hreleases⟩
    obtain ⟨rest, hwithholds⟩ := h.withheld (List.mem_of_head? hhead)
    exact (hwithholds.request?_eq_push_iff haccepted).mpr hreleases

theorem Doubts.step (h : dialogue.Doubts data) (haccepted : dialogue.accepted? input ≠ some data)
    (hunasked : dialogue.request? input ≠ some (.push data)) :
    (dialogue.step input).Doubts data where
  attentive := h.attentive.step input
  sequenced := h.attentive.sequenced_step h.sequenced input
  withheld := by
    intro hmem
    obtain ⟨rest, hwithholds⟩ := h.withheld (h.attentive.mem_queue_of_step haccepted hmem)
    have hkept := hwithholds.queue_step haccepted hmem
    have hreleases := mt (hwithholds.request?_eq_push_iff haccepted).mpr hunasked
    exact ⟨rest ++ (dialogue.accepted? input).toList,
      { attentive := h.attentive.step input
        sequenced := h.attentive.sequenced_step h.sequenced input
        queue := by rw [hkept, hwithholds.queue, List.cons_append]
        fresh := by
          rw [List.mem_append, not_or]
          exact ⟨hwithholds.fresh, fun hnew => haccepted (Option.mem_toList.mp hnew)⟩
        withholds := hwithholds.step hkept hreleases }⟩

theorem Doubts.run (h : dialogue.Doubts data) (haccepted : data ∉ dialogue.accepted inputs)
    (hunasked : .push data ∉ dialogue.requests inputs) : (dialogue.run inputs).Doubts data := by
  induction inputs generalizing dialogue with
  | nil => exact h
  | cons input rest ih =>
      rw [accepted, record, List.mem_append, Option.mem_toList, not_or] at haccepted
      rw [requests, record, List.mem_append, Option.mem_toList, not_or] at hunasked
      exact ih (h.step haccepted.1 hunasked.1) haccepted.2 hunasked.2

/-- A head with which a commit is compared was given in the run. -/
theorem Attentive.fetched (hattentive : dialogue.Attentive)
    (hstart : ∀ head, dialogue.coordinator.phase ≠ .findingAncestor head)
    (hphase : (dialogue.run inputs).coordinator.phase = .findingAncestor head) :
    dialogue.Fetched inputs head := by
  induction inputs using List.reverseRecOn with
  | nil => exact absurd hphase (hstart head)
  | append_singleton inputs input ih =>
      have hlonger (h : dialogue.Fetched inputs head) :
          dialogue.Fetched (inputs ++ [input]) head := by
        obtain ⟨before, after, hinputs, hasked⟩ := h
        exact ⟨before, after ++ [input], by simp [hinputs], hasked⟩
      rw [← step_run] at hphase
      cases hmove : (dialogue.run inputs).move? input with
      | none =>
          rw [step_of_none hmove] at hphase
          exact hlonger (ih hphase)
      | some move =>
          rw [step_of_some hmove] at hphase
          cases input with
          | told occasion =>
              rcases phase_react hmove with hsame | hordinary | ⟨resolution, -, hresolving⟩
              · exact hlonger (ih (hsame.symm.trans hphase))
              · rw [show move.1.phase = _ from hphase] at hordinary
                cases hordinary
              · cases hresolving.symm.trans hphase
          | answer response =>
              obtain ⟨request, handled, hunanswered, hanswers, -, hhandled, rfl⟩ :=
                (hattentive.run inputs).handled hmove
              have hfinding : handled.1.phase = .findingAncestor head :=
                (phase_finish handled).symm.trans hphase
              obtain rfl := hhandled.response_of_finding rfl hfinding
              cases request with
              | fetchHead => exact ⟨inputs, [], rfl, hunanswered⟩
              | _ => cases hanswers

/-- After a fault the commit whose push was interrupted is in doubt. -/
theorem Attentive.doubts_fault (hattentive : dialogue.Attentive)
    (hsequenced : dialogue.coordinator.course.Sequenced)
    (hunanswered : dialogue.unanswered = [.push data]) (hnodup : dialogue.coordinator.queued.Nodup)
    (hfault : error.isTransport) :
    let faulted := dialogue.step (.answer (.pushed (.error error)))
    faulted.Doubts data ∧ ∀ head, faulted.coordinator.phase ≠ .findingAncestor head := by
  intro faulted
  obtain ⟨hphase, rest, hqueue⟩ := (hattentive.awaits hunanswered).push
  have hcommits : dialogue.coordinator.branch.commits = data :: rest := hqueue
  have hmove : dialogue.move? (.answer (.pushed (.error error))) =
      some (finish dialogue.coordinator.rested.interrupted) := by
    have hhandle := handle_pushed hphase (.error error)
    simp only [move?, hunanswered, hhandle, onPushed, hfault]
    rfl
  have hstep : faulted.coordinator = (finish dialogue.coordinator.rested.interrupted).1 := by
    rw [show faulted = _ from step_of_some hmove]
    rfl
  have hfaulted : faulted.Attentive := hattentive.step _
  have hstill : faulted.coordinator.course.Sequenced := hattentive.sequenced_step hsequenced _
  refine ⟨⟨hfaulted, hstill, fun hmem => ⟨rest, hfaulted, hstill, ?_, ?_, ?_⟩⟩,
    fun head hfinding => ?_⟩
  · rw [queue, hstep, commits_finish, interrupted, commits_next]
    exact hcommits
  · rw [queued, hcommits, List.map_cons, List.nodup_cons] at hnodup
    exact fun hrest => hnodup.1 (List.mem_map_of_mem hrest)
  · rw [hstep]
    exact withholds_finish (withholds_next rfl (.inl rfl))
  · have hordinary : faulted.coordinator.phase.isOrdinary := by
      rw [hstep, phase_finish]
      exact isOrdinary_next rfl
    rw [hfinding] at hordinary
    cases hordinary

/-- A commit whose push was interrupted is pushed again in two cases only.  Either the coordinator
has asked for the head since, and the server does not know the commit.  Or the coordinator is told
to go on after an error, and has forgotten that it has not asked. -/
theorem run_pushes_again_iff (project : ProjectId) (branch : BranchName) (head : CommitHash)
    (before between : List Input) (issuing : Input) {data : CommitData} {error : RemoteError}
    (hdistinct : ((offered (before ++ between ++ [issuing])).map (·.hash)).Nodup)
    (hpushed : ((start project branch head).run before).unanswered = [.push data])
    (hfault : error.isTransport)
    (hfirst : .push data ∉ (((start project branch head).run before).step
      (.answer (.pushed (.error error)))).requests between) :
    let faulted := ((start project branch head).run before).step (.answer (.pushed (.error error)))
    let later := faulted.run between
    later.request? issuing = some (.push data) ↔
      later.queue.head? = some data ∧
        ((∃ fetched what, faulted.Fetched between fetched ∧
            later.unanswered = [.findAncestor data.hash fetched] ∧
            issuing = .answer (.ancestor (.error (.notFound what)))) ∨
          (later.coordinator.Forgetful ∧ issuing = .told .retry)) := by
  intro faulted later
  let dialogue := start project branch head
  let reached := dialogue.run before
  let fault : Input := .answer (.pushed (.error error))
  have hstarted : dialogue.Attentive := attentive_start project branch head
  have hreached : reached.Attentive := hstarted.run before
  have hsequenced : reached.coordinator.course.Sequenced :=
    hstarted.sequenced_run (sequenced_start project branch head) before
  -- The commit is queued before the fault, and not accepted again after it.
  have hqueued : data ∈ reached.queue := by
    obtain ⟨-, rest, hqueue⟩ := (hreached.awaits hpushed).push
    rw [show reached.queue = _ from hqueue]
    exact List.mem_cons_self
  have hoffered : offered (before ++ fault :: (between ++ [issuing])) =
      offered (before ++ between ++ [issuing]) := by
    rw [List.append_assoc, offered_append, offered_append]
    rfl
  have hagain : data ∉ reached.accepted (fault :: (between ++ [issuing])) :=
    not_mem_accepted project branch head (hoffered ▸ hdistinct)
      ((hstarted.queue_run_suffix before).subset hqueued)
  rw [accepted, record, List.mem_append, not_or, record_append, List.mem_append, not_or] at hagain
  obtain ⟨-, hbetween, hlast⟩ := hagain
  have hissuing : later.accepted? issuing ≠ some data := fun hsome =>
    hlast (List.mem_append_left _ (Option.mem_toList.mpr hsome))
  -- So it is in doubt until it is released.
  have hbefore : ((offered before).map (·.hash)).Nodup := by
    rw [List.append_assoc, offered_append, List.map_append] at hdistinct
    exact hdistinct.of_append_left
  obtain ⟨hfaulted, hstart⟩ := hreached.doubts_fault hsequenced hpushed
    (queued_nodup project branch head hbefore) hfault
  have hlater : later.Doubts data := hfaulted.run hbetween hfirst
  refine (hlater.request?_eq_push_iff hissuing).trans (and_congr_right fun hhead => ?_)
  constructor
  · rintro (⟨what, hunanswered⟩ | hforgetful)
    · have hphase := (hlater.attentive.awaits hunanswered).findAncestor.1
      exact .inl ⟨_, what, hfaulted.attentive.fetched hstart hphase, hunanswered, rfl⟩
    · exact .inr ⟨hforgetful, rfl⟩
  · rintro (⟨fetched, what, -, hunanswered, rfl⟩ | ⟨hforgetful, rfl⟩)
    · exact .unknown what hunanswered
    · exact .forgotten hforgetful

/-- The push of a commit is under way. -/
def pushed : List Input := [.told (.commit (commitOn "#1" "#0"))]

/-- The answer to it does not come in time. -/
def interruptedPush : Dialogue :=
  ((start "p" "b" "#0").run pushed).step (.answer (.pushed (.error .timeout)))

/-- The server refuses the rejoin. -/
def rejoinRefused : List Input := [.answer (.subscribed (.error (.rejected "not now")))]

/-- The commit is pushed again on a retry, although the server was never asked for its head. -/
theorem run_pushes_again_iff_refused :
    (interruptedPush.run rejoinRefused).request? (.told .retry) =
        some (.push (commitOn "#1" "#0")) ∧
      ∀ head, ¬ interruptedPush.Fetched rejoinRefused head := by
  have hdistinct : (offered (pushed ++ rejoinRefused ++ [.told .retry])).map (·.hash) = ["#1"] := by
    cbv
  have hpushed : ((start "p" "b" "#0").run pushed).unanswered = [.push (commitOn "#1" "#0")] := by
    cbv
  have hrequests : interruptedPush.requests rejoinRefused = [] := by
    cbv
  have hfirst : .push (commitOn "#1" "#0") ∉ interruptedPush.requests rejoinRefused := by
    simp [hrequests]
  have hqueue : (interruptedPush.run rejoinRefused).queue.head? = some (commitOn "#1" "#0") := by
    cbv
  have hidle : (interruptedPush.run rejoinRefused).coordinator.phase = .idle := by
    cbv
  have hhalt : (interruptedPush.run rejoinRefused).coordinator.halt = some .failed := by
    cbv
  have hconnected : (interruptedPush.run rejoinRefused).coordinator.connected = true := by
    cbv
  have hrejoined : (interruptedPush.run rejoinRefused).coordinator.rejoinPending = false := by
    cbv
  have hiff := run_pushes_again_iff "p" "b" "#0" pushed rejoinRefused (.told .retry)
    (by rw [hdistinct]; decide) hpushed rfl hfirst
  refine ⟨hiff.mpr ⟨hqueue, .inr ⟨⟨hidle, hhalt, hconnected, hrejoined⟩, rfl⟩⟩, ?_⟩
  rintro head ⟨before, after, hinputs, -⟩
  have hanswer : Input.answer (.head (.ok (some head))) ∈ rejoinRefused := by
    rw [hinputs]
    exact List.mem_append_right _ List.mem_cons_self
  simp [rejoinRefused] at hanswer

end Dialogue

end Coauthor
