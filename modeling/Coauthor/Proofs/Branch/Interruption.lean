import Coauthor.Proofs.Branch.Attempt

/-!
# Rejoins that are interrupted

Until its last answer has come, a rejoin changes nothing but the phase and what is known of the
connection.  So an attempt that the transport interrupts leaves no trace, and the next one begins
anew.  A change of the connection during a rejoin makes another one due, and an interruption merges
the two.  Otherwise the second follows the first at once, and this is the one difference that shows:
updates that wait behind a queue that the first rejoin has drained are loaded if no rejoin is due,
and left to the second one if it is.
-/

namespace Coauthor

open Coordinator

/-- A step of a rejoin behind the first. -/
def Request.advances : Request → Bool
  | .fetchHead | .findAncestor .. => true
  | _ => false

namespace Coordinator

/-- A rejoin is under way, or waits for the connection. -/
def Waits (coordinator : Coordinator) : Prop :=
  coordinator.phase.isRejoining ∨ (coordinator.phase = .idle ∧ coordinator.connected = false)

variable {coordinator later : Coordinator} {phase : Phase} {response : Response} {move : Move}
  {occasion : Occasion}

/-! ## Interrupted attempts -/

theorem seeking_of_phase {course : Course}
    (hphase : ∀ head, course.phase ≠ .findingAncestor head) : course.Seeking :=
  fun head hfinding => absurd hfinding (hphase head)

theorem Course.Seeking.react (h : coordinator.course.Seeking)
    (hreact : coordinator.react occasion = some move) : move.1.course.Seeking := by
  by_cases hidle : coordinator.phase = .idle
  · refine seeking_of_phase fun head hfinding => ?_
    have hphase : move.1.phase = .findingAncestor head := hfinding
    rcases isOrdinary_or_react hidle hreact with hordinary | ⟨resolution, -, hresolving⟩
    · rw [hphase] at hordinary
      cases hordinary
    · cases hphase.symm.trans hresolving
  · obtain ⟨-, hextends⟩ := react_of_busy hidle hreact
    intro head hfinding
    obtain ⟨data, rest, hcommits, hother⟩ := h head (hextends.phase.symm.trans hfinding)
    obtain ⟨more, hmore⟩ := hextends.commits
    rw [hcommits, List.cons_append] at hmore
    exact ⟨data, rest ++ more, hmore.symm, hother⟩

theorem Handled.seeking (h : Handled coordinator phase response move)
    (hidle : coordinator.phase = .idle) : move.1.course.Seeking := by
  intro head hfinding
  have hphase : move.1.phase = .findingAncestor head := hfinding
  obtain rfl := h.response_of_finding (hidle ▸ rfl) hphase
  have hnext (prepared : Coordinator) (hresting : prepared.phase = .idle) :
      prepared.next.1.phase ≠ .findingAncestor head := fun hadvanced => by
    have hended := isAdvanced_next hresting
    rw [hadvanced] at hended
    cases hended
  cases h with
  | interrupted hfault => cases hfault
  | failed hfails => cases hfails
  | current hcommits => exact absurd hphase (hnext _ hidle)
  | behind hcommits hhead => cases hphase
  | @landed queued rest hcommits =>
      have hresting : coordinator.phase.isOrdinary := hidle ▸ rfl
      have hordinary := isOrdinary_acknowledgeRejoined hresting queued.hash queued.hash
      rw [hphase] at hordinary
      cases hordinary
  | searching hcommits hhead => exact ⟨_, _, hcommits, hhead⟩
  | emptied hcommits => exact absurd hphase (hnext _ hidle)
  | refused resolution count error hrefusal => cases hrefusal

theorem eq_of_view (hview : later.view = coordinator.view) :
    later = { coordinator with
      phase := later.phase, connected := later.connected, rejoinPending := later.rejoinPending } := by
  obtain ⟨hbranch, hrest⟩ := Prod.mk.inj hview
  obtain ⟨hevents, hhalt⟩ := Prod.mk.inj hrest
  rw [← hbranch, ← hevents, ← hhalt]

theorem Waits.loads (h : coordinator.Waits) : coordinator.phase.loads = none := by
  rcases h with hrejoining | ⟨hidle, -⟩
  · exact loads_of_isRejoining hrejoining
  · rw [hidle]
    rfl

/-- The end of an input has nothing to do while a coordinator waits. -/
theorem Finished.finish_of_waits (h : coordinator.Finished) (hwaits : coordinator.Waits)
    (hview : move.1.view = coordinator.view) (hmove : move.1.Waits) : finish move = move := by
  have hloads := hmove.loads.trans hwaits.loads.symm
  have hsame : move = (move.1, move.2) := rfl
  rw [hsame, eq_of_view hview]
  exact h.finish_wait hloads _ _ _

/-- After a fault a coordinator begins to rejoin, unless the connection is down. -/
theorem interrupted_rested (coordinator : Coordinator) :
    coordinator.rested.interrupted =
      ({ coordinator with
          phase := if coordinator.connected then .subscribing else .idle
          rejoinPending := !coordinator.connected },
        if coordinator.connected then some .subscribe else none) := by
  cases hconnected : coordinator.connected with
  | true => simp [interrupted, next, rested, hconnected]
  | false => simp [interrupted, next, rested, hconnected]

theorem waits_interrupted (coordinator : Coordinator) :
    coordinator.rested.interrupted.1.view = coordinator.view ∧
      coordinator.rested.interrupted.1.Waits := by
  rw [interrupted_rested]
  refine ⟨rfl, ?_⟩
  cases hconnected : coordinator.connected with
  | true => exact .inl rfl
  | false => exact .inr ⟨rfl, rfl⟩

/-- An answer that is lost does nothing but to interrupt. -/
theorem Handled.eq_interrupted (h : Handled coordinator phase response move)
    (hrejoining : phase.isRejoining)
    (hqueued : ∀ head, phase = .findingAncestor head → coordinator.branch.commits ≠ [])
    (hfault : response.isFault) : move = coordinator.interrupted := by
  cases h with
  | interrupted => rfl
  | failed hfails =>
      cases hfails with
      | subscribe herror | head herror | ancestor herror => cases herror.symm.trans hfault
      | branch => cases hfault
      | _ => cases hrejoining
  | emptied hcommits => exact absurd hcommits (hqueued _ rfl)
  | refused resolution count error hrefusal => cases hrejoining
  | _ => cases hfault

theorem not_advances_next (coordinator : Coordinator) :
    coordinator.next.2.any Request.advances = false := by
  unfold next
  split_ifs with hbusy hrejoin hhalt
  · rfl
  · rfl
  · rfl
  · cases hcommits : coordinator.branch.commits with
    | cons data rest =>
        rw [work_of_cons hcommits]
        rfl
    | nil =>
        rw [work_of_nil hcommits]
        cases coordinator.due <;> rfl

theorem not_advances_acknowledgeRejoined (coordinator : Coordinator) (queued head : CommitHash) :
    (coordinator.acknowledgeRejoined queued head).2.any Request.advances = false := by
  simp only [acknowledgeRejoined]
  split_ifs with hsettled
  · exact not_advances_next _
  · rfl

/-- An answer after which the rejoin goes on changes nothing but the phase. -/
theorem Handled.of_advances (h : Handled coordinator phase response move)
    (hrejoining : phase.isRejoining) (hadvances : move.2.any Request.advances) :
    move.1.view = coordinator.view ∧ move.1.Waits := by
  have hnext (prepared : Coordinator) : ¬ prepared.next.2.any Request.advances := by
    rw [not_advances_next]
    exact Bool.false_ne_true
  have hacknowledged (queued head : CommitHash) :
      ¬ (coordinator.acknowledgeRejoined queued head).2.any Request.advances := by
    rw [not_advances_acknowledgeRejoined]
    exact Bool.false_ne_true
  cases h with
  | interrupted hfault => exact absurd hadvances (hnext _)
  | failed hfails => cases hadvances
  | listening hhalt => exact absurd hadvances (hnext _)
  | subscribed hhalt => exact ⟨rfl, .inl rfl⟩
  | current hcommits => exact absurd hadvances (hnext _)
  | behind hcommits hhead => cases hadvances
  | landed hcommits => exact absurd hadvances (hacknowledged _ _)
  | searching hcommits hhead => exact ⟨rfl, .inl rfl⟩
  | emptied hcommits => exact absurd hadvances (hnext _)
  | recognised hcommits => exact absurd hadvances (hacknowledged _ _)
  | diverged hcommits hother => cases hadvances
  | unknown hcommits => cases hadvances
  | _ => cases hrejoining

/-- A change of the connection does nothing to a rejoin but to make another one due, and begins the
one that waits for it. -/
theorem Waits.connectionChanged (h : coordinator.Waits)
    (halert : coordinator.connected = false → coordinator.rejoinPending = true)
    (state : ConnectionState) :
    ∃ move, coordinator.connectionChanged state = finish move ∧
      move.1.view = coordinator.view ∧ move.1.Waits := by
  have hnext (rejoinPending : Bool)
      (hdue : coordinator.rejoinPending = true → rejoinPending = true) :
      let prepared : Coordinator := { coordinator with connected := true, rejoinPending }
      prepared.next.1.view = coordinator.view ∧ prepared.next.1.Waits := by
    intro prepared
    rcases h with hrejoining | ⟨hidle, hdown⟩
    · have hbusy : prepared.phase ≠ .idle := fun hidle => by
        rw [show coordinator.phase = .idle from hidle] at hrejoining
        cases hrejoining
      rw [next_of_busy hbusy]
      exact ⟨rfl, .inl hrejoining⟩
    · have hbegun : prepared.next =
          ({ prepared with rejoinPending := false, phase := .subscribing }, some .subscribe) := by
        simp [next, prepared, hidle, hdue (halert hdown)]
      rw [hbegun]
      exact ⟨rfl, .inl rfl⟩
  cases state with
  | connected => exact ⟨_, rfl, hnext coordinator.rejoinPending id⟩
  | reconnected => exact ⟨_, rfl, hnext true fun _ => rfl⟩
  | disconnected | reconnecting | error =>
      refine ⟨_, rfl, rfl, ?_⟩
      exact h.imp id fun hidle => ⟨hidle.1, rfl⟩

/-- With no commit queued and nothing under way, to go on leaves nobody waiting. -/
theorem workers_finish_next (hidle : coordinator.phase = .idle)
    (hcommits : coordinator.branch.commits = []) :
    (finish coordinator.next).1.branch.workers = [] := by
  by_contra hwaiting
  refine attended_finish coordinator.next hwaiting ⟨?_, ?_⟩
  · rw [commits_finish, commits_next, hcommits]
  · rw [phase_finish, isMerging_next hidle]

/-! ## Rejoins at rest -/

/-- A connect finds a rejoin due while the connection is down. -/
theorem connectionChanged_of_down (hidle : coordinator.phase = .idle)
    (hpending : coordinator.rejoinPending = true) {state : ConnectionState}
    (hstate : state.isConnected) : (coordinator.connectionChanged state).2 = some .subscribe := by
  cases state with
  | connected => simp [connectionChanged, finish, next, hidle, hpending]
  | reconnected => simp [connectionChanged, finish, next, hidle]
  | disconnected | reconnecting | error => cases hstate

/-- At rest a connect begins a rejoin, if one is due. -/
theorem connectionChanged_at_rest (hfinished : coordinator.Finished)
    (hrests : coordinator.course.Rests) (hdone : coordinator.course.Done) {state : ConnectionState}
    (hstate : state.isConnected) (connected : Bool) {rejoinPending : Bool}
    (hdue : rejoinPending = true ∨ state = .reconnected) :
    { coordinator with connected, rejoinPending }.connectionChanged state =
      ({ coordinator with phase := .subscribing }, some .subscribe) := by
  have hidle : coordinator.phase = .idle := hrests.idle
  have hconnected : coordinator.connected = true := hrests.connected
  have hrejoined : coordinator.rejoinPending = false := hdone.rejoined
  have hloads : Phase.subscribing.loads = coordinator.phase.loads := by
    rw [hidle]
    rfl
  have hbegun := hfinished.finish_wait hloads true false (some .subscribe)
  have hsame : { coordinator with phase := .subscribing, connected := true, rejoinPending := false } =
      { coordinator with phase := .subscribing } := by
    rw [← hconnected, ← hrejoined]
  rw [← hsame]
  cases state with
  | connected =>
      obtain rfl : rejoinPending = true := hdue.resolve_right (by rintro ⟨⟩)
      simpa [connectionChanged, next, hidle] using hbegun
  | reconnected => simpa [connectionChanged, next, hidle] using hbegun
  | disconnected | reconnecting | error => cases hstate

theorem onSubscribed_of_running (hhalt : coordinator.halt = none) :
    coordinator.onSubscribed (.ok ()) =
      ({ coordinator with phase := .fetchingHead }, some .fetchHead) := by
  rw [onSubscribed, hhalt]
  rfl

/-- At rest the head of the server is nothing new. -/
theorem onHead_at_rest (hrests : coordinator.course.Rests) (hdone : coordinator.course.Done) :
    coordinator.onHead (.ok (some coordinator.branch.localHead)) = (coordinator, none) := by
  have hcommits : coordinator.branch.commits = [] := hdone.commits
  have hupdates : coordinator.branch.updates = [] := hdone.updates
  have hforgotten : coordinator.forgetUpdates = coordinator := by rw [forgetUpdates, ← hupdates]
  have hdue : coordinator.due = [] := by rw [due, hupdates, List.dropWhile_nil]
  have hskip : coordinator.skip = coordinator := by rw [skip, hdue, ← hupdates]
  have hcurrent : coordinator.onHead (.ok (some coordinator.branch.localHead)) =
      coordinator.forgetUpdates.next := by
    simp only [onHead, reconcile, hcommits, if_true, forgetUpdates]
  rw [hcurrent, hforgotten,
    next_eq_work hrests.idle hrests.connected hdone.rejoined hrests.running,
    work_of_nil hcommits, hdue, hskip]

theorem handle_subscribed_at_rest (hfinished : coordinator.Finished)
    (hrests : coordinator.course.Rests) :
    { coordinator with phase := .subscribing }.handle (.subscribed (.ok ())) =
      ({ coordinator with phase := .fetchingHead }, some .fetchHead) := by
  have hidle : coordinator.phase = .idle := hrests.idle
  have hrested : { coordinator with phase := .subscribing }.rested = coordinator := by
    rw [rested, ← hidle]
  have hloads : Phase.fetchingHead.loads = coordinator.phase.loads := by
    rw [hidle]
    rfl
  rw [handle_subscribed rfl, hrested, onSubscribed_of_running hrests.running]
  exact hfinished.finish_wait hloads _ _ _

theorem handle_head_at_rest (hfinished : coordinator.Finished) (hrests : coordinator.course.Rests)
    (hdone : coordinator.course.Done) :
    { coordinator with phase := .fetchingHead }.handle
      (.head (.ok (some coordinator.branch.localHead))) = (coordinator, none) := by
  have hidle : coordinator.phase = .idle := hrests.idle
  have hrested : { coordinator with phase := .fetchingHead }.rested = coordinator := by
    rw [rested, ← hidle]
  rw [handle_head rfl, hrested, onHead_at_rest hrests hdone]
  exact Prod.ext hfinished rfl

theorem Awaits.any_answers {course : Course} {request : Option Request}
    (h : Awaits course request) (hrejoin : response.isOfRejoin) :
    request.any response.answers = course.phase.expects response := by
  obtain ⟨asking, hasks, hcourse⟩ := h
  rw [hcourse.phase]
  cases response with
  | subscribed | head | ancestor => cases hasks <;> simp_all [Response.answers, Phase.expects]
  | _ => cases hrejoin

end Coordinator

/-! ## Dialogues -/

def Attempt.inputs (attempt : Attempt) : List Dialogue.Input := attempt.answers.map .answer

/-- The connection is lost, once or several times in a row, and comes back; or it is found to be
another one, without a loss that was noticed. -/
structure Recovery where
  losses : List ConnectionState
  back : ConnectionState
  lost : ∀ state ∈ losses, state.isConnected = false
  restored : back.isConnected = true
  renewed : losses = [] → back = .reconnected

/-- The connection is lost and comes back, and the server still has this head. -/
def Recovery.inputs (recovery : Recovery) (head : CommitHash) : List Dialogue.Input :=
  recovery.losses.map (.told <| .connection ·) ++
    [.told (.connection recovery.back), .answer (.subscribed (.ok ())),
      .answer (.head (.ok (some head)))]

namespace Dialogue

/-- An input that only delays a rejoin: a change of the connection, an answer that is lost, or one
after which the rejoin goes on. -/
def delays (dialogue : Dialogue) : Input → Bool
  | .told (.connection _) => true
  | .told _ => false
  | .answer response =>
      response.isFault || (dialogue.request? (.answer response)).any Request.advances

def delayed (dialogue : Dialogue) : List Input → Bool
  | [] => true
  | input :: rest => dialogue.delays input && (dialogue.step input).delayed rest

/-- Attempts to rejoin that were interrupted, the last input of which begins another one. -/
structure Interrupted (dialogue : Dialogue) (inputs : List Input) (last : Input) : Prop where
  delayed : dialogue.delayed (inputs ++ [last])
  restarts : (dialogue.run inputs).request? last = some .subscribe

/-- A lost answer takes a rejoin back to its beginning, at once or with the next connect, and changes
nothing else. -/
structure Restarts (reached lost : Dialogue) : Prop where
  coordinator : lost.coordinator = { reached.coordinator with
    phase := if reached.coordinator.connected then .subscribing else .idle
    rejoinPending := !reached.coordinator.connected }
  unanswered : lost.unanswered = if reached.coordinator.connected then [.subscribe] else []
  connects : ∀ more state, state.isConnected → (lost.run more).coordinator.phase = .idle →
    (lost.run more).coordinator.connected = false →
      (lost.run more).request? (.told (.connection state)) = some .subscribe

/-- An attempt that followed interruptions has ended as the same attempt without them: with the same
branch and the same events unless it was overdue, and otherwise with other updates and another status
only. -/
structure EndsAs (again alone : Coordinator) (overdue : Prop) : Prop where
  footing : again.footing = alone.footing
  workers : again.branch.workers = alone.branch.workers
  halt : again.halt = alone.halt
  shown : again.branch = alone.branch ∧ again.events = alone.events ↔ ¬ overdue

/-- What holds of a dialogue in every state that it reaches. -/
structure Steady (dialogue : Dialogue) : Prop where
  owing : ∃ owed, dialogue.Owing owed
  attended : dialogue.coordinator.Attended
  diligent : dialogue.coordinator.course.Diligent
  seeking : dialogue.coordinator.course.Seeking

variable {dialogue : Dialogue} {input last : Input} {inputs : List Input}
  {move : Coordinator.Move} {request : Request} {response : Response} {attempt : Attempt}
  {state : ConnectionState}

theorem Steady.attentive (h : dialogue.Steady) : dialogue.Attentive := by
  obtain ⟨owed, howing⟩ := h.owing
  exact howing.attentive

theorem Steady.sequenced (h : dialogue.Steady) : dialogue.coordinator.course.Sequenced := by
  obtain ⟨owed, howing⟩ := h.owing
  exact howing.sequenced

theorem Steady.finished (h : dialogue.Steady) : dialogue.coordinator.Finished := by
  obtain ⟨owed, howing⟩ := h.owing
  exact finished_of_told howing.told h.attended

theorem Steady.running (h : dialogue.Steady) (hadvanced : dialogue.coordinator.phase.isAdvanced) :
    dialogue.coordinator.halt = none :=
  halt_of_isAdvanced h.sequenced.suits hadvanced

theorem steady_start (project : ProjectId) (branch : BranchName) (head : CommitHash) :
    (start project branch head).Steady where
  owing := ⟨none, owing_start project branch head⟩
  attended := attended_start project branch head
  diligent := diligent_start project branch head
  seeking := by rintro _ ⟨⟩

theorem Steady.step (h : dialogue.Steady) (input : Input) : (dialogue.step input).Steady where
  owing := by
    obtain ⟨owed, howing⟩ := h.owing
    exact ⟨_, howing.step input⟩
  attended := h.attentive.attended_step h.attended input
  diligent := h.attentive.diligent_step h.diligent input
  seeking := by
    cases hmove : dialogue.move? input with
    | none => exact (step_of_none hmove).symm ▸ h.seeking
    | some move =>
        rw [step_of_some hmove]
        cases input with
        | told occasion => exact h.seeking.react hmove
        | answer response =>
            obtain ⟨request, handled, -, -, -, hhandled, rfl⟩ := h.attentive.handled hmove
            have hhandled := hhandled.seeking rfl
            rw [take, course_finish]
            exact hhandled

theorem Steady.run (h : dialogue.Steady) (inputs : List Input) : (dialogue.run inputs).Steady := by
  induction inputs generalizing dialogue with
  | nil => exact h
  | cons input rest ih => exact ih (h.step input)

/-! ## Interruptions -/

theorem Attentive.unanswered_of_idle (h : dialogue.Attentive)
    (hidle : dialogue.coordinator.phase = .idle) : dialogue.unanswered = [] := by
  obtain ⟨request, hunanswered, hawaits⟩ := h
  rw [hunanswered, hawaits.idle_iff.mp hidle]
  rfl

theorem Attentive.exists_unanswered (h : dialogue.Attentive)
    (hbusy : dialogue.coordinator.phase ≠ .idle) :
    ∃ request, dialogue.unanswered = [request] := by
  obtain ⟨request, hunanswered, hawaits⟩ := h
  obtain ⟨asked, rfl⟩ := Option.ne_none_iff_exists'.mp (mt hawaits.idle_iff.mpr hbusy)
  exact ⟨asked, hunanswered⟩

theorem step_of_answer (hunanswered : dialogue.unanswered = [request])
    (hanswers : response.answers request) :
    (dialogue.step (.answer response)).coordinator = (dialogue.coordinator.handle response).1 ∧
      (dialogue.step (.answer response)).unanswered =
        (dialogue.coordinator.handle response).2.toList ∧
      dialogue.request? (.answer response) = (dialogue.coordinator.handle response).2 := by
  have hmove := move?_of_answer hunanswered hanswers
  rw [step_of_some hmove, request?, hmove]
  simp [take, close, hunanswered]

/-- An answer that is lost in the course of a rejoin. -/
theorem Steady.step_lost (h : dialogue.Steady)
    (hrejoining : dialogue.coordinator.phase.isRejoining)
    (hmove : dialogue.move? (.answer response) = some move) (hfault : response.isFault) :
    move = dialogue.coordinator.rested.interrupted := by
  obtain ⟨request, handled, -, -, hawaits, hhandled, rfl⟩ := h.attentive.handled hmove
  have hqueued : ∀ head, dialogue.coordinator.phase = .findingAncestor head →
      dialogue.coordinator.rested.branch.commits ≠ [] :=
    fun head hphase => hawaits.queued_of_finding hphase
  obtain rfl := hhandled.eq_interrupted hrejoining hqueued hfault
  obtain ⟨hview, hwaits⟩ := waits_interrupted dialogue.coordinator
  exact h.finished.finish_of_waits (.inl hrejoining) hview hwaits

theorem Steady.request?_connection (h : dialogue.Steady)
    (hidle : dialogue.coordinator.phase = .idle) (hdown : dialogue.coordinator.connected = false)
    (hstate : state.isConnected) :
    dialogue.request? (.told (.connection state)) = some .subscribe :=
  connectionChanged_of_down hidle (h.sequenced.alert hdown) hstate

theorem Steady.restarts (h : dialogue.Steady)
    (hrejoining : dialogue.coordinator.phase.isRejoining)
    (hunanswered : dialogue.unanswered = [request]) (hanswers : response.answers request)
    (hfault : response.isFault) : dialogue.Restarts (dialogue.step (.answer response)) := by
  obtain ⟨hcoordinator, hasked, -⟩ := step_of_answer hunanswered hanswers
  have hmove := move?_of_answer hunanswered hanswers
  rw [h.step_lost hrejoining hmove hfault, interrupted_rested] at hcoordinator hasked
  refine ⟨hcoordinator, hasked.trans ?_, fun more state hstate hidle hdown => ?_⟩
  · split_ifs <;> rfl
  · exact ((h.step _).run more).request?_connection hidle hdown hstate

/-- Whatever delays a rejoin shows nothing. -/
theorem Steady.step_delays (h : dialogue.Steady) (hwaits : dialogue.coordinator.Waits)
    (hdelays : dialogue.delays input) :
    (dialogue.step input).coordinator.view = dialogue.coordinator.view ∧
      (dialogue.step input).coordinator.Waits := by
  cases hmove : dialogue.move? input with
  | none =>
      rw [step_of_none hmove]
      exact ⟨rfl, hwaits⟩
  | some move =>
      rw [step_of_some hmove]
      cases input with
      | told occasion =>
          cases occasion with
          | connection state =>
              obtain rfl := Option.some.inj hmove
              obtain ⟨changed, hchanged, hview, hstill⟩ :=
                hwaits.connectionChanged h.sequenced.alert state
              rw [take, hchanged, h.finished.finish_of_waits hwaits hview hstill]
              exact ⟨hview, hstill⟩
          | _ => cases hdelays
      | answer response =>
          obtain ⟨request, handled, -, -, hawaits, hhandled, rfl⟩ := h.attentive.handled hmove
          have hrejoining : dialogue.coordinator.phase.isRejoining :=
            hwaits.resolve_right fun hidle => by cases hawaits.idle_iff.mp hidle.1
          by_cases hfault : response.isFault
          · rw [take, h.step_lost hrejoining hmove hfault]
            exact waits_interrupted _
          · have hadvances : handled.2.any Request.advances := by
              rw [delays, eq_false_of_ne_true hfault, Bool.false_or, request?, hmove] at hdelays
              exact hdelays
            obtain ⟨hview, hstill⟩ := hhandled.of_advances hrejoining hadvances
            rw [take, h.finished.finish_of_waits hwaits hview hstill]
            exact ⟨hview, hstill⟩

theorem Steady.run_delayed (h : dialogue.Steady) (hwaits : dialogue.coordinator.Waits)
    (hdelayed : dialogue.delayed inputs) :
    (dialogue.run inputs).coordinator.view = dialogue.coordinator.view ∧
      (dialogue.run inputs).coordinator.Waits := by
  induction inputs generalizing dialogue with
  | nil => exact ⟨rfl, hwaits⟩
  | cons input rest ih =>
      obtain ⟨hdelays, hrest⟩ := Bool.and_eq_true_iff.mp hdelayed
      obtain ⟨hview, hstill⟩ := h.step_delays hwaits hdelays
      obtain ⟨hlater, hended⟩ := ih (h.step input) hstill hrest
      exact ⟨hlater.trans hview, hended⟩

/-- A coordinator that asks to listen again is connected, and no other rejoin is due. -/
theorem Steady.of_subscribe (h : dialogue.Steady)
    (hrequest : dialogue.request? input = some .subscribe) :
    (dialogue.step input).coordinator.phase = .subscribing ∧
      (dialogue.step input).coordinator.connected = true ∧
      (dialogue.step input).coordinator.rejoinPending = false := by
  obtain ⟨move, hmove, hsubscribe⟩ := Option.bind_eq_some_iff.mp hrequest
  have hphase := (h.attentive.asks hmove hsubscribe).awaits.subscribe
  have hrejoined : move.1.rejoinPending = false := eq_false_of_ne_true fun hpending =>
    ((h.attentive.rejoins h.sequenced hmove).kept hpending).1 hsubscribe
  have halert := (h.step input).sequenced.alert
  rw [step_of_some hmove] at halert ⊢
  refine ⟨hphase, eq_true_of_ne_false fun hdown => ?_, hrejoined⟩
  cases hrejoined.symm.trans (halert hdown)

/-- Interruptions lead back to the beginning of the rejoin, and leave no other trace. -/
theorem Steady.run_interrupted (h : dialogue.Steady)
    (hrejoining : dialogue.coordinator.phase.isRejoining)
    (hinterrupted : dialogue.Interrupted inputs last) :
    (dialogue.run (inputs ++ [last])).coordinator = dialogue.coordinator.restarted := by
  obtain ⟨hview, -⟩ := h.run_delayed (.inl hrejoining) hinterrupted.delayed
  obtain ⟨hphase, hconnected, hrejoined⟩ := (h.run inputs).of_subscribe hinterrupted.restarts
  rw [step_run] at hphase hconnected hrejoined
  rw [eq_of_view hview, hphase, hconnected, hrejoined, restarted]

/-! ## Complete attempts -/

theorem Attentive.step_answer (h : dialogue.Attentive) (hrejoin : response.isOfRejoin) :
    (dialogue.step (.answer response)).coordinator = dialogue.coordinator.hear response := by
  obtain ⟨request, hunanswered, hawaits⟩ := h
  have hexpects : dialogue.unanswered.head?.any response.answers =
      dialogue.coordinator.phase.expects response := by
    rw [hunanswered, Option.head?_toList]
    exact hawaits.any_answers hrejoin
  rw [hear, ← hexpects]
  simp only [Dialogue.step, move?]
  split_ifs with hanswers
  · rfl
  · rfl

theorem Attentive.run_reply (h : dialogue.Attentive) (attempt : Attempt) :
    (dialogue.run attempt.inputs).coordinator = dialogue.coordinator.heard attempt := by
  have hsubscribed := h.step (.answer (.subscribed attempt.subscribed))
  have hhead := hsubscribed.step (.answer (.head attempt.head))
  rw [heard_eq, ← h.step_answer rfl, ← hsubscribed.step_answer rfl, ← hhead.step_answer rfl]
  rfl

/-- Unless the head drains the queue while updates wait and another rejoin is due, the attempt that
follows interruptions ends as it would have without them. -/
theorem Steady.view_heard (h : dialogue.Steady)
    (hrejoining : dialogue.coordinator.phase.isRejoining) (hcomplete : attempt.Complete)
    (hgave : attempt.Gave dialogue.coordinator.phase)
    (hoverdue : ¬ (attempt.subscribed = .ok () ∧ dialogue.coordinator.Overdue attempt.head)) :
    (dialogue.coordinator.undisturbed.heard attempt).view =
      (dialogue.coordinator.heard attempt).view := by
  have hsubscribed := h.step (.answer (.subscribed attempt.subscribed))
  have hhead := hsubscribed.step (.answer (.head attempt.head))
  have hfirst : (dialogue.step (.answer (.subscribed attempt.subscribed))).coordinator =
      dialogue.coordinator.hear (.subscribed attempt.subscribed) :=
    h.attentive.step_answer rfl
  have hsecond := hsubscribed.attentive.step_answer (rfl : (Response.head attempt.head).isOfRejoin)
  have halert := hsubscribed.sequenced.alert
  have hstill := hhead.sequenced.alert
  have hseeking := hhead.seeking
  rw [hsecond, hfirst] at hstill hseeking
  rw [hfirst] at halert
  have hheard := parallel_hear_subscribed h.sequenced.alert
    (hcomplete (.subscribed attempt.subscribed) (by simp [Attempt.answers]))
  have hfetched := hheard.hear_head halert (hcomplete (.head attempt.head) (by simp [Attempt.answers]))
    (h.finished.not_overdue_hear hrejoining h.running hgave hoverdue)
  exact (hfetched.hear_ancestor hstill hseeking
    (hcomplete (.ancestor attempt.ancestor) (by simp [Attempt.answers]))).view

/-- An attempt is overdue only as long as its head has not been given. -/
theorem Steady.phase_of_overdue (h : dialogue.Steady)
    (hrejoining : dialogue.coordinator.phase.isRejoining)
    (hgave : attempt.Gave dialogue.coordinator.phase)
    (hdue : dialogue.coordinator.Overdue attempt.head) :
    dialogue.coordinator.phase = .subscribing ∨ dialogue.coordinator.phase = .fetchingHead := by
  obtain ⟨only, hcommits, hhead⟩ := hdue.landed
  cases hphase : dialogue.coordinator.phase with
  | subscribing => exact .inl rfl
  | fetchingHead => exact .inr rfl
  | findingAncestor head =>
      rw [hphase] at hgave
      obtain ⟨queued, rest, hqueued, hother⟩ := h.seeking head hphase
      obtain ⟨rfl, -⟩ := List.cons.inj (hqueued.symm.trans hcommits)
      exact absurd (Option.some.inj (Except.ok.inj (hhead.symm.trans hgave.2))) hother
  | _ =>
      rw [hphase] at hrejoining
      cases hrejoining

/-- An overdue attempt leaves the updates alone, and loads the first of them if it follows
interruptions. -/
theorem Steady.ends_overdue (h : dialogue.Steady)
    (hrejoining : dialogue.coordinator.phase.isRejoining)
    (hgave : attempt.Gave dialogue.coordinator.phase) (hsubscribed : attempt.subscribed = .ok ())
    (hdue : dialogue.coordinator.Overdue attempt.head) {overdue : Prop} (hoverdue : overdue) :
    EndsAs (dialogue.coordinator.undisturbed.heard attempt) (dialogue.coordinator.heard attempt)
      overdue := by
  obtain ⟨resting, hidle, hpending, hcommits, hquiet, halone, hundisturbed⟩ :=
    h.finished.heard_overdue (h.phase_of_overdue hrejoining hgave hdue) hsubscribed hdue
  have hdrained : (finish resting.undisturbed.next).1.branch.workers = [] :=
    workers_finish_next hidle hcommits
  rw [hundisturbed, halone]
  refine ⟨?_, hdrained.trans (workers_finish_next hidle hcommits).symm, ?_, ?_⟩
  · rw [footing_finish, footing_finish, footing_next, footing_next]
    rfl
  · rw [halt_finish, halt_finish, halt_next, halt_next]
    rfl
  · refine iff_of_false (fun hsame => ?_) (not_not.mpr hoverdue)
    exact branch_finish_next_ne hidle hpending hquiet hsame.1

/-- What becomes of the updates aside, the attempt that follows interruptions ends as it would have
without them in any case. -/
theorem Steady.heard_again (h : dialogue.Steady)
    (hrejoining : dialogue.coordinator.phase.isRejoining) (hcomplete : attempt.Complete)
    (hgave : attempt.Gave dialogue.coordinator.phase) :
    EndsAs (dialogue.coordinator.restarted.heard attempt) (dialogue.coordinator.heard attempt)
      (attempt.subscribed = .ok () ∧ dialogue.coordinator.Overdue attempt.head) := by
  have hagain : dialogue.coordinator.restarted.heard attempt =
      dialogue.coordinator.undisturbed.heard attempt :=
    h.finished.heard_restarted hrejoining h.running h.seeking hgave
  rw [hagain]
  by_cases hoverdue : attempt.subscribed = .ok () ∧ dialogue.coordinator.Overdue attempt.head
  · exact h.ends_overdue hrejoining hgave hoverdue.1 hoverdue.2 hoverdue
  · have hview := h.view_heard hrejoining hcomplete hgave hoverdue
    obtain ⟨hbranch, hrest⟩ := Prod.mk.inj hview
    obtain ⟨hevents, hhalt⟩ := Prod.mk.inj hrest
    refine ⟨?_, congrArg Branch.workers hbranch, hhalt, iff_of_true ⟨hbranch, hevents⟩ hoverdue⟩
    rw [footing, footing, hbranch]

/-! ## Rejoins at rest -/

/-- A loss of the connection makes a rejoin due, and does nothing else at rest. -/
theorem Steady.run_losses (h : dialogue.Steady) (hidle : dialogue.coordinator.phase = .idle)
    (losses : List ConnectionState) (hlost : ∀ state ∈ losses, state.isConnected = false) :
    ∃ connected rejoinPending,
      (dialogue.run (losses.map (.told <| .connection ·))).coordinator =
          { dialogue.coordinator with connected, rejoinPending } ∧
        (dialogue.run (losses.map (.told <| .connection ·))).unanswered = dialogue.unanswered ∧
        dialogue.requests (losses.map (.told <| .connection ·)) = [] ∧
        (losses ≠ [] ∨ dialogue.coordinator.rejoinPending = true → rejoinPending = true) := by
  induction losses generalizing dialogue with
  | nil =>
      refine ⟨dialogue.coordinator.connected, dialogue.coordinator.rejoinPending, rfl, rfl, rfl, ?_⟩
      exact fun hdue => hdue.resolve_left (not_not.mpr rfl)
  | cons state rest ih =>
      have hchanged : dialogue.coordinator.connectionChanged state =
          ({ dialogue.coordinator with connected := false, rejoinPending := true }, none) := by
        have hdown : state.isConnected = false := hlost state List.mem_cons_self
        cases state with
        | disconnected | reconnecting | error => exact h.finished.finish_wait rfl false true none
        | _ => cases hdown
      have hstep : dialogue.step (.told (.connection state)) =
          dialogue.take (dialogue.coordinator.connectionChanged state) := rfl
      have hlater := h.step (.told (.connection state))
      rw [hstep, hchanged] at hlater
      obtain ⟨connected, rejoinPending, hcoordinator, hunanswered, hrequests, hdue⟩ :=
        ih hlater hidle fun other hmem => hlost other (.tail _ hmem)
      rw [List.map_cons, run_cons, hstep, hchanged]
      refine ⟨connected, rejoinPending, hcoordinator, hunanswered, ?_, fun _ => hdue (.inr rfl)⟩
      have hunasked : dialogue.request? (.told (.connection state)) = none :=
        congrArg Prod.snd hchanged
      rw [requests, record, hunasked, hstep, hchanged]
      exact hrequests

/-- Once the connection is back, a rejoin at rest begins. -/
theorem Steady.step_back (h : dialogue.Steady) (hrests : dialogue.coordinator.course.Rests)
    (recovery : Recovery) :
    let lost := dialogue.run (recovery.losses.map (.told <| .connection ·))
    let back : Input := .told (.connection recovery.back)
    (lost.step back).coordinator = { dialogue.coordinator with phase := .subscribing } ∧
      (lost.step back).unanswered = [.subscribe] ∧ lost.request? back = some .subscribe ∧
      dialogue.requests (recovery.losses.map (.told <| .connection ·)) = [] := by
  intro lost back
  have hidle : dialogue.coordinator.phase = .idle := hrests.idle
  have hnothing : dialogue.unanswered = [] := h.attentive.unanswered_of_idle hidle
  obtain ⟨connected, rejoinPending, hlost, hunanswered, hunasked, hdue⟩ :=
    h.run_losses hidle recovery.losses recovery.lost
  have hback : lost.coordinator.connectionChanged recovery.back =
      ({ dialogue.coordinator with phase := .subscribing }, some .subscribe) := by
    rw [hlost]
    refine connectionChanged_at_rest h.finished hrests (h.diligent hrests) recovery.restored
      connected ?_
    by_cases hlosses : recovery.losses = []
    · exact .inr (recovery.renewed hlosses)
    · exact .inl (hdue (.inl hlosses))
  have hstep : lost.step back = lost.take (lost.coordinator.connectionChanged recovery.back) := rfl
  rw [hstep, take, hback, show lost.unanswered = _ from hunanswered, hnothing]
  exact ⟨rfl, rfl, congrArg Prod.snd hback, hunasked⟩

/-- A rejoin at rest asks twice, and comes back to the same state. -/
theorem Steady.run_recovery (h : dialogue.Steady) (hrests : dialogue.coordinator.course.Rests)
    (recovery : Recovery) :
    let inputs := recovery.inputs dialogue.coordinator.branch.localHead
    (dialogue.run inputs).coordinator = dialogue.coordinator ∧
      (dialogue.run inputs).unanswered = [] ∧
      dialogue.requests inputs = [.subscribe, .fetchHead] := by
  intro inputs
  let back : Input := .told (.connection recovery.back)
  let subscribed : Response := .subscribed (.ok ())
  let found : Response := .head (.ok (some dialogue.coordinator.branch.localHead))
  let lost := dialogue.run (recovery.losses.map (.told <| .connection ·))
  let listening := lost.step back
  let fetching := listening.step (.answer subscribed)
  obtain ⟨hsubscribing, hsubscribe, hlistens, hunasked⟩ := h.step_back hrests recovery
  obtain ⟨hfetching, hfetch, hfetches⟩ :=
    step_of_answer hsubscribe (rfl : subscribed.answers .subscribe)
  rw [hsubscribing, handle_subscribed_at_rest h.finished hrests] at hfetching hfetch hfetches
  obtain ⟨hfound, hended, hasked⟩ := step_of_answer hfetch (rfl : found.answers .fetchHead)
  rw [hfetching, handle_head_at_rest h.finished hrests (h.diligent hrests)]
    at hfound hended hasked
  have hrun : dialogue.run inputs = fetching.step (.answer found) := run_append ..
  have hrequests : dialogue.requests inputs =
      dialogue.requests (recovery.losses.map (.told <| .connection ·)) ++
        lost.requests [back, .answer subscribed, .answer found] := requests_append ..
  rw [hrun, hrequests, hunasked, requests, record, record, record, record, hlistens, hfetches, hasked]
  exact ⟨hfound, hended, rfl⟩

/-- Any number of rejoins at rest come back to the same state. -/
theorem Steady.run_recoveries (h : dialogue.Steady) (hrests : dialogue.coordinator.course.Rests)
    (recoveries : List Recovery) :
    let inputs := recoveries.flatMap (·.inputs dialogue.coordinator.branch.localHead)
    (dialogue.run inputs).coordinator = dialogue.coordinator ∧
      (dialogue.run inputs).unanswered = [] ∧
      dialogue.requests inputs = recoveries.flatMap fun _ => [.subscribe, .fetchHead] := by
  induction recoveries generalizing dialogue with
  | nil =>
      have hnothing : dialogue.unanswered = [] := h.attentive.unanswered_of_idle hrests.idle
      exact ⟨rfl, hnothing, rfl⟩
  | cons recovery rest ih =>
      obtain ⟨hcoordinator, -, hasked⟩ := h.run_recovery hrests recovery
      have hlater := h.run (recovery.inputs dialogue.coordinator.branch.localHead)
      have hrest := ih hlater (hcoordinator.symm ▸ hrests)
      simp only [hcoordinator] at hrest
      obtain ⟨hended, hunanswered, hrequests⟩ := hrest
      simp only [List.flatMap_cons, run_append, requests_append, hasked, hrequests]
      exact ⟨hended, hunanswered, trivial⟩

/-- An interruption of a rejoin changes nothing but that the rejoin begins anew, at once or with the
next connect.  So attempts that are interrupted, and the complete one that follows them, end with the
same heads, queued commits and reason to stop as the complete attempt alone; and with the same branch
and the same events, unless the head drains the queue while updates wait and another rejoin is due.
At rest, rejoins that find the local head leave everything as it is. -/
theorem run_rejoins_transparently (project : ProjectId) (branch : BranchName) (head : CommitHash)
    (inputs : List Input) :
    let reached := (start project branch head).run inputs
    let coordinator := reached.coordinator
    (coordinator.phase.isRejoining →
      (∃ request, reached.unanswered = [request] ∧ ∀ response : Response,
        response.answers request → response.isFault →
          reached.Restarts (reached.step (.answer response))) ∧
      ∀ (delays : List Input) (last : Input) (attempt : Attempt),
        reached.Interrupted delays last → attempt.Complete → attempt.Gave coordinator.phase →
          EndsAs (reached.run (delays ++ [last] ++ attempt.inputs)).coordinator
            (reached.run attempt.inputs).coordinator
            (attempt.subscribed = .ok () ∧ coordinator.Overdue attempt.head)) ∧
      (coordinator.course.Rests → ∀ recoveries : List Recovery,
        let rejoins := recoveries.flatMap (·.inputs coordinator.branch.localHead)
        (reached.run rejoins).coordinator = coordinator ∧ (reached.run rejoins).unanswered = [] ∧
          reached.requests rejoins = recoveries.flatMap fun _ => [.subscribe, .fetchHead]) := by
  intro reached coordinator
  have hsteady : reached.Steady := (steady_start project branch head).run inputs
  refine ⟨fun hrejoining => ⟨?_, ?_⟩, fun hrests recoveries =>
    hsteady.run_recoveries hrests recoveries⟩
  · obtain ⟨request, hunanswered⟩ := hsteady.attentive.exists_unanswered
      (show coordinator.phase ≠ .idle from fun hidle => by rw [hidle] at hrejoining; cases hrejoining)
    exact ⟨request, hunanswered, fun response hanswers hfault =>
      hsteady.restarts hrejoining hunanswered hanswers hfault⟩
  · intro delays last attempt hinterrupted hcomplete hgave
    have hrestarted := hsteady.run_interrupted hrejoining hinterrupted
    have hagain := (hsteady.run (delays ++ [last])).attentive.run_reply attempt
    rw [hrestarted, ← run_append] at hagain
    rw [hagain, hsteady.attentive.run_reply]
    exact hsteady.heard_again hrejoining hcomplete hgave

/-- The answer to a push is lost, and another client's commit is announced during the rejoin. -/
def pushLost : List Input :=
  [.told (.commit (commitOn "#1" "#0")), .answer (.pushed (.error .timeout)),
    .told (.update (commitOn "#2" "#1"))]

/-- The rejoin begins. -/
def rejoinBegun : Dialogue := (start "p" "b" "#0").run pushLost

/-- The commit had arrived and is the head. -/
def arrived : Attempt :=
  { subscribed := .ok (), head := .ok (some "#1"), ancestor := .ok "#1" }

/-- The head is not heard of, and then the connection fails; when it is back, the rejoin begins
anew. -/
def twiceLost : List Input :=
  [.answer (.subscribed (.ok ())), .answer (.head (.error .timeout)),
    .told (.connection .disconnected), .answer (.subscribed (.error .disconnected))]

def backAgain : Input := .told (.connection .reconnected)

/-- The coordinator has come to rest at the commit `#2`. -/
def atRest : Dialogue := (start "p" "b" "#0").run answerLost

/-- The connection is lost and comes back, and then is found to be another one. -/
def twiceRejoined : List Recovery :=
  [{ losses := [.disconnected, .error], back := .connected, lost := by decide, restored := rfl
     renewed := by rintro ⟨⟩ },
    { losses := [], back := .reconnected, lost := by rintro _ ⟨⟩, restored := rfl
      renewed := fun _ => rfl }]

/-- Two interruptions change nothing of what the rejoin leads to, and a coordinator at rest stays as
it is when the connection is lost and is found to be another one. -/
theorem run_rejoins_transparently_twice :
    let again := (rejoinBegun.run (twiceLost ++ [backAgain] ++ arrived.inputs)).coordinator
    again.branch = (rejoinBegun.run arrived.inputs).coordinator.branch ∧
      again.branch.status = .pulling ∧
      (atRest.run (twiceRejoined.flatMap (·.inputs "#2"))).coordinator = atRest.coordinator := by
  have hphase : rejoinBegun.coordinator.phase = .subscribing := by
    cbv
  have hrejoined : rejoinBegun.coordinator.rejoinPending = false := by
    cbv
  have hdelayed : rejoinBegun.delayed (twiceLost ++ [backAgain]) = true := by
    cbv
  have hrestarts : (rejoinBegun.run twiceLost).request? backAgain = some .subscribe := by
    cbv
  have hcomplete : arrived.Complete := by
    simp [Attempt.Complete, Attempt.answers, arrived, Response.isFault]
  have hstatus : (rejoinBegun.run arrived.inputs).coordinator.branch.status = .pulling := by
    cbv
  have hidle : atRest.coordinator.phase = .idle := by
    cbv
  have hconnected : atRest.coordinator.connected = true := by
    cbv
  have hrunning : atRest.coordinator.halt = none := by
    cbv
  have hhead : atRest.coordinator.branch.localHead = "#2" := by
    cbv
  obtain ⟨hinterrupts, -⟩ := run_rejoins_transparently "p" "b" "#0" pushLost
  obtain ⟨-, hrecovers⟩ := run_rejoins_transparently "p" "b" "#0" answerLost
  change rejoinBegun.coordinator.phase.isRejoining → _ at hinterrupts
  obtain ⟨-, hends⟩ := hinterrupts (by rw [hphase]; rfl)
  have hgave : arrived.Gave rejoinBegun.coordinator.phase := by
    rw [hphase]
    trivial
  have hends := hends twiceLost backAgain arrived ⟨hdelayed, hrestarts⟩ hcomplete hgave
  obtain ⟨hsame, -⟩ := hends.shown.mpr fun hoverdue =>
    Bool.false_ne_true (hrejoined.symm.trans hoverdue.2.pending)
  obtain ⟨hcoordinator, -⟩ := hrecovers ⟨hidle, hconnected, hrunning⟩ twiceRejoined
  change (atRest.run (twiceRejoined.flatMap (·.inputs atRest.coordinator.branch.localHead))).coordinator =
    atRest.coordinator at hcoordinator
  rw [hhead] at hcoordinator
  exact ⟨hsame, (congrArg Branch.status hsame).trans hstatus, hcoordinator⟩

/-- The connection is found to be another one in the course of the rejoin. -/
def rejoinRenewed : Dialogue := rejoinBegun.step (.told (.connection .reconnected))

/-- The attempt is interrupted once. -/
def onceLost : Input := .answer (.subscribed (.error .timeout))

/-- Without the interruption the update is left to the rejoin that is due; behind it, the update is
loaded. -/
theorem rejoin_renewed_overdue :
    let alone := (rejoinRenewed.run arrived.inputs).coordinator
    let again := (rejoinRenewed.run ([onceLost] ++ arrived.inputs)).coordinator
    rejoinRenewed.coordinator.phase = .subscribing ∧ rejoinRenewed.Interrupted [] onceLost ∧
      arrived.Complete ∧ alone.branch.status = .sync ∧ again.branch.status = .pulling ∧
      ¬ (again.branch = alone.branch ∧ again.events = alone.events) := by
  have hphase : rejoinRenewed.coordinator.phase = .subscribing := by
    cbv
  have hdelayed : rejoinRenewed.delayed ([] ++ [onceLost]) = true := by
    cbv
  have hrestarts : (rejoinRenewed.run []).request? onceLost = some .subscribe := by
    cbv
  have hcomplete : arrived.Complete := by
    simp [Attempt.Complete, Attempt.answers, arrived, Response.isFault]
  have halone : (rejoinRenewed.run arrived.inputs).coordinator.branch.status = .sync := by
    cbv
  have hagain :
      (rejoinRenewed.run ([onceLost] ++ arrived.inputs)).coordinator.branch.status = .pulling := by
    cbv
  refine ⟨hphase, ⟨hdelayed, hrestarts⟩, hcomplete, halone, hagain, fun hsame => ?_⟩
  have hstatus := (congrArg Branch.status hsame.1).symm.trans hagain
  rw [halone] at hstatus
  cases hstatus

end Dialogue

end Coauthor
