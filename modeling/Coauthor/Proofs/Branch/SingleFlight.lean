import Coauthor.Proofs.Branch.Dialogue
import Coauthor.Session.Branch

/-!
# One request at a time

In every dialogue with a coordinator one request is unanswered in every phase but `idle`, and
none in that phase.  Only an answer leads to a request while another phase lasts.  So a session,
which keeps the last request that it was given as the one under way, never gives up a request
for another: whenever it takes a move over, either nothing was under way or nothing is asked for.
-/

namespace Coauthor

open Coordinator

/-- What the phase of the coordinator tells of the requests that wait for an answer. -/
structure Dialogue.SingleFlight (dialogue : Dialogue) : Prop where
  idle : dialogue.coordinator.phase = .idle → dialogue.unanswered = []
  busy : dialogue.coordinator.phase ≠ .idle → ∃ request, dialogue.unanswered = [request]
  /-- While an answer is awaited, nothing but an answer leads to a request. -/
  unasked : dialogue.coordinator.phase ≠ .idle → ∀ occasion move,
    dialogue.coordinator.react occasion = some move → move.2 = none

theorem Dialogue.Attentive.singleFlight {dialogue : Dialogue} (h : dialogue.Attentive) :
    dialogue.SingleFlight := by
  obtain ⟨request, hunanswered, hawaits⟩ := h
  have hidle : dialogue.coordinator.phase = .idle ↔ request = none := hawaits.idle_iff
  refine ⟨fun hphase => ?_, fun hphase => ?_, fun hphase occasion move hreact =>
    (react_of_busy hphase hreact).1⟩
  · rw [hunanswered, hidle.mp hphase, Option.toList_none]
  · obtain ⟨asked, rfl⟩ := Option.ne_none_iff_exists'.mp (mt hidle.mpr hphase)
    exact ⟨asked, hunanswered⟩

namespace BranchSession

/-! ## Runs of a session -/

/-- What a session takes in. -/
inductive Input where
  | connection (connection : Connection)
  | update (data : CommitData)
  | updatesEnded
  /-- The request under way was answered; with a new stream, if it asked for one. -/
  | answer (connection : Connection) (response : Response) (stream : Option SubscriptionId)
  | command (command : BranchCommand)

/-- A session that was stopped takes nothing in, and an answer only comes to the request under
way, in kind. -/
def admits (session : BranchSession) : Input → Bool
  | .answer _ response _ => !session.stopped && session.inFlight.any response.answers
  | _ => !session.stopped

def take (session : BranchSession) : Input → BranchSession
  | .connection connection => session.onConnection connection
  | .update data => session.onUpdate data
  | .updatesEnded => session.onUpdatesEnded
  | .answer connection response stream => session.onAnswer connection response stream
  | .command command => session.onCommand command

def step (session : BranchSession) (input : Input) : BranchSession :=
  if session.admits input then session.take input else session

def run (session : BranchSession) (inputs : List Input) : BranchSession := inputs.foldl step session

/-- A move of the coordinator, and the session that takes it over. -/
structure Handover where
  session : BranchSession
  move : Coordinator.Move

/-- The session that a handover leads to. -/
def Handover.driven (handover : Handover) : BranchSession := handover.session.drive handover.move

/-- The coordinator hears of the connection first, if it has not. -/
def notices (session : BranchSession) (connection : Connection) : List Handover :=
  if connection.isConnected = session.coordinator.connected then []
  else [⟨session, session.coordinator.connectionChanged connection.state⟩]

/-- A move that is not refused is taken over. -/
def accepted (session : BranchSession) (result : Except SyncError Coordinator.Move) :
    List Handover :=
  result.toOption.toList.map (⟨session, ·⟩)

/-- The moves that the session takes over at a command. -/
def commanded (session : BranchSession) : BranchCommand → List Handover
  | .commit data ticket =>
      (session.reply ticket .done).accepted (session.coordinator.commitLocally data)
  | .makeCommit data ticket =>
      (session.awaitCommit data.hash ticket).accepted (session.coordinator.commitLocally data)
  | .resolve resolution ticket =>
      (session.reply ticket .done).accepted (session.coordinator.resolveFork resolution)
  | .whenSynced ticket =>
      [⟨{ session with
          workerWaiters := session.workerWaiters.insert session.nextWorker ticket
          nextWorker := session.nextWorker + 1 },
        session.coordinator.queueWorker session.nextWorker, none⟩]
  | .retry => [⟨session, session.coordinator.retry⟩]
  | .close => []

/-- The session that takes the answer to its request over. -/
def answered (session : BranchSession) (connection : Connection)
    (stream : Option SubscriptionId) : BranchSession :=
  let told :=
    if connection.isConnected = session.coordinator.connected then session
    else session.drive (session.coordinator.connectionChanged connection.state)
  { told with stream := stream <|> told.stream }

/-- The moves that the session takes over at an input, in order. -/
def handovers (session : BranchSession) : Input → List Handover
  | .connection connection => [⟨{ session with seen := connection.transitions },
      session.coordinator.connectionChanged connection.state⟩]
  | .update data => [⟨session, session.coordinator.remoteUpdate data⟩]
  | .updatesEnded => []
  | .answer connection response stream =>
      let waiting := { session with inFlight := none }
      let answered := waiting.answered connection stream
      waiting.notices connection ++ [⟨answered, answered.coordinator.handle response⟩]
  | .command command => session.commanded command

variable {session driven : BranchSession} {input : Input} {handover : Handover}
  {move : Coordinator.Move} {request : Option Request} {occasion : Occasion}

theorem getLast?_accepted {result : Except SyncError Coordinator.Move}
    (hlast : (session.accepted result).getLast? = some handover) :
    result = .ok handover.move ∧ handover.session = session := by
  cases result with
  | error error => cases hlast
  | ok move =>
      obtain rfl := Option.some.inj hlast
      exact ⟨rfl, rfl⟩

/-- An input leads where its last handover leads. -/
theorem take_of_handovers (hlast : (session.handovers input).getLast? = some handover) :
    session.take input = handover.driven := by
  cases input with
  | connection connection =>
      obtain rfl := Option.some.inj hlast
      rfl
  | update data =>
      obtain rfl := Option.some.inj hlast
      rfl
  | updatesEnded => cases hlast
  | answer connection response stream =>
      simp only [handovers, List.getLast?_append, List.getLast?_singleton, Option.some_or] at hlast
      obtain rfl := Option.some.inj hlast
      rfl
  | command command =>
      cases command with
      | commit data ticket =>
          obtain ⟨hmove, hsession⟩ := getLast?_accepted hlast
          simp only [take, onCommand, hmove, Handover.driven, hsession]
      | makeCommit data ticket =>
          obtain ⟨hmove, hsession⟩ := getLast?_accepted hlast
          simp only [take, onCommand, hmove, Handover.driven, hsession]
      | resolve resolution ticket =>
          obtain ⟨hmove, hsession⟩ := getLast?_accepted hlast
          simp only [take, onCommand, hmove, Handover.driven, hsession]
      | whenSynced ticket =>
          obtain rfl := Option.some.inj hlast
          rfl
      | retry =>
          obtain rfl := Option.some.inj hlast
          rfl
      | close => cases hlast

/-! ## What is under way -/

/-- Two sessions have the same coordinator and the same request under way. -/
structure Alike (session other : BranchSession) : Prop where
  coordinator : session.coordinator = other.coordinator
  inFlight : session.inFlight = other.inFlight

theorem Alike.trans {other later : BranchSession} (hfirst : session.Alike other)
    (hsecond : other.Alike later) : session.Alike later :=
  ⟨hfirst.coordinator.trans hsecond.coordinator, hfirst.inFlight.trans hsecond.inFlight⟩

theorem alike_foldl {Item : Type} {change : BranchSession → Item → BranchSession}
    (hchange : ∀ session item, (change session item).Alike session) (items : List Item)
    (session : BranchSession) : (items.foldl change session).Alike session := by
  induction items generalizing session with
  | nil => exact ⟨rfl, rfl⟩
  | cons item rest ih => exact (ih (change session item)).trans (hchange session item)

theorem alike_awaitCommit (session : BranchSession) (hash : CommitHash) (ticket : Ticket) :
    (session.awaitCommit hash ticket).Alike session := by
  unfold awaitCommit
  cases session.commitWaiters.get? hash with
  | none => exact ⟨rfl, rfl⟩
  | some earlier => exact ⟨rfl, rfl⟩

theorem alike_releaseWorker (head : CommitHash) (session : BranchSession) (worker : Nat) :
    (session.releaseWorker head worker).Alike session := by
  unfold releaseWorker
  cases session.workerWaiters.get? worker with
  | none => exact ⟨rfl, rfl⟩
  | some ticket => exact ⟨rfl, rfl⟩

theorem alike_answerWaiters (session : BranchSession) (event : SyncEvent) :
    (session.answerWaiters event).Alike session := by
  unfold answerWaiters
  split
  · split <;> exact ⟨rfl, rfl⟩
  · exact alike_foldl (alike_releaseWorker _) _ session
  · exact ⟨rfl, rfl⟩

theorem alike_publishEvent (session : BranchSession) (event : SyncEvent) :
    (session.publishEvent event).Alike session :=
  ⟨(alike_answerWaiters session event).coordinator, (alike_answerWaiters session event).inFlight⟩

/-- To tell of the events changes neither the course nor the request under way. -/
theorem alike_publish (session : BranchSession) :
    session.publish.Alike { session with coordinator := session.coordinator.takeEvents.1 } :=
  alike_foldl alike_publishEvent _ _

theorem course_drive (session : BranchSession) (move : Coordinator.Move) :
    (session.drive move).coordinator.course = move.1.course := by
  rw [drive, (alike_publish _).coordinator]
  rfl

theorem inFlight_drive (session : BranchSession) (move : Coordinator.Move) :
    (session.drive move).inFlight = move.2.or session.inFlight := by
  rw [drive, (alike_publish _).inFlight]
  cases move.2 <;> rfl

/-- Nothing is given up for a new request. -/
def Handover.Safe (handover : Handover) : Prop :=
  handover.session.inFlight = none ∨ handover.move.2 = none

/-- The request under way is the one that the coordinator waits for. -/
def Attentive (session : BranchSession) : Prop :=
  Awaits session.coordinator.course session.inFlight

theorem Attentive.alike {other : BranchSession} (h : session.Attentive)
    (halike : other.Alike session) : other.Attentive := by
  rw [Attentive, halike.coordinator, halike.inFlight]
  exact h

/-- A handover of what the coordinator was told. -/
theorem Attentive.drive (h : session.Attentive) (halike : handover.session.Alike session)
    (hreact : session.coordinator.react occasion = some handover.move) :
    handover.Safe ∧ handover.driven.Attentive := by
  obtain ⟨hone, hawaits⟩ := Awaits.react h hreact
  constructor
  · rw [Handover.Safe, halike.inFlight]
    exact hone
  · rw [Attentive, Handover.driven, course_drive, inFlight_drive, halike.inFlight]
    exact hawaits

theorem exists_of_mem_accepted {result : Except SyncError Coordinator.Move}
    (hmem : handover ∈ driven.accepted result) :
    handover.session = driven ∧ result.toOption = some handover.move := by
  cases result with
  | error error => cases hmem
  | ok move =>
      obtain rfl := List.mem_singleton.mp hmem
      exact ⟨rfl, rfl⟩

/-- A handover at another input than an answer is one of what the coordinator was told. -/
theorem exists_occasion (hmem : handover ∈ session.handovers input)
    (hinput : ∀ connection response stream, input ≠ .answer connection response stream) :
    handover.session.Alike session ∧
      ∃ occasion, session.coordinator.react occasion = some handover.move := by
  cases input with
  | connection connection =>
      obtain rfl := List.mem_singleton.mp hmem
      exact ⟨⟨rfl, rfl⟩, .connection connection.state, rfl⟩
  | update data =>
      obtain rfl := List.mem_singleton.mp hmem
      exact ⟨⟨rfl, rfl⟩, .update data, rfl⟩
  | updatesEnded => cases hmem
  | answer connection response stream => exact absurd rfl (hinput connection response stream)
  | command command =>
      cases command with
      | commit data ticket =>
          obtain ⟨hsession, hmove⟩ := exists_of_mem_accepted hmem
          exact ⟨hsession ▸ ⟨rfl, rfl⟩, .commit data, hmove⟩
      | makeCommit data ticket =>
          obtain ⟨hsession, hmove⟩ := exists_of_mem_accepted hmem
          exact ⟨hsession ▸ alike_awaitCommit .., .commit data, hmove⟩
      | resolve resolution ticket =>
          obtain ⟨hsession, hmove⟩ := exists_of_mem_accepted hmem
          exact ⟨hsession ▸ ⟨rfl, rfl⟩, .resolve resolution, hmove⟩
      | whenSynced ticket =>
          obtain rfl := List.mem_singleton.mp hmem
          exact ⟨⟨rfl, rfl⟩, .worker session.nextWorker, rfl⟩
      | retry =>
          obtain rfl := List.mem_singleton.mp hmem
          exact ⟨⟨rfl, rfl⟩, .retry, rfl⟩
      | close => cases hmem

theorem exists_of_accepted_eq_nil {result : Except SyncError Coordinator.Move}
    (hnone : driven.accepted result = []) : ∃ error, result = .error error := by
  cases result with
  | error error => exact ⟨error, rfl⟩
  | ok move => cases hnone

/-- Without a handover the session goes on as before, or stops. -/
theorem take_of_no_handover (hnone : session.handovers input = []) :
    (session.take input).stopped = true ∨ (session.take input).Alike session := by
  cases input with
  | connection connection => cases hnone
  | update data => cases hnone
  | updatesEnded => exact .inr ⟨rfl, rfl⟩
  | answer connection response stream => simp [handovers] at hnone
  | command command =>
      cases command with
      | commit data ticket =>
          obtain ⟨error, herror⟩ := exists_of_accepted_eq_nil hnone
          simp only [take, onCommand, herror]
          exact .inr ⟨rfl, rfl⟩
      | makeCommit data ticket =>
          obtain ⟨error, herror⟩ := exists_of_accepted_eq_nil hnone
          simp only [take, onCommand, herror]
          exact .inr ⟨rfl, rfl⟩
      | resolve resolution ticket =>
          obtain ⟨error, herror⟩ := exists_of_accepted_eq_nil hnone
          simp only [take, onCommand, herror]
          exact .inr ⟨rfl, rfl⟩
      | whenSynced ticket => cases hnone
      | retry => cases hnone
      | close => exact .inl rfl

/-! ## Answers -/

/-- A change of the connection that is heard with an answer leads to no request, since the
coordinator still waits. -/
theorem exists_answered {waiting : BranchSession} {asked : Request}
    (h : Awaits waiting.coordinator.course (some asked)) (hnone : waiting.inFlight = none)
    (connection : Connection) (stream : Option SubscriptionId) :
    (∀ handover ∈ waiting.notices connection, handover.Safe) ∧
      Awaits (waiting.answered connection stream).coordinator.course (some asked) ∧
      (waiting.answered connection stream).inFlight = none := by
  unfold answered notices
  split_ifs with hconnected
  · exact ⟨List.forall_mem_nil _, h, hnone⟩
  · have hbusy : waiting.coordinator.phase ≠ .idle := fun hidle => nomatch h.idle_iff.mp hidle
    have hreact : waiting.coordinator.react (.connection connection.state) =
      some (waiting.coordinator.connectionChanged connection.state) := rfl
    obtain ⟨hunasked, hextends⟩ := react_of_busy hbusy hreact
    refine ⟨List.forall_mem_singleton.mpr (.inl hnone), ?_, ?_⟩
    · exact (course_drive ..).symm ▸ h.extend hextends
    · exact (inFlight_drive ..).trans (by rw [hunasked, hnone, Option.or_none])

/-- The answer to the request under way is taken when nothing else is. -/
theorem Attentive.take_answer (h : session.Attentive) {asked : Request} {response : Response}
    (hasked : session.inFlight = some asked) (hanswers : response.answers asked)
    (connection : Connection) (stream : Option SubscriptionId) :
    (∀ handover ∈ session.handovers (.answer connection response stream), handover.Safe) ∧
      (session.take (.answer connection response stream)).Attentive := by
  have hawaits : Awaits session.coordinator.course (some asked) := hasked ▸ h
  let waiting := { session with inFlight := none }
  have hwaiting : Awaits waiting.coordinator.course (some asked) := hawaits
  obtain ⟨hnotices, hawaited, hnone⟩ := exists_answered hwaiting rfl connection stream
  constructor
  · intro handover hmem
    rcases List.mem_append.mp hmem with hmem | hmem
    · exact hnotices handover hmem
    · obtain rfl := List.mem_singleton.mp hmem
      exact .inl hnone
  · have hcoherent := hawaited.coherent_handle hanswers
    let answered := waiting.answered connection stream
    have hdriven : (answered.drive (answered.coordinator.handle response)).Attentive := by
      rw [Attentive, course_drive, inFlight_drive, hnone, Option.or_none]
      exact hcoherent.awaits
    exact hdriven

/-- Every input that is admitted hands over safely. -/
theorem Attentive.take (h : session.Attentive) (hadmits : session.admits input) :
    (∀ handover ∈ session.handovers input, handover.Safe) ∧
      ((session.take input).stopped = true ∨ (session.take input).Attentive) := by
  by_cases hanswer : ∃ connection response stream, input = .answer connection response stream
  · obtain ⟨connection, response, stream, rfl⟩ := hanswer
    simp only [admits, Bool.and_eq_true, Option.any_eq_true] at hadmits
    obtain ⟨-, asked, hasked, hanswers⟩ := hadmits
    obtain ⟨hsafe, hattentive⟩ := h.take_answer hasked hanswers connection stream
    exact ⟨hsafe, .inr hattentive⟩
  · have hinput : ∀ connection response stream,
        input ≠ .answer connection response stream :=
      fun connection response stream hsame => hanswer ⟨connection, response, stream, hsame⟩
    have hdrive : ∀ handover ∈ session.handovers input,
        handover.Safe ∧ handover.driven.Attentive := by
      intro handover hmem
      obtain ⟨halike, occasion, hreact⟩ := exists_occasion hmem hinput
      exact h.drive halike hreact
    refine ⟨fun handover hmem => (hdrive handover hmem).1, ?_⟩
    cases hlast : (session.handovers input).getLast? with
    | none =>
        have hnone := List.getLast?_eq_none_iff.mp hlast
        exact (take_of_no_handover hnone).imp_right h.alike
    | some handover =>
        rw [take_of_handovers hlast]
        exact .inr (hdrive handover (List.mem_of_getLast? hlast)).2

/-! ## Runs -/

theorem step_of_stopped (hstopped : session.stopped = true) (input : Input) :
    session.step input = session := by
  have hrefused : session.admits input = false := by
    cases input <;> simp [admits, hstopped]
  rw [step, hrefused, if_neg Bool.false_ne_true]

theorem step_stopped_or_attentive (h : session.stopped = true ∨ session.Attentive)
    (input : Input) : (session.step input).stopped = true ∨ (session.step input).Attentive := by
  rcases h with hstopped | hattentive
  · exact .inl ((step_of_stopped hstopped input).symm ▸ hstopped)
  · unfold step
    split_ifs with hadmits
    · exact (hattentive.take hadmits).2
    · exact .inr hattentive

theorem run_stopped_or_attentive (h : session.stopped = true ∨ session.Attentive)
    (inputs : List Input) :
    (session.run inputs).stopped = true ∨ (session.run inputs).Attentive := by
  induction inputs generalizing session with
  | nil => exact h
  | cons input rest ih => exact ih (step_stopped_or_attentive h input)

/-- A session that is started with the connection down begins with a coordinator that has heard
of it. -/
theorem attentive_start (project : ProjectId) (branch : BranchName) (head : CommitHash)
    (stream : SubscriptionId) (connection : Connection) (settings : Settings) :
    (start project branch head stream connection settings).Attentive := by
  let fresh := Coordinator.start project branch head
  have hfresh : Awaits fresh.course none := Asks.awaits (.nothing rfl)
  unfold Attentive start
  split_ifs with hconnected
  · exact hfresh
  · have hunasked : (fresh.connectionChanged connection.state).2 = none := by
      unfold Connection.isConnected at hconnected
      cases hstate : connection.state with
      | connected | reconnected => exact absurd (hstate ▸ rfl) hconnected
      | disconnected | reconnecting | error => rfl
    have hreact : fresh.react (.connection connection.state) =
      some (fresh.connectionChanged connection.state) := rfl
    have hawaits := (hfresh.react hreact).2
    rwa [hunasked] at hawaits

/-- What the phase of the coordinator tells of the request under way. -/
structure SingleFlight (session : BranchSession) : Prop where
  idle_iff : session.stopped = false →
    (session.coordinator.phase = .idle ↔ session.inFlight = none)
  safe : ∀ input, session.admits input → ∀ handover ∈ session.handovers input, handover.Safe

theorem singleFlight_run (h : session.Attentive) (inputs : List Input) :
    (session.run inputs).SingleFlight := by
  have hrun := run_stopped_or_attentive (.inr h) inputs
  constructor
  · intro hgoing
    have hattentive := hrun.resolve_left (by simp [hgoing])
    exact hattentive.idle_iff
  · intro input hadmits
    rcases hrun with hstopped | hattentive
    · cases input <;> simp [admits, hstopped] at hadmits
    · exact (hattentive.take hadmits).1

end BranchSession

/-- In every run of a dialogue one request is unanswered in every phase but `idle`, and none in
that phase, and in every run of a session no request under way is given up for another. -/
theorem single_flight (project : ProjectId) (branch : BranchName) (head : CommitHash) :
    (∀ inputs, ((Dialogue.start project branch head).run inputs).SingleFlight) ∧
      ∀ stream connection settings inputs,
        ((BranchSession.start project branch head stream connection settings).run
          inputs).SingleFlight := by
  constructor
  · intro inputs
    exact ((Dialogue.attentive_start project branch head).run inputs).singleFlight
  · intro stream connection settings inputs
    exact BranchSession.singleFlight_run
      (BranchSession.attentive_start project branch head stream connection settings) inputs

end Coauthor
