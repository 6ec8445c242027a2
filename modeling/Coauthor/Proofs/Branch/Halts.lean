import Coauthor.Proofs.Branch.Order
import Mathlib

/-!
# What a stopped coordinator still does

The reason to stop stands beside the phase, and is looked at in one place only: where a
coordinator with nothing under way decides what comes next.  There a rejoin that is due comes
before the reason to stop, and the queues come after it.  So a stopped coordinator pushes, loads
and compares nothing.  It listens again when a rejoin is due, and it asks for the steps of a
resolution once its user has chosen one.  A rejoin is due after a change of the connection, and
at once if the transport fails in the middle of such a request, with the connection unchanged.
-/

namespace Coauthor

open Coordinator

/-- The answer tells that the transport failed, in whatever was asked for. -/
def Response.isLost (response : Response) : Bool :=
  response.isFault || response.refusal?.any (·.isTransport)

/-- A step of a fork resolution. -/
def Request.resolves : Request → Bool
  | .store _ | .createBranch .. | .setHead .. => true
  | _ => false

/-- The last step of a resolution is confirmed in the phase that waits for it. -/
def Phase.concludes : Phase → Response → Bool
  | .resolving (.fork _) _, .branchCreated (.ok ()) => true
  | .resolving .forcePush _, .headSet (.ok response) => response.status? = some .synced
  | _, _ => false

theorem Phase.forked_of_suits {resolution : ForkResolution} {stored : Nat} {halt : Halt}
    (h : (Phase.resolving resolution stored).suits (some halt)) :
    ∃ hash, halt = .forked hash := by
  cases halt with
  | forked hash => exact ⟨hash, rfl⟩
  | failed => cases h

namespace Coordinator

/-- What its user tells a coordinator to end this reason to stop. -/
def Occasion.ends : Occasion → Halt → Bool
  | .retry, .failed => true
  | .resolve .abandon, .forked _ => true
  | _, _ => false

/-- The connection is lost, or is back after a loss. -/
def Occasion.disturbs : Occasion → Bool
  | .connection state => state ≠ .connected
  | _ => false

variable {coordinator prepared later : Coordinator} {course : Course} {phase : Phase} {halt : Halt}
  {request : Request} {response : Response} {occasion : Occasion} {move : Move}
  {resolution : ForkResolution} {count : Nat} {disturbs lost : Bool}

/-! ## What is asked for -/

/-- What a coordinator that has stopped may ask for. -/
theorem Asks.of_halted (h : Asks course (some request)) (hsuits : course.phase.suits course.halt)
    (hhalt : course.halt = some halt) :
    request = .subscribe ∨ request.resolves ∧ (∃ hash, halt = .forked hash) ∧
      ∃ resolution count, course.phase = .resolving resolution count := by
  rw [hhalt] at hsuits
  cases h with
  | subscribe hphase => exact .inl rfl
  | store hphase hcommits =>
      exact .inr ⟨rfl, Phase.forked_of_suits (hphase ▸ hsuits), _, _, hphase⟩
  | createBranch hphase hstored =>
      exact .inr ⟨rfl, Phase.forked_of_suits (hphase ▸ hsuits), _, _, hphase⟩
  | setHead hphase hstored =>
      exact .inr ⟨rfl, Phase.forked_of_suits (hphase ▸ hsuits), _, _, hphase⟩
  | push hphase hcommits =>
      rw [hphase] at hsuits
      cases hsuits
  | update hphase hupdates =>
      rw [hphase] at hsuits
      cases hsuits
  | load hphase hreason =>
      rw [hphase] at hsuits
      cases hsuits
  | fetchHead hphase =>
      rw [hphase] at hsuits
      cases hsuits
  | findAncestor hphase hcommits =>
      rw [hphase] at hsuits
      cases hsuits

/-! ## How a reason to stop ends -/

theorem halt_next (coordinator : Coordinator) : coordinator.next.1.halt = coordinator.halt := by
  obtain ⟨phase, updates, rejoinPending, hnext⟩ := exists_next_eq coordinator
  rw [hnext]

theorem halt_refreshHead (coordinator : Coordinator) :
    coordinator.refreshHead.1.halt = coordinator.halt := by
  obtain ⟨phase, rejoinPending, hrefresh⟩ := exists_refreshHead_eq coordinator
  rw [hrefresh]

theorem halt_finish (move : Move) : (finish move).1.halt = move.1.halt :=
  congrArg Course.halt (course_finish move)

/-- An error changes nothing for a coordinator that has stopped already. -/
theorem halt_fail (hhalt : coordinator.halt = some halt) (error : SyncError) :
    (coordinator.fail error).1.halt = some halt := by
  change (if coordinator.isForked then coordinator.halt else some .failed) = some halt
  cases halt with
  | forked hash => rw [if_pos (by rw [isForked, hhalt]), hhalt]
  | failed => rw [if_neg (by simp [isForked, hhalt])]

theorem halt_storeNext (coordinator : Coordinator) (hresolution : resolution ≠ .abandon)
    (count : Nat) : (coordinator.storeNext resolution count).1.halt = coordinator.halt := by
  unfold storeNext
  cases coordinator.branch.commits[count]? with
  | some data => rfl
  | none =>
      cases resolution with
      | abandon => exact absurd rfl hresolution
      | fork name => rfl
      | forcePush => rfl

theorem not_concludes_of_isFault (hfault : response.isFault) (phase : Phase) :
    phase.concludes response = false := by
  unfold Phase.concludes
  split
  · cases hfault
  · cases hfault
  · rfl

theorem not_concludes_of_refusal {error : RemoteError} (hrefusal : response.refusal? = some error)
    (phase : Phase) : phase.concludes response = false := by
  unfold Phase.concludes
  split
  · cases hrefusal
  · cases hrefusal
  · rfl

theorem Fails.not_concludes {error : SyncError} (h : Fails coordinator phase response error) :
    phase.concludes response = false := by
  cases h <;> rfl

/-- An answer ends no reason to stop but a fork, whose resolution it concludes. -/
theorem Handled.halt_eq (h : Handled coordinator phase response move)
    (hsuits : phase.suits coordinator.halt)
    (hkept : ∀ count, phase ≠ .resolving .abandon count) (hhalt : coordinator.halt = some halt) :
    move.1.halt = if phase.concludes response then none else some halt := by
  have hstopped : phase.suits (some halt) := hhalt ▸ hsuits
  cases h with
  | interrupted hfault =>
      rw [not_concludes_of_isFault hfault]
      exact (halt_next _).trans hhalt
  | failed hfails =>
      rw [hfails.not_concludes]
      exact halt_fail hhalt _
  | listening hsome => exact (halt_next _).trans hhalt
  | subscribed hnone => cases hnone.symm.trans hhalt
  | stored resolution count result =>
      have hresolution : resolution ≠ .abandon := fun habandon => hkept count (habandon ▸ rfl)
      rw [halt_storeNext coordinator hresolution]
      cases resolution <;> exact hhalt
  | refused resolution count error hrefusal =>
      rw [not_concludes_of_refusal hrefusal]
      exact (halt_next _).trans hhalt
  | branchCreated name count =>
      exact (halt_refreshHead _).trans (halt_settleQueue (isForked_of_suits hsuits) .forked)
  | @forced count result hstatus =>
      have hconcludes : (Phase.resolving .forcePush count).concludes (.headSet (.ok result)) :=
        decide_eq_true hstatus
      rw [if_pos hconcludes]
      exact (halt_next _).trans (halt_settleQueue (isForked_of_suits hsuits) .synced)
  | @unforced count result hstatus =>
      have hgoes : ¬ (Phase.resolving .forcePush count).concludes (.headSet (.ok result)) :=
        fun hconcludes => hstatus (of_decide_eq_true hconcludes)
      rw [if_neg hgoes]
      exact (halt_next _).trans hhalt
  | _ => cases hstopped

/-- Without an answer, a reason to stop ends only if the user tells so. -/
theorem halt_react (hreact : coordinator.react occasion = some move)
    (hhalt : coordinator.halt = some halt) :
    move.1.halt = if occasion.ends halt then none else some halt := by
  have hnext (prepared : Coordinator) : (finish prepared.next).1.halt = prepared.halt :=
    (halt_finish _).trans (halt_next prepared)
  cases reacted_of_react hreact with
  | committed hparent => exact (hnext _).trans hhalt
  | known hknown => exact hhalt
  | announced hunknown => exact (hnext _).trans hhalt
  | connected => exact (hnext _).trans hhalt
  | reconnected => exact (hnext _).trans hhalt
  | disconnected hstate => exact (halt_finish _).trans hhalt
  | @resolved resolution hforked hphase =>
      rw [halt_finish]
      cases resolution with
      | abandon =>
          obtain ⟨hash, hfork⟩ := halt_of_isForked hforked
          obtain rfl : Halt.forked hash = halt := Option.some.inj (hfork.symm.trans hhalt)
          exact (halt_refreshHead _).trans (halt_settleQueue hforked .canceled)
      | fork name => exact (halt_storeNext coordinator (by simp) 0).trans hhalt
      | forcePush => exact (halt_storeNext coordinator (by simp) 0).trans hhalt
  | unfailed hother =>
      cases halt with
      | forked hash => exact hhalt
      | failed => exact absurd hhalt hother
  | refreshed hfailed hphase hcommits =>
      obtain rfl : Halt.failed = halt := Option.some.inj (hfailed.symm.trans hhalt)
      exact (halt_finish _).trans (halt_refreshHead _)
  | resumed hfailed =>
      obtain rfl : Halt.failed = halt := Option.some.inj (hfailed.symm.trans hhalt)
      exact hnext _
  | queued number =>
      exact (congrArg Course.halt (course_queueWorker coordinator number)).trans hhalt

/-! ## Why a coordinator listens again -/

/-- A coordinator listens again only if a rejoin is due, which a change of the connection or a
fault of the transport makes it; and a rejoin that stays due was due or is so by the connection. -/
structure Rejoins (coordinator : Coordinator) (disturbs lost : Bool) (move : Move) : Prop where
  asked : move.2 = some .subscribe → coordinator.rejoinPending ∨ disturbs ∨ lost
  kept : move.1.rejoinPending →
    move.2 ≠ some .subscribe ∧ (coordinator.rejoinPending ∨ disturbs)

theorem rejoins_quiet {request : Option Request} (hrequest : request ≠ some .subscribe)
    (hpending : later.rejoinPending → coordinator.rejoinPending ∨ disturbs) :
    Rejoins coordinator disturbs lost (later, request) where
  asked := fun hsubscribe => absurd hsubscribe hrequest
  kept := fun hlater => ⟨hrequest, hpending hlater⟩

theorem Rejoins.finish (h : Rejoins coordinator disturbs lost move) :
    Rejoins coordinator disturbs lost (Coordinator.finish move) where
  asked := h.asked
  kept := by
    have hsame : (Coordinator.finish move).1.rejoinPending = move.1.rejoinPending :=
      congrArg Course.rejoinPending (course_finish move)
    rw [hsame]
    exact h.kept

theorem work_ne_subscribe (coordinator : Coordinator) :
    coordinator.work.2 ≠ some .subscribe := by
  cases hcommits : coordinator.branch.commits with
  | cons data rest =>
      rw [work_of_cons hcommits]
      rintro ⟨⟩
  | nil =>
      rw [work_of_nil hcommits]
      cases coordinator.due with
      | nil => rintro ⟨⟩
      | cons data rest => rintro ⟨⟩

/-- A rejoin that is due is begun at once, unless something is under way or the connection is
down. -/
theorem rejoins_next (hdue : prepared.rejoinPending → coordinator.rejoinPending ∨ disturbs ∨ lost)
    (hbusy : prepared.phase ≠ .idle ∨ prepared.connected = false →
      prepared.rejoinPending → coordinator.rejoinPending ∨ disturbs) :
    Rejoins coordinator disturbs lost prepared.next := by
  unfold next
  split_ifs with hwaiting hrejoin hhalt
  · exact rejoins_quiet (by simp) (hbusy hwaiting)
  · exact { asked := fun _ => hdue hrejoin, kept := by rintro ⟨⟩ }
  · exact rejoins_quiet (by simp) fun hpending => absurd hpending hrejoin
  · obtain ⟨phase, updates, hwork⟩ := exists_work_eq prepared
    have hsame : prepared.work.1.rejoinPending = prepared.rejoinPending := by rw [hwork]
    exact rejoins_quiet (work_ne_subscribe prepared) fun hpending =>
      absurd (hsame ▸ hpending) hrejoin

theorem rejoins_next_of_steady
    (hpending : prepared.rejoinPending → coordinator.rejoinPending ∨ disturbs) :
    Rejoins coordinator disturbs lost prepared.next :=
  rejoins_next (fun hprepared => (hpending hprepared).imp_right .inl) fun _ => hpending

/-- The transport may have failed while the connection, as far as is known, was up. -/
theorem rejoins_next_of_lost (hphase : prepared.phase = .idle)
    (halert : prepared.connected = false → coordinator.rejoinPending)
    (hlost : prepared.rejoinPending → coordinator.rejoinPending ∨ lost) :
    Rejoins coordinator disturbs lost prepared.next := by
  refine rejoins_next (fun hprepared => (hlost hprepared).imp_right .inr) fun hbusy _ => .inl ?_
  exact halert (hbusy.resolve_left (not_not.mpr hphase))

theorem rejoins_refreshHead (halert : prepared.connected = false → coordinator.rejoinPending)
    (hpending : prepared.rejoinPending → coordinator.rejoinPending ∨ disturbs) :
    Rejoins coordinator disturbs lost prepared.refreshHead := by
  unfold refreshHead
  split_ifs with hconnected
  · exact rejoins_quiet (by simp) hpending
  · exact rejoins_quiet (by simp) fun _ => .inl (halert (eq_false_of_ne_true hconnected))

theorem rejoins_storeNext (halert : coordinator.connected = false → coordinator.rejoinPending)
    (resolution : ForkResolution) (count : Nat) :
    Rejoins coordinator disturbs lost (coordinator.storeNext resolution count) := by
  unfold storeNext
  cases coordinator.branch.commits[count]? with
  | some data => exact rejoins_quiet (by simp) .inl
  | none =>
      cases resolution with
      | abandon => exact rejoins_refreshHead halert .inl
      | fork name => exact rejoins_quiet (by simp) .inl
      | forcePush => exact rejoins_quiet (by simp) .inl

theorem rejoins_acknowledgeRejoined (coordinator : Coordinator) (queued head : CommitHash) :
    Rejoins coordinator disturbs lost (coordinator.acknowledgeRejoined queued head) := by
  simp only [acknowledgeRejoined]
  split_ifs with hsettled
  · exact rejoins_next_of_steady .inl
  · exact rejoins_quiet (by simp) .inl

theorem unload_rejoinPending (coordinator : Coordinator) (reason : LoadReason) :
    (coordinator.unload reason).rejoinPending = coordinator.rejoinPending := by
  unfold unload
  split_ifs with hupdate
  · rfl
  · rfl

/-- An answer makes a rejoin due only if the transport failed. -/
theorem Handled.rejoins (h : Handled coordinator phase response move)
    (hphase : coordinator.phase = .idle)
    (halert : coordinator.connected = false → coordinator.rejoinPending) :
    Rejoins coordinator false response.isLost move := by
  cases h with
  | interrupted hfault =>
      refine rejoins_next_of_lost hphase halert fun _ => .inr ?_
      rw [Response.isLost, hfault, Bool.true_or]
  | failed hfails => exact rejoins_quiet (by simp) .inl
  | synced hhash hstatus => exact rejoins_next_of_steady .inl
  | merged hhash hstatus hmerge => exact rejoins_quiet (by simp) .inl
  | forked hstatus => exact rejoins_quiet (by simp) .inl
  | canceled hstatus => exact rejoins_refreshHead halert .inl
  | loaded reason hash =>
      refine rejoins_next_of_steady fun hpending => .inl ?_
      rw [← unload_rejoinPending coordinator reason]
      exact hpending
  | listening hhalt => exact rejoins_next_of_steady .inl
  | subscribed hhalt => exact rejoins_quiet (by simp) .inl
  | current hcommits => exact rejoins_next_of_steady .inl
  | behind hcommits hhead => exact rejoins_quiet (by simp) .inl
  | landed hcommits => exact rejoins_acknowledgeRejoined _ _ _
  | searching hcommits hhead => exact rejoins_quiet (by simp) .inl
  | emptied hcommits => exact rejoins_next_of_steady .inl
  | recognised hcommits => exact rejoins_acknowledgeRejoined _ _ _
  | diverged hcommits hother => exact rejoins_quiet (by simp) .inl
  | unknown hcommits => exact rejoins_quiet (by simp) .inl
  | stored resolution count result => exact rejoins_storeNext halert resolution (count + 1)
  | refused resolution count error hrefusal =>
      refine rejoins_next_of_lost hphase halert fun hpending => ?_
      rw [Response.isLost, hrefusal]
      refine ((Bool.or_eq_true _ _).mp hpending).imp_right fun htransport => ?_
      rw [Option.any_some, htransport, Bool.or_true]
  | branchCreated name count => exact rejoins_refreshHead halert .inl
  | forced count hstatus => exact rejoins_next_of_steady .inl
  | unforced count hstatus => exact rejoins_next_of_steady .inl

/-- Whatever else a coordinator is told, only the connection makes a rejoin due. -/
theorem rejoins_react (hreact : coordinator.react occasion = some move)
    (halert : coordinator.connected = false → coordinator.rejoinPending) :
    Rejoins coordinator occasion.disturbs lost move := by
  have hnext (prepared : Coordinator)
      (hsame : prepared.rejoinPending = coordinator.rejoinPending) :
      Rejoins coordinator occasion.disturbs lost (finish prepared.next) :=
    (rejoins_next_of_steady fun hpending => .inl (hsame ▸ hpending)).finish
  cases reacted_of_react hreact with
  | committed hparent => exact hnext _ rfl
  | known hknown => exact rejoins_quiet (by simp) .inl
  | announced hunknown => exact hnext _ rfl
  | connected => exact hnext _ rfl
  | reconnected => exact (rejoins_next_of_steady fun _ => .inr rfl).finish
  | @disconnected state hstate =>
      refine (rejoins_quiet (by simp) fun _ => .inr ?_).finish
      cases state <;> first | rfl | cases hstate
  | @resolved resolution hforked hphase =>
      apply Rejoins.finish
      cases resolution with
      | abandon => exact rejoins_refreshHead halert .inl
      | fork name => exact rejoins_storeNext halert _ 0
      | forcePush => exact rejoins_storeNext halert _ 0
  | unfailed hhalt => exact rejoins_quiet (by simp) .inl
  | refreshed hhalt hphase hcommits =>
      apply Rejoins.finish
      exact rejoins_refreshHead halert .inl
  | resumed hhalt => exact hnext _ rfl
  | queued number =>
      refine rejoins_quiet (by simp) fun hpending => .inl ?_
      rw [show (coordinator.queueWorker number).rejoinPending = coordinator.rejoinPending from
        congrArg Course.rejoinPending (course_queueWorker coordinator number)] at hpending
      exact hpending

/-- A resolution that drops the queue is carried out where it is begun. -/
theorem not_abandoning_react (hreact : coordinator.react occasion = some move)
    (hbefore : ∀ count, coordinator.phase ≠ .resolving .abandon count) (count : Nat) :
    move.1.phase ≠ .resolving .abandon count := by
  intro hphase
  rcases phase_react hreact with hsame | hordinary | ⟨resolution, rfl, hbegun⟩
  · exact hbefore count (hsame.symm.trans hphase)
  · rw [hphase] at hordinary
    cases hordinary
  · obtain ⟨rfl, -⟩ := Phase.resolving.inj (hbegun.symm.trans hphase)
    cases reacted_of_react hreact with
    | resolved hforked hidle =>
        have hordinary : (coordinator.resolution .abandon).1.phase.isOrdinary :=
          isOrdinary_refreshHead (congrArg Phase.isOrdinary hidle)
        rw [← phase_finish, hphase] at hordinary
        cases hordinary

end Coordinator

/-! ## Dialogues -/

namespace Dialogue

/-- The connection is lost, or is back after a loss. -/
def Input.disturbs : Input → Bool
  | .told occasion => occasion.disturbs
  | .answer _ => false

/-- The transport failed where an answer was awaited. -/
def Input.isLost : Input → Bool
  | .told _ => false
  | .answer response => response.isLost

/-- The connection was lost or came back since the coordinator last asked to listen again. -/
def Disturbed (dialogue : Dialogue) (inputs : List Input) : Prop :=
  ∃ earlier disturbing later, inputs = earlier ++ disturbing :: later ∧ disturbing.disturbs ∧
    .subscribe ∉ (dialogue.run earlier).requests (disturbing :: later)

/-- The input ends this reason to stop. -/
inductive Frees (dialogue : Dialogue) : Halt → Input → Prop where
  | retried : Frees dialogue .failed (.told .retry)
  /-- The commits that wait are given up; not while a resolution is under way. -/
  | abandoned {hash : CommitHash} (hphase : dialogue.coordinator.phase = .idle) :
      Frees dialogue (.forked hash) (.told (.resolve .abandon))
  /-- The last step of a resolution is confirmed. -/
  | completed {hash head : CommitHash} {request : Request} {response : Response}
      (hunanswered : dialogue.unanswered = [request])
      (hcompletes : Completes request head response) :
      Frees dialogue (.forked hash) (.answer response)

variable {dialogue : Dialogue} {input : Input} {inputs : List Input} {halt : Halt}
  {request : Request} {response : Response} {occasion : Occasion} {move : Coordinator.Move}

/-! ## Disturbances -/

theorem requests_append (dialogue : Dialogue) (inputs more : List Input) :
    dialogue.requests (inputs ++ more) =
      dialogue.requests inputs ++ (dialogue.run inputs).requests more :=
  record_append ..

theorem not_mem_requests_singleton
    (hrequest : dialogue.request? input ≠ some request) : request ∉ dialogue.requests [input] := by
  rw [requests, record, record, List.append_nil, Option.mem_toList]
  exact hrequest

theorem disturbed_concat (hdisturbs : input.disturbs)
    (hrequest : (dialogue.run inputs).request? input ≠ some .subscribe) :
    dialogue.Disturbed (inputs ++ [input]) :=
  ⟨inputs, input, [], rfl, hdisturbs, not_mem_requests_singleton hrequest⟩

theorem Disturbed.concat (h : dialogue.Disturbed inputs)
    (hrequest : (dialogue.run inputs).request? input ≠ some .subscribe) :
    dialogue.Disturbed (inputs ++ [input]) := by
  obtain ⟨earlier, disturbing, more, rfl, hdisturbs, hunasked⟩ := h
  refine ⟨earlier, disturbing, more ++ [input], by simp, hdisturbs, ?_⟩
  rw [run_append] at hrequest
  rw [← List.cons_append, requests_append]
  exact List.not_mem_append hunasked (not_mem_requests_singleton hrequest)

theorem Attentive.rejoins (hattentive : dialogue.Attentive)
    (hsequenced : dialogue.coordinator.course.Sequenced)
    (hmove : dialogue.move? input = some move) :
    Rejoins dialogue.coordinator input.disturbs input.isLost move := by
  cases input with
  | told occasion => exact rejoins_react hmove hsequenced.alert
  | answer response =>
      obtain ⟨request, handled, -, -, -, hhandled, rfl⟩ := hattentive.handled hmove
      have hrested := hhandled.rejoins rfl hsequenced.alert
      exact Rejoins.finish { asked := hrested.asked, kept := hrested.kept }

/-- A rejoin stays due only because of the connection. -/
theorem Attentive.disturbed (hattentive : dialogue.Attentive)
    (hsequenced : dialogue.coordinator.course.Sequenced)
    (hbegun : dialogue.coordinator.rejoinPending = false) (inputs : List Input)
    (hpending : (dialogue.run inputs).coordinator.rejoinPending) : dialogue.Disturbed inputs := by
  induction inputs using List.reverseRecOn with
  | nil => cases hbegun.symm.trans hpending
  | append_singleton inputs input ih =>
      rw [← step_run] at hpending
      cases hmove : (dialogue.run inputs).move? input with
      | none =>
          rw [step_of_none hmove] at hpending
          exact (ih hpending).concat (by simp [request?, hmove])
      | some move =>
          have hrejoins := (hattentive.run inputs).rejoins
            (hattentive.sequenced_run hsequenced inputs) hmove
          rw [step_of_some hmove] at hpending
          obtain ⟨hunasked, hdue⟩ := hrejoins.kept hpending
          have hrequest : (dialogue.run inputs).request? input ≠ some .subscribe := by
            rw [request?, hmove]
            exact hunasked
          rcases hdue with hdue | hdisturbs
          · exact (ih hdue).concat hrequest
          · exact disturbed_concat hdisturbs hrequest

/-! ## The end of a halt -/

theorem Attentive.not_abandoning_step (hattentive : dialogue.Attentive)
    (hbefore : ∀ count, dialogue.coordinator.phase ≠ .resolving .abandon count) (input : Input) :
    ∀ count, (dialogue.step input).coordinator.phase ≠ .resolving .abandon count := by
  cases hmove : dialogue.move? input with
  | none => exact (step_of_none hmove).symm ▸ hbefore
  | some move =>
      rw [step_of_some hmove]
      cases input with
      | told occasion => exact not_abandoning_react hmove hbefore
      | answer response =>
          obtain ⟨request, handled, -, -, -, hhandled, rfl⟩ := hattentive.handled hmove
          intro count hphase
          have hresolving : handled.1.phase = .resolving .abandon count :=
            (phase_finish handled).symm.trans hphase
          obtain ⟨stored, hstored⟩ := hhandled.exists_of_resolving rfl hresolving
          exact hbefore stored hstored

theorem not_abandoning_run (project : ProjectId) (branch : BranchName) (head : CommitHash)
    (inputs : List Input) (count : Nat) :
    ((start project branch head).run inputs).coordinator.phase ≠ .resolving .abandon count :=
  Attentive.run_keeps (∀ count, ·.coordinator.phase ≠ .resolving .abandon count)
    (fun _ input hattentive hbefore => hattentive.not_abandoning_step hbefore input)
    (attentive_start project branch head) (by rintro _ ⟨⟩) inputs count

/-- An input that is refused ends nothing. -/
theorem not_frees_of_none (hhalt : dialogue.coordinator.halt = some halt)
    (hmove : dialogue.move? input = none) : ¬ dialogue.Frees halt input := by
  rintro (_ | hphase | ⟨hunanswered, hcompletes⟩)
  · cases hmove
  · have hforked : dialogue.coordinator.isForked = true := by rw [isForked, hhalt]
    simp [move?, react, resolveFork, hforked, hphase, Except.toOption] at hmove
  · simp [move?, hunanswered, hcompletes.answers] at hmove

theorem frees_told_iff (hmove : dialogue.move? (.told occasion) = some move) :
    dialogue.Frees halt (.told occasion) ↔ occasion.ends halt := by
  constructor
  · rintro (_ | _)
    · rfl
    · rfl
  · intro hends
    unfold Occasion.ends at hends
    split at hends
    · exact .retried
    · have hreact : dialogue.coordinator.react (.resolve .abandon) = some move := hmove
      cases reacted_of_react hreact with
      | resolved hforked hphase => exact .abandoned hphase
    · cases hends

/-- The last step of a resolution is confirmed exactly by what concludes the phase. -/
theorem exists_completes_iff (hanswers : response.answers request)
    (hawaits : Awaits dialogue.coordinator.course (some request)) :
    (∃ head, Completes request head response) ↔
      dialogue.coordinator.phase.concludes response := by
  constructor
  · rintro ⟨head, hcompletes⟩
    cases hcompletes with
    | fork name =>
        obtain ⟨count, hphase⟩ := hawaits.createBranch
        rw [show dialogue.coordinator.phase = _ from hphase]
        rfl
    | forcePush head hstatus =>
        obtain ⟨-, count, hphase⟩ := hawaits.setHead
        rw [show dialogue.coordinator.phase = _ from hphase]
        exact decide_eq_true hstatus
  · intro hconcludes
    unfold Phase.concludes at hconcludes
    split at hconcludes
    · cases request with
      | createBranch name head => exact ⟨head, .fork name head⟩
      | _ => cases hanswers
    · cases request with
      | setHead old head =>
          obtain ⟨rfl, -⟩ := hawaits.setHead
          exact ⟨head, .forcePush head (of_decide_eq_true hconcludes)⟩
      | _ => cases hanswers
    · cases hconcludes

theorem frees_answer_iff (hunanswered : dialogue.unanswered = [request])
    (hanswers : response.answers request)
    (hawaits : Awaits dialogue.coordinator.course (some request))
    (hsuits : dialogue.coordinator.phase.suits (some halt)) :
    dialogue.Frees halt (.answer response) ↔ dialogue.coordinator.phase.concludes response := by
  rw [← exists_completes_iff hanswers hawaits]
  constructor
  · rintro (_ | _ | ⟨hother, hcompletes⟩)
    obtain ⟨rfl, -⟩ := List.cons.inj (hunanswered.symm.trans hother)
    exact ⟨_, hcompletes⟩
  · rintro ⟨head, hcompletes⟩
    obtain ⟨asking, hasks, hcourse⟩ := hawaits
    obtain ⟨-, resolution, count, hphase, -⟩ := hcompletes.exists_resolving hasks
    rw [show dialogue.coordinator.phase = _ from hcourse.phase.trans hphase] at hsuits
    obtain ⟨hash, rfl⟩ := Phase.forked_of_suits hsuits
    exact .completed hunanswered hcompletes

/-- A reason to stop stays as it is until an input frees the coordinator. -/
theorem Attentive.halt_step (hattentive : dialogue.Attentive)
    (hsequenced : dialogue.coordinator.course.Sequenced)
    (hkept : ∀ count, dialogue.coordinator.phase ≠ .resolving .abandon count)
    (hhalt : dialogue.coordinator.halt = some halt) (input : Input) :
    (dialogue.Frees halt input → (dialogue.step input).coordinator.halt = none) ∧
      (¬ dialogue.Frees halt input → (dialogue.step input).coordinator.halt = some halt) := by
  cases hmove : dialogue.move? input with
  | none =>
      rw [step_of_none hmove]
      exact ⟨fun hfrees => absurd hfrees (not_frees_of_none hhalt hmove), fun _ => hhalt⟩
  | some move =>
      rw [step_of_some hmove]
      change (_ → move.1.halt = none) ∧ (_ → move.1.halt = some halt)
      cases input with
      | told occasion =>
          rw [frees_told_iff hmove, halt_react hmove hhalt]
          exact ⟨fun hends => if_pos hends, fun hgoes => if_neg hgoes⟩
      | answer response =>
          obtain ⟨request, handled, hunanswered, hanswers, hawaits, hhandled, rfl⟩ :=
            hattentive.handled hmove
          have hsuits : dialogue.coordinator.phase.suits dialogue.coordinator.halt :=
            hsequenced.suits
          have heq := hhandled.halt_eq hsuits hkept hhalt
          rw [frees_answer_iff hunanswered hanswers hawaits (hhalt ▸ hsuits), halt_finish, heq]
          exact ⟨fun hends => if_pos hends, fun hgoes => if_neg hgoes⟩

/-- A coordinator that is stopped after an input asks for nothing but a step of the resolution
of its fork, or to listen again, if the connection was disturbed since it last did or the
transport failed to bring the answer.  An error is left only by retrying, and a fork only by
giving it up or by the last step of a resolution; until then the reason to stop stays the
same. -/
theorem run_halts_hold (project : ProjectId) (branch : BranchName) (head : CommitHash)
    (inputs : List Input) (input : Input) :
    let dialogue := start project branch head
    let before := dialogue.run inputs
    let after := before.step input
    (∀ halt request, after.coordinator.halt = some halt → before.request? input = some request →
      request.resolves ∧ (∃ hash, halt = .forked hash) ∧
          (∃ resolution count, after.coordinator.phase = .resolving resolution count) ∨
        request = .subscribe ∧
          (dialogue.Disturbed inputs ∨ input.disturbs ∨ input.isLost)) ∧
      ∀ halt, before.coordinator.halt = some halt →
        (before.Frees halt input → after.coordinator.halt = none) ∧
          (¬ before.Frees halt input → after.coordinator.halt = some halt) := by
  intro dialogue before after
  have hstart : dialogue.Attentive := attentive_start project branch head
  have hattentive : before.Attentive := hstart.run inputs
  have hsequenced : before.coordinator.course.Sequenced :=
    hstart.sequenced_run (sequenced_start project branch head) inputs
  refine ⟨fun halt request hhalt hrequest => ?_, fun halt hhalt => ?_⟩
  · obtain ⟨move, hmove, hasked⟩ := Option.bind_eq_some_iff.mp hrequest
    have hafter : after.coordinator = move.1 := congrArg coordinator (step_of_some hmove)
    have hsuits := (hattentive.sequenced_step hsequenced input).suits
    have hasks : Asks after.coordinator.course (some request) :=
      hafter ▸ hattentive.asks hmove hasked
    refine (hasks.of_halted hsuits hhalt).symm.imp_right fun hsubscribe => ⟨hsubscribe, ?_⟩
    have hrejoins := hattentive.rejoins hsequenced hmove
    refine (hrejoins.asked (hsubscribe ▸ hasked)).imp_left fun hpending => ?_
    exact hstart.disturbed (sequenced_start project branch head) rfl inputs hpending
  · exact hattentive.halt_step hsequenced
      (not_abandoning_run project branch head inputs) hhalt input

/-- The first step of a resolution is lost. -/
def storeLost : Input := .answer (.stored (.error .timeout))

/-- The coordinator listens again, stopped by the fork, although it was never told that the
connection changed. -/
theorem subscribes_undisturbed :
    let before := (start "p" "b" "#0").run forking
    (∀ input ∈ forking ++ [storeLost], input.disturbs = false) ∧
      (before.step storeLost).coordinator.halt = some (.forked "#1") ∧
      before.request? storeLost = some .subscribe := by
  refine ⟨?_, ?_, ?_⟩
  · simp [forking, storeLost, Input.disturbs, Occasion.disturbs]
  · cbv
  · cbv

end Dialogue

end Coauthor
