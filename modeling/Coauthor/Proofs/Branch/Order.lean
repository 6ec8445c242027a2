import Coauthor.Proofs.Branch.Resolution
import Mathlib

/-!
# The order of queued commits

The commits that wait form a chain up to the local head, each made on the one before, and they
leave the queue from its front only.  So what is queued is always the end of what was accepted,
and a push is always for the first commit that is left.  Whatever else a coordinator waits for
is about the front of a queue as well, since only its end grows in the meantime: the commit that
is compared with a head, the update that is loaded, and the commit that caused a fork.
-/

namespace Coauthor

open Coordinator

/-- What a coordinator may wait for, by its reason to stop: once it has stopped it only listens
again, or resolves its fork. -/
def Phase.suits : Phase → Option Halt → Bool
  | .idle, _ | .subscribing, _ => true
  | .resolving .., some (.forked _) => true
  | .resolving .., _ => false
  | _, halt => halt.isNone

theorem Phase.suits_of_isOrdinary {phase : Phase} (h : phase.isOrdinary) : phase.suits none := by
  cases phase with
  | findingAncestor head => cases h
  | resolving resolution stored => cases h
  | _ => rfl

theorem Phase.suits_of_idle {phase : Phase} (h : phase = .idle) (halt : Option Halt) :
    phase.suits halt :=
  h ▸ rfl

/-- What suits a coordinator that has failed suits one that goes on. -/
theorem Phase.suits_none {phase : Phase} (h : phase.suits (some .failed)) : phase.suits none := by
  cases phase with
  | idle => rfl
  | subscribing => rfl
  | _ => cases h

namespace Coordinator

/-! ## Sequences -/

/-- What is queued, and why the coordinator has stopped, whatever it waits for. -/
structure Course.Sequenced (course : Course) : Prop where
  chain : ∃ base, Chain base course.commits course.localHead
  /-- A fork is due to the first queued commit. -/
  forked : ∀ hash, course.halt = some (.forked hash) →
    course.commits.head?.map (·.hash) = some hash
  suits : course.phase.suits course.halt
  /-- Without a connection a rejoin is due. -/
  alert : course.connected = false → course.rejoinPending = true

variable {coordinator : Coordinator} {course : Course} {phase : Phase} {response : Response}
  {move : Move} {request : Request} {occasion : Occasion} {hash head : CommitHash}
  {commits : List CommitData} {data : CommitData} {rest : List CommitData}

theorem exists_chain_tail (h : ∃ base, Chain base commits head) :
    ∃ base, Chain base commits.tail head := by
  obtain ⟨base, hchain⟩ := h
  cases commits with
  | nil => exact ⟨base, hchain⟩
  | cons data rest => exact ⟨data.hash, hchain.2⟩

theorem sequenced_start (project : ProjectId) (name : BranchName) (head : CommitHash) :
    (start project name head).course.Sequenced where
  chain := ⟨head, rfl⟩
  forked := by rintro _ ⟨⟩
  suits := rfl
  alert := by rintro ⟨⟩

/-- A coordinator that has not stopped may wait for anything but a resolution. -/
theorem Course.Sequenced.wait (h : course.Sequenced) (hhalt : course.halt = none)
    (hphase : phase.suits none) (updates : List CommitData) (originHead : CommitHash) :
    { course with phase, updates, originHead }.Sequenced :=
  { h with suits := hhalt.symm ▸ hphase }

theorem sequenced_next (h : coordinator.course.Sequenced) :
    coordinator.next.1.course.Sequenced := by
  unfold next
  split_ifs with hbusy hrejoin hhalt
  · exact h
  · have hconnected : coordinator.connected ≠ false := fun hdown => hbusy (.inr hdown)
    exact { h with suits := rfl, alert := fun hdown => absurd hdown hconnected }
  · exact h
  · have hphase : coordinator.phase = .idle := not_not.mp fun hother => hbusy (.inl hother)
    have hordinary : coordinator.work.1.phase.isOrdinary := isOrdinary_work (hphase ▸ rfl)
    obtain ⟨phase, updates, hwork⟩ := exists_work_eq coordinator
    rw [hwork] at hordinary ⊢
    exact h.wait (Option.not_isSome_iff_eq_none.mp hhalt) (Phase.suits_of_isOrdinary hordinary)
      updates _

theorem sequenced_refreshHead (h : coordinator.course.Sequenced) (hhalt : coordinator.halt = none) :
    coordinator.refreshHead.1.course.Sequenced := by
  unfold refreshHead
  split_ifs with hconnected
  · exact h.wait hhalt rfl _ _
  · exact { h with alert := fun _ => rfl }

/-- A queue that is emptied leaves no fork. -/
theorem Course.Sequenced.empty (h : course.Sequenced) (hhalt : course.halt = none)
    (localHead originHead : CommitHash) :
    { course with localHead, originHead, commits := [] }.Sequenced where
  chain := ⟨localHead, rfl⟩
  forked := fun _ hforked => by cases hhalt.symm.trans hforked
  suits := h.suits
  alert := h.alert

theorem halt_settleQueue (hforked : coordinator.isForked = true) (status : CommitStatus) :
    (coordinator.settleQueue status).halt = none :=
  if_pos hforked

/-- A coordinator that leaves a fork goes on from the head of the server. -/
theorem sequenced_leave (h : coordinator.course.Sequenced) (hphase : coordinator.phase = .idle)
    (hforked : coordinator.isForked = true) (status : CommitStatus) :
    (coordinator.resetToOrigin status).refreshHead.1.course.Sequenced := by
  have hnone : (coordinator.resetToOrigin status).halt = none := halt_settleQueue hforked status
  have hleft : { coordinator.course with halt := none }.Sequenced :=
    { h with forked := by rintro _ ⟨⟩, suits := Phase.suits_of_idle hphase none }
  have hsame : (coordinator.resetToOrigin status).course =
      { coordinator.course with
        localHead := coordinator.branch.originHead, commits := [], halt := none } := by
    rw [← hnone]
    rfl
  exact sequenced_refreshHead (hsame ▸ hleft.empty rfl _ _) hnone

/-- Once the first queued commit is part of the branch, the rest starts from it. -/
theorem Course.Sequenced.drop (h : course.Sequenced) (hhalt : course.halt = none)
    (originHead : CommitHash) :
    { course with commits := course.commits.tail, originHead }.Sequenced where
  chain := exists_chain_tail h.chain
  forked := fun _ hforked => by cases hhalt.symm.trans hforked
  suits := h.suits
  alert := h.alert

theorem sequenced_fail (h : coordinator.course.Sequenced) (hphase : coordinator.phase = .idle)
    (error : SyncError) : (coordinator.fail error).1.course.Sequenced where
  chain := h.chain
  forked := by
    intro hash hforked
    have hhalt : (if coordinator.isForked then coordinator.halt else some .failed) =
      some (.forked hash) := hforked
    split_ifs at hhalt with hbefore
    · exact h.forked hash hhalt
    · cases hhalt
  suits := Phase.suits_of_idle hphase _
  alert := h.alert

theorem sequenced_fork (h : coordinator.course.Sequenced) (hphase : coordinator.phase = .idle)
    (hfirst : coordinator.branch.commits.head?.map (·.hash) = some hash)
    (head : Option CommitHash) : (coordinator.fork hash head).1.course.Sequenced where
  chain := h.chain
  forked := by
    rintro other hforked
    obtain rfl : hash = other := Halt.forked.inj (Option.some.inj hforked)
    exact hfirst
  suits := Phase.suits_of_idle hphase _
  alert := h.alert

theorem sequenced_adopt (h : coordinator.course.Sequenced) (hhalt : coordinator.halt = none)
    (hash : CommitHash) : (coordinator.adopt hash).course.Sequenced := by
  by_cases hcommits : coordinator.branch.commits = []
  · rw [adopt_of_nil hcommits]
    have hempty := h.empty hhalt hash hash
    rw [← show coordinator.course.commits = [] from hcommits] at hempty
    exact hempty
  · rw [adopt_of_cons hcommits]
    exact { h with }

theorem sequenced_unload (h : coordinator.course.Sequenced) (reason : LoadReason) :
    (coordinator.unload reason).course.Sequenced := by
  unfold unload
  split_ifs with hupdate
  · exact { h with }
  · exact h

theorem sequenced_acknowledgeRejoined (h : coordinator.course.Sequenced)
    (hhalt : coordinator.halt = none) (queued head : CommitHash) :
    (coordinator.acknowledgeRejoined queued head).1.course.Sequenced := by
  have hconfirmed : (coordinator.confirm queued).course.Sequenced := h.drop hhalt queued
  simp only [acknowledgeRejoined]
  split_ifs with hsettled
  · exact sequenced_next hconfirmed
  · exact hconfirmed.wait hhalt rfl _ _

theorem sequenced_storeNext (h : coordinator.course.Sequenced) (hphase : coordinator.phase = .idle)
    (hforked : coordinator.isForked = true) (resolution : ForkResolution) (stored : Nat) :
    (coordinator.storeNext resolution stored).1.course.Sequenced := by
  have hresolving :
      { coordinator with phase := .resolving resolution stored }.course.Sequenced := by
    obtain ⟨hash, hhalt⟩ := halt_of_isForked hforked
    have hsuits := congrArg (Phase.suits (.resolving resolution stored)) hhalt
    exact { h with suits := hsuits.trans rfl }
  unfold storeNext
  cases coordinator.branch.commits[stored]? with
  | some data => exact hresolving
  | none =>
      cases resolution with
      | fork name => exact hresolving
      | forcePush => exact hresolving
      | abandon => exact sequenced_leave h hphase hforked .canceled

theorem isForked_of_suits {resolution : ForkResolution} {stored : Nat}
    (hsuits : (Phase.resolving resolution stored).suits coordinator.halt) :
    coordinator.isForked = true := by
  unfold isForked
  cases hhalt : coordinator.halt with
  | none => simp [hhalt, Phase.suits] at hsuits
  | some halt =>
      cases halt with
      | forked hash => rfl
      | failed => simp [hhalt, Phase.suits] at hsuits

/-- The answer to a push concerns the first queued commit. -/
theorem Handled.sequenced (h : Handled coordinator phase response move)
    (hphase : coordinator.phase = .idle) (hsequenced : coordinator.course.Sequenced)
    (hsuits : phase.suits coordinator.halt)
    (hpushing : ∀ hash, phase = .pushing hash →
      coordinator.branch.commits.head?.map (·.hash) = some hash) :
    move.1.course.Sequenced := by
  cases h with
  | interrupted hfault =>
      exact sequenced_next { hsequenced with alert := fun _ => rfl }
  | failed hfails => exact sequenced_fail hsequenced hphase _
  | synced hhash hstatus =>
      exact sequenced_next (hsequenced.drop (Option.isNone_iff_eq_none.mp hsuits) _)
  | @merged hash merge result hhash hstatus hmerge =>
      have hhalt := Option.isNone_iff_eq_none.mp hsuits
      exact (hsequenced.drop hhalt merge).wait hhalt rfl _ _
  | forked hstatus => exact sequenced_fork hsequenced hphase (hpushing _ rfl) none
  | canceled hstatus =>
      have hhalt := Option.isNone_iff_eq_none.mp hsuits
      exact sequenced_refreshHead (hsequenced.empty hhalt _ _) hhalt
  | loaded reason hash =>
      have hhalt := Option.isNone_iff_eq_none.mp hsuits
      have hunloaded : (coordinator.unload reason).halt = none := by
        unfold unload
        split_ifs with hupdate
        · exact hhalt
        · exact hhalt
      exact sequenced_next (sequenced_adopt (sequenced_unload hsequenced reason) hunloaded hash)
  | listening hhalt => exact sequenced_next hsequenced
  | subscribed hhalt => exact hsequenced.wait hhalt rfl _ _
  | current hcommits => exact sequenced_next { hsequenced with }
  | behind hcommits hhead =>
      exact hsequenced.wait (Option.isNone_iff_eq_none.mp hsuits) rfl _ _
  | landed hcommits =>
      exact sequenced_acknowledgeRejoined hsequenced (Option.isNone_iff_eq_none.mp hsuits) _ _
  | searching hcommits hhead =>
      exact hsequenced.wait (Option.isNone_iff_eq_none.mp hsuits) rfl _ _
  | emptied hcommits => exact sequenced_next hsequenced
  | recognised hcommits =>
      exact sequenced_acknowledgeRejoined hsequenced (Option.isNone_iff_eq_none.mp hsuits) _ _
  | diverged hcommits hother =>
      exact sequenced_fork hsequenced hphase (by rw [hcommits]; rfl) _
  | unknown hcommits =>
      exact hsequenced.wait (Option.isNone_iff_eq_none.mp hsuits) rfl _ _
  | stored resolution count result =>
      exact sequenced_storeNext hsequenced hphase (isForked_of_suits hsuits) resolution (count + 1)
  | refused resolution count error =>
      refine sequenced_next { hsequenced with alert := fun hdown => ?_ }
      exact (Bool.or_eq_true _ _).mpr (.inl (hsequenced.alert hdown))
  | branchCreated name count =>
      let created := coordinator.emit (.forkCreated name coordinator.branch.localHead)
      have hcreated : created.course.Sequenced := hsequenced
      exact sequenced_leave hcreated hphase (isForked_of_suits hsuits) .forked
  | forced count hstatus =>
      have hnone : coordinator.takeForced.halt = none :=
        halt_settleQueue (isForked_of_suits hsuits) .synced
      exact sequenced_next
        { chain := ⟨_, rfl⟩
          forked := fun _ hforked => by cases hnone.symm.trans hforked
          suits := Phase.suits_of_idle hphase _
          alert := hsequenced.alert }
  | unforced count hstatus => exact sequenced_next { hsequenced with }

theorem sequenced_finish (h : move.1.course.Sequenced) : (finish move).1.course.Sequenced := by
  rw [course_finish]
  exact h

theorem sequenced_react (h : coordinator.course.Sequenced)
    (hreact : coordinator.react occasion = some move) : move.1.course.Sequenced := by
  cases reacted_of_react hreact with
  | committed hparent =>
      refine sequenced_finish (sequenced_next { h with chain := ?_, forked := ?_ })
      · obtain ⟨base, hchain⟩ := h.chain
        exact ⟨base, hchain.append hparent⟩
      · intro hash hforked
        have hfirst := h.forked hash hforked
        obtain ⟨queued, hqueued, rfl⟩ := Option.map_eq_some_iff.mp hfirst
        simp only [course, Branch.queueCommit, List.head?_append]
        rw [show coordinator.branch.commits.head? = some queued from hqueued]
        rfl
  | known hknown => exact h
  | announced hunknown => exact sequenced_finish (sequenced_next { h with })
  | connected => exact sequenced_finish (sequenced_next { h with alert := by rintro ⟨⟩ })
  | reconnected => exact sequenced_finish (sequenced_next { h with alert := by rintro ⟨⟩ })
  | disconnected hstate => exact sequenced_finish { h with alert := fun _ => rfl }
  | @resolved resolution hforked hphase =>
      apply sequenced_finish
      cases resolution with
      | abandon => exact sequenced_leave h hphase hforked .canceled
      | fork name => exact sequenced_storeNext h hphase hforked _ 0
      | forcePush => exact sequenced_storeNext h hphase hforked _ 0
  | unfailed hhalt => exact h
  | refreshed hhalt hphase hcommits =>
      exact sequenced_finish (sequenced_refreshHead
        { h with forked := by rintro _ ⟨⟩, suits := Phase.suits_of_idle hphase none } rfl)
  | resumed hhalt =>
      have hsuits : coordinator.phase.suits (some .failed) := hhalt ▸ h.suits
      exact sequenced_finish
        (sequenced_next { h with forked := by rintro _ ⟨⟩, suits := Phase.suits_none hsuits })
  | queued number =>
      rw [course_queueWorker]
      exact h

/-! ## The front of a queue -/

theorem Awaits.first_of_pushing {request : Option Request} (h : Awaits course request)
    (hphase : course.phase = .pushing hash) : course.commits.head?.map (·.hash) = some hash := by
  obtain ⟨asking, hasks, hcourse⟩ := h
  obtain ⟨more, hmore⟩ := hcourse.commits
  rw [hcourse.phase] at hphase
  cases hasks with
  | push hpushing hcommits =>
      rw [← hmore, hcommits, Phase.pushing.inj (hphase.symm.trans hpushing)]
      rfl
  | _ => simp_all

theorem Awaits.first_of_loading {request : Option Request} (h : Awaits course request)
    (hphase : course.phase = .pulling .update hash) :
    course.updates.head?.map (·.hash) = some hash := by
  obtain ⟨asking, hasks, hcourse⟩ := h
  obtain ⟨more, hmore⟩ := hcourse.updates
  rw [hcourse.phase] at hphase
  cases hasks with
  | update hloading hupdates =>
      rw [← hmore, hupdates, (Phase.pulling.inj (hphase.symm.trans hloading)).2]
      rfl
  | _ => simp_all

theorem Awaits.queued_of_finding {request : Option Request} (h : Awaits course request)
    (hphase : course.phase = .findingAncestor head) : course.commits ≠ [] := by
  obtain ⟨asking, hasks, hcourse⟩ := h
  obtain ⟨more, hmore⟩ := hcourse.commits
  rw [hcourse.phase] at hphase
  cases hasks with
  | findAncestor hfinding hcommits =>
      rw [← hmore, hcommits]
      exact List.cons_ne_nil _ _
  | _ => simp_all

/-- How the queues, the phase and the reason to stop fit together. -/
structure Ordered (coordinator : Coordinator) : Prop where
  /-- Each queued commit was made on the one before it. -/
  chain : coordinator.branch.commits.IsChain fun earlier later =>
    later.commit.parent? = some earlier.hash
  last : ∀ data, coordinator.branch.commits.getLast? = some data →
    data.hash = coordinator.branch.localHead
  pushing : ∀ hash, coordinator.phase = .pushing hash →
    coordinator.branch.commits.head?.map (·.hash) = some hash
  loading : ∀ hash, coordinator.phase = .pulling .update hash →
    coordinator.branch.updates.head?.map (·.hash) = some hash
  finding : ∀ head, coordinator.phase = .findingAncestor head → coordinator.branch.commits ≠ []
  resolving : ∀ resolution stored, coordinator.phase = .resolving resolution stored →
    (∃ hash, coordinator.halt = some (.forked hash)) ∧
      stored ≤ coordinator.branch.commits.length
  forked : ∀ hash, coordinator.halt = some (.forked hash) →
    coordinator.branch.commits.head?.map (·.hash) = some hash

theorem Chain.isChain {base : CommitHash} (h : Chain base commits head) :
    commits.IsChain fun earlier later => later.commit.parent? = some earlier.hash := by
  induction commits generalizing base with
  | nil => exact .nil
  | cons data rest ih =>
      refine List.isChain_cons.mpr ⟨fun later hlater => ?_, ih h.2⟩
      cases rest with
      | nil => cases hlater
      | cons first more =>
          obtain rfl : first = later := Option.some.inj hlater
          exact h.2.1

theorem Chain.getLast? {base : CommitHash} (h : Chain base commits head)
    (hlast : commits.getLast? = some data) : data.hash = head := by
  induction commits generalizing base with
  | nil => cases hlast
  | cons first rest ih =>
      cases rest with
      | nil =>
          obtain rfl : first = data := Option.some.inj hlast
          exact h.2.symm
      | cons second more => exact ih h.2 (List.getLast?_cons_cons ▸ hlast)

end Coordinator

/-! ## Dialogues -/

namespace Dialogue

/-- What is noted at the inputs of a run, in order. -/
def record {Note : Type} (note? : Dialogue → Input → Option Note) (dialogue : Dialogue) :
    List Input → List Note
  | [] => []
  | input :: rest => (note? dialogue input).toList ++ (dialogue.step input).record note? rest

/-- What an input makes the coordinator ask for. -/
def request? (dialogue : Dialogue) (input : Input) : Option Request :=
  (dialogue.move? input).bind (·.2)

/-- What is asked for in a run, in order. -/
def requests (dialogue : Dialogue) (inputs : List Input) : List Request :=
  dialogue.record request? inputs

/-- The commit that an input makes. -/
def Input.made? : Input → Option CommitData
  | .told occasion => occasion.made?
  | .answer _ => none

/-- The commit that an input makes, if the coordinator queues it. -/
def accepted? (dialogue : Dialogue) (input : Input) : Option CommitData :=
  (dialogue.move? input).bind fun _ => input.made?

/-- The commits that are accepted in a run, in order. -/
def accepted (dialogue : Dialogue) (inputs : List Input) : List CommitData :=
  dialogue.record accepted? inputs

/-- How many of the commits that are accepted in a run have left the queue. -/
def departed (dialogue : Dialogue) (inputs : List Input) : Nat :=
  (dialogue.accepted inputs).length - (dialogue.run inputs).queue.length

variable {dialogue : Dialogue} {input : Input} {inputs : List Input}
  {move : Coordinator.Move} {response : Response} {request : Request} {data : CommitData}

theorem run_append (dialogue : Dialogue) (inputs more : List Input) :
    dialogue.run (inputs ++ more) = (dialogue.run inputs).run more :=
  List.foldl_append ..

theorem step_run (dialogue : Dialogue) (inputs : List Input) (input : Input) :
    (dialogue.run inputs).step input = dialogue.run (inputs ++ [input]) :=
  (run_append dialogue inputs [input]).symm

theorem record_append {Note : Type} (note? : Dialogue → Input → Option Note) (dialogue : Dialogue)
    (inputs more : List Input) :
    dialogue.record note? (inputs ++ more) =
      dialogue.record note? inputs ++ (dialogue.run inputs).record note? more := by
  induction inputs generalizing dialogue with
  | nil => rfl
  | cons input rest ih =>
      rw [List.cons_append, record, ih, record, List.append_assoc]
      rfl

theorem accepted_append (dialogue : Dialogue) (inputs more : List Input) :
    dialogue.accepted (inputs ++ more) =
      dialogue.accepted inputs ++ (dialogue.run inputs).accepted more :=
  record_append ..

/-! ## Sequences in a run -/

theorem Attentive.sequenced_step (hattentive : dialogue.Attentive)
    (h : dialogue.coordinator.course.Sequenced) (input : Input) :
    (dialogue.step input).coordinator.course.Sequenced := by
  cases hmove : dialogue.move? input with
  | none => exact (step_of_none hmove).symm ▸ h
  | some move =>
      rw [step_of_some hmove]
      cases input with
      | told occasion => exact sequenced_react h hmove
      | answer response =>
          obtain ⟨request, handled, -, -, hawaits, hhandled, rfl⟩ := hattentive.handled hmove
          refine sequenced_finish (hhandled.sequenced rfl { h with suits := rfl } h.suits ?_)
          exact fun hash hphase => hawaits.first_of_pushing hphase

theorem Attentive.sequenced_run (hattentive : dialogue.Attentive)
    (h : dialogue.coordinator.course.Sequenced) (inputs : List Input) :
    (dialogue.run inputs).coordinator.course.Sequenced :=
  run_keeps (·.coordinator.course.Sequenced)
    (fun _ input hbefore hkept => hbefore.sequenced_step hkept input) hattentive h inputs

/-- In every state the queues, the phase and the reason to stop fit together. -/
theorem Attentive.ordered (hattentive : dialogue.Attentive)
    (h : dialogue.coordinator.course.Sequenced) (hvouched : dialogue.Vouched) :
    Ordered dialogue.coordinator := by
  obtain ⟨base, hchain⟩ := h.chain
  obtain ⟨awaited, -, hawaits⟩ := hattentive
  exact
    { chain := hchain.isChain
      last := fun data hlast => hchain.getLast? hlast
      pushing := fun hash hphase => hawaits.first_of_pushing hphase
      loading := fun hash hphase => hawaits.first_of_loading hphase
      finding := fun head hphase => hawaits.queued_of_finding hphase
      resolving := fun resolution stored hphase => by
        have hsuits := h.suits
        rw [show dialogue.coordinator.course.phase = _ from hphase] at hsuits
        exact ⟨halt_of_isForked (isForked_of_suits hsuits), (hvouched resolution stored hphase).1⟩
      forked := h.forked }

/-! ## First in, first out -/

/-- An input queues at most the commit that it makes, last, and takes others from the front. -/
theorem Attentive.queue_step_suffix (h : dialogue.Attentive) (input : Input) :
    (dialogue.step input).queue <:+ dialogue.queue ++ (dialogue.accepted? input).toList := by
  cases hmove : dialogue.move? input with
  | none =>
      rw [step_of_none hmove, accepted?, hmove]
      exact (List.append_nil dialogue.queue).symm ▸ List.suffix_rfl
  | some move =>
      rw [step_of_some hmove, accepted?, hmove]
      cases input with
      | told occasion => exact commits_react_suffix hmove
      | answer response =>
          obtain ⟨request, handled, -, -, -, hhandled, rfl⟩ := h.handled hmove
          rw [queue, take, commits_finish]
          exact (List.append_nil dialogue.queue).symm ▸ hhandled.commits_suffix

theorem Attentive.queue_run_suffix (h : dialogue.Attentive) (inputs : List Input) :
    (dialogue.run inputs).queue <:+ dialogue.queue ++ dialogue.accepted inputs := by
  induction inputs generalizing dialogue with
  | nil => exact (List.append_nil dialogue.queue).symm ▸ List.suffix_rfl
  | cons input rest ih =>
      have hstep := h.queue_step_suffix input
      have hrest := ih (h.step input)
      rw [accepted, record, ← List.append_assoc]
      exact hrest.trans ((List.suffix_append_self_iff ..).mpr hstep)

/-- What is queued is the end of what was accepted. -/
theorem queue_eq_drop (project : ProjectId) (branch : BranchName) (head : CommitHash)
    (inputs : List Input) :
    let dialogue := start project branch head
    (dialogue.run inputs).queue =
      (dialogue.accepted inputs).drop (dialogue.departed inputs) :=
  List.suffix_iff_eq_drop.mp ((attentive_start project branch head).queue_run_suffix inputs)

/-- What has left the queue stays out of it. -/
theorem Attentive.departed_mono (h : dialogue.Attentive) (inputs more : List Input) :
    dialogue.departed inputs ≤ dialogue.departed (inputs ++ more) := by
  have hsuffix := ((h.run inputs).queue_run_suffix more).length_le
  rw [List.length_append] at hsuffix
  simp only [departed, accepted_append, run_append, List.length_append]
  omega

/-- A push that is asked for is for the first queued commit. -/
theorem Attentive.first_of_push (h : dialogue.Attentive)
    (hrequest : dialogue.request? input = some (.push data)) :
    (dialogue.step input).queue.head? = some data := by
  obtain ⟨move, hmove, hpush⟩ := Option.bind_eq_some_iff.mp hrequest
  obtain ⟨-, rest, hcommits⟩ := (h.asks hmove hpush).awaits.push
  have hqueue : (dialogue.step input).queue = data :: rest := by
    rw [step_of_some hmove]
    exact hcommits
  rw [hqueue, List.head?_cons]

/-- The queues, the phase and the reason to stop fit together in every state.  The queue is what
was accepted without the commits that have left it, which stay out of it; and a push is for the
first commit that has not left it, so commits are pushed in the order in which they were
accepted. -/
theorem run_pushes_in_order (project : ProjectId) (branch : BranchName) (head : CommitHash)
    (inputs : List Input) :
    let dialogue := start project branch head
    let reached := dialogue.run inputs
    Ordered reached.coordinator ∧
      reached.queue = (dialogue.accepted inputs).drop (dialogue.departed inputs) ∧
      (∀ more, dialogue.departed inputs ≤ dialogue.departed (inputs ++ more)) ∧
      ∀ input data, reached.request? input = some (.push data) →
        (dialogue.accepted (inputs ++ [input]))[dialogue.departed (inputs ++ [input])]? =
          some data := by
  intro dialogue reached
  have hattentive : dialogue.Attentive := attentive_start project branch head
  have hsequenced : reached.coordinator.course.Sequenced :=
    hattentive.sequenced_run (sequenced_start project branch head) inputs
  have hvouched : reached.Vouched :=
    (vouched_start project branch head).run hattentive inputs
  refine ⟨(hattentive.run inputs).ordered hsequenced hvouched,
    queue_eq_drop project branch head inputs, hattentive.departed_mono inputs, ?_⟩
  intro input data hrequest
  have hqueue : (reached.step input).queue =
      (dialogue.accepted (inputs ++ [input])).drop (dialogue.departed (inputs ++ [input])) := by
    rw [step_run]
    exact queue_eq_drop project branch head (inputs ++ [input])
  have hfirst := (hattentive.run inputs).first_of_push hrequest
  rw [hqueue, List.head?_drop] at hfirst
  exact hfirst

end Dialogue

end Coauthor
