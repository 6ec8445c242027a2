import Coauthor.Proofs.Branch.Settlement
import Mathlib

/-!
# The end of a fork resolution

A resolution stores the queued commits one after the other, and then makes its last request: a
new branch at the local head, or the local head for the branch.  Commits that are made before
this request are stored like the others.  Once the request is confirmed, the whole queue is
settled and the local head is announced, both as they are by then.  So a commit that was made
while the last request was under way is settled although it was never sent, and the head that
is announced is not the one that the server confirmed.
-/

namespace Coauthor

open Coordinator

namespace Dialogue

def queue (dialogue : Dialogue) : List CommitData := dialogue.coordinator.branch.commits

/-- The commit was sent to be stored, and the answer was that it is. -/
def WasStored (dialogue : Dialogue) (data : CommitData) : Prop :=
  ∃ result, (.store data.withoutBranch, .stored (.ok result)) ∈ dialogue.answered

/-- The last request of a resolution, the head that it names, and an answer that confirms it. -/
inductive Completes : Request → CommitHash → Response → Prop where
  | fork (name : BranchName) (hash : CommitHash) :
      Completes (.createBranch name hash) hash (.branchCreated (.ok ()))
  | forcePush (hash : CommitHash) {result : CommitResponse}
      (hstatus : result.status? = some .synced) :
      Completes (.setHead none hash) hash (.headSet (.ok result))

/-- How the queue is settled when the last request is confirmed. -/
def fate : Request → CommitStatus
  | .createBranch .. => .forked
  | _ => .synced

/-- The head that is announced for the new branch, or taken for the head of the server. -/
def Announces (request : Request) (hash : CommitHash) (before after : Dialogue) : Prop :=
  match request with
  | .createBranch name _ => ∀ created head,
      .forkCreated created head ∈ before.coordinator.news after.coordinator ↔
        created = name ∧ head = hash
  | _ => after.coordinator.branch.originHead = hash

/-- No work is lost when the last request is confirmed: the head is the one that it named, only
what was stored leaves the queue, and what was made since it was issued stays queued. -/
structure KeepsWork (request : Request) (hash : CommitHash) (issued finished completed : Dialogue) :
    Prop where
  announces : Announces request hash finished completed
  stored : ∀ data ∈ finished.queue, data ∉ completed.queue → completed.WasStored data
  queued : ∀ data ∈ finished.queue.drop issued.queue.length,
    data ∈ completed.queue ∧ ∀ status,
      .settled data.hash status ∉ finished.coordinator.news completed.coordinator

variable {dialogue finished : Dialogue} {input : Input} {move : Coordinator.Move}
  {request : Request} {response : Response} {hash : CommitHash} {data : CommitData}

/-! ## What has been stored -/

/-- The commits that count as stored were sent to be stored. -/
def Vouched (dialogue : Dialogue) : Prop :=
  ∀ resolution count, dialogue.coordinator.phase = .resolving resolution count →
    count ≤ dialogue.queue.length ∧ ∀ data ∈ dialogue.queue.take count, dialogue.WasStored data

theorem WasStored.close (h : dialogue.WasStored data) (input : Input) :
    (dialogue.close input).WasStored data := by
  obtain ⟨result, hmem⟩ := h
  cases input with
  | told occasion => exact ⟨result, hmem⟩
  | answer response => exact ⟨result, List.mem_append_right _ hmem⟩

/-- One commit more counts as stored once the answer to its request is taken. -/
theorem Vouched.answer (h : dialogue.Vouched) (hunanswered : dialogue.unanswered = [request])
    (hanswers : response.answers request)
    (hawaits : Awaits dialogue.coordinator.course (some request)) :
    ((dialogue.close (.answer response)).take (dialogue.coordinator.handle response)).Vouched := by
  obtain ⟨move, hhandled, hhandle⟩ := hawaits.exists_handled hanswers
  rw [hhandle]
  intro resolution count hresolving
  have hphase : move.1.phase = .resolving resolution count :=
    (phase_finish move).symm.trans hresolving
  have hled := (hhandled.isOrdinary_or_led rfl).resolve_left (by simp [hphase, Phase.isOrdinary])
  generalize hbefore : dialogue.coordinator.phase = before at hled
  generalize hafter : move.1 = after at hled
  rw [hafter] at hphase
  cases hled with
  | finding => cases hphase
  | @resolving began stored result =>
      obtain ⟨rfl, rfl⟩ := Phase.resolving.inj hphase
      cases request with
      | store sent =>
          obtain ⟨_, position, queued, hwaiting, hqueued, rfl⟩ := hawaits.store
          obtain ⟨-, hposition⟩ := Phase.resolving.inj (hwaiting.symm.trans hbefore)
          subst hposition
          obtain ⟨hcount, hstored⟩ := h _ _ hbefore
          have hlength : position < dialogue.queue.length :=
            (List.getElem?_eq_some_iff.mp hqueued).1
          have hqueue : ((dialogue.close (.answer (.stored (.ok result)))).take
              (finish move)).queue = dialogue.queue := by
            rw [queue, take, commits_finish, hafter]
            rfl
          rw [hqueue, List.take_add_one]
          refine ⟨hlength, fun data hmem => ?_⟩
          rcases List.mem_append.mp hmem with hmem | hmem
          · exact (hstored data hmem).close _
          · obtain rfl : queued = data :=
              Option.some.inj (hqueued.symm.trans (Option.mem_toList.mp hmem))
            refine ⟨result, List.mem_append_left _ ?_⟩
            simp [hunanswered]
      | _ => cases hanswers

/-- Nothing counts as stored unless it was before or has just been. -/
theorem Vouched.step (hattentive : dialogue.Attentive) (h : dialogue.Vouched) (input : Input) :
    (dialogue.step input).Vouched := by
  cases hmove : dialogue.move? input with
  | none => exact (step_of_none hmove).symm ▸ h
  | some move =>
      rw [step_of_some hmove]
      cases input with
      | told occasion =>
          intro resolution count hresolving
          have hphase : move.1.phase = .resolving resolution count := hresolving
          by_cases hidle : dialogue.coordinator.phase = .idle
          · rcases isOrdinary_or_react hidle hmove with hordinary | ⟨begun, -, hbegun⟩
            · rw [hphase] at hordinary
              cases hordinary
            · obtain ⟨rfl, rfl⟩ := Phase.resolving.inj (hphase.symm.trans hbegun)
              exact ⟨Nat.zero_le _, fun _ hmem => nomatch hmem⟩
          · obtain ⟨-, hextends⟩ := react_of_busy hidle hmove
            obtain ⟨more, hmore⟩ := hextends.commits
            have hbefore : dialogue.coordinator.phase = .resolving resolution count :=
              hextends.phase.symm.trans hphase
            obtain ⟨hcount, hstored⟩ := h resolution count hbefore
            have hqueue : ((dialogue.close (.told occasion)).take move).queue =
              dialogue.queue ++ more := hmore.symm
            rw [hqueue, List.take_append_of_le_length hcount]
            exact ⟨hcount.trans (by simp), fun data hmem => (hstored data hmem).close _⟩
      | answer response =>
          obtain ⟨asked, hunanswered, hanswers, hawaits, rfl⟩ := hattentive.answer hmove
          exact h.answer hunanswered hanswers hawaits

theorem Vouched.run (hattentive : dialogue.Attentive) (h : dialogue.Vouched)
    (inputs : List Input) : (dialogue.run inputs).Vouched := by
  induction inputs generalizing dialogue with
  | nil => exact h
  | cons input rest ih => exact ih (hattentive.step input) (h.step hattentive input)

/-! ## The last request -/

theorem Completes.answers (h : Completes request hash response) : response.answers request := by
  cases h <;> rfl

theorem Completes.exists_resolving {course : Course} (h : Completes request hash response)
    (hasks : Asks course (some request)) :
    course.localHead = hash ∧
      ∃ resolution count, course.phase = .resolving resolution count ∧
        course.commits.length ≤ count := by
  cases h with
  | fork name =>
      cases hasks with
      | createBranch hphase hstored => exact ⟨rfl, _, _, hphase, hstored⟩
  | forcePush =>
      cases hasks with
      | setHead hphase hstored => exact ⟨rfl, _, _, hphase, hstored⟩

/-- When the last request is issued, the head that it names is the local head, and all that is
queued has been stored. -/
theorem Vouched.issued (h : dialogue.Vouched) (hcompletes : Completes request hash response)
    (hasks : Asks dialogue.coordinator.course (some request)) :
    dialogue.coordinator.branch.localHead = hash ∧ ∀ data ∈ dialogue.queue,
      dialogue.WasStored data := by
  obtain ⟨hlocal, resolution, count, hphase, hlength⟩ := hcompletes.exists_resolving hasks
  refine ⟨hlocal, fun data hmem => ?_⟩
  obtain ⟨-, hstored⟩ := h resolution count hphase
  have hall : dialogue.queue.take count = dialogue.queue := List.take_of_length_le hlength
  rw [hall] at hstored
  exact hstored data hmem

/-! ## The confirmation -/

/-- What is settled when a queue is drained: what was not settled by the fork. -/
theorem mem_unsettled {coordinator : Coordinator} (hmem : data ∈ coordinator.branch.commits)
    (hfork : coordinator.halt ≠ some (.forked data.hash)) :
    data.hash ∈ coordinator.unsettled := by
  have hhash : data.hash ∈ coordinator.branch.commits.map (·.hash) := List.mem_map_of_mem hmem
  unfold unsettled
  split
  · rename_i forked hhalt
    refine List.mem_filter.mpr ⟨hhash, decide_eq_true fun hsame => ?_⟩
    exact hfork (hhalt.trans (by rw [hsame]))
  · exact hhash

/-- How the confirmation of the last request leaves the coordinator. -/
structure Resolved (request : Request) (finished completed : Dialogue) : Prop where
  emptied : completed.queue = []
  announced : Announces request finished.coordinator.branch.localHead finished completed
  settled : ∀ data ∈ finished.queue, finished.coordinator.halt ≠ some (.forked data.hash) →
    .settled data.hash (fate request) ∈ finished.coordinator.news completed.coordinator
  answered : finished.answered ⊆ completed.answered

/-- The confirmation is taken for the local head and the queue as they are by then. -/
theorem Completes.resolved (h : Completes request hash response)
    (hunanswered : finished.unanswered = [request])
    (hawaits : Awaits finished.coordinator.course (some request)) :
    Resolved request finished (finished.step (.answer response)) := by
  have hmove := move?_of_answer hunanswered h.answers
  rw [step_of_some hmove]
  let completed := (finished.close (.answer response)).take (finished.coordinator.handle response)
  have hanswered : finished.answered ⊆ completed.answered := List.subset_append_right _ _
  cases h with
  | fork name =>
      obtain ⟨count, hphase⟩ := hawaits.createBranch
      let move := finished.coordinator.rested.onBranchCreated name
      have hhandle : completed.coordinator = (finish move).1 := by
        have hwaiting : finished.coordinator.phase = .resolving (.fork name) count := hphase
        simp only [completed, take, handle, hwaiting, answer?]
        rfl
      have hadded : move.1.events = finished.coordinator.events ++
          ([.forkCreated name finished.coordinator.branch.localHead] ++
            finished.coordinator.unsettled.map (.settled · .forked)) := by
        rw [← List.append_assoc]
        exact events_onBranchCreated _ name
      refine ⟨?_, fun created head => ?_, fun data hmem hfork => ?_, hanswered⟩
      · rw [queue, hhandle, commits_finish]
        exact congrArg Branch.commits (branch_refreshHead _)
      · rw [hhandle, mem_news_finish hadded rfl]
        simp
      · rw [hhandle, mem_news_finish hadded rfl]
        exact List.mem_append_right _ (mem_map_settled.mpr ⟨mem_unsettled hmem hfork, rfl⟩)
  | forcePush hash hstatus =>
      obtain ⟨-, count, hphase⟩ := hawaits.setHead
      let move := finished.coordinator.rested.takeForced.next
      have hhandle : completed.coordinator = (finish move).1 := by
        have hwaiting : finished.coordinator.phase = .resolving .forcePush count := hphase
        simp only [completed, take, handle, hwaiting, answer?, onHeadSet, hstatus]
        rfl
      have hadded : move.1.events = finished.coordinator.events ++
          finished.coordinator.unsettled.map (.settled · .synced) :=
        events_next _
      refine ⟨?_, ?_, fun data hmem hfork => ?_, hanswered⟩
      · rw [queue, hhandle, commits_finish, commits_next]
        rfl
      · have horigin : completed.coordinator.branch.originHead = move.1.branch.originHead := by
          rw [hhandle]
          exact congrArg Course.originHead (course_finish move)
        exact horigin.trans (originHead_next _)
      · rw [hhandle, mem_news_finish hadded rfl]
        exact mem_map_settled.mpr ⟨mem_unsettled hmem hfork, rfl⟩

/-! ## Runs -/

theorem vouched_start (project : ProjectId) (branch : BranchName) (head : CommitHash) :
    (start project branch head).Vouched :=
  fun _ _ hresolving => nomatch hresolving

theorem WasStored.mono {later : Dialogue} (h : dialogue.WasStored data)
    (hanswered : dialogue.answered ⊆ later.answered) : later.WasStored data := by
  obtain ⟨result, hmem⟩ := h
  exact ⟨result, hanswered hmem⟩

/-- At the end of a resolution the queue is emptied and settled, and the local head is
announced, as they are when the last request is confirmed.  No work is lost exactly if no commit
was made since that request was issued. -/
theorem run_resolution_keeps_work_iff (project : ProjectId) (branch : BranchName)
    (head : CommitHash) (inputs : List Input) (issuing : Input) (between : List Input)
    (hissued : (((start project branch head).run inputs).move? issuing).bind (·.2) = some request)
    (hbetween : ∀ input ∈ between, ∃ occasion, input = .told occasion)
    (hcompletes : Completes request hash response) :
    let issued := (start project branch head).run (inputs ++ [issuing])
    let finished := issued.run between
    let completed := finished.step (.answer response)
    issued.coordinator.branch.localHead = hash ∧ (∀ data ∈ issued.queue, issued.WasStored data) ∧
      Resolved request finished completed ∧
      (KeepsWork request hash issued finished completed ↔ finished.queue = issued.queue) := by
  intro issued finished completed
  let before := (start project branch head).run inputs
  have hattentive : before.Attentive := (attentive_start project branch head).run inputs
  have hvouched : before.Vouched :=
    (vouched_start project branch head).run (attentive_start project branch head) inputs
  obtain ⟨move, hmove, hrequest⟩ := Option.bind_eq_some_iff.mp hissued
  have hasks : Asks move.1.course (some request) := hattentive.asks hmove hrequest
  have hissuing : issued = before.step issuing := List.foldl_append ..
  have hissued_vouched : issued.Vouched := hissuing ▸ hvouched.step hattentive issuing
  have hissued_attentive : issued.Attentive := hissuing ▸ hattentive.step issuing
  have htaken : issued = (before.close issuing).take move := hissuing.trans (step_of_some hmove)
  have hissued_asks : Asks issued.coordinator.course (some request) := htaken ▸ hasks
  obtain ⟨hlocal, hstored⟩ := hissued_vouched.issued hcompletes hissued_asks
  have hunanswered : issued.unanswered = [request] := by
    obtain ⟨awaited, hawaited, -⟩ := hissued_attentive
    have hfirst : issued.unanswered.head? = some request := by
      rw [htaken]
      simp [take, hrequest]
    cases awaited with
    | none => simp [hawaited] at hfirst
    | some other => simpa [hawaited] using hfirst
  have hbusy : issued.coordinator.phase ≠ .idle := by
    intro hidle
    cases hissued_asks.awaits.idle_iff.mp hidle
  obtain ⟨hextends, hstill, hanswered⟩ := run_told hbetween hbusy
  have hresolved : Resolved request finished completed :=
    hcompletes.resolved (hstill.trans hunanswered) (hissued_asks.awaits.extend hextends)
  refine ⟨hlocal, hstored, hresolved, fun hkeeps => ?_, fun hsame => ?_⟩
  · obtain ⟨late, hlate⟩ := hextends.commits
    have hqueue : issued.queue ++ late = finished.queue := hlate
    cases late with
    | nil => rw [← hqueue, List.append_nil]
    | cons data rest =>
        -- The first late commit has left the queue with the others.
        have hmem : data ∈ finished.queue.drop issued.queue.length := by
          rw [← hqueue, List.drop_left]
          exact List.mem_cons_self
        have hqueued := (hkeeps.queued data hmem).1
        rw [hresolved.emptied] at hqueued
        cases hqueued
  · have hhead : finished.coordinator.branch.localHead = hash :=
      (hextends.localHead hsame).trans hlocal
    refine ⟨hhead ▸ hresolved.announced, fun data hmem _ => ?_, fun data hmem => ?_⟩
    · have hkept : issued.answered ⊆ completed.answered := hanswered ▸ hresolved.answered
      exact (hstored data (hsame ▸ hmem)).mono hkept
    · rw [hsame, List.drop_length] at hmem
      cases hmem

/-- A commit of the branch `b`, made on another. -/
def commitOn (id parent : CommitHash) : CommitData :=
  { projectId := "p", branchName := some "b", coreObjects := ∅, oldHash := none
    commit := { id, root := "", parents := [parent], updater := [], time := 0, message := ""
                branchName := none } }

/-- The push of a commit is answered with a fork, and the commit is to be kept on `side`. -/
def forking : List Input :=
  [.told (.commit (commitOn "#1" "#0")), .answer (.pushed (.ok (.of .forked "#1"))),
    .told (.resolve (.fork "side"))]

/-- The answer that the commit is stored. -/
def kept : Input := .answer (.stored (.ok (.of .synced "#1")))

/-- The new branch has been asked for, at the commit that is stored. -/
def sideAsked : Dialogue := (start "p" "b" "#0").run (forking ++ [kept])

/-- Another commit has been made meanwhile. -/
def sideAwaited : Dialogue := sideAsked.run [.told (.commit (commitOn "#2" "#1"))]

/-- The other commit is settled with the first, and the new branch is announced at it. -/
theorem run_resolution_keeps_work_iff_late :
    let completed := sideAwaited.step (.answer (.branchCreated (.ok ())))
    completed.queue = [] ∧
      .settled "#2" .forked ∈ sideAwaited.coordinator.news completed.coordinator ∧
      (.forkCreated "side" "#2" ∈ sideAwaited.coordinator.news completed.coordinator) ∧
      ¬ KeepsWork (.createBranch "side" "#1") "#1" sideAsked sideAwaited completed := by
  have hissued : (((start "p" "b" "#0").run forking).move? kept).bind (·.2) =
      some (.createBranch "side" "#1") := by
    cbv
  have hqueued : sideAwaited.queue.map (·.hash) = ["#1", "#2"] := by
    cbv
  have hasked : sideAsked.queue.map (·.hash) = ["#1"] := by
    cbv
  have hhead : sideAwaited.coordinator.branch.localHead = "#2" := by
    cbv
  have hfork : sideAwaited.coordinator.halt = some (.forked "#1") := by
    cbv
  have hlate : "#2" ∈ sideAwaited.queue.map (·.hash) := by
    simp [hqueued]
  obtain ⟨data, hmem, hhash⟩ := List.mem_map.mp hlate
  obtain ⟨-, -, hresolved, hkeeps⟩ := run_resolution_keeps_work_iff "p" "b" "#0" forking kept
    [.told (.commit (commitOn "#2" "#1"))] hissued (by simp) (.fork "side" "#1")
  refine ⟨hresolved.emptied, ?_, ?_, fun hkept => ?_⟩
  · exact hhash ▸ hresolved.settled data hmem (by rw [hhash]; exact hfork ▸ by simp)
  · exact (hresolved.announced _ _).mpr ⟨rfl, hhead.symm⟩
  · have hsame : sideAwaited.queue = sideAsked.queue := hkeeps.mp hkept
    rw [hsame, hasked] at hqueued
    simp at hqueued

end Dialogue

end Coauthor
