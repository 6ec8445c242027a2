import Coauthor.Proofs.Branch.Echo

/-!
# Heads that move while one is fetched

A coordinator that rejoins fetches the head of the server.  The head may move on before the answer
is handled, and its announcement may be handled first: then it waits as an update until the answer
comes.  With no commit queued the answer makes all waiting updates void, the newer ones too, and
what was announced only once is never loaded as an update.
-/

namespace Coauthor

open Coordinator

namespace Coordinator

variable {coordinator : Coordinator} {head : CommitHash}

theorem reconcile_of_nil (hcommits : coordinator.branch.commits = []) (head : CommitHash) :
    coordinator.reconcile head =
      if head = coordinator.branch.localHead then coordinator.forgetUpdates.next
      else coordinator.forgetUpdates.catchUp head
        (coordinator.branch.updates.find? (·.hash = head)) := by
  rw [reconcile, hcommits]
  rfl

/-- With nothing queued a fetched head makes every update void and moves neither head. -/
theorem handle_head_of_nil (hphase : coordinator.phase = .fetchingHead)
    (hcommits : coordinator.branch.commits = []) (head : CommitHash) :
    let later := (coordinator.handle (.head (.ok (some head)))).1.branch
    later.updates = [] ∧ later.localHead = coordinator.branch.localHead ∧
      later.originHead = coordinator.branch.originHead := by
  intro later
  have hcourse : (coordinator.handle (.head (.ok (some head)))).1.course =
      (coordinator.rested.reconcile head).1.course := by
    rw [handle_head hphase, course_finish]
    rfl
  suffices hmove : (coordinator.rested.reconcile head).1.branch.updates = [] ∧
      (coordinator.rested.reconcile head).1.branch.localHead = coordinator.branch.localHead ∧
      (coordinator.rested.reconcile head).1.branch.originHead = coordinator.branch.originHead from
    ⟨(congrArg Course.updates hcourse).trans hmove.1,
      (congrArg Course.localHead hcourse).trans hmove.2.1,
      (congrArg Course.originHead hcourse).trans hmove.2.2⟩
  have hempty : coordinator.rested.branch.commits = [] := hcommits
  rw [reconcile_of_nil hempty]
  split_ifs with hcurrent
  · obtain ⟨phase, updates, rejoinPending, hnext⟩ := exists_next_eq coordinator.rested.forgetUpdates
    refine ⟨List.subset_nil.mp (updates_next_subset _), ?_, ?_⟩
    · rw [hnext]
      rfl
    · rw [hnext]
      rfl
  · exact ⟨rfl, rfl, rfl⟩

end Coordinator

/-- An announced head, with the number of heads that the server had taken before it. -/
structure Announcement where
  place : Nat
  data : CommitData

/-- The head of the server at some moment, and the number of heads taken until then. -/
structure Reading where
  head : CommitHash
  taken : Nat

/-- A dialogue with a server whose head moves. -/
structure Pursuit where
  dialogue : Dialogue
  /-- The head of the server. -/
  head : CommitHash
  /-- How many heads the server has taken. -/
  taken : Nat
  /-- The announcements on the way, oldest first. -/
  stream : List Announcement
  /-- The announcements that the coordinator was told of, oldest first. -/
  heard : List Announcement
  /-- The answer on its way to a coordinator that fetches the head. -/
  fetched : Option Reading

namespace Pursuit

def start (project : ProjectId) (branch : BranchName) (head : CommitHash) : Pursuit :=
  { dialogue := .start project branch head, head, taken := 0, stream := [], heard := [],
    fetched := none }

inductive Input where
  /-- The server takes a head and announces it. -/
  | advance (data : CommitData)
  /-- The stream breaks off. -/
  | lose
  /-- The coordinator is told of the first announcement on the way. -/
  | hear
  /-- The server answers the coordinator that fetches the head. -/
  | fetch
  /-- The answer arrives. -/
  | answer
  /-- Whatever else the coordinator is told or answered. -/
  | other (input : Dialogue.Input)

def advance (pursuit : Pursuit) (data : CommitData) : Pursuit :=
  { pursuit with
    head := data.hash, taken := pursuit.taken + 1
    stream := pursuit.stream ++ [{ place := pursuit.taken, data }] }

def hear (pursuit : Pursuit) : Pursuit :=
  match pursuit.stream with
  | [] => pursuit
  | announcement :: rest =>
      { pursuit with
        dialogue := pursuit.dialogue.step (.told (.update announcement.data))
        stream := rest, heard := pursuit.heard ++ [announcement] }

def fetch (pursuit : Pursuit) : Pursuit :=
  match pursuit.dialogue.unanswered with
  | [.fetchHead] =>
      { pursuit with fetched := some { head := pursuit.head, taken := pursuit.taken } }
  | _ => pursuit

def answer (pursuit : Pursuit) : Pursuit :=
  match pursuit.fetched with
  | none => pursuit
  | some reading =>
      { pursuit with
        dialogue := pursuit.dialogue.step (.answer (.head (.ok (some reading.head))))
        fetched := none }

/-- Heads are announced by the server, and named in its answers, in no other way. -/
def pass (pursuit : Pursuit) : Dialogue.Input → Pursuit
  | .told (.update _) => pursuit
  | .told occasion => { pursuit with dialogue := pursuit.dialogue.step (.told occasion) }
  | .answer (.head (.ok (some _))) => pursuit
  | .answer response =>
      { pursuit with dialogue := pursuit.dialogue.step (.answer response), fetched := none }

def step (pursuit : Pursuit) : Input → Pursuit
  | .advance data => pursuit.advance data
  | .lose => { pursuit with stream := [] }
  | .hear => pursuit.hear
  | .fetch => pursuit.fetch
  | .answer => pursuit.answer
  | .other input => pursuit.pass input

def run (pursuit : Pursuit) (inputs : List Input) : Pursuit := inputs.foldl step pursuit

/-- What the coordinator holds of the branch. -/
def held (pursuit : Pursuit) : Branch := pursuit.dialogue.coordinator.branch

/-- The commit is a head, or waits to be loaded. -/
def Keeps (pursuit : Pursuit) (data : CommitData) : Prop :=
  pursuit.held.isHead data.hash ∨ data.hash ∈ pursuit.dialogue.updates.map (·.hash)

/-- The announcements of heads behind a reading that the coordinator was told of. -/
def newer (pursuit : Pursuit) (reading : Reading) : List Announcement :=
  pursuit.heard.filter (reading.taken ≤ ·.place)

/-- The places of announcements lie below the number of heads taken, and until an answer to a
fetch arrives with nothing queued, every newer head that was announced is kept. -/
structure Steady (pursuit : Pursuit) : Prop where
  attentive : pursuit.dialogue.Attentive
  placed : ∀ announcement ∈ pursuit.stream ++ pursuit.heard, announcement.place < pursuit.taken
  awaited : ∀ reading, pursuit.fetched = some reading →
    pursuit.dialogue.unanswered = [.fetchHead]
  kept : ∀ reading, pursuit.fetched = some reading → pursuit.held.commits = [] →
    ∀ announcement ∈ pursuit.newer reading, pursuit.Keeps announcement.data

variable {pursuit earlier later : Pursuit} {reading : Reading} {announcement : Announcement}
  {data : CommitData}

theorem steady_start (project : ProjectId) (branch : BranchName) (head : CommitHash) :
    (start project branch head).Steady where
  attentive := Dialogue.attentive_start project branch head
  placed := List.forall_mem_nil _
  awaited := nofun
  kept := nofun

/-- While nothing is queued, only updates are. -/
theorem Keeps.extend (h : earlier.Keeps data)
    (hextends : later.dialogue.coordinator.course.Extends earlier.dialogue.coordinator.course)
    (hcommits : later.held.commits = []) : later.Keeps data := by
  have hbefore : earlier.held.commits = [] := List.prefix_nil.mp (hcommits ▸ hextends.commits)
  have hlocal : later.held.localHead = earlier.held.localHead :=
    hextends.localHead (hcommits.trans hbefore.symm)
  have horigin : later.held.originHead = earlier.held.originHead := hextends.originHead
  refine h.imp (fun hhead => ?_) fun hwaits => List.map_subset _ hextends.updates.subset hwaits
  rw [Branch.isHead, hlocal, horigin]
  exact hhead

/-- With nothing queued an announced head is kept by whoever hears of it. -/
theorem keeps_of_told (hcommits : earlier.held.commits = [])
    (hdialogue : later.dialogue = earlier.dialogue.step (.told (.update data))) :
    later.Keeps data := by
  cases hknown : earlier.held.knows data.hash with
  | true =>
      have hsame : later.dialogue = earlier.dialogue :=
        hdialogue.trans (Dialogue.step_known hknown).2
      rw [Branch.knows, Branch.hasCommit, hcommits, List.any_nil, Bool.or_false, Bool.or_eq_true]
        at hknown
      rw [Keeps, held, hsame]
      refine hknown.imp_right fun hwaits => ?_
      simpa [Branch.hasUpdate, held, Dialogue.updates] using hwaits
  | false =>
      refine .inr (List.mem_map_of_mem ?_)
      rw [hdialogue]
      exact mem_updates_remoteUpdate hknown

/-- Whatever a coordinator is told while it fetches the head, it goes on waiting for it. -/
theorem Steady.told (h : pursuit.Steady) (hfetched : pursuit.fetched = some reading)
    (occasion : Occasion) :
    (pursuit.dialogue.step (.told occasion)).coordinator.course.Extends
        pursuit.dialogue.coordinator.course ∧
      (pursuit.dialogue.step (.told occasion)).unanswered = [.fetchHead] := by
  have hawaited := h.awaited reading hfetched
  have hphase := (h.attentive.awaits hawaited).fetchHead
  have hbusy : pursuit.dialogue.coordinator.phase ≠ .idle := by
    rw [show pursuit.dialogue.coordinator.phase = .fetchingHead from hphase]
    decide
  have htold : ∀ input ∈ [Dialogue.Input.told occasion], ∃ occasion, input = .told occasion :=
    List.forall_mem_singleton.mpr ⟨occasion, rfl⟩
  obtain ⟨hextends, hunanswered, -⟩ := Dialogue.run_told htold hbusy
  exact ⟨hextends, hunanswered.trans hawaited⟩

/-- The dialogue may go on while the head is fetched. -/
theorem Steady.extend (h : pursuit.Steady) (hfetched : pursuit.fetched = some reading)
    (occasion : Occasion)
    (hdialogue : later.dialogue = pursuit.dialogue.step (.told occasion))
    (hcommits : later.held.commits = []) :
    pursuit.held.commits = [] ∧ ∀ announcement ∈ pursuit.newer reading,
      later.Keeps announcement.data := by
  have hextends := (h.told hfetched occasion).1
  rw [← hdialogue] at hextends
  have hbefore : pursuit.held.commits = [] := List.prefix_nil.mp (hcommits ▸ hextends.commits)
  exact ⟨hbefore, fun announcement hmem =>
    (h.kept reading hfetched hbefore announcement hmem).extend hextends hcommits⟩

theorem Steady.advance (h : pursuit.Steady) (data : CommitData) :
    (pursuit.advance data).Steady where
  attentive := h.attentive
  placed := by
    intro announcement hmem
    simp only [Pursuit.advance, List.append_assoc, List.mem_append, List.mem_singleton] at hmem
    rcases hmem with hmem | rfl | hmem
    · exact Nat.lt_succ_of_lt (h.placed announcement (List.mem_append_left _ hmem))
    · exact Nat.lt_succ_self _
    · exact Nat.lt_succ_of_lt (h.placed announcement (List.mem_append_right _ hmem))
  awaited := h.awaited
  kept := h.kept

theorem Steady.lose (h : pursuit.Steady) : { pursuit with stream := [] }.Steady where
  attentive := h.attentive
  placed announcement hmem := h.placed announcement (List.mem_append_right _ hmem)
  awaited := h.awaited
  kept := h.kept

theorem Steady.hear (h : pursuit.Steady) : pursuit.hear.Steady := by
  unfold Pursuit.hear
  cases hstream : pursuit.stream with
  | nil => exact h
  | cons first rest =>
      refine ⟨h.attentive.step _, fun announcement hmem => ?_, fun reading hfetched => ?_,
        fun reading hfetched hcommits announcement hmem => ?_⟩
      · refine h.placed announcement ?_
        rw [hstream]
        simp only [List.mem_append, List.mem_cons, List.not_mem_nil, or_false] at hmem ⊢
        tauto
      · exact (h.told hfetched _).2
      · obtain ⟨hbefore, hkept⟩ := h.extend hfetched (.update first.data) rfl hcommits
        rw [newer, List.filter_append] at hmem
        rcases List.mem_append.mp hmem with hmem | hmem
        · exact hkept announcement hmem
        · obtain rfl := List.mem_singleton.mp (List.mem_of_mem_filter hmem)
          exact keeps_of_told hbefore rfl

theorem Steady.fetch (h : pursuit.Steady) : pursuit.fetch.Steady := by
  unfold Pursuit.fetch
  split
  · next hunanswered =>
      refine ⟨h.attentive, h.placed, fun _ _ => hunanswered,
        fun reading hfetched _ announcement hmem => ?_⟩
      -- Nothing that was taken later can have been announced yet.
      obtain rfl := Option.some.inj hfetched
      obtain ⟨hheard, hplace⟩ := List.mem_filter.mp hmem
      have hbelow := h.placed announcement (List.mem_append_right _ hheard)
      simp only [decide_eq_true_eq] at hplace
      omega
  · exact h

/-- Once an answer is given, nothing is fetched any more. -/
theorem Steady.settle (h : pursuit.Steady) (response : Response) :
    { pursuit with
      dialogue := pursuit.dialogue.step (.answer response), fetched := none }.Steady where
  attentive := h.attentive.step _
  placed := h.placed
  awaited := nofun
  kept := nofun

theorem Steady.answer (h : pursuit.Steady) : pursuit.answer.Steady := by
  unfold Pursuit.answer
  cases pursuit.fetched with
  | none => exact h
  | some reading => exact h.settle _

theorem Steady.tell (h : pursuit.Steady) (occasion : Occasion) :
    { pursuit with dialogue := pursuit.dialogue.step (.told occasion) }.Steady where
  attentive := h.attentive.step _
  placed := h.placed
  awaited _ hfetched := (h.told hfetched occasion).2
  kept _ hfetched hcommits := (h.extend hfetched occasion rfl hcommits).2

theorem Steady.pass (h : pursuit.Steady) (input : Dialogue.Input) :
    (pursuit.pass input).Steady := by
  unfold Pursuit.pass
  split
  · exact h
  · exact h.tell _
  · exact h
  · exact h.settle _

theorem Steady.step (h : pursuit.Steady) (input : Input) : (pursuit.step input).Steady := by
  cases input with
  | advance data => exact h.advance data
  | lose => exact h.lose
  | hear => exact h.hear
  | fetch => exact h.fetch
  | answer => exact h.answer
  | other input => exact h.pass input

theorem Steady.run (h : pursuit.Steady) (inputs : List Input) : (pursuit.run inputs).Steady := by
  induction inputs generalizing pursuit with
  | nil => exact h
  | cons input inputs ih => exact ih (h.step input)

/-- What becomes of the updates when the answer arrives. -/
theorem Steady.answered (h : pursuit.Steady) (hfetched : pursuit.fetched = some reading)
    (hcommits : pursuit.held.commits = []) :
    pursuit.answer.held.updates = [] ∧
      ∀ hash, pursuit.answer.held.isHead hash = pursuit.held.isHead hash := by
  have hawaited := h.awaited reading hfetched
  have hphase := (h.attentive.awaits hawaited).fetchHead
  obtain ⟨hupdates, hlocal, horigin⟩ := handle_head_of_nil hphase hcommits reading.head
  have hmove : pursuit.dialogue.move? (.answer (.head (.ok (some reading.head)))) =
      some (pursuit.dialogue.coordinator.handle (.head (.ok (some reading.head)))) := by
    rw [Dialogue.move?, hawaited]
    rfl
  have hheld : pursuit.answer.held =
      (pursuit.dialogue.coordinator.handle (.head (.ok (some reading.head)))).1.branch := by
    rw [held, Pursuit.answer, hfetched]
    simp only [Dialogue.step_of_some hmove]
    rfl
  rw [hheld]
  refine ⟨hupdates, fun hash => ?_⟩
  rw [Branch.isHead, hlocal, horigin]
  rfl

/-- Let the head of the server be fetched and no commit be queued.  Until the answer arrives, every
newer head that was announced is kept.  Behind the answer the newer heads are kept exactly if each
of them is a head already.  Any other is forgotten, and not loaded as an update unless it is
announced again. -/
theorem run_keeps_newer_iff (project : ProjectId) (branch : BranchName) (head : CommitHash)
    (inputs : List Input) {reading : Reading}
    (hfetched : ((start project branch head).run inputs).fetched = some reading)
    (hcommits : ((start project branch head).run inputs).held.commits = []) :
    let reached := (start project branch head).run inputs
    let answered := reached.answer
    (∀ announcement ∈ reached.newer reading, reached.Keeps announcement.data) ∧
    ((∀ announcement ∈ reached.newer reading, answered.Keeps announcement.data) ↔
      ∀ announcement ∈ reached.newer reading, reached.held.isHead announcement.data.hash) ∧
    ∀ announcement ∈ reached.newer reading,
      reached.held.isHead announcement.data.hash = false →
      ¬ answered.Keeps announcement.data ∧
        ∀ more, announcement.data.hash ∉ (Dialogue.announced more).map (·.hash) →
          ∀ data, .deliver announcement.data.hash data .update ∉
            answered.dialogue.requests more := by
  intro reached answered
  have h : reached.Steady := (steady_start project branch head).run inputs
  obtain ⟨hupdates, hheads⟩ := h.answered hfetched hcommits
  have hempty : answered.dialogue.updates = [] := hupdates
  have hkeeps (data : CommitData) : answered.Keeps data ↔ reached.held.isHead data.hash := by
    rw [Keeps, hheads, hempty]
    simp
  refine ⟨h.kept reading hfetched hcommits,
    forall₂_congr fun announcement hmem => hkeeps announcement.data,
    fun announcement hmem hother => ⟨fun hkept => ?_, fun more hquiet data hloaded => ?_⟩⟩
  · cases hother.symm.trans ((hkeeps _).mp hkept)
  · have hmem := h.answer.attentive.mem_of_update hloaded
    rw [hempty, List.nil_append] at hmem
    exact hquiet hmem

/-- A client is back and fetches the head; behind its back the server takes another, and both
announcements are faster than the answer. -/
def overtaken : List Input :=
  [.other (.told (.connection .reconnected)), .other (.answer (.subscribed (.ok ()))),
    .advance (Dialogue.commitOn "#1" "#0"), .fetch, .advance (Dialogue.commitOn "#2" "#1"),
    .hear, .hear]

/-- The newer head is forgotten, and the client rests at the older one. -/
theorem run_keeps_newer_iff_overtaken :
    let reached := (start "p" "b" "#0").run overtaken
    let loaded := reached.answer.step (.other (.answer (.delivered (.ok ()))))
    reached.Keeps (Dialogue.commitOn "#2" "#1") ∧
      ¬ reached.answer.Keeps (Dialogue.commitOn "#2" "#1") ∧
      loaded.head = "#2" ∧ loaded.held.localHead = "#1" ∧ loaded.held.status = .sync ∧
      loaded.dialogue.unanswered = [] := by
  have hfetched : ((start "p" "b" "#0").run overtaken).fetched =
      some { head := "#1", taken := 1 } := by
    cbv
  have hcommits : ((start "p" "b" "#0").run overtaken).held.commits = [] := by
    cbv
  have hnewer : ((start "p" "b" "#0").run overtaken).newer { head := "#1", taken := 1 } =
      [{ place := 1, data := Dialogue.commitOn "#2" "#1" }] := by
    cbv
  have hhead : ((start "p" "b" "#0").run overtaken).held.isHead "#2" = false := by
    cbv
  obtain ⟨hkept, -, hlost⟩ := run_keeps_newer_iff "p" "b" "#0" overtaken hfetched hcommits
  rw [hnewer] at hkept hlost
  refine ⟨hkept _ List.mem_cons_self, (hlost _ List.mem_cons_self hhead).1, ?_, ?_, ?_, ?_⟩
  · cbv
  · cbv
  · cbv
  · cbv

end Pursuit

end Coauthor
