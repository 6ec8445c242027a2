import Coauthor.Proofs.Branch.Acknowledgement

/-!
# Many clients of one server

Any number of clients follow branches of one server, each over a link of its own.  In any order
they are told of commits, announcements, the connection and decisions of their users, their
requests are carried out or lost, and they take the answers in, late or not at all.  As long as
no head is forced, every commit that a client has settled as synced or merged is part of its
branch, and stays so.  The commit has to be made for this branch: one that is made for no branch
is settled as synced as well, but it is only stored.
-/

namespace Coauthor

open Coordinator

/-- A request under way, and the answer to it once there is one. -/
structure Flight where
  request : Request
  answer : Option Response

/-- A client that follows a branch.  The events of its coordinator are never taken, so that they
are all that it has told. -/
structure Seat where
  link : Link
  model : Model
  project : ProjectId
  branch : BranchName
  coordinator : Coordinator
  flight : Option Flight

/-- What happens to a client. -/
inductive Act where
  | tell (occasion : Occasion)
  /-- The server carries the request under way out, as far as the link lets it. -/
  | serve
  /-- The request under way is lost, or the answer to it, and the client learns that it failed. -/
  | lose (error : RemoteError)
  /-- The client takes the answer in. -/
  | answer
  /-- A fault waits for the next push. -/
  | arm (fault : Fault)
  | disconnect
  | reconnect
  /-- The local model refuses all loads, or none. -/
  | refuse (refusal : Option String)

namespace Seat

/-- A client that has just opened a branch. -/
def start (link : Link) (project : ProjectId) (branch : BranchName) (head : CommitHash) : Seat :=
  { link, model := .empty, project, branch, coordinator := .start project branch head
    flight := none }

/-- Takes a move of the coordinator over. -/
def take (seat : Seat) (move : Coordinator.Move) : Seat :=
  { seat with
    coordinator := move.1
    flight := (move.2.map fun request => { request, answer := none }).or seat.flight }

def tell (seat : Seat) (occasion : Occasion) : Seat :=
  match seat.coordinator.react occasion with
  | some move => seat.take move
  | none => seat

def serve (server : Server) (seat : Seat) : Server × Seat :=
  match seat.flight with
  | some { request, answer := none } =>
      let outcome := BranchSession.perform seat.project seat.branch request
        { server, link := seat.link } seat.model
      (outcome.line.server,
        { seat with
          link := outcome.line.link, model := outcome.model
          flight := some { request, answer := some outcome.response } })
  | _ => (server, seat)

def lose (seat : Seat) (error : RemoteError) : Seat :=
  { seat with
    flight := seat.flight.map fun flight =>
      { flight with answer := some (flight.request.failed error) } }

def answer (seat : Seat) : Seat :=
  match seat.flight with
  | some { request := _, answer := some response } =>
      { seat with flight := none }.take (seat.coordinator.handle response)
  | _ => seat

def disconnect (server : Server) (seat : Seat) : Server × Seat :=
  let line := Line.disconnect { server, link := seat.link }
  (line.server, { seat with link := line.link })

def act (server : Server) (seat : Seat) : Act → Server × Seat
  | .tell occasion => (server, seat.tell occasion)
  | .serve => seat.serve server
  | .lose error => (server, seat.lose error)
  | .answer => (server, seat.answer)
  | .arm fault =>
      let commitFaults := seat.link.commitFaults.arm fault
      (server, { seat with link := { seat.link with commitFaults } })
  | .disconnect => seat.disconnect server
  | .reconnect => (server, { seat with link := seat.link.reconnect })
  | .refuse refusal => (server, { seat with model := { seat.model with refusal } })

end Seat

/-- A server and the clients that follow its branches. -/
structure Fleet where
  server : Server
  seats : List Seat

namespace Fleet

def start (server : Server) : Fleet := { server, seats := [] }

inductive Input where
  /-- Another client opens a branch, at whatever head. -/
  | join (link : Link) (project : ProjectId) (branch : BranchName) (head : CommitHash)
  /-- Something happens to a client. -/
  | visit (number : Nat) (act : Act)

def step (fleet : Fleet) : Input → Fleet
  | .join link project branch head =>
      { fleet with seats := fleet.seats ++ [.start link project branch head] }
  | .visit number act =>
      match fleet.seats[number]? with
      | some seat =>
          let (server, seat) := seat.act fleet.server act
          { server, seats := fleet.seats.set number seat }
      | none => fleet

def run (fleet : Fleet) (inputs : List Input) : Fleet := inputs.foldl step fleet

/-- The commits that a client is told of as its own. -/
def Input.commits : Input → List Commit
  | .visit _ (.tell (.commit data)) => [data.commit]
  | _ => []

/-- All commits that there are at some time of a run. -/
def made (fleet : Fleet) : List Input → List Commit
  | [] => fleet.server.store.commitList
  | input :: rest =>
      fleet.server.store.commitList ++ input.commits ++ (fleet.step input).made rest

/-- A commit is intact and expects no other head than its parent, and no head is forced. -/
def Input.isFair : Input → Bool
  | .visit _ (.tell (.commit data)) => data.commit.isIntact && data.oldHash.isNone
  | .visit _ (.tell (.resolve resolution)) => resolution ≠ .forcePush
  | _ => true

/-- A commit is made for the branch that the client follows. -/
def isAddressed (fleet : Fleet) : Input → Bool
  | .visit number (.tell (.commit data)) =>
      fleet.seats[number]?.all fun seat => Attachment.Addressed seat.project seat.branch data
  | _ => true

/-- All commits are made for the branches that the clients follow. -/
def areAddressed (fleet : Fleet) : List Input → Bool
  | [] => true
  | input :: rest => fleet.isAddressed input && (fleet.step input).areAddressed rest

end Fleet

variable {server : Server} {store later : Store} {made : List Commit}

/-! ## Clients -/

/-- The client waits for the answer to its request, and an answer that is there is true. -/
structure Seat.Sound (made : List Commit) (store : Store) (seat : Seat) : Prop where
  awaits : Awaits seat.coordinator.course (seat.flight.map (·.request))
  faithful : Faithful made store seat.project seat.branch seat.coordinator
  truthful : ∀ flight ∈ seat.flight, ∀ response ∈ flight.answer,
    response.Truthful store seat.project seat.branch flight.request

namespace Seat

variable {seat : Seat} {occasion : Occasion} {move : Coordinator.Move}

theorem sound_start (made : List Commit) (store : Store) (link : Link) (project : ProjectId)
    (branch : BranchName) (head : CommitHash) :
    (start link project branch head).Sound made store where
  awaits := Asks.awaits (.nothing rfl)
  faithful := faithful_start made store project branch head
  truthful := fun _ hflight => absurd hflight (Option.not_mem_none _)

theorem Sound.grow (h : seat.Sound made store) (hgrows : store.Grows later) :
    seat.Sound made later where
  awaits := h.awaits
  faithful := h.faithful.grow hgrows
  truthful := fun flight hflight response hanswer =>
    (h.truthful flight hflight response hanswer).grow hgrows

theorem Sound.tell (h : seat.Sound made store)
    (hallowed : occasion.Allowed made seat.project seat.branch) :
    (seat.tell occasion).Sound made store := by
  unfold Seat.tell
  cases hreact : seat.coordinator.react occasion with
  | none => exact h
  | some move =>
      refine ⟨?_, h.faithful.react hallowed hreact, fun flight hflight => ?_⟩
      · have hawaits := (h.awaits.react hreact).2
        simpa [take, Option.map_or, Function.comp_def] using hawaits
      · cases hrequest : move.2 with
        | none =>
            simp only [take, hrequest, Option.map_none, Option.none_or] at hflight
            exact h.truthful flight hflight
        | some request =>
            simp only [take, hrequest, Option.map_some, Option.some_or, Option.mem_some] at hflight
            subst hflight
            exact nofun

theorem Sound.answer (h : seat.Sound made store) : seat.answer.Sound made store := by
  unfold Seat.answer
  split
  · rename_i request response hflight
    have hawaits : Awaits seat.coordinator.course (some request) := by
      simpa [hflight] using h.awaits
    have htruthful := h.truthful _ hflight response rfl
    refine ⟨?_, h.faithful.handle hawaits htruthful, fun flight hnext => ?_⟩
    · have hasks := (hawaits.coherent_handle htruthful.answers).awaits
      simpa [take, Function.comp_def] using hasks
    · simp only [take, Option.or_none] at hnext
      obtain ⟨asked, -, rfl⟩ := Option.map_eq_some_iff.mp hnext
      exact nofun
  · exact h

theorem Sound.lose (h : seat.Sound made store) (error : RemoteError) :
    (seat.lose error).Sound made store := by
  refine ⟨?_, h.faithful, fun flight hflight response hanswer => ?_⟩
  · simpa [Seat.lose, Function.comp_def] using h.awaits
  · obtain ⟨asked, -, rfl⟩ := Option.map_eq_some_iff.mp hflight
    obtain rfl := Option.mem_some.mp hanswer
    exact asked.request.truthful_failed store _ _ error

theorem Sound.serve (h : seat.Sound made server.store) (hstore : server.store.Orderly made)
    (hlater : (seat.serve server).1.store.commitList ⊆ made) :
    server.store.Grows (seat.serve server).1.store ∧
      (seat.serve server).2.Sound made (seat.serve server).1.store := by
  unfold Seat.serve at hlater ⊢
  split
  · rename_i request hflight
    simp only [hflight] at hlater
    have hawaits : Awaits seat.coordinator.course (some request) := by
      simpa [hflight] using h.awaits
    have hregular := h.faithful.regular hawaits
    obtain ⟨hgrows, htruthful⟩ := hregular.perform hstore seat.model hlater
    refine ⟨hgrows, hawaits, h.faithful.grow hgrows, fun flight hserved response hanswer => ?_⟩
    obtain rfl := Option.mem_some.mp hserved
    obtain rfl := Option.mem_some.mp hanswer
    exact htruthful
  · exact ⟨.refl hstore.sound, h⟩

/-- A push over a link that is up and has no fault. -/
theorem serve_push {data : CommitData} {result : Except RemoteError CommitResponse}
    (hflight : seat.flight = some { request := .push data, answer := none })
    (hconnected : seat.link.connection.isConnected = true)
    (hfaults : seat.link.commitFaults = .off)
    (hmake : server.store.makeCommit data = (store, result)) :
    seat.serve server = ({ server with store },
      { seat with flight := some { request := .push data, answer := some (.pushed result) } }) := by
  have htake : seat.link.commitFaults.take = (seat.link.commitFaults, none) := by
    rw [hfaults]
    rfl
  simp [Seat.serve, hflight, BranchSession.perform, Line.makeCommit, hconnected, htake,
    Line.askUnder, Line.carry, hmake]

/-- Whatever happens to a client lets the store grow, and leaves the client sound. -/
theorem Sound.act (h : seat.Sound made server.store) (hstore : server.store.Orderly made)
    {act : Act}
    (hallowed : ∀ occasion, act = .tell occasion →
      occasion.Allowed made seat.project seat.branch)
    (hlater : (seat.act server act).1.store.commitList ⊆ made) :
    server.store.Grows (seat.act server act).1.store ∧
      (seat.act server act).2.Sound made (seat.act server act).1.store := by
  cases act with
  | tell occasion => exact ⟨.refl hstore.sound, h.tell (hallowed occasion rfl)⟩
  | serve => exact h.serve hstore hlater
  | lose error => exact ⟨.refl hstore.sound, h.lose error⟩
  | answer => exact ⟨.refl hstore.sound, h.answer⟩
  | disconnect =>
      have hgrows := Line.disconnect_grows { server, link := seat.link } hstore.sound
      have hsound := h.grow hgrows
      exact ⟨hgrows, hsound.awaits, hsound.faithful, hsound.truthful⟩
  | arm fault => exact ⟨.refl hstore.sound, h.awaits, h.faithful, h.truthful⟩
  | reconnect => exact ⟨.refl hstore.sound, h.awaits, h.faithful, h.truthful⟩
  | refuse refusal => exact ⟨.refl hstore.sound, h.awaits, h.faithful, h.truthful⟩

end Seat

/-! ## Runs -/

namespace Fleet

variable {fleet : Fleet} {input : Input} {inputs : List Input}

structure Sound (made : List Commit) (fleet : Fleet) : Prop where
  store : fleet.server.store.Orderly made
  seats : ∀ seat ∈ fleet.seats, seat.Sound made fleet.server.store

theorem run_append (fleet : Fleet) (inputs more : List Input) :
    fleet.run (inputs ++ more) = (fleet.run inputs).run more :=
  List.foldl_append ..

theorem commitList_subset_made (fleet : Fleet) (inputs : List Input) :
    fleet.server.store.commitList ⊆ fleet.made inputs := by
  cases inputs with
  | nil => exact List.Subset.refl _
  | cons input rest =>
      rw [Fleet.made, List.append_assoc]
      exact List.subset_append_left _ _

theorem allowed_of_isFair {number : Nat} {seat : Seat} {occasion : Occasion}
    (hseat : fleet.seats[number]? = some seat)
    (hcommits : (Input.visit number (.tell occasion)).commits ⊆ made)
    (hfair : (Input.visit number (.tell occasion)).isFair)
    (haddressed : fleet.isAddressed (.visit number (.tell occasion))) :
    occasion.Allowed made seat.project seat.branch := by
  cases occasion with
  | commit data =>
      simp only [Input.isFair, Bool.and_eq_true, Option.isNone_iff_eq_none] at hfair
      simp only [isAddressed, hseat, Option.all_some, decide_eq_true_eq] at haddressed
      exact ⟨hcommits List.mem_cons_self, hfair.2, haddressed⟩
  | resolve resolution => simpa [Input.isFair, Occasion.Allowed] using hfair
  | update data => trivial
  | connection state => trivial
  | retry => trivial
  | worker number => trivial

/-- One input lets the store grow, and leaves all clients sound. -/
theorem Sound.step (h : fleet.Sound made) (hcommits : input.commits ⊆ made)
    (hfair : input.isFair) (haddressed : fleet.isAddressed input)
    (hlater : (fleet.step input).server.store.commitList ⊆ made) :
    fleet.server.store.Grows (fleet.step input).server.store ∧ (fleet.step input).Sound made := by
  cases input with
  | join link project branch head =>
      refine ⟨.refl h.store.sound, h.store, fun seat hseat => ?_⟩
      rcases List.mem_append.mp hseat with hbefore | hnew
      · exact h.seats seat hbefore
      · obtain rfl := List.mem_singleton.mp hnew
        exact Seat.sound_start ..
  | visit number act =>
      cases hseat : fleet.seats[number]? with
      | none =>
          rw [Fleet.step, hseat]
          exact ⟨.refl h.store.sound, h⟩
      | some seat =>
          simp only [Fleet.step, hseat] at hlater ⊢
          have hsound := h.seats seat (List.mem_of_getElem? hseat)
          have hallowed : ∀ occasion, act = .tell occasion →
              occasion.Allowed made seat.project seat.branch := by
            rintro occasion rfl
            exact allowed_of_isFair hseat hcommits hfair haddressed
          obtain ⟨hgrows, hacted⟩ := hsound.act h.store hallowed hlater
          refine ⟨hgrows, h.store.grow hgrows hlater, fun other hother => ?_⟩
          rcases List.mem_or_eq_of_mem_set hother with hbefore | rfl
          · exact (h.seats other hbefore).grow hgrows
          · exact hacted

theorem made_cons_subset_iff : fleet.made (input :: inputs) ⊆ made ↔
    fleet.server.store.commitList ⊆ made ∧ input.commits ⊆ made ∧
      (fleet.step input).made inputs ⊆ made := by
  rw [Fleet.made, List.append_subset, List.append_subset, and_assoc]

theorem Sound.run (h : fleet.Sound made) (hmade : fleet.made inputs ⊆ made)
    (hfair : ∀ input ∈ inputs, input.isFair) (haddressed : fleet.areAddressed inputs) :
    fleet.server.store.Grows (fleet.run inputs).server.store ∧ (fleet.run inputs).Sound made := by
  induction inputs generalizing fleet with
  | nil => exact ⟨.refl h.store.sound, h⟩
  | cons input rest ih =>
      obtain ⟨-, hcommits, hrest⟩ := made_cons_subset_iff.mp hmade
      rw [areAddressed, Bool.and_eq_true] at haddressed
      have hlater := List.Subset.trans (commitList_subset_made (fleet.step input) rest) hrest
      obtain ⟨hgrows, hstep⟩ :=
        h.step hcommits (hfair input List.mem_cons_self) haddressed.1 hlater
      obtain ⟨hrun, hsound⟩ :=
        ih hstep hrest (fun other hother => hfair other (.tail _ hother)) haddressed.2
      exact ⟨hgrows.trans hrun, hsound⟩

/-- What is made in a run is made in its parts. -/
theorem made_append_subset_iff {more : List Input} : fleet.made (inputs ++ more) ⊆ made ↔
    fleet.made inputs ⊆ made ∧ (fleet.run inputs).made more ⊆ made := by
  induction inputs generalizing fleet with
  | nil =>
      have hstores := commitList_subset_made fleet more
      exact ⟨fun h => ⟨List.Subset.trans hstores h, h⟩, fun h => h.2⟩
  | cons input rest ih =>
      rw [List.cons_append, made_cons_subset_iff, made_cons_subset_iff, ih, and_assoc, and_assoc]
      rfl

theorem areAddressed_append (fleet : Fleet) (inputs more : List Input) :
    fleet.areAddressed (inputs ++ more) =
      (fleet.areAddressed inputs && (fleet.run inputs).areAddressed more) := by
  induction inputs generalizing fleet with
  | nil => rfl
  | cons input rest ih =>
      rw [List.cons_append, areAddressed, areAddressed, ih, Bool.and_assoc]
      rfl

theorem sound_start (hsound : server.store.Sound)
    (hmerger : server.store.merger = .never ∨ server.store.merger = .snapshot)
    (hdistinct : Commit.Distinct made) (hstores : server.store.commitList ⊆ made) :
    (start server).Sound made := by
  refine ⟨⟨hsound, ?_, hdistinct, hstores⟩, fun _ hseat => absurd hseat List.not_mem_nil⟩
  rcases hmerger with hnever | hsnapshot
  · exact hnever ▸ Merger.joins_never
  · exact hsnapshot ▸ Merger.joins_snapshot

/-- Whatever the clients do and whatever is lost, a commit that one of them has settled as synced
or merged is stored and part of its branch, then and ever after. -/
theorem run_keeps_acknowledged {inputs more : List Input} (hsound : server.store.Sound)
    (hmerger : server.store.merger = .never ∨ server.store.merger = .snapshot)
    (hdistinct : Commit.Distinct ((start server).made (inputs ++ more)))
    (hfair : ∀ input ∈ inputs ++ more, input.isFair)
    (haddressed : (start server).areAddressed (inputs ++ more)) {seat : Seat}
    (hseat : seat ∈ ((start server).run inputs).seats) {hash : CommitHash} {status : CommitStatus}
    (hsettled : .settled hash status ∈ seat.coordinator.events) (haccepted : status.isAccepted) :
    ((start server).run (inputs ++ more)).server.store.OnBranch seat.project seat.branch hash := by
  obtain ⟨hmade, hmore⟩ := made_append_subset_iff.mp
    (List.Subset.refl ((start server).made (inputs ++ more)))
  rw [areAddressed_append, Bool.and_eq_true] at haddressed
  have hstart := sound_start hsound hmerger hdistinct
    (commitList_subset_made (start server) (inputs ++ more))
  obtain ⟨-, hrun⟩ := hstart.run hmade
    (fun input hinput => hfair input (List.mem_append_left _ hinput)) haddressed.1
  obtain ⟨hgrows, -⟩ := hrun.run hmore
    (fun input hinput => hfair input (List.mem_append_right _ hinput)) haddressed.2
  rw [run_append]
  have hfaithful := (hrun.seats seat hseat).faithful
  exact hgrows.onBranch (hfaithful.settled hash status hsettled haccepted)

/-! ## One commit -/

/-- Two projects, as they are when nobody has joined yet. -/
abbrev ground : Server := Attachment.ground.server

/-- An intact commit. -/
def work : Commit :=
  { id := "#363ad51076f4f09661629c087a6c8482f4960c2a", root := "", parents := ["#0"]
    updater := [], time := 0, message := "", branchName := none }

def workFor (branch : Option BranchName) : CommitData :=
  { projectId := "p", branchName := branch, commit := work, coreObjects := ∅, oldHash := none }

/-- A client joins, makes the commit, and the push is carried out. -/
def pushing (branch : Option BranchName) : List Input :=
  [.join (.start "a") "p" "b" "#0", .visit 0 (.tell (.commit (workFor branch))), .visit 0 .serve]

def asking (branch : Option BranchName) : Seat :=
  (Seat.start (.start "a") "p" "b" "#0").tell (.commit (workFor branch))

/-- The push was carried out and accepted. -/
def served (branch : Option BranchName) (store : Store) : Fleet :=
  { server := { ground with store }
    seats := [{ asking branch with
      flight := some { request := .push (workFor branch)
                       answer := some (.pushed (.ok (.of .synced work.id))) } }] }

theorem isIntact_work : work.isIntact = true := by
  decide +kernel

section Serving

variable {branch : Option BranchName}
  (hmake : ground.store.makeCommit (workFor branch) = (store, .ok (.of .synced work.id)))

include hmake

theorem step_serve :
    ({ server := ground, seats := [asking branch] } : Fleet).step (.visit 0 .serve) =
      served branch store := by
  have hflight : (asking branch).flight =
      some { request := .push (workFor branch), answer := none } := by
    cbv
  have hserve : (asking branch).serve ground = _ := Seat.serve_push hflight rfl rfl hmake
  simp [Fleet.step, Seat.act, hserve, served]

theorem run_pushing (rest : List Input) :
    (start ground).run (pushing branch ++ rest) = (served branch store).run rest := by
  rw [run_append, ← step_serve hmake]
  rfl

/-- No commit is made but one. -/
theorem distinct_made {rest : List Input}
    (hrest : ((served branch store).made rest).all (work :: ground.store.commitList).contains) :
    Commit.Distinct ((start ground).made (pushing branch ++ rest)) := by
  have hdistinct : Commit.Distinct (work :: ground.store.commitList) := by
    unfold Commit.Distinct
    decide
  have hground : ground.store.commitList ⊆ work :: ground.store.commitList :=
    List.subset_cons_self _ _
  have hwork : [work] ⊆ work :: ground.store.commitList :=
    List.cons_subset_cons work (List.nil_subset _)
  have hserved : (served branch store).made rest ⊆ work :: ground.store.commitList :=
    fun commit hmem => List.contains_iff_mem.mp (List.all_eq_true.mp hrest commit hmem)
  rw [← step_serve hmake] at hserved
  refine hdistinct.subset ?_
  refine made_cons_subset_iff.mpr ⟨hground, List.nil_subset _, ?_⟩
  refine made_cons_subset_iff.mpr ⟨hground, hwork, ?_⟩
  exact made_cons_subset_iff.mpr ⟨hground, List.nil_subset _, hserved⟩

end Serving

/-- Which branch each client follows, and whether it has settled the commit as synced. -/
def outcomes (fleet : Fleet) : List (ProjectId × BranchName × Bool) :=
  fleet.seats.map fun seat =>
    (seat.project, seat.branch, seat.coordinator.events.contains (.settled work.id .synced))

theorem exists_settled_work (houtcomes : fleet.outcomes = [("p", "b", true)]) :
    ∃ seat ∈ fleet.seats, seat.project = "p" ∧ seat.branch = "b" ∧
      .settled work.id .synced ∈ seat.coordinator.events := by
  obtain ⟨seat, hseats, hseat⟩ := List.map_eq_singleton_iff.mp houtcomes
  simp only [Prod.mk.injEq, List.contains_iff_mem] at hseat
  exact ⟨seat, hseats ▸ List.mem_singleton_self seat, hseat⟩

/-- The commit was pushed to the branch. -/
def landed : Store := ground.store.createProject "p" "b" (workFor (some "b"))

theorem makeCommit_landed :
    ground.store.makeCommit (workFor (some "b")) = (landed, .ok (.of .synced work.id)) := by
  have hintact : (workFor (some "b")).commit.isIntact = true := isIntact_work
  rw [Store.makeCommit, if_neg (by simp [hintact])]
  rfl

/-- The answer to the push is lost, so that the client subscribes and asks for the head. -/
def late : List Input :=
  [.visit 0 (.lose .timeout), .visit 0 .answer, .visit 0 .serve, .visit 0 .answer, .visit 0 .serve,
    .visit 0 .answer]

/-- The client that rejoins finds its commit at the head. -/
theorem run_keeps_acknowledged_late :
    let inputs := pushing (some "b") ++ late
    let later := (start ground).run (inputs ++ [.visit 0 .disconnect])
    ∃ seat ∈ ((start ground).run inputs).seats,
      .settled work.id .synced ∈ seat.coordinator.events ∧
        later.server.store.OnBranch seat.project seat.branch work.id := by
  have houtcomes : ((served (some "b") landed).run late).outcomes = [("p", "b", true)] := by
    cbv
  have hmade : ((served (some "b") landed).made (late ++ [.visit 0 .disconnect])).all
      (work :: ground.store.commitList).contains = true := by
    cbv
  have haddressed : (start ground).areAddressed
      (pushing (some "b") ++ late ++ [.visit 0 .disconnect]) = true := rfl
  rw [← run_pushing makeCommit_landed] at houtcomes
  obtain ⟨seat, hseat, -, -, hsettled⟩ := exists_settled_work houtcomes
  refine ⟨seat, hseat, hsettled, ?_⟩
  have hground : ground.store.Sound := Attachment.ground_ready.sound
  have hmerger : ground.store.merger = .never := rfl
  have hdistinct : Commit.Distinct
      ((start ground).made (pushing (some "b") ++ late ++ [.visit 0 .disconnect])) := by
    rw [List.append_assoc]
    exact distinct_made makeCommit_landed hmade
  have hfair : ∀ input ∈ pushing (some "b") ++ late ++ [.visit 0 .disconnect], input.isFair := by
    simp [pushing, late, Input.isFair, workFor, isIntact_work]
  exact run_keeps_acknowledged hground (.inl hmerger) hdistinct hfair haddressed hseat hsettled rfl

/-- The commit was pushed to no branch. -/
def kept : Store :=
  let project := (ground.store.projects.get? "p").getD default
  ground.store.setProject "p"
    { project with commits := project.commits.insert work.id (workFor none) }

theorem makeCommit_kept :
    ground.store.makeCommit (workFor none) = (kept, .ok (.of .synced work.id)) := by
  have hintact : (workFor none).commit.isIntact = true := isIntact_work
  rw [Store.makeCommit, if_neg (by simp [hintact])]
  rfl

/-- The head of the branch, which has no parents, is still what it was. -/
theorem not_onBranch_kept : ¬ kept.OnBranch "p" "b" work.id := by
  rintro ⟨head, hhead, project, hget, -, hreaches⟩
  have hroot : kept.headOf "p" "b" = some "#0" := by
    cbv
  have hparents : (kept.projects.get? "p").map (fun project => project.commits.parentsOf "#0") =
      some [] := by
    cbv
  obtain rfl := Option.some.inj (hroot.symm.trans hhead)
  rw [hget, Option.map_some, Option.some.injEq] at hparents
  rcases hreaches.cases_head with hsame | ⟨parent, hlink, -⟩
  · exact absurd hsame (by decide)
  · rw [hparents] at hlink
    cases hlink

/-- A commit for no branch is settled as synced, although it is not part of the branch. -/
theorem acknowledged_off_branch :
    let inputs := pushing none ++ [.visit 0 .answer]
    ground.store.Sound ∧ ground.store.merger = .never ∧ (∀ input ∈ inputs, input.isFair) ∧
      Commit.Distinct ((start ground).made inputs) ∧
      ∃ seat ∈ ((start ground).run inputs).seats,
        .settled work.id .synced ∈ seat.coordinator.events ∧
          ¬ ((start ground).run inputs).server.store.OnBranch seat.project seat.branch work.id := by
  have houtcomes : ((served none kept).run [.visit 0 .answer]).outcomes = [("p", "b", true)] := by
    cbv
  have hmade : ((served none kept).made [.visit 0 .answer]).all
      (work :: ground.store.commitList).contains = true := by
    cbv
  have hfair : ∀ input ∈ pushing none ++ [.visit 0 .answer], input.isFair := by
    simp [pushing, Input.isFair, workFor, isIntact_work]
  refine ⟨Attachment.ground_ready.sound, rfl, hfair, distinct_made makeCommit_kept hmade, ?_⟩
  obtain ⟨seat, hseat, hproject, hbranch, hsettled⟩ := exists_settled_work houtcomes
  rw [run_pushing makeCommit_kept]
  refine ⟨seat, hseat, hsettled, ?_⟩
  rw [hproject, hbranch]
  exact not_onBranch_kept

end Fleet

end Coauthor
