import Coauthor.Proofs.Branch.Course
import Coauthor.Proofs.Store.Heads
import Coauthor.Session.Branch
import Mathlib

/-!
# Clients that follow a branch

A client opens a branch at the head that the server has, and is told of every later head.
Other clients move the head meanwhile; the client makes commits, hears what was announced,
and carries out one request after the other, all in any order.

Once it is at rest, the client stands at the head of the server unless it strayed.  It
strays where it passes over an announced head as one that it knows, and is bound for
another: the client takes the echo of its own push for known only while that push is one of
its heads or waits in a queue, so that the echo of an earlier push is loaded like any other
head, and the echo of the last one, which would lead back, is passed over.
-/

namespace Coauthor

/-- A client that follows a branch, and the server behind its line. -/
structure Attachment where
  line : Line
  model : Model
  project : ProjectId
  branch : BranchName
  /-- The stream of announced heads. -/
  stream : SubscriptionId
  coordinator : Coordinator
  /-- The request under way, or the answer to it. -/
  transit : Option Transit
  /-- The head announced last was passed over by a client bound for another, and no push
  has found the head since. -/
  strayed : Bool

namespace Attachment

/-- Opens a branch at the head that the server has. -/
def attach (line : Line) (project : ProjectId) (branch : BranchName) : Option Attachment :=
  match line.branchHead project branch with
  | (line, .ok (some head)) =>
      match line.watchBranch project branch with
      | (line, .ok stream) =>
          some { line, model := .empty, project, branch, stream,
                 coordinator := .start project branch head, transit := none, strayed := false }
      | (_, .error _) => none
  | _ => none

inductive Input where
  /-- The client makes a commit. -/
  | commit (data : CommitData)
  /-- Another client pushes a commit. -/
  | foreign (data : CommitData)
  /-- Another client moves a head. -/
  | setHead (project : ProjectId) (branch : BranchName) (old : Option CommitHash)
      (new : CommitHash)
  /-- The server carries out the request under way. -/
  | serve
  /-- The client takes in the first announced head. -/
  | hear
  /-- The client takes in the answer to its request. -/
  | answer

def store (attachment : Attachment) : Store := attachment.line.server.store

def withStore (attachment : Attachment) (store : Store) : Attachment :=
  { attachment with
    line := { attachment.line with server := { attachment.line.server with store } } }

/-- The head that the server has. -/
def head (attachment : Attachment) : Option CommitHash :=
  attachment.store.headOf attachment.project attachment.branch

/-- The heads that the client has yet to hear of. -/
def announced (attachment : Attachment) : List CommitData :=
  attachment.store.announced attachment.stream

/-- The head at which the client comes to rest if it hears of nothing more. -/
def bound (attachment : Attachment) : CommitHash :=
  attachment.coordinator.bound attachment.transit

/-- Takes a move of the coordinator over. -/
def take (attachment : Attachment) (move : Coordinator.Move) : Attachment :=
  { attachment with
    coordinator := move.1, transit := Coordinator.after move attachment.transit }

/-- A commit is made for this branch of this project. -/
def Addressed (project : ProjectId) (branch : BranchName) (data : CommitData) : Prop :=
  data.projectId = project ∧ data.branchName = some branch

instance (project : ProjectId) (branch : BranchName) (data : CommitData) :
    Decidable (Addressed project branch data) :=
  inferInstanceAs (Decidable (_ ∧ _))

def commit (attachment : Attachment) (data : CommitData) : Attachment :=
  if Addressed attachment.project attachment.branch data then
    match attachment.coordinator.commitLocally data with
    | .ok move => attachment.take move
    | .error _ => attachment
  else attachment

def foreign (attachment : Attachment) (data : CommitData) : Attachment :=
  attachment.withStore (attachment.store.makeCommit data).1

def setHead (attachment : Attachment) (project : ProjectId) (branch : BranchName)
    (old : Option CommitHash) (new : CommitHash) : Attachment :=
  match attachment.store.setHead project branch old new with
  | .ok (store, _) => attachment.withStore store
  | .error _ => attachment

/-- A request was carried out; what it leads to may be the head that the client missed. -/
def served (attachment : Attachment) (outcome : BranchSession.Outcome) : Attachment :=
  let served := { attachment with
    line := outcome.line, model := outcome.model
    transit := some (.answered outcome.response) }
  { served with strayed := attachment.strayed && served.head ≠ some served.bound }

def serve (attachment : Attachment) : Attachment :=
  match attachment.transit with
  | some (.asked request) =>
      attachment.served <|
        BranchSession.perform attachment.project attachment.branch request attachment.line
          attachment.model
  | _ => attachment

/-- The client is told of a head. -/
def tell (attachment : Attachment) (data : CommitData) : Attachment :=
  { attachment.take (attachment.coordinator.remoteUpdate data) with
    strayed := attachment.coordinator.branch.knows data.hash && attachment.bound ≠ data.hash }

def hear (attachment : Attachment) : Attachment :=
  match attachment.store.watchers.take attachment.stream with
  | (watchers, .item data) =>
      (attachment.withStore { attachment.store with watchers }).tell data
  | _ => attachment

def answer (attachment : Attachment) : Attachment :=
  match attachment.transit with
  | some (.answered response) =>
      { attachment with transit := none }.take (attachment.coordinator.handle response)
  | _ => attachment

def step (attachment : Attachment) : Input → Attachment
  | .commit data => attachment.commit data
  | .foreign data => attachment.foreign data
  | .setHead project branch old new => attachment.setHead project branch old new
  | .serve => attachment.serve
  | .hear => attachment.hear
  | .answer => attachment.answer

def run (attachment : Attachment) (inputs : List Input) : Attachment :=
  inputs.foldl step attachment

/-- Nothing is under way, and the client has heard of every head. -/
structure AtRest (attachment : Attachment) : Prop where
  idle : attachment.coordinator.phase = .idle
  connected : attachment.coordinator.connected = true
  running : attachment.coordinator.halt = none
  heard : attachment.announced = []

end Attachment

/-- The connection is up and stays up, and the projects of the server are sound. -/
structure Line.Ready (line : Line) : Prop where
  connected : line.link.connection.isConnected = true
  faultless : line.link.commitFaults = .off
  sound : line.server.store.Sound

namespace Attachment

/-- The head announced last is the head of the server.  Once every head was heard, the
client is bound for the head of the server unless it strayed. -/
def Tracks (head : Option CommitHash) (announced : List CommitData) (bound : CommitHash)
    (strayed : Bool) : Prop :=
  match announced.getLast? with
  | some data => head = some data.hash
  | none => head = some bound ↔ strayed = false

/-- What every input preserves. -/
structure Attached (attachment : Attachment) : Prop where
  ready : attachment.line.Ready
  accepts : attachment.model.refusal = none
  feeds : attachment.store.Feeds attachment.stream attachment.project attachment.branch
  stored : ∀ data ∈ attachment.announced, attachment.store.Stored attachment.project data.hash
  consistent : Coordinator.Consistent (attachment.store.Stored attachment.project)
    (Addressed attachment.project attachment.branch) attachment.coordinator.course
    attachment.transit
  tracks : Tracks attachment.head attachment.announced attachment.bound attachment.strayed

variable {attachment start : Attachment} {line : Line} {model : Model} {project : ProjectId}
  {branch : BranchName}

/-! ## Tracking the head -/

section Tracking

variable {head : Option CommitHash} {announced rest : List CommitData}
  {bound later : CommitHash} {strayed : Bool} {data : CommitData}

/-- A head that is moved is announced. -/
theorem Tracks.move (h : Tracks head announced bound strayed) (move : Option CommitData) :
    Tracks ((move.map (·.hash)).or head) (announced ++ move.toList) bound strayed := by
  cases move with
  | none =>
      rw [Option.toList_none, List.append_nil]
      exact h
  | some data => simp [Tracks]

/-- A client that is told of the head either is bound for it from then on, or strays. -/
theorem Tracks.tell (h : Tracks head (data :: rest) bound strayed) (known : Bool) :
    Tracks head rest (if known then bound else data.hash) (known && bound ≠ data.hash) := by
  cases rest with
  | cons next later =>
      rw [Tracks, List.getLast?_cons_cons] at h
      rw [Tracks]
      cases hlast : (next :: later).getLast? with
      | none => simp at hlast
      | some last =>
          rw [hlast] at h
          exact h
  | nil =>
      have hhead : head = some data.hash := h
      by_cases hsame : bound = data.hash
      · cases known <;> simp [Tracks, hhead, hsame]
      · cases known <;> simp [Tracks, hhead, hsame, Ne.symm hsame]

/-- An answer leaves the client bound where it was, or takes it to the head. -/
theorem Tracks.serve (h : Tracks head announced bound strayed)
    (hlater : announced = [] → later = bound ∨ head = some later) :
    Tracks head announced later (strayed && head ≠ some later) := by
  cases announced with
  | cons data rest =>
      rw [Tracks] at h ⊢
      cases hlast : (data :: rest).getLast? with
      | none => simp at hlast
      | some last =>
          rw [hlast] at h
          exact h
  | nil =>
      have hstrayed : head = some bound ↔ strayed = false := h
      by_cases hfound : head = some later
      · simp [Tracks, hfound]
      · obtain rfl : later = bound := (hlater rfl).resolve_right hfound
        have hlost : strayed = true := by simpa [hfound] using hstrayed
        simp [Tracks, hfound, hlost]

end Tracking

/-! ## Attaching -/

theorem branchHead_of_ready (hready : line.Ready) (project : ProjectId) (branch : BranchName) :
    line.branchHead project branch = (line, line.server.store.branchHead project branch) := by
  rw [Line.branchHead, Line.read, Line.ask, if_pos hready.connected]
  rfl

theorem headOf_of_branchHead {store : Store} {head : CommitHash}
    (hhead : store.branchHead project branch = .ok (some head)) :
    store.headOf project branch = some head := by
  rw [Store.headOf]
  cases hget : store.projects.get? project with
  | none => simp [Store.branchHead, Store.project, hget, bind, Except.bind] at hhead
  | some found =>
      simp only [Store.branchHead, Store.project_of_get? hget, bind, Except.bind] at hhead
      exact Except.ok.inj hhead

/-- What a client attaches to. -/
theorem exists_attach (hready : line.Ready) (hattach : attach line project branch = some start) :
    ∃ head watching stream, line.server.store.headOf project branch = some head ∧
      line.server.store.watch project branch line.link.client = .ok (watching, stream) ∧
      start = { line := { line with server := { line.server with store := watching } }
                model := .empty, project, branch, stream
                coordinator := .start project branch head, transit := none, strayed := false } := by
  unfold attach at hattach
  rw [branchHead_of_ready hready] at hattach
  cases hbranch : line.server.store.branchHead project branch with
  | error error => simp [hbranch] at hattach
  | ok found =>
      cases found with
      | none => simp [hbranch] at hattach
      | some head =>
          cases hwatch : line.server.store.watch project branch line.link.client with
          | error error =>
              simp [hbranch, Line.watchBranch, Line.change, Line.ask, hready.connected,
                Line.carry, hwatch] at hattach
          | ok opened =>
              obtain ⟨watching, stream⟩ := opened
              refine ⟨head, watching, stream, headOf_of_branchHead hbranch, rfl, ?_⟩
              simp [hbranch, Line.watchBranch, Line.change, Line.ask, hready.connected,
                Line.carry, hwatch] at hattach
              exact hattach.symm

theorem attached_attach (hready : line.Ready)
    (hattach : attach line project branch = some start) : start.Attached := by
  obtain ⟨head, watching, stream, hhead, hwatch, rfl⟩ := exists_attach hready hattach
  obtain ⟨hprojects, hfeeds, hannounced⟩ := Store.announced_watch hwatch
  have hsound : watching.Sound := fun id found hget => hready.sound id found (hprojects ▸ hget)
  have hwatched : watching.headOf project branch = some head := by
    rw [Store.headOf, hprojects]
    exact hhead
  refine
    { ready := ⟨hready.connected, hready.faultless, hsound⟩, accepts := rfl, feeds := hfeeds
      stored := fun data hmem => ?_
      consistent := Coordinator.consistent_start _ _ (hsound.stored_head hwatched), tracks := ?_ }
  · rw [Attachment.announced, Attachment.store, hannounced] at hmem
    cases hmem
  · rw [Attachment.announced, Attachment.store, hannounced]
    exact iff_of_true hwatched rfl

/-! ## Other clients -/

/-- Other clients may change the store. -/
theorem Attached.withStore (h : attachment.Attached) {later : Store} {move : Option CommitData}
    (hmoved : Store.Moved attachment.project attachment.branch attachment.stream attachment.store
      later move) : (attachment.withStore later).Attached where
  ready := ⟨h.ready.connected, h.ready.faultless, hmoved.sound⟩
  accepts := h.accepts
  feeds := hmoved.feeds
  stored := by
    intro data hmem
    rw [show (attachment.withStore later).announced = attachment.announced ++ move.toList from
      hmoved.announced] at hmem
    rcases List.mem_append.mp hmem with hmem | hmem
    · exact hmoved.kept _ _ (h.stored data hmem)
    · exact hmoved.stored data (Option.mem_toList.mp hmem)
  consistent := h.consistent.mono fun hash => hmoved.kept attachment.project hash
  tracks := by
    have hannounced : (attachment.withStore later).announced =
      attachment.announced ++ move.toList := hmoved.announced
    have hhead : (attachment.withStore later).head =
      (move.map (·.hash)).or attachment.head := hmoved.head
    rw [hannounced, hhead]
    exact h.tracks.move move

theorem Attached.foreign (h : attachment.Attached) (data : CommitData) :
    (attachment.foreign data).Attached := by
  obtain ⟨move, hmoved⟩ := (Store.pushed_makeCommit h.ready.sound h.feeds data).exists_moved
  exact h.withStore hmoved

theorem Attached.setHead (h : attachment.Attached) (project : ProjectId) (branch : BranchName)
    (old : Option CommitHash) (new : CommitHash) :
    (attachment.setHead project branch old new).Attached := by
  unfold Attachment.setHead
  cases hset : attachment.store.setHead project branch old new with
  | error error => exact h
  | ok set =>
      obtain ⟨move, hmoved⟩ := Store.moved_setHead h.ready.sound h.feeds hset
      exact h.withStore hmoved

/-! ## The client -/

theorem Attached.commit (h : attachment.Attached) (data : CommitData) :
    (attachment.commit data).Attached := by
  unfold Attachment.commit
  by_cases haddressed : Addressed attachment.project attachment.branch data
  swap
  · rw [if_neg haddressed]
    exact h
  rw [if_pos haddressed]
  cases hcommit : attachment.coordinator.commitLocally data with
  | error error => exact h
  | ok move =>
      have hleads := h.consistent.commitLocally haddressed hcommit
      have hbound : (attachment.take move).bound = attachment.bound := hleads.bound
      refine { h with consistent := hleads.consistent, tracks := ?_ }
      rw [hbound]
      exact h.tracks

theorem Attached.answer (h : attachment.Attached) : attachment.answer.Attached := by
  unfold Attachment.answer
  cases htransit : attachment.transit with
  | none => exact h
  | some transit =>
      cases transit with
      | asked request => exact h
      | answered response =>
          have hconsistent := h.consistent
          rw [htransit] at hconsistent
          have hleads := hconsistent.handle
          have hbound : attachment.bound =
              attachment.coordinator.bound (some (.answered response)) := by
            rw [Attachment.bound, htransit]
          have htracks := h.tracks
          rw [hbound, ← hleads.bound] at htracks
          exact { h with consistent := hleads.consistent, tracks := htracks }

/-- A head that the client hears of is either what it is bound for from then on, or is
passed over. -/
theorem Attached.hear (h : attachment.Attached) : attachment.hear.Attached := by
  unfold Attachment.hear
  cases hannounced : attachment.announced with
  | nil =>
      rw [Store.take_of_nil h.feeds hannounced]
      exact h
  | cons data rest =>
      obtain ⟨watchers, htake, hfeeds, hrest⟩ := Store.exists_take h.feeds hannounced
      rw [htake]
      let listening := attachment.withStore { attachment.store with watchers }
      have hstored := h.stored data (hannounced ▸ List.mem_cons_self)
      have hleads := h.consistent.remoteUpdate hstored
      have htracks : Tracks listening.head listening.announced
          (listening.take (listening.coordinator.remoteUpdate data)).bound
          (listening.coordinator.branch.knows data.hash && listening.bound ≠ data.hash) := by
        have hfirst := h.tracks
        rw [hannounced] at hfirst
        rw [show listening.announced = rest from hrest, show
          (listening.take (listening.coordinator.remoteUpdate data)).bound = _ from hleads.bound]
        exact hfirst.tell _
      have htold : (listening.tell data).Attached :=
        { ready := ⟨h.ready.connected, h.ready.faultless, h.ready.sound⟩
          accepts := h.accepts
          feeds := hfeeds
          stored := fun other hmem =>
            h.stored other (hannounced ▸ List.mem_cons_of_mem data (hrest ▸ hmem))
          consistent := hleads.consistent
          tracks := htracks }
      exact htold

/-! ## The server -/

theorem perform_push (hready : line.Ready) (data : CommitData) :
    BranchSession.perform project branch (.push data) line model =
      { line := { line with
          server := { line.server with store := (line.server.store.makeCommit data).1 } }
        model, response := .pushed (line.server.store.makeCommit data).2, stream := none } := by
  have htake : line.link.commitFaults.take = (line.link.commitFaults, none) := by
    rw [hready.faultless]
    rfl
  simp only [BranchSession.perform, Line.makeCommit, if_pos hready.connected, htake]
  rfl

theorem perform_deliver (haccepts : model.refusal = none) (hash : CommitHash)
    (data : CommitData) (reason : LoadReason) :
    BranchSession.perform project branch (.deliver hash (some data) reason) line model =
      { line, model := (model.load data reason).1, response := .delivered (.ok ())
        stream := none } := by
  simp [BranchSession.perform, Model.load, haccepts]

theorem exists_perform_fetch (hready : line.Ready) (haccepts : model.refusal = none)
    {hash : CommitHash} (hstored : line.server.store.Stored project hash) (reason : LoadReason) :
    ∃ data, BranchSession.perform project branch (.deliver hash none reason) line model =
      { line, model := (model.load data reason).1, response := .delivered (.ok ())
        stream := none } := by
  obtain ⟨found, hget, hcontains⟩ := hstored
  obtain ⟨data, hdata⟩ := Option.isSome_iff_exists.mp hcontains
  have hload : line.load project hash = (line, .ok data) := by
    simp [Line.load, Line.read, Line.ask, hready.connected, Line.carry, Store.load,
      Store.project_of_get? hget, hdata, bind, Except.bind, pure, Except.pure]
  refine ⟨data, ?_⟩
  simp [BranchSession.perform, hload, Model.load, haccepts]

theorem refusal_load (model : Model) (data : CommitData) (reason : LoadReason) :
    (model.load data reason).1.refusal = model.refusal := by
  unfold Model.load
  split <;> rfl

/-- Once a request is carried out, the client is bound where it was or for the head, unless
a head is announced. -/
theorem Attached.served (h : attachment.Attached) {outcome : BranchSession.Outcome}
    {later : Store} {move : Option CommitData}
    (hline : outcome.line = (attachment.withStore later).line)
    (hmoved : Store.Moved attachment.project attachment.branch attachment.stream attachment.store
      later move)
    (haccepts : outcome.model.refusal = none)
    (hconsistent : Coordinator.Consistent (later.Stored attachment.project)
      (Addressed attachment.project attachment.branch) attachment.coordinator.course
      (some (.answered outcome.response)))
    (hbound : move = none →
      attachment.coordinator.bound (some (.answered outcome.response)) = attachment.bound ∨
        attachment.head =
          some (attachment.coordinator.bound (some (.answered outcome.response)))) :
    (attachment.served outcome).Attached := by
  obtain ⟨servedLine, model, response, stream⟩ := outcome
  obtain rfl : servedLine = (attachment.withStore later).line := hline
  have hlater := h.withStore hmoved
  refine { hlater with accepts := haccepts, consistent := hconsistent, tracks := ?_ }
  refine hlater.tracks.serve fun hnil => ?_
  have hannounced : (attachment.withStore later).announced =
    attachment.announced ++ move.toList := hmoved.announced
  have hhead : (attachment.withStore later).head =
    (move.map (·.hash)).or attachment.head := hmoved.head
  cases move with
  | some data =>
      rw [hannounced] at hnil
      exact absurd hnil (List.append_ne_nil_of_right_ne_nil _ (List.cons_ne_nil _ _))
  | none =>
      rw [hhead]
      exact hbound rfl

theorem serve_of_answered {response : Response}
    (htransit : attachment.transit = some (.answered response)) :
    attachment.serve = attachment := by
  rw [Attachment.serve, htransit]

theorem serve_of_asked {request : Request} (htransit : attachment.transit = some (.asked request)) :
    attachment.serve = attachment.served (BranchSession.perform attachment.project
      attachment.branch request attachment.line attachment.model) := by
  rw [Attachment.serve, htransit]

theorem bound_of_asked {request : Request} (htransit : attachment.transit = some (.asked request)) :
    attachment.bound = attachment.coordinator.bound none := by
  rw [Attachment.bound, htransit]
  rfl

/-- A push that moves no head leaves the client bound where it was, or takes it to the head. -/
theorem answer_of_landed {stored : CommitHash → Prop} {data : CommitData} {head : CommitHash}
    {response : CommitResponse} {move : Option CommitData}
    (hlanded : Store.Landed data head response move) (hstored : stored data.hash)
    (htold : ∀ told, move = some told → stored told.hash) (coordinator : Coordinator) :
    let answered : Transit := .answered (.pushed (.ok response))
    Coordinator.PushTransit stored data answered ∧
      (move = none → coordinator.bound (some answered) = coordinator.bound none ∨
        head = coordinator.bound (some answered)) := by
  cases hlanded with
  | forked =>
      exact ⟨.forked, fun _ =>
        .inl (Coordinator.bound_of_confirmed (Coordinator.confirmed_forked ..))⟩
  | already hhead =>
      have hfound := coordinator.bound_eq_or_confirmed
        (some (.answered (.pushed (.ok (.of .synced data.hash)))))
      rw [Coordinator.confirmed_synced, ← hhead] at hfound
      exact ⟨.synced hstored, fun _ => hhead ▸ hfound.imp_right Eq.symm⟩
  | advanced told hsame => exact ⟨.synced hstored, fun hnone => nomatch hnone⟩
  | merged told => exact ⟨.merged hstored (htold told rfl), fun hnone => nomatch hnone⟩

/-- The answer to a push of this client.  The push is never dropped, as the commit that it
is made on is stored. -/
theorem exists_answer {store later : Store} {stream : SubscriptionId} {data : CommitData}
    {result : Except RemoteError CommitResponse} {base : CommitHash}
    (hpushed : Store.Pushed project branch stream store data (later, result))
    (haddressed : Addressed project branch data) (hparent : data.commit.parent? = some base)
    (hbase : store.Stored project base) (coordinator : Coordinator) :
    let answered : Transit := .answered (.pushed result)
    ∃ move, Store.Moved project branch stream store later move ∧
      Coordinator.PushTransit (later.Stored project) data answered ∧
      (move = none → coordinator.bound (some answered) = coordinator.bound none ∨
        store.headOf project branch = some (coordinator.bound (some answered))) := by
  obtain ⟨hproject, hname⟩ := haddressed
  cases hpushed with
  | refused herror hmoved => exact ⟨none, hmoved, .refused herror, fun _ => .inl rfl⟩
  | canceled hsome hunknown hmoved =>
      obtain rfl := Option.some.inj (hparent.symm.trans hsome)
      exact absurd (hproject ▸ hbase) hunknown
  | kept hbranch hmoved =>
      rw [hname] at hbranch
      cases hbranch
  | landed hbranch hhead hlanded hmoved hstored =>
      obtain rfl := Option.some.inj (hname.symm.trans hbranch)
      rw [if_pos (by rw [hproject])] at hmoved
      rw [hproject] at hhead hstored
      obtain ⟨hanswer, hbound⟩ :=
        answer_of_landed hlanded hstored hmoved.stored coordinator
      exact ⟨_, hmoved, hanswer, fun hnone =>
        (hbound hnone).imp_right fun hfound => hhead.trans (congrArg some hfound)⟩

theorem Attached.serve_push (h : attachment.Attached) {data : CommitData}
    {rest : List CommitData} (hhalt : attachment.coordinator.halt = none)
    (hgrounded : Coordinator.Grounded (attachment.store.Stored attachment.project)
      (Addressed attachment.project attachment.branch) attachment.coordinator.course)
    (hphase : attachment.coordinator.phase = .pushing data.hash)
    (hcommits : attachment.coordinator.branch.commits = data :: rest)
    (htransit : attachment.transit = some (.asked (.push data))) :
    attachment.serve.Attached := by
  have hqueue : attachment.coordinator.course.commits = data :: rest := hcommits
  have haddressed := hgrounded.addressed data (hqueue ▸ List.mem_cons_self)
  obtain ⟨base, hbase, hchain⟩ := hgrounded.chain
  rw [hqueue] at hchain
  have hpushed := Store.pushed_makeCommit h.ready.sound h.feeds data
  rw [serve_of_asked htransit, perform_push h.ready data]
  cases hmake : attachment.line.server.store.makeCommit data with
  | mk later result =>
      rw [hmake] at hpushed
      obtain ⟨move, hmoved, hanswer, hbound⟩ :=
        exists_answer hpushed haddressed hchain.1 hbase attachment.coordinator
      rw [← bound_of_asked htransit] at hbound
      have hconsistent := Coordinator.Consistent.running hhalt
        (hgrounded.mono (hmoved.kept attachment.project)) (.pushing hphase hcommits hanswer)
      let outcome : BranchSession.Outcome :=
        { line := (attachment.withStore later).line, model := attachment.model
          response := .pushed result, stream := none }
      have hserved : (attachment.served outcome).Attached :=
        h.served rfl hmoved h.accepts hconsistent hbound
      exact hserved

theorem Attached.serve_load (h : attachment.Attached) {request : Request} {data : CommitData}
    {reason : LoadReason} (htransit : attachment.transit = some (.asked request))
    (hperform : BranchSession.perform attachment.project attachment.branch request
      attachment.line attachment.model =
        { line := attachment.line, model := (attachment.model.load data reason).1
          response := .delivered (.ok ()), stream := none })
    (hconsistent : Coordinator.Consistent (attachment.store.Stored attachment.project)
      (Addressed attachment.project attachment.branch) attachment.coordinator.course
      (some (.answered (.delivered (.ok ()))))) : attachment.serve.Attached := by
  rw [serve_of_asked htransit, hperform]
  exact h.served rfl (Store.moved_refl h.ready.sound h.feeds)
    ((refusal_load ..).trans h.accepts) hconsistent fun _ => .inl (bound_of_asked htransit).symm

/-- The server goes on. -/
theorem Attached.serve (h : attachment.Attached) : attachment.serve.Attached := by
  cases htransit : attachment.transit with
  | none =>
      rw [Attachment.serve, htransit]
      exact h
  | some transit =>
      have hconsistent := h.consistent
      rw [htransit] at hconsistent
      cases hconsistent with
      | running hhalt hgrounded hunderway =>
          cases hunderway with
          | pushing hphase hcommits hpush =>
              cases hpush with
              | asked => exact h.serve_push hhalt hgrounded hphase hcommits htransit
              | _ => exact (serve_of_answered htransit).symm ▸ h
          | loading hphase hupdates hheads hload =>
              rcases hload with rfl | rfl
              · exact h.serve_load htransit (perform_deliver h.accepts ..)
                  (.running hhalt hgrounded (.loading hphase hupdates hheads (.inr rfl)))
              · exact (serve_of_answered htransit).symm ▸ h
          | merging hphase hstored hload =>
              rcases hload with rfl | rfl
              · obtain ⟨data, hfetch⟩ := exists_perform_fetch h.ready h.accepts hstored .merge
                exact h.serve_load htransit hfetch
                  (.running hhalt hgrounded (.merging hphase hstored (.inr rfl)))
              · exact (serve_of_answered htransit).symm ▸ h

/-! ## Runs -/

theorem Attached.step (h : attachment.Attached) (input : Input) :
    (attachment.step input).Attached := by
  cases input with
  | commit data => exact h.commit data
  | foreign data => exact h.foreign data
  | setHead project branch old new => exact h.setHead project branch old new
  | serve => exact h.serve
  | hear => exact h.hear
  | answer => exact h.answer

theorem Attached.run (h : attachment.Attached) (inputs : List Input) :
    (attachment.run inputs).Attached := by
  induction inputs generalizing attachment with
  | nil => exact h
  | cons input rest ih => exact ih (h.step input)

theorem Attached.heads (h : attachment.Attached) (hrest : attachment.AtRest) :
    attachment.coordinator.branch.localHead = attachment.coordinator.branch.originHead ∧
      (attachment.head = some attachment.coordinator.branch.localHead ↔
        attachment.strayed = false) := by
  obtain ⟨hheads, hbound⟩ := h.consistent.rests hrest.idle hrest.running
  have htracks := h.tracks
  rw [hrest.heard, Attachment.bound, hbound] at htracks
  exact ⟨hheads, htracks⟩

/-- A client at rest has the same head on both sides, and it is the head of the server
unless the client strayed. -/
theorem run_rests_at_head_iff (hready : line.Ready)
    (hattach : attach line project branch = some start) (inputs : List Input)
    (hrest : (start.run inputs).AtRest) :
    (start.run inputs).coordinator.branch.localHead =
        (start.run inputs).coordinator.branch.originHead ∧
      ((start.run inputs).head = some (start.run inputs).coordinator.branch.localHead ↔
        (start.run inputs).strayed = false) :=
  ((attached_attach hready hattach).run inputs).heads hrest

/-- A commit that was made on no other. -/
def rootCommit (id : CommitHash) : CommitData :=
  { projectId := "p", branchName := none, coreObjects := ∅, oldHash := none
    commit := { id, root := "", parents := [], updater := [], time := 0, message := ""
                branchName := none } }

/-- A server with a project that has two commits, and one of them on the branch `b`. -/
def ground : Line :=
  { server := { Server.start .never 0 with
      store := ((Store.start .never).createProject "p" "b" (rootCommit "#0")).createProject "p" "c"
        (rootCommit "#1") }
    link := .start "a" }

theorem ground_ready : ground.Ready :=
  have hstarted := (Store.sound_start .never).createProject "p" "b" (rootCommit "#0")
  ⟨rfl, rfl, hstarted.createProject "p" "c" (rootCommit "#1")⟩

/-- A commit that the client makes on another. -/
def madeOn (parent id : CommitHash) : CommitData :=
  let root := rootCommit id
  { root with branchName := some "b", commit := { root.commit with parents := [parent] } }

def firstHash : CommitHash := "#363ad51076f4f09661629c087a6c8482f4960c2a"

def secondHash : CommitHash := "#5434415b6e3f725d3aaaeb392f544029b126e276"

/-- The client makes two commits, and both are pushed before it hears of either.  It loads the
first again, and passes over that the second is the head. -/
def lateEchoes : List Input :=
  [.commit (madeOn "#0" firstHash), .commit (madeOn firstHash secondHash), .serve, .answer, .serve,
    .answer, .hear, .hear, .serve, .answer]

/-- The head goes away and comes back before the client has heard of it.  The client loads
where the head went, and passes over that it came back. -/
def thereAndBack : List Input :=
  [.setHead "p" "b" none "#1", .setHead "p" "b" none "#0", .hear, .hear, .serve, .answer]

/-- The client comes to rest at its first commit while the server has the second, and where the head
was while the head is elsewhere. -/
theorem run_rests_at_head_iff_strays :
    ∃ start, attach ground "p" "b" = some start ∧
      (start.run lateEchoes).coordinator.branch.localHead = firstHash ∧
      (start.run lateEchoes).head = some secondHash ∧
      ∀ inputs ∈ [lateEchoes, thereAndBack], (start.run inputs).AtRest ∧
        (start.run inputs).head ≠ some (start.run inputs).coordinator.branch.localHead := by
  have hheads : (attach ground "p" "b").map (fun start =>
      ((start.run lateEchoes).coordinator.branch.localHead, (start.run lateEchoes).head)) =
        some (firstHash, some secondHash) := by
    decide +kernel
  have hruns : ∀ inputs ∈ [lateEchoes, thereAndBack], (attach ground "p" "b").map (fun start =>
      let rest := start.run inputs
      (rest.coordinator.phase, rest.coordinator.connected, rest.coordinator.halt,
        rest.announced.isEmpty, rest.strayed)) = some (.idle, true, none, true, true) := by
    decide +kernel
  obtain ⟨start, hattach, hstart⟩ := Option.map_eq_some_iff.mp hheads
  obtain ⟨hlocal, hserver⟩ := Prod.mk.inj hstart
  refine ⟨start, hattach, hlocal, hserver, fun inputs hmem => ?_⟩
  have hrun := hruns inputs hmem
  rw [hattach, Option.map_some] at hrun
  simp only [Option.some.injEq, Prod.mk.injEq] at hrun
  obtain ⟨hidle, hconnected, hrunning, hheard, hstrayed⟩ := hrun
  have hrest : (start.run inputs).AtRest :=
    ⟨hidle, hconnected, hrunning, List.isEmpty_iff.mp hheard⟩
  obtain ⟨-, hhead⟩ := run_rests_at_head_iff ground_ready hattach inputs hrest
  refine ⟨hrest, fun hfound => ?_⟩
  rw [hhead.mp hfound] at hstrayed
  cases hstrayed

end Attachment

end Coauthor
