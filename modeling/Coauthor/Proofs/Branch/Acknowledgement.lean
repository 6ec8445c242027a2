import Coauthor.Proofs.Branch.Attachment
import Coauthor.Proofs.Branch.Settlement
import Coauthor.Proofs.Store.Growth

/-!
# What an answer vouches for

A request of a coordinator that forces no head lets the store grow, and the answer to it is true
of the store: an accepted commit is part of the branch, so is the head, and a commit that is the
common ancestor with a head is an ancestor of that head.  Since the store only grows, an answer
is still true when it is taken, however late.  So every commit that an answer settles as synced
or merged is part of the branch by then.
-/

namespace Coauthor

open Coordinator

/-- A commit that a coordinator may queue: it was made for the branch, and it expects no other
head than its parent. -/
structure CommitData.Regular (made : List Commit) (project : ProjectId) (branch : BranchName)
    (data : CommitData) : Prop where
  made : data.commit ∈ made
  plain : data.oldHash = none
  addressed : Attachment.Addressed project branch data

/-- A request that forces no head, and sends no other commits than those. -/
def Request.Regular (made : List Commit) (project : ProjectId) (branch : BranchName) :
    Request → Prop
  | .push data => data.Regular made project branch
  | .store data => data.commit ∈ made ∧ data.oldHash = none
  | .setHead .. => False
  | _ => True

/-- The answer fits the request, and the store bears out what it tells of the branch. -/
structure Response.Truthful (store : Store) (project : ProjectId) (branch : BranchName)
    (request : Request) (response : Response) : Prop where
  answers : response.answers request
  accepted : ∀ data result, request = .push data → response = .pushed (.ok result) →
    result.Accepts → store.OnBranch project branch data.hash
  head : ∀ head, response = .head (.ok (some head)) → store.OnBranch project branch head
  ancestor : ∀ queued head, request = .findAncestor queued head →
    response = .ancestor (.ok queued) → store.Descends project head queued

/-- The answer tells of a commit that it is part of the branch, or may do so. -/
def Response.vouches : Response → Bool
  | .pushed (.ok _) | .head (.ok (some _)) | .ancestor (.ok _) => true
  | _ => false

/-- The answer that tells of a fault instead of an outcome. -/
def Request.failed (error : RemoteError) : Request → Response
  | .push _ => .pushed (.error error)
  | .deliver .. => .delivered (.error (.remote error))
  | .subscribe => .subscribed (.error error)
  | .fetchHead => .head (.error error)
  | .findAncestor .. => .ancestor (.error error)
  | .store _ => .stored (.error error)
  | .createBranch .. => .branchCreated (.error error)
  | .setHead .. => .headSet (.error error)

variable {store later : Store} {made : List Commit} {project : ProjectId} {branch : BranchName}
  {request : Request} {response : Response} {line : Line} {data : CommitData} {hash : CommitHash}

/-- What was true stays true. -/
theorem Response.Truthful.grow (h : response.Truthful store project branch request)
    (hgrows : store.Grows later) : response.Truthful later project branch request where
  answers := h.answers
  accepted := fun data result hpush hpushed haccepts =>
    hgrows.onBranch (h.accepted data result hpush hpushed haccepts)
  head := fun head hhead => hgrows.onBranch (h.head head hhead)
  ancestor := fun queued head hfind hfound => hgrows.descends (h.ancestor queued head hfind hfound)

theorem Response.truthful_pushed {result : Except RemoteError CommitResponse}
    (h : ∀ response, result = .ok response → response.Accepts →
      store.OnBranch project branch data.hash) :
    (Response.pushed result).Truthful store project branch (.push data) where
  answers := rfl
  accepted := by
    rintro pushed response ⟨rfl⟩ hresponse haccepts
    exact h response (Response.pushed.inj hresponse) haccepts
  head := nofun
  ancestor := nofun

theorem Response.truthful_head {result : Except RemoteError (Option CommitHash)}
    (h : ∀ head, result = .ok (some head) → store.OnBranch project branch head) :
    (Response.head result).Truthful store project branch .fetchHead where
  answers := rfl
  accepted := nofun
  head := fun head hhead => h head (Response.head.inj hhead)
  ancestor := nofun

theorem Response.truthful_ancestor {result : Except RemoteError CommitHash}
    {queued head : CommitHash}
    (h : result = .ok queued → store.Descends project head queued) :
    (Response.ancestor result).Truthful store project branch (.findAncestor queued head) where
  answers := rfl
  accepted := nofun
  head := nofun
  ancestor := by
    rintro asked base ⟨rfl, rfl⟩ hancestor
    exact h (Response.ancestor.inj hancestor)

/-- Any other answer tells nothing of what is part of the branch. -/
theorem Response.truthful_of_silent (hanswers : response.answers request)
    (hsilent : response.vouches = false) : response.Truthful store project branch request where
  answers := hanswers
  accepted := by
    rintro data result - rfl
    cases hsilent
  head := by
    rintro head rfl
    cases hsilent
  ancestor := by
    rintro queued head - rfl
    cases hsilent

theorem Request.truthful_failed (store : Store) (project : ProjectId) (branch : BranchName)
    (request : Request) (error : RemoteError) :
    (request.failed error).Truthful store project branch request := by
  cases request <;> exact Response.truthful_of_silent rfl rfl

/-! ## Over a link -/

namespace Line

theorem read_eq {Value : Type} (line : Line) (request : Server → Except RemoteError Value) :
    line.read request =
      (line, if line.link.connection.isConnected then request line.server
        else .error .disconnected) := by
  unfold read ask
  split_ifs with hconnected
  · rfl
  · rfl

theorem disconnect_grows (line : Line) (h : line.server.store.Sound) :
    line.server.store.Grows line.disconnect.server.store :=
  (Store.Grows.refl h).of_projects rfl rfl

/-- A push over a link, with whatever fault: the store grows, and only a commit that is part of
its branch is answered as accepted. -/
theorem takes_makeCommit (h : line.server.store.Orderly made)
    (hlater : (line.makeCommit data).1.server.store.commitList ⊆ made)
    (hmade : data.commit ∈ made) (hold : data.oldHash = none) :
    line.server.store.Takes data
      ((line.makeCommit data).1.server.store, (line.makeCommit data).2) := by
  unfold makeCommit at hlater ⊢
  by_cases hconnected : line.link.connection.isConnected = true
  · rw [if_pos hconnected] at hlater ⊢
    have hdetached := line.disconnect_grows h.sound
    cases hfault : line.link.commitFaults.take.2 with
    | none =>
        simp only [hfault, askUnder, carry] at hlater ⊢
        exact Store.takes_makeCommit h hlater hmade hold
    | some fault =>
        cases fault with
        | loseRequest =>
            simp only [hfault, askUnder]
            exact Store.takes_of_error hdetached
        | loseResponse =>
            simp only [hfault, askUnder, carry] at hlater ⊢
            have horderly := h.grow hdetached h.stores
            have htakes := Store.takes_makeCommit horderly hlater hmade hold
            exact Store.takes_of_error (hdetached.trans htakes.grows)
  · rw [if_neg hconnected]
    exact Store.takes_of_error (.refl h.sound)

/-- A change over a link lets the store grow if it does so on the server. -/
theorem change_grows {Value : Type} (h : line.server.store.Sound)
    {request : Store → Except RemoteError (Store × Value)}
    (hchange : ∀ later value, request line.server.store = .ok (later, value) →
      line.server.store.Grows later) :
    line.server.store.Grows (line.change request).1.server.store := by
  unfold change ask carry
  split_ifs with hconnected
  · cases hrequest : request line.server.store with
    | error error =>
        simp only [hrequest]
        exact .refl h
    | ok changed =>
        simp only [hrequest]
        exact hchange changed.1 changed.2 hrequest
  · exact .refl h

end Line

/-! ## Requests that are carried out -/

namespace Store

theorem descends_of_commonAncestor (h : store.commonAncestor project hash head = .ok hash) :
    store.Descends project head hash := by
  cases hget : store.projects.get? project with
  | none => simp [commonAncestor, Store.project, hget, bind, Except.bind] at h
  | some found =>
      rcases commonAncestor_cases hget hash head with ⟨what, hrefused, -⟩ |
        ⟨ancestor, hok, hstored, -, hancestor⟩
      · cases hrefused.symm.trans h
      · obtain rfl := Except.ok.inj (hok.symm.trans h)
        exact ⟨found, hget, hstored, (Commits.reaches_of_commonAncestor? hancestor).2⟩

end Store

/-- Whatever is carried out lets the store grow, and the answer is true of it. -/
theorem Request.Regular.perform (h : request.Regular made project branch)
    (hstore : line.server.store.Orderly made) (model : Model)
    (hlater : (BranchSession.perform project branch request line model).line.server.store.commitList
      ⊆ made) :
    let outcome := BranchSession.perform project branch request line model
    line.server.store.Grows outcome.line.server.store ∧
      outcome.response.Truthful outcome.line.server.store project branch request := by
  cases request with
  | push data =>
      have htakes := Line.takes_makeCommit hstore hlater h.made h.plain
      obtain ⟨hproject, hbranch⟩ := h.addressed
      refine ⟨htakes.grows, Response.truthful_pushed fun response hresponse haccepts => ?_⟩
      exact hproject ▸ htakes.landed response hresponse haccepts branch hbranch
  | deliver hash data reason =>
      cases data with
      | some data => exact ⟨.refl hstore.sound, Response.truthful_of_silent rfl rfl⟩
      | none =>
          have hload := line.read_eq fun server => server.store.load project hash
          simp only [BranchSession.perform, Line.load, hload]
          cases (if line.link.connection.isConnected then line.server.store.load project hash
            else .error .disconnected) with
          | ok data => exact ⟨.refl hstore.sound, Response.truthful_of_silent rfl rfl⟩
          | error error => exact ⟨.refl hstore.sound, Response.truthful_of_silent rfl rfl⟩
  | subscribe =>
      have hgrows : line.server.store.Grows (line.watchBranch project branch).1.server.store := by
        apply Line.change_grows hstore.sound
        intro later stream hwatch
        exact Store.grows_watch hstore.sound hwatch
      simp only [BranchSession.perform]
      cases hwatch : line.watchBranch project branch with
      | mk watched result =>
          rw [hwatch] at hgrows
          cases result with
          | ok stream => exact ⟨hgrows, Response.truthful_of_silent rfl rfl⟩
          | error error => exact ⟨hgrows, Response.truthful_of_silent rfl rfl⟩
  | fetchHead =>
      simp only [BranchSession.perform, Line.branchHead, Line.read_eq]
      refine ⟨.refl hstore.sound, Response.truthful_head fun head hanswer => ?_⟩
      split_ifs at hanswer with hconnected
      exact Store.onBranch_head hstore.sound (Attachment.headOf_of_branchHead hanswer)
  | findAncestor queued head =>
      simp only [BranchSession.perform, Line.commonAncestor, Line.read_eq]
      refine ⟨.refl hstore.sound, Response.truthful_ancestor fun hanswer => ?_⟩
      split_ifs at hanswer with hconnected
      exact Store.descends_of_commonAncestor hanswer
  | store data =>
      have htakes := Line.takes_makeCommit hstore hlater h.1 h.2
      exact ⟨htakes.grows, Response.truthful_of_silent rfl rfl⟩
  | createBranch name hash =>
      refine ⟨?_, Response.truthful_of_silent rfl rfl⟩
      apply Line.change_grows hstore.sound
      intro later value hcreate
      cases hcreated : line.server.store.createBranch project name hash with
      | error error => simp [hcreated, Except.map] at hcreate
      | ok created =>
          obtain ⟨rfl, -⟩ := Prod.mk.inj (Except.ok.inj (hcreated ▸ hcreate))
          exact Store.grows_createBranch hstore.sound hcreated
  | setHead old new => exact h.elim

/-! ## Coordinators -/

namespace Coordinator

/-- The occasion queues no other commit than one for the branch, and forces no head. -/
def Occasion.Allowed (made : List Commit) (project : ProjectId) (branch : BranchName) :
    Occasion → Prop
  | .commit data => data.Regular made project branch
  | .resolve resolution => resolution ≠ .forcePush
  | _ => True

/-- What a coordinator has queued is for the branch, and what it has settled as accepted is part
of it. -/
structure Faithful (made : List Commit) (store : Store) (project : ProjectId) (branch : BranchName)
    (coordinator : Coordinator) : Prop where
  queued : ∀ data ∈ coordinator.branch.commits, data.Regular made project branch
  settled : ∀ hash status, .settled hash status ∈ coordinator.events → status.isAccepted →
    store.OnBranch project branch hash
  /-- A head with which a queued commit is compared is part of the branch. -/
  finding : ∀ head, coordinator.phase = .findingAncestor head → store.OnBranch project branch head
  unforced : ∀ stored, coordinator.phase ≠ .resolving .forcePush stored

variable {coordinator : Coordinator} {move : Move} {occasion : Occasion} {status : CommitStatus}

theorem faithful_start (made : List Commit) (store : Store) (project : ProjectId)
    (branch : BranchName) (head : CommitHash) :
    Faithful made store project branch (start project branch head) :=
  ⟨nofun, nofun, nofun, nofun⟩

theorem Faithful.grow (h : Faithful made store project branch coordinator)
    (hgrows : store.Grows later) : Faithful made later project branch coordinator where
  queued := h.queued
  settled := fun hash status hsettled haccepted =>
    hgrows.onBranch (h.settled hash status hsettled haccepted)
  finding := fun head hphase => hgrows.onBranch (h.finding head hphase)
  unforced := h.unforced

/-- Whatever a coordinator waits for forces no head. -/
theorem Faithful.regular (h : Faithful made store project branch coordinator)
    (hawaits : Awaits coordinator.course (some request)) : request.Regular made project branch := by
  cases request with
  | push data =>
      obtain ⟨-, rest, hcommits⟩ := hawaits.push
      have hqueue : coordinator.branch.commits = data :: rest := hcommits
      exact h.queued data (hqueue ▸ List.mem_cons_self)
  | store data =>
      obtain ⟨resolution, stored, queued, -, hqueued, rfl⟩ := hawaits.store
      exact ⟨(h.queued queued (List.mem_of_getElem? hqueued)).made, rfl⟩
  | setHead old new =>
      obtain ⟨-, stored, hphase⟩ := hawaits.setHead
      exact h.unforced stored hphase
  | deliver hash data reason => trivial
  | subscribe => trivial
  | fetchHead => trivial
  | findAncestor queued head => trivial
  | createBranch name hash => trivial

/-- A commit that is settled as accepted by an answer that is true is part of the branch. -/
theorem Faithful.onBranch_of_settles (h : Faithful made store project branch coordinator)
    (hawaits : Awaits coordinator.course (some request))
    (htruthful : response.Truthful store project branch request)
    (hsettles : Settles coordinator.rested coordinator.phase response hash status)
    (haccepted : status.isAccepted) : store.OnBranch project branch hash := by
  have hanswers := htruthful.answers
  generalize hphase : coordinator.phase = phase at hsettles
  cases hsettles with
  | pushed hstatus hhash =>
      cases request with
      | push data =>
          obtain ⟨hpushing, -⟩ := hawaits.push
          obtain rfl := Phase.pushing.inj (hphase.symm.trans hpushing)
          exact htruthful.accepted data _ rfl rfl ⟨status, hstatus, haccepted⟩
      | _ => cases hanswers
  | landed hcommits => exact htruthful.head _ rfl
  | recognised hcommits =>
      cases request with
      | findAncestor asked head =>
          obtain ⟨hfinding, data, rest, rfl, hqueued⟩ := hawaits.findAncestor
          obtain rfl := Phase.findingAncestor.inj (hphase.symm.trans hfinding)
          obtain ⟨rfl, -⟩ := List.cons.inj (hcommits.symm.trans hqueued)
          exact (h.finding _ hphase).descend (htruthful.ancestor _ _ rfl rfl)
      | _ => cases hanswers
  | forced hstatus hmem => exact absurd hphase (h.unforced _)
  | canceled => cases haccepted
  | diverged => cases haccepted
  | abandoned => cases haccepted
  | resolved => cases haccepted

/-- A true answer leaves nothing settled as accepted that is not part of the branch. -/
theorem Faithful.handle (h : Faithful made store project branch coordinator)
    (hawaits : Awaits coordinator.course (some request))
    (htruthful : response.Truthful store project branch request) :
    Faithful made store project branch (coordinator.handle response).1 := by
  obtain ⟨move, hhandled, hmove⟩ := hawaits.exists_handled htruthful.answers
  rw [hmove]
  refine ⟨fun data hmem => ?_, fun hash status hsettled haccepted => ?_, fun head hphase => ?_,
    fun stored hphase => ?_⟩
  · rw [commits_finish] at hmem
    exact h.queued data (hhandled.commits_suffix.subset hmem)
  · rw [mem_events_finish rfl] at hsettled
    rcases hhandled.settles hsettled with hbefore | hsettles
    · exact h.settled hash status hbefore haccepted
    · exact h.onBranch_of_settles hawaits htruthful hsettles haccepted
  · rw [phase_finish] at hphase
    exact htruthful.head head (hhandled.response_of_finding rfl hphase)
  · rw [phase_finish] at hphase
    obtain ⟨before, hbefore⟩ := hhandled.exists_of_resolving rfl hphase
    exact h.unforced before hbefore

/-- What a coordinator is told settles nothing as accepted. -/
theorem Faithful.react (h : Faithful made store project branch coordinator)
    (hallowed : occasion.Allowed made project branch)
    (hreact : coordinator.react occasion = some move) :
    Faithful made store project branch move.1 := by
  refine ⟨fun data hmem => ?_, fun hash status hsettled haccepted => ?_, fun head hphase => ?_,
    fun stored hphase => ?_⟩
  · rcases mem_commits_react hreact hmem with hbefore | rfl
    · exact h.queued data hbefore
    · exact hallowed
  · rcases settled_of_react hreact hsettled with hbefore | ⟨-, rfl⟩
    · exact h.settled hash status hbefore haccepted
    · cases haccepted
  · rcases phase_react hreact with hsame | hordinary | ⟨resolution, -, hresolving⟩
    · exact h.finding head (hsame.symm.trans hphase)
    · rw [hphase] at hordinary
      cases hordinary
    · cases hphase.symm.trans hresolving
  · rcases phase_react hreact with hsame | hordinary | ⟨resolution, rfl, hresolving⟩
    · exact h.unforced stored (hsame.symm.trans hphase)
    · rw [hphase] at hordinary
      cases hordinary
    · obtain ⟨rfl, -⟩ := Phase.resolving.inj (hphase.symm.trans hresolving)
      exact hallowed rfl

end Coordinator

end Coauthor
