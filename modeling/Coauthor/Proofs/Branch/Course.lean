import Coauthor.Branch.Coordinator
import Mathlib.Data.List.Basic
import Mathlib.Data.List.TakeWhile
import Mathlib.Tactic.Common

/-!
# Where a coordinator is bound

The head at which a coordinator comes to rest if it hears of nothing more: the last update
that waits, or else the head that the answer under way brings, or else the last head that
the server confirmed.  Of all that a coordinator does on its own, nothing changes this.
-/

namespace Coauthor

/-- What is under way between a coordinator and the server. -/
inductive Transit where
  | asked (request : Request)
  | answered (response : Response)

namespace Transit

/-- The head that an answer under way confirms, or else `origin`. -/
def confirmed (origin : CommitHash) : Option Transit → CommitHash
  | some (answered (.pushed (.ok response))) =>
      match response.status? with
      | some .synced => response.hash
      | some .merged => response.mergeHash.getD origin
      | _ => origin
  | _ => origin

end Transit

namespace Coordinator

/-- The part of a coordinator that decides what it does next. -/
structure Course where
  localHead : CommitHash
  originHead : CommitHash
  commits : List CommitData
  updates : List CommitData
  phase : Phase
  halt : Option Halt
  connected : Bool
  rejoinPending : Bool

/-- The head at which the coordinator comes to rest if it hears of nothing more. -/
def Course.bound (course : Course) (transit : Option Transit) : CommitHash :=
  match course.updates.getLast? with
  | some data => data.hash
  | none => Transit.confirmed course.originHead transit

def course (coordinator : Coordinator) : Course :=
  { localHead := coordinator.branch.localHead
    originHead := coordinator.branch.originHead
    commits := coordinator.branch.commits
    updates := coordinator.branch.updates
    phase := coordinator.phase
    halt := coordinator.halt
    connected := coordinator.connected
    rejoinPending := coordinator.rejoinPending }

@[simp]
theorem course_releaseWorkers (coordinator : Coordinator) :
    coordinator.releaseWorkers.course = coordinator.course := by
  unfold releaseWorkers
  split <;> (simp only []; split <;> rfl)

@[simp]
theorem course_refreshStatus (coordinator : Coordinator) :
    coordinator.refreshStatus.course = coordinator.course := by
  unfold refreshStatus
  simp only []
  split <;> rfl

@[simp]
theorem course_finish (move : Move) : (finish move).1.course = move.1.course := by
  rw [finish, course_refreshStatus, course_releaseWorkers]

def bound (coordinator : Coordinator) (transit : Option Transit) : CommitHash :=
  coordinator.course.bound transit

/-- An answer under way only matters if no update waits. -/
theorem bound_eq_or_confirmed (coordinator : Coordinator) (transit : Option Transit) :
    coordinator.bound transit = coordinator.bound none ∨
      coordinator.bound transit = Transit.confirmed coordinator.branch.originHead transit := by
  simp only [bound, Course.bound, course]
  cases coordinator.branch.updates.getLast? with
  | some data => exact .inl rfl
  | none => exact .inr rfl

theorem bound_of_confirmed {coordinator : Coordinator} {transit : Option Transit}
    (hconfirmed : Transit.confirmed coordinator.branch.originHead transit =
      coordinator.branch.originHead) : coordinator.bound transit = coordinator.bound none := by
  simp only [bound, Course.bound, course, hconfirmed]
  rfl

/-! ## What the coordinator waits for -/

/-- Commits that lead from `base` to `head`, each made on the one before. -/
def Chain : CommitHash → List CommitData → CommitHash → Prop
  | base, [], head => head = base
  | base, data :: rest, head => data.commit.parent? = some base ∧ Chain data.hash rest head

theorem Chain.append {base head : CommitHash} {commits : List CommitData} {data : CommitData}
    (h : Chain base commits head) (hparent : data.commit.parent? = some head) :
    Chain base (commits ++ [data]) data.hash := by
  induction commits generalizing base with
  | nil =>
      obtain rfl : head = base := h
      exact ⟨hparent, rfl⟩
  | cons first rest ih => exact ⟨h.1, ih h.2⟩

/-- A push on its way, and the answers that a server can give to it. -/
inductive PushTransit (stored : CommitHash → Prop) (data : CommitData) : Transit → Prop where
  | asked : PushTransit stored data (.asked (.push data))
  | refused {error : RemoteError} (herror : error.isTransport = false) :
      PushTransit stored data (.answered (.pushed (.error error)))
  | forked : PushTransit stored data (.answered (.pushed (.ok (.of .forked data.hash))))
  | synced (hstored : stored data.hash) :
      PushTransit stored data (.answered (.pushed (.ok (.of .synced data.hash))))
  | merged {merge : CommitHash} (hstored : stored data.hash) (hmerge : stored merge) :
      PushTransit stored data (.answered (.pushed (.ok (.merged data.hash merge))))

/-- What is under way fits the phase, and a coordinator at rest has nothing left to do. -/
inductive Underway (stored : CommitHash → Prop) (course : Course) : Option Transit → Prop where
  | resting (hphase : course.phase = .idle) (hcommits : course.commits = [])
      (hupdates : course.updates = []) (hheads : course.localHead = course.originHead) :
      Underway stored course none
  | pushing {data : CommitData} {rest : List CommitData} {transit : Transit}
      (hphase : course.phase = .pushing data.hash) (hcommits : course.commits = data :: rest)
      (htransit : PushTransit stored data transit) : Underway stored course (some transit)
  | loading {data : CommitData} {rest : List CommitData} {transit : Transit}
      (hphase : course.phase = .pulling .update data.hash)
      (hupdates : course.updates = data :: rest)
      (hheads : course.commits = [] → course.localHead = course.originHead)
      (htransit : transit = .asked (.deliver data.hash (some data) .update) ∨
        transit = .answered (.delivered (.ok ()))) : Underway stored course (some transit)
  | merging {transit : Transit} (hphase : course.phase = .pulling .merge course.originHead)
      (hstored : stored course.originHead)
      (htransit : transit = .asked (.deliver course.originHead none .merge) ∨
        transit = .answered (.delivered (.ok ()))) : Underway stored course (some transit)

/-! ## What comes next -/

variable {coordinator : Coordinator}

theorem next_eq_work (hphase : coordinator.phase = .idle)
    (hconnected : coordinator.connected = true) (hrejoin : coordinator.rejoinPending = false)
    (hhalt : coordinator.halt = none) : coordinator.next = coordinator.work := by
  simp [next, hphase, hconnected, hrejoin, hhalt]

theorem work_of_cons {data : CommitData} {rest : List CommitData}
    (hcommits : coordinator.branch.commits = data :: rest) :
    coordinator.work = coordinator.push data := by
  simp only [work, hcommits]

/-- The updates that are left once those that are heads already are skipped. -/
def due (coordinator : Coordinator) : List CommitData :=
  coordinator.branch.updates.dropWhile (coordinator.branch.isHead ·.hash)

/-- The same coordinator without the updates that are heads already. -/
def skip (coordinator : Coordinator) : Coordinator :=
  { coordinator with branch := { coordinator.branch with updates := coordinator.due } }

/-- Skipping leaves the last update in place, or nothing but the head. -/
theorem bound_skip (hheads : coordinator.branch.localHead = coordinator.branch.originHead) :
    coordinator.skip.bound none = coordinator.bound none := by
  have hsplit : coordinator.branch.updates =
      coordinator.branch.updates.takeWhile (coordinator.branch.isHead ·.hash) ++ coordinator.due :=
    (List.takeWhile_append_dropWhile ..).symm
  cases hdue : coordinator.due with
  | cons data rest =>
      have hlast : coordinator.due.getLast? = coordinator.branch.updates.getLast? := by
        rw [hsplit, List.getLast?_append_of_ne_nil _ (hdue ▸ List.cons_ne_nil data rest)]
      simp only [bound, Course.bound, course, skip, hlast]
  | nil =>
      have hskipped : coordinator.skip.bound none = coordinator.branch.originHead := by
        simp only [bound, Course.bound, course, skip, hdue, List.getLast?_nil]
        rfl
      rw [hskipped]
      simp only [bound, Course.bound, course]
      cases hlast : coordinator.branch.updates.getLast? with
      | none => rfl
      | some data =>
          have hhead := List.dropWhile_eq_nil_iff.mp hdue data (List.mem_of_getLast? hlast)
          simp only [Branch.isHead, hheads, Bool.or_self, decide_eq_true_eq] at hhead
          exact hhead.symm

theorem work_of_nil (hcommits : coordinator.branch.commits = []) :
    coordinator.work = match coordinator.due with
      | [] => (coordinator.skip, none)
      | data :: _ => coordinator.skip.pull data.hash data .update := by
  have hwork : coordinator.work = match coordinator.due.head? with
      | some data => coordinator.skip.pull data.hash data .update
      | none => (coordinator.skip, none) := by
    unfold work
    split
    · rename_i hcons
      rw [hcommits] at hcons
      cases hcons
    · rfl
  rw [hwork]
  cases coordinator.due <;> rfl

/-- A coordinator with nothing under way starts what is due, and stays bound for the same
head. -/
theorem exists_work (stored : CommitHash → Prop) (hphase : coordinator.phase = .idle)
    (hheads : coordinator.branch.commits = [] →
      coordinator.branch.localHead = coordinator.branch.originHead) :
    ∃ phase updates,
      coordinator.work.1.course = { coordinator.course with phase, updates } ∧
      updates ⊆ coordinator.branch.updates ∧
      Underway stored coordinator.work.1.course (coordinator.work.2.map .asked) ∧
      coordinator.work.1.bound (coordinator.work.2.map .asked) = coordinator.bound none := by
  cases hcommits : coordinator.branch.commits with
  | cons data rest =>
      rw [work_of_cons hcommits]
      exact ⟨_, _, rfl, List.Subset.refl _, .pushing rfl hcommits .asked, rfl⟩
  | nil =>
      have hsame := hheads hcommits
      have hsubset : coordinator.due ⊆ coordinator.branch.updates := List.dropWhile_subset _
      have hbound := bound_skip hsame
      rw [work_of_nil hcommits]
      cases hdue : coordinator.due with
      | nil =>
          rw [hdue] at hsubset
          refine ⟨.idle, [], ?_, hsubset, .resting hphase hcommits hdue hsame, hbound⟩
          simp [course, skip, hdue, hphase]
      | cons data rest =>
          rw [hdue] at hsubset
          refine ⟨.pulling .update data.hash, data :: rest, ?_, hsubset,
            .loading rfl hdue (fun _ => hsame) (.inl rfl), hbound⟩
          simp only [course, skip, pull, hdue]

/-! ## Consistency -/

/-- A coordinator that was never interrupted: its queued commits start at a stored commit
and are made on this branch, and the updates that wait are stored. -/
structure Grounded (stored : CommitHash → Prop) (addressed : CommitData → Prop)
    (course : Course) : Prop where
  connected : course.connected = true
  settled : course.rejoinPending = false
  chain : ∃ base, stored base ∧ Chain base course.commits course.localHead
  addressed : ∀ data ∈ course.commits, addressed data
  updates : ∀ data ∈ course.updates, stored data.hash

/-- The course of a coordinator and what is under way fit together. -/
inductive Consistent (stored : CommitHash → Prop) (addressed : CommitData → Prop)
    (course : Course) : Option Transit → Prop where
  /-- A coordinator that has stopped waits for nothing. -/
  | halted (hhalt : course.halt.isSome) (hphase : course.phase = .idle)
      (hsettled : course.rejoinPending = false) : Consistent stored addressed course none
  | running {transit : Option Transit} (hhalt : course.halt = none)
      (hgrounded : Grounded stored addressed course)
      (hunderway : Underway stored course transit) : Consistent stored addressed course transit

/-- What is under way after a move. -/
def after (move : Move) (transit : Option Transit) : Option Transit :=
  (move.2.map .asked).or transit

/-- A move leaves things consistent and the coordinator bound for `head`. -/
structure Leads (stored : CommitHash → Prop) (addressed : CommitData → Prop) (move : Move)
    (transit : Option Transit) (head : CommitHash) : Prop where
  consistent : Consistent stored addressed move.1.course (after move transit)
  bound : move.1.bound (after move transit) = head

variable {stored : CommitHash → Prop} {addressed : CommitData → Prop} {transit : Option Transit}
  {data : CommitData} {rest : List CommitData} {move : Move} {head : CommitHash}

theorem consistent_start (project : ProjectId) (name : BranchName) (hhead : stored head) :
    Consistent stored addressed (start project name head).course none :=
  .running rfl
    ⟨rfl, rfl, ⟨head, hhead, rfl⟩, List.forall_mem_nil _, List.forall_mem_nil _⟩
    (.resting rfl rfl rfl rfl)

theorem Leads.finish (h : Leads stored addressed move transit head) :
    Leads stored addressed (finish move) transit head := by
  have hcourse := course_finish move
  refine ⟨hcourse.symm ▸ h.consistent, ?_⟩
  rw [← h.bound]
  exact congrArg (Course.bound · (after move transit)) hcourse

theorem next_of_busy (hphase : coordinator.phase ≠ .idle) :
    coordinator.next = (coordinator, none) := by
  simp [next, hphase]

theorem next_of_halted (hhalt : coordinator.halt.isSome)
    (hsettled : coordinator.rejoinPending = false) : coordinator.next = (coordinator, none) := by
  simp [next, hhalt, hsettled]

/-- With nothing under way a coordinator starts what is due. -/
theorem leads_next (hphase : coordinator.phase = .idle) (hhalt : coordinator.halt = none)
    (hgrounded : Grounded stored addressed coordinator.course)
    (hheads : coordinator.branch.commits = [] →
      coordinator.branch.localHead = coordinator.branch.originHead) :
    Leads stored addressed coordinator.next none (coordinator.bound none) := by
  rw [next_eq_work hphase hgrounded.connected hgrounded.settled hhalt]
  obtain ⟨phase, updates, hcourse, hsubset, hunderway, hbound⟩ :=
    exists_work stored hphase hheads
  have hafter : after coordinator.work none = coordinator.work.2.map .asked := Option.or_none
  refine ⟨.running ((congrArg Course.halt hcourse).trans hhalt) ?_ (hafter.symm ▸ hunderway),
    hafter.symm ▸ hbound⟩
  rw [hcourse]
  exact { hgrounded with updates := fun data hmem => hgrounded.updates data (hsubset hmem) }

/-- A coordinator that waits goes on waiting. -/
theorem leads_busy (hphase : coordinator.phase ≠ .idle)
    (hconsistent : Consistent stored addressed coordinator.course transit) :
    Leads stored addressed coordinator.next transit (coordinator.bound transit) := by
  rw [next_of_busy hphase]
  exact ⟨hconsistent, rfl⟩

theorem leads_halted (hhalt : coordinator.halt.isSome) (hphase : coordinator.phase = .idle)
    (hsettled : coordinator.rejoinPending = false) :
    Leads stored addressed coordinator.next none (coordinator.bound none) := by
  rw [next_of_halted hhalt hsettled]
  exact ⟨.halted hhalt hphase hsettled, rfl⟩

/-! ## Inputs -/

/-- More commits or updates may be queued while something is under way. -/
theorem Underway.queue {course queued : Course} (h : Underway stored course transit)
    (hphase : queued.phase = course.phase) (horigin : queued.originHead = course.originHead)
    (hcommits : course.commits <+: queued.commits) (hupdates : course.updates <+: queued.updates)
    (hheads : queued.commits = [] → queued.localHead = course.localHead) :
    (transit = none ∧ queued.phase = .idle ∧
        (queued.commits = [] → queued.localHead = queued.originHead)) ∨
      (queued.phase ≠ .idle ∧ Underway stored queued transit) := by
  have hsame : (course.commits = [] → course.localHead = course.originHead) →
      queued.commits = [] → queued.localHead = queued.originHead := fun hold hnil => by
    rw [hheads hnil, horigin]
    exact hold (List.prefix_nil.mp (hnil ▸ hcommits))
  cases h with
  | resting hidle _ _ hold => exact .inl ⟨rfl, hphase.trans hidle, hsame fun _ => hold⟩
  | pushing hpushing hfirst htransit =>
      obtain ⟨more, hmore⟩ := hcommits
      rw [hfirst, List.cons_append] at hmore
      exact .inr ⟨by simp [hphase, hpushing], .pushing (hphase.trans hpushing) hmore.symm htransit⟩
  | loading hloading hfirst hold htransit =>
      obtain ⟨more, hmore⟩ := hupdates
      rw [hfirst, List.cons_append] at hmore
      exact .inr ⟨by simp [hphase, hloading],
        .loading (hphase.trans hloading) hmore.symm (hsame hold) htransit⟩
  | merging hmerging hstored htransit =>
      rw [← horigin] at hmerging hstored htransit
      exact .inr ⟨by simp [hphase, hmerging],
        .merging (hphase.trans hmerging) hstored htransit⟩

/-- What is queued is started if nothing is under way, and waits otherwise. -/
theorem leads_queued {course : Course} (h : Underway stored course transit)
    (hhalt : coordinator.halt = none)
    (hgrounded : Grounded stored addressed coordinator.course)
    (hphase : coordinator.course.phase = course.phase)
    (horigin : coordinator.course.originHead = course.originHead)
    (hcommits : course.commits <+: coordinator.course.commits)
    (hupdates : course.updates <+: coordinator.course.updates)
    (hheads : coordinator.course.commits = [] →
      coordinator.course.localHead = course.localHead) :
    Leads stored addressed coordinator.next transit (coordinator.bound transit) := by
  rcases h.queue hphase horigin hcommits hupdates hheads with
    ⟨rfl, hidle, hsame⟩ | ⟨hbusy, hunderway⟩
  · exact leads_next hidle hhalt hgrounded hsame
  · exact leads_busy hbusy (.running hhalt hgrounded hunderway)

/-- A local commit leaves the coordinator bound for the same head. -/
theorem Consistent.commitLocally (h : Consistent stored addressed coordinator.course transit)
    (haddressed : addressed data) (hcommit : coordinator.commitLocally data = .ok move) :
    Leads stored addressed move transit (coordinator.bound transit) := by
  unfold Coordinator.commitLocally at hcommit
  by_cases hparent : data.commit.parent? = some coordinator.branch.localHead
  swap
  · rw [if_neg hparent] at hcommit
    cases hcommit
  rw [if_pos hparent] at hcommit
  obtain rfl := Except.ok.inj hcommit
  let queued : Coordinator := { coordinator with
    branch := { coordinator.branch.queueCommit data with localHead := data.hash } }
  suffices hnext : Leads stored addressed queued.next transit (queued.bound transit) from
    hnext.finish
  cases h with
  | halted hhalt hphase hsettled =>
      have hstopped : queued.halt.isSome := hhalt
      exact leads_halted hstopped hphase hsettled
  | running hhalt hgrounded hunderway =>
      obtain ⟨base, hbase, hchain⟩ := hgrounded.chain
      have hqueued : Grounded stored addressed queued.course :=
        { hgrounded with
          chain := ⟨base, hbase, hchain.append hparent⟩
          addressed := fun other hmem => by
            rcases List.mem_append.mp hmem with hmem | hmem
            · exact hgrounded.addressed other hmem
            · exact List.mem_singleton.mp hmem ▸ haddressed }
      have hbusy : queued.branch.commits ≠ [] :=
        List.append_ne_nil_of_right_ne_nil _ (List.cons_ne_nil _ _)
      exact leads_queued hunderway hhalt hqueued rfl rfl (List.prefix_append ..)
        List.prefix_rfl fun hnil => absurd hnil hbusy

/-- An announced head that is not known becomes the one that the coordinator is bound for;
one that is known changes nothing. -/
theorem Consistent.remoteUpdate (h : Consistent stored addressed coordinator.course transit)
    (hstored : stored data.hash) :
    Leads stored addressed (coordinator.remoteUpdate data) transit
      (if coordinator.branch.knows data.hash then coordinator.bound transit else data.hash) := by
  unfold Coordinator.remoteUpdate
  by_cases hknown : coordinator.branch.knows data.hash
  · rw [if_pos hknown, if_pos hknown]
    exact ⟨h, rfl⟩
  rw [if_neg hknown, if_neg hknown]
  let queued : Coordinator := { coordinator with branch := coordinator.branch.queueUpdate data }
  have hbound : queued.bound transit = data.hash := by
    simp [queued, bound, Course.bound, course, Branch.queueUpdate]
  suffices hnext : Leads stored addressed queued.next transit (queued.bound transit) from
    (hbound ▸ hnext).finish
  cases h with
  | halted hhalt hphase hsettled =>
      have hstopped : queued.halt.isSome := hhalt
      exact leads_halted hstopped hphase hsettled
  | running hhalt hgrounded hunderway =>
      have hqueued : Grounded stored addressed queued.course :=
        { hgrounded with
          updates := fun other hmem => by
            rcases List.mem_append.mp hmem with hmem | hmem
            · exact hgrounded.updates other hmem
            · exact List.mem_singleton.mp hmem ▸ hstored }
      exact leads_queued hunderway hhalt hqueued rfl rfl List.prefix_rfl
        (List.prefix_append ..) fun _ => rfl

/-! ## Answers -/

/-- The coordinator with nothing under way. -/
def rested (coordinator : Coordinator) : Coordinator := { coordinator with phase := .idle }

theorem handle_pushed {hash : CommitHash} (hphase : coordinator.phase = .pushing hash)
    (result : Except RemoteError CommitResponse) :
    coordinator.handle (.pushed result) = finish (coordinator.rested.onPushed hash result) := by
  simp only [handle, hphase, answer?]
  rfl

theorem handle_delivered {reason : LoadReason} {hash : CommitHash}
    (hphase : coordinator.phase = .pulling reason hash) (result : Except DeliveryError Unit) :
    coordinator.handle (.delivered result) =
      finish (coordinator.rested.onDelivered reason hash result) := by
  simp only [handle, hphase, answer?]
  rfl

theorem handle_subscribed (hphase : coordinator.phase = .subscribing)
    (result : Except RemoteError Unit) :
    coordinator.handle (.subscribed result) =
      finish (coordinator.rested.onSubscribed result) := by
  simp only [handle, hphase, answer?]
  rfl

theorem handle_head (hphase : coordinator.phase = .fetchingHead)
    (result : Except RemoteError (Option CommitHash)) :
    coordinator.handle (.head result) = finish (coordinator.rested.onHead result) := by
  simp only [handle, hphase, answer?]
  rfl

theorem handle_ancestor {head : CommitHash} (hphase : coordinator.phase = .findingAncestor head)
    (result : Except RemoteError CommitHash) :
    coordinator.handle (.ancestor result) =
      finish (coordinator.rested.onAncestor head result) := by
  simp only [handle, hphase, answer?]
  rfl

theorem onPushed_forked (coordinator : Coordinator) (hash : CommitHash) :
    coordinator.onPushed hash (.ok (.of .forked hash)) = coordinator.fork hash none := by
  simp [onPushed, CommitResponse.of, CommitResponse.status?, CommitStatus.ofText?_text]

theorem onPushed_synced (coordinator : Coordinator) (hash : CommitHash) :
    coordinator.onPushed hash (.ok (.of .synced hash)) = (coordinator.confirm hash).next := by
  simp [onPushed, CommitResponse.of, CommitResponse.status?, CommitStatus.ofText?_text]

/-- The coordinator behind the answer that its first commit was merged. -/
def takeMerge (coordinator : Coordinator) (hash merge : CommitHash) : Coordinator :=
  { coordinator with
      branch := { coordinator.branch.dropCommit with originHead := merge } }.settle hash .merged

theorem onPushed_merged (coordinator : Coordinator) (hash merge : CommitHash) :
    coordinator.onPushed hash (.ok (.merged hash merge)) =
      (coordinator.takeMerge hash merge).pull merge none .merge := by
  simp [onPushed, CommitResponse.merged, CommitResponse.status?, CommitStatus.ofText?_text,
    takeMerge]

theorem confirmed_synced (hash origin : CommitHash) :
    Transit.confirmed origin (some (.answered (.pushed (.ok (.of .synced hash))))) = hash := by
  simp [Transit.confirmed, CommitResponse.of, CommitResponse.status?, CommitStatus.ofText?_text]

theorem confirmed_merged (hash merge origin : CommitHash) :
    Transit.confirmed origin (some (.answered (.pushed (.ok (.merged hash merge))))) = merge := by
  simp [Transit.confirmed, CommitResponse.merged, CommitResponse.status?,
    CommitStatus.ofText?_text]

theorem confirmed_forked (hash origin : CommitHash) :
    Transit.confirmed origin (some (.answered (.pushed (.ok (.of .forked hash))))) = origin := by
  simp [Transit.confirmed, CommitResponse.of, CommitResponse.status?, CommitStatus.ofText?_text]

/-- A coordinator that stops asks for nothing more. -/
theorem leads_stop (stopped : Coordinator) (hhalt : stopped.halt.isSome)
    (hphase : stopped.phase = .idle) (hsettled : stopped.rejoinPending = false) :
    Leads stored addressed (stopped, none) none (stopped.bound none) :=
  ⟨.halted hhalt hphase hsettled, rfl⟩

/-- Once the first queued commit is part of the branch, the rest starts from it. -/
theorem Grounded.dropCommit {course : Course} (h : Grounded stored addressed course)
    (hcommits : course.commits = data :: rest) (hstored : stored data.hash) :
    Grounded stored addressed { course with commits := course.commits.tail } := by
  obtain ⟨base, -, hchain⟩ := h.chain
  rw [hcommits] at hchain
  exact { h with
    chain := ⟨data.hash, hstored, hcommits ▸ hchain.2⟩
    addressed := fun other hmem => h.addressed other (List.mem_of_mem_tail hmem) }

theorem Grounded.head_of_singleton {course : Course} (h : Grounded stored addressed course)
    (hcommits : course.commits = [data]) : course.localHead = data.hash := by
  obtain ⟨base, -, hchain⟩ := h.chain
  rw [hcommits] at hchain
  exact hchain.2

/-- A refused push stops the coordinator. -/
theorem leads_refused (hsettled : coordinator.rejoinPending = false)
    (hhalt : coordinator.halt = none) (hphase : coordinator.phase = .pushing data.hash)
    {error : RemoteError} (herror : error.isTransport = false) :
    Leads stored addressed (coordinator.handle (.pushed (.error error))) none
      (coordinator.bound (some (.answered (.pushed (.error error))))) := by
  rw [handle_pushed hphase]
  simp only [onPushed, herror]
  refine (leads_stop (coordinator.rested.fail (.remote error)).1 ?_ rfl hsettled).finish
  simp [fail, emit, isForked, rested, hhalt]

/-- So does a fork. -/
theorem leads_forked (hsettled : coordinator.rejoinPending = false)
    (hphase : coordinator.phase = .pushing data.hash) :
    Leads stored addressed (coordinator.handle (.pushed (.ok (.of .forked data.hash)))) none
      (coordinator.bound (some (.answered (.pushed (.ok (.of .forked data.hash)))))) := by
  rw [handle_pushed hphase, onPushed_forked, bound_of_confirmed (confirmed_forked ..)]
  exact (leads_stop (coordinator.rested.fork data.hash none).1 rfl rfl hsettled).finish

/-- Behind a commit that is the head now, the next one is pushed. -/
theorem leads_synced (hgrounded : Grounded stored addressed coordinator.course)
    (hhalt : coordinator.halt = none) (hphase : coordinator.phase = .pushing data.hash)
    (hcommits : coordinator.branch.commits = data :: rest) (hstored : stored data.hash) :
    Leads stored addressed (coordinator.handle (.pushed (.ok (.of .synced data.hash)))) none
      (coordinator.bound (some (.answered (.pushed (.ok (.of .synced data.hash)))))) := by
  rw [handle_pushed hphase, onPushed_synced]
  let confirmed := coordinator.rested.confirm data.hash
  have hdropped := hgrounded.dropCommit hcommits hstored
  have hconfirmed : Grounded stored addressed confirmed.course :=
    ⟨hdropped.connected, hgrounded.settled, hdropped.chain, hdropped.addressed, hdropped.updates⟩
  have hphase' : confirmed.phase = .idle := rfl
  have hhalt' : confirmed.halt = none := hhalt
  have hbound : confirmed.bound none =
      coordinator.bound (some (.answered (.pushed (.ok (.of .synced data.hash))))) := by
    simp only [bound, Course.bound, confirmed_synced]
    rfl
  rw [← hbound]
  refine (leads_next hphase' hhalt' hconfirmed fun hnil => ?_).finish
  have hrest : rest = [] := (congrArg List.tail hcommits).symm.trans hnil
  exact hgrounded.head_of_singleton (hrest ▸ hcommits)

/-- A merge that the server made is loaded at once. -/
theorem leads_merged (hgrounded : Grounded stored addressed coordinator.course)
    (hhalt : coordinator.halt = none) (hphase : coordinator.phase = .pushing data.hash)
    (hcommits : coordinator.branch.commits = data :: rest) (hstored : stored data.hash)
    {merge : CommitHash} (hmerge : stored merge) :
    Leads stored addressed (coordinator.handle (.pushed (.ok (.merged data.hash merge)))) none
      (coordinator.bound (some (.answered (.pushed (.ok (.merged data.hash merge)))))) := by
  rw [handle_pushed hphase, onPushed_merged]
  let merged := coordinator.rested.takeMerge data.hash merge
  have hdropped := hgrounded.dropCommit hcommits hstored
  have hmerged : Grounded stored addressed (merged.pull merge none .merge).1.course :=
    ⟨hdropped.connected, hgrounded.settled, hdropped.chain, hdropped.addressed, hdropped.updates⟩
  have hleads : Leads stored addressed (merged.pull merge none .merge) none
      (coordinator.bound (some (.answered (.pushed (.ok (.merged data.hash merge)))))) := by
    refine ⟨.running hhalt hmerged (.merging rfl hmerge (.inl rfl)), ?_⟩
    simp only [bound, Course.bound, confirmed_merged]
    rfl
  exact hleads.finish

/-- The answer to a push leaves the coordinator bound for the same head, also if it stops. -/
theorem leads_onPushed {response : Response}
    (hgrounded : Grounded stored addressed coordinator.course)
    (hhalt : coordinator.halt = none) (hphase : coordinator.phase = .pushing data.hash)
    (hcommits : coordinator.branch.commits = data :: rest)
    (htransit : PushTransit stored data (.answered response)) :
    Leads stored addressed (coordinator.handle response) none
      (coordinator.bound (some (.answered response))) := by
  cases htransit with
  | refused herror => exact leads_refused hgrounded.settled hhalt hphase herror
  | forked => exact leads_forked hgrounded.settled hphase
  | synced hstored => exact leads_synced hgrounded hhalt hphase hcommits hstored
  | merged hstored hmerge => exact leads_merged hgrounded hhalt hphase hcommits hstored hmerge

theorem adopt_of_nil (hcommits : coordinator.branch.commits = []) (hash : CommitHash) :
    (coordinator.adopt hash).course =
      { coordinator.course with localHead := hash, originHead := hash } := by
  simp [adopt, course, hcommits]

theorem adopt_of_cons (hcommits : coordinator.branch.commits ≠ []) (hash : CommitHash) :
    (coordinator.adopt hash).course = { coordinator.course with originHead := hash } := by
  simp [adopt, course, hcommits]

theorem bound_adopt (coordinator : Coordinator) (hash : CommitHash) :
    (coordinator.adopt hash).bound none =
      match coordinator.branch.updates.getLast? with
      | some data => data.hash
      | none => hash := by
  rw [bound]
  by_cases hcommits : coordinator.branch.commits = []
  · rw [adopt_of_nil hcommits]
    rfl
  · rw [adopt_of_cons hcommits]
    rfl

/-- A commit that was loaded becomes the head that the server confirmed, and what is due
starts from there. -/
theorem leads_adopt (hgrounded : Grounded stored addressed coordinator.course)
    (hhalt : coordinator.halt = none) (hphase : coordinator.phase = .idle) {hash : CommitHash}
    (hstored : stored hash) :
    Leads stored addressed (coordinator.adopt hash).next none
      ((coordinator.adopt hash).bound none) := by
  by_cases hcommits : coordinator.branch.commits = []
  · have hcourse := adopt_of_nil hcommits hash
    have hadopted : Grounded stored addressed (coordinator.adopt hash).course := by
      rw [hcourse]
      have hchain : Chain hash coordinator.course.commits hash := by
        rw [show coordinator.course.commits = [] from hcommits]
        rfl
      exact { hgrounded with chain := ⟨hash, hstored, hchain⟩ }
    exact leads_next ((congrArg Course.phase hcourse).trans hphase)
      ((congrArg Course.halt hcourse).trans hhalt) hadopted fun _ =>
        (congrArg Course.localHead hcourse).trans (congrArg Course.originHead hcourse).symm
  · have hcourse := adopt_of_cons hcommits hash
    have hadopted : Grounded stored addressed (coordinator.adopt hash).course := by
      rw [hcourse]
      exact { hgrounded with }
    exact leads_next ((congrArg Course.phase hcourse).trans hphase)
      ((congrArg Course.halt hcourse).trans hhalt) hadopted fun hnil =>
        absurd ((congrArg Course.commits hcourse).symm.trans hnil) hcommits

/-- The end of a load leaves the coordinator bound for the same head. -/
theorem leads_onUpdateLoaded (hgrounded : Grounded stored addressed coordinator.course)
    (hhalt : coordinator.halt = none) (hphase : coordinator.phase = .pulling .update data.hash)
    (hupdates : coordinator.branch.updates = data :: rest) :
    Leads stored addressed (coordinator.handle (.delivered (.ok ()))) none
      (coordinator.bound (some (.answered (.delivered (.ok ()))))) := by
  rw [handle_delivered hphase]
  let loaded : Coordinator :=
    { coordinator.rested with branch := coordinator.branch.dropUpdate }
  have hloaded : Grounded stored addressed loaded.course :=
    { hgrounded with
      updates := fun other hmem => hgrounded.updates other (List.mem_of_mem_tail hmem) }
  have hmem : data ∈ coordinator.course.updates := by
    rw [show coordinator.course.updates = data :: rest from hupdates]
    exact List.mem_cons_self
  have hhalt' : loaded.halt = none := hhalt
  have hphase' : loaded.phase = .idle := rfl
  have hbound : (loaded.adopt data.hash).bound none =
      coordinator.bound (some (.answered (.delivered (.ok ())))) := by
    have hrest : loaded.branch.updates = rest := congrArg List.tail hupdates
    rw [bound_adopt, hrest]
    simp only [bound, Course.bound, show coordinator.course.updates = _ from hupdates,
      List.getLast?_cons]
    cases rest.getLast? <;> rfl
  rw [← hbound]
  exact (leads_adopt hloaded hhalt' hphase' (hgrounded.updates data hmem)).finish

theorem leads_onMergeLoaded (hgrounded : Grounded stored addressed coordinator.course)
    (hhalt : coordinator.halt = none)
    (hphase : coordinator.phase = .pulling .merge coordinator.branch.originHead)
    (hstored : stored coordinator.branch.originHead) :
    Leads stored addressed (coordinator.handle (.delivered (.ok ()))) none
      (coordinator.bound (some (.answered (.delivered (.ok ()))))) := by
  rw [handle_delivered hphase]
  have hrested : Grounded stored addressed coordinator.rested.course := { hgrounded with }
  have hhalt' : coordinator.rested.halt = none := hhalt
  have hphase' : coordinator.rested.phase = .idle := rfl
  have hbound : (coordinator.rested.adopt coordinator.branch.originHead).bound none =
      coordinator.bound (some (.answered (.delivered (.ok ())))) := by
    rw [bound_adopt]
    rfl
  rw [← hbound]
  exact (leads_adopt hrested hhalt' hphase' hstored).finish

/-- An answer leaves the coordinator bound for the same head, also if it stops. -/
theorem Consistent.handle {response : Response}
    (h : Consistent stored addressed coordinator.course (some (.answered response))) :
    Leads stored addressed (coordinator.handle response) none
      (coordinator.bound (some (.answered response))) := by
  cases h with
  | running hhalt hgrounded hunderway =>
      cases hunderway with
      | pushing hphase hcommits htransit =>
          exact leads_onPushed hgrounded hhalt hphase hcommits htransit
      | loading hphase hupdates hheads htransit =>
          rcases htransit with htransit | htransit
          · cases htransit
          · cases htransit
            exact leads_onUpdateLoaded hgrounded hhalt hphase hupdates
      | merging hphase hstored htransit =>
          rcases htransit with htransit | htransit
          · cases htransit
          · cases htransit
            exact leads_onMergeLoaded hgrounded hhalt hphase hstored

/-! ## Rest -/

/-- A coordinator at rest stands where it is bound for. -/
theorem Consistent.rests (h : Consistent stored addressed coordinator.course transit)
    (hidle : coordinator.phase = .idle) (hrunning : coordinator.halt = none) :
    coordinator.branch.localHead = coordinator.branch.originHead ∧
      coordinator.bound transit = coordinator.branch.localHead := by
  have hphase : coordinator.course.phase = .idle := hidle
  have hhalt : coordinator.course.halt = none := hrunning
  cases h with
  | halted hstopped => simp [hhalt] at hstopped
  | running _ _ hunderway =>
      cases hunderway with
      | resting _ hcommits hupdates hheads =>
          refine ⟨hheads, ?_⟩
          rw [bound, Course.bound, hupdates]
          exact hheads.symm
      | pushing hpushing => simp [hphase] at hpushing
      | loading hloading => simp [hphase] at hloading
      | merging hmerging => simp [hphase] at hmerging

/-! ## A store that grows -/

variable {later : CommitHash → Prop} {course : Course}

theorem PushTransit.mono {arrival : Transit} (h : PushTransit stored data arrival)
    (hkept : ∀ hash, stored hash → later hash) : PushTransit later data arrival := by
  cases h with
  | asked => exact .asked
  | refused herror => exact .refused herror
  | forked => exact .forked
  | synced hstored => exact .synced (hkept _ hstored)
  | merged hstored hmerge => exact .merged (hkept _ hstored) (hkept _ hmerge)

theorem Grounded.mono (h : Grounded stored addressed course)
    (hkept : ∀ hash, stored hash → later hash) : Grounded later addressed course := by
  obtain ⟨base, hbase, hchain⟩ := h.chain
  exact { h with
    chain := ⟨base, hkept base hbase, hchain⟩
    updates := fun other hmem => hkept _ (h.updates other hmem) }

theorem Consistent.mono (h : Consistent stored addressed course transit)
    (hkept : ∀ hash, stored hash → later hash) : Consistent later addressed course transit := by
  cases h with
  | halted hhalt hphase hsettled => exact .halted hhalt hphase hsettled
  | running hhalt hgrounded hunderway =>
      refine .running hhalt (hgrounded.mono hkept) ?_
      cases hunderway with
      | resting hphase hcommits hupdates hheads => exact .resting hphase hcommits hupdates hheads
      | pushing hphase hcommits htransit => exact .pushing hphase hcommits (htransit.mono hkept)
      | loading hphase hupdates hheads htransit => exact .loading hphase hupdates hheads htransit
      | merging hphase hstored htransit => exact .merging hphase (hkept _ hstored) htransit

end Coordinator

end Coauthor
