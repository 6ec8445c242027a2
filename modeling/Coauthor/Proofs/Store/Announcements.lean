import Coauthor.Proofs.Room.Feed
import Coauthor.Proofs.Store.Heads
import Coauthor.Proofs.Store.Turns

/-!
# What those who listen to a branch are told

A stream is fed with the heads of its branch until its client opens another on the branch, or is
forgotten.  Whatever sets a head sends it to all who listen to the branch then, and nothing else is
sent to them.  So the stream carries what the branch has been set to since it was opened, once each
and in order, and the last of it is the head.
-/

namespace Coauthor

namespace Store

/-- The turn ends the listening of a client to a branch: the client is forgotten, or opens another
stream. -/
def Turn.Ends (topic : BranchTopic) (client : ClientId) : Turn → Prop
  | .watch id branch name => topic = (id, branch) ∧ client = name
  | .detach name => client = name
  | _ => False

/-- The stream is fed with the heads of a branch for a client. -/
def Listens (store : Store) (stream : SubscriptionId) (topic : BranchTopic) (client : ClientId) :
    Prop :=
  ∃ items, store.watchers.Stands stream topic client items

/-- What a turn puts on a stream. -/
def puts (store : Store) (stream : SubscriptionId) (turn : Turn) : List CommitData :=
  ((store.step turn).announced stream).drop (store.announced stream).length

/-- What is put on a stream in a run. -/
def heard (stream : SubscriptionId) (store : Store) : List Turn → List CommitData
  | [] => []
  | turn :: rest => store.puts stream turn ++ heard stream (store.step turn) rest

variable {store later : Store} {id : ProjectId} {branch : BranchName} {topic : BranchTopic}
  {client : ClientId} {stream : SubscriptionId} {items left added : List CommitData} {turn : Turn}
  {turns : List Turn}

theorem announced_of_stands (h : store.watchers.Stands stream topic client items) :
    store.announced stream = items := by
  rw [announced, h]

theorem puts_eq (hbefore : store.watchers.Stands stream topic client items)
    (hafter : (store.step turn).watchers.Stands stream topic client (items ++ added)) :
    store.puts stream turn = added := by
  rw [puts, announced_of_stands hbefore, announced_of_stands hafter, List.drop_left]

/-- A stream that goes on is fed with what the turn sets its branch to. -/
inductive Hears (store : Store) (stream : SubscriptionId) (topic : BranchTopic)
    (client : ClientId) (turn : Turn) : Prop where
  | stays (hstays : ¬ turn.Ends topic client)
      (hlistens : (store.step turn).Listens stream topic client)
      (hputs : (store.puts stream turn).map (·.hash) = (store.assignsTo topic turn).toList)
  | ended (hends : turn.Ends topic client)
      (hended : ∃ left, (store.step turn).watchers.Ended stream left)

/-! ## Turns -/

/-- A turn that concerns neither the stream nor its branch. -/
theorem hears_of_same (h : store.watchers.Stands stream topic client items)
    (hstays : ¬ turn.Ends topic client)
    (hafter : (store.step turn).watchers.Stands stream topic client items)
    (hnone : store.assignsTo topic turn = none) : store.Hears stream topic client turn := by
  refine .stays hstays ⟨items, hafter⟩ ?_
  rw [puts_eq h (hafter.trans (by rw [List.append_nil])), hnone]
  rfl

theorem not_ends_of_isMove (hturn : turn.isMove) : ¬ turn.Ends topic client := by
  cases turn with
  | push data => exact not_false
  | createBranch id branch hash => exact not_false
  | setHead id branch old new => exact not_false
  | createProject id branch root => cases hturn
  | watch id branch name => cases hturn
  | detach name => cases hturn
  | read other => cases hturn

/-- Whoever listens to a branch is told when it is moved, and not when another is. -/
theorem hears_of_isMove (hsound : store.Sound)
    (h : store.watchers.Stands stream topic client items) (hturn : turn.isMove) :
    store.Hears stream topic client turn := by
  obtain ⟨move, hmoves, hassigns⟩ := exists_moves_step hsound hturn
  have hstays : ¬ turn.Ends topic client := not_ends_of_isMove hturn
  cases move with
  | none =>
      refine hears_of_same h hstays (hmoves.watchers.symm ▸ h) ?_
      rw [assignsTo, hassigns]
      rfl
  | some move =>
      obtain ⟨other, data⟩ := move
      have hsent := h.sendTo other (fun _ => true) data
      have hafter : (store.step turn).watchers = store.watchers.send other data := hmoves.watchers
      rw [← Subscriptions.send, ← hafter] at hsent
      refine .stays hstays ⟨_, hsent⟩ ?_
      rw [puts_eq h hsent, assignsTo, hassigns]
      by_cases hsame : other = topic
      · simp [told, onTopic, hsame]
      · simp [told, onTopic, hsame, Ne.symm hsame]

/-- What a store is in which someone listens to a branch of a project. -/
structure Attended (id : ProjectId) (store : Store) : Prop where
  sound : store.Sound
  single : store.watchers.Single
  founded : (store.projects.get? id).isSome

theorem Attended.hears (h : store.Attended topic.1)
    (hstands : store.watchers.Stands stream topic client items)
    (hfounds : ¬ turn.Founds topic.1) : store.Hears stream topic client turn := by
  have hopened := h.single.opened stream _ hstands
  cases turn with
  | push data => exact hears_of_isMove h.sound hstands rfl
  | createBranch id branch hash => exact hears_of_isMove h.sound hstands rfl
  | setHead id branch old new => exact hears_of_isMove h.sound hstands rfl
  | createProject id branch root =>
      refine hears_of_same hstands not_false hstands ?_
      refine if_neg fun hsame => hfounds ?_
      rw [← hsame]
      rfl
  | watch id branch name =>
      by_cases hsame : topic = (id, branch) ∧ client = name
      · obtain ⟨rfl, rfl⟩ := hsame
        refine .ended ⟨rfl, rfl⟩ ⟨items, ?_⟩
        rw [step_watch_of_isSome h.founded]
        exact hstands.ended_subscribe hopened
      · refine hears_of_same hstands hsame ?_ rfl
        cases hget : store.projects.get? id with
        | none =>
            rw [step_watch_of_none hget]
            exact hstands
        | some project =>
            rw [step_watch_of_isSome (Option.isSome_of_eq_some hget)]
            exact hstands.subscribe hopened hsame
  | detach name =>
      by_cases hsame : client = name
      · exact .ended hsame ⟨items, hstands.ended_release (by simpa using hsame)⟩
      · exact hears_of_same hstands hsame (hstands.release (by simpa using hsame)) rfl
  | read other =>
      obtain ⟨left, hlength, hleft⟩ := Subscriptions.exists_get?_take hstands other
      have hafter : (store.step (.read other)).watchers.Stands stream topic client left := hleft
      refine .stays not_false ⟨left, hafter⟩ ?_
      rw [puts, announced_of_stands hstands, announced_of_stands hafter,
        List.drop_eq_nil_of_le hlength]
      rfl

/-- What a turn does to the streams. -/
inductive Listening (watchers : Subscriptions BranchTopic CommitData) :
    Subscriptions BranchTopic CommitData → Prop where
  | same : Listening watchers watchers
  | sent (topic : BranchTopic) (data : CommitData) : Listening watchers (watchers.send topic data)
  | opened (topic : BranchTopic) (client : ClientId) :
      Listening watchers (watchers.subscribe topic client).1
  | forgotten (client : ClientId) : Listening watchers (watchers.detach client)
  | read (stream : SubscriptionId) : Listening watchers (watchers.take stream).1

theorem listening_step (h : store.Sound) (turn : Turn) :
    Listening store.watchers (store.step turn).watchers := by
  have hmove (hturn : turn.isMove) : Listening store.watchers (store.step turn).watchers := by
    obtain ⟨move, hmoves, -⟩ := exists_moves_step h hturn
    rw [hmoves.watchers]
    cases move with
    | none => exact .same
    | some move => exact .sent move.1 move.2
  cases turn with
  | push data => exact hmove rfl
  | createBranch id branch hash => exact hmove rfl
  | setHead id branch old new => exact hmove rfl
  | createProject id branch root => exact .same
  | watch id branch name =>
      cases hproject : store.projects.get? id with
      | none =>
          rw [step_watch_of_none hproject]
          exact .same
      | some project =>
          rw [step_watch_of_isSome (Option.isSome_of_eq_some hproject)]
          exact .opened (id, branch) name
  | detach name => exact .forgotten name
  | read other => exact .read other

theorem Listening.single {watchers others : Subscriptions BranchTopic CommitData}
    (h : Listening watchers others) (hsingle : watchers.Single) : others.Single := by
  cases h with
  | same => exact hsingle
  | sent topic data => exact hsingle.thin (Subscriptions.thins_sendTo topic _ data)
  | opened topic client => exact hsingle.subscribe topic client
  | forgotten client => exact hsingle.thin (Subscriptions.thins_release fun _ name => name = client)
  | read stream => exact hsingle.thin (Subscriptions.thins_take ..)

/-- A stream that has been given up is not taken up again. -/
theorem Listening.exists_ended {watchers others : Subscriptions BranchTopic CommitData}
    (h : Listening watchers others) (hsingle : watchers.Single)
    (hended : watchers.Ended stream items) : ∃ left, others.Ended stream left := by
  have hopened : stream < watchers.next := by
    obtain ⟨topic, client, hget⟩ := hended
    exact hsingle.opened stream _ hget
  cases h with
  | same => exact ⟨items, hended⟩
  | sent topic data => exact ⟨items, hended.sendTo topic _ data⟩
  | opened topic client => exact ⟨items, hended.subscribe hopened topic client⟩
  | forgotten client => exact ⟨items, hended.release _⟩
  | read other =>
      obtain ⟨topic, client, hget⟩ := hended
      obtain ⟨left, -, hleft⟩ := Subscriptions.exists_get?_take hget other
      exact ⟨left, topic, client, hleft⟩

theorem Attended.step (h : store.Attended id) (turn : Turn) : (store.step turn).Attended id where
  sound := (h.sound.evolves turn).sound
  single := (listening_step h.sound turn).single h.single
  founded := (h.sound.evolves turn).kept id h.founded

/-! ## Runs -/

theorem single_run (h : store.Sound) (hsingle : store.watchers.Single) (turns : List Turn) :
    (store.run turns).watchers.Single := by
  induction turns generalizing store with
  | nil => exact hsingle
  | cons turn rest ih => exact ih (h.evolves turn).sound ((listening_step h turn).single hsingle)

theorem Attended.ended_run (h : store.Attended id) (hended : store.watchers.Ended stream items)
    (turns : List Turn) : ∃ left, (store.run turns).watchers.Ended stream left := by
  induction turns generalizing store items with
  | nil => exact ⟨items, hended⟩
  | cons turn rest ih =>
      obtain ⟨left, hleft⟩ := (listening_step h.sound turn).exists_ended h.single hended
      exact ih (h.step turn) hleft

theorem not_listens_of_ended (h : store.watchers.Ended stream left) :
    ¬ store.Listens stream topic client := by
  rintro ⟨items, hstands⟩
  exact hstands.not_ended h

/-- A stream is fed exactly until a turn ends it. -/
theorem Attended.listens_run_iff (h : store.Attended topic.1)
    (hlistens : store.Listens stream topic client)
    (hfounds : ∀ turn ∈ turns, ¬ turn.Founds topic.1) :
    (store.run turns).Listens stream topic client ↔ ∀ turn ∈ turns, ¬ turn.Ends topic client := by
  induction turns generalizing store with
  | nil => exact iff_of_true hlistens (fun _ hturn => absurd hturn List.not_mem_nil)
  | cons turn rest ih =>
      obtain ⟨items, hstands⟩ := hlistens
      rw [List.forall_mem_cons] at hfounds ⊢
      cases h.hears hstands hfounds.1 with
      | stays hstays hlistens hputs =>
          exact (ih (h.step turn) hlistens hfounds.2).trans (by simp [hstays])
      | ended hends hended =>
          obtain ⟨left, hleft⟩ := hended
          obtain ⟨last, hlast⟩ := (h.step turn).ended_run hleft rest
          exact iff_of_false (not_listens_of_ended hlast) fun hnone => hnone.1 hends

/-- A stream that has been fed all the time carries what its branch was set to. -/
theorem Attended.heard_run (h : store.Attended topic.1)
    (hlistens : store.Listens stream topic client)
    (hfounds : ∀ turn ∈ turns, ¬ turn.Founds topic.1)
    (hafter : (store.run turns).Listens stream topic client) :
    (heard stream store turns).map (·.hash) = assigned topic store turns := by
  induction turns generalizing store with
  | nil => rfl
  | cons turn rest ih =>
      obtain ⟨items, hstands⟩ := hlistens
      rw [List.forall_mem_cons] at hfounds
      cases h.hears hstands hfounds.1 with
      | stays hstays hlistens hputs =>
          rw [heard, assigned, List.map_append, hputs,
            ih (h.step turn) hlistens hfounds.2 hafter]
      | ended hends hended =>
          obtain ⟨left, hleft⟩ := hended
          obtain ⟨last, hlast⟩ := (h.step turn).ended_run hleft rest
          exact absurd hafter (not_listens_of_ended hlast)

theorem listens_of_watch (hwatch : store.watch id branch client = .ok (later, stream)) :
    later.Listens stream (id, branch) client := by
  rw [watch_of_isSome (isSome_of_watch hwatch)] at hwatch
  obtain ⟨rfl, rfl⟩ := Prod.mk.inj (Except.ok.inj hwatch)
  exact ⟨[], Subscriptions.stands_subscribe ..⟩

theorem attended_of_watch (hsound : store.Sound) (hsingle : store.watchers.Single)
    (hwatch : store.watch id branch client = .ok (later, stream)) : later.Attended id := by
  have hfounded := isSome_of_watch hwatch
  rw [watch_of_isSome hfounded] at hwatch
  obtain ⟨rfl, rfl⟩ := Prod.mk.inj (Except.ok.inj hwatch)
  exact ⟨hsound.of_projects rfl, hsingle.subscribe .., hfounded⟩

/-- Whatever is asked of a store: from when a client opens a stream on a branch until it opens
another there or is forgotten, what is put on the stream is what the branch is set to, in order and
once each, and nothing that is set on other branches.  The last of it is the head, or the head is
still the one from when the stream was opened.  No client has two streams that are fed with the
heads of one branch. -/
theorem run_announces_heads (merger : Merger) (before : List Turn)
    (hwatch : ((start merger).run before).watch id branch client = .ok (later, stream))
    (after : List Turn) (hfounds : ∀ turn ∈ after, ¬ turn.Founds id) :
    ((later.run after).Listens stream (id, branch) client ↔
        ∀ turn ∈ after, ¬ turn.Ends (id, branch) client) ∧
      ((later.run after).Listens stream (id, branch) client →
        (heard stream later after).map (·.hash) = assigned (id, branch) later after ∧
        (later.run after).headOf id branch =
          ((heard stream later after).getLast?.map (·.hash)).or (later.headOf id branch)) ∧
      ∀ first second topic name, (later.run after).Listens first topic name →
        (later.run after).Listens second topic name → first = second := by
  have hsound : ((start merger).run before).Sound := (sound_start merger).run before
  have hsingle : ((start merger).run before).watchers.Single :=
    single_run (sound_start merger) Subscriptions.single_empty before
  have hattended := attended_of_watch hsound hsingle hwatch
  have hlistens := listens_of_watch hwatch
  refine ⟨hattended.listens_run_iff hlistens hfounds, fun hafter => ?_, ?_⟩
  · have hheard := hattended.heard_run hlistens hfounds hafter
    refine ⟨hheard, ?_⟩
    rw [hattended.sound.headOf_run, ← hheard, List.getLast?_map]
  · rintro first second topic name ⟨items, hfirst⟩ ⟨others, hsecond⟩
    have hlater := single_run hattended.sound hattended.single after
    exact hlater.alone first second topic name items others hfirst hsecond

/-- A project with two branches. -/
def forking : List Turn :=
  [.createProject "p" "b" (lone "#0" none), .createProject "p" "c" (lone "#1" none)]

/-- Both branches are set, one of them back to where it was, and the last call comes too late. -/
def setting : List Turn :=
  [.setHead "p" "b" (some "#0") "#1", .watch "p" "b" "bob", .setHead "p" "c" none "#0", .read 0,
    .setHead "p" "b" none "#0", .setHead "p" "b" (some "#1") "#1"]

/-- The stream carries what its own branch was set to. -/
theorem run_announces_heads_there_and_back :
    ∃ later stream, ((start .never).run forking).watch "p" "b" "alice" = .ok (later, stream) ∧
      later.headOf "p" "b" = some "#0" ∧
      (heard stream later setting).map (·.hash) = ["#1", "#0"] ∧
      (later.run setting).headOf "p" "b" = some "#0" := by
  let later := ((start .never).run forking).step (.watch "p" "b" "alice")
  have hwatch : ((start .never).run forking).watch "p" "b" "alice" = .ok (later, 0) := rfl
  have hfounds : ∀ turn ∈ setting, ¬ turn.Founds "p" := by
    simp [setting, Turn.Founds]
  have hstays : ∀ turn ∈ setting, ¬ turn.Ends ("p", "b") "alice" := by
    simp [setting, Turn.Ends]
  obtain ⟨hlistens, hheard, -⟩ := run_announces_heads .never forking hwatch setting hfounds
  obtain ⟨hcarried, hhead⟩ := hheard (hlistens.mpr hstays)
  have hassigned : assigned ("p", "b") later setting = ["#1", "#0"] := rfl
  refine ⟨later, 0, hwatch, rfl, hcarried.trans hassigned, ?_⟩
  rw [hhead, ← List.getLast?_map, hcarried, hassigned]
  rfl

end Store

end Coauthor
