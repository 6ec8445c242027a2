import Coauthor.Proofs.Room.Feed
import Coauthor.Proofs.Room.Record
import Mathlib.Data.List.Basic

/-!
# Rooms in use

Rooms are opened, watched, left, sent messages and reaped, in any order and by any clients, and the
readers of the streams take what waits for them.  A room keeps its history for as long as it is
open: a turn may add one entry, which leads from the text before to the text behind it.  Whoever
watches a document has an open room, and watches it once.
-/

namespace Coauthor

/-- The entry that was recorded. -/
def Received.entry? : Received → Option AppliedOperation
  | .applied entry => some entry
  | .duplicate .. => none

namespace History

/-- The history has got one entry more. -/
structure Gains (history later : History) (entry : AppliedOperation) : Prop where
  revision : entry.revision = history.revision + 1
  applies : entry.operation.apply history.content = .ok later.content
  appended : later = history.append later.content entry

/-- The entries that have come since lead from the one text to the other. -/
def Continues (history later : History) : Prop :=
  ∃ added, later.entries = history.entries ++ added ∧
    replay history.content added = .ok later.content

variable {history middle later : History} {entry : AppliedOperation} {message : OperationMessage}
  {received : Received}

/-- A message that is not refused is recorded, or answered like the one that it repeats. -/
theorem receive_cases (hreceive : history.receive message = .ok (later, received)) :
    (∃ entry, received = .applied entry ∧ entry.clientId = message.clientId ∧
        history.Gains later entry) ∨
      later = history ∧ ∃ seq revision, received = .duplicate seq revision := by
  cases hduplicate : history.isDuplicate message with
  | true =>
      rw [receive_of_isDuplicate hduplicate] at hreceive
      obtain ⟨rfl, rfl⟩ := Prod.mk.inj (Except.ok.inj hreceive)
      exact .inr ⟨rfl, _, _, rfl⟩
  | false =>
      obtain ⟨operation, content, -, -, happly, rfl, rfl⟩ := exists_of_receive hduplicate hreceive
      exact .inl ⟨_, rfl, rfl, rfl, happly, rfl⟩

theorem Gains.entries (h : history.Gains later entry) :
    later.entries = history.entries ++ [entry] :=
  congrArg History.entries h.appended

theorem Gains.ordered (h : history.Gains later entry) (hordered : history.Ordered) :
    later.Ordered := by
  obtain ⟨revision, client, seq, operation⟩ := entry
  obtain rfl : revision = history.revision + 1 := h.revision
  rw [h.appended]
  exact hordered.append later.content client seq operation

theorem Continues.refl (history : History) : history.Continues history :=
  ⟨[], (List.append_nil _).symm, rfl⟩

theorem Continues.trans (hfirst : history.Continues middle) (hsecond : middle.Continues later) :
    history.Continues later := by
  obtain ⟨first, hentries, hreplay⟩ := hfirst
  obtain ⟨second, hmore, hlater⟩ := hsecond
  refine ⟨first ++ second, by rw [hmore, hentries, List.append_assoc], ?_⟩
  rw [replay_append, hreplay]
  exact hlater

theorem Gains.continues (h : history.Gains later entry) : history.Continues later := by
  refine ⟨[entry], h.entries, ?_⟩
  rw [replay_cons, h.applies]
  rfl

theorem Continues.revision_le (h : history.Continues later) :
    history.revision ≤ later.revision := by
  obtain ⟨added, hentries, -⟩ := h
  rw [revision, revision, hentries, List.length_append]
  exact Nat.le_add_right _ _

/-- The entries behind a revision are those that have come since the history had it. -/
theorem Continues.replay_drop (h : history.Continues later) :
    replay history.content (later.entries.drop history.revision) = .ok later.content := by
  obtain ⟨added, hentries, hreplay⟩ := h
  rw [hentries, revision, List.drop_left]
  exact hreplay

end History

namespace Rooms

/-! ## Turns -/

/-- What is asked of the rooms, or done at a stream. -/
inductive Turn where
  | openRoom (id : DocumentId) (text : Text) (now : Nat)
  | watch (id : DocumentId) (client : ClientId) (since : Option Nat) (now : Nat)
  | unwatch (id : DocumentId) (client : ClientId)
  | detach (client : ClientId)
  | receive (id : DocumentId) (message : OperationMessage) (now : Nat)
  | reap (now : Nat)
  /-- The reader of a stream takes what is at its front. -/
  | read (stream : SubscriptionId)

def Turn.isReap : Turn → Bool
  | .reap _ => true
  | _ => false

/-- A turn that is refused changes nothing but the time of the last activity. -/
def step (rooms : Rooms) : Turn → Rooms
  | .openRoom id text now => rooms.openRoom id text now
  | .watch id client since now =>
      match rooms.watch id client since now with
      | .ok (later, _, _) => later
      | .error _ => rooms
  | .unwatch id client => rooms.unwatch id client
  | .detach client => rooms.detach client
  | .receive id message now => (rooms.receive id message now).1
  | .reap now => (rooms.reap now).1
  | .read stream => { rooms with watchers := (rooms.watchers.take stream).1 }

def run (rooms : Rooms) (turns : List Turn) : Rooms := turns.foldl step rooms

/-- The turn closes the room of a document. -/
def Closes (rooms : Rooms) (id : DocumentId) (turn : Turn) : Prop :=
  ∃ now, turn = .reap now ∧ id ∈ rooms.idle now

/-- The turn ends the watch of a client: the client leaves, is forgotten or watches anew, or the
room is closed. -/
def Ends (rooms : Rooms) (id : DocumentId) (client : ClientId) : Turn → Prop
  | .unwatch other name => id = other ∧ client = name
  | .detach name => client = name
  | .watch other name since now =>
      (id = other ∧ client = name) ∧ (rooms.watch other name since now).isOk
  | .reap now => id ∈ rooms.idle now
  | _ => False

/-- The entry that a turn records. -/
def records (rooms : Rooms) : Turn → Option AppliedOperation
  | .receive id message _ => do
      let history ← rooms.history? id
      let (_, received) ← (history.receive message).toOption
      received.entry?
  | _ => none

/-- What waits in a stream. -/
def waiting (rooms : Rooms) (stream : SubscriptionId) : List DocumentEvent :=
  ((rooms.watchers.table.get? stream).map (·.items)).getD []

/-- What a turn puts on a stream. -/
def puts (rooms : Rooms) (stream : SubscriptionId) (turn : Turn) : List DocumentEvent :=
  ((rooms.step turn).waiting stream).drop (rooms.waiting stream).length

/-- The stream is fed with the events of a document for a client. -/
def Watches (rooms : Rooms) (stream : SubscriptionId) (id : DocumentId) (client : ClientId) :
    Prop :=
  ∃ items, rooms.watchers.Stands stream id client items

/-- What a watcher is told of an entry: of an own one only the number and the revision. -/
def announcement (client : ClientId) (entry : AppliedOperation) : DocumentEvent :=
  if entry.clientId = client then .ack entry.seq entry.revision else .operation entry

variable {rooms later : Rooms} {id other : DocumentId} {client : ClientId} {turn : Turn}
  {stream : SubscriptionId} {history updated : History} {items added : List DocumentEvent}
  {message : OperationMessage} {text : Text} {now : Nat} {entry : AppliedOperation}

theorem run_append (rooms : Rooms) (turns more : List Turn) :
    rooms.run (turns ++ more) = (rooms.run turns).run more :=
  List.foldl_append ..

theorem not_closes_of_isReap (h : turn.isReap = false) : ¬ rooms.Closes id turn := by
  rintro ⟨now, rfl, -⟩
  cases h

/-! ## Closing rooms -/

theorem history?_close (rooms : Rooms) (id other : DocumentId) :
    (rooms.close id).history? other = if other = id then none else rooms.history? other := by
  rw [history?, close, Table.get?_erase]
  split
  · rfl
  · rfl

theorem history?_closeAll (ids : List DocumentId) (rooms : Rooms) (id : DocumentId) :
    (ids.foldl close rooms).history? id = if id ∈ ids then none else rooms.history? id := by
  induction ids generalizing rooms with
  | nil => rfl
  | cons first rest ih =>
      rw [List.foldl_cons, ih, history?_close]
      by_cases hrest : id ∈ rest
      · rw [if_pos hrest, if_pos (.tail _ hrest)]
      · rw [if_neg hrest]
        exact if_congr (by simp [hrest]) rfl rfl

theorem thins_close (rooms : Rooms) (id : DocumentId) :
    rooms.watchers.Thins (rooms.close id).watchers := by
  have hsent : rooms.watchers.Thins (rooms.watchers.send id .closed) :=
    Subscriptions.thins_sendTo ..
  exact hsent.trans (Subscriptions.thins_release fun other _ => decide (other = id))

/-- Whoever watches another document is not concerned. -/
theorem stands_close (h : rooms.watchers.Stands stream id client items) (hother : id ≠ other) :
    (rooms.close other).watchers.Stands stream id client items := by
  have hsent := h.sendTo other (fun _ => true) DocumentEvent.closed
  rw [if_neg fun hsame => hother hsame.1, List.append_nil] at hsent
  exact hsent.release (by simpa using hother)

theorem ended_close_of_stands (h : rooms.watchers.Stands stream id client items) :
    (rooms.close id).watchers.Ended stream (items ++ [.closed]) := by
  have hsent := h.sendTo id (fun _ => true) DocumentEvent.closed
  rw [if_pos ⟨rfl, rfl⟩] at hsent
  exact hsent.ended_release (by simp)

theorem ended_close (h : rooms.watchers.Ended stream items) (id : DocumentId) :
    (rooms.close id).watchers.Ended stream items :=
  (h.sendTo ..).release _

theorem ended_closeAll (ids : List DocumentId) (h : rooms.watchers.Ended stream items) :
    (ids.foldl close rooms).watchers.Ended stream items := by
  induction ids generalizing rooms with
  | nil => exact h
  | cons first rest ih => exact ih (ended_close h first)

/-- Closing rooms ends the watches of their documents, with that as the last event. -/
theorem stands_or_ended_closeAll (ids : List DocumentId)
    (h : rooms.watchers.Stands stream id client items) :
    (id ∉ ids ∧ (ids.foldl close rooms).watchers.Stands stream id client items) ∨
      (id ∈ ids ∧ (ids.foldl close rooms).watchers.Ended stream (items ++ [.closed])) := by
  induction ids generalizing rooms with
  | nil => exact .inl ⟨List.not_mem_nil, h⟩
  | cons first rest ih =>
      by_cases hfirst : id = first
      · subst hfirst
        exact .inr ⟨List.mem_cons_self, ended_closeAll rest (ended_close_of_stands h)⟩
      · refine (ih (stands_close h hfirst)).imp (fun hstands => ⟨?_, hstands.2⟩)
          fun hended => ⟨.tail _ hended.1, hended.2⟩
        simp [hfirst, hstands.1]

/-! ## Histories -/

/-- What a turn does to the room of a document. -/
inductive Evolves (rooms : Rooms) (turn : Turn) (id : DocumentId) :
    Option History → Option History → Prop where
  | absent : Evolves rooms turn id none none
  | opened (text : Text) : Evolves rooms turn id none (some (.start text))
  | kept (history : History) (hopen : ¬ rooms.Closes id turn) :
      Evolves rooms turn id (some history) (some history)
  | gained {history later : History} {entry : AppliedOperation} (hopen : ¬ rooms.Closes id turn)
      (hgains : history.Gains later entry) : Evolves rooms turn id (some history) (some later)
  | closed (history : History) (hcloses : rooms.Closes id turn) :
      Evolves rooms turn id (some history) none

theorem evolves_same (hopen : ¬ rooms.Closes id turn)
    (hsame : later.history? id = rooms.history? id) :
    Evolves rooms turn id (rooms.history? id) (later.history? id) := by
  rw [hsame]
  cases rooms.history? id with
  | none => exact .absent
  | some history => exact .kept history hopen

theorem Opened.evolves (h : rooms.Opened other text later) (hopen : ¬ rooms.Closes id turn) :
    Evolves rooms turn id (rooms.history? id) (later.history? id) := by
  by_cases hother : id = other
  · subst hother
    rw [h id, if_pos rfl]
    cases rooms.history? id with
    | none => exact .opened text
    | some history => exact .kept history hopen
  · exact evolves_same hopen ((h id).trans (if_neg hother))

theorem Takes.evolves {result : Except RemoteError Unit}
    (h : rooms.Takes other message later result) (hopen : ¬ rooms.Closes id turn) :
    Evolves rooms turn id (rooms.history? id) (later.history? id) := by
  cases h with
  | refused hrefused hhistory hwatchers => exact evolves_same hopen (hhistory id)
  | @answered history updated received hhistory hreceive hupdated hwatchers =>
      by_cases hother : id = other
      · subst hother
        rw [hhistory, hupdated id, if_pos rfl]
        rcases History.receive_cases hreceive with ⟨entry, -, -, hgains⟩ | ⟨rfl, -⟩
        · exact .gained hopen hgains
        · exact .kept _ hopen
      · exact evolves_same hopen ((hupdated id).trans (if_neg hother))

theorem evolves_step (rooms : Rooms) (turn : Turn) (id : DocumentId) :
    Evolves rooms turn id (rooms.history? id) ((rooms.step turn).history? id) := by
  cases turn with
  | openRoom other text now =>
      exact (opened_openRoom rooms other text now).evolves (not_closes_of_isReap rfl)
  | watch other name since now =>
      have hopen : ¬ rooms.Closes id (.watch other name since now) := not_closes_of_isReap rfl
      simp only [step]
      split
      · rename_i later welcome stream hwatch
        exact (exists_of_watch hwatch).1.evolves hopen
      · exact evolves_same hopen rfl
  | unwatch other name => exact evolves_same (not_closes_of_isReap rfl) rfl
  | detach name => exact evolves_same (not_closes_of_isReap rfl) rfl
  | receive other message now => exact (takes_of_receive rfl).evolves (not_closes_of_isReap rfl)
  | reap now =>
      have hafter : (rooms.step (.reap now)).history? id =
          if id ∈ rooms.idle now then none else rooms.history? id :=
        history?_closeAll ..
      by_cases hidle : id ∈ rooms.idle now
      · rw [hafter, if_pos hidle]
        cases rooms.history? id with
        | none => exact .absent
        | some history => exact .closed history ⟨now, rfl, hidle⟩
      · refine evolves_same ?_ (hafter.trans (if_neg hidle))
        rintro ⟨later, hturn, hlater⟩
        exact hidle (Turn.reap.inj hturn ▸ hlater)
  | read stream => exact evolves_same (not_closes_of_isReap rfl) rfl

/-- A room that is not closed goes on with its history. -/
theorem Evolves.exists_continues {before after : Option History}
    (h : Evolves rooms turn id before after) (hbefore : before = some history)
    (hopen : ¬ rooms.Closes id turn) : ∃ later, after = some later ∧ history.Continues later := by
  cases h with
  | absent => cases hbefore
  | opened text => cases hbefore
  | kept found hopen' =>
      obtain rfl := Option.some.inj hbefore
      exact ⟨found, rfl, .refl found⟩
  | gained hopen' hgains =>
      obtain rfl := Option.some.inj hbefore
      exact ⟨_, rfl, hgains.continues⟩
  | closed found hcloses => exact absurd hcloses hopen

/-! ## Order among the watchers -/

/-- Histories number their entries, streams have been opened under their numbers, whoever watches
has an open room, and no client watches a document twice. -/
structure Orderly (rooms : Rooms) : Prop where
  ordered : ∀ id history, rooms.history? id = some history → history.Ordered
  opened : ∀ stream subscription, rooms.watchers.table.get? stream = some subscription →
    stream < rooms.watchers.next
  housed : ∀ stream id client, rooms.Watches stream id client →
    ∃ history, rooms.history? id = some history
  alone : ∀ stream other id client, rooms.Watches stream id client →
    rooms.Watches other id client → stream = other

theorem orderly_start (inactivityTimeout : Nat) : (start inactivityTimeout).Orderly where
  ordered := by rintro id history ⟨⟩
  opened := by rintro stream subscription ⟨⟩
  housed := by rintro stream id client ⟨items, ⟨⟩⟩
  alone := by rintro stream other id client ⟨items, ⟨⟩⟩

theorem Watches.of_thins (h : rooms.watchers.Thins later.watchers)
    (hwatches : later.Watches stream id client) : rooms.Watches stream id client := by
  obtain ⟨items, hstands⟩ := hwatches
  exact h.stands hstands

theorem Evolves.ordered {before after : Option History} (h : Evolves rooms turn id before after)
    (hbefore : ∀ history, before = some history → history.Ordered) (hafter : after = some history) :
    history.Ordered := by
  cases h with
  | absent => cases hafter
  | opened text => exact Option.some.inj hafter ▸ History.ordered_start text
  | kept found hopen => exact hbefore history hafter
  | gained hopen hgains =>
      exact Option.some.inj hafter ▸ hgains.ordered (hbefore _ rfl)
  | closed found hcloses => cases hafter

theorem Orderly.single (h : rooms.Orderly) : rooms.watchers.Single where
  opened := h.opened
  alone stream other id client items others hstands hother :=
    h.alone stream other id client ⟨items, hstands⟩ ⟨others, hother⟩

/-- No stream is opened, and a room is only closed if no one goes on watching it. -/
theorem Orderly.thin (h : rooms.Orderly) (hthins : rooms.watchers.Thins later.watchers)
    (hevolves : ∀ id, Evolves rooms turn id (rooms.history? id) (later.history? id))
    (hhoused : ∀ stream id client, later.Watches stream id client → ¬ rooms.Closes id turn) :
    later.Orderly where
  ordered id history hafter := (hevolves id).ordered (h.ordered id) hafter
  opened := (h.single.thin hthins).opened
  housed := by
    intro stream id client hwatches
    obtain ⟨history, hhistory⟩ := h.housed stream id client (.of_thins hthins hwatches)
    obtain ⟨updated, hupdated, -⟩ :=
      (hevolves id).exists_continues hhistory (hhoused stream id client hwatches)
    exact ⟨updated, hupdated⟩
  alone stream other id client hwatches hother :=
    h.alone stream other id client (.of_thins hthins hwatches) (.of_thins hthins hother)

/-- The new watch replaces an older one of its client on its document. -/
theorem Orderly.watch {since : Option Nat} {welcome : Welcome} (h : rooms.Orderly)
    (hwatch : rooms.watch id client since now = .ok (later, welcome, stream)) : later.Orderly := by
  obtain ⟨hopened, hsubscribe, history, hhistory, -⟩ := exists_of_watch hwatch
  have hwatchers : (rooms.watchers.subscribe id client).1 = later.watchers :=
    congrArg Prod.fst hsubscribe
  have hstep : rooms.step (.watch id client since now) = later := by
    simp only [step, hwatch]
  have hsingle : later.watchers.Single := hwatchers ▸ h.single.subscribe id client
  refine ⟨fun other found hafter => ?_, hsingle.opened, fun other document name hwatches => ?_,
    fun first second document name ⟨items, hfirst⟩ ⟨others, hsecond⟩ =>
      hsingle.alone first second document name items others hfirst hsecond⟩
  · have hevolves := evolves_step rooms (.watch id client since now) other
    exact (hstep ▸ hevolves).ordered (h.ordered other) hafter
  · obtain ⟨items, hstands⟩ := hwatches
    rcases Subscriptions.cases_of_stands_subscribe (hwatchers ▸ hstands) with
      ⟨-, rfl, -⟩ | ⟨-, before, hbefore⟩
    · exact ⟨history, hhistory⟩
    · obtain ⟨found, hfound⟩ := h.housed other document name ⟨before, hbefore⟩
      exact ⟨found, hopened.keeps hfound⟩

theorem thins_announce (watchers : Subscriptions DocumentId DocumentEvent) (id : DocumentId)
    (sender : ClientId) (received : Received) :
    watchers.Thins (announce watchers id sender received) := by
  unfold announce
  cases received with
  | applied entry =>
      exact (Subscriptions.thins_sendTo id (· = sender) _).trans
        (Subscriptions.thins_sendTo id (· ≠ sender) _)
  | duplicate seq revision => exact Subscriptions.thins_sendTo ..

theorem Takes.thins {result : Except RemoteError Unit}
    (h : rooms.Takes id message later result) : rooms.watchers.Thins later.watchers := by
  cases h with
  | refused hrefused hhistory hwatchers => exact hwatchers ▸ .refl _
  | answered hhistory hreceive hupdated hwatchers => exact hwatchers ▸ thins_announce ..

theorem thins_closeAll (ids : List DocumentId) (rooms : Rooms) :
    rooms.watchers.Thins (ids.foldl close rooms).watchers := by
  induction ids generalizing rooms with
  | nil => exact .refl _
  | cons first rest ih => exact (thins_close rooms first).trans (ih (rooms.close first))

/-- Whoever watches a document after a turn has an open room. -/
theorem Watches.not_mem_idle (hwatches : (rooms.reap now).1.Watches stream id client) :
    id ∉ rooms.idle now := by
  intro hidle
  obtain ⟨items, hstands⟩ := hwatches
  obtain ⟨before, hbefore⟩ := (thins_closeAll (rooms.idle now) rooms).stands hstands
  rcases stands_or_ended_closeAll (rooms.idle now) hbefore with ⟨hother, -⟩ | ⟨-, hended⟩
  · exact hother hidle
  · exact hstands.not_ended hended

theorem Orderly.step (h : rooms.Orderly) (turn : Turn) : (rooms.step turn).Orderly := by
  have hplain (hthins : rooms.watchers.Thins (rooms.step turn).watchers)
      (hturn : turn.isReap = false) : (rooms.step turn).Orderly :=
    h.thin hthins (evolves_step rooms turn) fun _ _ _ _ => not_closes_of_isReap hturn
  cases turn with
  | openRoom id text now =>
      refine hplain ?_ rfl
      rw [Rooms.step, watchers_openRoom]
      exact .refl _
  | watch id client since now =>
      cases hwatch : rooms.watch id client since now with
      | error error =>
          simp only [Rooms.step, hwatch]
          exact h
      | ok watched =>
          obtain ⟨later, welcome, stream⟩ := watched
          simp only [Rooms.step, hwatch]
          exact h.watch hwatch
  | unwatch id client =>
      exact hplain (Subscriptions.thins_release fun other name => other = id && name = client) rfl
  | detach client => exact hplain (Subscriptions.thins_release fun _ name => name = client) rfl
  | receive id message now => exact hplain (takes_of_receive rfl).thins rfl
  | reap now =>
      refine h.thin (thins_closeAll _ rooms) (evolves_step rooms (.reap now)) ?_
      rintro stream id client hwatches ⟨later, hturn, hidle⟩
      exact hwatches.not_mem_idle (Turn.reap.inj hturn ▸ hidle)
  | read stream => exact hplain (Subscriptions.thins_take ..) rfl

theorem Orderly.run (h : rooms.Orderly) (turns : List Turn) : (rooms.run turns).Orderly := by
  induction turns generalizing rooms with
  | nil => exact h
  | cons turn rest ih => exact ih (h.step turn)

end Rooms

end Coauthor
