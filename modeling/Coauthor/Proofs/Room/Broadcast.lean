import Coauthor.Proofs.Room.Turns

/-!
# What rooms tell their watchers

A watch that stands is told of every entry that its room records, at once and in order: of the
client's own by an acknowledgement, of the others by the operation.  It ends when its client leaves,
is forgotten or watches anew, and then is told nothing more, or when its room is reaped, and then is
told just that.
-/

namespace Coauthor

namespace Rooms

variable {rooms later : Rooms} {id other : DocumentId} {client : ClientId} {turn : Turn}
  {stream : SubscriptionId} {history updated : History} {items added : List DocumentEvent}
  {message : OperationMessage} {now : Nat} {entry : AppliedOperation}

/-! ## What a watcher is told -/

theorem waiting_of_stands (h : rooms.watchers.Stands stream id client items) :
    rooms.waiting stream = items := by
  rw [waiting, h]
  rfl

theorem waiting_of_ended (h : rooms.watchers.Ended stream items) :
    rooms.waiting stream = items := by
  obtain ⟨topic, client, hget⟩ := h
  rw [waiting, hget]
  rfl

theorem puts_eq (hbefore : rooms.waiting stream = items)
    (hafter : (rooms.step turn).waiting stream = items ++ added) :
    rooms.puts stream turn = added := by
  rw [puts, hbefore, hafter, List.drop_left]

/-- What a turn does to a watch that stands, and to the history of its room. -/
inductive Served (rooms : Rooms) (stream : SubscriptionId) (id : DocumentId) (client : ClientId)
    (history : History) (turn : Turn) : Prop where
  | kept (hstays : ¬ rooms.Ends id client turn)
      (hwatches : (rooms.step turn).Watches stream id client)
      (hhistory : (rooms.step turn).history? id = some history)
      (hputs : rooms.puts stream turn = [])
  /-- An entry is recorded. -/
  | told {updated : History} {entry : AppliedOperation} (hstays : ¬ rooms.Ends id client turn)
      (hwatches : (rooms.step turn).Watches stream id client)
      (hhistory : (rooms.step turn).history? id = some updated)
      (hgains : history.Gains updated entry) (hrecords : rooms.records turn = some entry)
      (hputs : rooms.puts stream turn = [announcement client entry])
  /-- An operation is repeated that the history has. -/
  | repeated {seq revision : Nat} (hstays : ¬ rooms.Ends id client turn)
      (hwatches : (rooms.step turn).Watches stream id client)
      (hhistory : (rooms.step turn).history? id = some history)
      (hrecords : rooms.records turn = none)
      (hputs : rooms.puts stream turn = [.ack seq revision])
  | ended (hends : rooms.Ends id client turn)
      (hended : ∃ items, (rooms.step turn).watchers.Ended stream items)
      (hputs : rooms.puts stream turn = if turn.isReap then [.closed] else [])

/-- A turn that leaves the watch and its room alone. -/
theorem served_of_same (h : rooms.watchers.Stands stream id client items)
    (hstays : ¬ rooms.Ends id client turn)
    (hafter : (rooms.step turn).watchers.Stands stream id client items)
    (hsame : (rooms.step turn).history? id = some history) :
    rooms.Served stream id client history turn :=
  .kept hstays ⟨items, hafter⟩ hsame
    (puts_eq (waiting_of_stands h)
      ((waiting_of_stands hafter).trans (List.append_nil items).symm))

/-- A turn that gives the watch up without a word. -/
theorem served_of_ended (h : rooms.watchers.Stands stream id client items)
    (hends : rooms.Ends id client turn) (hreap : turn.isReap = false)
    (hended : (rooms.step turn).watchers.Ended stream items) :
    rooms.Served stream id client history turn := by
  refine .ended hends ⟨items, hended⟩ ?_
  rw [hreap]
  exact puts_eq (waiting_of_stands h)
    ((waiting_of_ended hended).trans (List.append_nil items).symm)

theorem served_release (h : rooms.watchers.Stands stream id client items)
    (hhistory : rooms.history? id = some history) {test : DocumentId → ClientId → Bool}
    (hstep : rooms.step turn = { rooms with watchers := rooms.watchers.release test })
    (hreap : turn.isReap = false) (hends : rooms.Ends id client turn ↔ test id client = true) :
    rooms.Served stream id client history turn := by
  by_cases htest : test id client = true
  · exact served_of_ended h (hends.mpr htest) hreap (hstep ▸ h.ended_release htest)
  · exact served_of_same h (mt hends.mp htest) (hstep ▸ h.release (eq_false_of_ne_true htest))
      (hstep ▸ hhistory)

/-- What a watcher of the document is told of an answer to `sender`. -/
def replies (client sender : ClientId) : Received → List DocumentEvent
  | .applied entry =>
      [if client = sender then .ack entry.seq entry.revision else .operation entry]
  | .duplicate seq revision => if client = sender then [.ack seq revision] else []

theorem stands_announce (h : rooms.watchers.Stands stream id client items) (other : DocumentId)
    (sender : ClientId) (received : Received) :
    (announce rooms.watchers other sender received).Stands stream id client
      (items ++ if id = other then replies client sender received else []) := by
  cases received with
  | applied entry =>
      have hsent := (h.sendTo other (· = sender) (.ack entry.seq entry.revision)).sendTo other
        (· ≠ sender) (.operation entry)
      have hadded :
          ((if id = other ∧ decide (client = sender) = true then
              [DocumentEvent.ack entry.seq entry.revision] else []) ++
            if id = other ∧ decide (client ≠ sender) = true then [.operation entry] else []) =
          if id = other then replies client sender (.applied entry) else [] := by
        by_cases hother : id = other
        · by_cases hsender : client = sender
          · simp [replies, hother, hsender]
          · simp [replies, hother, hsender]
        · simp [hother]
      rw [List.append_assoc, hadded] at hsent
      exact hsent
  | duplicate seq revision =>
      have hsent := h.sendTo other (· = sender) (.ack seq revision)
      have hadded :
          (if id = other ∧ decide (client = sender) = true then
              [DocumentEvent.ack seq revision] else []) =
          if id = other then replies client sender (.duplicate seq revision) else [] := by
        by_cases hother : id = other
        · simp [replies, hother]
        · simp [hother]
      rw [hadded] at hsent
      exact hsent

theorem ended_announce (h : rooms.watchers.Ended stream items) (other : DocumentId)
    (sender : ClientId) (received : Received) :
    (announce rooms.watchers other sender received).Ended stream items := by
  cases received with
  | applied entry => exact (h.sendTo ..).sendTo ..
  | duplicate seq revision => exact h.sendTo ..

theorem Takes.ended {result : Except RemoteError Unit}
    (htakes : rooms.Takes id message later result) (h : rooms.watchers.Ended stream items) :
    later.watchers.Ended stream items := by
  cases htakes with
  | refused hrefused hhistory hwatchers => exact hwatchers ▸ h
  | answered hhistory hreceive hupdated hwatchers => exact hwatchers ▸ ended_announce h ..

theorem served_receive (h : rooms.watchers.Stands stream id client items)
    (hhistory : rooms.history? id = some history) (other : DocumentId)
    (message : OperationMessage) (now : Nat) :
    rooms.Served stream id client history (.receive other message now) := by
  have hstays : ¬ rooms.Ends id client (.receive other message now) := not_false
  generalize hreceive : rooms.receive other message now = result
  obtain ⟨later, result⟩ := result
  have hstep : rooms.step (.receive other message now) = later := congrArg Prod.fst hreceive
  cases takes_of_receive hreceive with
  | refused hrefused hsame hwatchers =>
      exact served_of_same h hstays (hstep ▸ hwatchers ▸ h) (hstep ▸ (hsame id).trans hhistory)
  | @answered before updated received hbefore hanswer hupdated hwatchers =>
      have hafter := stands_announce h other message.clientId received
      rw [← hwatchers, ← hstep] at hafter
      have hputs := puts_eq (waiting_of_stands h) (waiting_of_stands hafter)
      have hwatches : (rooms.step (.receive other message now)).Watches stream id client :=
        ⟨_, hafter⟩
      by_cases hother : id = other
      · subst hother
        obtain rfl : history = before := Option.some.inj (hhistory.symm.trans hbefore)
        have hrecords : rooms.records (.receive id message now) = received.entry? := by
          simp [records, hhistory, hanswer, Except.toOption]
        have hlater : (rooms.step (.receive id message now)).history? id = some updated :=
          hstep ▸ (hupdated id).trans (if_pos rfl)
        rw [if_pos rfl] at hputs
        rcases History.receive_cases hanswer with
          ⟨entry, rfl, hsender, hgains⟩ | ⟨rfl, seq, revision, rfl⟩
        · refine .told hstays hwatches hlater hgains hrecords (hputs.trans ?_)
          rw [announcement, hsender, replies]
          simp only [eq_comm]
        · by_cases hsender : client = message.clientId
          · exact .repeated hstays hwatches hlater hrecords (hputs.trans (if_pos hsender))
          · exact .kept hstays hwatches hlater (hputs.trans (if_neg hsender))
      · have hlater : later.history? id = some history :=
          ((hupdated id).trans (if_neg hother)).trans hhistory
        exact .kept hstays hwatches (hstep ▸ hlater) (hputs.trans (if_neg hother))

theorem served_watch (horderly : rooms.Orderly)
    (h : rooms.watchers.Stands stream id client items)
    (hhistory : rooms.history? id = some history) (other : DocumentId) (name : ClientId)
    (since : Option Nat) (now : Nat) :
    rooms.Served stream id client history (.watch other name since now) := by
  have hopened : stream < rooms.watchers.next := horderly.opened stream _ h
  cases hwatch : rooms.watch other name since now with
  | error error =>
      have hstep : rooms.step (.watch other name since now) = rooms := by
        simp only [step, hwatch]
      refine served_of_same h ?_ (hstep.symm ▸ h) (hstep.symm ▸ hhistory)
      rintro ⟨-, hok⟩
      rw [hwatch] at hok
      cases hok
  | ok watched =>
      obtain ⟨later, welcome, fresh⟩ := watched
      have hstep : rooms.step (.watch other name since now) = later := by
        simp only [step, hwatch]
      obtain ⟨hroom, hsubscribe, -⟩ := exists_of_watch hwatch
      have hwatchers : (rooms.watchers.subscribe other name).1 = later.watchers :=
        congrArg Prod.fst hsubscribe
      by_cases hsame : id = other ∧ client = name
      · obtain ⟨rfl, rfl⟩ := hsame
        refine served_of_ended h ⟨⟨rfl, rfl⟩, by rw [hwatch]; rfl⟩ rfl ?_
        rw [hstep, ← hwatchers]
        exact h.ended_subscribe hopened
      · refine served_of_same h (fun hends => hsame hends.1) ?_ ?_
        · rw [hstep, ← hwatchers]
          exact h.subscribe hopened hsame
        · rw [hstep]
          exact hroom.keeps hhistory

theorem served_reap (h : rooms.watchers.Stands stream id client items)
    (hhistory : rooms.history? id = some history) (now : Nat) :
    rooms.Served stream id client history (.reap now) := by
  rcases stands_or_ended_closeAll (rooms.idle now) h with ⟨hopen, hafter⟩ | ⟨hidle, hended⟩
  · refine served_of_same h hopen hafter ?_
    exact (history?_closeAll ..).trans ((if_neg hopen).trans hhistory)
  · exact .ended hidle ⟨_, hended⟩ (puts_eq (waiting_of_stands h) (waiting_of_ended hended))

theorem served_read (h : rooms.watchers.Stands stream id client items)
    (hhistory : rooms.history? id = some history) (other : SubscriptionId) :
    rooms.Served stream id client history (.read other) := by
  obtain ⟨left, hfewer, hleft⟩ := Subscriptions.exists_get?_take h other
  have hafter : (rooms.step (.read other)).watchers.Stands stream id client left := hleft
  refine .kept not_false ⟨left, hafter⟩ hhistory ?_
  rw [puts, waiting_of_stands h, waiting_of_stands hafter]
  exact List.drop_eq_nil_of_le hfewer

/-- Every turn leaves a watch that stands alone, tells it of one entry, repeats an answer or ends
it. -/
theorem Orderly.served (horderly : rooms.Orderly)
    (h : rooms.watchers.Stands stream id client items)
    (hhistory : rooms.history? id = some history) (turn : Turn) :
    rooms.Served stream id client history turn := by
  cases turn with
  | openRoom other text now =>
      refine served_of_same h not_false ?_ ((opened_openRoom rooms other text now).keeps hhistory)
      rw [Rooms.step, watchers_openRoom]
      exact h
  | watch other name since now => exact served_watch horderly h hhistory other name since now
  | unwatch other name => exact served_release h hhistory rfl rfl (by simp [Ends])
  | detach name => exact served_release h hhistory rfl rfl (by simp [Ends])
  | receive other message now => exact served_receive h hhistory other message now
  | reap now => exact served_reap h hhistory now
  | read other => exact served_read h hhistory other

/-- A watch that has ended is told nothing more. -/
theorem Orderly.puts_ended (horderly : rooms.Orderly) (h : rooms.watchers.Ended stream items)
    (turn : Turn) : rooms.puts stream turn = [] ∧
      ∃ left, (rooms.step turn).watchers.Ended stream left := by
  have hopened : stream < rooms.watchers.next := by
    obtain ⟨topic, client, hget⟩ := h
    exact horderly.opened stream _ hget
  have hsame (hafter : (rooms.step turn).watchers.Ended stream items) :
      rooms.puts stream turn = [] ∧ ∃ left, (rooms.step turn).watchers.Ended stream left :=
    ⟨puts_eq (waiting_of_ended h) ((waiting_of_ended hafter).trans (List.append_nil items).symm),
      items, hafter⟩
  cases turn with
  | openRoom id text now =>
      refine hsame ?_
      rw [Rooms.step, watchers_openRoom]
      exact h
  | watch id client since now =>
      cases hwatch : rooms.watch id client since now with
      | error error =>
          refine hsame ?_
          simp only [Rooms.step, hwatch]
          exact h
      | ok watched =>
          obtain ⟨later, welcome, fresh⟩ := watched
          obtain ⟨-, hsubscribe, -⟩ := exists_of_watch hwatch
          have hwatchers : (rooms.watchers.subscribe id client).1 = later.watchers :=
            congrArg Prod.fst hsubscribe
          refine hsame ?_
          simp only [Rooms.step, hwatch]
          exact hwatchers ▸ h.subscribe hopened id client
  | unwatch id client => exact hsame (h.release _)
  | detach client => exact hsame (h.release _)
  | receive id message now => exact hsame ((takes_of_receive rfl).ended h)
  | reap now => exact hsame (ended_closeAll _ h)
  | read other =>
      obtain ⟨topic, client, hget⟩ := h
      obtain ⟨left, hfewer, hleft⟩ := Subscriptions.exists_get?_take hget other
      have hafter : (rooms.step (.read other)).watchers.Ended stream left := ⟨topic, client, hleft⟩
      refine ⟨?_, left, hafter⟩
      rw [puts, waiting_of_ended ⟨topic, client, hget⟩, waiting_of_ended hafter]
      exact List.drop_eq_nil_of_le hfewer

end Rooms

end Coauthor
