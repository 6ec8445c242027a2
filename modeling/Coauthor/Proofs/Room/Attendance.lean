import Coauthor.Proofs.Room.Record

/-!
# Visits to rooms

Clients open documents, edit them, hand their messages to the rooms, hear what the rooms announce,
lose what is on its way, rejoin and close the documents again, in any order and any number of
times.  A visit ends when the document is closed or the room turns it away, and the next visit of
the same client starts as if it were the first: nothing of what the client has numbered before is
kept.  No room is closed meanwhile.
-/

namespace Coauthor

open History

/-- A client at a document, from opening it to closing it. -/
structure Visit where
  document : Document
  stream : SubscriptionId
  /-- The revision of the room when the document was opened. -/
  opened : Nat
  /-- The messages handed out, whether they arrived or not, oldest first. -/
  sent : List OperationMessage

/-- Rooms, and the visits to them. -/
structure Attendance where
  rooms : Rooms
  visits : Table (DocumentId × ClientId) Visit

/-- What an event says of the history, unless it closes the document. -/
def DocumentEvent.notice? : DocumentEvent → Option Notice
  | .ack seq revision => some (.ack seq revision)
  | .operation applied => some (.operation applied)
  | .closed => none

theorem DocumentEvent.notice?_eq_ack_iff {event : DocumentEvent} {seq revision : Nat} :
    event.notice? = some (.ack seq revision) ↔ event = .ack seq revision := by
  cases event <;> simp [notice?]

namespace Attendance

/-- What a client does while it visits a document. -/
inductive Move where
  | edit (operation : Operation)
  | send
  | hear
  /-- What is on its way from the client is lost, and the rooms forget the client. -/
  | lose
  | rejoin
  | leave

inductive Turn where
  /-- The room of a document is opened with a text, if there is none. -/
  | prepare (id : DocumentId) (text : Text) (now : Nat)
  | enter (id : DocumentId) (client : ClientId) (now : Nat)
  | act (id : DocumentId) (client : ClientId) (now : Nat) (move : Move)

def start (inactivityTimeout : Nat) : Attendance :=
  { rooms := .start inactivityTimeout, visits := ∅ }

variable (attendance : Attendance) (id : DocumentId) (client : ClientId) (now : Nat)

/-- The visit goes on. -/
def goOn (rooms : Rooms) (visit : Visit) : Attendance :=
  { rooms, visits := attendance.visits.insert (id, client) visit }

/-- The visit is over. -/
def finish (rooms : Rooms) : Attendance :=
  { rooms, visits := attendance.visits.erase (id, client) }

/-- Opens a document.  A visit that the client has not ended is forgotten. -/
def enter : Attendance :=
  match attendance.rooms.watch id client none now with
  | .error _ => attendance
  | .ok (rooms, welcome, stream) =>
      attendance.goOn id client rooms
        { document := .start id client welcome.content welcome.revision
          stream
          opened := welcome.revision
          sent := [] }

/-- A refused edit changes nothing. -/
def edit (visit : Visit) (operation : Operation) : Attendance :=
  match visit.document.edit operation with
  | .error _ => attendance
  | .ok document => attendance.goOn id client attendance.rooms { visit with document }

/-- Hands the first message to the room.  A visit whose message is refused is over. -/
def send (visit : Visit) : Attendance :=
  match visit.document.outbox with
  | [] => attendance
  | message :: rest =>
      match attendance.rooms.receive id message now with
      | (rooms, .error _) => attendance.finish id client rooms
      | (rooms, .ok ()) =>
          attendance.goOn id client rooms
            { visit with
              document := { visit.document with outbox := rest }, sent := visit.sent ++ [message] }

/-- Takes the first event of the stream in.  What cannot be taken in ends the visit. -/
def hear (visit : Visit) : Attendance :=
  match attendance.rooms.watchers.take visit.stream with
  | (watchers, .item event) =>
      let rooms := { attendance.rooms with watchers }
      match event.notice? with
      | none => attendance.finish id client rooms
      | some notice =>
          match visit.document.handle notice with
          | .error _ => attendance.finish id client rooms
          | .ok (document, _) => attendance.goOn id client rooms { visit with document }
  | (_, _) => attendance

def lose (visit : Visit) : Attendance :=
  attendance.goOn id client (attendance.rooms.detach client)
    { visit with
      document := { visit.document with outbox := [] }
      sent := visit.sent ++ visit.document.outbox }

/-- Watches the room anew, takes in what was missed and sends again what is outstanding. -/
def rejoin (visit : Visit) : Attendance :=
  match attendance.rooms.watch id client (some visit.document.revision) now with
  | .error (.notFound _) => attendance.finish id client attendance.rooms
  | .error _ => attendance
  | .ok (rooms, welcome, stream) =>
      match visit.document.catchUp welcome.missed with
      | (_, .error _) => attendance.finish id client rooms
      | (document, .ok ()) =>
          attendance.goOn id client rooms { visit with document := document.resend, stream }

def leave : Attendance :=
  attendance.finish id client (attendance.rooms.unwatch id client)

/-- A move in a visit that is known. -/
def act (visit : Visit) : Move → Attendance
  | .edit operation => attendance.edit id client visit operation
  | .send => attendance.send id client now visit
  | .hear => attendance.hear id client visit
  | .lose => attendance.lose id client visit
  | .rejoin => attendance.rejoin id client now visit
  | .leave => attendance.leave id client

/-- Without a visit there is nothing to move. -/
def step : Turn → Attendance
  | .prepare id text now => { attendance with rooms := attendance.rooms.openRoom id text now }
  | .enter id client now => attendance.enter id client now
  | .act id client now move =>
      match attendance.visits.get? (id, client) with
      | none => attendance
      | some visit => attendance.act id client now visit move

/-- The rooms and visits after some turns. -/
def run (turns : List Turn) : Attendance := turns.foldl step attendance

end Attendance

/-! ## One visit -/

/-- What a visit has to do with the history of its room: the numbers of its document are recorded
or come next, and every entry of the client behind the revision of the opening has a message that
was handed out. -/
structure Visit.Sound (client : ClientId) (history : History) (visit : Visit) : Prop where
  began : visit.opened ≤ history.revision
  orderly : visit.document.Orderly client visit.opened (recorded client history.entries)
  issued : ∀ message ∈ visit.sent,
    message.Issued client visit.opened (recorded client history.entries)
  accounted : ∀ entry ∈ history.entries, entry.clientId = client → visit.opened < entry.revision →
    ∃ message ∈ visit.sent, history.Records message entry

/-- The visit follows its room. -/
structure Visit.Fits (rooms : Rooms) (id : DocumentId) (client : ClientId) (visit : Visit) :
    Prop where
  stream : rooms.watchers.Belongs visit.stream id client
  sound : ∃ history, rooms.history? id = some history ∧ visit.Sound client history

namespace Visit

variable {visit : Visit} {id : DocumentId} {client : ClientId} {history : History}
  {document : Document} {rooms later : Rooms} {taken rest : List OperationMessage}

theorem sound_start (hordered : history.Ordered) (id : DocumentId) (client : ClientId)
    (text : Text) (stream : SubscriptionId) :
    Sound client history
      { document := .start id client text history.revision
        stream
        opened := history.revision
        sent := [] } where
  began := Nat.le_refl _
  orderly := Document.orderly_start id client text _ _
  issued := List.forall_mem_nil _
  accounted _ hmem _ hlt := absurd (hordered.revision_le hmem) (Nat.not_le.mpr hlt)

theorem Sound.replace (h : visit.Sound client history)
    (hdocument : document.Orderly client visit.opened (recorded client history.entries))
    (stream : SubscriptionId) : { visit with document, stream }.Sound client history :=
  ⟨h.began, hdocument, h.issued, h.accounted⟩

/-- Messages are handed out in their order. -/
theorem Sound.handOut (h : visit.Sound client history)
    (houtbox : visit.document.outbox = taken ++ rest) :
    { visit with
      document := { visit.document with outbox := rest }, sent := visit.sent ++ taken }.Sound
        client history where
  began := h.began
  orderly := h.orderly.handOut fun message hmem => houtbox ▸ List.mem_append_right _ hmem
  issued := List.forall_mem_append.mpr ⟨h.issued, fun message hmem =>
    h.orderly.issued message (houtbox ▸ List.mem_append_left _ hmem)⟩
  accounted entry hmem hclient hlt := by
    obtain ⟨message, hmessage, hrecords⟩ := h.accounted entry hmem hclient hlt
    exact ⟨message, List.mem_append_left _ hmessage, hrecords⟩

/-- The history may grow by an entry that a message of the visit accounts for, or by another
client's. -/
theorem Sound.append (h : visit.Sound client history) (hordered : history.Ordered)
    {content : Text} {entry : AppliedOperation}
    (hentry : entry.clientId = client → ∃ message ∈ visit.sent,
      (history.append content entry).Records message entry) :
    visit.Sound client (history.append content entry) where
  began := by
    rw [History.append, revision, List.length_append]
    exact h.began.trans (Nat.le_add_right _ _)
  orderly := h.orderly.mono (recorded_concat .. ▸ Nat.le_add_right _ _)
  issued message hmem := (h.issued message hmem).mono (recorded_concat .. ▸ Nat.le_add_right _ _)
  accounted other hmem hclient hlt := by
    rcases List.mem_append.mp hmem with hmem | hmem
    · obtain ⟨message, hmessage, hrecords⟩ := h.accounted other hmem hclient hlt
      exact ⟨message, hmessage, hrecords.append hordered content entry⟩
    · obtain rfl := List.mem_singleton.mp hmem
      exact hentry hclient

/-- An answered message leaves a visit in order that has handed it out, or belongs to another
client. -/
theorem Sound.receive {updated : History} {message : OperationMessage} {received : Received}
    (h : visit.Sound client history) (hindexed : history.Indexed) (hpos : 1 ≤ message.seq)
    (hreceive : history.receive message = .ok (updated, received))
    (hmessage : message.clientId = client → message ∈ visit.sent) :
    visit.Sound client updated := by
  rcases hindexed.receive_cases hpos hreceive with
    ⟨-, -, -, -, rfl, -⟩ | ⟨-, operation, content, hle, hrebase, rfl, -⟩
  · exact h
  · exact h.append hindexed.toOrdered fun hclient =>
      ⟨message, hmessage hclient, records_append hle hrebase content⟩

theorem Fits.keep (h : visit.Fits rooms id client) (hkeeps : rooms.Keeps later) :
    visit.Fits later id client := by
  obtain ⟨history, hhistory, hsound⟩ := h.sound
  exact ⟨hkeeps.streams _ _ _ h.stream, history, hkeeps.histories id history hhistory, hsound⟩

end Visit

namespace Attendance

/-- The rooms are sound and every visit follows its room. -/
structure Sound (attendance : Attendance) : Prop where
  rooms : attendance.rooms.Sound
  visits : ∀ id client visit, attendance.visits.get? (id, client) = some visit →
    visit.Fits attendance.rooms id client

variable {attendance : Attendance} {later : Rooms} {id : DocumentId} {client : ClientId}
  {visit moved : Visit} {message : OperationMessage} {rest : List OperationMessage}
  {history updated : History} {received : Received} {now : Nat}

theorem sound_start (inactivityTimeout : Nat) : (start inactivityTimeout).Sound where
  rooms := Rooms.sound_start inactivityTimeout
  visits _ _ _ hsome := by cases hsome

/-- A visit that goes on has to fit the rooms, like all others. -/
theorem sound_goOn (hrooms : later.Sound)
    (hothers : ∀ other name found, attendance.visits.get? (other, name) = some found →
      (other, name) ≠ (id, client) → found.Fits later other name)
    (hvisit : visit.Fits later id client) : (attendance.goOn id client later visit).Sound where
  rooms := hrooms
  visits other name found hsome := by
    rw [goOn, Table.get?_insert] at hsome
    split_ifs at hsome with hkey
    · obtain ⟨rfl, rfl⟩ := Prod.mk.inj hkey
      exact Option.some.inj hsome ▸ hvisit
    · exact hothers other name found hsome hkey

theorem sound_finish (hrooms : later.Sound)
    (hothers : ∀ other name found, attendance.visits.get? (other, name) = some found →
      (other, name) ≠ (id, client) → found.Fits later other name) :
    (attendance.finish id client later).Sound where
  rooms := hrooms
  visits other name found hsome := by
    rw [finish, Table.get?_erase] at hsome
    split_ifs at hsome with hkey
    exact hothers other name found hsome hkey

/-- Visits to rooms that keep their histories go on undisturbed. -/
theorem Sound.others (h : attendance.Sound) (hkeeps : attendance.rooms.Keeps later) :
    ∀ other name found, attendance.visits.get? (other, name) = some found →
      (other, name) ≠ (id, client) → found.Fits later other name :=
  fun other name found hsome _ => (h.visits other name found hsome).keep hkeeps

theorem Sound.enter (h : attendance.Sound) (id : DocumentId) (client : ClientId) (now : Nat) :
    (attendance.enter id client now).Sound := by
  unfold Attendance.enter
  split
  · exact h
  · rename_i rooms welcome stream hwatch
    obtain ⟨hrooms, hkeeps, hstream, history, hhistory, hrevision, -⟩ := h.rooms.watch hwatch
    refine sound_goOn hrooms (h.others hkeeps) ⟨hstream, history, hhistory, ?_⟩
    rw [hrevision]
    exact Visit.sound_start (hrooms.indexed id history hhistory).toOrdered id client _ stream

theorem Sound.edit (h : attendance.Sound)
    (hget : attendance.visits.get? (id, client) = some visit) (operation : Operation) :
    (attendance.edit id client visit operation).Sound := by
  obtain ⟨hstream, history, hhistory, hsound⟩ := h.visits id client visit hget
  unfold Attendance.edit
  cases hedit : visit.document.edit operation with
  | error error => exact h
  | ok document =>
      refine sound_goOn h.rooms (fun other name found hsome _ => h.visits other name found hsome) ?_
      exact ⟨hstream, history, hhistory, hsound.replace (hsound.orderly.edit hedit) visit.stream⟩

/-- An answered message leaves every visit in order: the sender's, whose message accounts for what
the history records, and those of others, for whom it is another client's. -/
theorem Sound.send (h : attendance.Sound)
    (hget : attendance.visits.get? (id, client) = some visit) (now : Nat) :
    (attendance.send id client now visit).Sound := by
  obtain ⟨hstream, history, hhistory, hsound⟩ := h.visits id client visit hget
  unfold Attendance.send
  cases houtbox : visit.document.outbox with
  | nil => exact h
  | cons message rest =>
      have hissued := hsound.orderly.issued message (houtbox ▸ List.mem_cons_self)
      rcases hreceive : attendance.rooms.receive id message now with ⟨later, result⟩
      simp only [hreceive]
      cases Rooms.takes_of_receive hreceive with
      | refused _ hsame hwatchers =>
          obtain ⟨hrooms, hkeeps⟩ := h.rooms.refused hsame hwatchers
          exact sound_finish hrooms (h.others hkeeps)
      | @answered found updated received hfound hanswer hupdated hwatchers =>
          obtain rfl := Option.some.inj (hhistory.symm.trans hfound)
          have hindexed := h.rooms.indexed id history hhistory
          have hrooms := h.rooms.answered hissued.seq_pos (hissued.client ▸ hissued.seq_le) hhistory
            hanswer hupdated hwatchers
          have hid : later.history? id = some updated := (hupdated id).trans (if_pos rfl)
          refine sound_goOn hrooms (fun other name found hsome hkey => ?_)
            ⟨hwatchers ▸ Rooms.belongs_announce hstream _ _ _, updated, hid, ?_⟩
          · obtain ⟨hothers, present, hpresent, hfoundSound⟩ := h.visits other name found hsome
            refine ⟨hwatchers ▸ Rooms.belongs_announce hothers _ _ _, ?_⟩
            -- Only another client can visit the same document, and for it the entry is foreign.
            by_cases hother : other = id
            · subst hother
              obtain rfl := Option.some.inj (hhistory.symm.trans hpresent)
              refine ⟨updated, hid, hfoundSound.receive hindexed hissued.seq_pos hanswer ?_⟩
              intro hname
              rw [← hname, hissued.client] at hkey
              exact absurd rfl hkey
            · exact ⟨present, (hupdated other).trans ((if_neg hother).trans hpresent), hfoundSound⟩
          · exact (hsound.handOut houtbox).receive hindexed hissued.seq_pos hanswer fun _ =>
              List.mem_append_right _ List.mem_cons_self

theorem Sound.hear (h : attendance.Sound)
    (hget : attendance.visits.get? (id, client) = some visit) :
    (attendance.hear id client visit).Sound := by
  obtain ⟨hstream, history, hhistory, hsound⟩ := h.visits id client visit hget
  unfold Attendance.hear
  split
  · rename_i watchers event htake
    obtain ⟨hrooms, hkeeps, hannounced⟩ := h.rooms.take hstream htake
    cases hnotice : event.notice? with
    | none => exact sound_finish hrooms (h.others hkeeps)
    | some notice =>
        cases hhandle : visit.document.handle notice with
        | error error =>
            simp only [hhandle]
            exact sound_finish hrooms (h.others hkeeps)
        | ok moved =>
            simp only [hhandle]
            refine sound_goOn hrooms (h.others hkeeps) ⟨hkeeps.streams _ _ _ hstream, history,
              hkeeps.histories id history hhistory, hsound.replace ?_ visit.stream⟩
            refine hsound.orderly.handle (fun seq revision hack => ?_) hhandle
            obtain rfl := DocumentEvent.notice?_eq_ack_iff.mp (hack ▸ hnotice)
            exact Rooms.seq_le_of_announced hannounced hhistory
  · exact h

theorem Sound.lose (h : attendance.Sound)
    (hget : attendance.visits.get? (id, client) = some visit) :
    (attendance.lose id client visit).Sound := by
  obtain ⟨hstream, history, hhistory, hsound⟩ := h.visits id client visit hget
  obtain ⟨hrooms, hkeeps⟩ := h.rooms.release fun _ name => name = client
  exact sound_goOn hrooms (h.others hkeeps) ⟨hkeeps.streams _ _ _ hstream, history,
    hkeeps.histories id history hhistory, hsound.handOut (List.append_nil _).symm⟩

theorem Sound.rejoin (h : attendance.Sound)
    (hget : attendance.visits.get? (id, client) = some visit) (now : Nat) :
    (attendance.rejoin id client now visit).Sound := by
  obtain ⟨hstream, history, hhistory, hsound⟩ := h.visits id client visit hget
  unfold Attendance.rejoin
  split
  · exact sound_finish h.rooms fun other name found hsome _ => h.visits other name found hsome
  · exact h
  · rename_i rooms welcome stream hwatch
    obtain ⟨hrooms, hkeeps, hopened, known, hknown, -, hmissed⟩ := h.rooms.watch hwatch
    obtain rfl := Option.some.inj ((hkeeps.histories id history hhistory).symm.trans hknown)
    -- What was missed is recorded, so whatever it acknowledges is.
    have hcaught := hsound.orderly.catchUp fun entry hmem hclient =>
      (hrooms.indexed id history hknown).seq_le_recorded (hmissed entry hmem) hclient
    split
    · exact sound_finish hrooms (h.others hkeeps)
    · rename_i document hcatchUp
      rw [hcatchUp] at hcaught
      exact sound_goOn hrooms (h.others hkeeps)
        ⟨hopened, history, hknown, hsound.replace hcaught.resend stream⟩

theorem Sound.leave (h : attendance.Sound) (id : DocumentId) (client : ClientId) :
    (attendance.leave id client).Sound := by
  obtain ⟨hrooms, hkeeps⟩ := h.rooms.release fun other name => other = id && name = client
  exact sound_finish hrooms (h.others hkeeps)

theorem Sound.step (h : attendance.Sound) (turn : Turn) : (attendance.step turn).Sound := by
  cases turn with
  | prepare id text now =>
      obtain ⟨hrooms, hkeeps⟩ := h.rooms.openRoom id text now
      exact ⟨hrooms, fun other name found hsome => (h.visits other name found hsome).keep hkeeps⟩
  | enter id client now => exact h.enter id client now
  | act id client now move =>
      simp only [Attendance.step]
      cases hget : attendance.visits.get? (id, client) with
      | none => exact h
      | some visit =>
          cases move with
          | edit operation => exact h.edit hget operation
          | send => exact h.send hget now
          | hear => exact h.hear hget
          | lose => exact h.lose hget
          | rejoin => exact h.rejoin hget now
          | leave => exact h.leave id client

/-- However the clients take their turns, every visit follows its room. -/
theorem Sound.run (h : attendance.Sound) (turns : List Turn) : (attendance.run turns).Sound := by
  induction turns generalizing attendance with
  | nil => exact h
  | cons turn turns ih => exact ih (h.step turn)

end Attendance

end Coauthor
