import Coauthor.Proofs.Room.Stream
import Coauthor.Proofs.Text.Numbering
import Coauthor.Room.Rooms

/-!
# What rooms record

Each open room has a history, and watching, leaving and reading change none of them.  As long as
clients send numbers that are recorded or come next, the histories stay without gaps, and whoever
is told that a number was applied can find it recorded under the own name.
-/

namespace Coauthor.Rooms

open History

variable {rooms later : Rooms} {id other : DocumentId} {client : ClientId}
  {history updated : History} {message : OperationMessage} {event : DocumentEvent}
  {watchers : Subscriptions DocumentId DocumentEvent} {text : Text} {now : Nat}

/-- The history of a document whose room is open. -/
def history? (rooms : Rooms) (id : DocumentId) : Option History :=
  (rooms.rooms.get? id).map (·.history)

theorem history?_setRoom (rooms : Rooms) (id : DocumentId) (room : Room) (other : DocumentId) :
    (rooms.setRoom id room).history? other =
      if other = id then some room.history else rooms.history? other := by
  rw [history?, setRoom, Table.get?_insert]
  split <;> rfl

/-- The room of a document is open, with a text if it was not open before; others are unchanged. -/
def Opened (rooms : Rooms) (id : DocumentId) (text : Text) (later : Rooms) : Prop :=
  ∀ other, later.history? other =
    if other = id then some ((rooms.history? id).getD (.start text)) else rooms.history? other

theorem Opened.keeps (h : rooms.Opened id text later)
    (hsome : rooms.history? other = some history) : later.history? other = some history := by
  rw [h other]
  split
  · rename_i hother
    rw [← hother, hsome]
    rfl
  · exact hsome

theorem opened_openRoom (rooms : Rooms) (id : DocumentId) (text : Text) (now : Nat) :
    rooms.Opened id text (rooms.openRoom id text now) := by
  intro other
  cases hget : rooms.rooms.get? id with
  | none =>
      rw [openRoom, if_neg (by simp [Table.contains, hget]), history?_setRoom]
      simp [history?, hget, Room.start]
  | some room =>
      rw [openRoom, if_pos (by simp [Table.contains, hget])]
      split
      · rename_i hother
        simp [history?, hother, hget]
      · rfl

theorem watchers_openRoom (rooms : Rooms) (id : DocumentId) (text : Text) (now : Nat) :
    (rooms.openRoom id text now).watchers = rooms.watchers := by
  unfold openRoom
  split
  · rfl
  · rfl

theorem exists_of_visit_since {revision : Nat} {room : Room} {missed : List AppliedOperation}
    (h : rooms.visit id (some revision) now = .ok (room, missed)) :
    rooms.rooms.get? id = some room ∧ revision ≤ room.history.revision ∧
      missed = room.history.entries.drop revision := by
  cases hget : rooms.rooms.get? id with
  | none => simp [visit, Rooms.room, hget, bind, Except.bind] at h
  | some found =>
      by_cases hle : revision ≤ found.history.revision
      · simp only [visit, Rooms.room, hget, since_of_le hle, refuse, Except.mapError, bind,
          Except.bind, pure, Except.pure, Except.ok.injEq, Prod.mk.injEq] at h
        obtain ⟨rfl, rfl⟩ := h
        exact ⟨rfl, hle, rfl⟩
      · simp [visit, Rooms.room, hget, History.since, Nat.not_le.mp hle, refuse, Except.mapError,
          bind, Except.bind] at h

theorem exists_of_visit {since : Option Nat} {room : Room} {missed : List AppliedOperation}
    (h : rooms.visit id since now = .ok (room, missed)) :
    room.history = (rooms.history? id).getD (.start []) ∧
      ∀ entry ∈ missed, entry ∈ room.history.entries := by
  cases since with
  | none =>
      obtain ⟨rfl, rfl⟩ := Prod.mk.inj (Except.ok.inj h)
      refine ⟨?_, List.forall_mem_nil _⟩
      rw [history?]
      cases rooms.rooms.get? id <;> rfl
  | some revision =>
      obtain ⟨hget, -, rfl⟩ := exists_of_visit_since h
      exact ⟨by simp [history?, hget], fun entry hmem => List.mem_of_mem_drop hmem⟩

/-- Watching a document opens its room and a stream, and tells what the room has. -/
theorem exists_of_watch {since : Option Nat} {welcome : Welcome} {stream : SubscriptionId}
    (h : rooms.watch id client since now = .ok (later, welcome, stream)) :
    rooms.Opened id [] later ∧ rooms.watchers.subscribe id client = (later.watchers, stream) ∧
      ∃ history, later.history? id = some history ∧ welcome.revision = history.revision ∧
        ∀ entry ∈ welcome.missed, entry ∈ history.entries := by
  cases hvisit : rooms.visit id since now with
  | error error => simp [watch, hvisit, bind, Except.bind] at h
  | ok visited =>
      obtain ⟨room, missed⟩ := visited
      obtain ⟨hroom, hmissed⟩ := exists_of_visit hvisit
      simp only [watch, hvisit, bind, Except.bind, pure, Except.pure, Except.ok.injEq,
        Prod.mk.injEq] at h
      obtain ⟨rfl, rfl, rfl⟩ := h
      have hopened : rooms.Opened id [] (rooms.setRoom id { room with lastActivity := now }) := by
        intro other
        rw [history?_setRoom, hroom]
      exact ⟨hopened, rfl, room.history, (history?_setRoom ..).trans (if_pos rfl), rfl, hmissed⟩

/-- How rooms take a message: they refuse it and record nothing, or the history of its document
answers it. -/
inductive Takes (rooms : Rooms) (id : DocumentId) (message : OperationMessage) :
    Rooms → Except RemoteError Unit → Prop where
  | refused {later : Rooms} {error : RemoteError}
      (hrefused : ∀ history answer, rooms.history? id = some history →
        history.receive message ≠ .ok answer)
      (hhistory : ∀ other, later.history? other = rooms.history? other)
      (hwatchers : later.watchers = rooms.watchers) : Takes rooms id message later (.error error)
  | answered {later : Rooms} {history updated : History} {received : Received}
      (hhistory : rooms.history? id = some history)
      (hreceive : history.receive message = .ok (updated, received))
      (hupdated : ∀ other, later.history? other =
        if other = id then some updated else rooms.history? other)
      (hwatchers : later.watchers = announce rooms.watchers id message.clientId received) :
      Takes rooms id message later (.ok ())

theorem takes_of_receive {result : Except RemoteError Unit}
    (h : rooms.receive id message now = (later, result)) : rooms.Takes id message later result := by
  cases hget : rooms.rooms.get? id with
  | none =>
      simp only [receive, Rooms.room, hget, Prod.mk.injEq] at h
      obtain ⟨rfl, rfl⟩ := h
      refine .refused (fun history answer hsome => ?_) (fun _ => rfl) rfl
      rw [history?, hget] at hsome
      cases hsome
  | some room =>
      have hhistory : rooms.history? id = some room.history := by
        rw [history?, hget, Option.map_some]
      cases hreceive : room.history.receive message with
      | error error =>
          simp only [receive, Rooms.room, hget, hreceive, refuse, Except.mapError,
            Prod.mk.injEq] at h
          obtain ⟨rfl, rfl⟩ := h
          refine .refused (fun history answer hsome => ?_) (fun other => ?_) rfl
          · obtain rfl := Option.some.inj (hhistory.symm.trans hsome)
            rw [hreceive]
            intro hanswer
            cases hanswer
          rw [history?_setRoom]
          split
          · rename_i hother
            rw [hother, hhistory]
          · rfl
      | ok answer =>
          obtain ⟨updated, received⟩ := answer
          simp only [receive, Rooms.room, hget, hreceive, refuse, Except.mapError,
            Prod.mk.injEq] at h
          obtain ⟨rfl, rfl⟩ := h
          exact .answered hhistory hreceive (fun other => history?_setRoom ..) rfl

/-! ## Soundness -/

/-- The number that a client is told of is recorded under its name. -/
def Announced (rooms : Rooms) (id : DocumentId) (client : ClientId) : DocumentEvent → Prop
  | .ack seq _ => ∃ history, rooms.history? id = some history ∧
      seq ≤ recorded client history.entries
  | _ => True

theorem seq_le_of_announced {seq revision : Nat}
    (h : rooms.Announced id client (.ack seq revision))
    (hhistory : rooms.history? id = some history) : seq ≤ recorded client history.entries := by
  obtain ⟨found, hfound, hle⟩ := h
  exact Option.some.inj (hfound.symm.trans hhistory) ▸ hle

/-- Histories have no gaps, and what waits in the streams is in the histories. -/
structure Sound (rooms : Rooms) : Prop where
  indexed : ∀ id history, rooms.history? id = some history → history.Indexed
  announced : rooms.watchers.Carries rooms.Announced

theorem sound_start (inactivityTimeout : Nat) : (start inactivityTimeout).Sound where
  indexed id history hsome := by cases hsome
  announced := Subscriptions.carries_empty

/-- No client of a room has less recorded than before. -/
def Grows (rooms later : Rooms) : Prop :=
  ∀ id history, rooms.history? id = some history → ∃ updated, later.history? id = some updated ∧
    ∀ client, recorded client history.entries ≤ recorded client updated.entries

theorem Grows.announced (h : rooms.Grows later) (hevent : rooms.Announced id client event) :
    later.Announced id client event := by
  cases event with
  | ack seq revision =>
      obtain ⟨history, hsome, hle⟩ := hevent
      obtain ⟨updated, hupdated, hgrown⟩ := h id history hsome
      exact ⟨updated, hupdated, hle.trans (hgrown client)⟩
  | operation applied => trivial
  | closed => trivial

theorem Opened.grows (h : rooms.Opened id text later) : rooms.Grows later :=
  fun _ history hsome => ⟨history, h.keeps hsome, fun _ => le_rfl⟩

theorem Sound.opened (h : rooms.Sound) (hopened : rooms.Opened id text later)
    (hwatchers : later.watchers.Carries rooms.Announced) : later.Sound where
  indexed other history hsome := by
    rw [hopened other] at hsome
    split at hsome
    · obtain rfl := Option.some.inj hsome
      cases hid : rooms.history? id with
      | none => exact indexed_start text
      | some history => exact h.indexed id history hid
    · exact h.indexed other history hsome
  announced := hwatchers.mono fun _ _ _ => hopened.grows.announced

/-- Nothing but the streams has changed. -/
theorem Sound.same (h : rooms.Sound)
    (hhistory : ∀ other, later.history? other = rooms.history? other)
    (hwatchers : later.watchers.Carries rooms.Announced) : later.Sound where
  indexed other history hsome := h.indexed other history (hhistory other ▸ hsome)
  announced := hwatchers.mono fun _ _ _ => Grows.announced fun other history hsome =>
    ⟨history, (hhistory other).trans hsome, fun _ => le_rfl⟩

/-- The rooms that are open stay open with their histories, and streams keep their owners. -/
structure Keeps (rooms later : Rooms) : Prop where
  histories : ∀ id history, rooms.history? id = some history → later.history? id = some history
  streams : ∀ stream id client, rooms.watchers.Belongs stream id client →
    later.watchers.Belongs stream id client

theorem Sound.openRoom (h : rooms.Sound) (id : DocumentId) (text : Text) (now : Nat) :
    (rooms.openRoom id text now).Sound ∧ rooms.Keeps (rooms.openRoom id text now) := by
  have hopened := opened_openRoom rooms id text now
  have hwatchers := watchers_openRoom rooms id text now
  exact ⟨h.opened hopened (hwatchers ▸ h.announced),
    fun _ _ => hopened.keeps, fun _ _ _ hstream => hwatchers ▸ hstream⟩

theorem Sound.watch {since : Option Nat} {welcome : Welcome} {stream : SubscriptionId}
    (h : rooms.Sound) (hwatch : rooms.watch id client since now = .ok (later, welcome, stream)) :
    later.Sound ∧ rooms.Keeps later ∧ later.watchers.Belongs stream id client ∧
      ∃ history, later.history? id = some history ∧ welcome.revision = history.revision ∧
        ∀ entry ∈ welcome.missed, entry ∈ history.entries := by
  obtain ⟨hopened, hsubscribe, hwelcome⟩ := exists_of_watch hwatch
  obtain ⟨hwatchers, rfl⟩ := Prod.mk.inj hsubscribe
  rw [← hwatchers]
  refine ⟨h.opened hopened (hwatchers ▸ h.announced.subscribe id client), ?_,
    Subscriptions.belongs_subscribe _ _ _, hwelcome⟩
  exact ⟨fun _ _ => hopened.keeps, fun _ _ _ hstream => hwatchers ▸ hstream.subscribe id client⟩

/-- Clients may be forgotten. -/
theorem Sound.release (h : rooms.Sound) (test : DocumentId → ClientId → Bool) :
    { rooms with watchers := rooms.watchers.release test }.Sound ∧
      rooms.Keeps { rooms with watchers := rooms.watchers.release test } :=
  ⟨h.same (fun _ => rfl) (h.announced.release test),
    fun _ _ hsome => hsome, fun _ _ _ hstream => hstream.release test⟩

/-- A client that takes an event is told what is recorded. -/
theorem Sound.take {stream : SubscriptionId} (h : rooms.Sound)
    (hstream : rooms.watchers.Belongs stream id client)
    (htake : rooms.watchers.take stream = (watchers, .item event)) :
    { rooms with watchers }.Sound ∧ rooms.Keeps { rooms with watchers } ∧
      rooms.Announced id client event :=
  ⟨h.same (fun _ => rfl) (h.announced.take htake),
    ⟨fun _ _ hsome => hsome, fun _ _ _ hother => hother.take htake⟩,
    h.announced.of_take hstream htake⟩

/-- A refused message changes no history. -/
theorem Sound.refused (h : rooms.Sound)
    (hhistory : ∀ other, later.history? other = rooms.history? other)
    (hwatchers : later.watchers = rooms.watchers) : later.Sound ∧ rooms.Keeps later :=
  ⟨h.same hhistory (hwatchers ▸ h.announced),
    fun other _ hsome => (hhistory other).trans hsome, fun _ _ _ hstream => hwatchers ▸ hstream⟩

theorem belongs_announce {stream : SubscriptionId} (h : watchers.Belongs stream id client)
    (document : DocumentId) (sender : ClientId) (received : Received) :
    (announce watchers document sender received).Belongs stream id client := by
  unfold announce
  cases received with
  | applied entry => exact (h.sendTo _ _).sendTo _ _
  | duplicate seq revision => exact h.sendTo _ _

/-- An answered message leaves no gap, and its sender is told what is recorded. -/
theorem Sound.answered {received : Received} (h : rooms.Sound) (hpos : 1 ≤ message.seq)
    (hle : message.seq ≤ recorded message.clientId history.entries + 1)
    (hhistory : rooms.history? id = some history)
    (hreceive : history.receive message = .ok (updated, received))
    (hupdated : ∀ other, later.history? other =
      if other = id then some updated else rooms.history? other)
    (hwatchers : later.watchers = announce rooms.watchers id message.clientId received) :
    later.Sound := by
  obtain ⟨hindexed, hgrown, hseq, hacked⟩ :=
    (h.indexed id history hhistory).receive hpos hle hreceive
  have hcarries : rooms.watchers.Carries later.Announced := by
    refine h.announced.mono fun _ _ _ => Grows.announced fun other found hsome => ?_
    by_cases hother : other = id
    · rw [hother, hhistory] at hsome
      obtain rfl := Option.some.inj hsome
      exact ⟨updated, (hupdated other).trans (if_pos hother), hgrown⟩
    · exact ⟨found, ((hupdated other).trans (if_neg hother)).trans hsome, fun _ => le_rfl⟩
  have hack : ∀ revision client, decide (client = message.clientId) = true →
      later.Announced id client (.ack received.seq revision) := by
    intro revision client hclient
    rw [of_decide_eq_true hclient]
    exact ⟨updated, (hupdated id).trans (if_pos rfl), hacked ▸ hseq⟩
  refine ⟨fun other found hsome => ?_, ?_⟩
  · rw [hupdated other] at hsome
    split at hsome
    · exact Option.some.inj hsome ▸ hindexed
    · exact h.indexed other found hsome
  · rw [hwatchers]
    cases received with
    | applied entry => exact (hcarries.sendTo (hack entry.revision)).sendTo fun _ _ => trivial
    | duplicate seq revision => exact hcarries.sendTo (hack revision)

end Coauthor.Rooms
