import Coauthor.Proofs.Room.Tail

/-!
# Clients that return

A client that was away asks for what it missed behind the revision of its copy, and a room that has
not been closed since answers with the entries that make the present text of the copy.  The revision
is all that a room knows a client by.  A room that was closed is not there to answer, but if the
document has been opened again and has come as far as the copy, the entries of the new room are
taken for those that the client missed.
-/

namespace Coauthor

/-- What a client has of a document: the text at a revision. -/
structure Copy where
  text : Text
  revision : Nat
  deriving DecidableEq, Repr

namespace Copy

def apply (copy : Copy) (entry : AppliedOperation) : Except OperationError Copy := do
  return { text := ← entry.operation.apply copy.text, revision := entry.revision }

/-- The client takes an event up: an own operation when it is acknowledged for the first time, and
another's as it comes. -/
def hear (copy : Copy) : Telling → Except OperationError Copy
  | ⟨.ack .., some entry⟩ => copy.apply entry
  | ⟨.ack .., none⟩ => .ok copy
  | ⟨.operation entry, _⟩ => copy.apply entry
  | ⟨.closed, _⟩ => .ok copy

def hearAll (copy : Copy) (heard : List Telling) : Except OperationError Copy :=
  heard.foldlM hear copy

/-- The copy that is up to date. -/
def of (history : History) : Copy := { text := history.content, revision := history.revision }

variable {copy next : Copy} {history updated : History} {entry : AppliedOperation}
  {telling : Telling} {heard : List Telling}

theorem hearAll_cons (h : copy.hear telling = .ok next) (heard : List Telling) :
    copy.hearAll (telling :: heard) = next.hearAll heard := by
  rw [hearAll, List.foldlM_cons, h]
  rfl

/-- A copy that is up to date stays so with the announcement of a new entry. -/
theorem hear_announcement (client : ClientId) (h : history.Gains updated entry) :
    (of history).hear { event := Rooms.announcement client entry, recorded := some entry } =
      .ok (of updated) := by
  have happly : (of history).apply entry = .ok (of updated) := by
    have hrevision : updated.revision = entry.revision := by
      rw [h.revision, History.revision, h.entries, List.length_append]
      rfl
    rw [apply, of, h.applies, of, hrevision]
    rfl
  unfold Rooms.announcement
  split
  · exact happly
  · exact happly

end Copy

namespace Rooms

open History

variable {rooms opened : Rooms} {id : DocumentId} {client : ClientId} {stream : SubscriptionId}
  {history : History} {now revision : Nat} {since : Option Nat} {welcome : Welcome}
  {turns first second : List Turn} {heard : List Telling}

/-- No turn of a run closes the room of a document. -/
def StaysOpen (id : DocumentId) : Rooms → List Turn → Prop
  | _, [] => True
  | rooms, turn :: rest => ¬ rooms.Closes id turn ∧ StaysOpen id (rooms.step turn) rest

theorem staysOpen_append :
    StaysOpen id rooms (first ++ second) ↔
      StaysOpen id rooms first ∧ StaysOpen id (rooms.run first) second := by
  induction first generalizing rooms with
  | nil => exact (iff_of_eq (true_and _)).symm
  | cons turn rest ih => exact (and_congr_right fun _ => ih).trans and_assoc.symm

/-- A room that stays open goes on with its history. -/
theorem StaysOpen.exists_continues (h : StaysOpen id rooms turns)
    (hhistory : rooms.history? id = some history) :
    ∃ present, (rooms.run turns).history? id = some present ∧ history.Continues present := by
  induction turns generalizing rooms history with
  | nil => exact ⟨history, hhistory, .refl history⟩
  | cons turn rest ih =>
      obtain ⟨hopen, hrest⟩ := h
      obtain ⟨updated, hupdated, hnext⟩ :=
        (evolves_step rooms turn id).exists_continues hhistory hopen
      obtain ⟨present, hpresent, hlater⟩ := ih hrest hupdated
      exact ⟨present, hpresent, hnext.trans hlater⟩

/-- The history of a room that has come as far as a revision had it at some time, in the same room,
if the room was not beyond it at first. -/
theorem exists_moment (turns : List Turn)
    (hbegin : ∀ found ∈ rooms.history? id, found.revision ≤ revision)
    (hhistory : (rooms.run turns).history? id = some history) (hle : revision ≤ history.revision) :
    ∃ first second base, turns = first ++ second ∧ StaysOpen id (rooms.run first) second ∧
      (rooms.run first).history? id = some base ∧ base.revision = revision ∧
      base.Continues history := by
  induction turns using List.reverseRecOn generalizing history with
  | nil => exact ⟨[], [], history, rfl, trivial, hhistory,
      Nat.le_antisymm (hbegin history hhistory) hle, .refl history⟩
  | append_singleton turns turn ih =>
      rcases Nat.eq_or_lt_of_le hle with hsame | hlt
      · exact ⟨_, [], history, (List.append_nil _).symm, trivial, hhistory, hsame.symm,
          .refl history⟩
      · -- The revision was there before the turn, in the room that the turn leaves open.
        obtain ⟨before, hbefore, hreached, hopen, hcontinues⟩ :
            ∃ before, (rooms.run turns).history? id = some before ∧ revision ≤ before.revision ∧
              ¬ (rooms.run turns).Closes id turn ∧ before.Continues history := by
          rw [run_append] at hhistory
          have hevolves := evolves_step (rooms.run turns) turn id
          generalize hold : (rooms.run turns).history? id = old at hevolves
          generalize hnew : ((rooms.run turns).step turn).history? id = new at hevolves
          obtain rfl : new = some history := hnew.symm.trans hhistory
          cases hevolves with
          | opened text => exact absurd hlt (Nat.not_lt_zero revision)
          | kept found hopen => exact ⟨history, rfl, hle, hopen, .refl history⟩
          | @gained before later entry hopen hgains =>
              have hrevision : history.revision = before.revision + 1 := by
                rw [History.revision, hgains.entries, List.length_append]
                rfl
              exact ⟨before, rfl, by omega, hopen, hgains.continues⟩
        obtain ⟨first, second, base, rfl, hstays, hbase, hrevision, hearlier⟩ := ih hbefore hreached
        refine ⟨first, second ++ [turn], base, List.append_assoc .., ?_, hbase, hrevision,
          hearlier.trans hcontinues⟩
        rw [run_append] at hopen
        exact staysOpen_append.mpr ⟨hstays, hopen, trivial⟩

/-- Whoever was told the beginning of what a stream carried has the text that the room had at some
time. -/
theorem Orderly.exists_hearAll (horderly : rooms.Orderly) (h : rooms.Watches stream id client)
    (hhistory : rooms.history? id = some history) (hheard : heard <+: told stream rooms turns) :
    ∃ first second reached, turns = first ++ second ∧
      (rooms.run first).history? id = some reached ∧ history.revision ≤ reached.revision ∧
      (Copy.of history).hearAll heard = .ok (.of reached) := by
  induction turns generalizing rooms history heard with
  | nil =>
      obtain rfl := List.prefix_nil.mp hheard
      exact ⟨[], [], history, rfl, hhistory, le_rfl, rfl⟩
  | cons turn rest ih =>
      have hfurther := horderly.step turn
      have hnow : ∃ first second reached, turn :: rest = first ++ second ∧
          (rooms.run first).history? id = some reached ∧ history.revision ≤ reached.revision ∧
          (Copy.of history).hearAll [] = .ok (.of reached) :=
        ⟨[], _, history, rfl, hhistory, le_rfl, rfl⟩
      obtain ⟨items, hstands⟩ := h
      rw [told, tells] at hheard
      cases horderly.served hstands hhistory turn with
      | kept hstays hwatches hsame hputs =>
          rw [hputs] at hheard
          obtain ⟨first, second, reached, rfl, hreached, hle, hhears⟩ :=
            ih hfurther hwatches hsame hheard
          exact ⟨turn :: first, second, reached, rfl, hreached, hle, hhears⟩
      | @told updated entry hstays hwatches hupdated hgains hrecords hputs =>
          rw [hputs, hrecords] at hheard
          rcases List.prefix_cons_iff.mp hheard with rfl | ⟨later, rfl, hlater⟩
          · exact hnow
          · obtain ⟨first, second, reached, rfl, hreached, hle, hhears⟩ :=
              ih hfurther hwatches hupdated hlater
            refine ⟨turn :: first, second, reached, rfl, hreached,
              hgains.continues.revision_le.trans hle, ?_⟩
            rw [Copy.hearAll_cons (Copy.hear_announcement client hgains), hhears]
      | repeated hstays hwatches hsame hrecords hputs =>
          rw [hputs, hrecords] at hheard
          rcases List.prefix_cons_iff.mp hheard with rfl | ⟨later, rfl, hlater⟩
          · exact hnow
          · obtain ⟨first, second, reached, rfl, hreached, hle, hhears⟩ :=
              ih hfurther hwatches hsame hlater
            exact ⟨turn :: first, second, reached, rfl, hreached, hle,
              (Copy.hearAll_cons rfl later).trans hhears⟩
      | ended hends hended hputs =>
          obtain ⟨left, hleft⟩ := hended
          rw [hputs, (hfurther.ended_run hleft rest).1, List.append_nil] at hheard
          split at hheard
          · rcases List.prefix_cons_iff.mp hheard with rfl | ⟨later, rfl, hlater⟩
            · exact hnow
            · obtain rfl := List.prefix_nil.mp hlater
              exact hnow
          · obtain rfl := List.prefix_nil.mp hheard
            exact hnow

/-! ## Watching again -/

/-- A client cannot return to a room that is closed. -/
theorem watch_since_closed (hclosed : rooms.history? id = none) (client : ClientId)
    (revision now : Nat) : rooms.watch id client (some revision) now = .error (.notFound id) := by
  have hget : rooms.rooms.get? id = none := Option.map_eq_none_iff.mp hclosed
  simp [watch, visit, Rooms.room, hget, bind, Except.bind]

/-- It can return to an open room that is not behind its copy. -/
theorem exists_watch_since (hhistory : rooms.history? id = some history)
    (hle : revision ≤ history.revision) (client : ClientId) (now : Nat) :
    ∃ answer, rooms.watch id client (some revision) now = .ok answer := by
  obtain ⟨room, hget, rfl⟩ := Option.map_eq_some_iff.mp hhistory
  simp [watch, visit, Rooms.room, hget, since_of_le hle, refuse, Except.mapError, bind,
    Except.bind, pure, Except.pure]

/-- The room that a client returns to was open, and is unchanged. -/
theorem history?_of_watch_since {rejoined : Rooms} {again : Welcome} {renewed : SubscriptionId}
    (h : rooms.watch id client (some revision) now = .ok (rejoined, again, renewed)) :
    ∃ present, rooms.history? id = some present ∧ rejoined.history? id = some present ∧
      present.Welcomes (some revision) again := by
  obtain ⟨present, hpresent, hwelcomes⟩ := exists_welcomes h
  cases hhistory : rooms.history? id with
  | none =>
      rw [watch_since_closed hhistory] at h
      cases h
  | some found =>
      obtain rfl := Option.some.inj (((exists_of_watch h).1.keeps hhistory).symm.trans hpresent)
      exact ⟨found, rfl, hpresent, hwelcomes⟩

/-- Whatever has been asked of the rooms: a client visits a document and takes up the beginning of
what it is told, so that it has a copy.  If the room stays open, the client is let in again behind
the revision of the copy, and what it missed leads from the text of the copy to that of the room.
If the room is closed, the client is told so.  Otherwise the room may be another than the one that
the copy is of: it is taken for the same if it has come as far, and what the client is told leads to
its text from the text that this room had at the revision of the copy. -/
theorem run_rejoin_continues (inactivityTimeout : Nat) (before during : List Turn)
    (hwatch : ((start inactivityTimeout).run before).watch id client none now =
      .ok (opened, welcome, stream))
    (hheard : heard <+: told stream opened during) :
    ∃ copy, Copy.hearAll { text := welcome.content, revision := welcome.revision } heard =
        .ok copy ∧
      ((opened.run during).history? id = none → ∀ later,
        (opened.run during).watch id client (some copy.revision) later = .error (.notFound id)) ∧
      (StaysOpen id opened during → ∀ later,
        ∃ answer, (opened.run during).watch id client (some copy.revision) later = .ok answer) ∧
      ∀ later rejoined again renewed,
        (opened.run during).watch id client (some copy.revision) later =
          .ok (rejoined, again, renewed) →
        ∃ present, rejoined.history? id = some present ∧
          again.revision = present.revision ∧ again.content = present.content ∧
          (StaysOpen id opened during →
            replay copy.text again.missed = .ok present.content) ∧
          ∃ first second base, during = first ++ second ∧
            StaysOpen id (opened.run first) second ∧
            (opened.run first).history? id = some base ∧ base.revision = copy.revision ∧
            replay base.content again.missed = .ok present.content := by
  have horderly : opened.Orderly := ((orderly_start inactivityTimeout).run before).watch hwatch
  obtain ⟨history, hhistory, hwelcomes⟩ := exists_welcomes hwatch
  obtain ⟨first, second, reached, rfl, hreached, hle, hhears⟩ :=
    horderly.exists_hearAll (watches_of_watch hwatch) hhistory hheard
  have hstays (hopen : StaysOpen id opened (first ++ second)) :
      ∃ present, (opened.run (first ++ second)).history? id = some present ∧
        reached.Continues present := by
    rw [run_append]
    exact (staysOpen_append.mp hopen).2.exists_continues hreached
  refine ⟨.of reached, ?_, fun hclosed => watch_since_closed hclosed client _, ?_, ?_⟩
  · rw [hwelcomes.content, hwelcomes.revision]
    exact hhears
  · intro hopen
    obtain ⟨present, hpresent, hcontinues⟩ := hstays hopen
    exact exists_watch_since hpresent hcontinues.revision_le client
  · intro later rejoined again renewed hagain
    obtain ⟨present, hpresent, hrejoined, hanswer⟩ := history?_of_watch_since hagain
    have hmissed : again.missed = present.entries.drop reached.revision := hanswer.missed
    refine ⟨present, hrejoined, hanswer.revision, hanswer.content, fun hopen => ?_, ?_⟩
    · obtain ⟨found, hfound, hcontinues⟩ := hstays hopen
      obtain rfl := Option.some.inj (hfound.symm.trans hpresent)
      rw [hmissed]
      exact hcontinues.replay_drop
    · have hbegin : ∀ found ∈ opened.history? id, found.revision ≤ reached.revision := by
        intro found hfound
        exact Option.some.inj (hhistory.symm.trans hfound) ▸ hle
      obtain ⟨early, late, base, hsplit, hopen, hbase, hrevision, hcontinues⟩ :=
        exists_moment (first ++ second) hbegin hpresent (hanswer.reached _ rfl)
      refine ⟨early, late, base, hsplit, hopen, hbase, hrevision, ?_⟩
      rw [hmissed, ← hrevision]
      exact hcontinues.replay_drop

/-- `a` has visited a document and knows its text. -/
def visited : Rooms := (start 1000).run [.openRoom "doc" ['o', 'l', 'd'] 0, .watch "doc" "a" none 0]

/-- While `a` is away the room is reaped, and then opened with another text. -/
def replaced : List Turn := [.detach "a", .reap 1000, .openRoom "doc" ['n', 'e', 'w'] 1000]

/-- The client returns to another room than the one that it knows, and misses nothing there. -/
theorem run_rejoin_continues_replaced :
    ∃ rejoined again renewed,
      (visited.run replaced).watch "doc" "a" (some 0) 1000 = .ok (rejoined, again, renewed) ∧
      again.content = ['n', 'e', 'w'] ∧
      replay ['o', 'l', 'd'] again.missed = .ok ['o', 'l', 'd'] ∧
      ¬ StaysOpen "doc" visited replaced := by
  have hwatch : ((start 1000).run [.openRoom "doc" ['o', 'l', 'd'] 0]).watch "doc" "a" none 0 =
      .ok (visited, { revision := 0, content := ['o', 'l', 'd'], missed := [] }, 0) := rfl
  obtain ⟨copy, hcopy, -, -, hreturns⟩ :=
    run_rejoin_continues 1000 [.openRoom "doc" ['o', 'l', 'd'] 0] replaced hwatch
      (List.nil_prefix ..)
  obtain rfl : { text := ['o', 'l', 'd'], revision := 0 } = copy := Except.ok.inj hcopy
  have hidle : (visited.detach "a").idle 1000 = ["doc"] := List.mergeSort_singleton ..
  have hrun : visited.run replaced =
      ((visited.detach "a").close "doc").openRoom "doc" ['n', 'e', 'w'] 1000 := by
    change (((visited.detach "a").idle 1000).foldl close (visited.detach "a")).openRoom .. = _
    rw [hidle]
    rfl
  obtain ⟨⟨rejoined, again, renewed⟩, hagain⟩ :
      ∃ answer, (visited.run replaced).watch "doc" "a" (some 0) 1000 = .ok answer := by
    rw [hrun]
    exact ⟨_, rfl⟩
  have hanswer : again.content = ['n', 'e', 'w'] ∧ again.missed = [] := by
    rw [hrun] at hagain
    cases hagain
    exact ⟨rfl, rfl⟩
  obtain ⟨present, -, -, hcontent, hopen, -⟩ := hreturns 1000 rejoined again renewed hagain
  refine ⟨rejoined, again, renewed, hagain, hanswer.1, by rw [hanswer.2]; rfl, fun hstays => ?_⟩
  have htext := hopen hstays
  rw [hanswer.2, ← hcontent, hanswer.1] at htext
  exact absurd htext (by decide)

end Rooms

end Coauthor
