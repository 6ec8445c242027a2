import Coauthor.Proofs.Room.Broadcast

/-!
# The tail of a history

A client that starts to watch a document is told the text and its revision, and what it missed
behind the revision that it had.  From then on its stream carries the rest of the history: one event
for each entry behind the revision of the welcome, in order, until the watch ends.  An operation
that is sent again is acknowledged again, and such an acknowledgement announces nothing.
-/

namespace Coauthor

/-- What a client is told that watches a document behind the revision `since`. -/
structure History.Welcomes (history : History) (since : Option Nat) (welcome : Welcome) : Prop where
  revision : welcome.revision = history.revision
  content : welcome.content = history.content
  missed : welcome.missed = since.elim [] history.entries.drop
  reached : ∀ revision ∈ since, revision ≤ history.revision

/-- An event on a stream, and the entry that was recorded in the turn that put it there. -/
structure Telling where
  event : DocumentEvent
  recorded : Option AppliedOperation

/-- The event acknowledges an operation that was not recorded, as the history already had it. -/
def Telling.repeats : Telling → Bool
  | ⟨.ack .., none⟩ => true
  | _ => false

/-- The events that do not repeat an answer. -/
def Telling.fresh (tellings : List Telling) : List DocumentEvent :=
  (tellings.filter fun telling => !telling.repeats).map (·.event)

theorem Telling.fresh_append (first second : List Telling) :
    fresh (first ++ second) = fresh first ++ fresh second := by
  rw [fresh, List.filter_append, List.map_append]
  rfl

namespace Rooms

variable {rooms later opened : Rooms} {id : DocumentId} {client : ClientId} {turn : Turn}
  {stream : SubscriptionId} {history updated : History} {items : List DocumentEvent} {now : Nat}
  {since : Option Nat} {welcome : Welcome} {entry : AppliedOperation}

/-! ## Welcomes -/

/-- Whoever watches a document is welcomed with the history of its room. -/
theorem exists_welcomes (h : rooms.watch id client since now = .ok (later, welcome, stream)) :
    ∃ history, later.history? id = some history ∧ history.Welcomes since welcome := by
  cases hvisit : rooms.visit id since now with
  | error error => simp [watch, hvisit, bind, Except.bind] at h
  | ok visited =>
      obtain ⟨room, missed⟩ := visited
      simp only [watch, hvisit, bind, Except.bind, pure, Except.pure, Except.ok.injEq,
        Prod.mk.injEq] at h
      obtain ⟨rfl, rfl, -⟩ := h
      refine ⟨room.history, (history?_setRoom ..).trans (if_pos rfl), rfl, rfl, ?_, ?_⟩
      · cases since with
        | none => exact (Prod.mk.inj (Except.ok.inj hvisit)).2.symm
        | some revision => exact (exists_of_visit_since hvisit).2.2
      · rintro revision rfl
        exact (exists_of_visit_since hvisit).2.1

theorem watches_of_watch (h : rooms.watch id client since now = .ok (later, welcome, stream)) :
    later.Watches stream id client := by
  obtain ⟨hwatchers, hstream⟩ := Prod.mk.inj (exists_of_watch h).2.1
  exact ⟨[], hwatchers ▸ hstream ▸ Subscriptions.stands_subscribe rooms.watchers id client⟩

/-! ## Runs -/

/-- What a turn puts on a stream. -/
def tells (rooms : Rooms) (stream : SubscriptionId) (turn : Turn) : List Telling :=
  (rooms.puts stream turn).map fun event => { event, recorded := rooms.records turn }

/-- What is put on a stream in a run. -/
def told (stream : SubscriptionId) (rooms : Rooms) : List Turn → List Telling
  | [] => []
  | turn :: rest => rooms.tells stream turn ++ told stream (rooms.step turn) rest

theorem Watches.not_ended (h : rooms.Watches stream id client) (items : List DocumentEvent) :
    ¬ rooms.watchers.Ended stream items := by
  obtain ⟨waiting, hstands⟩ := h
  exact hstands.not_ended

theorem Orderly.ended_run (horderly : rooms.Orderly) (h : rooms.watchers.Ended stream items)
    (turns : List Turn) : told stream rooms turns = [] ∧
      ∃ left, (rooms.run turns).watchers.Ended stream left := by
  induction turns generalizing rooms items with
  | nil => exact ⟨rfl, items, h⟩
  | cons turn rest ih =>
      obtain ⟨hputs, left, hleft⟩ := horderly.puts_ended h turn
      obtain ⟨hrest, hrun⟩ := ih (horderly.step turn) hleft
      refine ⟨?_, hrun⟩
      rw [told, hrest, tells, hputs]
      rfl

/-- An announcement belongs to a turn that records, so that it repeats nothing. -/
theorem fresh_announcement (client : ClientId) (entry : AppliedOperation) :
    Telling.fresh [{ event := announcement client entry, recorded := some entry }] =
      [announcement client entry] := by
  unfold announcement
  split
  · rfl
  · rfl

/-- As long as a watch stands, its stream is told of the entries that are recorded. -/
theorem Orderly.fresh_told (horderly : rooms.Orderly) (h : rooms.Watches stream id client)
    (hhistory : rooms.history? id = some history) {turns : List Turn}
    (hafter : (rooms.run turns).Watches stream id client) :
    ∃ current added, (rooms.run turns).history? id = some current ∧
      current.entries = history.entries ++ added ∧
      Telling.fresh (told stream rooms turns) = added.map (announcement client) := by
  induction turns generalizing rooms history with
  | nil => exact ⟨history, [], hhistory, (List.append_nil _).symm, rfl⟩
  | cons turn rest ih =>
      have hfurther := horderly.step turn
      rw [told, Telling.fresh_append]
      obtain ⟨items, hstands⟩ := h
      cases horderly.served hstands hhistory turn with
      | kept hstays hwatches hsame hputs =>
          obtain ⟨current, added, hcurrent, hentries, hfresh⟩ := ih hfurther hwatches hsame hafter
          refine ⟨current, added, hcurrent, hentries, ?_⟩
          rw [tells, hputs, hfresh]
          rfl
      | @told updated entry hstays hwatches hupdated hgains hrecords hputs =>
          obtain ⟨current, added, hcurrent, hentries, hfresh⟩ :=
            ih hfurther hwatches hupdated hafter
          refine ⟨current, entry :: added, hcurrent, ?_, ?_⟩
          · rw [hentries, hgains.entries, ← List.append_cons]
          · rw [tells, hputs, hrecords, hfresh, List.map_singleton, fresh_announcement]
            rfl
      | repeated hstays hwatches hsame hrecords hputs =>
          obtain ⟨current, added, hcurrent, hentries, hfresh⟩ := ih hfurther hwatches hsame hafter
          refine ⟨current, added, hcurrent, hentries, ?_⟩
          rw [tells, hputs, hrecords, hfresh]
          rfl
      | ended hends hended hputs =>
          obtain ⟨left, hleft⟩ := hended
          obtain ⟨-, last, hlast⟩ := hfurther.ended_run hleft rest
          exact absurd hlast (hafter.not_ended last)

/-- A watch goes on unless a turn ends it; then it is told at most that its room was closed. -/
theorem Orderly.told_of_ends (horderly : rooms.Orderly) (h : rooms.Watches stream id client)
    (turn : Turn) :
    ((rooms.step turn).Watches stream id client ↔ ¬ rooms.Ends id client turn) ∧
      (rooms.Ends id client turn → ∀ rest, told stream rooms (turn :: rest) =
        if turn.isReap then [{ event := .closed, recorded := none }] else []) := by
  obtain ⟨history, hhistory⟩ := horderly.housed stream id client h
  obtain ⟨items, hstands⟩ := h
  cases horderly.served hstands hhistory turn with
  | kept hstays hwatches hsame hputs => exact ⟨iff_of_true hwatches hstays, (absurd · hstays)⟩
  | told hstays hwatches hupdated hgains hrecords hputs =>
      exact ⟨iff_of_true hwatches hstays, (absurd · hstays)⟩
  | repeated hstays hwatches hsame hrecords hputs =>
      exact ⟨iff_of_true hwatches hstays, (absurd · hstays)⟩
  | ended hends hended hputs =>
      obtain ⟨left, hleft⟩ := hended
      refine ⟨iff_of_false (fun hwatches => hwatches.not_ended left hleft) (not_not_intro hends),
        fun _ rest => ?_⟩
      rw [told, ((horderly.step turn).ended_run hleft rest).1, List.append_nil, tells, hputs]
      cases turn with
      | reap now => rfl
      | openRoom id text now => rfl
      | watch id client since now => rfl
      | unwatch id client => rfl
      | detach client => rfl
      | receive id message now => rfl
      | read stream => rfl

/-- Whatever has been asked of the rooms: a client that is let to watch a document behind the
revision `since` is told the entries from there to the revision of the room.  Its stream then
carries, apart from repeated acknowledgements, one event for each later entry and in their order:
the number and the revision of an own one, the operation of another's.  It does so until the client
leaves, is forgotten or watches anew, and from then on carries nothing, or until the room is reaped,
and then carries one last event that says so.  No client has two watches of a document. -/
theorem run_streams_tail (inactivityTimeout : Nat) (before : List Turn)
    (hwatch : ((start inactivityTimeout).run before).watch id client since now =
      .ok (opened, welcome, stream)) :
    opened.Watches stream id client ∧
    ∃ history, opened.history? id = some history ∧ history.Welcomes since welcome ∧
      ∀ after,
        (∀ first second document name, (opened.run after).Watches first document name →
          (opened.run after).Watches second document name → first = second) ∧
        ((opened.run after).Watches stream id client →
          (∃ current, (opened.run after).history? id = some current ∧
            current.entries.map (·.revision) = List.range' 1 current.revision ∧
            history.entries <+: current.entries ∧
            Telling.fresh (told stream opened after) =
              (current.entries.drop welcome.revision).map (announcement client)) ∧
          ∀ turn,
            ((opened.run (after ++ [turn])).Watches stream id client ↔
              ¬ (opened.run after).Ends id client turn) ∧
            ((opened.run after).Ends id client turn → ∀ rest,
              (told stream (opened.run after) (turn :: rest)).map (·.event) =
                if turn.isReap then [.closed] else [])) := by
  have horderly : opened.Orderly := ((orderly_start inactivityTimeout).run before).watch hwatch
  have hwatches := watches_of_watch hwatch
  obtain ⟨history, hhistory, hwelcomes⟩ := exists_welcomes hwatch
  refine ⟨hwatches, history, hhistory, hwelcomes, fun after => ?_⟩
  have hlater : (opened.run after).Orderly := horderly.run after
  refine ⟨hlater.alone, fun hstands => ⟨?_, fun turn => ?_⟩⟩
  · obtain ⟨current, added, hcurrent, hentries, hfresh⟩ :=
      horderly.fresh_told hwatches hhistory hstands
    refine ⟨current, hcurrent, (hlater.ordered id current hcurrent).numbered,
      ⟨added, hentries.symm⟩, ?_⟩
    rw [hfresh, hentries, hwelcomes.revision, History.revision, List.drop_left]
  · obtain ⟨hgoes, htold⟩ := hlater.told_of_ends hstands turn
    refine ⟨?_, fun hends rest => ?_⟩
    · rw [run_append]
      exact hgoes
    · rw [htold hends rest, apply_ite (List.map _)]
      rfl

/-- `a` has edited a document that `b` knows as it was before. -/
def edited : List Turn :=
  [.openRoom "doc" [] 0,
   .receive "doc"
     { clientId := "a", seq := 1, revision := 0, operation := .ofComponents [.insert ['x']] } 0]

/-- `b` returns, `a` and `b` edit, and `b` sends its edit twice. -/
def shared : List Turn :=
  [.receive "doc" { clientId := "a", seq := 2, revision := 1
                    operation := .ofComponents [.retain 1, .insert ['y']] } 0,
   .receive "doc" { clientId := "b", seq := 1, revision := 2
                    operation := .ofComponents [.insert ['z'], .retain 2] } 0,
   .receive "doc" { clientId := "b", seq := 1, revision := 2
                    operation := .ofComponents [.insert ['z'], .retain 2] } 0]

/-- `b` is told of both edits once, and of the closing when the room is reaped. -/
theorem run_streams_tail_shared :
    ∃ opened welcome stream,
      ((start 1000).run edited).watch "doc" "b" (some 0) 0 = .ok (opened, welcome, stream) ∧
      welcome.missed.map (·.revision) = [1] ∧
      Telling.fresh (told stream opened shared) =
        [.operation { revision := 2, clientId := "a", seq := 2
                      operation := .ofComponents [.retain 1, .insert ['y']] },
         .ack 1 3] ∧
      ∀ rest, (told stream (opened.run shared) (.reap 1000 :: rest)).map (·.event) = [.closed] := by
  let opened := (start 1000).run (edited ++ [.watch "doc" "b" (some 0) 0])
  let first : AppliedOperation :=
    { revision := 1, clientId := "a", seq := 1, operation := .ofComponents [.insert ['x']] }
  let welcome : Welcome := { revision := 1, content := ['x'], missed := [first] }
  have hwatch : ((start 1000).run edited).watch "doc" "b" (some 0) 0 = .ok (opened, welcome, 0) :=
    rfl
  obtain ⟨-, history, -, -, hruns⟩ := run_streams_tail 1000 edited hwatch
  obtain ⟨-, hstands⟩ := hruns shared
  let events : List DocumentEvent :=
    [.operation { revision := 2, clientId := "a", seq := 2
                  operation := .ofComponents [.retain 1, .insert ['y']] },
     .ack 1 3]
  have hshared : (opened.run shared).Watches 0 "doc" "b" := ⟨events ++ [DocumentEvent.ack 1 3], rfl⟩
  obtain ⟨⟨current, hcurrent, -, -, hfresh⟩, hends⟩ := hstands hshared
  refine ⟨opened, welcome, 0, hwatch, rfl, hfresh.trans ?_, fun rest => ?_⟩
  · have hentries : ((opened.run shared).history? "doc").map (fun history =>
        (history.entries.drop 1).map (announcement "b")) = some events := rfl
    rw [hcurrent] at hentries
    exact Option.some.inj hentries
  · exact (hends (.reap 1000)).2 (List.mem_mergeSort.mpr (by decide)) rest

end Rooms

end Coauthor
