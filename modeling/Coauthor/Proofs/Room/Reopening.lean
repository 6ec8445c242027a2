import Coauthor.Proofs.Room.Attendance

/-!
# Documents opened again

A history recognises a repeated operation by its client and its number, and keeps the numbers for
as long as the room is open.  A document that is opened again numbers from 1 once more.  So a room
records an operation of a visit exactly if its number exceeds all that the room had recorded for
the client when the visit began; every operation before is answered with the revision of an older
one and is lost.
-/

namespace Coauthor

open History

namespace Visit

variable {visit : Visit} {client : ClientId} {history updated : History} {entry : AppliedOperation}
  {message : OperationMessage} {received : Received}

/-- At this revision the history has, under this number, an operation that the visit handed out. -/
def HasRecorded (visit : Visit) (history : History) (seq revision : Nat) : Prop :=
  ∃ message ∈ visit.sent, message.seq = seq ∧
    ∃ entry, entry.revision = revision ∧ history.Records message entry

/-- An entry of the client has an operation of the visit if and only if its number exceeds those
that the room had recorded when the visit began. -/
theorem Sound.hasRecorded_iff (h : visit.Sound client history) (hindexed : history.Indexed)
    (hmem : entry ∈ history.entries) (hclient : entry.clientId = client) :
    visit.HasRecorded history entry.seq entry.revision ↔
      recorded client (history.entries.take visit.opened) < entry.seq := by
  have hrevision := hindexed.revision_le_iff hmem hclient visit.opened
  constructor
  · -- A message of the visit was made behind the opening, and its entry stands behind the message.
    rintro ⟨message, hsent, -, found, hfound, hrecords⟩
    have hopened := (h.issued message hsent).opened
    have hlater := hrecords.later
    by_contra hle
    have := hrevision.mpr (Nat.not_lt.mp hle)
    omega
  · intro hlt
    obtain ⟨message, hsent, hrecords⟩ := h.accounted entry hmem hclient (by
      by_contra hle
      have := hrevision.mp (Nat.not_lt.mp hle)
      omega)
    exact ⟨message, hsent, hrecords.seq.symm, entry, rfl, hrecords⟩

/-- A number that the room had recorded when the visit began is answered with the revision of
then, and nothing is recorded. -/
theorem Sound.receive_reused (h : visit.Sound client history) (hindexed : history.Indexed)
    (hclient : message.clientId = client) (hpos : 1 ≤ message.seq)
    (hle : message.seq ≤ recorded client (history.entries.take visit.opened))
    (hreceive : history.receive message = .ok (updated, received)) :
    updated = history ∧ received.revision ≤ visit.opened := by
  subst hclient
  rcases hindexed.receive_cases hpos hreceive with
    ⟨entry, hmem, howner, hseq, rfl, rfl⟩ | ⟨hlt, -⟩
  · exact ⟨rfl, (hindexed.revision_le_iff hmem howner _).mpr (hseq ▸ hle)⟩
  · exact absurd (hle.trans (recorded_take_le ..)) (Nat.not_le.mpr hlt)

/-- What the room had when the visit began does not change. -/
theorem Sound.take_opened (h : visit.Sound client history) (hindexed : history.Indexed)
    (hpos : 1 ≤ message.seq) (hreceive : history.receive message = .ok (updated, received)) :
    updated.entries.take visit.opened = history.entries.take visit.opened := by
  rcases hindexed.receive_cases hpos hreceive with
    ⟨-, -, -, -, rfl, -⟩ | ⟨-, operation, content, -, -, rfl, -⟩
  · rfl
  · exact List.take_append_of_le_length h.began

end Visit

namespace Attendance

variable {id : DocumentId} {client : ClientId} {visit : Visit} {history updated : History}
  {message : OperationMessage} {rest : List OperationMessage} {received : Received}

/-- A message that its history answers is handed out, and the visit goes on. -/
theorem exists_step_send {attendance : Attendance}
    (hvisit : attendance.visits.get? (id, client) = some visit)
    (hhistory : attendance.rooms.history? id = some history)
    (houtbox : visit.document.outbox = message :: rest)
    (hreceive : history.receive message = .ok (updated, received)) (now : Nat) :
    ∃ rooms, rooms.history? id = some updated ∧
      attendance.step (.act id client now .send) = attendance.goOn id client rooms
        { visit with
          document := { visit.document with outbox := rest }
          sent := visit.sent ++ [message] } := by
  rcases hrooms : attendance.rooms.receive id message now with ⟨rooms, result⟩
  cases Rooms.takes_of_receive hrooms with
  | refused hrefused => exact absurd hreceive (hrefused history _ hhistory)
  | answered hfound hanswer hupdated =>
      obtain rfl := Option.some.inj (hhistory.symm.trans hfound)
      obtain ⟨rfl, rfl⟩ := Prod.mk.inj (Except.ok.inj (hreceive.symm.trans hanswer))
      refine ⟨rooms, (hupdated id).trans (if_pos rfl), ?_⟩
      simp only [step, hvisit, act, send, houtbox, hrooms]

/-- Whatever the clients have done before: when the room answers the next message of a visit, the
history has an operation of this visit under the acknowledged number at the acknowledged revision
if and only if the number exceeds those that the room had recorded for the client when the visit
began.  Any other number is acknowledged with a revision from before the visit, and the history
stays as it is. -/
theorem run_records_answered (inactivityTimeout : Nat) (turns : List Turn) (now : Nat)
    (hvisit : ((start inactivityTimeout).run turns).visits.get? (id, client) = some visit)
    (hhistory : ((start inactivityTimeout).run turns).rooms.history? id = some history)
    (houtbox : visit.document.outbox = message :: rest)
    (hreceive : history.receive message = .ok (updated, received)) :
    ∃ moved,
      (((start inactivityTimeout).run turns).step (.act id client now .send)).visits.get?
        (id, client) = some moved ∧
      (((start inactivityTimeout).run turns).step (.act id client now .send)).rooms.history? id =
        some updated ∧
      message ∈ moved.sent ∧ received.seq = message.seq ∧
      (moved.HasRecorded updated message.seq received.revision ↔
        recorded client (history.entries.take visit.opened) < message.seq) ∧
      (message.seq ≤ recorded client (history.entries.take visit.opened) →
        updated = history ∧ received.revision ≤ visit.opened) := by
  have hsound := (sound_start inactivityTimeout).run turns
  obtain ⟨-, found, hfound, hfits⟩ := hsound.visits id client visit hvisit
  obtain rfl := Option.some.inj (hhistory.symm.trans hfound)
  have hindexed := hsound.rooms.indexed id history hhistory
  have hissued := hfits.orderly.issued message (houtbox ▸ List.mem_cons_self)
  have hpos := hissued.seq_pos
  obtain ⟨rooms, hrooms, hstep⟩ := exists_step_send hvisit hhistory houtbox hreceive now
  obtain ⟨hupdated, -, -, hseq⟩ :=
    hindexed.receive hpos (hissued.client ▸ hissued.seq_le) hreceive
  have hsent : message ∈ visit.sent ++ [message] := List.mem_append_right _ List.mem_cons_self
  have hmoved := (hfits.handOut houtbox).receive hindexed hpos hreceive fun _ => hsent
  obtain ⟨entry, hmem, howner, hnumber, hrevision⟩ := hindexed.exists_answered hpos hreceive
  have hiff := hmoved.hasRecorded_iff hupdated hmem (howner.trans hissued.client)
  rw [hnumber, hrevision] at hiff
  rw [hstep]
  refine ⟨_, ?_, hrooms, hsent, hseq, hiff.trans ?_, fun hle =>
    hfits.receive_reused hindexed hissued.client hpos hle hreceive⟩
  · rw [goOn, Table.get?_insert, if_pos rfl]
  · rw [← hfits.take_opened hindexed hpos hreceive]

/-- Client `a` closes a document after one edit, `b` edits it, and `a` opens it again and edits. -/
def reopened : List Turn :=
  [.prepare "doc" [] 0, .enter "doc" "a" 0,
   .act "doc" "a" 0 (.edit (.ofComponents [.insert ['x']])), .act "doc" "a" 0 .send,
   .act "doc" "a" 0 .leave, .enter "doc" "b" 0,
   .act "doc" "b" 0 (.edit (.ofComponents [.retain 1, .insert ['y']])), .act "doc" "b" 0 .send,
   .enter "doc" "a" 0, .act "doc" "a" 0 (.edit (.ofComponents [.retain 2, .insert ['z']]))]

/-- The history then, in which `a` has the first entry and nothing else. -/
def reopenedHistory : History :=
  { content := ['x', 'y']
    entries :=
      [{ revision := 1, clientId := "a", seq := 1, operation := .ofComponents [.insert ['x']] },
       { revision := 2, clientId := "b", seq := 1,
         operation := .ofComponents [.retain 1, .insert ['y']] }]
    appliedSeqs := .ofList [("a", 1), ("b", 1)] }

/-- The second edit of `a` is acknowledged with the revision of the first, and is lost. -/
theorem run_records_answered_reopened :
    ∃ visit moved,
      ((start 1000).run reopened).visits.get? ("doc", "a") = some visit ∧
      visit.document.content = ['x', 'y', 'z'] ∧
      ((start 1000).run reopened).rooms.history? "doc" = some reopenedHistory ∧
      (((start 1000).run reopened).step (.act "doc" "a" 0 .send)).visits.get? ("doc", "a") =
        some moved ∧
      (((start 1000).run reopened).step (.act "doc" "a" 0 .send)).rooms.history? "doc" =
        some reopenedHistory ∧
      ¬ moved.HasRecorded reopenedHistory 1 1 := by
  let message : OperationMessage :=
    { clientId := "a", seq := 1, revision := 2,
      operation := .ofComponents [.retain 2, .insert ['z']] }
  have hshown : (((start 1000).run reopened).visits.get? ("doc", "a")).map (fun visit =>
      (visit.document.outbox, visit.opened, visit.document.content)) =
        some ([message], 2, ['x', 'y', 'z']) := rfl
  have hhistory : ((start 1000).run reopened).rooms.history? "doc" = some reopenedHistory := rfl
  have hreceive : reopenedHistory.receive message = .ok (reopenedHistory, .duplicate 1 1) := rfl
  obtain ⟨visit, hvisit, hfields⟩ := Option.map_eq_some_iff.mp hshown
  obtain ⟨houtbox, hopened, hcontent⟩ := by simpa only [Prod.mk.injEq] using hfields
  obtain ⟨moved, hmoved, hroom, -, -, hiff, -⟩ :=
    run_records_answered 1000 reopened 0 hvisit hhistory houtbox hreceive
  refine ⟨visit, moved, hvisit, hcontent, hhistory, hmoved, hroom, fun hrecorded => ?_⟩
  have hlt := hiff.mp hrecorded
  rw [hopened] at hlt
  exact absurd hlt (by decide)

end Attendance

end Coauthor
