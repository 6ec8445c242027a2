import Coauthor.Proofs.Text.History
import Coauthor.Proofs.Text.Pending
import Coauthor.Text.Notice

/-!
# Numbered operations

A document numbers its operations from 1 on and hands out the next number only when the one before
has been acknowledged.  A history that is sent such numbers records each client's without a gap,
and recognises a repeated operation by its number alone: whatever the document behind it, a number
that the history has is answered and not applied.  Nothing is asked of the operations themselves,
so all of this holds of a document that no longer shows the text of the server.
-/

namespace Coauthor

namespace Received

/-- The number that the answer acknowledges. -/
def seq : Received → Nat
  | applied entry => entry.seq
  | duplicate seq _ => seq

/-- The revision that the answer names for it. -/
def revision : Received → Nat
  | applied entry => entry.revision
  | duplicate _ revision => revision

end Received

namespace History

/-- How many operations of a client the entries record. -/
def recorded (client : ClientId) (entries : List AppliedOperation) : Nat :=
  (seqsOf client entries).length

/-- The operations of each client are recorded under the numbers from 1 on. -/
structure Indexed (history : History) : Prop extends Ordered history where
  consecutive : ∀ client, seqsOf client history.entries =
    List.range' 1 (recorded client history.entries)

/-- The entry has the operation of the message, carried over what came in between. -/
structure Records (history : History) (message : OperationMessage) (entry : AppliedOperation) :
    Prop where
  mem : entry ∈ history.entries
  client : entry.clientId = message.clientId
  seq : entry.seq = message.seq
  later : message.revision < entry.revision
  carried : rebase message.operation
    ((history.entries.take (entry.revision - 1)).drop message.revision) = .ok entry.operation

variable {history later : History} {message : OperationMessage} {client other : ClientId}
  {entry : AppliedOperation} {entries : List AppliedOperation} {received : Received}
  {operation : Operation} {content : Text} {seq revision : Nat}

theorem recorded_append (client : ClientId) (first second : List AppliedOperation) :
    recorded client (first ++ second) = recorded client first + recorded client second := by
  rw [recorded, seqsOf_append, List.length_append]
  rfl

theorem recorded_concat (client : ClientId) (entries : List AppliedOperation)
    (entry : AppliedOperation) : recorded client (entries ++ [entry]) =
      recorded client entries + if entry.clientId = client then 1 else 0 := by
  rw [recorded_append]
  congr 1
  rw [recorded, seqsOf_singleton]
  split <;> rfl

theorem recorded_take_le (client : ClientId) (entries : List AppliedOperation) (count : Nat) :
    recorded client (entries.take count) ≤ recorded client entries := by
  calc recorded client (entries.take count)
      ≤ recorded client (entries.take count) + recorded client (entries.drop count) :=
        Nat.le_add_right _ _
    _ = recorded client entries := by rw [← recorded_append, List.take_append_drop]

theorem indexed_start (content : Text) : (History.start content).Indexed where
  toOrdered := ordered_start content
  consecutive _ := rfl

/-- The next number of a client may be recorded. -/
theorem Indexed.append (h : history.Indexed) (content : Text)
    (hseq : seq = recorded client history.entries + 1) (operation : Operation) :
    (history.append content
      { revision := history.revision + 1, clientId := client, seq, operation }).Indexed where
  toOrdered := h.toOrdered.append content client seq operation
  consecutive := by
    intro other
    rw [History.append, recorded_concat, seqsOf_append, seqsOf_singleton, h.consecutive]
    by_cases hother : client = other
    · subst hother
      rw [if_pos rfl, if_pos rfl, List.range'_1_concat, Nat.add_comm 1, hseq]
    · rw [if_neg hother, if_neg hother, List.append_nil, Nat.add_zero]

theorem Indexed.seq_le_recorded (h : history.Indexed) (hmem : entry ∈ history.entries)
    (hclient : entry.clientId = client) : entry.seq ≤ recorded client history.entries := by
  have hseq := mem_seqsOf hmem hclient
  rw [h.consecutive, List.mem_range'_1] at hseq
  omega

/-- The numbers that a client has at a revision are those up to the number recorded there. -/
theorem Indexed.revision_le_iff (h : history.Indexed) (hmem : entry ∈ history.entries)
    (hclient : entry.clientId = client) (revision : Nat) :
    entry.revision ≤ revision ↔ entry.seq ≤ recorded client (history.entries.take revision) := by
  have hsplit : seqsOf client (history.entries.take revision) ++
      seqsOf client (history.entries.drop revision) =
        List.range' 1 (recorded client history.entries) := by
    rw [← seqsOf_append, List.take_append_drop, h.consecutive]
  -- The numbers up to the revision and those behind it are the two parts of one range.
  obtain ⟨count, -, htake, hdrop⟩ := List.range'_eq_append_iff.mp hsplit.symm
  rw [recorded, htake, List.length_range']
  constructor
  · intro hle
    have hseq := mem_seqsOf (h.mem_take hmem hle) hclient
    rw [htake, List.mem_range'_1] at hseq
    omega
  · intro hle
    by_contra hlt
    have hseq := mem_seqsOf (h.mem_drop hmem (Nat.not_le.mp hlt)) hclient
    rw [hdrop, List.mem_range'_1] at hseq
    omega

/-- A repetition is answered, and changes nothing. -/
theorem receive_of_isDuplicate (h : history.isDuplicate message = true) :
    history.receive message =
      .ok (history, .duplicate message.seq (history.duplicateRevision message)) := by
  simp [receive, h, pure, Except.pure]

/-- A message that is no repetition and not refused is recorded. -/
theorem exists_of_receive (hfresh : history.isDuplicate message = false)
    (hreceive : history.receive message = .ok (later, received)) :
    ∃ operation content,
      message.revision ≤ history.revision ∧
      rebase message.operation (history.entries.drop message.revision) = .ok operation ∧
      operation.apply history.content = .ok content ∧
      later = history.append content
        { revision := history.revision + 1, clientId := message.clientId, seq := message.seq,
          operation } ∧
      received = .applied
        { revision := history.revision + 1, clientId := message.clientId, seq := message.seq,
          operation } := by
  by_cases hle : message.revision ≤ history.revision
  · cases hrebase : rebase message.operation (history.entries.drop message.revision) with
    | error error =>
        simp [receive, hfresh, since_of_le hle, hrebase, bind, Except.bind] at hreceive
    | ok operation =>
        cases happly : operation.apply history.content with
        | error error =>
            simp [receive, hfresh, since_of_le hle, hrebase, happly, bind, Except.bind] at hreceive
        | ok content =>
            simp only [receive, hfresh, since_of_le hle, hrebase, happly, bind, Except.bind, pure,
              Except.pure, Bool.false_eq_true, if_false, Except.ok.injEq, Prod.mk.injEq] at hreceive
            exact ⟨operation, content, hle, rfl, happly, hreceive.1.symm, hreceive.2.symm⟩
  · simp [receive, hfresh, since, Nat.not_le.mp hle, bind, Except.bind] at hreceive

/-- A message with the next number or an earlier one that is not refused is either answered with
the revision that its number has reached, and changes nothing, or recorded. -/
theorem Indexed.receive_cases (h : history.Indexed) (hpos : 1 ≤ message.seq)
    (hreceive : history.receive message = .ok (later, received)) :
    (∃ entry ∈ history.entries, entry.clientId = message.clientId ∧ entry.seq = message.seq ∧
        later = history ∧ received = .duplicate message.seq entry.revision) ∨
    recorded message.clientId history.entries < message.seq ∧ ∃ operation content,
      message.revision ≤ history.revision ∧
      rebase message.operation (history.entries.drop message.revision) = .ok operation ∧
      later = history.append content
        { revision := history.revision + 1, clientId := message.clientId, seq := message.seq,
          operation } ∧
      received = .applied
        { revision := history.revision + 1, clientId := message.clientId, seq := message.seq,
          operation } := by
  have hduplicate := h.isDuplicate_iff (h.consecutive message.clientId) hpos
  by_cases hle : message.seq ≤ recorded message.clientId history.entries
  · obtain ⟨entry, hmem, hclient, hseq, hanswer⟩ :=
      h.receive_repeated (h.consecutive message.clientId) hpos hle
    obtain ⟨rfl, rfl⟩ := Prod.mk.inj (Except.ok.inj (hreceive.symm.trans hanswer))
    exact .inl ⟨entry, hmem, hclient, hseq, rfl, rfl⟩
  · have hfresh : history.isDuplicate message = false := by
      rw [Bool.eq_false_iff, Ne, hduplicate]
      exact hle
    obtain ⟨operation, content, hrevision, hrebase, -, hlater, hreceived⟩ :=
      exists_of_receive hfresh hreceive
    exact .inr ⟨Nat.not_le.mp hle, operation, content, hrevision, hrebase, hlater, hreceived⟩

/-- The next number leaves no gap, and a number that is answered is recorded. -/
theorem Indexed.receive (h : history.Indexed) (hpos : 1 ≤ message.seq)
    (hle : message.seq ≤ recorded message.clientId history.entries + 1)
    (hreceive : history.receive message = .ok (later, received)) :
    later.Indexed ∧
      (∀ client, recorded client history.entries ≤ recorded client later.entries) ∧
      message.seq ≤ recorded message.clientId later.entries ∧ received.seq = message.seq := by
  rcases h.receive_cases hpos hreceive with
    ⟨entry, hmem, hclient, hseq, rfl, rfl⟩ | ⟨hlt, operation, content, -, -, rfl, rfl⟩
  · exact ⟨h, fun _ => le_rfl, hseq ▸ h.seq_le_recorded hmem hclient, rfl⟩
  · have hnext : message.seq = recorded message.clientId history.entries + 1 :=
      Nat.le_antisymm hle hlt
    refine ⟨h.append content hnext operation, fun client => ?_, ?_, rfl⟩
    · rw [History.append, recorded_concat]
      exact Nat.le_add_right _ _
    · rw [History.append, recorded_concat, if_pos rfl]
      exact hnext.le

/-- Whatever is answered, the history has an entry under the number at the revision named. -/
theorem Indexed.exists_answered (h : history.Indexed) (hpos : 1 ≤ message.seq)
    (hreceive : history.receive message = .ok (later, received)) :
    ∃ entry ∈ later.entries, entry.clientId = message.clientId ∧ entry.seq = message.seq ∧
      entry.revision = received.revision := by
  rcases h.receive_cases hpos hreceive with
    ⟨entry, hmem, hclient, hseq, rfl, rfl⟩ | ⟨-, operation, content, -, -, rfl, rfl⟩
  · exact ⟨entry, hmem, hclient, hseq, rfl⟩
  · exact ⟨_, List.mem_append_right _ List.mem_cons_self, rfl, rfl, rfl⟩

/-- What was recorded stays recorded. -/
theorem Records.append (h : history.Records message entry) (hordered : history.Ordered)
    (content : Text) (next : AppliedOperation) :
    (history.append content next).Records message entry where
  mem := List.mem_append_left _ h.mem
  client := h.client
  seq := h.seq
  later := h.later
  carried := by
    have hle : entry.revision - 1 ≤ history.entries.length :=
      (Nat.sub_le _ 1).trans (hordered.revision_le h.mem)
    rw [History.append, List.take_append_of_le_length hle]
    exact h.carried

/-- What is recorded for a message is the message's operation. -/
theorem records_append (hle : message.revision ≤ history.revision)
    (hrebase : rebase message.operation (history.entries.drop message.revision) = .ok operation)
    (content : Text) :
    (history.append content
      { revision := history.revision + 1, clientId := message.clientId, seq := message.seq,
        operation }).Records message
      { revision := history.revision + 1, clientId := message.clientId, seq := message.seq,
        operation } where
  mem := List.mem_append_right _ List.mem_cons_self
  client := rfl
  seq := rfl
  later := Nat.lt_succ_of_le hle
  carried := by
    rw [History.append, Nat.add_sub_cancel, revision, List.take_left]
    exact hrebase

end History

/-- A message of a client, made at or behind a revision, with a number of those recorded or the
next. -/
structure OperationMessage.Issued (client : ClientId) (opened recorded : Nat)
    (message : OperationMessage) : Prop where
  client : message.clientId = client
  seq_pos : 1 ≤ message.seq
  seq_le : message.seq ≤ recorded + 1
  opened : opened ≤ message.revision

theorem OperationMessage.Issued.mono {client : ClientId} {opened recorded more : Nat}
    {message : OperationMessage} (h : message.Issued client opened recorded)
    (hle : recorded ≤ more) : message.Issued client opened more :=
  { h with seq_le := h.seq_le.trans (Nat.succ_le_succ hle) }

namespace Document

/-- A document that was opened at a revision and has seen no more of its numbers acknowledged than
are recorded. -/
structure Orderly (client : ClientId) (opened recorded : Nat) (document : Document) : Prop where
  named : document.clientId = client
  reached : opened ≤ document.revision
  numbered : ∃ acked ≤ recorded, document.client.Numbered acked
  issued : ∀ message ∈ document.outbox, message.Issued client opened recorded

variable {client : ClientId} {opened recorded more : Nat} {document moved : Document}
  {operation : Operation} {handled : Handled}

theorem exists_of_edit (hedit : document.edit operation = .ok moved) :
    ∃ content edits submission, operation.apply document.content = .ok content ∧
      document.client.applyLocal operation = .ok (edits, submission) ∧
      moved = ({ document with content, client := edits }.post submission).announce := by
  cases happly : operation.apply document.content with
  | error error => simp [Document.edit, happly, bind, Except.bind] at hedit
  | ok content =>
      cases hlocal : document.client.applyLocal operation with
      | error error => simp [Document.edit, happly, hlocal, bind, Except.bind] at hedit
      | ok edited =>
          simp only [Document.edit, happly, hlocal, bind, Except.bind, pure, Except.pure,
            Except.ok.injEq] at hedit
          exact ⟨content, edited.1, edited.2, rfl, rfl, hedit.symm⟩

theorem exists_of_applyRemote (hremote : document.applyRemote operation = .ok moved) :
    ∃ edits visible content, document.client.applyRemote operation = .ok (edits, visible) ∧
      visible.apply document.content = .ok content ∧
      moved = { document with content, client := edits }.announce := by
  cases hclient : document.client.applyRemote operation with
  | error error => simp [Document.applyRemote, hclient, bind, Except.bind] at hremote
  | ok carried =>
      cases happly : carried.2.apply document.content with
      | error error => simp [Document.applyRemote, hclient, happly, bind, Except.bind] at hremote
      | ok content =>
          simp only [Document.applyRemote, hclient, happly, bind, Except.bind, pure, Except.pure,
            Except.ok.injEq] at hremote
          exact ⟨carried.1, carried.2, content, rfl, happly, hremote.symm⟩

theorem exists_of_acknowledge (hacknowledge : document.acknowledge = .ok moved) :
    ∃ edits submission, document.client.acknowledge = .ok (edits, submission) ∧
      moved = { document with client := edits }.post submission := by
  cases hclient : document.client.acknowledge with
  | error error => simp [Document.acknowledge, hclient, bind, Except.bind] at hacknowledge
  | ok settled =>
      simp only [Document.acknowledge, hclient, bind, Except.bind, pure, Except.pure,
        Except.ok.injEq] at hacknowledge
      exact ⟨settled.1, settled.2, rfl, hacknowledge.symm⟩

theorem orderly_start (id : DocumentId) (client : ClientId) (text : Text)
    (revision recorded : Nat) :
    (start id client text revision).Orderly client revision recorded where
  named := rfl
  reached := Nat.le_refl revision
  numbered := ⟨0, Nat.zero_le recorded, rfl⟩
  issued := List.forall_mem_nil _

namespace Orderly

theorem mono (h : document.Orderly client opened recorded) (hle : recorded ≤ more) :
    document.Orderly client opened more where
  named := h.named
  reached := h.reached
  numbered := by
    obtain ⟨acked, hacked, hnumbered⟩ := h.numbered
    exact ⟨acked, hacked.trans hle, hnumbered⟩
  issued message hmem := (h.issued message hmem).mono hle

/-- The outbox may be emptied. -/
theorem handOut {rest : List OperationMessage} (h : document.Orderly client opened recorded)
    (hrest : ∀ message ∈ rest, message ∈ document.outbox) :
    { document with outbox := rest }.Orderly client opened recorded :=
  ⟨h.named, h.reached, h.numbered, fun message hmem => h.issued message (hrest message hmem)⟩

theorem announce (h : document.Orderly client opened recorded) :
    document.announce.Orderly client opened recorded :=
  ⟨h.named, h.reached, h.numbered, h.issued⟩

/-- Another edit client may stand behind the document. -/
theorem replace {edits : EditClient} (h : document.Orderly client opened recorded)
    (hnumbered : ∃ acked ≤ recorded, edits.Numbered acked)
    (hrevision : document.revision ≤ edits.revision) (content : Text) :
    { document with content, client := edits }.Orderly client opened recorded :=
  ⟨h.named, h.reached.trans hrevision, hnumbered, h.issued⟩

theorem resend (h : document.Orderly client opened recorded) :
    document.resend.Orderly client opened recorded := by
  unfold Document.resend
  cases hresend : document.client.resend with
  | none => exact h
  | some submission =>
      obtain ⟨acked, hacked, hnumbered⟩ := h.numbered
      obtain ⟨hseq, hrevision⟩ := hnumbered.resend hresend
      refine ⟨h.named, h.reached, h.numbered, fun message hmem => ?_⟩
      rcases List.mem_append.mp hmem with hmem | hmem
      · exact h.issued message hmem
      · obtain rfl := List.mem_singleton.mp hmem
        exact ⟨h.named, hseq ▸ Nat.le_add_left 1 acked, hseq ▸ Nat.succ_le_succ hacked,
          hrevision ▸ h.reached⟩

theorem edit (h : document.Orderly client opened recorded)
    (hedit : document.edit operation = .ok moved) : moved.Orderly client opened recorded := by
  obtain ⟨content, edits, submission, -, hlocal, rfl⟩ := exists_of_edit hedit
  obtain ⟨acked, hacked, hnumbered⟩ := h.numbered
  obtain ⟨hmoved, hrevision, hsubmission⟩ := hnumbered.applyLocal hlocal
  have hreplaced := h.replace ⟨acked, hacked, hmoved⟩ hrevision.ge content
  rcases hsubmission with rfl | rfl
  · exact hreplaced.announce
  · exact hreplaced.resend.announce

theorem applyRemote (h : document.Orderly client opened recorded)
    (hremote : document.applyRemote operation = .ok moved) :
    moved.Orderly client opened recorded := by
  obtain ⟨edits, visible, content, hclient, -, rfl⟩ := exists_of_applyRemote hremote
  obtain ⟨acked, hacked, hnumbered⟩ := h.numbered
  obtain ⟨hmoved, hrevision⟩ := hnumbered.applyRemote hclient
  exact (h.replace ⟨acked, hacked, hmoved⟩ (hrevision ▸ Nat.le_succ _) content).announce

/-- A number that is recorded may be acknowledged. -/
theorem acknowledge (h : document.Orderly client opened recorded) {seq : Nat}
    (houtstanding : document.isOutstanding seq) (hseq : seq ≤ recorded)
    (hacknowledge : document.acknowledge = .ok moved) :
    moved.Orderly client opened recorded := by
  obtain ⟨edits, submission, hclient, rfl⟩ := exists_of_acknowledge hacknowledge
  obtain ⟨acked, -, hnumbered⟩ := h.numbered
  obtain ⟨hmoved, hrevision, rfl⟩ := hnumbered.acknowledge hclient
  obtain ⟨outstanding, hsome, rfl⟩ := Option.map_eq_some_iff.mp (of_decide_eq_true houtstanding)
  have hacked : acked + 1 ≤ recorded := hnumbered.seq hsome ▸ hseq
  exact (h.replace ⟨acked + 1, hacked, hmoved⟩ (hrevision ▸ Nat.le_succ _) document.content).resend

theorem handle {notice : Notice} (h : document.Orderly client opened recorded)
    (hnotice : ∀ seq revision, notice = .ack seq revision → seq ≤ recorded)
    (hhandle : document.handle notice = .ok (moved, handled)) :
    moved.Orderly client opened recorded := by
  cases notice with
  | ack seq revision =>
      by_cases hwaits : document.isOutstanding seq
      · cases hacknowledge : document.acknowledge with
        | error error => simp [Document.handle, hwaits, hacknowledge, bind, Except.bind] at hhandle
        | ok acknowledged =>
            simp only [Document.handle, hwaits, hacknowledge, bind, Except.bind, pure, Except.pure,
              if_true, Except.ok.injEq, Prod.mk.injEq] at hhandle
            exact hhandle.1 ▸ h.acknowledge hwaits (hnotice seq revision rfl) hacknowledge
      · simp only [Document.handle, hwaits, Bool.false_eq_true, if_false, Except.ok.injEq,
          Prod.mk.injEq] at hhandle
        exact hhandle.1 ▸ h
  | operation applied =>
      by_cases hseen : applied.revision ≤ document.revision
      · simp only [Document.handle, hseen, if_true, Except.ok.injEq, Prod.mk.injEq] at hhandle
        exact hhandle.1 ▸ h
      · cases hremote : document.applyRemote applied.operation with
        | error error => simp [Document.handle, hseen, hremote, bind, Except.bind] at hhandle
        | ok carried =>
            simp only [Document.handle, hseen, hremote, bind, Except.bind, pure, Except.pure,
              if_false, Except.ok.injEq, Prod.mk.injEq] at hhandle
            exact hhandle.1 ▸ h.applyRemote hremote

theorem catchUpWith {entry : AppliedOperation} (h : document.Orderly client opened recorded)
    (hentry : entry.clientId = client → entry.seq ≤ recorded)
    (hcatchUp : document.catchUpWith entry = .ok moved) :
    moved.Orderly client opened recorded := by
  unfold Document.catchUpWith at hcatchUp
  split_ifs at hcatchUp with hseen hown
  · exact Except.ok.inj hcatchUp ▸ h
  · exact h.acknowledge hown.2 (hentry (hown.1.trans h.named)) hcatchUp
  · exact h.applyRemote hcatchUp

/-- However far a document gets in catching up, it stays orderly. -/
theorem catchUp {missed : List AppliedOperation} (h : document.Orderly client opened recorded)
    (hmissed : ∀ entry ∈ missed, entry.clientId = client → entry.seq ≤ recorded) :
    (document.catchUp missed).1.Orderly client opened recorded := by
  induction missed generalizing document with
  | nil => exact h
  | cons entry missed ih =>
      obtain ⟨hentry, hrest⟩ := List.forall_mem_cons.mp hmissed
      unfold Document.catchUp
      cases hcatchUp : document.catchUpWith entry with
      | error error => exact h
      | ok moved => exact ih (h.catchUpWith hentry hcatchUp) hrest

end Orderly

end Document

end Coauthor
