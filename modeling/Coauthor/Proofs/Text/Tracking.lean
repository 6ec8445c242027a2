import Coauthor.Proofs.Text.History
import Coauthor.Proofs.Text.Pending
import Coauthor.Text.Notice

/-!
# Documents that track a history

A document has taken in the first entries of a history.  Of the entries behind them at most
one is its own: the outstanding operation, whose acknowledgement has not been handled.
Every message on its way repeats an acknowledged operation or brings the outstanding one as
it stood at an earlier revision, so however often and however late it is sent again, the
history records the operation once, carried to where it belongs.
-/

namespace Coauthor

namespace History

/-- None of the entries is of this client. -/
def Foreign (client : ClientId) (entries : List AppliedOperation) : Prop :=
  ∀ entry ∈ entries, entry.clientId ≠ client

/-- Of the entries that a client has not taken in at most one is its own: the operation it
waits for, carried over the entries before. -/
inductive Ahead (client : ClientId) (waiting : Option Outstanding) :
    List AppliedOperation → Prop where
  | foreign {missed : List AppliedOperation} (hforeign : Foreign client missed) :
      Ahead client waiting missed
  | own {before after : List AppliedOperation} {entry : AppliedOperation}
      {outstanding : Outstanding} (hwaiting : waiting = some outstanding)
      (hclient : entry.clientId = client) (hseq : entry.seq = outstanding.seq)
      (hrebase : rebase outstanding.operation before = .ok entry.operation)
      (hbefore : Foreign client before) (hafter : Foreign client after) :
      Ahead client waiting (before ++ entry :: after)

variable {client : ClientId} {waiting moved : Option Outstanding} {outstanding : Outstanding}
  {entry : AppliedOperation} {entries missed : List AppliedOperation}

theorem foreign_cons : Foreign client (entry :: missed) ↔
    entry.clientId ≠ client ∧ Foreign client missed :=
  List.forall_mem_cons

theorem Foreign.append {first second : List AppliedOperation} (hfirst : Foreign client first)
    (hsecond : Foreign client second) : Foreign client (first ++ second) :=
  List.forall_mem_append.mpr ⟨hfirst, hsecond⟩

theorem Foreign.singleton (h : entry.clientId ≠ client) : Foreign client [entry] :=
  List.forall_mem_singleton.mpr h

namespace Ahead

theorem eq_of_mem (h : Ahead client waiting missed) (hmem : entry ∈ missed)
    (hclient : entry.clientId = client) :
    ∃ outstanding, waiting = some outstanding ∧ entry.seq = outstanding.seq := by
  cases h with
  | foreign hforeign => exact absurd hclient (hforeign entry hmem)
  | own hwaiting howner hseq hrebase hbefore hafter =>
      rcases List.mem_append.mp hmem with hmem | hmem
      · exact absurd hclient (hbefore entry hmem)
      rcases List.mem_cons.mp hmem with rfl | hmem
      · exact ⟨_, hwaiting, hseq⟩
      · exact absurd hclient (hafter entry hmem)

/-- If the next entry is the client's own, it is what the client waits for. -/
theorem head_own (h : Ahead client waiting (entry :: missed)) (hclient : entry.clientId = client) :
    ∃ outstanding, waiting = some outstanding ∧ entry.seq = outstanding.seq ∧
      entry.operation = outstanding.operation ∧ Foreign client missed := by
  generalize hlist : entry :: missed = list at h
  cases h with
  | foreign hforeign =>
      subst hlist
      exact absurd hclient (hforeign entry List.mem_cons_self)
  | @own before after other outstanding hwaiting howner hseq hrebase hbefore hafter =>
      cases before with
      | nil =>
          obtain ⟨rfl, rfl⟩ := List.cons.inj hlist
          exact ⟨outstanding, hwaiting, hseq, (Except.ok.inj hrebase).symm, hafter⟩
      | cons first before =>
          obtain ⟨rfl, -⟩ := List.cons.inj hlist
          exact absurd hclient (hbefore entry List.mem_cons_self)

/-- If it is another client's, what the client waits for is carried over it. -/
theorem tail (h : Ahead client waiting (entry :: missed)) (hclient : entry.clientId ≠ client)
    (hmoved : ∀ outstanding, waiting = some outstanding → ∃ carried behind,
      outstanding.operation.transform entry.operation = .ok (carried, behind) ∧
        moved = some { outstanding with operation := carried }) :
    Ahead client moved missed := by
  generalize hlist : entry :: missed = list at h
  cases h with
  | foreign hforeign =>
      subst hlist
      exact .foreign (foreign_cons.mp hforeign).2
  | @own before after other outstanding hwaiting howner hseq hrebase hbefore hafter =>
      cases before with
      | nil =>
          obtain ⟨rfl, -⟩ := List.cons.inj hlist
          exact absurd howner hclient
      | cons first before =>
          obtain ⟨rfl, rfl⟩ := List.cons.inj hlist
          obtain ⟨carried, behind, htransform, hsome⟩ := hmoved outstanding hwaiting
          rw [rebase, htransform] at hrebase
          exact .own hsome howner hseq hrebase (foreign_cons.mp hbefore).2 hafter

/-- The entries stay ahead of a client that goes on waiting for what it waited for. -/
theorem kept (h : Ahead client waiting missed)
    (hkept : ∀ outstanding, waiting = some outstanding → moved = some outstanding) :
    Ahead client moved missed := by
  cases h with
  | foreign hforeign => exact .foreign hforeign
  | own hwaiting howner hseq hrebase hbefore hafter =>
      exact .own (hkept _ hwaiting) howner hseq hrebase hbefore hafter

theorem append_foreign (h : Ahead client waiting missed) (hclient : entry.clientId ≠ client) :
    Ahead client waiting (missed ++ [entry]) := by
  cases h with
  | foreign hforeign => exact .foreign (hforeign.append (.singleton hclient))
  | own hwaiting howner hseq hrebase hbefore hafter =>
      rw [List.append_assoc, List.cons_append]
      exact .own hwaiting howner hseq hrebase hbefore (hafter.append (.singleton hclient))

theorem append_own (hforeign : Foreign client missed) (hclient : entry.clientId = client)
    (hseq : entry.seq = outstanding.seq)
    (hrebase : rebase outstanding.operation missed = .ok entry.operation) :
    Ahead client (some outstanding) (missed ++ [entry]) :=
  .own rfl hclient hseq hrebase hforeign (List.forall_mem_nil _)

end Ahead

theorem take_succ_of_drop {count : Nat} (h : entries.drop count = entry :: missed) :
    entries.take (count + 1) = entries.take count ++ [entry] := by
  rw [List.take_add, h, List.take_succ_cons, List.take_zero]

theorem drop_succ_of_drop {count : Nat} (h : entries.drop count = entry :: missed) :
    entries.drop (count + 1) = missed := by
  rw [← List.drop_drop, h, List.drop_succ_cons, List.drop_zero]

theorem lt_length_of_drop {count : Nat} (h : entries.drop count = entry :: missed) :
    count < entries.length := by
  have hlength := congrArg List.length h
  rw [List.length_drop, List.length_cons] at hlength
  omega

end History

namespace Document

open History

variable {origin base content : Text} {entry : AppliedOperation}
  {entries missed : List AppliedOperation} {acked : Nat} {document edited moved : Document}
  {outstanding : Outstanding} {message : OperationMessage} {sent : List OperationMessage}
  {operation : Operation}

/-- The entries that a document has not taken in. -/
def unseen (document : Document) (entries : List AppliedOperation) : List AppliedOperation :=
  entries.drop document.revision

theorem unseen_of_revision_eq (h : moved.revision = document.revision) :
    moved.unseen entries = document.unseen entries := by
  rw [unseen, h, unseen]

theorem unseen_of_revision_succ (h : moved.revision = document.revision + 1)
    (hunseen : document.unseen entries = entry :: missed) : moved.unseen entries = missed := by
  rw [unseen, h]
  exact drop_succ_of_drop hunseen

/-- A message repeats an acknowledged operation, or brings the outstanding one as it stood
at an earlier revision. -/
structure Vouches (entries : List AppliedOperation) (acked : Nat) (document : Document)
    (message : OperationMessage) : Prop where
  clientId : message.clientId = document.clientId
  seq_pos : 1 ≤ message.seq
  known : message.seq ≤ acked ∨ ∃ outstanding, document.client.outstanding? = some outstanding ∧
    message.seq = outstanding.seq ∧ message.revision ≤ document.revision ∧
    rebase message.operation ((entries.take document.revision).drop message.revision) =
      .ok outstanding.operation

/-- A document has taken in the first entries of a history, `acked` of its own among them,
and vouches for the messages it has `sent` and those it still holds. -/
structure Tracks (origin : Text) (entries : List AppliedOperation) (acked : Nat)
    (sent : List OperationMessage) (document : Document) : Prop where
  within : document.revision ≤ entries.length
  shows : ∃ base, replay origin (entries.take document.revision) = .ok base ∧
    document.client.Shows base document.content
  numbered : document.client.Numbered acked
  recorded : seqsOf document.clientId (entries.take document.revision) = List.range' 1 acked
  ahead : Ahead document.clientId document.client.outstanding? (document.unseen entries)
  vouched : ∀ message ∈ sent ++ document.outbox, document.Vouches entries acked message

/-- An outstanding operation that the history does not have is on its way. -/
def Owed (entries : List AppliedOperation) (sent : List OperationMessage)
    (document : Document) : Prop :=
  ∀ outstanding, document.client.outstanding? = some outstanding →
    Foreign document.clientId (document.unseen entries) →
    ∃ message ∈ sent ++ document.outbox, message.seq = outstanding.seq

theorem tracks_start (id : DocumentId) (client : ClientId) (text : Text) :
    (start id client text 0).Tracks text [] 0 [] where
  within := Nat.zero_le 0
  shows := ⟨text, rfl, EditClient.shows_start 0 text⟩
  numbered := rfl
  recorded := rfl
  ahead := .foreign (List.forall_mem_nil _)
  vouched := List.forall_mem_nil _

theorem owed_start (id : DocumentId) (client : ClientId) (text : Text) :
    (start id client text 0).Owed [] [] := by
  intro outstanding hsome
  cases hsome

/-! ## Sending -/

theorem Vouches.announce (h : document.Vouches entries acked message) :
    document.announce.Vouches entries acked message :=
  ⟨h.clientId, h.seq_pos, h.known⟩

theorem Tracks.announce (h : document.Tracks origin entries acked sent) :
    document.announce.Tracks origin entries acked sent where
  within := h.within
  shows := h.shows
  numbered := h.numbered
  recorded := h.recorded
  ahead := h.ahead
  vouched := fun message hmem => (h.vouched message hmem).announce

@[simp]
theorem clientId_post (document : Document) (submission : Option Submission) :
    (document.post submission).clientId = document.clientId := by
  cases submission <;> rfl

@[simp]
theorem client_post (document : Document) (submission : Option Submission) :
    (document.post submission).client = document.client := by
  cases submission <;> rfl

@[simp]
theorem content_post (document : Document) (submission : Option Submission) :
    (document.post submission).content = document.content := by
  cases submission <;> rfl

@[simp]
theorem listeners_post (document : Document) (submission : Option Submission) :
    (document.post submission).listeners = document.listeners := by
  cases submission <;> rfl

@[simp]
theorem changes_post (document : Document) (submission : Option Submission) :
    (document.post submission).changes = document.changes := by
  cases submission <;> rfl

theorem post_some (document : Document) (outstanding : Outstanding) (revision : Nat) :
    document.post (some { revision, outstanding }) =
      { document with outbox := document.outbox ++
        [{ clientId := document.clientId, seq := outstanding.seq, revision,
           operation := outstanding.operation }] } := rfl

/-- Whatever a document sends again, it vouches for, and then nothing is owed. -/
theorem Tracks.resend (h : document.Tracks origin entries acked sent) :
    document.resend.Tracks origin entries acked sent ∧ document.resend.Owed entries sent := by
  cases houtstanding : document.client.outstanding? with
  | none =>
      have hresend : document.resend = document := by
        simp [Document.resend, EditClient.resend, houtstanding, post]
      rw [hresend]
      refine ⟨h, fun outstanding hsome => ?_⟩
      rw [houtstanding] at hsome
      cases hsome
  | some outstanding =>
      have hseq := EditClient.Numbered.seq h.numbered houtstanding
      have hresend : document.resend =
          document.post (some { revision := document.revision, outstanding }) := by
        simp [Document.resend, EditClient.resend, houtstanding, revision]
      rw [hresend, post_some]
      refine ⟨⟨h.within, h.shows, h.numbered, h.recorded, h.ahead, ?_⟩, ?_⟩
      · rw [← List.append_assoc]
        intro message hmem
        rcases List.mem_append.mp hmem with hmem | hmem
        · have hvouched := h.vouched message hmem
          exact ⟨hvouched.clientId, hvouched.seq_pos, hvouched.known⟩
        · obtain rfl := List.mem_singleton.mp hmem
          have hnothing : (entries.take document.revision).drop document.revision = [] :=
            List.drop_eq_nil_of_le (List.length_take_le _ _)
          exact ⟨rfl, hseq ▸ Nat.le_add_left 1 acked,
            .inr ⟨outstanding, houtstanding, rfl, le_rfl, congrArg (rebase _) hnothing⟩⟩
      · intro other hsome _
        obtain rfl := Option.some.inj (houtstanding.symm.trans hsome)
        exact ⟨_, List.mem_append_right _ (List.mem_append_right _ List.mem_cons_self), rfl⟩

/-- A document may show another text as long as it waits for the same operation. -/
theorem Tracks.reshow {client : EditClient} (h : document.Tracks origin entries acked sent)
    (hbase : replay origin (entries.take document.revision) = .ok base)
    (hshown : client.Shows base content) (hnumbered : client.Numbered acked)
    (hrevision : client.revision = document.revision)
    (hkept : ∀ outstanding, document.client.outstanding? = some outstanding →
      client.outstanding? = some outstanding) :
    { document with content, client }.Tracks origin entries acked sent := by
  obtain ⟨revision, nextSeq, pending⟩ := client
  obtain rfl : revision = document.revision := hrevision
  refine ⟨h.within, ⟨base, hbase, hshown⟩, hnumbered, h.recorded, h.ahead.kept hkept,
    fun message hmem => ?_⟩
  have hvouched := h.vouched message hmem
  refine ⟨hvouched.clientId, hvouched.seq_pos, ?_⟩
  rcases hvouched.known with hknown | ⟨outstanding, hsome, hmessage⟩
  · exact .inl hknown
  · exact .inr ⟨outstanding, hkept outstanding hsome, hmessage⟩

/-- An edit sends the operation or lets it wait. -/
theorem Tracks.edit (h : document.Tracks origin entries acked sent) (hbuilt : operation.Built)
    (hedit : document.edit operation = .ok edited) :
    edited.Tracks origin entries acked sent ∧
      (document.Owed entries sent → edited.Owed entries sent) ∧
      edited.clientId = document.clientId ∧ edited.revision = document.revision := by
  obtain ⟨base, hbase, hshows⟩ := h.shows
  cases happly : operation.apply document.content with
  | error error => simp [Document.edit, happly, bind, Except.bind] at hedit
  | ok next =>
      obtain ⟨client, submission, hlocal, hshown, hnumbered, hrevision, hcases⟩ :=
        EditClient.exists_applyLocal hshows h.numbered hbuilt happly
      obtain rfl :
          ({ document with content := next, client }.post submission).announce = edited := by
        simpa [Document.edit, happly, hlocal, bind, Except.bind, pure, Except.pure] using hedit
      have htracks := h.reshow hbase hshown hnumbered hrevision (by
        intro outstanding hsome
        rcases hcases with ⟨-, hnone⟩ | ⟨-, hsame⟩
        · rw [hnone] at hsome
          cases hsome
        · exact hsame.trans hsome)
      rcases hcases with ⟨rfl, -⟩ | ⟨rfl, hsame⟩
      · obtain ⟨hresent, howed⟩ := htracks.resend
        exact ⟨hresent.announce, fun _ => howed, clientId_post _ _,
          (congrArg EditClient.revision (client_post _ _)).trans hrevision⟩
      · refine ⟨htracks.announce, fun howed outstanding hsome hforeign => ?_, rfl, hrevision⟩
        let shown : Document := { document with content := next, client }
        have hmissed : shown.unseen entries = document.unseen entries :=
          unseen_of_revision_eq hrevision
        exact howed outstanding (hsame.symm.trans hsome) (hmissed ▸ hforeign)

/-! ## Taking in entries -/

/-- A document that goes past another client's entry. -/
theorem Tracks.pass {client : EditClient} (h : document.Tracks origin entries acked sent)
    (hunseen : document.unseen entries = entry :: missed)
    (hclient : entry.clientId ≠ document.clientId)
    (hbase : replay origin (entries.take (document.revision + 1)) = .ok base)
    (hshown : client.Shows base content) (hnumbered : client.Numbered acked)
    (hrevision : client.revision = document.revision + 1)
    (hmoved : ∀ outstanding, document.client.outstanding? = some outstanding →
      ∃ carried behind, outstanding.operation.transform entry.operation = .ok (carried, behind) ∧
        client.outstanding? = some { outstanding with operation := carried }) :
    { document with content, client }.Tracks origin entries acked sent := by
  obtain ⟨revision, nextSeq, pending⟩ := client
  obtain rfl : revision = document.revision + 1 := hrevision
  refine ⟨lt_length_of_drop hunseen, ⟨base, hbase, hshown⟩, hnumbered, ?_, ?_,
    fun message hmem => ?_⟩
  · calc seqsOf document.clientId (entries.take (document.revision + 1))
        = seqsOf document.clientId (entries.take document.revision) := by
          rw [take_succ_of_drop hunseen, seqsOf_append, seqsOf_singleton, if_neg hclient,
            List.append_nil]
      _ = List.range' 1 acked := h.recorded
  · have hahead := h.ahead
    rw [hunseen] at hahead
    have htail := hahead.tail hclient hmoved
    rw [← drop_succ_of_drop hunseen] at htail
    exact htail
  · have hvouched := h.vouched message hmem
    refine ⟨hvouched.clientId, hvouched.seq_pos, ?_⟩
    rcases hvouched.known with hknown | ⟨outstanding, hsome, hseq, hle, hrebase⟩
    · exact .inl hknown
    · obtain ⟨carried, behind, htransform, hwaiting⟩ := hmoved outstanding hsome
      refine .inr ⟨_, hwaiting, hseq, Nat.le_succ_of_le hle, ?_⟩
      calc rebase message.operation
            ((entries.take (document.revision + 1)).drop message.revision)
          = rebase message.operation
              ((entries.take document.revision).drop message.revision ++ [entry]) := by
            rw [take_succ_of_drop hunseen, List.drop_append_of_le_length (by
              rw [List.length_take_of_le h.within]
              exact hle)]
        _ = .ok carried := by
            rw [rebase_append, hrebase]
            simp only [bind, Except.bind, rebase, htransform]

/-- A document that goes past its own entry. -/
theorem Tracks.settle {client : EditClient} (h : document.Tracks origin entries acked sent)
    (hunseen : document.unseen entries = entry :: missed)
    (hclient : entry.clientId = document.clientId)
    (hbase : replay origin (entries.take (document.revision + 1)) = .ok base)
    (hshown : client.Shows base document.content) (hnumbered : client.Numbered (acked + 1))
    (hrevision : client.revision = document.revision + 1) (hseq : entry.seq = acked + 1)
    (hforeign : Foreign document.clientId missed) :
    { document with client }.Tracks origin entries (acked + 1) sent := by
  obtain ⟨revision, nextSeq, pending⟩ := client
  obtain rfl : revision = document.revision + 1 := hrevision
  refine ⟨lt_length_of_drop hunseen, ⟨base, hbase, hshown⟩, hnumbered, ?_, ?_,
    fun message hmem => ?_⟩
  · calc seqsOf document.clientId (entries.take (document.revision + 1))
        = List.range' 1 acked ++ [acked + 1] := by
          rw [take_succ_of_drop hunseen, seqsOf_append, seqsOf_singleton, if_pos hclient, hseq,
            h.recorded]
      _ = List.range' 1 (acked + 1) := by
          rw [List.range'_1_concat, Nat.add_comm]
  · rw [← drop_succ_of_drop hunseen] at hforeign
    exact .foreign hforeign
  · have hvouched := h.vouched message hmem
    refine ⟨hvouched.clientId, hvouched.seq_pos, .inl ?_⟩
    rcases hvouched.known with hknown | ⟨outstanding, hsome, hmessage, -⟩
    · exact Nat.le_succ_of_le hknown
    · rw [hmessage, EditClient.Numbered.seq h.numbered hsome]

variable {history : History}

/-- Another client's operation, when it is next, is taken in. -/
theorem Tracks.exists_applyRemote (hsound : history.Sound origin)
    (h : document.Tracks origin history.entries acked sent)
    (hunseen : document.unseen history.entries = entry :: missed)
    (hclient : entry.clientId ≠ document.clientId) :
    ∃ moved, document.applyRemote entry.operation = .ok moved ∧
      moved.Tracks origin history.entries acked sent ∧
      (document.Owed history.entries sent → moved.Owed history.entries sent) ∧
      moved.clientId = document.clientId ∧ moved.revision = document.revision + 1 := by
  obtain ⟨base, hbase, hshows⟩ := h.shows
  obtain ⟨next, happly, hnext⟩ := exists_next hsound.replays hunseen hbase
  have hbuilt : entry.operation.Built :=
    hsound.built entry (List.mem_of_mem_drop (hunseen ▸ List.mem_cons_self))
  obtain ⟨client, visible, shown, hremote, hvisible, hshown, hnumbered, hrevision, hnone, hsome⟩ :=
    EditClient.exists_applyRemote hshows h.numbered hbuilt happly
  have htracks := h.pass hunseen hclient hnext hshown hnumbered hrevision hsome
  let moved : Document := { document with content := shown, client }
  have hmissed : moved.unseen history.entries = missed := unseen_of_revision_succ hrevision hunseen
  refine ⟨moved.announce, ?_, htracks.announce, ?_, rfl, hrevision⟩
  · simp [applyRemote, hremote, hvisible, bind, Except.bind, pure, Except.pure, moved]
  · intro howed outstanding hwaiting hforeign
    cases hbefore : document.client.outstanding? with
    | none => exact nomatch (hnone hbefore).symm.trans hwaiting
    | some previous =>
        obtain ⟨carried, behind, -, hmoved⟩ := hsome previous hbefore
        obtain rfl := Option.some.inj (hmoved.symm.trans hwaiting)
        refine howed previous hbefore ?_
        rw [hunseen]
        exact foreign_cons.mpr ⟨hclient, hmissed ▸ hforeign⟩

/-- The acknowledgement of a document's own operation, when it is next, is taken in; the
history has the operation as the document holds it. -/
theorem Tracks.exists_acknowledge (hsound : history.Sound origin)
    (h : document.Tracks origin history.entries acked sent)
    (hunseen : document.unseen history.entries = entry :: missed)
    (hclient : entry.clientId = document.clientId) :
    document.client.outstanding? = some { seq := entry.seq, operation := entry.operation } ∧
    ∃ moved, document.acknowledge = .ok moved ∧
      moved.Tracks origin history.entries (acked + 1) sent ∧ moved.Owed history.entries sent ∧
      moved.clientId = document.clientId ∧ moved.revision = document.revision + 1 := by
  obtain ⟨base, hbase, hshows⟩ := h.shows
  obtain ⟨next, happly, hnext⟩ := exists_next hsound.replays hunseen hbase
  obtain ⟨outstanding, hsome, hseq, hoperation, hforeign⟩ :=
    Ahead.head_own (hunseen ▸ h.ahead) hclient
  rw [hoperation] at happly
  obtain ⟨client, hacknowledge, hshown, hnumbered, hrevision⟩ :=
    EditClient.exists_acknowledge hshows h.numbered hsome happly
  have htracks := h.settle hunseen hclient hnext hshown hnumbered hrevision
    (hseq.trans (EditClient.Numbered.seq h.numbered hsome)) hforeign
  obtain ⟨hresent, howed⟩ := htracks.resend
  refine ⟨?_, _, ?_, hresent, howed, clientId_post _ _,
    (congrArg EditClient.revision (client_post _ _)).trans hrevision⟩
  · rw [hsome, hseq, hoperation]
  · simp only [acknowledge, hacknowledge, bind, Except.bind]
    rfl

/-- Whatever is next is taken in. -/
theorem Tracks.exists_catchUpWith (hsound : history.Sound origin)
    (h : document.Tracks origin history.entries acked sent)
    (hunseen : document.unseen history.entries = entry :: missed) :
    ∃ moved acked, document.catchUpWith entry = .ok moved ∧
      moved.Tracks origin history.entries acked sent ∧
      moved.clientId = document.clientId ∧ moved.revision = document.revision + 1 := by
  have hrevision := hsound.revision_of_drop hunseen
  have hbehind : ¬ entry.revision ≤ document.revision := by omega
  by_cases hclient : entry.clientId = document.clientId
  · obtain ⟨hwaiting, moved, hacknowledge, htracks, -, hmoved⟩ :=
      h.exists_acknowledge hsound hunseen hclient
    refine ⟨moved, acked + 1, ?_, htracks, hmoved⟩
    have houtstanding : document.isOutstanding entry.seq = true := by
      simp [isOutstanding, hwaiting]
    rw [catchUpWith, if_neg hbehind, if_pos ⟨hclient, houtstanding⟩, hacknowledge]
  · obtain ⟨moved, happly, htracks, -, hmoved⟩ := h.exists_applyRemote hsound hunseen hclient
    refine ⟨moved, acked, ?_, htracks, hmoved⟩
    rw [catchUpWith, if_neg hbehind, if_neg fun hown => hclient hown.1, happly]

/-- So are the next entries, however many. -/
theorem Tracks.exists_catchUp (hsound : history.Sound origin)
    (h : document.Tracks origin history.entries acked sent) {before after : List AppliedOperation}
    (hunseen : document.unseen history.entries = before ++ after) :
    ∃ moved acked, document.catchUp before = (moved, .ok ()) ∧
      moved.Tracks origin history.entries acked sent ∧
      moved.clientId = document.clientId ∧
      moved.revision = document.revision + before.length := by
  induction before generalizing document acked with
  | nil => exact ⟨document, acked, rfl, h, rfl, rfl⟩
  | cons entry before ih =>
      obtain ⟨next, nextAcked, hnext, htracks, hclient, hrevision⟩ :=
        h.exists_catchUpWith hsound hunseen
      obtain ⟨moved, movedAcked, hmoved, hmovedTracks, hmovedClient, hmovedRevision⟩ :=
        ih htracks (unseen_of_revision_succ hrevision hunseen)
      refine ⟨moved, movedAcked, ?_, hmovedTracks, hmovedClient.trans hclient, ?_⟩
      · rw [catchUp, hnext]
        exact hmoved
      · rw [hmovedRevision, hrevision, List.length_cons]
        omega

/-! ## A history that grows -/

theorem Vouches.grow (h : document.Vouches entries acked message)
    (hwithin : document.revision ≤ entries.length) (entry : AppliedOperation) :
    document.Vouches (entries ++ [entry]) acked message := by
  refine ⟨h.clientId, h.seq_pos, ?_⟩
  rw [List.take_append_of_le_length hwithin]
  exact h.known

theorem unseen_append (h : document.revision ≤ entries.length) (entry : AppliedOperation) :
    document.unseen (entries ++ [entry]) = document.unseen entries ++ [entry] :=
  List.drop_append_of_le_length h

theorem Tracks.grow (h : document.Tracks origin entries acked sent)
    (hahead : Ahead document.clientId document.client.outstanding?
      (document.unseen entries ++ [entry])) :
    document.Tracks origin (entries ++ [entry]) acked sent where
  within := h.within.trans (by simp)
  shows := by
    rw [List.take_append_of_le_length h.within]
    exact h.shows
  numbered := h.numbered
  recorded := by
    rw [List.take_append_of_le_length h.within]
    exact h.recorded
  ahead := by
    rw [unseen_append h.within]
    exact hahead
  vouched := fun message hmem => (h.vouched message hmem).grow h.within entry

theorem Owed.grow (h : document.Owed entries sent) (hwithin : document.revision ≤ entries.length)
    (entry : AppliedOperation) : document.Owed (entries ++ [entry]) sent := by
  intro outstanding hsome hforeign
  rw [unseen_append hwithin] at hforeign
  exact h outstanding hsome fun other hmem => hforeign other (List.mem_append_left _ hmem)

/-! ## The server -/

theorem seqsOf_split (document : Document) (entries : List AppliedOperation) :
    seqsOf document.clientId entries =
      seqsOf document.clientId (entries.take document.revision) ++
        seqsOf document.clientId (document.unseen entries) := by
  rw [← seqsOf_append, unseen, List.take_append_drop]

/-- As long as none of the entries ahead is its own, the history records what the document
has seen acknowledged. -/
theorem Tracks.seq_le (h : document.Tracks origin entries acked sent)
    (hforeign : Foreign document.clientId (document.unseen entries)) (hmem : entry ∈ entries)
    (hclient : entry.clientId = document.clientId) : entry.seq ≤ acked := by
  have hseq := mem_seqsOf hmem hclient
  rw [seqsOf_split, seqsOf_eq_nil hforeign, h.recorded, List.append_nil, List.mem_range'_1] at hseq
  omega

/-- The history records the operations that the document has seen acknowledged, and after
them perhaps its outstanding one. -/
theorem Tracks.seqsOf_eq (h : document.Tracks origin entries acked sent) :
    Foreign document.clientId (document.unseen entries) ∧
        seqsOf document.clientId entries = List.range' 1 acked ∨
      document.client.outstanding?.isSome ∧
        seqsOf document.clientId entries = List.range' 1 (acked + 1) := by
  have hsplit := seqsOf_split document entries
  have hahead := h.ahead
  generalize document.unseen entries = missed at hahead hsplit
  rw [h.recorded] at hsplit
  cases hahead with
  | foreign hforeign =>
      rw [seqsOf_eq_nil hforeign, List.append_nil] at hsplit
      exact .inl ⟨hforeign, hsplit⟩
  | own hsome hclient hseq hrebase hbefore hafter =>
      rw [seqsOf_append, ← List.singleton_append, seqsOf_append, seqsOf_eq_nil hbefore,
        seqsOf_eq_nil hafter, seqsOf_singleton, if_pos hclient, List.nil_append, List.append_nil,
        hseq, EditClient.Numbered.seq h.numbered hsome] at hsplit
      refine .inr ⟨hsome ▸ rfl, hsplit.trans ?_⟩
      rw [List.range'_1_concat, Nat.add_comm]

/-- The outstanding operation can be carried to the end of the history. -/
theorem Tracks.exists_rebase (hsound : history.Sound origin)
    (h : document.Tracks origin history.entries acked sent)
    (hsome : document.client.outstanding? = some outstanding) :
    ∃ operation content,
      rebase outstanding.operation (document.unseen history.entries) = .ok operation ∧
      operation.Built ∧ operation.apply history.content = .ok content := by
  obtain ⟨base, hbase, hshows⟩ := h.shows
  obtain ⟨text, htext⟩ := Pending.exists_apply_outstanding hsome hshows.applied
  have hreplay : replay base (document.unseen history.entries) = .ok history.content := by
    have hreplays := hsound.replays
    rw [← List.take_append_drop document.revision history.entries, replay_append, hbase]
      at hreplays
    exact hreplays
  obtain ⟨operation, hrebase, hbuilt, hlength⟩ := History.exists_rebase
    (hshows.built.of_outstanding hsome)
    (fun entry hmem => hsound.built entry (List.mem_of_mem_drop hmem)) hreplay
    (Operation.apply_eq_ok_iff.mp htext).1.symm
  exact ⟨operation, _, hrebase, hbuilt, Operation.apply_of_length hlength.symm⟩

/-- A message that a document vouches for is either answered with the revision that its
operation has already reached, or brings the outstanding operation, which is applied. -/
theorem Tracks.receive (hsound : history.Sound origin)
    (h : document.Tracks origin history.entries acked sent)
    (hvouched : document.Vouches history.entries acked message) :
    (∃ entry ∈ history.entries, entry.clientId = document.clientId ∧ entry.seq = message.seq ∧
      history.receive message = .ok (history, .duplicate message.seq entry.revision)) ∨
    ∃ outstanding operation content,
      document.client.outstanding? = some outstanding ∧ message.seq = outstanding.seq ∧
      Foreign document.clientId (document.unseen history.entries) ∧
      rebase outstanding.operation (document.unseen history.entries) = .ok operation ∧
      operation.Built ∧ operation.apply history.content = .ok content ∧
      history.receive message =
        .ok (history.append content
            { revision := history.revision + 1, clientId := message.clientId, seq := message.seq,
              operation },
          .applied { revision := history.revision + 1, clientId := message.clientId,
                     seq := message.seq, operation }) := by
  have hpos := hvouched.seq_pos
  rcases h.seqsOf_eq with ⟨hforeign, hseqs⟩ | ⟨-, hseqs⟩
  · rw [← hvouched.clientId] at hseqs
    rcases hvouched.known with hknown | ⟨outstanding, hsome, hseq, hle, hrebase⟩
    · rw [← hvouched.clientId]
      exact .inl (hsound.receive_repeated hseqs hpos hknown)
    · obtain ⟨operation, content, hoperation, hbuilt, happly⟩ := h.exists_rebase hsound hsome
      have hlt : acked < message.seq := by
        rw [hseq, EditClient.Numbered.seq h.numbered hsome]
        exact Nat.lt_succ_self acked
      have hcarried : rebase message.operation (history.entries.drop message.revision) =
          .ok operation := by
        rw [← List.take_append_drop document.revision history.entries,
          List.drop_append_of_le_length (by rwa [List.length_take_of_le h.within]),
          rebase_append, hrebase]
        exact hoperation
      exact .inr ⟨outstanding, operation, content, hsome, hseq, hforeign, hoperation, hbuilt,
        happly, hsound.receive_new hseqs hpos hlt (hle.trans h.within) hcarried happly⟩
  · have hle : message.seq ≤ acked + 1 := by
      rcases hvouched.known with hknown | ⟨outstanding, hsome, hseq, -⟩
      · exact Nat.le_succ_of_le hknown
      · exact (hseq.trans (EditClient.Numbered.seq h.numbered hsome)).le
    rw [← hvouched.clientId] at hseqs ⊢
    exact .inl (hsound.receive_repeated hseqs hpos hle)

end Document

end Coauthor
