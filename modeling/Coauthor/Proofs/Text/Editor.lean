import Coauthor.Proofs.Text.Tracking
import Coauthor.Text.Network

/-!
# Editors and their queues

Every notice in an inbox speaks of an entry of the history.  As long as a client has not
lost its queues, the notices waiting for it lead from its revision to the server's without
leaving one out, though some come twice; and an outstanding operation that the server does
not have is in the outbox.
-/

namespace Coauthor

open History

namespace Notice

/-- The revision of the entry that a notice speaks of. -/
def revision : Notice → Nat
  | ack _ revision => revision
  | operation applied => applied.revision

/-- What a notice tells a client is in the history. -/
def Announces (client : ClientId) (entries : List AppliedOperation) : Notice → Prop
  | ack seq revision => ∃ entry ∈ entries,
      entry.clientId = client ∧ entry.seq = seq ∧ entry.revision = revision
  | operation applied => applied ∈ entries ∧ applied.clientId ≠ client

theorem Announces.grow {client : ClientId} {entries : List AppliedOperation} {notice : Notice}
    (h : notice.Announces client entries) (entry : AppliedOperation) :
    notice.Announces client (entries ++ [entry]) := by
  cases notice with
  | ack seq revision =>
      obtain ⟨recorded, hmem, hrecorded⟩ := h
      exact ⟨recorded, List.mem_append_left _ hmem, hrecorded⟩
  | operation applied => exact ⟨List.mem_append_left _ h.1, h.2⟩

theorem Announces.revision_le {origin : Text} {history : History} {client : ClientId}
    {notice : Notice} (hsound : history.Sound origin)
    (h : notice.Announces client history.entries) : notice.revision ≤ history.revision := by
  cases notice with
  | ack seq revision =>
      obtain ⟨recorded, hmem, -, -, rfl⟩ := h
      exact hsound.revision_le hmem
  | operation applied => exact hsound.revision_le h.1

end Notice

/-- From `reached` on, each of these revisions is the next one or an earlier one, and
`last` is reached with them. -/
def Covers (last : Nat) : Nat → List Nat → Prop
  | reached, [] => reached = last
  | reached, next :: rest => next ≤ reached + 1 ∧ Covers last (max reached next) rest

namespace Covers

variable {last reached revision : Nat} {revisions : List Nat}

theorem append_next (h : Covers last reached revisions) :
    Covers (last + 1) reached (revisions ++ [last + 1]) := by
  induction revisions generalizing reached with
  | nil =>
      obtain rfl : reached = last := h
      exact ⟨le_rfl, Nat.max_eq_right (Nat.le_succ reached)⟩
  | cons next rest ih => exact ⟨h.1, ih h.2⟩

theorem append_old (h : Covers last reached revisions) (hle : revision ≤ last) :
    Covers last reached (revisions ++ [revision]) := by
  induction revisions generalizing reached with
  | nil =>
      obtain rfl : reached = last := h
      exact ⟨Nat.le_succ_of_le hle, Nat.max_eq_left hle⟩
  | cons next rest ih => exact ⟨h.1, ih h.2⟩

theorem of_le (h : ∀ revision ∈ revisions, revision ≤ last) : Covers last last revisions := by
  induction revisions with
  | nil => rfl
  | cons next rest ih =>
      obtain ⟨hnext, hrest⟩ := List.forall_mem_cons.mp h
      exact ⟨Nat.le_succ_of_le hnext, (Nat.max_eq_left hnext).symm ▸ ih hrest⟩

end Covers

namespace Document

variable {origin : Text} {history : History} {acked : Nat} {sent : List OperationMessage}
  {document : Document} {notice : Notice} {entry : AppliedOperation}

theorem isOutstanding_iff {seq : Nat} : document.isOutstanding seq ↔
    ∃ outstanding, document.client.outstanding? = some outstanding ∧ outstanding.seq = seq := by
  simp [isOutstanding]

/-- Of its own entries a document waits for the one it has not taken in. -/
theorem Tracks.isOutstanding_iff (hsound : history.Sound origin)
    (h : document.Tracks origin history.entries acked sent) (hmem : entry ∈ history.entries)
    (hclient : entry.clientId = document.clientId) :
    document.isOutstanding entry.seq ↔ document.revision < entry.revision := by
  rw [Document.isOutstanding_iff]
  constructor
  · rintro ⟨outstanding, hsome, hseq⟩
    by_contra hle
    have hrecorded := mem_seqsOf (hsound.mem_take hmem (Nat.not_lt.mp hle)) hclient
    rw [h.recorded, List.mem_range'_1] at hrecorded
    have := EditClient.Numbered.seq h.numbered hsome
    omega
  · intro hlt
    obtain ⟨outstanding, hsome, hseq⟩ := h.ahead.eq_of_mem (hsound.mem_drop hmem hlt) hclient
    exact ⟨outstanding, hsome, hseq.symm⟩

theorem unseen_eq_cons (hsound : history.Sound origin) (hmem : entry ∈ history.entries)
    (hrevision : entry.revision = document.revision + 1) :
    document.unseen history.entries = entry :: history.entries.drop (document.revision + 1) := by
  obtain ⟨index, hindex, hdrop⟩ := hsound.exists_drop hmem
  obtain rfl : index = document.revision := by omega
  exact hdrop

/-- A notice of the next entry, or of an earlier one, is handled without an error. -/
theorem Tracks.exists_handle (hsound : history.Sound origin)
    (h : document.Tracks origin history.entries acked sent)
    (hannounces : notice.Announces document.clientId history.entries)
    (hnext : notice.revision ≤ document.revision + 1) :
    ∃ moved handled acked, document.handle notice = .ok (moved, handled) ∧
      moved.Tracks origin history.entries acked sent ∧
      (document.Owed history.entries sent → moved.Owed history.entries sent) ∧
      moved.clientId = document.clientId ∧
      moved.revision = max document.revision notice.revision := by
  cases notice with
  | ack seq revision =>
      obtain ⟨entry, hmem, hclient, rfl, rfl⟩ := hannounces
      have hwaits := h.isOutstanding_iff hsound hmem hclient
      by_cases hlt : document.revision < entry.revision
      · have hrevision : entry.revision = document.revision + 1 := Nat.le_antisymm hnext hlt
        obtain ⟨-, moved, hacknowledge, htracks, howed, hmoved, hreached⟩ :=
          h.exists_acknowledge hsound (unseen_eq_cons hsound hmem hrevision) hclient
        refine ⟨moved, .done, acked + 1, ?_, htracks, fun _ => howed, hmoved, ?_⟩
        · simp [handle, hwaits.mpr hlt, hacknowledge, bind, Except.bind, pure, Except.pure]
        · rw [hreached, Notice.revision, Nat.max_eq_right hlt.le, hrevision]
      · refine ⟨document, .staleAck, acked, ?_, h, fun howed => howed, rfl, ?_⟩
        · exact if_neg fun hwaiting => hlt (hwaits.mp hwaiting)
        · exact (Nat.max_eq_left (Nat.not_lt.mp hlt)).symm
  | operation applied =>
      obtain ⟨hmem, hclient⟩ := hannounces
      by_cases hle : applied.revision ≤ document.revision
      · exact ⟨document, .replayed, acked, if_pos hle, h, fun howed => howed, rfl,
          (Nat.max_eq_left hle).symm⟩
      · have hrevision : applied.revision = document.revision + 1 :=
          Nat.le_antisymm hnext (Nat.not_le.mp hle)
        obtain ⟨moved, happly, htracks, howed, hmoved, hreached⟩ :=
          h.exists_applyRemote hsound (unseen_eq_cons hsound hmem hrevision) hclient
        refine ⟨moved, .done, acked, ?_, htracks, howed, hmoved, ?_⟩
        · simp [handle, hle, happly, bind, Except.bind, pure, Except.pure]
        · rw [hreached, Notice.revision, Nat.max_eq_right (Nat.not_le.mp hle).le, hrevision]

/-! ## Handing messages out -/

variable {entries : List AppliedOperation}

theorem Tracks.takeOutgoing (h : document.Tracks origin entries acked sent) :
    document.takeOutgoing.1.Tracks origin entries acked (sent ++ document.outbox) where
  within := h.within
  shows := h.shows
  numbered := h.numbered
  recorded := h.recorded
  ahead := h.ahead
  vouched := by
    intro message hmem
    rw [show document.takeOutgoing.1.outbox = [] from rfl, List.append_nil] at hmem
    have hvouched := h.vouched message hmem
    exact ⟨hvouched.clientId, hvouched.seq_pos, hvouched.known⟩

theorem Owed.takeOutgoing (h : document.Owed entries sent) :
    document.takeOutgoing.1.Owed entries (sent ++ document.outbox) := by
  intro outstanding hsome hforeign
  obtain ⟨message, hmem, hseq⟩ := h outstanding hsome hforeign
  exact ⟨message, List.mem_append_left _ hmem, hseq⟩

/-- Messages may get lost on the way. -/
theorem Tracks.of_subset {rest : List OperationMessage}
    (h : document.Tracks origin entries acked sent) (hsubset : rest ⊆ sent) :
    document.Tracks origin entries acked rest :=
  { h with
    vouched := by
      intro message hmem
      rcases List.mem_append.mp hmem with hmem | hmem
      · exact h.vouched message (List.mem_append_left _ (hsubset hmem))
      · exact h.vouched message (List.mem_append_right _ hmem) }

end Document

namespace Editor

variable {origin : Text} {history : History} {entry : AppliedOperation}
  {editor : Editor} {document : Document} {message : OperationMessage}
  {rest : List OperationMessage} {notice : Notice} {notices : List Notice}

/-- The document tracks the history, vouches for the outbox, and the inbox tells the truth. -/
structure Consistent (origin : Text) (entries : List AppliedOperation) (editor : Editor) :
    Prop where
  tracks : ∃ acked, editor.document.Tracks origin entries acked editor.outbox
  heard : ∀ notice ∈ editor.inbox, notice.Announces editor.document.clientId entries

/-- Nothing that the client needs has been lost. -/
structure InTouch (entries : List AppliedOperation) (editor : Editor) : Prop where
  owed : editor.document.Owed entries editor.outbox
  covers : Covers entries.length editor.document.revision (editor.inbox.map Notice.revision)

theorem consistent_start (name : ClientId) (text : Text) :
    (start name text).Consistent text [] :=
  ⟨⟨0, Document.tracks_start "doc" name text⟩, List.forall_mem_nil _⟩

theorem inTouch_start (name : ClientId) (text : Text) : (start name text).InTouch [] :=
  ⟨Document.owed_start "doc" name text, rfl⟩

theorem Consistent.flush {entries : List AppliedOperation}
    (h : editor.Consistent origin entries) : editor.flush.Consistent origin entries := by
  obtain ⟨acked, htracks⟩ := h.tracks
  exact ⟨⟨acked, htracks.takeOutgoing⟩, h.heard⟩

theorem InTouch.flush {entries : List AppliedOperation} (h : editor.InTouch entries) :
    editor.flush.InTouch entries :=
  ⟨h.owed.takeOutgoing, h.covers⟩

/-! ## What the client does -/

theorem Consistent.edit {operation : Operation} (h : editor.Consistent origin history.entries)
    (hbuilt : operation.Built) (hedit : editor.document.edit operation = .ok document) :
    { editor with document }.Consistent origin history.entries ∧
      (editor.InTouch history.entries →
        { editor with document }.InTouch history.entries) ∧
      document.clientId = editor.document.clientId := by
  obtain ⟨acked, htracks⟩ := h.tracks
  obtain ⟨hedited, howed, hclient, hrevision⟩ := htracks.edit hbuilt hedit
  refine ⟨⟨⟨acked, hedited⟩, hclient.symm ▸ h.heard⟩, fun htouch => ⟨howed htouch.owed, ?_⟩,
    hclient⟩
  exact hrevision.symm ▸ htouch.covers

/-- A client that has not lost its queues handles its next notice without an error. -/
theorem Consistent.handle (hsound : history.Sound origin)
    (h : editor.Consistent origin history.entries) (htouch : editor.InTouch history.entries)
    (hinbox : editor.inbox = notice :: notices) :
    ∃ document handled, editor.document.handle notice = .ok (document, handled) ∧
      { editor with document, inbox := notices }.Consistent origin history.entries ∧
      { editor with document, inbox := notices }.InTouch history.entries ∧
      document.clientId = editor.document.clientId := by
  obtain ⟨acked, htracks⟩ := h.tracks
  have hheard := h.heard
  have hcovers := htouch.covers
  rw [hinbox] at hheard hcovers
  obtain ⟨hannounces, hrest⟩ := List.forall_mem_cons.mp hheard
  obtain ⟨hnext, hlater⟩ := hcovers
  obtain ⟨document, handled, ackedNow, hhandle, hmoved, howed, hclient, hrevision⟩ :=
    htracks.exists_handle hsound hannounces hnext
  refine ⟨document, handled, hhandle, ⟨⟨ackedNow, hmoved⟩, hclient.symm ▸ hrest⟩,
    ⟨howed htouch.owed, ?_⟩, hclient⟩
  exact hrevision.symm ▸ hlater

theorem Consistent.lose (h : editor.Consistent origin history.entries) :
    { editor with outbox := [], inbox := [] }.Consistent origin history.entries := by
  obtain ⟨acked, htracks⟩ := h.tracks
  exact ⟨⟨acked, htracks.of_subset (List.nil_subset _)⟩, List.forall_mem_nil _⟩

/-- A client that rejoins takes in all that it missed without an error, and is in touch. -/
theorem Consistent.rejoin (hsound : history.Sound origin)
    (h : editor.Consistent origin history.entries) :
    ∃ document,
      editor.document.catchUp (history.entries.drop editor.document.revision) =
        (document, .ok ()) ∧
      { editor with document := document.resend }.Consistent origin history.entries ∧
      { editor with document := document.resend }.InTouch history.entries ∧
      document.clientId = editor.document.clientId := by
  obtain ⟨acked, htracks⟩ := h.tracks
  obtain ⟨document, ackedNow, hcaught, hmoved, hclient, hrevision⟩ :=
    htracks.exists_catchUp hsound (List.append_nil _).symm
  obtain ⟨hresent, howed⟩ := hmoved.resend
  have hsame : document.resend.clientId = editor.document.clientId :=
    (Document.clientId_post _ _).trans hclient
  have hreached : document.resend.revision = history.entries.length := by
    rw [Document.unseen, List.length_drop, Nat.add_sub_cancel' htracks.within] at hrevision
    exact (congrArg EditClient.revision (Document.client_post _ _)).trans hrevision
  refine ⟨document, hcaught, ⟨⟨ackedNow, hresent⟩, hsame.symm ▸ h.heard⟩, ⟨howed, ?_⟩, hclient⟩
  have hcovers : Covers history.entries.length history.entries.length
      (editor.inbox.map Notice.revision) := by
    refine Covers.of_le (List.forall_mem_map.mpr fun notice hmem => ?_)
    exact (h.heard notice hmem).revision_le hsound
  exact hreached.symm ▸ hcovers

/-! ## What the server does -/

/-- Another client's operation is recorded and announced. -/
theorem Consistent.hear_operation (hclient : entry.clientId ≠ editor.document.clientId)
    (hrevision : entry.revision = history.revision + 1)
    (h : editor.Consistent origin history.entries) :
    (editor.hear (.operation entry)).Consistent origin (history.entries ++ [entry]) ∧
      (editor.InTouch history.entries →
        (editor.hear (.operation entry)).InTouch (history.entries ++ [entry])) := by
  obtain ⟨acked, htracks⟩ := h.tracks
  refine ⟨⟨⟨acked, htracks.grow (htracks.ahead.append_foreign hclient)⟩, ?_⟩, fun htouch =>
    ⟨htouch.owed.grow htracks.within entry, ?_⟩⟩
  · intro notice hmem
    rcases List.mem_append.mp hmem with hmem | hmem
    · exact (h.heard notice hmem).grow entry
    · obtain rfl := List.mem_singleton.mp hmem
      exact ⟨List.mem_append_right _ List.mem_cons_self, hclient⟩
  · have hcovers := htouch.covers.append_next
    simp only [hear, List.map_append, List.map_cons, List.map_nil, List.length_append,
      List.length_singleton, Notice.revision, hrevision]
    exact hcovers

/-- An acknowledgement of a recorded operation is heard. -/
theorem Consistent.hear_ack (hsound : history.Sound origin)
    (h : editor.Consistent origin history.entries) (hmem : entry ∈ history.entries)
    (hclient : entry.clientId = editor.document.clientId) :
    (editor.hear (.ack entry.seq entry.revision)).Consistent origin history.entries ∧
      (editor.InTouch history.entries →
        (editor.hear (.ack entry.seq entry.revision)).InTouch history.entries) := by
  refine ⟨⟨h.tracks, ?_⟩, fun htouch => ⟨htouch.owed, ?_⟩⟩
  · intro notice hnotice
    rcases List.mem_append.mp hnotice with hnotice | hnotice
    · exact h.heard notice hnotice
    · obtain rfl := List.mem_singleton.mp hnotice
      exact ⟨entry, hmem, hclient, rfl, rfl⟩
  · have hcovers := htouch.covers.append_old (hsound.revision_le hmem)
    simp only [hear, List.map_append, List.map_cons, List.map_nil, Notice.revision]
    exact hcovers

/-- A message that repeats a recorded operation is not what the client still owes. -/
theorem InTouch.drop_repeated {acked : Nat} (h : editor.InTouch history.entries)
    (htracks : editor.document.Tracks origin history.entries acked editor.outbox)
    (houtbox : editor.outbox = message :: rest) (hmem : entry ∈ history.entries)
    (hclient : entry.clientId = editor.document.clientId) (hseq : entry.seq = message.seq) :
    { editor with outbox := rest }.InTouch history.entries := by
  refine ⟨fun outstanding hsome hforeign => ?_, h.covers⟩
  have hle := htracks.seq_le hforeign hmem hclient
  have hnumber := EditClient.Numbered.seq htracks.numbered hsome
  obtain ⟨other, hother, hsame⟩ := h.owed outstanding hsome hforeign
  rw [houtbox, List.cons_append] at hother
  rcases List.mem_cons.mp hother with rfl | hother
  · omega
  · exact ⟨other, hother, hsame⟩

/-- What the client waits for is recorded and acknowledged. -/
theorem Consistent.hear_recorded (h : editor.Consistent origin history.entries)
    (hclient : entry.clientId = editor.document.clientId)
    (hrevision : entry.revision = history.revision + 1)
    (hahead : Ahead editor.document.clientId editor.document.client.outstanding?
      (editor.document.unseen history.entries ++ [entry])) :
    (editor.hear (.ack entry.seq entry.revision)).Consistent origin
        (history.entries ++ [entry]) ∧
      (Covers history.entries.length editor.document.revision
          (editor.inbox.map Notice.revision) →
        (editor.hear (.ack entry.seq entry.revision)).InTouch (history.entries ++ [entry])) := by
  obtain ⟨acked, htracks⟩ := h.tracks
  refine ⟨⟨⟨acked, htracks.grow hahead⟩, ?_⟩, fun hcovers => ⟨fun other _ hforeign => ?_, ?_⟩⟩
  · intro notice hnotice
    rcases List.mem_append.mp hnotice with hnotice | hnotice
    · exact (h.heard notice hnotice).grow entry
    · obtain rfl := List.mem_singleton.mp hnotice
      exact ⟨entry, List.mem_append_right _ List.mem_cons_self, hclient, rfl, rfl⟩
  · have hmem : entry ∈ editor.document.unseen (history.entries ++ [entry]) := by
      rw [Document.unseen_append htracks.within]
      exact List.mem_append_right _ List.mem_cons_self
    exact absurd hclient (hforeign entry hmem)
  · have hgrown := hcovers.append_next
    simp only [hear, List.map_append, List.map_cons, List.map_nil, List.length_append,
      List.length_singleton, Notice.revision, hrevision]
    exact hgrown

/-- The first message of an outbox is answered.  Either the history has its operation, or
the operation is recorded now. -/
theorem Consistent.send (hsound : history.Sound origin)
    (h : editor.Consistent origin history.entries) (houtbox : editor.outbox = message :: rest) :
    (∃ entry ∈ history.entries, entry.clientId = editor.document.clientId ∧
      entry.seq = message.seq ∧
      history.receive message = .ok (history, .duplicate message.seq entry.revision) ∧
      { editor with outbox := rest }.Consistent origin history.entries ∧
      (editor.InTouch history.entries →
        { editor with outbox := rest }.InTouch history.entries)) ∨
    ∃ entry content, entry.clientId = editor.document.clientId ∧
      entry.revision = history.revision + 1 ∧
      history.receive message = .ok (history.append content entry, .applied entry) ∧
      (history.append content entry).Sound origin ∧
      ({ editor with outbox := rest }.hear (.ack entry.seq entry.revision)).Consistent origin
        (history.entries ++ [entry]) ∧
      (editor.InTouch history.entries →
        ({ editor with outbox := rest }.hear (.ack entry.seq entry.revision)).InTouch
          (history.entries ++ [entry])) := by
  obtain ⟨acked, htracks⟩ := h.tracks
  have hsent : rest ⊆ editor.outbox := houtbox ▸ List.subset_cons_self message rest
  have hrest : { editor with outbox := rest }.Consistent origin history.entries :=
    ⟨⟨acked, htracks.of_subset hsent⟩, h.heard⟩
  have hvouched := htracks.vouched message
    (List.mem_append_left _ (houtbox ▸ List.mem_cons_self))
  rcases htracks.receive hsound hvouched with
    ⟨entry, hmem, hclient, hseq, hreceive⟩ |
    ⟨outstanding, operation, content, hsome, hseq, hforeign, hrebase, hbuilt, happly, hreceive⟩
  · exact .inl ⟨entry, hmem, hclient, hseq, hreceive, hrest, fun htouch =>
      htouch.drop_repeated htracks houtbox hmem hclient hseq⟩
  · rw [hvouched.clientId] at hreceive
    let entry : AppliedOperation :=
      { revision := history.revision + 1, clientId := editor.document.clientId,
        seq := message.seq, operation }
    have hgrown : (history.append content entry).Sound origin := hsound.append hbuilt happly
    have hahead : Ahead editor.document.clientId editor.document.client.outstanding?
        (editor.document.unseen history.entries ++ [entry]) :=
      hsome ▸ Ahead.append_own hforeign rfl hseq hrebase
    have hclient : entry.clientId = editor.document.clientId := rfl
    have hrevision : entry.revision = history.revision + 1 := rfl
    obtain ⟨hheard, htouched⟩ := hrest.hear_recorded hclient hrevision hahead
    exact .inr ⟨entry, content, hclient, hrevision, hreceive, hgrown, hheard,
      fun htouch => htouched htouch.covers⟩

end Editor

end Coauthor
