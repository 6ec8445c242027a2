import Coauthor.Proofs.Text.Traffic
import Mathlib

/-!
# Convergence and delivery

After any turns of any clients, every client shows the text of the server at its revision
under its own unacknowledged operations, and the history has each operation that a client
issued at most once, in the order of issue.  A client in touch whose queues are empty shows
the text of the server, and the history has all that it issued.
-/

namespace Coauthor

open History

namespace Traffic

variable {origin text : Text} {names away : List ClientId} {name : ClientId}
  {entries : List AppliedOperation} {traffic : Traffic} {editor : Editor}

/-- A client in touch with nothing on its way has nothing to wait for. -/
theorem Fits.quiet (h : Fits origin entries away name editor) (hhere : name ∉ away)
    (hinbox : editor.inbox = []) (houtbox : editor.outbox = []) :
    editor.document.revision = entries.length ∧
      editor.document.client.pending = .synchronized := by
  have htouch := h.inTouch hhere
  have hcovers := htouch.covers
  rw [hinbox] at hcovers
  have hrevision : editor.document.revision = entries.length := hcovers
  have hforeign : Foreign editor.document.clientId (editor.document.unseen entries) := by
    rw [Document.unseen, hrevision, List.drop_length]
    exact List.forall_mem_nil _
  refine ⟨hrevision, ?_⟩
  cases hpending : editor.document.client.pending with
  | synchronized => rfl
  | awaitingConfirm outstanding | awaitingWithBuffer outstanding buffer =>
      obtain ⟨message, hmem, -⟩ := htouch.owed outstanding
        (by simp [EditClient.outstanding?, Pending.outstanding?, hpending]) hforeign
      simp [houtbox, h.flushed] at hmem

/-- In every state that clients can reach by any turns, the history leads to the text of
the server, and each client shows the text at its revision with its outstanding operation
and then its buffer applied; a client that is in touch and has nothing on its way shows the
text of the server.  No turn but an edit is ever refused. -/
theorem run_converges (text : Text) (names : List ClientId) (turns : List Turn)
    (hname : name ∈ names) :
    let traffic := (start text names).run turns
    let history := traffic.network.history
    replay text history.entries = .ok history.content ∧
    ∃ editor, traffic.network.editors.get? name = some editor ∧
      editor.document.revision ≤ history.revision ∧
      (∃ base, replay text (history.entries.take editor.document.revision) = .ok base ∧
        editor.document.client.pending.apply base = .ok editor.document.content) ∧
      (name ∉ traffic.away → editor.inbox = [] → editor.outbox = [] →
        editor.document.content = history.content) ∧
      (∃ received, (traffic.network.send name editor).2 = .ok received) ∧
      (name ∉ traffic.away → ∃ handled, (traffic.network.receive name editor).2 = .ok handled) ∧
      (traffic.network.rejoin name editor).2 = .ok () := by
  intro traffic history
  have hconsistent : traffic.Consistent text names := (consistent_start text names).run turns
  obtain ⟨editor, hget⟩ := hconsistent.present name hname
  have hfits := hconsistent.fits name editor hget
  obtain ⟨acked, htracks⟩ := hfits.consistent.tracks
  obtain ⟨base, hbase, hshows⟩ := htracks.shows
  refine ⟨hconsistent.sound.replays, editor, hget, htracks.within, ⟨base, hbase, hshows.applied⟩,
    fun hhere hinbox houtbox => ?_, hconsistent.accepted hget⟩
  obtain ⟨hrevision, hpending⟩ := hfits.quiet hhere hinbox houtbox
  rw [hrevision, List.take_length, hconsistent.sound.replays] at hbase
  have happlied := hshows.applied
  rw [hpending] at happlied
  exact (Except.ok.inj (hbase.trans happlied)).symm

/-- Client `a` edits twice and loses its queues, among them the acknowledgement of its first
edit, while `b` edits at the same place; then `a` rejoins and everything is delivered. -/
def crossing : List Turn :=
  [⟨"a", .edit (.ofComponents [.insert ['x']]) (Operation.built_ofComponents _)⟩,
   ⟨"b", .edit (.ofComponents [.insert ['y']]) (Operation.built_ofComponents _)⟩,
   ⟨"a", .edit (.ofComponents [.retain 1, .insert ['z']]) (Operation.built_ofComponents _)⟩,
   ⟨"a", .send⟩, ⟨"a", .lose⟩, ⟨"b", .send⟩, ⟨"a", .rejoin⟩, ⟨"a", .send⟩,
   ⟨"b", .receive⟩, ⟨"b", .receive⟩, ⟨"b", .receive⟩, ⟨"a", .send⟩, ⟨"a", .receive⟩,
   ⟨"a", .receive⟩, ⟨"a", .receive⟩]

theorem run_converges_crossing :
    ∃ editor, ((start [] ["a", "b"]).run crossing).network.editors.get? "b" = some editor ∧
      editor.document.content = ['y', 'x', 'z'] := by
  obtain ⟨-, editor, hget, -, -, hquiet, -⟩ :=
    run_converges [] ["a", "b"] crossing (by decide : "b" ∈ ["a", "b"])
  have hqueues : (((start [] ["a", "b"]).run crossing).network.editors.get? "b").map
      (fun editor => (editor.inbox, editor.outbox)) = some ([], []) := by cbv
  rw [hget] at hqueues
  obtain ⟨hinbox, houtbox⟩ := Prod.mk.inj (Option.some.inj hqueues)
  have haway : ((start [] ["a", "b"]).run crossing).away = [] := by cbv
  refine ⟨editor, hget, (hquiet (by simp [haway]) hinbox houtbox).trans ?_⟩
  cbv

/-- A document that acknowledges now has outstanding what the entry records, and reaches the
revision of the entry. -/
def Confirms (document : Document) (entry : AppliedOperation) : Prop :=
  document.client.outstanding? = some { seq := entry.seq, operation := entry.operation } ∧
    ∃ moved, document.acknowledge = .ok moved ∧ moved.revision = entry.revision

theorem confirms_of_next {history : History} {acked : Nat} {sent : List OperationMessage}
    {document : Document} {entry : AppliedOperation} {missed : List AppliedOperation}
    (hsound : history.Sound origin) (h : document.Tracks origin history.entries acked sent)
    (hunseen : document.unseen history.entries = entry :: missed)
    (hclient : entry.clientId = document.clientId) : Confirms document entry := by
  obtain ⟨hsome, moved, hacknowledge, -, -, -, hrevision⟩ :=
    h.exists_acknowledge hsound hunseen hclient
  exact ⟨hsome, moved, hacknowledge, hrevision.trans (hsound.revision_of_drop hunseen).symm⟩

/-- The history has the operations of a client under the numbers from 1 on; those of a client
that waits for nothing are all that it issued. -/
theorem Fits.exists_recorded (h : Fits origin entries away name editor) :
    ∃ recorded, seqsOf name entries = List.range' 1 recorded ∧
      (editor.document.client.pending = .synchronized →
        editor.document.client.nextSeq = recorded + 1) := by
  obtain ⟨acked, htracks⟩ := h.consistent.tracks
  have hnumbered := htracks.numbered
  rw [← h.named]
  rcases htracks.seqsOf_eq with ⟨-, hseqs⟩ | ⟨hsome, hseqs⟩
  · refine ⟨acked, hseqs, fun hpending => ?_⟩
    rw [EditClient.Numbered, EditClient.outstanding?, hpending] at hnumbered
    exact hnumbered
  · refine ⟨acked + 1, hseqs, fun hpending => ?_⟩
    rw [EditClient.outstanding?, hpending] at hsome
    cases hsome

/-- An acknowledgement that is the next notice confirms what the history has. -/
theorem Fits.confirms_notice {history : History} (h : Fits origin history.entries away name editor)
    (hsound : history.Sound origin) (hhere : name ∉ away) {seq revision : Nat}
    {notices : List Notice} (hinbox : editor.inbox = .ack seq revision :: notices)
    (hwaits : editor.document.isOutstanding seq) :
    ∃ entry ∈ history.entries, entry.clientId = name ∧ entry.seq = seq ∧
      entry.revision = revision ∧ Confirms editor.document entry := by
  obtain ⟨acked, htracks⟩ := h.consistent.tracks
  have hheard := h.consistent.heard
  have hcovers := (h.inTouch hhere).covers
  rw [hinbox] at hheard hcovers
  obtain ⟨entry, hmem, hclient, rfl, rfl⟩ := hheard _ List.mem_cons_self
  have hlt := (htracks.isOutstanding_iff hsound hmem hclient).mp hwaits
  have hrevision : entry.revision = editor.document.revision + 1 :=
    Nat.le_antisymm hcovers.1 hlt
  exact ⟨entry, hmem, hclient.trans h.named, rfl, rfl,
    confirms_of_next hsound htracks (Document.unseen_eq_cons hsound hmem hrevision) hclient⟩

/-- So does one that is found among the entries that a rejoining client missed. -/
theorem Fits.confirms_missed {history : History} (h : Fits origin history.entries away name editor)
    (hsound : history.Sound origin) {before after : List AppliedOperation}
    {entry : AppliedOperation}
    (hdrop : history.entries.drop editor.document.revision = before ++ entry :: after) :
    ∃ document, editor.document.catchUp before = (document, .ok ()) ∧
      (entry.clientId = name → Confirms document entry) := by
  obtain ⟨acked, htracks⟩ := h.consistent.tracks
  obtain ⟨document, ackedNow, hcaught, hmoved, hsame, hrevision⟩ :=
    htracks.exists_catchUp hsound hdrop
  refine ⟨document, hcaught, fun hclient => ?_⟩
  have hunseen : document.unseen history.entries = entry :: after := by
    rw [Document.unseen, hrevision, ← List.drop_drop, hdrop, List.drop_left]
  exact confirms_of_next hsound hmoved hunseen
    (hclient.trans (h.named.symm.trans hsame.symm))

/-- In every state that clients can reach by any turns, the history has the operations of a
client under the numbers from 1 on, in order and each once.  An acknowledgement, whether it
is the next notice of a client in touch or found while the client rejoins, confirms the
outstanding operation as the history has it.  A client that is in touch and has nothing on
its way waits for nothing, and the history has every operation that it issued. -/
theorem run_delivers_once (text : Text) (names : List ClientId) (turns : List Turn)
    (hname : name ∈ names) :
    let traffic := (start text names).run turns
    let history := traffic.network.history
    ∃ editor recorded, traffic.network.editors.get? name = some editor ∧
      seqsOf name history.entries = List.range' 1 recorded ∧
      (∀ seq revision notices, name ∉ traffic.away →
        editor.inbox = .ack seq revision :: notices → editor.document.isOutstanding seq →
        ∃ entry ∈ history.entries, entry.clientId = name ∧ entry.seq = seq ∧
          entry.revision = revision ∧ Confirms editor.document entry) ∧
      (∀ before entry after,
        history.entries.drop editor.document.revision = before ++ entry :: after →
        ∃ document, editor.document.catchUp before = (document, .ok ()) ∧
          (entry.clientId = name → Confirms document entry)) ∧
      (name ∉ traffic.away → editor.inbox = [] → editor.outbox = [] →
        editor.document.client.pending = .synchronized ∧
          editor.document.client.nextSeq = recorded + 1) := by
  intro traffic history
  have hconsistent : traffic.Consistent text names := (consistent_start text names).run turns
  have hsound : history.Sound text := hconsistent.sound
  obtain ⟨editor, hget⟩ := hconsistent.present name hname
  have hfits := hconsistent.fits name editor hget
  obtain ⟨recorded, hseqs, hissued⟩ := hfits.exists_recorded
  refine ⟨editor, recorded, hget, hseqs, ?_, ?_, ?_⟩
  · intro seq revision notices hhere hinbox hwaits
    exact hfits.confirms_notice hsound hhere hinbox hwaits
  · intro before entry after hdrop
    exact hfits.confirms_missed hsound hdrop
  · intro hhere hinbox houtbox
    obtain ⟨-, hpending⟩ := hfits.quiet hhere hinbox houtbox
    exact ⟨hpending, hissued hpending⟩

theorem run_delivers_once_crossing :
    ∃ editor recorded,
      ((start [] ["a", "b"]).run crossing).network.editors.get? "a" = some editor ∧
      seqsOf "a" ((start [] ["a", "b"]).run crossing).network.history.entries =
        List.range' 1 recorded ∧ recorded = 2 := by
  obtain ⟨editor, recorded, hget, hseqs, -⟩ :=
    run_delivers_once [] ["a", "b"] crossing (by decide : "a" ∈ ["a", "b"])
  refine ⟨editor, recorded, hget, hseqs, ?_⟩
  have hlength := congrArg List.length hseqs
  have hsent : (seqsOf "a"
      ((start [] ["a", "b"]).run crossing).network.history.entries).length = 2 := by cbv
  rw [hsent, List.length_range'] at hlength
  exact hlength.symm

end Traffic

end Coauthor
