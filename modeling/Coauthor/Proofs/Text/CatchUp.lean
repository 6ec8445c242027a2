import Coauthor.Proofs.Text.Convergence
import Coauthor.Proofs.Text.Replay

/-!
# Catching up agrees with listening

A document hears of the history entry by entry, or takes in at once what it missed.  The first way
tells an acknowledgement by the number that is outstanding and passes over old operations by their
revision; the second looks at both for each entry.  For the next entry both decide alike, and both
pass over an entry that the document has taken in already, so however the two ways are mixed and
however often an entry comes again, the document ends as the same one.
-/

namespace Coauthor

open History

/-- What a client hears while these entries are recorded. -/
def Notice.announcing (client : ClientId) (entries : List AppliedOperation) : List Notice :=
  entries.filterMap fun entry => Network.noticeFor entry.clientId client (.applied entry)

namespace Document

/-- Handles notices in order and stops at the first that does not fit. -/
def hearAll (document : Document) (notices : List Notice) : Except OperationError Document :=
  notices.foldlM (fun document notice => Prod.fst <$> document.handle notice) document

/-- Whatever waits in its outbox, the document has taken in the first entries of the history. -/
def Follows (origin : Text) (history : History) (document : Document) : Prop :=
  ∃ acked, document.takeOutgoing.1.Tracks origin history.entries acked []

variable {origin : Text} {history : History} {document moved : Document} {notice : Notice}
  {entry : AppliedOperation} {entries missed before after : List AppliedOperation}
  {notices : List Notice} {acked : Nat}

theorem hearAll_cons {handled : Handled} (h : document.handle notice = .ok (moved, handled)) :
    document.hearAll (notice :: notices) = moved.hearAll notices := by
  rw [hearAll, List.foldlM_cons, h]
  rfl

theorem catchUp_append (h : document.catchUp before = (moved, .ok ())) :
    document.catchUp (before ++ after) = moved.catchUp after := by
  induction before generalizing document with
  | nil =>
      obtain ⟨rfl, -⟩ := Prod.mk.inj h
      rfl
  | cons entry before ih =>
      rw [catchUp] at h
      rw [List.cons_append, catchUp]
      cases hnext : document.catchUpWith entry with
      | error error => rw [hnext] at h; cases h
      | ok next =>
          rw [hnext] at h
          exact ih h

/-- A document follows the history if one with the same text and the same edit client tracks it. -/
theorem Tracks.follows {sent : List OperationMessage}
    (h : moved.Tracks origin history.entries acked sent)
    (hclientId : document.clientId = moved.clientId) (hcontent : document.content = moved.content)
    (hclient : document.client = moved.client) : document.Follows origin history := by
  obtain ⟨_, _, _, _, _, _, _⟩ := document
  obtain ⟨_, _, _, _, _, _, _⟩ := moved
  obtain rfl := hclientId
  obtain rfl := hcontent
  obtain rfl := hclient
  exact ⟨acked, h.within, h.shows, h.numbered, h.recorded, h.ahead, List.forall_mem_nil _⟩

theorem Follows.revision_le (h : document.Follows origin history) :
    document.revision ≤ history.revision := by
  obtain ⟨acked, htracks⟩ := h
  exact htracks.within

/-- Of its own entries the document waits for the one that it has not taken in. -/
theorem Follows.isOutstanding_iff (hsound : history.Sound origin)
    (h : document.Follows origin history) (hmem : entry ∈ history.entries)
    (hclient : entry.clientId = document.clientId) :
    document.isOutstanding entry.seq ↔ document.revision < entry.revision := by
  obtain ⟨acked, htracks⟩ := h
  have hbare := htracks.isOutstanding_iff hsound hmem hclient
  exact hbare

/-! ## Entries that were taken in -/

/-- Old entries are passed over while catching up. -/
theorem catchUp_of_le (h : ∀ entry ∈ entries, entry.revision ≤ document.revision) :
    document.catchUp entries = (document, .ok ()) := by
  induction entries with
  | nil => rfl
  | cons entry entries ih =>
      obtain ⟨hentry, hentries⟩ := List.forall_mem_cons.mp h
      rw [catchUp, catchUpWith, if_pos hentry]
      exact ih hentries

/-- What is announced again is passed over while listening. -/
theorem Follows.handle_of_le (hsound : history.Sound origin) (h : document.Follows origin history)
    (hmem : entry ∈ history.entries) (hle : entry.revision ≤ document.revision)
    (hnotice : Network.noticeFor entry.clientId document.clientId (.applied entry) =
      some notice) : ∃ handled, document.handle notice = .ok (document, handled) := by
  obtain rfl := Option.some.inj hnotice
  by_cases hclient : document.clientId = entry.clientId
  · rw [if_pos hclient]
    have hsettled : ¬ document.isOutstanding entry.seq := fun hwaits =>
      absurd ((h.isOutstanding_iff hsound hmem hclient.symm).mp hwaits) (Nat.not_lt.mpr hle)
    exact ⟨.staleAck, if_neg hsettled⟩
  · rw [if_neg hclient]
    exact ⟨.replayed, if_pos hle⟩

/-- However often, and in whatever order. -/
theorem Follows.hearAll_of_le (hsound : history.Sound origin)
    (h : document.Follows origin history)
    (hentries : ∀ entry ∈ entries, entry ∈ history.entries ∧ entry.revision ≤ document.revision)
    (hnotices : notices ⊆ Notice.announcing document.clientId entries) :
    document.hearAll notices = .ok document := by
  induction notices with
  | nil => rfl
  | cons notice notices ih =>
      obtain ⟨hhead, htail⟩ := List.cons_subset.mp hnotices
      obtain ⟨entry, hentry, hnotice⟩ := List.mem_filterMap.mp hhead
      obtain ⟨hmem, hle⟩ := hentries entry hentry
      obtain ⟨handled, hhandle⟩ := h.handle_of_le hsound hmem hle hnotice
      rw [hearAll_cons hhandle]
      exact ih htail

/-! ## The next entry -/

/-- The next entry is handled as it is caught up with. -/
theorem Follows.handle_next (hsound : history.Sound origin) (h : document.Follows origin history)
    (hunseen : document.unseen history.entries = entry :: missed)
    (hnotice : Network.noticeFor entry.clientId document.clientId (.applied entry) =
      some notice) :
    document.handle notice = (fun moved => (moved, .done)) <$> document.catchUpWith entry := by
  obtain rfl := Option.some.inj hnotice
  have hmem : entry ∈ history.entries := List.mem_of_mem_drop (hunseen ▸ List.mem_cons_self)
  have hlt : document.revision < entry.revision := by
    rw [hsound.revision_of_drop hunseen]
    exact Nat.lt_succ_self document.revision
  have hbehind := Nat.not_le.mpr hlt
  by_cases hclient : document.clientId = entry.clientId
  · have hwaits := (h.isOutstanding_iff hsound hmem hclient.symm).mpr hlt
    rw [if_pos hclient, handle, if_pos hwaits, catchUpWith, if_neg hbehind,
      if_pos ⟨hclient.symm, hwaits⟩]
    rfl
  · rw [if_neg hclient, handle, if_neg hbehind, catchUpWith, if_neg hbehind,
      if_neg fun hown => hclient hown.1.symm]
    rfl

/-- The document with these messages before those in its outbox. -/
def queuedBehind (messages : List OperationMessage) (document : Document) : Document :=
  { document with outbox := messages ++ document.outbox }

theorem acknowledge_queued (document : Document) : document.acknowledge =
    queuedBehind document.outbox <$> document.takeOutgoing.1.acknowledge := by
  simp only [acknowledge, takeOutgoing]
  cases document.client.acknowledge with
  | error error => rfl
  | ok answer =>
      obtain ⟨client, _ | submission⟩ := answer
      · simp [bind, Except.bind, post, queuedBehind]
      · rfl

theorem applyRemote_queued (document : Document) (operation : Operation) :
    document.applyRemote operation =
      queuedBehind document.outbox <$> document.takeOutgoing.1.applyRemote operation := by
  simp only [applyRemote, takeOutgoing]
  cases document.client.applyRemote operation with
  | error error => rfl
  | ok answer =>
      obtain ⟨client, visible⟩ := answer
      simp only [bind, Except.bind]
      cases visible.apply document.content with
      | error error => rfl
      | ok content => simp [announce, queuedBehind]

/-- What waits in the outbox stays there, before what is sent next. -/
theorem catchUpWith_queued (document : Document) (entry : AppliedOperation) :
    document.catchUpWith entry =
      queuedBehind document.outbox <$> document.takeOutgoing.1.catchUpWith entry := by
  rw [catchUpWith, acknowledge_queued, applyRemote_queued]
  change _ = queuedBehind document.outbox <$>
    if entry.revision ≤ document.revision then .ok document.takeOutgoing.1
    else if entry.clientId = document.clientId ∧ document.isOutstanding entry.seq then
      document.takeOutgoing.1.acknowledge
    else document.takeOutgoing.1.applyRemote entry.operation
  by_cases hle : entry.revision ≤ document.revision
  · rw [if_pos hle, if_pos hle]
    simp [queuedBehind, takeOutgoing]
  · rw [if_neg hle, if_neg hle]
    by_cases hown : entry.clientId = document.clientId ∧ document.isOutstanding entry.seq
    · rw [if_pos hown, if_pos hown]
    · rw [if_neg hown, if_neg hown]

/-- The next entry is taken in, whichever way it comes. -/
theorem Follows.exists_next (hsound : history.Sound origin) (h : document.Follows origin history)
    (hunseen : document.unseen history.entries = entry :: missed)
    (hnotice : Network.noticeFor entry.clientId document.clientId (.applied entry) =
      some notice) :
    ∃ moved, document.handle notice = .ok (moved, .done) ∧
      document.catchUpWith entry = .ok moved ∧ moved.Follows origin history ∧
      moved.clientId = document.clientId ∧ moved.revision = document.revision + 1 := by
  have hsame := h.handle_next hsound hunseen hnotice
  obtain ⟨acked, htracks⟩ := h
  obtain ⟨bare, ackedNow, hbare, hmoved, hclient, hrevision⟩ :=
    htracks.exists_catchUpWith hsound hunseen
  have hcaught : document.catchUpWith entry =
      .ok (queuedBehind document.outbox bare) := by
    rw [catchUpWith_queued, hbare]
    rfl
  refine ⟨_, ?_, hcaught, ⟨ackedNow, ?_⟩, hclient, hrevision⟩
  · rw [hsame, hcaught]
    rfl
  · exact hmoved.takeOutgoing.of_subset (List.nil_subset _)

/-- So are the next entries, however many: the document is the same both ways. -/
theorem Follows.exists_agree (hsound : history.Sound origin) (h : document.Follows origin history)
    (hunseen : document.unseen history.entries = before ++ after) :
    ∃ moved, document.hearAll (Notice.announcing document.clientId before) = .ok moved ∧
      document.catchUp before = (moved, .ok ()) ∧ moved.Follows origin history ∧
      moved.clientId = document.clientId ∧
      moved.revision = document.revision + before.length := by
  induction before generalizing document with
  | nil => exact ⟨document, rfl, rfl, h, rfl, rfl⟩
  | cons entry before ih =>
      obtain ⟨next, hhandle, hnext, hfollows, hclient, hrevision⟩ :=
        h.exists_next hsound hunseen rfl
      obtain ⟨moved, hheard, hcaught, hmoved, hmovedClient, hmovedRevision⟩ :=
        ih hfollows (unseen_of_revision_succ hrevision hunseen)
      refine ⟨moved, ?_, ?_, hmoved, hmovedClient.trans hclient, ?_⟩
      · rw [hclient] at hheard
        exact (hearAll_cons hhandle).trans hheard
      · rw [catchUp, hnext]
        exact hcaught
      · rw [hmovedRevision, hrevision, List.length_cons]
        omega

/-- A document that has caught up is the same when it has listened; it is the same when it has
listened for a while and then catches up from there or from an earlier revision. -/
theorem Follows.exists_caught (hsound : history.Sound origin)
    (h : document.Follows origin history) :
    ∃ caught, document.hearAll
        (Notice.announcing document.clientId (document.unseen history.entries)) = .ok caught ∧
      document.catchUp (document.unseen history.entries) = (caught, .ok ()) ∧
      caught.Follows origin history ∧ caught.clientId = document.clientId ∧
      caught.revision = history.revision ∧
      ∀ reached earlier, document.revision ≤ reached → reached ≤ history.revision →
        earlier ≤ reached →
        ∃ middle, document.hearAll (Notice.announcing document.clientId
            (document.unseen (history.entries.take reached))) = .ok middle ∧
          middle.catchUp (history.entries.drop earlier) = (caught, .ok ()) := by
  obtain ⟨caught, hheard, hcaught, hfollows, hclient, hrevision⟩ :=
    h.exists_agree hsound (List.append_nil _).symm
  refine ⟨caught, hheard, hcaught, hfollows, hclient, ?_, ?_⟩
  · rw [hrevision, unseen, List.length_drop]
    exact Nat.add_sub_cancel' h.revision_le
  · intro reached earlier hle hreached hearlier
    have htake : (history.entries.take reached).length = reached := List.length_take_of_le hreached
    obtain ⟨middle, hlistened, hmiddle, -, -, hmoved⟩ :=
      h.exists_agree hsound (drop_eq_append history.entries hle)
    rw [List.length_drop, htake, Nat.add_sub_cancel' hle] at hmoved
    refine ⟨middle, hlistened, ?_⟩
    have hold : ∀ entry ∈ (history.entries.take reached).drop earlier,
        entry.revision ≤ middle.revision := by
      intro entry hmem
      rw [hmoved]
      exact hsound.revision_le_of_mem_take (List.mem_of_mem_drop hmem)
    calc middle.catchUp (history.entries.drop earlier)
        = middle.catchUp (history.entries.drop reached) := by
          rw [drop_eq_append _ hearlier, catchUp_append (catchUp_of_le hold)]
      _ = document.catchUp (document.unseen history.entries) := by
          rw [unseen, drop_eq_append _ hle, catchUp_append hmiddle]
      _ = (caught, .ok ()) := hcaught

end Document

namespace Traffic

variable {name : ClientId}

/-- In every state that clients can reach by any turns, whatever waits in the outbox of a document
and whoever listens to it: to hear of the entries that it has not taken in, one by one, or to catch
up with them makes the same document of it, with the same messages in its outbox.  So does hearing
of some of them and then catching up from there or from an earlier revision.  What the document
hears of once more and what it catches up with once more changes nothing. -/
theorem run_catches_up (text : Text) (names : List ClientId) (turns : List Turn)
    (hname : name ∈ names) :
    let traffic := (start text names).run turns
    let history := traffic.network.history
    ∃ editor, traffic.network.editors.get? name = some editor ∧
      ∀ document : Document, document.clientId = name →
        document.content = editor.document.content → document.client = editor.document.client →
        ∃ caught,
          document.hearAll (Notice.announcing name (history.entries.drop document.revision)) =
            .ok caught ∧
          document.catchUp (history.entries.drop document.revision) = (caught, .ok ()) ∧
          caught.revision = history.revision ∧
          (∀ reached earlier, document.revision ≤ reached → reached ≤ history.revision →
            earlier ≤ reached →
            ∃ middle, document.hearAll (Notice.announcing name
                ((history.entries.take reached).drop document.revision)) = .ok middle ∧
              middle.catchUp (history.entries.drop earlier) = (caught, .ok ())) ∧
          (∀ notices ⊆ Notice.announcing name history.entries,
            caught.hearAll notices = .ok caught) ∧
          ∀ earlier, caught.catchUp (history.entries.drop earlier) = (caught, .ok ()) := by
  intro traffic history
  have hconsistent : traffic.Consistent text names := (consistent_start text names).run turns
  have hsound : history.Sound text := hconsistent.sound
  obtain ⟨editor, hget⟩ := hconsistent.present name hname
  have hfits := hconsistent.fits name editor hget
  obtain ⟨acked, htracks⟩ := hfits.consistent.tracks
  refine ⟨editor, hget, fun document hclientId hcontent hclient => ?_⟩
  have hfollows : document.Follows text history :=
    htracks.follows (hclientId.trans hfits.named.symm) hcontent hclient
  obtain ⟨caught, hheard, hcaught, hkept, hsame, hrevision, hsplit⟩ :=
    hfollows.exists_caught hsound
  rw [hclientId] at hheard hsplit hsame
  have hold : ∀ entry ∈ history.entries, entry.revision ≤ caught.revision := by
    intro entry hmem
    rw [hrevision]
    exact hsound.revision_le hmem
  refine ⟨caught, hheard, hcaught, hrevision, hsplit, fun notices hnotices => ?_,
    fun earlier => Document.catchUp_of_le fun entry hmem => hold entry (List.mem_of_mem_drop hmem)⟩
  exact hkept.hearAll_of_le hsound (fun entry hmem => ⟨hmem, hold entry hmem⟩) (hsame ▸ hnotices)

/-- Behind the sixth turn of `crossing`, `a` has lost its queues: it waits for its first edit, which
the history has, holds its second one back and knows nothing of the edit of `b`. -/
theorem run_catches_up_crossing :
    ∃ editor caught,
      ((start [] ["a", "b"]).run (crossing.take 6)).network.editors.get? "a" = some editor ∧
      editor.document.hearAll [.ack 1 1, .operation
        { revision := 2, clientId := "b", seq := 1,
          operation := .ofComponents [.insert ['y'], .retain 1] }] = .ok caught ∧
      caught.content = ['y', 'x', 'z'] ∧ caught.outbox.map (·.seq) = [2] := by
  obtain ⟨editor, hget, hagree⟩ :=
    run_catches_up [] ["a", "b"] (crossing.take 6) (by decide : "a" ∈ ["a", "b"])
  have hstate : (((start [] ["a", "b"]).run (crossing.take 6)).network.editors.get? "a").map
      (fun editor => (editor.document.clientId, editor.document.revision)) = some ("a", 0) := by cbv
  have hmissed : Notice.announcing "a" (((start [] ["a", "b"]).run
      (crossing.take 6)).network.history.entries.drop 0) = [.ack 1 1, .operation
        { revision := 2, clientId := "b", seq := 1,
          operation := .ofComponents [.insert ['y'], .retain 1] }] := by cbv
  have hends : (((start [] ["a", "b"]).run (crossing.take 6)).network.editors.get? "a").map
      (fun editor =>
        let caught := (editor.document.catchUp (((start [] ["a", "b"]).run
          (crossing.take 6)).network.history.entries.drop editor.document.revision)).1
        (caught.content, caught.outbox.map (·.seq))) = some (['y', 'x', 'z'], [2]) := by cbv
  rw [hget] at hstate hends
  obtain ⟨hname, hrevision⟩ := Prod.mk.inj (Option.some.inj hstate)
  obtain ⟨caught, hheard, hcaught, -⟩ := hagree editor.document hname rfl rfl
  obtain ⟨hcontent, hsent⟩ := Prod.mk.inj (Option.some.inj hends)
  rw [hcaught] at hcontent hsent
  rw [hrevision, hmissed] at hheard
  exact ⟨editor, caught, hget, hheard, hcontent, hsent⟩

end Traffic

end Coauthor
