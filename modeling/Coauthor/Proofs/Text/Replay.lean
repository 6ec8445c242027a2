import Coauthor.Proofs.Mutation
import Coauthor.Proofs.Text.Numbering
import Mathlib.Data.List.Permutation

/-!
# A history replays to its text

A history keeps its text, its entries and the last number of each client side by side, and
receives a message by changing one after the other.  Whatever the messages are, stale, repeated
or unfit, the three agree behind each of them: the entries replay to the text, and the numbers of
a client only rise, so that the last one recorded is the largest.
-/

namespace Coauthor.History

/-- Receives a message in place.  The text, the entries and the last numbers are assigned one
after the other, each as soon as it is known. -/
def receiveInPlace (message : OperationMessage) : Mutation History OperationError Received := do
  let history ← .read
  if history.isDuplicate message then
    return .duplicate message.seq (history.duplicateRevision message)
  let concurrent ← .attempt (history.since message.revision)
  let operation ← .attempt (rebase message.operation concurrent)
  let content ← .attempt (operation.apply history.content)
  .assign ({ · with content })
  let history ← .read
  let entry : AppliedOperation :=
    { revision := history.revision + 1, clientId := message.clientId, seq := message.seq,
      operation }
  .assign fun history => { history with entries := history.entries ++ [entry] }
  .assign fun history =>
    { history with appliedSeqs := history.appliedSeqs.insert message.clientId message.seq }
  return .applied entry

/-- The history behind some messages. -/
def receiveAll (history : History) (messages : List OperationMessage) : History :=
  messages.foldl (fun history message => (receiveInPlace message history).2) history

/-- The entries replay to the text, and the numbers of each client only rise. -/
structure Replays (origin : Text) (history : History) : Prop extends Ordered history where
  replays : replay origin history.entries = .ok history.content
  rising : ∀ client, (seqsOf client history.entries).Pairwise (· < ·)

variable {origin text : Text} {history later : History} {message : OperationMessage}
  {client : ClientId} {entry : AppliedOperation} {seq revision : Nat} {operation : Operation}

/-- Nothing is assigned before all that can fail is done. -/
theorem receiveInPlace_eq (message : OperationMessage) :
    receiveInPlace message = .atomic (·.receive message) := by
  funext history
  change _ = Mutation.atomic (fun _ => history.receive message) history
  rw [receiveInPlace, Mutation.read_bind, receive]
  cases history.isDuplicate message with
  | true => rfl
  | false =>
      refine Mutation.attempt_bind_eq_atomic fun concurrent => ?_
      refine Mutation.attempt_bind_eq_atomic fun operation => ?_
      exact Mutation.attempt_bind_eq_atomic fun content => rfl

theorem replays_start (text : Text) : (start text).Replays text where
  toOrdered := ordered_start text
  replays := rfl
  rising _ := List.Pairwise.nil

/-- A number that is no repetition lies above all those of its client. -/
theorem Replays.seq_lt (h : history.Replays origin) (hfresh : history.isDuplicate message = false)
    (hmem : seq ∈ seqsOf message.clientId history.entries) : seq < message.seq := by
  obtain ⟨earlier, last, hseqs⟩ : ∃ earlier last,
      seqsOf message.clientId history.entries = earlier ++ [last] :=
    ⟨_, _, (List.dropLast_append_getLast (List.ne_nil_of_mem hmem)).symm⟩
  have hlast : last < message.seq := by
    simpa [isDuplicate, h.counted, hseqs] using hfresh
  have hrising := h.rising message.clientId
  rw [hseqs] at hmem hrising
  rcases List.mem_append.mp hmem with hmem | hmem
  · exact ((List.pairwise_append.mp hrising).2.2 seq hmem last List.mem_cons_self).trans hlast
  · exact List.mem_singleton.mp hmem ▸ hlast

/-- An answer to a repeated operation changes nothing. -/
theorem eq_of_receive_duplicate
    (hreceive : history.receive message = .ok (later, .duplicate seq revision)) :
    later = history := by
  cases hduplicate : history.isDuplicate message with
  | true =>
      rw [receive_of_isDuplicate hduplicate] at hreceive
      exact (Prod.mk.inj (Except.ok.inj hreceive)).1.symm
  | false =>
      obtain ⟨operation, content, -, -, -, -, hreceived⟩ := exists_of_receive hduplicate hreceive
      cases hreceived

/-- Whatever the message was, the history behind it replays. -/
theorem Replays.receive (h : history.Replays origin) (message : OperationMessage) :
    (receiveInPlace message history).2.Replays origin := by
  rw [receiveInPlace_eq]
  cases hreceive : history.receive message with
  | error error => rwa [Mutation.atomic_of_error hreceive]
  | ok answer =>
      obtain ⟨later, received⟩ := answer
      rw [Mutation.atomic_of_ok hreceive]
      cases hduplicate : history.isDuplicate message with
      | true =>
          rw [receive_of_isDuplicate hduplicate] at hreceive
          exact (Prod.mk.inj (Except.ok.inj hreceive)).1 ▸ h
      | false =>
          obtain ⟨operation, content, -, -, happly, rfl, -⟩ := exists_of_receive hduplicate hreceive
          refine ⟨h.append content message.clientId message.seq operation, ?_, fun client => ?_⟩
          · rw [append, replay_append, h.replays]
            exact (replay_cons ..).trans (by rw [happly]; rfl)
          · rw [append, seqsOf_append, seqsOf_singleton]
            split
            · next hclient =>
                subst hclient
                exact List.pairwise_append.mpr ⟨h.rising _, List.pairwise_singleton .., fun seq hmem
                  other hother => List.mem_singleton.mp hother ▸ h.seq_lt hduplicate hmem⟩
            · rw [List.append_nil]
              exact h.rising client

theorem Replays.receiveAll (h : history.Replays origin) (messages : List OperationMessage) :
    (history.receiveAll messages).Replays origin := by
  induction messages generalizing history with
  | nil => exact h
  | cons message messages ih => exact ih (h.receive message)

/-- The last number recorded of a client is its largest. -/
theorem Replays.appliedSeqs_eq_max (h : history.Replays origin) (client : ClientId) :
    history.appliedSeqs.get? client = (seqsOf client history.entries).max? := by
  rw [h.counted]
  rcases List.eq_nil_or_concat (seqsOf client history.entries) with hseqs | ⟨earlier, last, hseqs⟩
  · rw [hseqs]
    rfl
  · have hrising := h.rising client
    rw [hseqs, List.concat_eq_append] at *
    rw [List.getLast?_concat, eq_comm, List.max?_eq_some_iff]
    refine ⟨by simp, fun seq hmem => ?_⟩
    rcases List.mem_append.mp hmem with hmem | hmem
    · exact ((List.pairwise_append.mp hrising).2.2 seq hmem last List.mem_cons_self).le
    · exact (List.mem_singleton.mp hmem).le

/-- No client has two entries of one number. -/
theorem Replays.nodup (h : history.Replays origin) :
    (history.entries.map fun entry => (entry.clientId, entry.seq)).Nodup := by
  rw [List.Nodup, List.pairwise_map, List.pairwise_iff_forall_sublist]
  intro first second hsublist hsame
  obtain ⟨hclient, hseq⟩ := Prod.mk.inj hsame
  -- Two entries of one client stand among its numbers, and those rise.
  have hseqs : (seqsOf second.clientId [first, second]).Sublist
      (seqsOf second.clientId history.entries) := (hsublist.filter _).map _
  have hpair : seqsOf second.clientId [first, second] = [first.seq, second.seq] := by
    simp [seqsOf, hclient]
  rw [hpair] at hseqs
  exact (List.pairwise_iff_forall_sublist.mp (h.rising _) hseqs).ne hseq

theorem Ordered.numbered_take (h : history.Ordered) (revision : Nat) :
    (history.entries.take revision).map (·.revision) =
      List.range' 1 (min revision history.revision) := by
  rw [List.map_take, h.numbered]
  rcases Nat.le_total revision history.revision with hle | hle
  · rw [List.take_range'_of_length_ge hle, Nat.min_eq_left hle]
  · rw [List.take_range'_of_length_le hle, Nat.min_eq_right hle]

/-- The entries behind a revision are numbered from it on. -/
theorem Ordered.numbered_drop (h : history.Ordered) (revision : Nat) :
    (history.entries.drop revision).map (·.revision) =
      List.range' (revision + 1) (history.revision - revision) := by
  rw [List.map_drop, h.numbered, List.drop_range', Nat.mul_one, Nat.add_comm]

/-- The entries behind a revision are those up to a later one and then the rest. -/
theorem drop_eq_append (entries : List AppliedOperation) {first second : Nat}
    (hle : first ≤ second) :
    entries.drop first = (entries.take second).drop first ++ entries.drop second := by
  calc entries.drop first
      = (entries.drop first).take (second - first) ++
          (entries.drop first).drop (second - first) := (List.take_append_drop ..).symm
    _ = (entries.take second).drop first ++ entries.drop second := by
          rw [← List.drop_take, List.drop_drop, Nat.add_sub_cancel' hle]

theorem Ordered.revision_le_of_mem_take (h : history.Ordered)
    (hmem : entry ∈ history.entries.take revision) : entry.revision ≤ revision := by
  have hnumber : entry.revision ∈ (history.entries.take revision).map (·.revision) :=
    List.mem_map_of_mem hmem
  rw [h.numbered_take, List.mem_range'_1] at hnumber
  omega

theorem Ordered.lt_revision_of_mem_drop (h : history.Ordered)
    (hmem : entry ∈ history.entries.drop revision) : revision < entry.revision := by
  have hnumber : entry.revision ∈ (history.entries.drop revision).map (·.revision) :=
    List.mem_map_of_mem hmem
  rw [h.numbered_drop, List.mem_range'_1] at hnumber
  omega

/-- The entries behind a revision are those with a higher one. -/
theorem Ordered.drop_eq_filter (h : history.Ordered) (revision : Nat) :
    history.entries.drop revision = history.entries.filter (revision < ·.revision) := by
  have htake : (history.entries.take revision).filter (revision < ·.revision) = [] := by
    rw [List.filter_eq_nil_iff]
    intro entry hmem
    simpa using h.revision_le_of_mem_take hmem
  have hdrop : (history.entries.drop revision).filter (revision < ·.revision) =
      history.entries.drop revision := by
    rw [List.filter_eq_self]
    intro entry hmem
    simpa using h.lt_revision_of_mem_drop hmem
  calc history.entries.drop revision
      = (history.entries.take revision ++ history.entries.drop revision).filter
          (revision < ·.revision) := by rw [List.filter_append, htake, hdrop, List.nil_append]
    _ = history.entries.filter (revision < ·.revision) := by rw [List.take_append_drop]

/-- Behind any messages the entries are numbered from 1 on and replay to the text, the numbers of
each client rise and the last one is known, and a message that is not recorded has changed
nothing.  The entries behind a revision are handed out unless the history has not reached it. -/
theorem receiveAll_replays (text : Text) (messages : List OperationMessage) :
    let history := (start text).receiveAll messages
    history.entries.map (·.revision) = List.range' 1 history.revision ∧
    replay text history.entries = .ok history.content ∧
    (∀ client, (seqsOf client history.entries).Pairwise (· < ·) ∧
      history.appliedSeqs.get? client = (seqsOf client history.entries).max?) ∧
    (history.entries.map fun entry => (entry.clientId, entry.seq)).Nodup ∧
    (∀ message answer later, receiveInPlace message history = (answer, later) →
      (∃ error, answer = .error error) ∨
        (∃ seq revision, answer = .ok (.duplicate seq revision)) → later = history) ∧
    ∀ revision,
      (revision ≤ history.revision →
        ∃ missed, history.since revision = .ok missed ∧
          missed = history.entries.filter (revision < ·.revision) ∧
          missed.map (·.revision) =
            List.range' (revision + 1) (history.revision - revision)) ∧
      (history.revision < revision →
        history.since revision = .error (.revisionAhead revision history.revision)) := by
  intro history
  have h : history.Replays text := (replays_start text).receiveAll messages
  refine ⟨h.numbered, h.replays, fun client => ⟨h.rising client, h.appliedSeqs_eq_max client⟩,
    h.nodup, fun message answer later hreceive hunrecorded => ?_, fun revision => ⟨fun hle => ?_,
    fun hlt => if_pos hlt⟩⟩
  · rw [receiveInPlace_eq] at hreceive
    rcases hunrecorded with ⟨error, rfl⟩ | ⟨seq, revision, rfl⟩
    · exact (Mutation.atomic_eq_error_iff.mp hreceive).2
    · exact eq_of_receive_duplicate (Mutation.atomic_eq_ok_iff.mp hreceive)
  · exact ⟨_, since_of_le hle, h.drop_eq_filter revision, h.numbered_drop revision⟩

/-- Two clients insert at one place, one of them twice, and two more messages fit nothing. -/
def mixed : List OperationMessage :=
  [{ clientId := "a", seq := 1, revision := 0, operation := ⟨[.insert ['x']]⟩ },
    { clientId := "b", seq := 4, revision := 0, operation := ⟨[.insert ['y']]⟩ },
    { clientId := "a", seq := 1, revision := 0, operation := ⟨[.insert ['x']]⟩ },
    { clientId := "a", seq := 2, revision := 7, operation := ⟨[.retain 1]⟩ },
    { clientId := "a", seq := 2, revision := 1, operation := ⟨[.delete 9]⟩ }]

theorem receiveAll_replays_mixed :
    let history := (start []).receiveAll mixed
    history.content = ['y', 'x'] ∧ replay [] history.entries = .ok history.content ∧
      history.appliedSeqs.get? "b" = some 4 ∧
      (∃ missed, history.since 1 = .ok missed ∧ missed.map (·.revision) = [2]) ∧
      history.since 3 = .error (.revisionAhead 3 2) := by
  obtain ⟨-, hreplays, -, -, -, hsince⟩ := receiveAll_replays [] mixed
  have hrevision : ((start []).receiveAll mixed).revision = 2 := by cbv
  obtain ⟨missed, hmissed, -, hnumbers⟩ := (hsince 1).1 (by rw [hrevision]; decide)
  rw [hrevision] at hnumbers
  refine ⟨by cbv, hreplays, by cbv, ⟨missed, hmissed, hnumbers⟩, ?_⟩
  exact hrevision ▸ (hsince 3).2 (by rw [hrevision]; decide)

end Coauthor.History
