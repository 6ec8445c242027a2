import Coauthor.Proofs.Text.Merge
import Coauthor.Text.History

/-!
# What a history records

Replaying the entries from the first text gives the current one; entry number `n` has
revision `n`; and for each client the last number applied is the number of its last entry.
An operation that fits the text at some revision is carried over all later entries to one
that fits the current text, so the server never refuses it.
-/

namespace Coauthor.History

/-- The text that entries make of a text, one after the other. -/
def replay (text : Text) (entries : List AppliedOperation) : Except OperationError Text :=
  entries.foldlM (fun text entry => entry.operation.apply text) text

/-- The numbers under which a client's operations are recorded, oldest first. -/
def seqsOf (client : ClientId) (entries : List AppliedOperation) : List Nat :=
  (entries.filter (·.clientId = client)).map (·.seq)

variable {origin text result : Text} {operation : Operation} {history : History}
  {entry : AppliedOperation} {entries rest : List AppliedOperation}

@[simp]
theorem replay_nil (text : Text) : replay text [] = .ok text := rfl

theorem replay_cons (text : Text) (entry : AppliedOperation) (rest : List AppliedOperation) :
    replay text (entry :: rest) = entry.operation.apply text >>= (replay · rest) := by
  simp only [replay, List.foldlM_cons]

theorem replay_append (text : Text) (first second : List AppliedOperation) :
    replay text (first ++ second) = replay text first >>= (replay · second) := by
  simp only [replay, List.foldlM_append]

/-- The entry behind a prefix applies to the text that the prefix makes. -/
theorem exists_next {base : Text} {count : Nat} (h : replay origin entries = .ok result)
    (hdrop : entries.drop count = entry :: rest)
    (hbase : replay origin (entries.take count) = .ok base) :
    ∃ next, entry.operation.apply base = .ok next ∧
      replay origin (entries.take (count + 1)) = .ok next := by
  rw [← List.take_append_drop count entries, hdrop, replay_append, hbase] at h
  have hrest : replay base (entry :: rest) = .ok result := h
  rw [replay_cons] at hrest
  cases happly : entry.operation.apply base with
  | error error => rw [happly] at hrest; cases hrest
  | ok next =>
      refine ⟨next, rfl, ?_⟩
      rw [List.take_add, hdrop, List.take_succ_cons, List.take_zero, replay_append, hbase]
      exact (replay_cons ..).trans (by rw [happly]; rfl)

@[simp]
theorem seqsOf_append (client : ClientId) (first second : List AppliedOperation) :
    seqsOf client (first ++ second) = seqsOf client first ++ seqsOf client second := by
  simp [seqsOf]

theorem seqsOf_singleton (client : ClientId) (entry : AppliedOperation) :
    seqsOf client [entry] = if entry.clientId = client then [entry.seq] else [] := by
  by_cases h : entry.clientId = client <;> simp [seqsOf, h]

theorem seqsOf_eq_nil {client : ClientId} (h : ∀ entry ∈ entries, entry.clientId ≠ client) :
    seqsOf client entries = [] := by
  simpa [seqsOf] using h

theorem mem_seqsOf {client : ClientId} (hmem : entry ∈ entries)
    (hclient : entry.clientId = client) : entry.seq ∈ seqsOf client entries :=
  List.mem_map_of_mem (List.mem_filter.mpr ⟨hmem, by simpa using hclient⟩)

/-! ## Carrying over -/

theorem rebase_append (operation : Operation) (first second : List AppliedOperation) :
    rebase operation (first ++ second) = rebase operation first >>= (rebase · second) := by
  induction first generalizing operation with
  | nil => rfl
  | cons entry first ih =>
      simp only [List.cons_append, rebase]
      cases operation.transform entry.operation with
      | error error => rfl
      | ok carried => exact ih carried.1

/-- An operation that fits a text is carried over everything that happened to the text. -/
theorem exists_rebase (hbuilt : operation.Built)
    (hentries : ∀ entry ∈ entries, entry.operation.Built)
    (hreplay : replay text entries = .ok result) (hbase : operation.baseLength = text.length) :
    ∃ carried, rebase operation entries = .ok carried ∧ carried.Built ∧
      carried.baseLength = result.length := by
  induction entries generalizing operation text with
  | nil =>
      obtain rfl : text = result := Except.ok.inj hreplay
      exact ⟨operation, rfl, hbuilt, hbase⟩
  | cons entry rest ih =>
      rw [replay_cons] at hreplay
      cases happly : entry.operation.apply text with
      | error error => rw [happly] at hreplay; cases hreplay
      | ok next =>
          rw [happly] at hreplay
          obtain ⟨left', right', htransform, hcarried⟩ := Operation.exists_transform hbuilt
            (hentries entry List.mem_cons_self)
            (hbase.trans (Operation.apply_eq_ok_iff.mp happly).1)
          obtain ⟨carried, hrebase, hcarriedBuilt, hlength⟩ := ih hcarried.builtLeft
            (fun other hmem => hentries other (List.mem_cons_of_mem _ hmem)) hreplay
            (hcarried.baseLeft.trans (Operation.length_of_apply happly).symm)
          exact ⟨carried, by rw [rebase, htransform]; exact hrebase, hcarriedBuilt, hlength⟩

/-! ## Soundness -/

/-- Entry number `n` has revision `n`, and the last number of each client is known. -/
structure Ordered (history : History) : Prop where
  numbered : history.entries.map (·.revision) = List.range' 1 history.revision
  counted : ∀ client, history.appliedSeqs.get? client =
    (seqsOf client history.entries).getLast?

theorem ordered_start (content : Text) : (History.start content).Ordered := ⟨rfl, fun _ => rfl⟩

theorem Ordered.append (h : history.Ordered) (content : Text) (client : ClientId) (seq : Nat)
    (operation : Operation) :
    (history.append content
      { revision := history.revision + 1, clientId := client, seq, operation }).Ordered where
  numbered := by
    simp [History.append, History.revision, h.numbered, List.range'_concat, Nat.add_comm]
  counted := by
    intro other
    simp only [History.append, Table.get?_insert, seqsOf_append, seqsOf_singleton, h.counted]
    by_cases hother : other = client
    · simp [hother]
    · simp [hother, Ne.symm hother]

/-- The three records of a history tell the same story. -/
structure Sound (origin : Text) (history : History) : Prop extends Ordered history where
  replays : replay origin history.entries = .ok history.content
  built : ∀ entry ∈ history.entries, entry.operation.Built

theorem sound_start (content : Text) : (History.start content).Sound content :=
  ⟨ordered_start content, rfl, by simp [History.start]⟩

theorem Sound.append {content : Text} {client : ClientId} {seq : Nat} (h : history.Sound origin)
    (hbuilt : operation.Built) (happly : operation.apply history.content = .ok content) :
    (history.append content
      { revision := history.revision + 1, clientId := client, seq, operation }).Sound origin where
  toOrdered := h.toOrdered.append content client seq operation
  replays := by
    simp only [History.append, replay_append, h.replays]
    rw [show (Except.ok history.content >>= fun text => replay text _) = replay history.content _
      from rfl, replay_cons]
    rw [happly]
    rfl
  built := by
    intro entry hmem
    rcases List.mem_append.mp hmem with hmem | hmem
    · exact h.built entry hmem
    · obtain rfl := List.mem_singleton.mp hmem
      exact hbuilt

/-- An entry stands where its revision says. -/
theorem Ordered.revision_of_drop (h : history.Ordered) {revision : Nat}
    (hdrop : history.entries.drop revision = entry :: rest) : entry.revision = revision + 1 := by
  have hentry : history.entries[revision]? = some entry := by
    rw [← List.head?_drop, hdrop, List.head?_cons]
  have hlt : revision < history.revision := (List.getElem?_eq_some_iff.mp hentry).1
  have hnumber : (history.entries.map (·.revision))[revision]? = some entry.revision := by
    rw [List.getElem?_map, hentry, Option.map_some]
  rw [h.numbered, List.getElem?_range' hlt] at hnumber
  have := Option.some.inj hnumber
  omega

theorem Ordered.exists_drop (h : history.Ordered) (hmem : entry ∈ history.entries) :
    ∃ index, entry.revision = index + 1 ∧
      history.entries.drop index = entry :: history.entries.drop (index + 1) := by
  obtain ⟨index, hindex, hentry⟩ := List.mem_iff_getElem.mp hmem
  have hdrop : history.entries.drop index = entry :: history.entries.drop (index + 1) := by
    rw [List.drop_eq_getElem_cons hindex, hentry]
  exact ⟨index, h.revision_of_drop hdrop, hdrop⟩

/-- An entry up to a revision is among the first so many. -/
theorem Ordered.mem_take (h : history.Ordered) {revision : Nat}
    (hmem : entry ∈ history.entries) (hle : entry.revision ≤ revision) :
    entry ∈ history.entries.take revision := by
  obtain ⟨index, hrevision, hdrop⟩ := h.exists_drop hmem
  have hentry : (history.entries.take revision)[index]? = some entry := by
    rw [List.getElem?_take, if_pos (by omega), ← List.head?_drop, hdrop, List.head?_cons]
  exact List.mem_of_getElem? hentry

theorem Ordered.mem_drop (h : history.Ordered) {revision : Nat}
    (hmem : entry ∈ history.entries) (hlt : revision < entry.revision) :
    entry ∈ history.entries.drop revision := by
  obtain ⟨index, hrevision, hdrop⟩ := h.exists_drop hmem
  have hlater : entry ∈ (history.entries.drop revision).drop (index - revision) := by
    rw [List.drop_drop, show revision + (index - revision) = index by omega, hdrop]
    exact List.mem_cons_self
  exact List.mem_of_mem_drop hlater

theorem Ordered.revision_le (h : history.Ordered) (hmem : entry ∈ history.entries) :
    entry.revision ≤ history.revision := by
  obtain ⟨index, hrevision, hdrop⟩ := h.exists_drop hmem
  have hlength := congrArg List.length hdrop
  simp only [List.length_drop, List.length_cons] at hlength
  rw [hrevision, revision]
  omega

/-! ## Receiving -/

variable {message : OperationMessage} {recorded : Nat}

theorem since_of_le {revision : Nat} (h : revision ≤ history.revision) :
    history.since revision = .ok (history.entries.drop revision) :=
  if_neg (Nat.not_lt.mpr h)

/-- A message repeats an operation if its number is among those recorded. -/
theorem Ordered.isDuplicate_iff (h : history.Ordered)
    (hseqs : seqsOf message.clientId history.entries = List.range' 1 recorded)
    (hpos : 1 ≤ message.seq) : history.isDuplicate message ↔ message.seq ≤ recorded := by
  rw [isDuplicate, h.counted, hseqs]
  cases recorded with
  | zero => simp; omega
  | succ recorded => simp [List.range'_1_concat, Nat.add_comm]

/-- A repeated operation is answered with the revision it reached. -/
theorem Ordered.receive_repeated (h : history.Ordered)
    (hseqs : seqsOf message.clientId history.entries = List.range' 1 recorded)
    (hpos : 1 ≤ message.seq) (hle : message.seq ≤ recorded) :
    ∃ entry ∈ history.entries, entry.clientId = message.clientId ∧ entry.seq = message.seq ∧
      history.receive message = .ok (history, .duplicate message.seq entry.revision) := by
  have hduplicate := (h.isDuplicate_iff hseqs hpos).mpr hle
  have hmem : message.seq ∈ seqsOf message.clientId history.entries := by
    rw [hseqs, List.mem_range'_1]
    omega
  cases hfind : history.entries.find? fun entry =>
      entry.clientId = message.clientId && entry.seq = message.seq with
  | none =>
      obtain ⟨entry, hentry, hseq⟩ := List.mem_map.mp hmem
      obtain ⟨hentry, hclient⟩ := List.mem_filter.mp hentry
      have := List.find?_eq_none.mp hfind entry hentry
      simp_all
  | some entry =>
      have hentry := List.find?_some hfind
      simp only [Bool.and_eq_true, decide_eq_true_eq] at hentry
      refine ⟨entry, List.mem_of_find?_eq_some hfind, hentry.1, hentry.2, ?_⟩
      simp [receive, hduplicate, duplicateRevision, hfind, pure, Except.pure]

/-- A new operation is carried over what came after the revision it was made on. -/
theorem Ordered.receive_new {content : Text} (h : history.Ordered)
    (hseqs : seqsOf message.clientId history.entries = List.range' 1 recorded)
    (hpos : 1 ≤ message.seq) (hlt : recorded < message.seq)
    (hle : message.revision ≤ history.revision)
    (hrebase : rebase message.operation (history.entries.drop message.revision) = .ok operation)
    (happly : operation.apply history.content = .ok content) :
    history.receive message =
      .ok (history.append content
          { revision := history.revision + 1, clientId := message.clientId, seq := message.seq,
            operation },
        .applied { revision := history.revision + 1, clientId := message.clientId,
                   seq := message.seq, operation }) := by
  have hfresh : history.isDuplicate message = false := by
    rw [Bool.eq_false_iff, Ne, h.isDuplicate_iff hseqs hpos]
    omega
  simp [receive, hfresh, since_of_le hle, hrebase, happly, bind, Except.bind, pure, Except.pure]

end Coauthor.History
