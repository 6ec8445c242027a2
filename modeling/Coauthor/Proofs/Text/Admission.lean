import Coauthor.Proofs.Text.Canonical
import Coauthor.Proofs.Text.Replay

/-!
# What a history accepts

An operation is accepted if it was made on the text that the history had at the revision that the
message names.  One length decides: every entry fits the text before it, so an operation that can be
carried over the first of them can be carried over all, and then applies.  Hence it makes no
difference how far the client has carried the operation itself before it is sent.
-/

namespace Coauthor

/-- The history has reached the revision of the message and had a text there that the operation
of the message is for. -/
structure OperationMessage.Based (origin : Text) (history : History) (message : OperationMessage) :
    Prop where
  reached : message.revision ≤ history.revision
  fits : ∃ base, History.replay origin (history.entries.take message.revision) = .ok base ∧
    message.operation.baseLength = base.length

namespace History

variable {origin base : Text} {history : History} {message : OperationMessage}
  {operation carried : Operation} {entries : List AppliedOperation} {revision : Nat}

/-- Applies an operation of a message that was carried over the whole history, and appends it. -/
def record (history : History) (message : OperationMessage) (operation : Operation) :
    Except OperationError (History × Received) := do
  let content ← operation.apply history.content
  let entry : AppliedOperation :=
    { revision := history.revision + 1, clientId := message.clientId, seq := message.seq,
      operation }
  return (history.append content entry, .applied entry)

theorem exists_record (h : operation.baseLength = history.content.length)
    (message : OperationMessage) :
    ∃ later entry, history.record message operation = .ok (later, .applied entry) := by
  simp only [record, Operation.apply_of_length h.symm, bind, Except.bind, pure, Except.pure]
  exact ⟨_, _, rfl⟩

/-- A number above the last one of its client is new. -/
theorem isDuplicate_eq_false_iff : history.isDuplicate message = false ↔
    ∀ last, history.appliedSeqs.get? message.clientId = some last → last < message.seq := by
  unfold isDuplicate
  cases history.appliedSeqs.get? message.clientId with
  | none => simp
  | some last => simp

theorem receive_of_lt_revision (hfresh : history.isDuplicate message = false)
    (hlt : history.revision < message.revision) : history.receive message =
      .error (.revisionAhead message.revision history.revision) := by
  simp [receive, hfresh, since, hlt, bind, Except.bind]

/-- A new operation is carried over what came after the revision it was made on, and recorded. -/
theorem receive_of_le_revision (hfresh : history.isDuplicate message = false)
    (hle : message.revision ≤ history.revision) : history.receive message =
      rebase message.operation (history.entries.drop message.revision) >>=
        history.record message := by
  simp only [receive, hfresh, Bool.false_eq_true, if_false, since_of_le hle]
  rfl

/-! ## Reachable histories -/

theorem built_of_rebase (hbuilt : operation.Built) (h : rebase operation entries = .ok carried) :
    carried.Built := by
  induction entries generalizing operation with
  | nil => exact Except.ok.inj h ▸ hbuilt
  | cons entry entries ih =>
      cases htransform : operation.transform entry.operation with
      | error error => simp [rebase, htransform, bind, Except.bind] at h
      | ok moved =>
          simp only [rebase, htransform, bind, Except.bind] at h
          exact ih (Operation.built_of_transform htransform).1 h

theorem Sound.receiveInPlace (h : history.Sound origin) (hbuilt : message.operation.Built) :
    (receiveInPlace message history).2.Sound origin := by
  rw [receiveInPlace_eq]
  cases hreceive : history.receive message with
  | error error => rwa [Mutation.atomic_of_error hreceive]
  | ok answer =>
      obtain ⟨later, received⟩ := answer
      rw [Mutation.atomic_of_ok hreceive]
      cases hduplicate : history.isDuplicate message with
      | true =>
          rw [receive_of_isDuplicate hduplicate] at hreceive
          exact (Prod.mk.inj (Except.ok.inj hreceive)).1 ▸ h
      | false =>
          obtain ⟨operation, content, -, hrebase, happly, rfl, -⟩ :=
            exists_of_receive hduplicate hreceive
          exact h.append (built_of_rebase hbuilt hrebase) happly

theorem Sound.receiveAll {messages : List OperationMessage} (h : history.Sound origin)
    (hbuilt : ∀ message ∈ messages, message.operation.Built) :
    (history.receiveAll messages).Sound origin := by
  induction messages generalizing history with
  | nil => exact h
  | cons message messages ih =>
      obtain ⟨hfirst, hrest⟩ := List.forall_mem_cons.mp hbuilt
      exact ih (h.receiveInPlace hfirst) hrest

/-- The history had a text at every revision, and from there its entries lead to the present one. -/
theorem Sound.exists_base (h : history.Sound origin) (revision : Nat) :
    ∃ base, replay origin (history.entries.take revision) = .ok base ∧
      replay base (history.entries.drop revision) = .ok history.content := by
  have hreplays := h.replays
  rw [← List.take_append_drop revision history.entries, replay_append] at hreplays
  cases hbase : replay origin (history.entries.take revision) with
  | error error => rw [hbase] at hreplays; cases hreplays
  | ok base =>
      rw [hbase] at hreplays
      exact ⟨base, rfl, hreplays⟩

/-! ## Accepted and refused -/

/-- An operation that is based on a text of the history is carried to any later revision, and
recorded. -/
theorem Sound.exists_rebase_take (h : history.Sound origin) (hbuilt : message.operation.Built)
    (hbased : message.Based origin history) (hle : message.revision ≤ revision) :
    ∃ carried, rebase message.operation
      ((history.entries.take revision).drop message.revision) = .ok carried := by
  obtain ⟨base, hbase, hlength⟩ := hbased.fits
  obtain ⟨result, hresult, -⟩ := h.exists_base revision
  have hreplay : replay base ((history.entries.take revision).drop message.revision) =
      .ok result := by
    rw [← List.take_append_drop message.revision (history.entries.take revision), replay_append,
      List.take_take, Nat.min_eq_left hle, hbase] at hresult
    exact hresult
  obtain ⟨carried, hrebase, -⟩ := exists_rebase hbuilt
    (fun entry hmem => h.built entry (List.mem_of_mem_take (List.mem_of_mem_drop hmem))) hreplay
    hlength
  exact ⟨carried, hrebase⟩

theorem Sound.exists_receive (h : history.Sound origin) (hbuilt : message.operation.Built)
    (hfresh : history.isDuplicate message = false) (hbased : message.Based origin history) :
    ∃ later entry, history.receive message = .ok (later, .applied entry) := by
  obtain ⟨base, hbase, hlength⟩ := hbased.fits
  obtain ⟨other, hother, hreplay⟩ := h.exists_base message.revision
  obtain rfl : base = other := Except.ok.inj (hbase.symm.trans hother)
  obtain ⟨carried, hrebase, -, hcarried⟩ := exists_rebase hbuilt
    (fun entry hmem => h.built entry (List.mem_of_mem_drop hmem)) hreplay hlength
  obtain ⟨later, entry, hrecord⟩ := exists_record hcarried message
  exact ⟨later, entry, by rw [receive_of_le_revision hfresh hbased.reached, hrebase]; exact hrecord⟩

/-- What does not fit is refused by the first entry behind its revision, whatever comes later. -/
theorem Sound.rebase_of_ne (h : history.Sound origin)
    (hlt : message.revision < revision) (hle : revision ≤ history.revision)
    (hbase : replay origin (history.entries.take message.revision) = .ok base)
    (hlength : message.operation.baseLength ≠ base.length) :
    rebase message.operation ((history.entries.take revision).drop message.revision) =
      .error (.transformLengthMismatch message.operation.baseLength base.length) := by
  have hindex : message.revision < history.entries.length := hlt.trans_le hle
  obtain ⟨next, happly, -⟩ := exists_next h.replays (List.drop_eq_getElem_cons hindex) hbase
  have hentry := (Operation.apply_eq_ok_iff.mp happly).1
  rw [List.drop_take, List.drop_eq_getElem_cons hindex,
    show revision - message.revision = revision - message.revision - 1 + 1 by omega,
    List.take_succ_cons, rebase, Operation.transform_of_ne (hentry ▸ hlength), hentry]
  rfl

theorem Sound.receive_of_ne (h : history.Sound origin)
    (hfresh : history.isDuplicate message = false) (hle : message.revision ≤ history.revision)
    (hbase : replay origin (history.entries.take message.revision) = .ok base)
    (hlength : message.operation.baseLength ≠ base.length) :
    history.receive message = .error
      (if message.revision < history.revision then
        .transformLengthMismatch message.operation.baseLength base.length
      else .baseLengthMismatch message.operation.baseLength base.length) := by
  rw [receive_of_le_revision hfresh hle]
  split
  · next hlt =>
      have hrebase := h.rebase_of_ne hlt le_rfl hbase hlength
      rw [revision, List.take_length] at hrebase
      rw [hrebase]
      rfl
  · next hcurrent =>
      have hsame : message.revision = history.entries.length :=
        Nat.le_antisymm hle (Nat.not_lt.mp hcurrent)
      rw [hsame, List.take_length, h.replays] at hbase
      obtain rfl := Except.ok.inj hbase
      rw [hsame, List.drop_length]
      simp [rebase, record, Operation.apply, Operation.checkBase, Ne.symm hlength, bind,
        Except.bind]

/-- An operation may be carried over any of what came after its revision before it is sent. -/
theorem rebase_bind_receive (hfresh : history.isDuplicate message = false)
    (hle : message.revision ≤ revision) (hrevision : revision ≤ history.revision) :
    (rebase message.operation ((history.entries.take revision).drop message.revision) >>=
        fun operation => history.receive { message with revision, operation }) =
      history.receive message := by
  rw [receive_of_le_revision hfresh (hle.trans hrevision), drop_eq_append history.entries hle,
    rebase_append, bind_assoc]
  refine bind_congr fun operation => ?_
  -- The message that was carried over has the same client and number, so it is new as well.
  exact receive_of_le_revision hfresh hrevision

/-- After any messages, a new one is recorded if and only if it is based on a text of the history.
Any other is refused: with the two revisions if it is ahead, and else with the length of its
operation and that of the text at its revision, by the first entry behind the revision if there is
one and by the text if there is none.  So an operation that can be carried over one entry is
recorded, and carrying it over any number of them before it is sent changes neither what is recorded
nor what is refused. -/
theorem receive_applied_iff_based (text : Text) (messages : List OperationMessage)
    (message : OperationMessage) (hmessages : ∀ earlier ∈ messages, earlier.operation.Built)
    (hbuilt : message.operation.Built)
    (hnew : ∀ last, ((start text).receiveAll messages).appliedSeqs.get? message.clientId =
      some last → last < message.seq) :
    let history := (start text).receiveAll messages
    ((∃ later entry, history.receive message = .ok (later, .applied entry)) ↔
      message.Based text history) ∧
    (history.revision < message.revision → history.receive message =
      .error (.revisionAhead message.revision history.revision)) ∧
    (message.revision ≤ history.revision →
      ∃ base, replay text (history.entries.take message.revision) = .ok base ∧
        (message.operation.baseLength ≠ base.length → history.receive message = .error
          (if message.revision < history.revision then
            .transformLengthMismatch message.operation.baseLength base.length
          else .baseLengthMismatch message.operation.baseLength base.length))) ∧
    ∀ revision, message.revision ≤ revision → revision ≤ history.revision →
      let carry := rebase message.operation
        ((history.entries.take revision).drop message.revision)
      (message.Based text history → ∃ carried, carry = .ok carried) ∧
      (message.revision < revision → (∃ carried, carry = .ok carried) →
        message.Based text history) ∧
      (carry >>= fun operation => history.receive { message with revision, operation }) =
        history.receive message := by
  intro history
  have hsound : history.Sound text := (sound_start text).receiveAll hmessages
  have hfresh : history.isDuplicate message = false := isDuplicate_eq_false_iff.mpr hnew
  obtain ⟨base, hbase, -⟩ := hsound.exists_base message.revision
  refine ⟨⟨?_, hsound.exists_receive hbuilt hfresh⟩, receive_of_lt_revision hfresh,
    fun hle => ⟨base, hbase, hsound.receive_of_ne hfresh hle hbase⟩, fun revision hle hrevision =>
      ⟨fun hbased => hsound.exists_rebase_take hbuilt hbased hle, ?_,
        rebase_bind_receive hfresh hle hrevision⟩⟩
  · rintro ⟨later, entry, hreceive⟩
    have hreached : message.revision ≤ history.revision := by
      by_contra hahead
      rw [receive_of_lt_revision hfresh (Nat.not_le.mp hahead)] at hreceive
      cases hreceive
    refine ⟨hreached, base, hbase, ?_⟩
    by_contra hlength
    rw [hsound.receive_of_ne hfresh hreached hbase hlength] at hreceive
    cases hreceive
  · rintro hlt ⟨carried, hcarry⟩
    refine ⟨hle.trans hrevision, base, hbase, ?_⟩
    by_contra hlength
    rw [hsound.rebase_of_ne hlt hrevision hbase hlength] at hcarry
    cases hcarry

/-- Two clients have edited a text; the operations of a third come late. -/
def edited : List OperationMessage :=
  [{ clientId := "a", seq := 1, revision := 0,
     operation := .ofComponents [.retain 1, .insert ['x', 'y']] },
    { clientId := "b", seq := 1, revision := 0, operation := .ofComponents [.delete 1] }]

/-- An operation of the third client, made on the first text. -/
def late : OperationMessage :=
  { clientId := "c", seq := 3, revision := 0,
    operation := .ofComponents [.insert ['z'], .retain 1] }

/-- It is recorded as it is, and so it is when it is carried over one entry first; one that was made
on two characters is refused at once. -/
theorem receive_applied_iff_based_late :
    let history := (start ['o']).receiveAll edited
    (∃ later entry, history.receive late = .ok (later, .applied entry)) ∧
    history.receive
        { late with revision := 1, operation := .ofComponents [.insert ['z'], .retain 3] } =
      history.receive late ∧
    history.receive { late with operation := .ofComponents [.retain 2] } =
      .error (.transformLengthMismatch 2 1) := by
  have hedited : ∀ earlier ∈ edited, earlier.operation.Built :=
    List.forall_mem_cons.mpr ⟨Operation.built_ofComponents _,
      List.forall_mem_singleton.mpr (Operation.built_ofComponents _)⟩
  have hnone : ((start ['o']).receiveAll edited).appliedSeqs.get? "c" = none := by cbv
  have hrevision : ((start ['o']).receiveAll edited).revision = 2 := by cbv
  have hcarried : rebase late.operation
      ((((start ['o']).receiveAll edited).entries.take 1).drop late.revision) =
        .ok (.ofComponents [.insert ['z'], .retain 3]) := by cbv
  have hnew : ∀ last, ((start ['o']).receiveAll edited).appliedSeqs.get? "c" = some last →
      last < 3 := by
    intro last hlast
    cases hnone.symm.trans hlast
  obtain ⟨hiff, -, -, hcarry⟩ := receive_applied_iff_based ['o'] edited late hedited
    (Operation.built_ofComponents _) hnew
  obtain ⟨-, -, hrefused, -⟩ := receive_applied_iff_based ['o'] edited
    { late with operation := .ofComponents [.retain 2] } hedited (Operation.built_ofComponents _)
    hnew
  refine ⟨hiff.mpr ⟨Nat.zero_le _, ['o'], rfl, by decide⟩, ?_, ?_⟩
  · have hsame := (hcarry 1 (Nat.zero_le 1) (by rw [hrevision]; decide)).2.2
    rw [hcarried] at hsame
    exact hsame
  · obtain ⟨base, hbase, hne⟩ := hrefused (Nat.zero_le _)
    obtain rfl := Except.ok.inj (show Except.ok ['o'] = Except.ok base from hbase)
    have hold : late.revision < ((start ['o']).receiveAll edited).revision := by
      rw [hrevision]
      decide
    rw [hne (by decide), if_pos hold]
    rfl

end History

end Coauthor
