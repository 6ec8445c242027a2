import Coauthor.Proofs.Text.InPlace
import Coauthor.Proofs.Text.Numbering
import Coauthor.Proofs.Text.Tracking
import Mathlib.Data.List.Permutation

/-!
# What a document accepts

A document checks an operation against its text in one place and against its unacknowledged
operations in another.  The two checks cannot disagree: the unacknowledged operations chain, by
their lengths, onto the text.  So a document takes exactly the operations that fit it, whatever
it was used for before, and tells its listeners of each.
-/

namespace Coauthor

namespace Operation

theorem baseLength_eq_of_transform {left right : Operation} {carried : Operation × Operation}
    (h : left.transform right = .ok carried) : left.baseLength = right.baseLength := by
  by_contra hne
  simp [transform, hne, throw, throwThe, MonadExceptOf.throw, bind, Except.bind] at h

end Operation

namespace Pending

/-- The pending operations follow one another, by their lengths, onto a text of some length. -/
def Chains (length : Nat) : Pending → Prop
  | synchronized => True
  | awaitingConfirm outstanding => outstanding.operation.targetLength = length
  | awaitingWithBuffer outstanding buffer =>
      outstanding.operation.targetLength = buffer.baseLength ∧ buffer.targetLength = length

/-- The length of the text below the pending operations, if the text above them has the given
length. -/
def baseLength (length : Nat) : Pending → Nat
  | synchronized => length
  | awaitingConfirm outstanding => outstanding.operation.baseLength
  | awaitingWithBuffer outstanding _ => outstanding.operation.baseLength

variable {pending : Pending} {base content : Text}

theorem chains_of_apply (h : pending.apply base = .ok content) : pending.Chains content.length := by
  cases pending with
  | synchronized => trivial
  | awaitingConfirm outstanding => exact (Operation.length_of_apply h).symm
  | awaitingWithBuffer outstanding buffer =>
      obtain ⟨between, hbetween, hbuffer⟩ := exists_between h
      have hlength := Operation.length_of_apply hbetween
      exact ⟨hlength.symm.trans (Operation.apply_eq_ok_iff.mp hbuffer).1,
        (Operation.length_of_apply hbuffer).symm⟩

theorem baseLength_of_apply (h : pending.apply base = .ok content) :
    pending.baseLength content.length = base.length := by
  cases pending with
  | synchronized => exact congrArg List.length (Except.ok.inj h).symm
  | awaitingConfirm outstanding => exact (Operation.apply_eq_ok_iff.mp h).1.symm
  | awaitingWithBuffer outstanding buffer =>
      obtain ⟨between, hbetween, -⟩ := exists_between h
      exact (Operation.apply_eq_ok_iff.mp hbetween).1.symm

end Pending

namespace EditClient

/-- Only an outstanding operation is acknowledged. -/
theorem exists_outstanding_of_acknowledge {client : EditClient}
    {settled : EditClient × Option Submission} (h : client.acknowledge = .ok settled) :
    ∃ outstanding, client.outstanding? = some outstanding := by
  obtain ⟨revision, nextSeq, pending⟩ := client
  cases pending with
  | synchronized => cases h
  | awaitingConfirm outstanding => exact ⟨outstanding, rfl⟩
  | awaitingWithBuffer outstanding buffer => exact ⟨outstanding, rfl⟩

/-- What a client carries over what waits here was made on the text below it. -/
theorem baseLength_of_applyRemote {client moved : EditClient} {content shown : Text}
    {operation visible : Operation} (hremote : client.applyRemote operation = .ok (moved, visible))
    (happly : visible.apply content = .ok shown) :
    operation.baseLength = client.pending.baseLength content.length := by
  obtain ⟨revision, nextSeq, pending⟩ := client
  cases pending with
  | synchronized =>
      obtain ⟨rfl, rfl⟩ := Prod.mk.inj (Except.ok.inj hremote)
      exact (Operation.apply_eq_ok_iff.mp happly).1.symm
  | awaitingConfirm outstanding =>
      cases htransform : outstanding.operation.transform operation with
      | error error => simp [applyRemote, htransform, bind, Except.bind] at hremote
      | ok carried => exact (Operation.baseLength_eq_of_transform htransform).symm
  | awaitingWithBuffer outstanding buffer =>
      cases htransform : outstanding.operation.transform operation with
      | error error => simp [applyRemote, htransform, bind, Except.bind] at hremote
      | ok carried => exact (Operation.baseLength_eq_of_transform htransform).symm

end EditClient

namespace Document

/-- The text is what the unacknowledged operations make of some text. -/
structure Fitting (document : Document) : Prop where
  shows : ∃ base, document.client.Shows base document.content
  numbered : ∃ acked, document.client.Numbered acked

variable {document moved : Document} {operation : Operation}

theorem fitting_start (id : DocumentId) (client : ClientId) (text : Text) (revision : Nat) :
    (start id client text revision).Fitting :=
  ⟨⟨text, EditClient.shows_start revision text⟩, 0, rfl⟩

namespace Fitting

/-- An edit is taken if it was made on the text that is shown. -/
theorem edit_iff (h : document.Fitting) (hbuilt : operation.Built) :
    (∃ moved, document.edit operation = .ok moved) ↔
      operation.baseLength = document.content.length := by
  constructor
  · rintro ⟨moved, hedit⟩
    obtain ⟨content, edits, submission, happly, -, -⟩ := exists_of_edit hedit
    exact (Operation.apply_eq_ok_iff.mp happly).1.symm
  · intro hlength
    obtain ⟨base, hshows⟩ := h.shows
    obtain ⟨acked, hnumbered⟩ := h.numbered
    have happly := Operation.apply_of_length hlength.symm
    obtain ⟨edits, submission, hlocal, -⟩ :=
      EditClient.exists_applyLocal hshows hnumbered hbuilt happly
    exact ⟨_, by simp only [Document.edit, happly, hlocal, bind, Except.bind]; rfl⟩

/-- An operation of another client is taken if it was made on the text below the unacknowledged
operations. -/
theorem applyRemote_iff (h : document.Fitting) (hbuilt : operation.Built) :
    (∃ moved, document.applyRemote operation = .ok moved) ↔
      operation.baseLength = document.client.pending.baseLength document.content.length := by
  constructor
  · rintro ⟨moved, hremote⟩
    obtain ⟨edits, visible, content, hclient, happly, -⟩ := exists_of_applyRemote hremote
    exact EditClient.baseLength_of_applyRemote hclient happly
  · intro hlength
    obtain ⟨base, hshows⟩ := h.shows
    obtain ⟨acked, hnumbered⟩ := h.numbered
    rw [Pending.baseLength_of_apply hshows.applied] at hlength
    obtain ⟨edits, visible, shown, hclient, happly, -⟩ := EditClient.exists_applyRemote hshows
      hnumbered hbuilt (Operation.apply_of_length hlength.symm)
    exact ⟨_, by simp only [Document.applyRemote, hclient, happly, bind, Except.bind]; rfl⟩

theorem edit (h : document.Fitting) (hbuilt : operation.Built)
    (hedit : document.edit operation = .ok moved) : moved.Fitting := by
  obtain ⟨content, edits, submission, happly, hlocal, rfl⟩ := exists_of_edit hedit
  obtain ⟨base, hshows⟩ := h.shows
  obtain ⟨acked, hnumbered⟩ := h.numbered
  obtain ⟨edited, other, hsame, hshown, hmoved, -⟩ :=
    EditClient.exists_applyLocal hshows hnumbered hbuilt happly
  obtain ⟨rfl, rfl⟩ := Prod.mk.inj (Except.ok.inj (hlocal.symm.trans hsame))
  exact ⟨⟨base, by simpa [announce] using hshown⟩, acked, by simpa [announce] using hmoved⟩

theorem applyRemote (h : document.Fitting) (hbuilt : operation.Built)
    (hremote : document.applyRemote operation = .ok moved) : moved.Fitting := by
  obtain ⟨edits, visible, content, hclient, happly, rfl⟩ := exists_of_applyRemote hremote
  obtain ⟨base, hshows⟩ := h.shows
  obtain ⟨acked, hnumbered⟩ := h.numbered
  have hlength := EditClient.baseLength_of_applyRemote hclient happly
  rw [Pending.baseLength_of_apply hshows.applied] at hlength
  obtain ⟨carried, other, shown, hsame, happlied, hshown, hmoved, -⟩ :=
    EditClient.exists_applyRemote hshows hnumbered hbuilt (Operation.apply_of_length hlength.symm)
  obtain ⟨rfl, rfl⟩ := Prod.mk.inj (Except.ok.inj (hclient.symm.trans hsame))
  obtain rfl := Except.ok.inj (happly.symm.trans happlied)
  exact ⟨⟨_, hshown⟩, acked, hmoved⟩

theorem acknowledge (h : document.Fitting) (hacknowledge : document.acknowledge = .ok moved) :
    moved.Fitting := by
  obtain ⟨edits, submission, hclient, rfl⟩ := exists_of_acknowledge hacknowledge
  obtain ⟨base, hshows⟩ := h.shows
  obtain ⟨acked, hnumbered⟩ := h.numbered
  obtain ⟨outstanding, houtstanding⟩ := EditClient.exists_outstanding_of_acknowledge hclient
  obtain ⟨text, happly⟩ := Pending.exists_apply_outstanding houtstanding hshows.applied
  obtain ⟨settled, hsame, hshown, hmoved, -⟩ :=
    EditClient.exists_acknowledge hshows hnumbered houtstanding happly
  obtain ⟨rfl, rfl⟩ := Prod.mk.inj (Except.ok.inj (hclient.symm.trans hsame))
  exact ⟨⟨text, by simpa using hshown⟩, acked + 1, by simpa using hmoved⟩

theorem listen (h : document.Fitting) (listener : String) : (document.listen listener).Fitting :=
  ⟨h.shows, h.numbered⟩

theorem resend (h : document.Fitting) : document.resend.Fitting := by
  unfold Document.resend
  exact ⟨by simpa using h.shows, by simpa using h.numbered⟩

theorem takeOutgoing (h : document.Fitting) : document.takeOutgoing.1.Fitting :=
  ⟨h.shows, h.numbered⟩

theorem catchUpWith {applied : AppliedOperation} (h : document.Fitting)
    (hbuilt : applied.operation.Built) (hcatchUp : document.catchUpWith applied = .ok moved) :
    moved.Fitting := by
  unfold Document.catchUpWith at hcatchUp
  split_ifs at hcatchUp with hseen hown
  · exact Except.ok.inj hcatchUp ▸ h
  · exact h.acknowledge hcatchUp
  · exact h.applyRemote hbuilt hcatchUp

/-- A document that stops in the middle of catching up still fits. -/
theorem catchUp {missed : List AppliedOperation} (h : document.Fitting)
    (hbuilt : ∀ applied ∈ missed, applied.operation.Built) :
    (document.catchUp missed).1.Fitting := by
  induction missed generalizing document with
  | nil => exact h
  | cons applied missed ih =>
      obtain ⟨happlied, hrest⟩ := List.forall_mem_cons.mp hbuilt
      unfold Document.catchUp
      cases hcatchUp : document.catchUpWith applied with
      | error error => exact h
      | ok moved => exact ih (h.catchUpWith happlied hcatchUp) hrest

end Fitting

/-! ## In use -/

/-- What an owner does with its document.  Operations come from the builder. -/
inductive Use where
  | listen (listener : String)
  | edit (operation : Operation) (built : operation.Built)
  | applyRemote (operation : Operation) (built : operation.Built)
  | acknowledge
  | catchUp (missed : List AppliedOperation)
      (built : ∀ applied ∈ missed, applied.operation.Built)
  | resend
  | takeOutgoing

def use (document : Document) : Use → Document
  | .listen listener => document.listen listener
  | .edit operation _ => (editInPlace operation document).2
  | .applyRemote operation _ => (applyRemoteInPlace operation document).2
  | .acknowledge => (acknowledgeInPlace document).2
  | .catchUp missed _ => (catchUpInPlace missed document).2
  | .resend => document.resend
  | .takeOutgoing => document.takeOutgoing.1

/-- The document behind some uses, refused ones among them. -/
def useAll (document : Document) (uses : List Use) : Document := uses.foldl use document

theorem Fitting.use (h : document.Fitting) (use : Use) : (document.use use).Fitting := by
  cases use with
  | listen listener => exact h.listen listener
  | edit operation built =>
      rw [Document.use, editInPlace_eq]
      exact Mutation.update_preserves h fun _ => h.edit built
  | applyRemote operation built =>
      rw [Document.use, applyRemoteInPlace_eq]
      exact Mutation.update_preserves h fun _ => h.applyRemote built
  | acknowledge =>
      rw [Document.use, acknowledgeInPlace_eq]
      exact Mutation.update_preserves h fun _ => h.acknowledge
  | catchUp missed built =>
      rw [Document.use, catchUpInPlace_eq]
      exact h.catchUp built
  | resend => exact h.resend
  | takeOutgoing => exact h.takeOutgoing

theorem Fitting.useAll (h : document.Fitting) (uses : List Use) :
    (document.useAll uses).Fitting := by
  induction uses generalizing document with
  | nil => exact h
  | cons use uses ih => exact ih (h.use use)

/-- The document takes in an acknowledgement or the operation of one of the entries. -/
def Use.TakesIn (missed : List AppliedOperation) : Use → Prop
  | .acknowledge => True
  | .applyRemote operation _ => ∃ applied ∈ missed, applied.operation = operation
  | _ => False

theorem Use.TakesIn.cons {use : Use} {missed : List AppliedOperation} (h : use.TakesIn missed)
    (applied : AppliedOperation) : use.TakesIn (applied :: missed) := by
  cases use with
  | acknowledge => trivial
  | applyRemote operation built =>
      obtain ⟨other, hmem, hother⟩ := h
      exact ⟨other, List.mem_cons_of_mem _ hmem, hother⟩
  | _ => exact h.elim

/-- Catching up is taking in acknowledgements and operations, one at a time. -/
theorem exists_catchUp_eq_useAll {missed : List AppliedOperation}
    (hbuilt : ∀ applied ∈ missed, applied.operation.Built) (document : Document) :
    ∃ steps : List Use, (∀ step ∈ steps, step.TakesIn missed) ∧
      (catchUpInPlace missed document).2 = document.useAll steps := by
  induction missed generalizing document with
  | nil => exact ⟨[], List.forall_mem_nil _, rfl⟩
  | cons applied missed ih =>
      obtain ⟨happlied, hrest⟩ := List.forall_mem_cons.mp hbuilt
      -- One step is taken, and if it was not refused the others follow.
      have hcons : ∀ (mutation : Mutation Document OperationError Unit) (step : Use),
          step.TakesIn (applied :: missed) → document.use step = (mutation document).2 →
            ∃ steps : List Use, (∀ step ∈ steps, step.TakesIn (applied :: missed)) ∧
              ((mutation >>= fun _ => catchUpInPlace missed) document).2 =
                document.useAll steps := by
        intro mutation step htakes hstep
        rw [Mutation.bind_apply]
        cases hmutation : mutation document with
        | mk result later =>
            rw [hmutation] at hstep
            cases result with
            | error error =>
                exact ⟨[step], List.forall_mem_singleton.mpr htakes, hstep.symm⟩
            | ok done =>
                obtain ⟨steps, hsteps, hlater⟩ := ih hrest later
                refine ⟨step :: steps, List.forall_mem_cons.mpr
                  ⟨htakes, fun other hmem => (hsteps other hmem).cons applied⟩, ?_⟩
                rw [useAll, List.foldl_cons, hstep]
                exact hlater
      rw [catchUpInPlace, Mutation.read_bind]
      split_ifs with hseen hown
      · obtain ⟨steps, hsteps, hlater⟩ := ih hrest document
        exact ⟨steps, fun step hmem => (hsteps step hmem).cons applied, hlater⟩
      · exact hcons acknowledgeInPlace .acknowledge trivial rfl
      · exact hcons (applyRemoteInPlace applied.operation) (.applyRemote _ happlied)
          ⟨applied, List.mem_cons_self, rfl⟩ rfl

/-- A taken edit is shown and announced. -/
theorem announces_of_edit (hedit : document.edit operation = .ok moved) :
    operation.apply document.content = .ok moved.content ∧
      moved.changes = document.changes ++ document.listeners.map (·, moved.content) := by
  obtain ⟨content, edits, submission, happly, -, rfl⟩ := exists_of_edit hedit
  simp [announce, happly]

theorem announces_of_applyRemote (hremote : document.applyRemote operation = .ok moved) :
    moved.changes = document.changes ++ document.listeners.map (·, moved.content) := by
  obtain ⟨edits, visible, content, -, -, rfl⟩ := exists_of_applyRemote hremote
  rfl

/-- A document in use takes an edit, or an operation of another client, exactly if its lengths
fit the chain of unacknowledged operations.  What it refuses leaves no trace, and each operation
that it takes is told to every listener once, in the order of their registration. -/
theorem useAll_accepts (id : DocumentId) (client : ClientId) (text : Text) (revision : Nat)
    (uses : List Use) :
    let document := (start id client text revision).useAll uses
    let length := document.content.length
    document.client.pending.Chains length ∧
    (∀ operation : Operation, operation.Built →
      ((editInPlace operation document).1 = .ok () ↔ operation.baseLength = length) ∧
      ((applyRemoteInPlace operation document).1 = .ok () ↔
        operation.baseLength = document.client.pending.baseLength length)) ∧
    (∀ mutation, mutation = acknowledgeInPlace ∨
        (∃ operation, mutation = editInPlace operation ∨ mutation = applyRemoteInPlace operation) →
      ∀ error later, mutation document = (.error error, later) → later = document) ∧
    (∀ operation later, editInPlace operation document = (.ok (), later) →
      operation.apply document.content = .ok later.content ∧
        later.changes = document.changes ++ document.listeners.map (·, later.content)) ∧
    (∀ operation later, applyRemoteInPlace operation document = (.ok (), later) →
      later.changes = document.changes ++ document.listeners.map (·, later.content)) ∧
    ∀ missed : List AppliedOperation, (∀ applied ∈ missed, applied.operation.Built) →
      ∃ steps : List Use, (∀ step ∈ steps, step.TakesIn missed) ∧
        (catchUpInPlace missed document).2 = document.useAll steps := by
  intro document length
  have h : document.Fitting := (fitting_start id client text revision).useAll uses
  obtain ⟨base, hshows⟩ := h.shows
  refine ⟨Pending.chains_of_apply hshows.applied, fun operation hbuilt => ⟨?_, ?_⟩, ?_, ?_, ?_,
    fun missed hbuilt => exists_catchUp_eq_useAll hbuilt document⟩
  · rw [editInPlace_eq, Mutation.fst_update_eq_ok_iff]
    exact h.edit_iff hbuilt
  · rw [applyRemoteInPlace_eq, Mutation.fst_update_eq_ok_iff]
    exact h.applyRemote_iff hbuilt
  · rintro mutation (rfl | ⟨operation, rfl | rfl⟩) error later hmutation
    · rw [acknowledgeInPlace_eq] at hmutation
      exact (Mutation.update_eq_error_iff.mp hmutation).2
    · rw [editInPlace_eq] at hmutation
      exact (Mutation.update_eq_error_iff.mp hmutation).2
    · rw [applyRemoteInPlace_eq] at hmutation
      exact (Mutation.update_eq_error_iff.mp hmutation).2
  · intro operation later hedit
    rw [editInPlace_eq] at hedit
    exact announces_of_edit (Mutation.update_eq_ok_iff.mp hedit)
  · intro operation later hremote
    rw [applyRemoteInPlace_eq] at hremote
    exact announces_of_applyRemote (Mutation.update_eq_ok_iff.mp hremote)

/-- Two edits are on their way when another client deletes a character, and then an operation
arrives that fits nothing. -/
def busy : List Use :=
  [.listen "view",
    .edit (.ofComponents [.retain 2, .insert ['c']]) (Operation.built_ofComponents _),
    .edit (.ofComponents [.insert ['x'], .retain 3]) (Operation.built_ofComponents _),
    .applyRemote (.ofComponents [.delete 1, .retain 1]) (Operation.built_ofComponents _),
    .applyRemote (.ofComponents [.retain 9]) (Operation.built_ofComponents _)]

theorem useAll_accepts_busy :
    let document := (start "doc" "me" ['a', 'b'] 0).useAll busy
    document.content = ['x', 'b', 'c'] ∧ document.client.pending.Chains 3 ∧
      (editInPlace (.ofComponents [.retain 3]) document).1 = .ok () ∧
      (applyRemoteInPlace (.ofComponents [.retain 1]) document).1 = .ok () ∧
      ∀ later, editInPlace (.ofComponents [.retain 3]) document = (.ok (), later) →
        later.changes = document.changes ++ [("view", later.content)] := by
  have hcontent : ((start "doc" "me" ['a', 'b'] 0).useAll busy).content = ['x', 'b', 'c'] := by cbv
  have hbase : ((start "doc" "me" ['a', 'b'] 0).useAll busy).client.pending.baseLength 3 = 1 := by
    cbv
  have hlisteners : ((start "doc" "me" ['a', 'b'] 0).useAll busy).listeners = ["view"] := by cbv
  obtain ⟨hchains, htakes, -, hannounces, -⟩ := useAll_accepts "doc" "me" ['a', 'b'] 0 busy
  rw [hcontent] at hchains
  refine ⟨hcontent, hchains, ?_, ?_, fun later hedit => ?_⟩
  · refine (htakes _ (Operation.built_ofComponents _)).1.mpr ?_
    rw [hcontent]
    decide
  · refine (htakes _ (Operation.built_ofComponents _)).2.mpr ?_
    rw [hcontent]
    exact (show _ = 1 by decide).trans hbase.symm
  · have hchanges := (hannounces _ later hedit).2
    rwa [hlisteners] at hchanges

end Document

end Coauthor
