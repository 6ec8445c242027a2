import Coauthor.Proofs.Text.Merge
import Coauthor.Text.EditClient

/-!
# What an edit client shows

The text of the server at the client's revision, with the outstanding operation and then
the buffer applied to it, is the text that the client shows.  An edit, an operation of
another client and an acknowledgement are never refused by a client that shows its text,
and it goes on showing it.
-/

namespace Coauthor

namespace Pending

/-- Applies what the server has not acknowledged. -/
def apply : Pending → Text → Except OperationError Text
  | synchronized, text => .ok text
  | awaitingConfirm outstanding, text => outstanding.operation.apply text
  | awaitingWithBuffer outstanding buffer, text =>
      outstanding.operation.apply text >>= buffer.apply

/-- The unacknowledged operations come from the builder. -/
def Built : Pending → Prop
  | synchronized => True
  | awaitingConfirm outstanding => outstanding.operation.Built
  | awaitingWithBuffer outstanding buffer => outstanding.operation.Built ∧ buffer.Built

variable {pending : Pending} {outstanding : Outstanding} {base content : Text}

/-- Between the outstanding operation and the buffer there is a text. -/
theorem exists_between {buffer : Operation}
    (h : (awaitingWithBuffer outstanding buffer).apply base = .ok content) :
    ∃ between, outstanding.operation.apply base = .ok between ∧
      buffer.apply between = .ok content := by
  rw [apply] at h
  cases hfirst : outstanding.operation.apply base with
  | error error => rw [hfirst] at h; cases h
  | ok between =>
      rw [hfirst] at h
      exact ⟨between, rfl, h⟩

theorem exists_apply_outstanding (houtstanding : pending.outstanding? = some outstanding)
    (happly : pending.apply base = .ok content) :
    ∃ text, outstanding.operation.apply base = .ok text := by
  cases pending with
  | synchronized => cases houtstanding
  | awaitingConfirm other =>
      obtain rfl := Option.some.inj houtstanding
      exact ⟨content, happly⟩
  | awaitingWithBuffer other buffer =>
      obtain rfl := Option.some.inj houtstanding
      obtain ⟨between, hbetween, -⟩ := exists_between happly
      exact ⟨between, hbetween⟩

theorem Built.of_outstanding (h : pending.Built)
    (houtstanding : pending.outstanding? = some outstanding) : outstanding.operation.Built := by
  cases pending with
  | synchronized => cases houtstanding
  | awaitingConfirm other => exact Option.some.inj houtstanding ▸ h
  | awaitingWithBuffer other buffer => exact Option.some.inj houtstanding ▸ h.1

end Pending

namespace EditClient

/-- On top of `base` the client shows `content`. -/
structure Shows (client : EditClient) (base content : Text) : Prop where
  built : client.pending.Built
  applied : client.pending.apply base = .ok content

/-- The numbers of a client of whose operations `acked` were acknowledged. -/
def Numbered (acked : Nat) (client : EditClient) : Prop :=
  match client.outstanding? with
  | none => client.nextSeq = acked + 1
  | some outstanding => outstanding.seq = acked + 1 ∧ client.nextSeq = acked + 2

variable {client : EditClient} {base content next : Text} {operation : Operation} {acked : Nat}

theorem Numbered.seq {outstanding : Outstanding} (h : client.Numbered acked)
    (houtstanding : client.outstanding? = some outstanding) : outstanding.seq = acked + 1 := by
  rw [Numbered, houtstanding] at h
  exact h.1

theorem shows_start (revision : Nat) (text : Text) : (start revision).Shows text text :=
  ⟨trivial, rfl⟩

/-- An edit either becomes the outstanding operation and is sent, or waits. -/
theorem exists_applyLocal (h : client.Shows base content) (hnumbered : client.Numbered acked)
    (hbuilt : operation.Built) (happly : operation.apply content = .ok next) :
    ∃ edited submission, client.applyLocal operation = .ok (edited, submission) ∧
      edited.Shows base next ∧ edited.Numbered acked ∧ edited.revision = client.revision ∧
      (submission = edited.resend ∧ client.outstanding? = none ∨
        submission = none ∧ edited.outstanding? = client.outstanding?) := by
  obtain ⟨revision, nextSeq, pending⟩ := client
  cases pending with
  | synchronized =>
      obtain rfl : base = content := Except.ok.inj h.applied
      have hseq : nextSeq = acked + 1 := hnumbered
      exact ⟨_, _, rfl, ⟨hbuilt, happly⟩, ⟨hseq, congrArg (· + 1) hseq⟩, rfl, .inl ⟨rfl, rfl⟩⟩
  | awaitingConfirm outstanding =>
      have happlied : outstanding.operation.apply base = .ok content := h.applied
      refine ⟨_, _, rfl, ⟨⟨h.built, hbuilt⟩, ?_⟩, hnumbered, rfl, .inr ⟨rfl, rfl⟩⟩
      simp only [Pending.apply, happlied]
      exact happly
  | awaitingWithBuffer outstanding buffer =>
      obtain ⟨between, hbetween, hbuffer⟩ := Pending.exists_between h.applied
      obtain ⟨composed, hcompose, hcomposed, -, -, heffect⟩ := Operation.exists_compose
        h.built.2 hbuilt ((Operation.length_of_apply hbuffer).symm.trans
          (Operation.apply_eq_ok_iff.mp happly).1)
      refine ⟨{ revision, nextSeq, pending := .awaitingWithBuffer outstanding composed }, none, ?_,
        ⟨⟨h.built.1, hcomposed⟩, ?_⟩, hnumbered, rfl, .inr ⟨rfl, rfl⟩⟩
      · simp only [applyLocal, hcompose]
        rfl
      · have hlength := (Operation.apply_eq_ok_iff.mp hbuffer).1
        calc (outstanding.operation.apply base >>= composed.apply)
            = composed.apply between := by rw [hbetween]; rfl
          _ = buffer.apply between >>= operation.apply := heffect between hlength
          _ = .ok next := by rw [hbuffer]; exact happly

/-- An operation of another client is carried over what waits here. -/
theorem exists_applyRemote (h : client.Shows base content) (hnumbered : client.Numbered acked)
    (hbuilt : operation.Built) (happly : operation.apply base = .ok next) :
    ∃ moved visible shown, client.applyRemote operation = .ok (moved, visible) ∧
      visible.apply content = .ok shown ∧ moved.Shows next shown ∧ moved.Numbered acked ∧
      moved.revision = client.revision + 1 ∧
      (client.outstanding? = none → moved.outstanding? = none) ∧
      ∀ outstanding, client.outstanding? = some outstanding →
        ∃ waiting behind, outstanding.operation.transform operation = .ok (waiting, behind) ∧
          moved.outstanding? = some { outstanding with operation := waiting } := by
  obtain ⟨revision, nextSeq, pending⟩ := client
  cases pending with
  | synchronized =>
      obtain rfl : base = content := Except.ok.inj h.applied
      exact ⟨_, _, next, rfl, happly, ⟨trivial, rfl⟩, hnumbered, rfl, fun _ => rfl,
        fun _ hsome => nomatch hsome⟩
  | awaitingConfirm outstanding =>
      obtain ⟨waiting, visible, shown, htransform, hwaiting, -, hshown, hvisible⟩ :=
        Operation.exists_transform_apply h.built hbuilt h.applied happly
      refine ⟨
        { revision := revision + 1, nextSeq,
          pending := .awaitingConfirm { outstanding with operation := waiting } },
        visible, shown, ?_, hvisible, ⟨hwaiting, hshown⟩, hnumbered, rfl,
        (nomatch ·), fun other hsome => ?_⟩
      · simp only [applyRemote, htransform]
        rfl
      · obtain rfl := Option.some.inj hsome
        exact ⟨waiting, visible, htransform, rfl⟩
  | awaitingWithBuffer outstanding buffer =>
      obtain ⟨between, hbetween, hbuffer⟩ := Pending.exists_between h.applied
      obtain ⟨waiting, behind, moved, htransform, hwaiting, hbehind, hmoved, hbeyond⟩ :=
        Operation.exists_transform_apply h.built.1 hbuilt hbetween happly
      obtain ⟨carried, visible, shown, hcarry, hcarried, -, hshown, hvisible⟩ :=
        Operation.exists_transform_apply h.built.2 hbehind hbuffer hbeyond
      refine ⟨
        { revision := revision + 1, nextSeq,
          pending := .awaitingWithBuffer { outstanding with operation := waiting } carried },
        visible, shown, ?_, hvisible, ⟨⟨hwaiting, hcarried⟩, ?_⟩, hnumbered, rfl,
        (nomatch ·), fun other hsome => ?_⟩
      · simp only [applyRemote, htransform, bind, Except.bind, hcarry]
        rfl
      · simp only [Pending.apply, hmoved]
        exact hshown
      · obtain rfl := Option.some.inj hsome
        exact ⟨waiting, behind, htransform, rfl⟩

/-- The acknowledged operation counts as one of the server, and the buffer is sent. -/
theorem exists_acknowledge {outstanding : Outstanding} (h : client.Shows base content)
    (hnumbered : client.Numbered acked) (houtstanding : client.outstanding? = some outstanding)
    (happly : outstanding.operation.apply base = .ok next) :
    ∃ moved, client.acknowledge = .ok (moved, moved.resend) ∧ moved.Shows next content ∧
      moved.Numbered (acked + 1) ∧ moved.revision = client.revision + 1 := by
  obtain ⟨revision, nextSeq, pending⟩ := client
  cases pending with
  | synchronized => cases houtstanding
  | awaitingConfirm other =>
      obtain rfl := Option.some.inj houtstanding
      have hsame : content = next := Except.ok.inj (h.applied.symm.trans happly)
      exact ⟨_, rfl, ⟨trivial, congrArg _ hsame.symm⟩, hnumbered.2, rfl⟩
  | awaitingWithBuffer other buffer =>
      obtain rfl := Option.some.inj houtstanding
      have hbuffer : buffer.apply next = .ok content := by
        have happlied := h.applied
        rw [Pending.apply, happly] at happlied
        exact happlied
      exact ⟨_, rfl, ⟨h.built.2, hbuffer⟩, ⟨hnumbered.2, congrArg (· + 1) hnumbered.2⟩, rfl⟩

/-! ## Numbers

A client numbers its operations in order, whatever they are and whatever it shows. -/

variable {moved : EditClient} {visible : Operation} {submission : Option Submission}

theorem Numbered.resend {submission : Submission} (h : client.Numbered acked)
    (hsome : client.resend = some submission) :
    submission.outstanding.seq = acked + 1 ∧ submission.revision = client.revision := by
  obtain ⟨outstanding, houtstanding, rfl⟩ := Option.map_eq_some_iff.mp hsome
  exact ⟨h.seq houtstanding, rfl⟩

/-- An edit goes out under the number behind the acknowledged ones, or waits. -/
theorem Numbered.applyLocal (h : client.Numbered acked)
    (hlocal : client.applyLocal operation = .ok (moved, submission)) :
    moved.Numbered acked ∧ moved.revision = client.revision ∧
      (submission = none ∨ submission = moved.resend) := by
  obtain ⟨revision, nextSeq, pending⟩ := client
  cases pending with
  | synchronized =>
      obtain ⟨rfl, rfl⟩ := Prod.mk.inj (Except.ok.inj hlocal)
      have hseq : nextSeq = acked + 1 := h
      exact ⟨⟨hseq, congrArg (· + 1) hseq⟩, rfl, .inr rfl⟩
  | awaitingConfirm outstanding =>
      obtain ⟨rfl, rfl⟩ := Prod.mk.inj (Except.ok.inj hlocal)
      exact ⟨h, rfl, .inl rfl⟩
  | awaitingWithBuffer outstanding buffer =>
      cases hcompose : buffer.compose operation with
      | error error => simp [EditClient.applyLocal, hcompose, bind, Except.bind] at hlocal
      | ok composed =>
          simp only [EditClient.applyLocal, hcompose, bind, Except.bind, pure, Except.pure,
            Except.ok.injEq, Prod.mk.injEq] at hlocal
          obtain ⟨rfl, rfl⟩ := hlocal
          exact ⟨h, rfl, .inl rfl⟩

theorem Numbered.applyRemote (h : client.Numbered acked)
    (hremote : client.applyRemote operation = .ok (moved, visible)) :
    moved.Numbered acked ∧ moved.revision = client.revision + 1 := by
  obtain ⟨revision, nextSeq, pending⟩ := client
  cases pending with
  | synchronized =>
      obtain ⟨rfl, rfl⟩ := Prod.mk.inj (Except.ok.inj hremote)
      exact ⟨h, rfl⟩
  | awaitingConfirm outstanding =>
      cases htransform : outstanding.operation.transform operation with
      | error error => simp [EditClient.applyRemote, htransform, bind, Except.bind] at hremote
      | ok carried =>
          simp only [EditClient.applyRemote, htransform, bind, Except.bind, pure, Except.pure,
            Except.ok.injEq, Prod.mk.injEq] at hremote
          obtain ⟨rfl, -⟩ := hremote
          exact ⟨h, rfl⟩
  | awaitingWithBuffer outstanding buffer =>
      cases htransform : outstanding.operation.transform operation with
      | error error => simp [EditClient.applyRemote, htransform, bind, Except.bind] at hremote
      | ok carried =>
          cases hbuffer : buffer.transform carried.2 with
          | error error =>
              simp [EditClient.applyRemote, htransform, hbuffer, bind, Except.bind] at hremote
          | ok moved =>
              simp only [EditClient.applyRemote, htransform, hbuffer, bind, Except.bind, pure,
                Except.pure, Except.ok.injEq, Prod.mk.injEq] at hremote
              obtain ⟨rfl, -⟩ := hremote
              exact ⟨h, rfl⟩

/-- An acknowledgement makes room for the next number. -/
theorem Numbered.acknowledge (h : client.Numbered acked)
    (hacknowledge : client.acknowledge = .ok (moved, submission)) :
    moved.Numbered (acked + 1) ∧ moved.revision = client.revision + 1 ∧
      submission = moved.resend := by
  obtain ⟨revision, nextSeq, pending⟩ := client
  cases pending with
  | synchronized => cases hacknowledge
  | awaitingConfirm outstanding =>
      obtain ⟨rfl, rfl⟩ := Prod.mk.inj (Except.ok.inj hacknowledge)
      exact ⟨h.2, rfl, rfl⟩
  | awaitingWithBuffer outstanding buffer =>
      obtain ⟨rfl, rfl⟩ := Prod.mk.inj (Except.ok.inj hacknowledge)
      exact ⟨⟨h.2, congrArg (· + 1) h.2⟩, rfl, rfl⟩

end EditClient

end Coauthor
