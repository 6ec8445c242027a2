import Coauthor.Proofs.Text.Acceptance

/-!
# Stop and wait

An edit client asks its owner to send operations and to apply them to a text, which may fail.  It
takes its pending operations out of its state while it works on them, and asks its owner in between.
Whatever the owner does and whatever is called, the client has at most one number outstanding: it
sends the next one only when the one before has been acknowledged, and until then it sends the same
number again, with the operation as it has been carried over the operations of others since.
-/

namespace Coauthor

/-- Whoever owns an edit client: it sends what the client wants sent, and applies operations to a
text of its own. -/
structure EditClient.Owner (State : Type) where
  send : Submission → State → State
  apply : Operation → Mutation State OperationError Unit

/-- An edit client in the service of an owner, with all that it has sent, oldest first. -/
structure Service (State : Type) where
  client : EditClient
  state : State
  sent : List Submission

/-- What is called on an edit client. -/
inductive EditClient.Call where
  | applyLocal (operation : Operation)
  | applyRemote (operation : Operation)
  | acknowledge
  | resend

/-- The operation of another client that comes with a call. -/
def EditClient.Call.others : Call → List Operation
  | applyRemote operation => [operation]
  | applyLocal _ | acknowledge | resend => []

/-- How many numbers a call acknowledges. -/
def EditClient.Call.settled : Call → Nat
  | acknowledge => 1
  | applyLocal _ | applyRemote _ | resend => 0

namespace Service

open EditClient (Owner Call)

variable {State : Type}

def start (revision : Nat) (state : State) : Service State :=
  { client := .start revision, state, sent := [] }

/-- Has the owner send a submission. -/
def post (owner : Owner State) (service : Service State) (submission : Submission) :
    Service State :=
  { service with
    state := owner.send submission service.state, sent := service.sent ++ [submission] }

/-- Has the owner send what there is to send. -/
def postAny (owner : Owner State) (service : Service State) :
    Option Submission → Service State
  | none => service
  | some submission => service.post owner submission

/-! ## The calls in place -/

def setPending (pending : Pending) : Mutation (Service State) OperationError Unit :=
  .assign fun service => { service with client := { service.client with pending } }

/-- Takes the pending operations out and leaves none. -/
def takePending : Mutation (Service State) OperationError Pending := do
  let service ← .read
  setPending .synchronized
  return service.client.pending

def countRevision : Mutation (Service State) OperationError Unit :=
  .assign fun service =>
    { service with client := { service.client with revision := service.client.revision + 1 } }

/-- Gives the operation the next number. -/
def issue (operation : Operation) : Mutation (Service State) OperationError Outstanding := do
  let service ← .read
  .assign fun service =>
    { service with client := { service.client with nextSeq := service.client.nextSeq + 1 } }
  return { seq := service.client.nextSeq, operation }

/-- Sends an operation with the revision that the client has reached. -/
def ship (owner : Owner State) (outstanding : Outstanding) :
    Mutation (Service State) OperationError Unit :=
  .assign fun service =>
    service.post owner { revision := service.client.revision, outstanding }

def applyLocal (owner : Owner State) (operation : Operation) :
    Mutation (Service State) OperationError Unit := do
  match ← takePending with
  | .synchronized =>
      let outstanding ← issue operation
      ship owner outstanding
      setPending (.awaitingConfirm outstanding)
  | .awaitingConfirm outstanding => setPending (.awaitingWithBuffer outstanding operation)
  | .awaitingWithBuffer outstanding buffer =>
      match buffer.compose operation with
      | .ok composed => setPending (.awaitingWithBuffer outstanding composed)
      | .error error =>
          setPending (.awaitingWithBuffer outstanding buffer)
          .attempt (.error error)

/-- Has the owner apply an operation to its text. -/
def display (owner : Owner State) (operation : Operation) :
    Mutation (Service State) OperationError Unit :=
  fun service =>
    match owner.apply operation service.state with
    | (answer, state) => (answer, { service with state })

def applyRemote (owner : Owner State) (operation : Operation) :
    Mutation (Service State) OperationError Unit := do
  let (pending, visible) ←
    .attempt (Document.carryPending operation (← .read).client.pending)
  display owner visible
  setPending pending
  countRevision

def acknowledge (owner : Owner State) : Mutation (Service State) OperationError Unit := do
  match ← takePending with
  | .synchronized => .attempt (.error .unexpectedAck)
  | .awaitingConfirm _ =>
      countRevision
      setPending .synchronized
  | .awaitingWithBuffer _ buffer =>
      countRevision
      let outstanding ← issue buffer
      ship owner outstanding
      setPending (.awaitingConfirm outstanding)

def resend (owner : Owner State) : Mutation (Service State) OperationError Unit := do
  match (← .read).client.outstanding? with
  | none => return
  | some outstanding => ship owner outstanding

def perform (owner : Owner State) : Call → Mutation (Service State) OperationError Unit
  | .applyLocal operation => applyLocal owner operation
  | .applyRemote operation => applyRemote owner operation
  | .acknowledge => acknowledge owner
  | .resend => resend owner

def step (owner : Owner State) (service : Service State) (call : Call) : Service State :=
  (perform owner call service).2

/-- The service after some calls, failed ones among them. -/
def run (owner : Owner State) (service : Service State) (calls : List Call) : Service State :=
  calls.foldl (step owner) service

/-- The number that a call acknowledges, if it succeeds. -/
def confirms (owner : Owner State) (service : Service State) (call : Call) : List Nat :=
  match call, (perform owner call service).1 with
  | .acknowledge, .ok () => (service.client.outstanding?.map (·.seq)).toList
  | _, _ => []

/-- The operation of another client that a call takes in, if it succeeds. -/
def takes (owner : Owner State) (service : Service State) (call : Call) : List Operation :=
  match (perform owner call service).1 with
  | .ok () => call.others
  | .error _ => []

/-- The numbers that are acknowledged in a run, in order. -/
def confirmed (owner : Owner State) : Service State → List Call → List Nat
  | _, [] => []
  | service, call :: calls =>
      service.confirms owner call ++ confirmed owner (service.step owner call) calls

/-- The operations of other clients that are taken in in a run, in order. -/
def taken (owner : Owner State) : Service State → List Call → List Operation
  | _, [] => []
  | service, call :: calls =>
      service.takes owner call ++ taken owner (service.step owner call) calls

end Service

/-- Carries an operation over others, in order. -/
def Operation.carry (operation : Operation) (others : List Operation) :
    Except OperationError Operation :=
  others.foldlM (fun operation other => Prod.fst <$> operation.transform other) operation

theorem Operation.carry_singleton (operation other : Operation) :
    operation.carry [other] = Prod.fst <$> operation.transform other := by
  simp only [carry, List.foldlM_cons, List.foldlM_nil, bind_pure]

theorem Operation.carry_append (operation : Operation) (first second : List Operation) :
    operation.carry (first ++ second) = operation.carry first >>= (·.carry second) :=
  List.foldlM_append

/-- What a call that succeeds makes of a client, and what it has sent. -/
inductive EditClient.Moves (client : EditClient) :
    Call → EditClient → Option Submission → Prop where
  | applyLocal {operation : Operation} {moved : EditClient} {fresh : Option Submission}
      (h : client.applyLocal operation = .ok (moved, fresh)) :
      Moves client (.applyLocal operation) moved fresh
  | applyRemote {operation visible : Operation} {moved : EditClient}
      (h : client.applyRemote operation = .ok (moved, visible)) :
      Moves client (.applyRemote operation) moved none
  | acknowledge {moved : EditClient} {fresh : Option Submission}
      (h : client.acknowledge = .ok (moved, fresh)) : Moves client .acknowledge moved fresh
  | resend : Moves client .resend client client.resend

namespace EditClient.Moves

variable {client moved : EditClient} {call : Call} {fresh : Option Submission} {acked : Nat}
  {before : Outstanding}

/-- What is sent is the outstanding operation behind the call, with the revision there; its number
is the next one or was sent before. -/
theorem sends (h : client.Moves call moved fresh) :
    fresh = none ∧ moved.nextSeq = client.nextSeq ∨
      ∃ outstanding, moved.outstanding? = some outstanding ∧
        fresh = some { revision := moved.revision, outstanding } ∧
        (moved.nextSeq = client.nextSeq ∨ moved.nextSeq = client.nextSeq + 1) := by
  obtain ⟨revision, nextSeq, pending⟩ := client
  cases h with
  | @applyLocal operation _ _ h =>
      cases pending with
      | synchronized =>
          obtain ⟨rfl, rfl⟩ := Prod.mk.inj (Except.ok.inj h)
          exact .inr ⟨_, rfl, rfl, .inr rfl⟩
      | awaitingConfirm outstanding =>
          obtain ⟨rfl, rfl⟩ := Prod.mk.inj (Except.ok.inj h)
          exact .inl ⟨rfl, rfl⟩
      | awaitingWithBuffer outstanding buffer =>
          cases hcompose : buffer.compose operation with
          | error error => simp [EditClient.applyLocal, hcompose, bind, Except.bind] at h
          | ok composed =>
              simp only [EditClient.applyLocal, hcompose, bind, Except.bind, pure, Except.pure,
                Except.ok.injEq, Prod.mk.injEq] at h
              obtain ⟨rfl, rfl⟩ := h
              exact .inl ⟨rfl, rfl⟩
  | @applyRemote operation _ _ h =>
      rw [Document.applyRemote_eq_map] at h
      cases hcarry : Document.carryPending operation pending with
      | error error => rw [hcarry] at h; cases h
      | ok carried =>
          rw [hcarry] at h
          obtain ⟨rfl, -⟩ := Prod.mk.inj (Except.ok.inj h)
          exact .inl ⟨rfl, rfl⟩
  | acknowledge h =>
      cases pending with
      | synchronized => cases h
      | awaitingConfirm outstanding =>
          obtain ⟨rfl, rfl⟩ := Prod.mk.inj (Except.ok.inj h)
          exact .inl ⟨rfl, rfl⟩
      | awaitingWithBuffer outstanding buffer =>
          obtain ⟨rfl, rfl⟩ := Prod.mk.inj (Except.ok.inj h)
          exact .inr ⟨_, rfl, rfl, .inr rfl⟩
  | resend =>
      cases pending with
      | synchronized => exact .inl ⟨rfl, rfl⟩
      | awaitingConfirm outstanding => exact .inr ⟨_, rfl, rfl, .inl rfl⟩
      | awaitingWithBuffer outstanding buffer => exact .inr ⟨_, rfl, rfl, .inl rfl⟩

/-- An acknowledgement and an operation of another client are counted. -/
theorem counts (h : client.Moves call moved fresh) (hnumbered : client.Numbered acked) :
    moved.Numbered (acked + call.settled) ∧
      moved.revision = client.revision + call.settled + call.others.length := by
  cases h with
  | applyLocal h =>
      obtain ⟨hmoved, hrevision, -⟩ := hnumbered.applyLocal h
      exact ⟨hmoved, hrevision⟩
  | applyRemote h => exact hnumbered.applyRemote h
  | acknowledge h =>
      obtain ⟨hmoved, hrevision, -⟩ := hnumbered.acknowledge h
      exact ⟨hmoved, hrevision⟩
  | resend => exact ⟨hnumbered, rfl⟩

/-- Only an outstanding operation is acknowledged. -/
theorem exists_outstanding (h : client.Moves .acknowledge moved fresh) :
    ∃ outstanding, client.outstanding? = some outstanding := by
  cases h with
  | acknowledge h => exact EditClient.exists_outstanding_of_acknowledge h

/-- An operation that goes on waiting keeps its number, and is carried over what is taken in. -/
theorem carries (h : client.Moves call moved fresh)
    (hbefore : client.outstanding? = some before) (hwaits : call ≠ .acknowledge) :
    ∃ after, moved.outstanding? = some after ∧ after.seq = before.seq ∧
      before.operation.carry call.others = .ok after.operation := by
  obtain ⟨revision, nextSeq, pending⟩ := client
  cases h with
  | @applyLocal operation _ _ h =>
      refine ⟨before, ?_, rfl, rfl⟩
      cases pending with
      | synchronized => cases hbefore
      | awaitingConfirm outstanding =>
          obtain ⟨rfl, -⟩ := Prod.mk.inj (Except.ok.inj h)
          exact hbefore
      | awaitingWithBuffer outstanding buffer =>
          cases hcompose : buffer.compose operation with
          | error error => simp [EditClient.applyLocal, hcompose, bind, Except.bind] at h
          | ok composed =>
              simp only [EditClient.applyLocal, hcompose, bind, Except.bind, pure, Except.pure,
                Except.ok.injEq, Prod.mk.injEq] at h
              exact h.1 ▸ hbefore
  | @applyRemote operation visible _ h =>
      rw [Call.others, Operation.carry_singleton]
      cases pending with
      | synchronized => cases hbefore
      | awaitingConfirm outstanding =>
          obtain rfl := Option.some.inj hbefore
          cases htransform : outstanding.operation.transform operation with
          | error error =>
              simp [EditClient.applyRemote, htransform, bind, Except.bind] at h
          | ok carried =>
              simp only [EditClient.applyRemote, htransform, bind, Except.bind, pure, Except.pure,
                Except.ok.injEq, Prod.mk.injEq] at h
              exact ⟨{ outstanding with operation := carried.1 }, h.1 ▸ rfl, rfl, rfl⟩
      | awaitingWithBuffer outstanding buffer =>
          obtain rfl := Option.some.inj hbefore
          cases htransform : outstanding.operation.transform operation with
          | error error =>
              simp [EditClient.applyRemote, htransform, bind, Except.bind] at h
          | ok carried =>
              cases hbuffer : buffer.transform carried.2 with
              | error error =>
                  simp [EditClient.applyRemote, htransform, hbuffer, bind, Except.bind] at h
              | ok others =>
                  simp only [EditClient.applyRemote, htransform, hbuffer, bind, Except.bind, pure,
                    Except.pure, Except.ok.injEq, Prod.mk.injEq] at h
                  exact ⟨{ outstanding with operation := carried.1 }, h.1 ▸ rfl, rfl, rfl⟩
  | acknowledge h => exact absurd rfl hwaits
  | resend => exact ⟨before, hbefore, rfl, rfl⟩

end EditClient.Moves

namespace Service

open EditClient (Owner Call)

variable {State : Type} {service : Service State} {acked : Nat}

@[simp]
theorem client_postAny (owner : Owner State) (service : Service State)
    (submission : Option Submission) :
    (service.postAny owner submission).client = service.client := by
  cases submission <;> rfl

@[simp]
theorem sent_postAny (owner : Owner State) (service : Service State)
    (submission : Option Submission) :
    (service.postAny owner submission).sent = service.sent ++ submission.toList := by
  cases submission with
  | none => exact (List.append_nil _).symm
  | some submission => rfl

theorem takePending_bind {Value : Type}
    (next : Pending → Mutation (Service State) OperationError Value) (service : Service State) :
    (takePending >>= next) service = next service.client.pending
      { service with client := { service.client with pending := .synchronized } } := rfl

/-- What was taken out of the client is put back if it cannot be composed. -/
theorem applyLocal_eq (owner : Owner State) (operation : Operation) :
    applyLocal owner operation = .update fun service =>
      (service.client.applyLocal operation).map fun (client, submission) =>
        { service with client }.postAny owner submission := by
  funext service
  obtain ⟨⟨revision, nextSeq, pending⟩, state, sent⟩ := service
  cases pending with
  | synchronized => rfl
  | awaitingConfirm outstanding => rfl
  | awaitingWithBuffer outstanding buffer =>
      rw [applyLocal, takePending_bind, Mutation.update, Mutation.atomic, EditClient.applyLocal]
      dsimp only
      cases buffer.compose operation <;> rfl

theorem acknowledge_eq (owner : Owner State) :
    acknowledge owner = .update fun service =>
      service.client.acknowledge.map fun (client, submission) =>
        { service with client }.postAny owner submission := by
  funext service
  obtain ⟨⟨revision, nextSeq, pending⟩, state, sent⟩ := service
  cases pending <;> rfl

theorem display_of {owner : Owner State} {operation : Operation} {state : State}
    {answer : Except OperationError Unit}
    (h : owner.apply operation service.state = (answer, state)) :
    display owner operation service = (answer, { service with state }) := by
  rw [display, h]

/-- The client is changed when the owner has applied the operation, and not before. -/
theorem applyRemote_apply (owner : Owner State) (operation : Operation)
    (service : Service State) : applyRemote owner operation service =
      match service.client.applyRemote operation with
      | .error error => (.error error, service)
      | .ok (client, visible) =>
          match owner.apply visible service.state with
          | (.error error, state) => (.error error, { service with state })
          | (.ok (), state) => (.ok (), { service with client, state }) := by
  rw [applyRemote, Mutation.read_bind, Document.applyRemote_eq_map]
  cases Document.carryPending operation service.client.pending with
  | error error => rfl
  | ok carried =>
      obtain ⟨pending, visible⟩ := carried
      change (display owner visible >>= fun _ => setPending pending >>= fun _ => countRevision)
        service = _
      obtain ⟨answer, state, happly⟩ : ∃ answer state,
          owner.apply visible service.state = (answer, state) := ⟨_, _, rfl⟩
      rw [Mutation.bind_apply, display_of happly]
      simp only [Functor.map, Except.map, happly]
      cases answer <;> rfl

theorem resend_apply (owner : Owner State) (service : Service State) :
    resend owner service = (.ok (), service.postAny owner service.client.resend) := by
  rw [resend, Mutation.read_bind, EditClient.resend]
  cases service.client.outstanding? <;> rfl

/-- A call fails and leaves the client as it is, or succeeds and moves it. -/
theorem perform_cases (owner : Owner State) (service : Service State) (call : Call) :
    (∃ error, (perform owner call service).1 = .error error ∧
      (service.step owner call).client = service.client ∧
      (service.step owner call).sent = service.sent) ∨
    ∃ fresh, (perform owner call service).1 = .ok () ∧
      service.client.Moves call (service.step owner call).client fresh ∧
      (service.step owner call).sent = service.sent ++ fresh.toList := by
  unfold step
  cases call with
  | applyLocal operation =>
      rw [perform, applyLocal_eq]
      cases hlocal : service.client.applyLocal operation with
      | error error =>
          rw [Mutation.update_of_error (by rw [hlocal]; rfl)]
          exact .inl ⟨error, rfl, rfl, rfl⟩
      | ok moved =>
          rw [Mutation.update_of_ok (by rw [hlocal]; rfl)]
          exact .inr ⟨moved.2, rfl, by simpa using .applyLocal hlocal, by simp⟩
  | applyRemote operation =>
      rw [perform, applyRemote_apply]
      cases hremote : service.client.applyRemote operation with
      | error error => exact .inl ⟨error, rfl, rfl, rfl⟩
      | ok moved =>
          obtain ⟨client, visible⟩ := moved
          dsimp only
          obtain ⟨error | answer, state⟩ := owner.apply visible service.state
          · exact .inl ⟨error, rfl, rfl, rfl⟩
          · exact .inr ⟨none, rfl, .applyRemote hremote, (List.append_nil _).symm⟩
  | acknowledge =>
      rw [perform, acknowledge_eq]
      cases hacknowledge : service.client.acknowledge with
      | error error =>
          rw [Mutation.update_of_error (by rw [hacknowledge]; rfl)]
          exact .inl ⟨error, rfl, rfl, rfl⟩
      | ok moved =>
          rw [Mutation.update_of_ok (by rw [hacknowledge]; rfl)]
          exact .inr ⟨moved.2, rfl, by simpa using .acknowledge hacknowledge, by simp⟩
  | resend =>
      rw [perform, resend_apply]
      exact .inr ⟨service.client.resend, rfl, by simpa using .resend, by simp⟩

/-! ## Numbers -/

/-- The numbers that were sent, oldest first. -/
def numbers (service : Service State) : List Nat := service.sent.map (·.outstanding.seq)

/-- The numbers up to the acknowledged ones and the outstanding one were sent, each for the first
time when it was its turn. -/
structure Waits (acked : Nat) (service : Service State) : Prop where
  numbered : service.client.Numbered acked
  first : service.numbers.eraseDups = List.range' 1 (service.client.nextSeq - 1)

theorem eraseDups_concat_of_mem {numbers : List Nat} {number : Nat} (h : number ∈ numbers) :
    (numbers ++ [number]).eraseDups = numbers.eraseDups := by
  simp [List.eraseDups_append, List.removeAll, h]

theorem eraseDups_concat_of_not_mem {numbers : List Nat} {number : Nat} (h : number ∉ numbers) :
    (numbers ++ [number]).eraseDups = numbers.eraseDups ++ [number] := by
  simp [List.eraseDups_append, List.removeAll, h, List.eraseDups_cons]

theorem waits_start (revision : Nat) (state : State) : (start revision state).Waits 0 where
  numbered := rfl
  first := rfl

theorem Waits.nextSeq_pos (h : service.Waits acked) : 1 ≤ service.client.nextSeq := by
  have hnumbered := h.numbered
  unfold EditClient.Numbered at hnumbered
  split at hnumbered <;> omega

/-- Behind the acknowledged numbers comes the outstanding one, and no other. -/
theorem Waits.numbers_eq (h : service.Waits acked) : service.numbers.eraseDups =
    List.range' 1 acked ++ (service.client.outstanding?.map (·.seq)).toList := by
  have hnumbered := h.numbered
  rw [h.first]
  unfold EditClient.Numbered at hnumbered
  cases houtstanding : service.client.outstanding? with
  | none =>
      rw [houtstanding] at hnumbered
      rw [hnumbered]
      exact (List.append_nil _).symm
  | some outstanding =>
      rw [houtstanding] at hnumbered
      obtain ⟨hseq, hnext⟩ := hnumbered
      rw [hnext, show acked + 2 - 1 = acked + 1 from rfl, List.range'_1_concat, Option.map_some,
        hseq, Nat.add_comm 1 acked]
      rfl

/-- A submission repeats the last number, or brings the next one. -/
theorem Waits.send {moved : EditClient} {call : Call} {fresh : Option Submission} {next : Nat}
    {later : Service State} (h : service.Waits acked)
    (hmoves : service.client.Moves call moved fresh) (hnumbered : moved.Numbered next)
    (hclient : later.client = moved) (hsent : later.sent = service.sent ++ fresh.toList) :
    later.Waits next := by
  refine ⟨hclient ▸ hnumbered, ?_⟩
  have hpos := h.nextSeq_pos
  rw [numbers, hsent, List.map_append, hclient]
  change (service.numbers ++ _).eraseDups = _
  rcases hmoves.sends with ⟨rfl, hsame⟩ | ⟨outstanding, houtstanding, rfl, hnext⟩
  · rw [hsame, Option.toList_none, List.map_nil, List.append_nil, h.first]
  · rw [EditClient.Numbered, houtstanding] at hnumbered
    obtain ⟨hseq, hissued⟩ := hnumbered
    change (service.numbers ++ [outstanding.seq]).eraseDups = _
    have hmem : outstanding.seq ∈ service.numbers ↔
        1 ≤ outstanding.seq ∧ outstanding.seq < service.client.nextSeq := by
      rw [← List.mem_eraseDups, h.first, List.mem_range'_1]
      omega
    rcases hnext with hnext | hnext
    · rw [eraseDups_concat_of_mem (hmem.mpr (by omega)), h.first, hnext]
    · rw [eraseDups_concat_of_not_mem fun hsent => absurd (hmem.mp hsent).2 (by omega), h.first,
        show moved.nextSeq - 1 = service.client.nextSeq - 1 + 1 by omega, List.range'_1_concat,
        show 1 + (service.client.nextSeq - 1) = outstanding.seq by omega]

theorem confirms_of_error {owner : Owner State} {call : Call} {error : OperationError}
    (h : (perform owner call service).1 = .error error) :
    service.confirms owner call = [] ∧ service.takes owner call = [] := by
  unfold confirms takes
  rw [h]
  cases call <;> exact ⟨rfl, rfl⟩

/-- A call acknowledges the next number, or none, and counts what it acknowledges and takes in. -/
theorem Waits.step (h : service.Waits acked) (owner : Owner State) (call : Call) :
    (service.step owner call).Waits (acked + (service.confirms owner call).length) ∧
    service.confirms owner call =
      List.range' (acked + 1) (service.confirms owner call).length ∧
    (service.step owner call).client.revision = service.client.revision +
      (service.confirms owner call).length + (service.takes owner call).length := by
  rcases perform_cases owner service call with
    ⟨error, hanswer, hclient, hsent⟩ | ⟨fresh, hanswer, hmoves, hsent⟩
  · obtain ⟨hconfirms, htakes⟩ := confirms_of_error hanswer
    rw [hconfirms, htakes, hclient]
    refine ⟨⟨hclient ▸ h.numbered, ?_⟩, rfl, rfl⟩
    rw [numbers, hsent, hclient]
    exact h.first
  · obtain ⟨hnumbered, hrevision⟩ := hmoves.counts h.numbered
    have htakes : service.takes owner call = call.others := by rw [takes, hanswer]
    have hconfirms : service.confirms owner call = List.range' (acked + 1) call.settled := by
      unfold confirms
      rw [hanswer]
      cases call with
      | acknowledge =>
          obtain ⟨outstanding, houtstanding⟩ := hmoves.exists_outstanding
          simp [houtstanding, EditClient.Numbered.seq h.numbered houtstanding, Call.settled]
      | applyLocal operation | applyRemote operation | resend => rfl
    rw [htakes, hconfirms, List.length_range']
    exact ⟨h.send hmoves hnumbered rfl hsent, rfl, hrevision⟩

theorem Waits.run (h : service.Waits acked) (owner : Owner State) (calls : List Call) :
    (service.run owner calls).Waits (acked + (service.confirmed owner calls).length) ∧
    service.confirmed owner calls =
      List.range' (acked + 1) (service.confirmed owner calls).length ∧
    (service.run owner calls).client.revision = service.client.revision +
      (service.confirmed owner calls).length + (service.taken owner calls).length := by
  induction calls generalizing service acked with
  | nil => exact ⟨h, rfl, rfl⟩
  | cons call calls ih =>
      obtain ⟨hstep, hnext, hrevision⟩ := h.step owner call
      obtain ⟨hrun, hrest, hreached⟩ := ih hstep
      rw [confirmed, taken, List.length_append, List.length_append, ← Nat.add_assoc]
      refine ⟨hrun, ?_, ?_⟩
      · rw [← List.range'_append_1, ← hnext, Nat.add_right_comm, ← hrest]
      · change ((service.step owner call).run owner calls).client.revision = _
        rw [hreached, hrevision]
        omega

/-- A number is sent when the one before has been acknowledged. -/
theorem Waits.before_sent (h : service.Waits acked) {number : Nat}
    (hsent : number + 1 ∈ service.numbers) : number = 0 ∨ number ∈ List.range' 1 acked := by
  rw [← List.mem_eraseDups, h.numbers_eq] at hsent
  have hlast : number ≤ acked := by
    rcases List.mem_append.mp hsent with hin | hin
    · rw [List.mem_range'_1] at hin
      omega
    · obtain ⟨outstanding, houtstanding, hseq⟩ :=
        Option.map_eq_some_iff.mp (Option.mem_toList.mp hin)
      have hnext := EditClient.Numbered.seq h.numbered houtstanding
      omega
  rw [List.mem_range'_1]
  omega

/-! ## One call -/

theorem perform_of_error {owner : Owner State} {call : Call} {error : OperationError}
    {later : Service State} (h : perform owner call service = (.error error, later)) :
    later.client = service.client ∧ later.sent = service.sent := by
  rcases perform_cases owner service call with ⟨_, -, hclient, hsent⟩ | ⟨fresh, hanswer, -⟩
  · rw [step, h] at hclient hsent
    exact ⟨hclient, hsent⟩
  · rw [h] at hanswer
    cases hanswer

/-- A call that succeeds sends the outstanding operation with the revision of that moment, or
nothing. -/
theorem perform_of_ok {owner : Owner State} {call : Call} {later : Service State}
    (h : perform owner call service = (.ok (), later)) :
    ∃ fresh : Option Submission, later.sent = service.sent ++ fresh.toList ∧
      ∀ submission ∈ fresh, submission.revision = later.client.revision ∧
        later.client.outstanding? = some submission.outstanding := by
  rcases perform_cases owner service call with ⟨_, hanswer, -⟩ | ⟨fresh, -, hmoves, hsent⟩
  · rw [h] at hanswer
    cases hanswer
  · rw [step, h] at hmoves hsent
    refine ⟨fresh, hsent, fun submission hfresh => ?_⟩
    rcases hmoves.sends with ⟨rfl, -⟩ | ⟨outstanding, houtstanding, rfl, -⟩
    · cases hfresh
    · obtain rfl := Option.some.inj hfresh
      exact ⟨rfl, houtstanding⟩

theorem acknowledge_of_synchronized (owner : Owner State)
    (hpending : service.client.pending = .synchronized) :
    (perform owner .acknowledge service).1 = .error .unexpectedAck := by
  rw [perform, acknowledge_eq, Mutation.update_of_error]
  rw [EditClient.acknowledge, hpending]
  rfl

theorem applyLocal_of_not_composed (owner : Owner State) {outstanding : Outstanding}
    {buffer operation : Operation} {error : OperationError}
    (hpending : service.client.pending = .awaitingWithBuffer outstanding buffer)
    (hcompose : buffer.compose operation = .error error) :
    (perform owner (.applyLocal operation) service).1 = .error error := by
  rw [perform, applyLocal_eq, Mutation.update_of_error]
  simp [EditClient.applyLocal, hpending, hcompose, bind, Except.bind, Except.map]

/-! ## Operations that wait -/

variable {before after : Outstanding}

/-- A call acknowledges the outstanding operation, or carries it over what it takes in. -/
theorem step_carries (owner : Owner State) (call : Call)
    (hbefore : service.client.outstanding? = some before) :
    service.confirms owner call = [before.seq] ∨
      ∃ after, (service.step owner call).client.outstanding? = some after ∧
        after.seq = before.seq ∧
        before.operation.carry (service.takes owner call) = .ok after.operation := by
  rcases perform_cases owner service call with
    ⟨error, hanswer, hclient, -⟩ | ⟨fresh, hanswer, hmoves, -⟩
  · rw [(confirms_of_error hanswer).2]
    exact .inr ⟨before, hclient ▸ hbefore, rfl, rfl⟩
  · have htakes : service.takes owner call = call.others := by rw [takes, hanswer]
    by_cases hcall : call = .acknowledge
    · subst hcall
      refine .inl ?_
      unfold confirms
      rw [hanswer, hbefore]
      rfl
    · exact .inr (htakes ▸ hmoves.carries hbefore hcall)

/-- As long as an operation is outstanding it is the one that was sent first, carried over what has
been taken in since. -/
theorem Waits.run_carries (h : service.Waits acked) (owner : Owner State) (calls : List Call)
    (hbefore : service.client.outstanding? = some before)
    (hafter : (service.run owner calls).client.outstanding? = some after)
    (hseq : after.seq = before.seq) :
    before.operation.carry (service.taken owner calls) = .ok after.operation := by
  induction calls generalizing service acked before with
  | nil =>
      obtain rfl := Option.some.inj (hbefore.symm.trans hafter)
      rfl
  | cons call calls ih =>
      obtain ⟨hstep, -⟩ := h.step owner call
      have hfirst := EditClient.Numbered.seq h.numbered hbefore
      rcases step_carries owner call hbefore with hconfirms | ⟨middle, hmiddle, hsame, hcarried⟩
      · -- A number that is acknowledged is not outstanding again.
        have hlast := EditClient.Numbered.seq (hstep.run owner calls).1.numbered hafter
        rw [hconfirms, List.length_singleton] at hlast
        omega
      · rw [taken, Operation.carry_append, hcarried]
        exact ih hstep hmiddle hafter (hseq.trans hsame.symm)

/-- Whatever is called on a client and whatever its owner does, the client sends the numbers from 1
on, each for the first time when all before have been acknowledged: the numbers sent are the
acknowledged ones and then the outstanding one.  The revision counts what was acknowledged and taken
in.  A call that fails leaves the client as it is and sends nothing, and so does an acknowledgement
that nothing waits for and an edit that cannot be composed; any other call sends at most once, the
outstanding operation with the revision of that moment.  To send again changes nothing of the
client.
Until it is acknowledged, an operation is the one that was sent first, carried over the operations
of others that were taken in since. -/
theorem run_stops_and_waits (owner : Owner State) (revision : Nat) (state : State)
    (calls : List Call) :
    let service := (start revision state).run owner calls
    let confirmed := (start revision state).confirmed owner calls
    let taken := (start revision state).taken owner calls
    service.numbers.eraseDups = List.range' 1 (service.client.nextSeq - 1) ∧
    service.numbers.eraseDups =
      confirmed ++ (service.client.outstanding?.map (·.seq)).toList ∧
    (∀ number, number + 1 ∈ service.numbers → number = 0 ∨ number ∈ confirmed) ∧
    service.client.revision = revision + confirmed.length + taken.length ∧
    (∀ call error later, perform owner call service = (.error error, later) →
      later.client = service.client ∧ later.sent = service.sent) ∧
    (∀ call later, perform owner call service = (.ok (), later) →
      ∃ fresh : Option Submission, later.sent = service.sent ++ fresh.toList ∧
        ∀ submission ∈ fresh, submission.revision = later.client.revision ∧
          later.client.outstanding? = some submission.outstanding) ∧
    (∃ later, perform owner .resend service = (.ok (), later) ∧ later.client = service.client ∧
      later.sent = service.sent ++ (service.client.outstanding?.map fun outstanding =>
        { revision := service.client.revision, outstanding }).toList) ∧
    (service.client.pending = .synchronized →
      (perform owner .acknowledge service).1 = .error .unexpectedAck) ∧
    (∀ outstanding buffer operation error,
      service.client.pending = .awaitingWithBuffer outstanding buffer →
      buffer.compose operation = .error error →
      (perform owner (.applyLocal operation) service).1 = .error error) ∧
    ∀ more before after, service.client.outstanding? = some before →
      (service.run owner more).client.outstanding? = some after → after.seq = before.seq →
      before.operation.carry (service.taken owner more) = .ok after.operation := by
  intro service confirmed taken
  obtain ⟨hwaits, hconfirmed, hrevision⟩ := (waits_start revision state).run owner calls
  rw [Nat.zero_add] at hwaits hconfirmed
  refine ⟨hwaits.first, ?_, fun number hsent => ?_, hrevision,
    fun _ _ _ hperform => perform_of_error hperform, fun _ _ hperform => perform_of_ok hperform,
    ⟨_, resend_apply owner service, client_postAny .., sent_postAny ..⟩,
    acknowledge_of_synchronized owner, fun _ _ _ _ => applyLocal_of_not_composed owner,
    fun more before after => hwaits.run_carries owner more⟩
  · exact hwaits.numbers_eq.trans (congrArg (· ++ _) hconfirmed.symm)
  · have hbefore := hwaits.before_sent hsent
    rwa [← hconfirmed] at hbefore

end Service

end Coauthor
