import Coauthor.Proofs.Text.Editor

/-!
# Traffic on a network

The turns that the clients of a network take, in any order: they edit, send, receive, lose
their queues and rejoin.  Whatever the order, every document tracks the history, and every
client that has not lost its queues is in touch with the server.
-/

namespace Coauthor

/-- What a client does in one turn.  Its operations come from the builder. -/
inductive Move where
  | edit (operation : Operation) (built : operation.Built)
  | send
  | receive
  | lose
  | rejoin

structure Turn where
  client : ClientId
  move : Move

/-- A network, and the clients that lost their queues and have not rejoined. -/
structure Traffic where
  network : Network
  away : List ClientId

namespace Traffic

open History

def start (text : Text) (names : List ClientId) : Traffic :=
  { network := .start text names, away := [] }

/-- A move of a client whose editor is known.  A refused edit changes nothing, and a client
that lost its queues does not receive until it has rejoined. -/
def act (traffic : Traffic) (name : ClientId) (editor : Editor) : Move → Traffic
  | .edit operation _ =>
      match traffic.network.edit name editor operation with
      | .error _ => traffic
      | .ok network => { traffic with network }
  | .send => { traffic with network := (traffic.network.send name editor).1 }
  | .receive =>
      if name ∈ traffic.away then traffic
      else { traffic with network := (traffic.network.receive name editor).1 }
  | .lose => { network := traffic.network.drop name editor, away := name :: traffic.away }
  | .rejoin =>
      match traffic.network.rejoin name editor with
      | (network, .error _) => { traffic with network }
      | (network, .ok ()) => { network, away := traffic.away.filter (· ≠ name) }

def step (traffic : Traffic) (turn : Turn) : Traffic :=
  match traffic.network.editors.get? turn.client with
  | none => traffic
  | some editor => traffic.act turn.client editor turn.move

/-- The traffic after some turns. -/
def run (traffic : Traffic) (turns : List Turn) : Traffic := turns.foldl step traffic

/-- An editor fits a history under its name. -/
structure Fits (origin : Text) (entries : List AppliedOperation) (away : List ClientId)
    (name : ClientId) (editor : Editor) : Prop where
  named : editor.document.clientId = name
  flushed : editor.document.outbox = []
  consistent : editor.Consistent origin entries
  inTouch : name ∉ away → editor.InTouch entries

/-- The history tells one story, and every editor fits it. -/
structure Consistent (origin : Text) (names : List ClientId) (traffic : Traffic) : Prop where
  sound : traffic.network.history.Sound origin
  present : ∀ name ∈ names, ∃ editor, traffic.network.editors.get? name = some editor
  fits : ∀ name editor, traffic.network.editors.get? name = some editor →
    Fits origin traffic.network.history.entries traffic.away name editor

variable {origin : Text} {names away : List ClientId} {name : ClientId} {traffic : Traffic}
  {editor moved : Editor}

theorem consistent_start (text : Text) (names : List ClientId) :
    (start text names).Consistent text names := by
  have hget : ∀ name, (start text names).network.editors.get? name =
      if name ∈ names then some (Editor.start name text) else none :=
    Table.get?_ofList_map names (Editor.start · text)
  refine ⟨sound_start text, fun name hmem => ⟨_, (hget name).trans (if_pos hmem)⟩, ?_⟩
  intro name editor hsome
  rw [hget] at hsome
  by_cases hmem : name ∈ names
  · rw [if_pos hmem] at hsome
    obtain rfl := Option.some.inj hsome
    exact ⟨rfl, rfl, Editor.consistent_start name text, fun _ => Editor.inTouch_start name text⟩
  · rw [if_neg hmem] at hsome
    cases hsome

/-! ## One turn -/

/-- Traffic stays consistent if every editor is changed to one that fits. -/
theorem Consistent.of_change {later : Traffic} (h : traffic.Consistent origin names)
    (change : ClientId → Editor → Editor) (hsound : later.network.history.Sound origin)
    (hget : ∀ name, later.network.editors.get? name =
      (traffic.network.editors.get? name).map (change name))
    (hfits : ∀ name editor, traffic.network.editors.get? name = some editor →
      Fits origin later.network.history.entries later.away name (change name editor)) :
    later.Consistent origin names := by
  refine ⟨hsound, fun name hmem => ?_, fun name moved hsome => ?_⟩
  · obtain ⟨editor, hsome⟩ := h.present name hmem
    exact ⟨change name editor, (hget name).trans (by rw [hsome, Option.map_some])⟩
  · rw [hget] at hsome
    obtain ⟨editor, heditor, rfl⟩ := Option.map_eq_some_iff.mp hsome
    exact hfits name editor heditor

theorem get?_setEditor (hget : traffic.network.editors.get? name = some editor)
    (moved : Editor) (other : ClientId) :
    (traffic.network.setEditor name moved).editors.get? other =
      (traffic.network.editors.get? other).map fun editor =>
        if other = name then moved.flush else editor := by
  rw [Network.setEditor, Table.get?_insert]
  by_cases hother : other = name
  · simp [hother, hget]
  · simp [hother]

/-- An editor behind the answer to a message of `sender`. -/
def hearing (sender name : ClientId) (received : Received) (editor : Editor) : Editor :=
  match Network.noticeFor sender name received with
  | none => editor
  | some notice => editor.hear notice

theorem get?_answer (hget : traffic.network.editors.get? name = some editor) (moved : Editor)
    (history : History) (received : Received) (other : ClientId) :
    ({ traffic.network.setEditor name moved with history }.broadcast name
        received).editors.get? other =
      (traffic.network.editors.get? other).map fun editor =>
        hearing name other received (if other = name then moved.flush else editor) := by
  rw [Network.broadcast, Table.get?_mapValues, get?_setEditor hget, Option.map_map]
  rfl

/-- A client changes nothing but its own editor. -/
theorem Consistent.setEditor (h : traffic.Consistent origin names)
    (hget : traffic.network.editors.get? name = some editor)
    (hname : moved.document.clientId = name)
    (hmoved : moved.Consistent origin traffic.network.history.entries)
    (htouch : name ∉ away → moved.InTouch traffic.network.history.entries)
    (haway : ∀ other, other ≠ name → other ∉ away → other ∉ traffic.away) :
    ({ network := traffic.network.setEditor name moved, away } : Traffic).Consistent
      origin names := by
  refine h.of_change _ h.sound (get?_setEditor hget moved) fun other present hsome => ?_
  by_cases hother : other = name
  · rw [if_pos hother]
    subst hother
    exact ⟨hname, rfl, hmoved.flush, fun hhere => (htouch hhere).flush⟩
  · rw [if_neg hother]
    have hfits := h.fits other present hsome
    exact { hfits with inTouch := fun hhere => hfits.inTouch (haway other hother hhere) }

theorem Consistent.edit (h : traffic.Consistent origin names)
    (hget : traffic.network.editors.get? name = some editor) (operation : Operation)
    (hbuilt : operation.Built) :
    (traffic.act name editor (.edit operation hbuilt)).Consistent origin names := by
  have hfits := h.fits name editor hget
  simp only [act, Network.edit]
  cases hedit : editor.document.edit operation with
  | error error => exact h
  | ok document =>
      obtain ⟨hmoved, htouch, hclient⟩ := hfits.consistent.edit hbuilt hedit
      exact h.setEditor hget (hclient.trans hfits.named) hmoved
        (fun hhere => htouch (hfits.inTouch hhere)) (fun _ _ hother => hother)

theorem Consistent.receive (h : traffic.Consistent origin names)
    (hget : traffic.network.editors.get? name = some editor) :
    (traffic.act name editor .receive).Consistent origin names := by
  have hfits := h.fits name editor hget
  by_cases haway : name ∈ traffic.away
  · simpa only [act, if_pos haway] using h
  · simp only [act, if_neg haway, Network.receive]
    cases hinbox : editor.inbox with
    | nil => exact h
    | cons notice notices =>
        obtain ⟨document, handled, hhandle, hmoved, htouch, hclient⟩ :=
          hfits.consistent.handle h.sound (hfits.inTouch haway) hinbox
        simp only [hhandle]
        exact h.setEditor hget (hclient.trans hfits.named) hmoved (fun _ => htouch)
          (fun _ _ hother => hother)

theorem Consistent.lose (h : traffic.Consistent origin names)
    (hget : traffic.network.editors.get? name = some editor) :
    (traffic.act name editor .lose).Consistent origin names := by
  have hfits := h.fits name editor hget
  exact h.setEditor hget hfits.named hfits.consistent.lose
    (fun hhere => absurd List.mem_cons_self hhere)
    (fun _ _ hother hmem => hother (List.mem_cons_of_mem _ hmem))

theorem Consistent.rejoin (h : traffic.Consistent origin names)
    (hget : traffic.network.editors.get? name = some editor) :
    (traffic.act name editor .rejoin).Consistent origin names := by
  have hfits := h.fits name editor hget
  obtain ⟨acked, htracks⟩ := hfits.consistent.tracks
  obtain ⟨document, hcaught, hmoved, htouch, hclient⟩ := hfits.consistent.rejoin h.sound
  have hsince := since_of_le htracks.within
  simp only [act, Network.rejoin, hsince, hcaught]
  refine h.setEditor hget ?_ hmoved (fun _ => htouch) (fun other hother hhere hmem => hhere ?_)
  · exact (Document.clientId_post _ _).trans (hclient.trans hfits.named)
  · exact List.mem_filter.mpr ⟨hmem, by simpa using hother⟩

/-- The sender's message is answered, and all others hear of what was recorded. -/
theorem Consistent.send (h : traffic.Consistent origin names)
    (hget : traffic.network.editors.get? name = some editor) :
    (traffic.act name editor .send).Consistent origin names := by
  have hfits := h.fits name editor hget
  simp only [act, Network.send]
  cases houtbox : editor.outbox with
  | nil => exact h
  | cons message rest =>
      rcases hfits.consistent.send h.sound houtbox with
        ⟨entry, hmem, hclient, hseq, hreceive, hrest, hkept⟩ |
        ⟨entry, content, hclient, hrevision, hreceive, hsound, hrest, hkept⟩
      · have hanswer : (traffic.network.setEditor name
            { editor with outbox := rest }).history.receive message = _ := hreceive
        simp only [hanswer]
        refine h.of_change _ h.sound (get?_answer hget _ _ _) fun other present hsome => ?_
        by_cases hother : other = name
        · obtain ⟨hheard, htouch⟩ := hrest.flush.hear_ack h.sound hmem hclient
          subst hother
          simp only [hearing, Network.noticeFor, if_true, ← hseq]
          exact ⟨hfits.named, rfl, hheard, fun hhere => htouch (hkept (hfits.inTouch hhere)).flush⟩
        · simp only [hearing, Network.noticeFor, if_neg hother]
          exact h.fits other present hsome
      · have hanswer : (traffic.network.setEditor name
            { editor with outbox := rest }).history.receive message = _ := hreceive
        simp only [hanswer]
        refine h.of_change _ hsound (get?_answer hget _ _ _) fun other present hsome => ?_
        by_cases hother : other = name
        · subst hother
          simp only [hearing, Network.noticeFor, if_true]
          exact ⟨hfits.named, rfl, hrest.flush, fun hhere => (hkept (hfits.inTouch hhere)).flush⟩
        · simp only [hearing, Network.noticeFor, if_neg hother]
          have hpresent := h.fits other present hsome
          have hforeign : entry.clientId ≠ present.document.clientId := by
            rw [hclient, hfits.named, hpresent.named]
            exact Ne.symm hother
          obtain ⟨hheard, htouch⟩ := hpresent.consistent.hear_operation hforeign hrevision
          exact ⟨hpresent.named, hpresent.flushed, hheard, fun hhere =>
            htouch (hpresent.inTouch hhere)⟩

/-- Only an edit can be refused. -/
theorem Consistent.accepted (h : traffic.Consistent origin names)
    (hget : traffic.network.editors.get? name = some editor) :
    (∃ received, (traffic.network.send name editor).2 = .ok received) ∧
      (name ∉ traffic.away → ∃ handled, (traffic.network.receive name editor).2 = .ok handled) ∧
      (traffic.network.rejoin name editor).2 = .ok () := by
  have hfits := h.fits name editor hget
  refine ⟨?_, fun hhere => ?_, ?_⟩
  · simp only [Network.send]
    cases houtbox : editor.outbox with
    | nil => exact ⟨none, rfl⟩
    | cons message rest =>
        rcases hfits.consistent.send h.sound houtbox with
          ⟨entry, -, -, -, hreceive, -⟩ | ⟨entry, content, -, -, hreceive, -⟩
        · exact ⟨_, by simp only [Network.setEditor, hreceive]; rfl⟩
        · exact ⟨_, by simp only [Network.setEditor, hreceive]; rfl⟩
  · simp only [Network.receive]
    cases hinbox : editor.inbox with
    | nil => exact ⟨none, rfl⟩
    | cons notice notices =>
        obtain ⟨document, handled, hhandle, -⟩ :=
          hfits.consistent.handle h.sound (hfits.inTouch hhere) hinbox
        exact ⟨some handled, by simp only [hhandle]⟩
  · obtain ⟨acked, htracks⟩ := hfits.consistent.tracks
    obtain ⟨document, hcaught, -⟩ := hfits.consistent.rejoin h.sound
    have hsince := since_of_le htracks.within
    simp only [Network.rejoin, hsince, hcaught]

theorem Consistent.step (h : traffic.Consistent origin names) (turn : Turn) :
    (traffic.step turn).Consistent origin names := by
  simp only [Traffic.step]
  cases hget : traffic.network.editors.get? turn.client with
  | none => exact h
  | some editor =>
      cases turn.move with
      | edit operation built => exact h.edit hget operation built
      | send => exact h.send hget
      | receive => exact h.receive hget
      | lose => exact h.lose hget
      | rejoin => exact h.rejoin hget

/-- However the turns are taken, the traffic stays consistent. -/
theorem Consistent.run (h : traffic.Consistent origin names) (turns : List Turn) :
    (traffic.run turns).Consistent origin names := by
  induction turns generalizing traffic with
  | nil => exact h
  | cons turn turns ih => exact ih (h.step turn)

end Traffic

end Coauthor
