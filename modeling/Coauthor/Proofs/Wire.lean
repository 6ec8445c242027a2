import Coauthor.Commit.Data
import Coauthor.Commit.Response
import Coauthor.Room.Event
import Coauthor.Branch.Resolution
import Coauthor.Settings
import Coauthor.Proofs.Json.Fields
import Coauthor.Proofs.Text.ReadBack

/-!
# What crosses the wire

Eight types have records.  Each record is read as the value that it was written for; an option
without a value has no field in it; and whoever puts further fields into a record, of names that
mean nothing there, does not change what is read.  The text of a record is read back as well, where
its type says how deep the record can be; only the objects of a commit can be of any depth.
-/

namespace Coauthor

/-- How the values of a type are exchanged. -/
structure WireFormat (Value : Type) where
  write : Value → Json
  read : Json → Option Value
  /-- The numbers in the value are in the range of their types, and its operations and tables are
  what operations and tables are made to. -/
  Valid : Value → Prop
  /-- The fields that are left out where there is no value. -/
  options : Value → List (String × Option String)
  /-- The names that mean something in a record of the value. -/
  known : Value → List String
  /-- What may change in a known field: only a field that holds a record can get more fields. -/
  Related : String → Json → Json → Prop

namespace WireFormat

variable {Value : Type}

/-- A valid value is read from its record as it was.  An option has a field exactly if it has a
value.  Further fields of names that mean nothing change nothing. -/
structure Faithful (format : WireFormat Value) : Prop where
  reads_back : ∀ {value}, format.Valid value → format.read (format.write value) = some value
  has_option_iff : ∀ {value name option}, (name, option) ∈ format.options value →
    (format.write value).get? name = option.map .string
  passes_over : ∀ {value record more}, format.read record = some value →
    Json.Extends (format.known value) format.Related record more → format.read more = some value

/-- A valid value is read from the text of its record as it was.  This is for records that are a few
levels deep: a record that holds a value of any depth can be deeper than a reader of texts goes. -/
def ReadsText (format : WireFormat Value) : Prop :=
  ∀ {value}, format.Valid value →
    Json.parse? (format.write value).render >>= format.read = some value

/-- A value whose record holds no fractions is read from its text if it is read from its record. -/
theorem Faithful.readsText {format : WireFormat Value} (h : format.Faithful)
    (hplain : ∀ value, format.Valid value → (format.write value).Plain) : format.ReadsText := by
  intro value hvalid
  rw [Json.parse?_render (hplain _ hvalid)]
  exact h.reads_back hvalid

end WireFormat

/-! ## Commits -/

namespace Commit

variable {record more : Json}

/-- The time is a signed number of 64 bits. -/
def Dated (commit : Commit) : Prop :=
  -0x8000000000000000 ≤ commit.time ∧ commit.time < 0x8000000000000000

def format : WireFormat Commit where
  write := toJson
  read := ofJson?
  Valid := Dated
  options commit := [("branchName", commit.branchName)]
  known _ := fieldNames
  Related := Json.Unchanged

theorem ofJson?_toJson (commit : Commit) (h : commit.Dated) :
    ofJson? commit.toJson = some commit := by
  obtain ⟨id, root, parents, updater, time, message, branchName⟩ := commit
  have htime : Json.int64? (.int time) = some time := Json.int64?_int h.1 h.2
  cases branchName <;>
    simp [ofJson?, toJson, Json.fields?, Json.required, Json.defaulted, Json.optional, Json.field?,
      Json.optionalEntry, htime]

theorem plain_toJson (commit : Commit) (h : commit.Dated) : commit.toJson.Plain := by
  refine .object fun entry hentry => ?_
  rcases List.mem_append.mp hentry with hfield | hoption
  · simp only [List.mem_cons, List.not_mem_nil, or_false] at hfield
    rcases hfield with rfl | rfl | rfl | rfl | rfl | rfl
    · exact .string _
    · exact .string _
    · exact Json.plain_strings _
    · exact Json.plain_strings _
    · exact Json.plain_int h.1 h.2
    · exact .string _
  · exact Json.plain_optionalEntry hoption

theorem ofJson?_of_extends (h : Json.Extends fieldNames Json.Unchanged record more) :
    ofJson? more = ofJson? record := by
  refine h.bind_fields?_eq (fun fields others hsame => ?_) fieldNames
  simp only [fieldNames, List.forall_mem_cons] at hsame
  simp [Json.required, Json.defaulted, Json.optional, hsame]

theorem get?_branchName (commit : Commit) :
    commit.toJson.get? "branchName" = commit.branchName.map .string := by
  cases hname : commit.branchName <;> simp [toJson, Json.get?, Json.optionalEntry, hname]

theorem faithful : format.Faithful where
  reads_back h := ofJson?_toJson _ h
  has_option_iff h := by
    obtain ⟨rfl, rfl⟩ := Prod.mk.inj (List.mem_singleton.mp h)
    exact get?_branchName _
  passes_over hread h := (ofJson?_of_extends h).trans hread

theorem readsText : format.ReadsText := faithful.readsText plain_toJson

end Commit

/-! ## Commit data -/

namespace Table

variable {Key Value : Type} [DecidableEq Key]

/-- The entry of a new key comes last. -/
theorem insertEntry_of_not_mem {key : Key} (value : Value) {entries : List (Key × Value)}
    (h : key ∉ entries.map (·.1)) : insertEntry key value entries = entries ++ [(key, value)] := by
  induction entries with
  | nil => rfl
  | cons entry entries ih =>
      obtain ⟨hentry, hrest⟩ := not_or.mp (List.mem_cons.not.mp h)
      rw [insertEntry, if_neg (Ne.symm hentry), ih hrest, List.cons_append]

/-- Entries under different keys make the table that has them, in their order. -/
theorem ofList_entries {table : Table Key Value} (h : table.keys.Nodup) :
    ofList table.entries = table := by
  have hfold (entries done : List (Key × Value)) (hkeys : ((done ++ entries).map (·.1)).Nodup) :
      (⟨done⟩ : Table Key Value).extend ⟨entries⟩ = ⟨done ++ entries⟩ := by
    induction entries generalizing done with
    | nil => rw [List.append_nil]; rfl
    | cons entry entries ih =>
        have hnew : entry.1 ∉ done.map (·.1) := by
          rw [List.map_append, List.map_cons] at hkeys
          exact fun hold => (List.nodup_append.mp hkeys).2.2 _ hold _ List.mem_cons_self rfl
        have hstep : (⟨done⟩ : Table Key Value).extend ⟨entry :: entries⟩ =
            (⟨done ++ [entry]⟩ : Table Key Value).extend ⟨entries⟩ := by
          rw [extend, List.foldl_cons, insert, insertEntry_of_not_mem entry.2 hnew]
          rfl
        rw [hstep, ih _ (by rwa [List.append_assoc]), List.append_assoc, List.singleton_append]
  exact hfold table.entries [] h

end Table

namespace CommitData

variable {record more : Json}

/-- The objects have different keys. -/
structure Sendable (data : CommitData) : Prop where
  commit : data.commit.Dated
  keys : data.coreObjects.keys.Nodup

/-- The commit is a record itself, which can get fields of its own. -/
def Related (name : String) (old new : Json) : Prop :=
  if name = "commitObject" then Json.Extends Commit.fieldNames Json.Unchanged old new
  else old = new

def format : WireFormat CommitData where
  write := toJson
  read := ofJson?
  Valid := Sendable
  options data := [("branchName", data.branchName), ("oldHash", data.oldHash)]
  known _ := fieldNames
  Related := Related

theorem ofJson?_toJson (data : CommitData) (h : data.Sendable) :
    ofJson? data.toJson = some data := by
  obtain ⟨projectId, branchName, commit, coreObjects, oldHash⟩ := data
  have hcommit := commit.ofJson?_toJson h.commit
  have hobjects : Table.ofList coreObjects.entries = coreObjects := Table.ofList_entries h.keys
  cases branchName <;> cases oldHash <;>
    simp [ofJson?, toJson, Json.fields?, Json.required, Json.defaulted, Json.optional, Json.field?,
      Json.optionalEntry, coreObjects?, hcommit, hobjects]

theorem ofJson?_of_extends (h : Json.Extends fieldNames Related record more) :
    ofJson? more = ofJson? record := by
  cases h with
  | same => rfl
  | @fields fields others h =>
      have hcommit : Json.required others "commitObject" Commit.ofJson? =
          Json.required fields "commitObject" Commit.ofJson? :=
        h.required_eq (by simp [fieldNames]) fun hvalue => Commit.ofJson?_of_extends hvalue
      have hsame (name : String) (hname : name ∈ fieldNames) (hother : name ≠ "commitObject") :
          Json.field? others name = Json.field? fields name :=
        h.field?_eq hname fun hvalue => by rwa [Related, if_neg hother] at hvalue
      simp only [fieldNames, List.forall_mem_cons] at hsame
      -- The commit is rewritten as a whole, before the other fields are looked up.
      simp only [ofJson?, Json.fields?, Option.bind_eq_bind, Option.bind_some, hcommit]
      simp [Json.required, Json.defaulted, Json.optional, hsame]

theorem get?_branchName (data : CommitData) :
    data.toJson.get? "branchName" = data.branchName.map .string := by
  cases hname : data.branchName <;> cases hhash : data.oldHash <;>
    simp [toJson, Json.get?, Json.optionalEntry, hname, hhash]

theorem get?_oldHash (data : CommitData) :
    data.toJson.get? "oldHash" = data.oldHash.map .string := by
  cases hname : data.branchName <;> cases hhash : data.oldHash <;>
    simp [toJson, Json.get?, Json.optionalEntry, hname, hhash]

theorem faithful : format.Faithful where
  reads_back h := ofJson?_toJson _ h
  has_option_iff h := by
    simp only [format, List.mem_cons, List.not_mem_nil, or_false, Prod.mk.injEq] at h
    rcases h with ⟨rfl, rfl⟩ | ⟨rfl, rfl⟩
    · exact get?_branchName _
    · exact get?_oldHash _
  passes_over hread h := (ofJson?_of_extends h).trans hread

end CommitData

/-! ## Answers to a pushed commit -/

namespace CommitResponse

variable {record more : Json}

def format : WireFormat CommitResponse where
  write := toJson
  read := ofJson?
  Valid _ := True
  options response := [("mergeHash", response.mergeHash)]
  known _ := fieldNames
  Related := Json.Unchanged

theorem ofJson?_toJson (response : CommitResponse) : ofJson? response.toJson = some response := by
  obtain ⟨status, hash, mergeHash⟩ := response
  cases mergeHash <;>
    simp [ofJson?, toJson, Json.fields?, Json.required, Json.optional, Json.field?,
      Json.optionalEntry]

theorem plain_toJson (response : CommitResponse) : response.toJson.Plain := by
  refine .object fun entry hentry => ?_
  simp only [List.mem_append, List.mem_cons, List.not_mem_nil, or_false] at hentry
  rcases hentry with (rfl | rfl) | hoption
  · exact .string _
  · exact .string _
  · exact Json.plain_optionalEntry hoption

theorem ofJson?_of_extends (h : Json.Extends fieldNames Json.Unchanged record more) :
    ofJson? more = ofJson? record := by
  refine h.bind_fields?_eq (fun fields others hsame => ?_) fieldNames
  simp only [fieldNames, List.forall_mem_cons] at hsame
  simp [Json.required, Json.optional, hsame]

theorem get?_mergeHash (response : CommitResponse) :
    response.toJson.get? "mergeHash" = response.mergeHash.map .string := by
  cases hmerge : response.mergeHash <;> simp [toJson, Json.get?, Json.optionalEntry, hmerge]

theorem faithful : format.Faithful where
  reads_back _ := ofJson?_toJson _
  has_option_iff h := by
    obtain ⟨rfl, rfl⟩ := Prod.mk.inj (List.mem_singleton.mp h)
    exact get?_mergeHash _
  passes_over hread h := (ofJson?_of_extends h).trans hread

theorem readsText : format.ReadsText := faithful.readsText fun response _ => response.plain_toJson

end CommitResponse

/-! ## Operations -/

namespace Operation

/-- The operation is built, its lengths are below their limit, and its counts are signed numbers of
64 bits. -/
structure Sendable (operation : Operation) : Prop where
  built : operation.Built
  fits : operation.Fits
  writable : ∀ component ∈ operation.components, component.Writable

theorem Sendable.ofJson?_toJson {operation : Operation} (h : operation.Sendable) :
    ofJson? operation.toJson = some operation :=
  Operation.ofJson?_toJson h.built h.fits h.writable

theorem plain_toJson (operation : Operation) : operation.toJson.Plain := by
  refine .array fun item hitem => ?_
  obtain ⟨component, -, rfl⟩ := List.mem_map.mp hitem
  cases component with
  | retain count => exact Json.plain_int (wrapInt64_bounds _).1 (wrapInt64_bounds _).2
  | insert text => exact .string _
  | delete count => exact Json.plain_int (wrapInt64_bounds _).1 (wrapInt64_bounds _).2

end Operation

namespace OperationMessage

variable {record more seqField revisionField operationField : Json} {seq revision : Nat}
  {operation : Operation}

/-- The numbers have 64 bits. -/
structure Sendable (message : OperationMessage) : Prop where
  seq : message.seq < 0x10000000000000000
  revision : message.revision < 0x10000000000000000
  operation : message.operation.Sendable

def format : WireFormat OperationMessage where
  write := toJson
  read := ofJson?
  Valid := Sendable
  options _ := []
  known _ := fieldNames
  Related := Json.Unchanged

/-- The numbers are known only by what is read of them: once written out, they would be compared
with the limit of their type each time that the reader is evaluated. -/
theorem ofJson?_object (clientId : ClientId)
    (hseq : Json.nat64? seqField = some seq) (hrevision : Json.nat64? revisionField = some revision)
    (hoperation : Operation.ofJson? operationField = some operation) :
    ofJson? (.object [("clientId", .string clientId), ("seq", seqField),
      ("revision", revisionField), ("operation", operationField)]) =
      some { clientId, seq, revision, operation } := by
  simp [ofJson?, Json.fields?, Json.required, Json.field?, hseq, hrevision, hoperation]

theorem ofJson?_toJson (message : OperationMessage) (h : message.Sendable) :
    ofJson? message.toJson = some message :=
  ofJson?_object message.clientId (Json.nat64?_nat h.seq) (Json.nat64?_nat h.revision)
    h.operation.ofJson?_toJson

theorem plain_toJson (message : OperationMessage) (h : message.Sendable) :
    message.toJson.Plain := by
  refine .object fun entry hentry => ?_
  simp only [entries, List.mem_cons, List.not_mem_nil, or_false] at hentry
  rcases hentry with rfl | rfl | rfl | rfl
  · exact .string _
  · exact Json.plain_nat h.seq
  · exact Json.plain_nat h.revision
  · exact message.operation.plain_toJson

theorem ofJson?_of_extends (h : Json.Extends fieldNames Json.Unchanged record more) :
    ofJson? more = ofJson? record := by
  refine h.bind_fields?_eq (fun fields others hsame => ?_) fieldNames
  simp only [fieldNames, List.forall_mem_cons] at hsame
  simp [Json.required, hsame]

theorem faithful : format.Faithful where
  reads_back h := ofJson?_toJson _ h
  has_option_iff h := absurd h List.not_mem_nil
  passes_over hread h := (ofJson?_of_extends h).trans hread

theorem readsText : format.ReadsText := faithful.readsText plain_toJson

end OperationMessage

namespace AppliedOperation

variable {seqField revisionField operationField : Json} {seq revision : Nat}
  {operation : Operation} {fields others : List (String × Json)}

/-- The numbers have 64 bits. -/
structure Sendable (applied : AppliedOperation) : Prop where
  revision : applied.revision < 0x10000000000000000
  seq : applied.seq < 0x10000000000000000
  operation : applied.operation.Sendable

def format : WireFormat AppliedOperation where
  write := toJson
  read := ofJson?
  Valid := Sendable
  options _ := []
  known _ := fieldNames
  Related := Json.Unchanged

theorem ofFields?_of_fields (clientId : ClientId)
    (hrevision : Json.nat64? revisionField = some revision) (hseq : Json.nat64? seqField = some seq)
    (hoperation : Operation.ofJson? operationField = some operation) :
    ofFields? [("revision", revisionField), ("clientId", .string clientId), ("seq", seqField),
      ("operation", operationField)] = some { revision, clientId, seq, operation } := by
  simp [ofFields?, Json.required, Json.field?, hrevision, hseq, hoperation]

theorem ofFields?_entries (applied : AppliedOperation) (h : applied.Sendable) :
    ofFields? applied.entries = some applied :=
  ofFields?_of_fields applied.clientId (Json.nat64?_nat h.revision) (Json.nat64?_nat h.seq)
    h.operation.ofJson?_toJson

theorem ofJson?_toJson (applied : AppliedOperation) (h : applied.Sendable) :
    ofJson? applied.toJson = some applied :=
  (Json.object_bind_fields? fieldNames).trans (ofFields?_entries applied h)

theorem plain_entries (applied : AppliedOperation) (h : applied.Sendable) :
    ∀ entry ∈ applied.entries, entry.2.Plain := by
  intro entry hentry
  simp only [entries, List.mem_cons, List.not_mem_nil, or_false] at hentry
  rcases hentry with rfl | rfl | rfl | rfl
  · exact Json.plain_nat h.revision
  · exact .string _
  · exact Json.plain_nat h.seq
  · exact applied.operation.plain_toJson

theorem ofFields?_congr
    (hsame : ∀ name ∈ fieldNames, Json.field? others name = Json.field? fields name) :
    ofFields? others = ofFields? fields := by
  simp only [fieldNames, List.forall_mem_cons] at hsame
  simp [ofFields?, Json.required, hsame]

theorem faithful : format.Faithful where
  reads_back h := ofJson?_toJson _ h
  has_option_iff h := absurd h List.not_mem_nil
  passes_over hread h := (h.bind_fields?_eq (fun _ _ => ofFields?_congr) fieldNames).trans hread

theorem readsText : format.ReadsText :=
  faithful.readsText fun applied h => .object (applied.plain_entries h)

end AppliedOperation

/-! ## Events of a watched document -/

namespace DocumentEvent

variable {event : DocumentEvent} {type : String} {record more rest others : Json}

/-- The numbers have 64 bits. -/
def Sendable : DocumentEvent → Prop
  | ack seq revision => seq < 0x10000000000000000 ∧ revision < 0x10000000000000000
  | operation applied => applied.Sendable
  | closed => True

/-- The type, and the fields of an event of that type. -/
def known : DocumentEvent → List String
  | ack _ _ => ["type", "seq", "revision"]
  | operation _ => "type" :: AppliedOperation.fieldNames
  | closed => ["type"]

def format : WireFormat DocumentEvent where
  write := toJson
  read := ofJson?
  Valid := Sendable
  options _ := []
  known := known
  Related := Json.Unchanged

theorem ofJson?_ack {seqField revisionField : Json} {seq revision : Nat}
    (hseq : Json.nat64? seqField = some seq)
    (hrevision : Json.nat64? revisionField = some revision) :
    ofJson? (.object [("type", .string "ack"), ("seq", seqField), ("revision", revisionField)]) =
      some (ack seq revision) := by
  simp [ofJson?, Json.tagged?, ofType?, Json.fields?, Json.required, Json.field?, hseq, hrevision]

theorem ofJson?_of_tagged (h : record.tagged? "type" = some (type, rest)) :
    ofJson? record = ofType? type rest := by
  rw [ofJson?, h]
  rfl

theorem ofType?_operation (rest : Json) :
    ofType? "operation" rest = (AppliedOperation.ofJson? rest).map operation := rfl

theorem tagged?_operation (applied : AppliedOperation) :
    (operation applied).toJson.tagged? "type" = some ("operation", applied.toJson) := by
  simp [toJson, AppliedOperation.toJson, AppliedOperation.entries, Json.tagged?, Json.required,
    Json.field?]

theorem ofJson?_toJson (event : DocumentEvent) (h : event.Sendable) :
    ofJson? event.toJson = some event := by
  cases event with
  | ack seq revision => exact ofJson?_ack (Json.nat64?_nat h.1) (Json.nat64?_nat h.2)
  | operation applied =>
      rw [ofJson?_of_tagged (tagged?_operation applied), ofType?_operation]
      exact congrArg (Option.map operation) (applied.ofJson?_toJson h)
  | closed => rfl

theorem plain_toJson (event : DocumentEvent) (h : event.Sendable) : event.toJson.Plain := by
  cases event with
  | ack seq revision =>
      refine .object fun entry hentry => ?_
      simp only [List.mem_cons, List.not_mem_nil, or_false] at hentry
      rcases hentry with rfl | rfl | rfl
      · exact .string _
      · exact Json.plain_nat h.1
      · exact Json.plain_nat h.2
  | operation applied =>
      refine .object fun entry hentry => ?_
      rcases List.mem_cons.mp hentry with rfl | hfield
      · exact .string _
      · exact applied.plain_entries h entry hfield
  | closed =>
      refine .object fun entry hentry => ?_
      obtain rfl := List.mem_singleton.mp hentry
      exact .string _

theorem ofType?_of_extends (h : Json.Extends event.known Json.Unchanged rest others)
    (hread : ofType? type rest = some event) : ofType? type others = some event := by
  unfold ofType? at hread ⊢
  split at hread
  -- Only what was read tells which names are known, so the event is taken apart first.
  · have hack := hread
    obtain ⟨fields, -, hfields⟩ := Option.bind_eq_some_iff.mp hack
    obtain ⟨seq, -, hseq⟩ := Option.bind_eq_some_iff.mp hfields
    obtain ⟨revision, -, hevent⟩ := Option.bind_eq_some_iff.mp hseq
    obtain rfl := Option.some.inj hevent
    refine (h.bind_fields?_eq (fun fields others hsame => ?_) ["seq", "revision"]).trans hread
    simp only [known, List.forall_mem_cons] at hsame
    simp [Json.required, hsame]
  · obtain ⟨applied, happlied, rfl⟩ := Option.map_eq_some_iff.mp hread
    refine Option.map_eq_some_iff.mpr ⟨applied, ?_, rfl⟩
    refine (h.bind_fields?_eq (fun fields others hsame => ?_)
      AppliedOperation.fieldNames).trans happlied
    exact AppliedOperation.ofFields?_congr fun name hname => hsame name (.tail _ hname)
  · rw [h.bare?_eq]
    exact hread
  · cases hread

theorem ofJson?_of_extends (h : Json.Extends event.known Json.Unchanged record more)
    (hread : ofJson? record = some event) : ofJson? more = some event := by
  obtain ⟨⟨type, rest⟩, htagged, htype⟩ := Option.bind_eq_some_iff.mp hread
  have hknown : "type" ∈ event.known := by cases event <;> exact List.mem_cons_self
  obtain ⟨others, hmore, hrest⟩ := h.tagged? hknown htagged
  rw [ofJson?_of_tagged hmore]
  exact ofType?_of_extends hrest htype

theorem faithful : format.Faithful where
  reads_back h := ofJson?_toJson _ h
  has_option_iff h := absurd h List.not_mem_nil
  passes_over hread h := ofJson?_of_extends h hread

theorem readsText : format.ReadsText := faithful.readsText plain_toJson

end DocumentEvent

/-! ## Fork resolutions -/

namespace ForkResolution

variable {resolution : ForkResolution} {kind : String} {record more rest others : Json}

/-- The kind, and the fields of a resolution of that kind. -/
def known : ForkResolution → List String
  | abandon => ["kind"]
  | fork _ => ["kind", "branchName"]
  | forcePush => ["kind"]

def format : WireFormat ForkResolution where
  write := toJson
  read := ofJson?
  Valid _ := True
  options _ := []
  known := known
  Related := Json.Unchanged

theorem ofJson?_toJson (resolution : ForkResolution) :
    ofJson? resolution.toJson = some resolution := by
  cases resolution with
  | abandon => rfl
  | fork branchName =>
      simp [ofJson?, toJson, Json.tagged?, ofKind?, Json.fields?, Json.required, Json.field?]
  | forcePush => rfl

theorem plain_toJson (resolution : ForkResolution) : resolution.toJson.Plain := by
  cases resolution with
  | abandon | forcePush =>
      refine .object fun entry hentry => ?_
      obtain rfl := List.mem_singleton.mp hentry
      exact .string _
  | fork branchName =>
      refine .object fun entry hentry => ?_
      simp only [List.mem_cons, List.not_mem_nil, or_false] at hentry
      rcases hentry with rfl | rfl
      · exact .string _
      · exact .string _

theorem ofKind?_of_extends (h : Json.Extends resolution.known Json.Unchanged rest others)
    (hread : ofKind? kind rest = some resolution) : ofKind? kind others = some resolution := by
  unfold ofKind? at hread ⊢
  split at hread
  · rw [h.bare?_eq]
    exact hread
  · have hfork := hread
    obtain ⟨fields, -, hfields⟩ := Option.bind_eq_some_iff.mp hfork
    obtain ⟨branchName, -, hresolution⟩ := Option.bind_eq_some_iff.mp hfields
    obtain rfl := Option.some.inj hresolution
    refine (h.bind_fields?_eq (fun fields others hsame => ?_) ["branchName"]).trans hread
    simp only [known, List.forall_mem_cons] at hsame
    simp [Json.required, hsame]
  · rw [h.bare?_eq]
    exact hread
  · cases hread

theorem ofJson?_of_extends (h : Json.Extends resolution.known Json.Unchanged record more)
    (hread : ofJson? record = some resolution) : ofJson? more = some resolution := by
  obtain ⟨⟨kind, rest⟩, htagged, hkind⟩ := Option.bind_eq_some_iff.mp hread
  have hknown : "kind" ∈ resolution.known := by cases resolution <;> exact List.mem_cons_self
  obtain ⟨others, hmore, hrest⟩ := h.tagged? hknown htagged
  rw [ofJson?, hmore]
  exact ofKind?_of_extends hrest hkind

theorem faithful : format.Faithful where
  reads_back _ := ofJson?_toJson _
  has_option_iff h := absurd h List.not_mem_nil
  passes_over hread h := ofJson?_of_extends h hread

theorem readsText : format.ReadsText :=
  faithful.readsText fun resolution _ => resolution.plain_toJson

end ForkResolution

/-! ## Settings -/

namespace Settings

variable {record more capacityField timeoutField intervalField : Json}
  {capacity timeout interval : Nat}

/-- The numbers have 64 bits. -/
structure Sendable (settings : Settings) : Prop where
  commandCapacity : settings.commandCapacity < 0x10000000000000000
  inactivityTimeout : settings.inactivityTimeout < 0x10000000000000000
  reaperInterval : settings.reaperInterval < 0x10000000000000000

def format : WireFormat Settings where
  write := toJson
  read := ofJson?
  Valid := Sendable
  options _ := []
  known _ := fieldNames
  Related := Json.Unchanged

theorem ofJson?_object (hcapacity : Json.nat64? capacityField = some capacity)
    (htimeout : Json.nat64? timeoutField = some timeout)
    (hinterval : Json.nat64? intervalField = some interval) :
    ofJson? (.object [("commandCapacity", capacityField),
      ("documentInactivityTimeoutMs", timeoutField), ("reaperIntervalMs", intervalField)]) =
      some ⟨capacity, timeout, interval⟩ := by
  simp [ofJson?, Json.fields?, Json.defaulted, Json.field?, hcapacity, htimeout, hinterval]

theorem ofJson?_toJson (settings : Settings) (h : settings.Sendable) :
    ofJson? settings.toJson = some settings :=
  ofJson?_object (Json.nat64?_nat h.commandCapacity) (Json.nat64?_nat h.inactivityTimeout)
    (Json.nat64?_nat h.reaperInterval)

theorem plain_toJson (settings : Settings) (h : settings.Sendable) : settings.toJson.Plain := by
  refine .object fun entry hentry => ?_
  simp only [List.mem_cons, List.not_mem_nil, or_false] at hentry
  rcases hentry with rfl | rfl | rfl
  · exact Json.plain_nat h.commandCapacity
  · exact Json.plain_nat h.inactivityTimeout
  · exact Json.plain_nat h.reaperInterval

theorem ofJson?_of_extends (h : Json.Extends fieldNames Json.Unchanged record more) :
    ofJson? more = ofJson? record := by
  refine h.bind_fields?_eq (fun fields others hsame => ?_) fieldNames
  simp only [fieldNames, List.forall_mem_cons] at hsame
  simp [Json.defaulted, hsame]

theorem faithful : format.Faithful where
  reads_back h := ofJson?_toJson _ h
  has_option_iff h := absurd h List.not_mem_nil
  passes_over hread h := (ofJson?_of_extends h).trans hread

theorem readsText : format.ReadsText := faithful.readsText plain_toJson

/-- As the settings are read from their file, where none may be given twice. -/
def fileFormat : WireFormat Settings :=
  { format with read := fun record => if isUnambiguous record then ofJson? record else none }

theorem isUnambiguous_of_extends (h : Json.Extends fieldNames Json.Unchanged record more) :
    isUnambiguous more = isUnambiguous record := by
  cases h with
  | same => rfl
  | @fields fields others h =>
      rw [Bool.eq_iff_iff]
      simp only [isUnambiguous, List.all_eq_true]
      exact forall₂_congr fun name hname => by rw [h.countP_eq hname]

theorem file_reads_back (settings : Settings) (h : settings.Sendable) :
    fileFormat.read (fileFormat.write settings) = some settings := by
  have honce : isUnambiguous settings.toJson = true := rfl
  have hread := ofJson?_toJson settings h
  simp only [fileFormat, format, honce, if_true, hread]

theorem file_of_extends (h : Json.Extends fieldNames Json.Unchanged record more) :
    fileFormat.read more = fileFormat.read record := by
  simp only [fileFormat, isUnambiguous_of_extends h, ofJson?_of_extends h]

theorem faithful_file : fileFormat.Faithful where
  reads_back h := file_reads_back _ h
  has_option_iff h := absurd h List.not_mem_nil
  passes_over hread h := (file_of_extends h).trans hread

theorem readsText_file : fileFormat.ReadsText := faithful_file.readsText plain_toJson

/-- A settings file that was written is read as the same settings. -/
theorem ofText?_render (settings : Settings) (h : settings.Sendable) :
    ofText? settings.toJson.render = some settings :=
  readsText_file h

end Settings

/-! ## All of them -/

/-- Whatever has a record is read from it as it was, with the fields of the options that have a
value and of no others; and fields whose names mean nothing to a reader change nothing in what is
read.  But for commits with their objects, it is read from the text of its record too. -/
theorem wire_faithful :
    (Commit.format.Faithful ∧ CommitData.format.Faithful ∧ CommitResponse.format.Faithful ∧
      OperationMessage.format.Faithful ∧ AppliedOperation.format.Faithful ∧
      DocumentEvent.format.Faithful ∧ ForkResolution.format.Faithful ∧
      Settings.format.Faithful ∧ Settings.fileFormat.Faithful) ∧
    Commit.format.ReadsText ∧ CommitResponse.format.ReadsText ∧
      OperationMessage.format.ReadsText ∧ AppliedOperation.format.ReadsText ∧
      DocumentEvent.format.ReadsText ∧ ForkResolution.format.ReadsText ∧
      Settings.format.ReadsText ∧ Settings.fileFormat.ReadsText :=
  ⟨⟨Commit.faithful, CommitData.faithful, CommitResponse.faithful, OperationMessage.faithful,
    AppliedOperation.faithful, DocumentEvent.faithful, ForkResolution.faithful, Settings.faithful,
    Settings.faithful_file⟩,
    Commit.readsText, CommitResponse.readsText, OperationMessage.readsText,
    AppliedOperation.readsText, DocumentEvent.readsText, ForkResolution.readsText,
    Settings.readsText, Settings.readsText_file⟩

namespace CommitData

/-- Data without a branch, with an object that holds a list and a text with a quote. -/
def stored : CommitData where
  projectId := "project"
  branchName := none
  commit := {
    id := "#c1", root := "#root", parents := ["#c0"], updater := ["ann"], time := -1
    message := "", branchName := some "master" }
  coreObjects := ⟨[("#root", .object [("said", .string "\"\n"), ("sizes", .array [.int 0])])]⟩
  oldHash := some "#h0"

/-- The record of their commit with a field more in it. -/
def signed : Json :=
  .object [("_id", .string "#c1"), ("root", .string "#root"), ("parents", .array [.string "#c0"]),
    ("updater", .array [.string "ann"]), ("signed", .bool true), ("time", .int (-1)),
    ("message", .string ""), ("branchName", .string "master")]

/-- Their record with that commit and with a field more in it. -/
def storedWithMore : Json :=
  .object [("projectId", .string "project"), ("kind", .null), ("commitObject", signed),
    ("coreObjects", .object stored.coreObjects.entries), ("oldHash", .string "#h0")]

end CommitData

theorem wire_faithful_stored :
    CommitData.ofJson? CommitData.stored.toJson = some CommitData.stored ∧
      CommitData.stored.toJson.get? "branchName" = none ∧
      CommitData.stored.toJson.get? "oldHash" = some (.string "#h0") ∧
      CommitData.ofJson? CommitData.storedWithMore = some CommitData.stored ∧
      Json.parse? CommitData.stored.commit.toJson.render >>= Commit.ofJson? =
        some CommitData.stored.commit := by
  obtain ⟨⟨-, hdata, -⟩, hcommit, -⟩ := wire_faithful
  have hdated : CommitData.stored.commit.Dated := ⟨by decide, by decide⟩
  have hsendable : CommitData.stored.Sendable := ⟨hdated, by decide⟩
  have hsigned : Json.Extends Commit.fieldNames Json.Unchanged CommitData.stored.commit.toJson
      CommitData.signed :=
    .fields (.keep rfl (.keep rfl (.keep rfl (.keep rfl (.add (by decide) (.keep rfl (.keep rfl
      (.keep rfl .nil))))))))
  have hmore : Json.Extends CommitData.fieldNames CommitData.Related CommitData.stored.toJson
      CommitData.storedWithMore :=
    .fields (.keep rfl (.add (by decide) (.keep hsigned (.keep rfl (.keep rfl .nil)))))
  exact ⟨hdata.reads_back hsendable, hdata.has_option_iff (.head _),
    hdata.has_option_iff (.tail _ (.head _)), hdata.passes_over (hdata.reads_back hsendable) hmore,
    hcommit hdated⟩

end Coauthor
