import Coauthor.Json.Record
import Coauthor.Proofs.Json.Text

/-!
# The fields of a record

What a field was written with is read from it.  A reader asks a record for the fields whose names it
knows, and for nothing else, so fields of other names can stand anywhere between them: whatever the
reader asks for is what it was.  A known field may itself hold a record with fields that mean
nothing; then what is read of the field is what it was.
-/

namespace Coauthor

namespace Json

/-! ## Fields that are read back -/

@[simp]
theorem string?_string (text : String) : string? (.string text) = some text := rfl

theorem int64?_int {number : Int} (hlow : -0x8000000000000000 ≤ number)
    (hhigh : number < 0x8000000000000000) : int64? (.int number) = some number :=
  if_pos ⟨hlow, hhigh⟩

theorem nat64?_nat {number : Nat} (h : number < 0x10000000000000000) :
    nat64? (.nat number) = some number := by
  rw [nat, nat64?, if_pos (by omega), Int.toNat_natCast]

@[simp]
theorem strings?_strings (texts : List String) : strings? (strings texts) = some texts := by
  induction texts with
  | nil => rfl
  | cons text texts ih =>
      have hrest : (texts.map string).mapM string? = some texts := ih
      show ((text :: texts).map string).mapM string? = some (text :: texts)
      rw [List.map_cons, List.mapM_cons, string?_string, hrest]
      rfl

/-- An object is read by its fields, whatever their order. -/
theorem object_bind_fields? {Value : Type} {build : List (String × Json) → Option Value}
    {entries : List (String × Json)} (names : List String) :
    (object entries).fields? names >>= build = build entries := rfl

theorem plain_nat {number : Nat} (h : number < 0x10000000000000000) : Plain (.nat number) := by
  refine .int ?_ ?_
  · rw [minInt]; omega
  · rw [maxInt]; omega

theorem plain_int {number : Int} (hlow : -0x8000000000000000 ≤ number)
    (hhigh : number < 0x8000000000000000) : Plain (.int number) := by
  refine .int hlow ?_
  rw [maxInt]
  omega

theorem plain_strings (texts : List String) : Plain (strings texts) := by
  refine .array fun item hitem => ?_
  obtain ⟨text, -, rfl⟩ := List.mem_map.mp hitem
  exact .string text

theorem plain_optionalEntry {name : String} {value : Option String} {entry : String × Json}
    (h : entry ∈ optionalEntry name value) : entry.2.Plain := by
  cases value with
  | none => cases h
  | some text =>
      obtain rfl := List.mem_singleton.mp h
      exact .string text

/-! ## Fields that are added -/

/-- The second fields are the first with others added whose names are not known.  What a known field
holds may change as `Related` says. -/
inductive Widens (known : List String) (Related : String → Json → Json → Prop) :
    List (String × Json) → List (String × Json) → Prop where
  | nil : Widens known Related [] []
  | keep {name : String} {old new : Json} {fields more : List (String × Json)}
      (hvalue : Related name old new) (hrest : Widens known Related fields more) :
      Widens known Related ((name, old) :: fields) ((name, new) :: more)
  | add {name : String} {value : Json} {fields more : List (String × Json)} (hname : name ∉ known)
      (hrest : Widens known Related fields more) :
      Widens known Related fields ((name, value) :: more)

/-- The second record is the first with fields added whose names are not known. -/
inductive Extends (known : List String) (Related : String → Json → Json → Prop) :
    Json → Json → Prop where
  | same (record : Json) : Extends known Related record record
  | fields {fields more : List (String × Json)} (h : Widens known Related fields more) :
      Extends known Related (.object fields) (.object more)

/-- Every field holds what it held. -/
def Unchanged : String → Json → Json → Prop := fun _ => Eq

namespace Widens

variable {known : List String} {Related : String → Json → Json → Prop}
  {fields more : List (String × Json)} {name tag : String} {Value : Type}
  {read : Json → Option Value}

/-- A known field is where it was. -/
theorem rel_field? (h : Widens known Related fields more) (hname : name ∈ known) :
    Option.Rel (Related name) (Json.field? fields name) (Json.field? more name) := by
  induction h with
  | nil => exact .none
  | @keep other old new fields more hvalue hrest ih =>
      by_cases hother : other = name
      · subst hother
        simpa [Json.field?] using Option.Rel.some hvalue
      · simpa [Json.field?, hother] using ih
  | @add other value fields more hother hrest ih =>
      have hne : other ≠ name := fun heq => hother (heq ▸ hname)
      simpa [Json.field?, hne] using ih

theorem field?_eq (h : Widens known Related fields more) (hname : name ∈ known)
    (hsame : ∀ {old new}, Related name old new → old = new) :
    Json.field? more name = Json.field? fields name := by
  have hfield := h.rel_field? hname
  generalize Json.field? fields name = old at hfield
  generalize Json.field? more name = new at hfield
  cases hfield with
  | none => rfl
  | some hvalue => rw [hsame hvalue]

theorem required_eq (h : Widens known Related fields more) (hname : name ∈ known)
    (hread : ∀ {old new}, Related name old new → read new = read old) :
    Json.required more name read = Json.required fields name read := by
  have hfield := h.rel_field? hname
  rw [Json.required, Json.required]
  generalize Json.field? fields name = old at hfield
  generalize Json.field? more name = new at hfield
  cases hfield with
  | none => rfl
  | some hvalue => exact hread hvalue

/-- Without the field that says what the record is, the others are what they were. -/
theorem filter (h : Widens known Related fields more) (tag : String) :
    Widens known Related (fields.filter (·.1 ≠ tag)) (more.filter (·.1 ≠ tag)) := by
  induction h with
  | nil => exact .nil
  | @keep other old new fields more hvalue hrest ih =>
      by_cases hother : other = tag
      · simpa [hother] using ih
      · simpa [hother] using ih.keep hvalue
  | @add other value fields more hname hrest ih =>
      by_cases hother : other = tag
      · simpa [hother] using ih
      · simpa [hother] using ih.add hname

theorem countP_eq (h : Widens known Related fields more) (hname : name ∈ known) :
    more.countP (·.1 = name) = fields.countP (·.1 = name) := by
  induction h with
  | nil => rfl
  | keep hvalue hrest ih => simp only [List.countP_cons, ih]
  | @add other value fields more hother hrest ih =>
      have hne : other ≠ name := fun heq => hother (heq ▸ hname)
      rw [List.countP_cons_of_neg (by simpa using hne), ih]

end Widens

namespace Extends

variable {known : List String} {record more : Json}

/-- Who asks for known fields only reads what was read before. -/
theorem bind_fields?_eq {Value : Type} {build : List (String × Json) → Option Value}
    (h : Extends known Unchanged record more)
    (hbuild : ∀ fields others, (∀ name ∈ known, field? others name = field? fields name) →
      build others = build fields) (names : List String) :
    more.fields? names >>= build = record.fields? names >>= build := by
  cases h with
  | same => rfl
  | @fields fields others h =>
      exact hbuild fields others fun name hname => h.field?_eq hname fun hvalue => hvalue

theorem bare?_eq (h : Extends known Unchanged record more) : more.bare? = record.bare? := by
  cases h with
  | same => rfl
  | fields h => rfl

/-- What a record is, is what it was, and what follows has got more fields. -/
theorem tagged? {rest : Json} {tag word : String}
    (h : Extends known Unchanged record more) (htag : tag ∈ known)
    (hread : record.tagged? tag = some (word, rest)) :
    ∃ others, more.tagged? tag = some (word, others) ∧ Extends known Unchanged rest others := by
  cases h with
  | same => exact ⟨rest, hread, .same rest⟩
  | @fields fields others h =>
      have hword : required others tag string? = required fields tag string? :=
        h.required_eq htag fun hvalue => hvalue ▸ rfl
      obtain ⟨found, hfound, hpair⟩ := Option.bind_eq_some_iff.mp hread
      cases hpair
      refine ⟨.object (others.filter (·.1 ≠ tag)), ?_, .fields (h.filter tag)⟩
      rw [Json.tagged?, hword, hfound]
      rfl

end Extends

end Json

end Coauthor
