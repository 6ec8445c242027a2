import Coauthor.Proofs.Text.Builder
import Mathlib

/-!
# What spells an operation

An operation is spelled by an array of counts and strings.  Reading looks at the elements one at a
time and compares the lengths so far with their limit.  Since lengths only grow, all of these
comparisons together say no more than the last: an array spells an operation exactly if no count is
zero and both lengths of the whole stay below the limit.  So no length is ever too great along the
way, and what is read is what its elements build.
-/

namespace Coauthor

namespace WireComponent

/-- What an element of an array spells: a signed number of 64 bits counts, and a string inserts. -/
inductive Spells : Json → WireComponent → Prop where
  | count {value : Int} (hlow : -0x8000000000000000 ≤ value) (hhigh : value < 0x8000000000000000) :
      Spells (.int value) (.count value)
  | text (chars : String) : Spells (.string chars) (.text chars.toList)

/-- How many characters of the edited text an element consumes: as many as it counts, whether it
retains or deletes them. -/
def consumed : WireComponent → Nat
  | count value => value.natAbs
  | text _ => 0

/-- How many characters of the resulting text an element produces: those that it retains, or its
own. -/
def produced : WireComponent → Nat
  | count value => value.toNat
  | text chars => chars.length

/-- No count is zero, and both lengths stay below their limit. -/
structure Admissible (elements : List WireComponent) : Prop where
  nonzero : count 0 ∉ elements
  base : (elements.map consumed).sum < Operation.lengthLimit
  target : (elements.map produced).sum < Operation.lengthLimit

variable {value : Json} {items : List Json} {element : WireComponent}
  {elements : List WireComponent} {base target : Nat}

/-! ## Elements -/

theorem baseLength_component (element : WireComponent) :
    element.component.baseLength = element.consumed := by
  cases element with
  | text chars => rfl
  | count value =>
      simp only [component, consumed]
      split_ifs with hnegative
      · rfl
      · rfl

theorem targetLength_component (element : WireComponent) :
    element.component.targetLength = element.produced := by
  cases element with
  | text chars => rfl
  | count value =>
      simp only [component, produced]
      split_ifs with hnegative
      · exact (Int.toNat_of_nonpos hnegative.le).symm
      · exact (Int.toNat_of_nonneg (not_lt.mp hnegative) ▸ Int.natAbs_natCast _ :)

theorem ofJson?_eq_some_iff : ofJson? value = some element ↔ Spells value element := by
  constructor
  · intro hread
    cases value with
    | string chars =>
        obtain rfl := Option.some.inj hread
        exact .text chars
    | int number =>
        simp only [ofJson?, Json.int64?] at hread
        split_ifs at hread with hrange
        · obtain rfl := Option.some.inj hread
          exact .count hrange.1 hrange.2
        · cases hread
    | _ => cases hread
  · intro hspells
    cases hspells with
    | count hlow hhigh => simp only [ofJson?, Json.int64?, if_pos (And.intro hlow hhigh)]; rfl
    | text chars => rfl

theorem mapM_ofJson?_eq_some_iff :
    items.mapM ofJson? = some elements ↔ List.Forall₂ Spells items elements := by
  induction items generalizing elements with
  | nil => simp [eq_comm]
  | cons value rest ih =>
      rw [List.mapM_cons, List.forall₂_cons_left_iff]
      simp only [bind, Option.bind_eq_some_iff, pure, Option.some.injEq]
      constructor
      · rintro ⟨element, helement, more, hmore, rfl⟩
        exact ⟨element, more, ofJson?_eq_some_iff.mp helement, ih.mp hmore, rfl⟩
      · rintro ⟨element, more, hspells, hmore, rfl⟩
        exact ⟨element, ofJson?_eq_some_iff.mpr hspells, more, ih.mpr hmore, rfl⟩

/-! ## Checks -/

/-- An element passes its check if it is not empty and the lengths still stay below their limit. -/
theorem check_eq_ok_iff (hbase : base < Operation.lengthLimit)
    (htarget : target < Operation.lengthLimit) :
    element.check base target = .ok () ↔
      element ≠ count 0 ∧ base + element.consumed < Operation.lengthLimit ∧
        target + element.produced < Operation.lengthLimit := by
  cases element with
  | text chars =>
      simp only [check, consumed, produced]
      split_ifs with hfits
      · simp [hbase, hfits]
      · simp [hfits]
  | count value =>
      simp only [check, consumed, produced]
      split_ifs with hzero hfits
      · simp [hzero]
      · refine iff_of_true rfl ⟨by simpa using hzero, hfits.1, ?_⟩
        rcases hfits.2 with hnegative | htotal
        · rwa [Int.toNat_of_nonpos hnegative.le, Nat.add_zero]
        · omega
      · refine iff_of_false (by rintro ⟨⟩) fun hadmits => hfits ⟨hadmits.2.1, ?_⟩
        have htotal := hadmits.2.2
        omega

/-- The checks of a whole list come down to one of the last lengths, since lengths only grow. -/
theorem checkAll_eq_ok_iff (hbase : base < Operation.lengthLimit)
    (htarget : target < Operation.lengthLimit) :
    checkAll base target elements = .ok () ↔
      count 0 ∉ elements ∧ base + (elements.map consumed).sum < Operation.lengthLimit ∧
        target + (elements.map produced).sum < Operation.lengthLimit := by
  induction elements generalizing base target with
  | nil => simp [checkAll, hbase, htarget]
  | cons element rest ih =>
      rw [List.map_cons, List.map_cons, List.sum_cons, List.sum_cons, ← Nat.add_assoc,
        ← Nat.add_assoc, List.mem_cons, not_or, ← ne_eq, ne_comm]
      have hfirst : element.check base target = .ok () ↔ _ := check_eq_ok_iff hbase htarget
      cases hcheck : element.check base target with
      | error error =>
          have hrefused := mt hfirst.mpr (by simp [hcheck])
          refine iff_of_false (by simp [checkAll, hcheck, bind, Except.bind]) ?_
          rintro ⟨⟨hnonzero, -⟩, hbelow, hunder⟩
          exact hrefused ⟨hnonzero, by omega, by omega⟩
      | ok =>
          obtain ⟨hnonzero, hbelow, hunder⟩ := hfirst.mp hcheck
          have hrest : checkAll base target (element :: rest) =
              checkAll (base + element.consumed) (target + element.produced) rest := by
            simp only [checkAll, hcheck, bind, Except.bind, baseLength_component,
              targetLength_component]
          rw [hrest, ih hbelow hunder]
          simp [hnonzero]

end WireComponent

namespace Operation

open WireComponent

/-- An array of values, each of which spells one of the elements. -/
def Spelled (value : Json) (elements : List WireComponent) : Prop :=
  ∃ items, value = .array items ∧ List.Forall₂ Spells items elements

/-- What the elements list: an empty string lists nothing. -/
def listed (elements : List WireComponent) : List Component :=
  (elements.filter (· ≠ .text [])).map WireComponent.component

variable {value : Json} {elements : List WireComponent} {operation : Operation}

theorem elements?_eq_some_iff : elements? value = some elements ↔ Spelled value elements := by
  constructor
  · intro hread
    cases value with
    | array items => exact ⟨items, rfl, mapM_ofJson?_eq_some_iff.mp hread⟩
    | _ => cases hread
  · rintro ⟨items, rfl, hspells⟩
    exact mapM_ofJson?_eq_some_iff.mpr hspells

/-- Empty strings add nothing to an operation. -/
theorem ofComponents_listed (elements : List WireComponent) :
    ofComponents (listed elements) = ofComponents (elements.map WireComponent.component) := by
  induction elements with
  | nil => rfl
  | cons element rest ih =>
      have hrest := congrArg components ih
      by_cases hempty : element = .text []
      · subst hempty
        have hlisted : listed (.text [] :: rest) = listed rest := by simp [listed]
        rw [hlisted, ih]
        have hsize : (Component.insert []).size = 0 := rfl
        exact congrArg Operation.mk (Component.attach_of_size_eq_zero hsize _).symm
      · have hlisted : listed (element :: rest) = element.component :: listed rest := by
          simp [listed, hempty]
        rw [hlisted]
        exact congrArg (fun components => Operation.mk (element.component.attach components)) hrest

theorem ofJson?_eq_some_iff_listed :
    ofJson? value = some operation ↔
      ∃ elements, Spelled value elements ∧ Admissible elements ∧
        ofComponents (listed elements) = operation := by
  have hlimit : 0 < lengthLimit := by decide
  have hadmissible (elements : List WireComponent) :
      checkAll 0 0 elements = .ok () ↔ Admissible elements := by
    rw [checkAll_eq_ok_iff hlimit hlimit, Nat.zero_add, Nat.zero_add]
    exact ⟨fun h => ⟨h.1, h.2.1, h.2.2⟩, fun h => ⟨h.nonzero, h.base, h.target⟩⟩
  unfold ofJson? read
  cases helements : elements? value with
  | none =>
      refine iff_of_false (by simp [Except.toOption]) ?_
      rintro ⟨elements, hspelled, -⟩
      cases helements.symm.trans (elements?_eq_some_iff.mpr hspelled)
  | some elements =>
      have honly (other : List WireComponent) (hspelled : Spelled value other) : other = elements :=
        Option.some.inj ((elements?_eq_some_iff.mpr hspelled).symm.trans helements)
      cases hcheck : checkAll 0 0 elements with
      | error error =>
          refine iff_of_false (by simp [hcheck, bind, Except.bind, Except.toOption]) ?_
          rintro ⟨other, hspelled, hother, -⟩
          obtain rfl := honly other hspelled
          cases hcheck.symm.trans ((hadmissible other).mpr hother)
      | ok =>
          simp only [hcheck, bind, Except.bind, pure, Except.pure, Except.toOption,
            Option.some.injEq, ← ofComponents_listed]
          constructor
          · intro hbuilt
            exact ⟨elements, elements?_eq_some_iff.mp helements, (hadmissible elements).mp hcheck,
              hbuilt⟩
          · rintro ⟨other, hspelled, -, hbuilt⟩
            obtain rfl := honly other hspelled
            exact hbuilt

theorem total_listed (measure : Component → Nat) (counts : WireComponent → Nat)
    (hempty : counts (.text []) = 0)
    (hcounts : ∀ element : WireComponent, measure element.component = counts element)
    (elements : List WireComponent) :
    Component.total measure (listed elements) = (elements.map counts).sum := by
  induction elements with
  | nil => rfl
  | cons element rest ih =>
      rw [List.map_cons, List.sum_cons, ← ih]
      by_cases hnothing : element = .text []
      · subst hnothing
        simp [listed, hempty]
      · simp [listed, hnothing, Component.total, hcounts]

/-- The lengths of what is read are the sums over the elements. -/
theorem baseLength_listed (elements : List WireComponent) :
    (ofComponents (listed elements)).baseLength = (elements.map consumed).sum :=
  (baseLength_ofComponents _).trans (total_listed _ _ rfl baseLength_component elements)

theorem targetLength_listed (elements : List WireComponent) :
    (ofComponents (listed elements)).targetLength = (elements.map produced).sum :=
  (targetLength_ofComponents _).trans (total_listed _ _ rfl targetLength_component elements)

/-- What stands first is no longer than the whole. -/
theorem fits_of_prefix {components whole : List Component} (h : components <+: whole)
    (hfits : (ofComponents whole).Fits) : (ofComponents components).Fits := by
  obtain ⟨rest, rfl⟩ := h
  obtain ⟨hbase, htarget⟩ := hfits
  rw [baseLength_ofComponents, Component.total_append] at hbase
  rw [targetLength_ofComponents, Component.total_append] at htarget
  constructor
  · rw [baseLength_ofComponents]
    omega
  · rw [targetLength_ofComponents]
    omega

/-- A value is read as an operation exactly if it is an array of counts and strings, without a count
of zero, whose lengths stay below their limit.  The operation is the one that the listed components
build one after the other; its lengths are the two sums, and no length on the way to it is beyond
the limit. -/
theorem read_iff_spelled (value : Json) :
    ((ofJson? value).isSome ↔ ∃ elements, Spelled value elements ∧ Admissible elements) ∧
      ∀ elements operation, Spelled value elements → ofJson? value = some operation →
        operation = ofComponents (listed elements) ∧
          operation = (listed elements).foldl add empty ∧
          operation.baseLength = (elements.map consumed).sum ∧
          operation.targetLength = (elements.map produced).sum ∧
          ∀ components, components <+: listed elements → (components.foldl add empty).Fits := by
  constructor
  · rw [Option.isSome_iff_exists]
    simp only [ofJson?_eq_some_iff_listed]
    constructor
    · rintro ⟨operation, elements, hspelled, hadmissible, -⟩
      exact ⟨elements, hspelled, hadmissible⟩
    · rintro ⟨elements, hspelled, hadmissible⟩
      exact ⟨_, elements, hspelled, hadmissible, rfl⟩
  · intro elements operation hspelled hread
    obtain ⟨other, hother, hadmissible, rfl⟩ := ofJson?_eq_some_iff_listed.mp hread
    obtain rfl : other = elements := Option.some.inj
      ((elements?_eq_some_iff.mpr hother).symm.trans (elements?_eq_some_iff.mpr hspelled))
    have hfits : (ofComponents (listed other)).Fits :=
      ⟨(baseLength_listed other).trans_lt hadmissible.base,
        (targetLength_listed other).trans_lt hadmissible.target⟩
    refine ⟨rfl, (foldl_add_eq_ofComponents _).symm, baseLength_listed other,
      targetLength_listed other, fun components hprefix => ?_⟩
    rw [foldl_add_eq_ofComponents]
    exact fits_of_prefix hprefix hfits

/-- The greatest deletion and the greatest retention, with an empty string and another one. -/
def greatest : Json :=
  .array [.int (-0x8000000000000000), .string "", .int 0x7FFFFFFFFFFFFFFF, .string "a"]

/-- Together they reach the limit of the base length, and are read. -/
theorem read_iff_spelled_greatest :
    ∃ operation, ofJson? greatest = some operation ∧
      operation.components =
        [.delete 0x8000000000000000, .retain 0x7FFFFFFFFFFFFFFF, .insert ['a']] ∧
      operation.baseLength = 0xFFFFFFFFFFFFFFFF ∧
      operation.targetLength = 0x8000000000000000 := by
  let elements : List WireComponent :=
    [.count (-0x8000000000000000), .text [], .count 0x7FFFFFFFFFFFFFFF, .text ['a']]
  have hspelled : Spelled greatest elements :=
    ⟨_, rfl, .cons (.count (by decide) (by decide)) (.cons (.text "")
      (.cons (.count (by decide) (by decide)) (.cons (.text "a") .nil)))⟩
  have hadmissible : Admissible elements := ⟨by decide, by decide, by decide⟩
  obtain ⟨hreads, hbuilds⟩ := read_iff_spelled greatest
  obtain ⟨operation, hread⟩ :=
    Option.isSome_iff_exists.mp (hreads.mpr ⟨elements, hspelled, hadmissible⟩)
  obtain ⟨hoperation, -, hbase, htarget, -⟩ := hbuilds elements operation hspelled hread
  refine ⟨operation, hread, ?_, hbase, htarget⟩
  rw [hoperation]
  decide

end Operation

end Coauthor
