import Coauthor.Proofs.Text.Grammar

/-!
# Reading what was written

Writing puts every count into a signed number of 64 bits, modulo two to the power of 64.  A count
that needs more, such as two retentions can have once they are merged, comes out with the other
sign, so that a retention is read as a deletion.  No other component can make up for that: the
number that is read is never greater than the count was, so whatever is read instead is shorter
before the change, or produces less.  So what was written is read again exactly if every count fits.
-/

namespace Coauthor

/-! ## Numbers of 64 bits -/

theorem wrapInt64_natCast {count : Nat} (h : count < 0x8000000000000000) :
    wrapInt64 count = count := by
  rw [wrapInt64, Int.bmod]
  omega

theorem wrapInt64_neg_natCast {count : Nat} (h : count ≤ 0x8000000000000000) :
    wrapInt64 (-(count : Int)) = -(count : Int) := by
  rw [wrapInt64, Int.bmod]
  omega

/-- A count that is too great is written with the other sign. -/
theorem wrapInt64_natCast_of_le {count : Nat} (h : 0x8000000000000000 ≤ count)
    (hlimit : count < Operation.lengthLimit) :
    wrapInt64 count = (count : Int) - 0x10000000000000000 := by
  rw [Operation.lengthLimit] at hlimit
  rw [wrapInt64, Int.bmod]
  omega

theorem wrapInt64_neg_natCast_of_lt {count : Nat} (h : 0x8000000000000000 < count)
    (hlimit : count < Operation.lengthLimit) :
    wrapInt64 (-(count : Int)) = 0x10000000000000000 - (count : Int) := by
  rw [Operation.lengthLimit] at hlimit
  rw [wrapInt64, Int.bmod]
  omega

theorem wrapInt64_ne_zero {number : Int} (h : number ≠ 0)
    (hlimit : number.natAbs < Operation.lengthLimit) : wrapInt64 number ≠ 0 := by
  rw [Operation.lengthLimit] at hlimit
  rw [wrapInt64, Int.bmod]
  omega

theorem wrapInt64_bounds (number : Int) :
    -0x8000000000000000 ≤ wrapInt64 number ∧ wrapInt64 number < 0x8000000000000000 := by
  rw [wrapInt64, Int.bmod]
  omega

/-! ## Components -/

namespace Component

/-- The count of the component, negated for a deletion, is a signed number of 64 bits. -/
def Writable : Component → Prop
  | retain count => count < 0x8000000000000000
  | insert _ => True
  | delete count => count ≤ 0x8000000000000000

instance : DecidablePred Writable
  | retain _ => inferInstanceAs (Decidable (_ < _))
  | insert _ => inferInstanceAs (Decidable True)
  | delete _ => inferInstanceAs (Decidable (_ ≤ _))

/-- The element that the component is written as. -/
def element : Component → WireComponent
  | retain count => .count (wrapInt64 count)
  | insert text => .text text
  | delete count => .count (wrapInt64 (-(count : Int)))

variable {component : Component}

theorem spells_toJson (component : Component) :
    WireComponent.Spells component.toJson component.element := by
  cases component with
  | retain count => exact .count (wrapInt64_bounds _).1 (wrapInt64_bounds _).2
  | insert text =>
      have htext := WireComponent.Spells.text (String.ofList text)
      rwa [String.toList_ofList] at htext
  | delete count => exact .count (wrapInt64_bounds _).1 (wrapInt64_bounds _).2

/-- A component that can be written stands for itself. -/
theorem component_element (h : component.Writable) (hsize : 0 < component.size) :
    component.element.component = component := by
  cases component with
  | retain count =>
      rw [element, wrapInt64_natCast h, WireComponent.component, if_neg (by omega),
        Int.natAbs_natCast]
  | insert text => rfl
  | delete count =>
      have hpos : 0 < count := hsize
      rw [element, wrapInt64_neg_natCast h, WireComponent.component, if_pos (by omega),
        Int.natAbs_neg, Int.natAbs_natCast]

theorem element_ne_zero (hsize : 0 < component.size)
    (hlimit : component.baseLength < Operation.lengthLimit) : component.element ≠ .count 0 := by
  cases component with
  | retain count =>
      have hcount : (count : Int) ≠ 0 := Int.natCast_ne_zero.mpr hsize.ne'
      exact fun hzero => wrapInt64_ne_zero hcount hlimit (WireComponent.count.inj hzero)
  | insert text => exact nofun
  | delete count =>
      have hcount : -(count : Int) ≠ 0 := neg_ne_zero.mpr (Int.natCast_ne_zero.mpr hsize.ne')
      have hbelow : (-(count : Int)).natAbs < Operation.lengthLimit := by
        rwa [Int.natAbs_neg, Int.natAbs_natCast]
      exact fun hzero => wrapInt64_ne_zero hcount hbelow (WireComponent.count.inj hzero)

/-! ## Counts that are too great -/

/-- What is read never consumes more than what was written. -/
theorem consumed_element_le (hlimit : component.baseLength < Operation.lengthLimit) :
    component.element.consumed ≤ component.baseLength := by
  cases component with
  | retain count =>
      rcases Nat.lt_or_ge count 0x8000000000000000 with hfits | hgreat
      · rw [element, wrapInt64_natCast hfits]
        exact (Int.natAbs_natCast count).le
      · rw [element, wrapInt64_natCast_of_le hgreat hlimit, WireComponent.consumed, baseLength]
        omega
  | insert text => exact Nat.le_refl _
  | delete count =>
      rcases Nat.lt_or_ge 0x8000000000000000 count with hgreat | hfits
      · rw [element, wrapInt64_neg_natCast_of_lt hgreat hlimit, WireComponent.consumed, baseLength]
        omega
      · rw [element, wrapInt64_neg_natCast hfits, WireComponent.consumed, Int.natAbs_neg]
        exact (Int.natAbs_natCast count).le

/-- A component that can be written produces what it did, and any other produces less if it is to
consume as much as it did. -/
theorem produced_element (hlimit : component.baseLength < Operation.lengthLimit)
    (hconsumed : component.element.consumed = component.baseLength) :
    component.element.produced ≤ component.targetLength ∧
      (¬ component.Writable → component.element.produced < component.targetLength) := by
  cases component with
  | retain count =>
      rcases Nat.lt_or_ge count 0x8000000000000000 with hfits | hgreat
      · rw [element, wrapInt64_natCast hfits]
        exact ⟨(Int.toNat_natCast count).le, fun hmisfit => absurd hfits hmisfit⟩
      · have hbelow : count < 0x10000000000000000 := hlimit
        rw [element, wrapInt64_natCast_of_le hgreat hlimit, WireComponent.produced, targetLength]
        omega
  | insert text => exact ⟨Nat.le_refl _, fun hmisfit => absurd trivial hmisfit⟩
  | delete count =>
      rcases Nat.lt_or_ge 0x8000000000000000 count with hgreat | hfits
      · rw [element, wrapInt64_neg_natCast_of_lt hgreat hlimit, WireComponent.consumed,
          baseLength] at hconsumed
        omega
      · rw [element, wrapInt64_neg_natCast hfits, WireComponent.produced, targetLength]
        exact ⟨by omega, fun hmisfit => absurd hfits hmisfit⟩

end Component

namespace Operation

open Component

variable {value : Json} {operation : Operation}

theorem spelled_toJson (operation : Operation) :
    Spelled operation.toJson (operation.components.map element) := by
  refine ⟨_, rfl, ?_⟩
  rw [List.forall₂_map_left_iff, List.forall₂_map_right_iff]
  exact List.forall₂_same.mpr fun component _ => component.spells_toJson

theorem total_eq_sum (measure : Component → Nat) (components : List Component) :
    total measure components = (components.map measure).sum := by
  induction components with
  | nil => rfl
  | cons component rest ih => rw [total, ih, List.map_cons, List.sum_cons]

/-- No component of an operation with a counted length is longer than that. -/
theorem Fits.component (h : operation.Fits) {component : Component}
    (hmem : component ∈ operation.components) : component.baseLength < lengthLimit := by
  refine (List.le_sum_of_mem (List.mem_map_of_mem hmem)).trans_lt ?_
  rw [← total_eq_sum]
  exact h.base

/-- An operation that is built is read again if each of its components can be written. -/
theorem ofJson?_toJson (h : operation.Built) (hfits : operation.Fits)
    (hwritable : ∀ component ∈ operation.components, component.Writable) :
    ofJson? operation.toJson = some operation := by
  have hnormal := (built_iff_normal operation).mp h
  have hstands : (operation.components.map element).map WireComponent.component =
      operation.components := by
    rw [List.map_map]
    refine (List.map_congr_left (g := id) fun component hmem => ?_).trans (List.map_id _)
    exact component_element (hwritable component hmem) (hnormal.sized component hmem)
  refine ofJson?_eq_some_iff_listed.mpr ⟨_, spelled_toJson operation, ⟨?_, ?_, ?_⟩, ?_⟩
  · intro hzero
    obtain ⟨component, hmem, helement⟩ := List.mem_map.mp hzero
    exact element_ne_zero (hnormal.sized component hmem) (hfits.component hmem) helement
  · rw [← baseLength_listed, ofComponents_listed, hstands, ofComponents_of_normal hnormal]
    exact hfits.base
  · rw [← targetLength_listed, ofComponents_listed, hstands, ofComponents_of_normal hnormal]
    exact hfits.target
  · rw [ofComponents_listed, hstands, ofComponents_of_normal hnormal]

/-- If the same operation is read again, then each of its components can be written. -/
theorem writable_of_ofJson?_toJson (hfits : operation.Fits)
    (hread : ofJson? operation.toJson = some operation) :
    ∀ component ∈ operation.components, component.Writable := by
  obtain ⟨elements, hspelled, -, hbuilt⟩ := ofJson?_eq_some_iff_listed.mp hread
  obtain rfl : operation.components.map element = elements := Option.some.inj
    ((elements?_eq_some_iff.mpr (spelled_toJson operation)).symm.trans
      (elements?_eq_some_iff.mpr hspelled))
  have hbase := baseLength_listed (operation.components.map element)
  have htarget := targetLength_listed (operation.components.map element)
  rw [hbuilt, baseLength, total_eq_sum, List.map_map] at hbase
  rw [hbuilt, targetLength, total_eq_sum, List.map_map] at htarget
  -- As no component is read as one that consumes more, each is read as one that consumes as much.
  have hconsumed (component : Component) (hmem : component ∈ operation.components) :
      component.element.consumed = component.baseLength := by
    refine (consumed_element_le (hfits.component hmem)).eq_of_not_lt fun hless => hbase.not_gt ?_
    exact List.sum_lt_sum _ _ (fun other hother => consumed_element_le (hfits.component hother))
      ⟨component, hmem, hless⟩
  intro component hmem
  by_contra hmisfit
  refine htarget.not_gt (List.sum_lt_sum _ _ (fun other hother => ?_) ⟨component, hmem, ?_⟩)
  · exact (produced_element (hfits.component hother) (hconsumed other hother)).1
  · exact (produced_element (hfits.component hmem) (hconsumed component hmem)).2 hmisfit

theorem fits_of_ofJson? (h : ofJson? value = some operation) : operation.Fits := by
  obtain ⟨elements, -, hadmissible, rfl⟩ := ofJson?_eq_some_iff_listed.mp h
  exact ⟨(baseLength_listed elements).trans_lt hadmissible.base,
    (targetLength_listed elements).trans_lt hadmissible.target⟩

theorem built_of_ofJson? (h : ofJson? value = some operation) : operation.Built := by
  obtain ⟨elements, -, -, rfl⟩ := ofJson?_eq_some_iff_listed.mp h
  exact built_ofComponents _

/-- An operation that was read is read again, once it was written, exactly if the count of each of
its components fits into a signed number of 64 bits.  Merging can make counts that do not. -/
theorem reads_back_iff_writable (h : ofJson? value = some operation) :
    ofJson? operation.toJson = some operation ↔
      ∀ component ∈ operation.components, component.Writable :=
  ⟨writable_of_ofJson?_toJson (fits_of_ofJson? h),
    ofJson?_toJson (built_of_ofJson? h) (fits_of_ofJson? h)⟩

/-- Two retentions, each as long as one number can tell. -/
def retainedTwice : Json := .array [.int 0x7FFFFFFFFFFFFFFF, .int 0x7FFFFFFFFFFFFFFF]

/-- They are read as one, which is written as the number -2, and so as the deletion of two
characters. -/
theorem reads_back_iff_writable_retained_twice :
    ∃ operation, ofJson? retainedTwice = some operation ∧
      operation.components = [.retain 0xFFFFFFFFFFFFFFFE] ∧
      operation.toJson = .array [.int (-2)] ∧
      ofJson? operation.toJson ≠ some operation := by
  have hread : ofJson? retainedTwice = some ⟨[.retain 0xFFFFFFFFFFFFFFFE]⟩ := by decide
  refine ⟨_, hread, rfl, rfl, fun hagain => ?_⟩
  have hwritable := (reads_back_iff_writable hread).mp hagain
  exact absurd hwritable (by decide)

end Operation

end Coauthor
