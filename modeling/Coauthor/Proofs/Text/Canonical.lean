import Coauthor.Proofs.Text.Composition
import Coauthor.Text.Transform

/-!
# Operations are equal when they do the same

Every way to make an operation leads to the normal form, so an operation has no empty component, no
neighbours of one kind and no insertion behind a deletion, its counted lengths are the sums over its
components, and its components can be told from what it does to the texts of its length.
-/

namespace Coauthor

namespace Operation

open Component

variable {operation other first second composed left right left' right' inverse : Operation}
variable {text : Text}

/-! ## Ways to make an operation -/

/-- What the library makes of components, of written operations and of operations made before. -/
inductive Made : Operation → Prop where
  | empty : Made .empty
  | add {operation : Operation} (h : Made operation) (component : Component) :
      Made (operation.add component)
  | ofComponents (components : List Component) : Made (.ofComponents components)
  | read {value : Json} {operation : Operation} (h : Operation.read value = .ok operation) :
      Made operation
  | compose {first second composed : Operation} (hfirst : Made first) (hsecond : Made second)
      (h : first.compose second = .ok composed) : Made composed
  | transformLeft {left right left' right' : Operation} (hleft : Made left) (hright : Made right)
      (h : left.transform right = .ok (left', right')) : Made left'
  | transformRight {left right left' right' : Operation} (hleft : Made left) (hright : Made right)
      (h : left.transform right = .ok (left', right')) : Made right'
  | invert {operation inverse : Operation} {text : Text} (hoperation : Made operation)
      (h : operation.invert text = .ok inverse) : Made inverse

theorem built_of_transform (h : left.transform right = .ok (left', right')) :
    left'.Built ∧ right'.Built := by
  by_cases hbase : left.baseLength = right.baseLength
  · cases hwalk : transformComponents left.components right.components with
    | error error => simp [transform, hbase, hwalk, bind, Except.bind] at h
    | ok walked =>
        simp only [transform, hbase, hwalk, bind, Except.bind, pure, Except.pure, ne_eq,
          not_true_eq_false, if_false, Except.ok.injEq, Prod.mk.injEq] at h
        exact ⟨⟨_, h.1⟩, ⟨_, h.2⟩⟩
  · simp [transform, hbase, bind, Except.bind, throw, throwThe, MonadExceptOf.throw] at h

theorem built_of_invert (h : operation.invert text = .ok inverse) : inverse.Built := by
  by_cases hbase : text.length = operation.baseLength
  · simp only [invert, checkBase, hbase, bind, Except.bind, pure, Except.pure, if_true,
      Except.ok.injEq] at h
    exact ⟨_, h⟩
  · simp [invert, checkBase, hbase, bind, Except.bind] at h

/-- Whatever is made is in normal form. -/
theorem Made.built (h : Made operation) : operation.Built := by
  induction h with
  | empty => exact built_empty
  | add h component ih => exact ih.add component
  | ofComponents components => exact built_ofComponents components
  | read h => exact built_of_read h
  | compose hfirst hsecond h ihfirst ihsecond =>
      exact ((compose_eq_ok_iff ihfirst ihsecond).mp h).2.built
  | transformLeft hleft hright h ihleft ihright => exact (built_of_transform h).1
  | transformRight hleft hright h ihleft ihright => exact (built_of_transform h).2
  | invert hoperation h ih => exact built_of_invert h

/-! ## What the normal form gives -/

/-- The components and the counted lengths are those that the operation has to have. -/
structure Canonical (operation : Operation) : Prop where
  sized : ∀ component ∈ operation.components, 0 < component.size
  ordered : operation.components.IsChain mayPrecede
  counted : ∀ base target, Counted operation base target ↔
    base.toNat = operation.baseLength ∧ target.toNat = operation.targetLength
  produces : ∀ text : Text, text.length = operation.baseLength →
    ∃ result, operation.apply text = .ok result ∧ result.length = operation.targetLength

theorem Built.canonical (h : operation.Built) (hfits : operation.Fits) : operation.Canonical where
  sized := ((built_iff_normal operation).mp h).sized
  ordered := ((built_iff_normal operation).mp h).ordered
  counted _ _ := counted_iff_toNat h hfits
  produces _ htext := ⟨_, apply_of_length htext, length_of_apply (apply_of_length htext)⟩

/-- Operations are equal when they do the same to the same texts. -/
theorem Built.eq_iff (h : operation.Built) (hother : other.Built) :
    operation = other ↔ operation.baseLength = other.baseLength ∧
      ∀ text : Text, text.length = operation.baseLength →
        operation.apply text = other.apply text := by
  constructor
  · rintro rfl
    exact ⟨rfl, fun _ _ => rfl⟩
  · rintro ⟨hbase, heffect⟩
    exact h.eq_of_apply_eq hother hbase heffect

theorem isNoop_keep (length : Nat) : (keep length).isNoop = true := by
  cases length <;> rfl

theorem Built.isNoop_iff_eq_keep (h : operation.Built) :
    operation.isNoop = true ↔ operation = keep operation.baseLength := by
  constructor
  · intro hnoop
    obtain ⟨components⟩ := operation
    have hnormal := (built_iff_normal _).mp h
    match components with
    | [] => rfl
    | [.retain count] => exact (ofComponents_of_normal hnormal).symm
  · intro hkeep
    rw [hkeep]
    exact isNoop_keep _

theorem Built.isNoop_iff (h : operation.Built) :
    operation.isNoop = true ↔
      ∀ text : Text, text.length = operation.baseLength → operation.apply text = .ok text := by
  rw [h.isNoop_iff_eq_keep, h.eq_iff (built_keep _), and_iff_right (baseLength_keep _).symm]
  refine forall₂_congr fun text htext => ?_
  rw [← htext, apply_keep]

/-- Equality of operations is equality of effect: whatever is made is in the one form that its
effect on the texts of its length determines. -/
theorem made_determined_by_effect (h : Made operation) (hfits : operation.Fits) :
    operation.Canonical ∧
    (∀ other : Operation, Made other →
      (operation = other ↔ operation.baseLength = other.baseLength ∧
        ∀ text : Text, text.length = operation.baseLength →
          operation.apply text = other.apply text)) ∧
    (operation.isNoop = true ↔
      ∀ text : Text, text.length = operation.baseLength → operation.apply text = .ok text) :=
  ⟨h.built.canonical hfits, fun _ hother => h.built.eq_iff hother.built, h.built.isNoop_iff⟩

/-- Text inserted between two deletions goes in front of them, as if it had been inserted first. -/
theorem made_determined_by_effect_between_deletions :
    (((empty.delete 1).insert ['x']).delete 1).Canonical ∧
      ((empty.delete 1).insert ['x']).delete 1 = (empty.insert ['x']).delete 2 := by
  obtain ⟨hcanonical, hequal, -⟩ := made_determined_by_effect
    (((Made.empty.add (.delete 1)).add (.insert ['x'])).add (.delete 1)) ⟨by decide, by decide⟩
  refine ⟨hcanonical, (hequal _ ((Made.empty.add (.insert ['x'])).add (.delete 2))).mpr ?_⟩
  refine ⟨by decide, fun text htext => ?_⟩
  obtain ⟨first, second, rfl⟩ := List.length_eq_two.mp htext
  rfl

end Operation

end Coauthor
