import Coauthor.Proofs.Text.Effect

/-!
# Inverses

The components of an inverse follow those of the operation one by one, while the text is consumed
in step: what was retained is retained, what was inserted is deleted, and what was deleted is
inserted from the text.  Inverting these components on the edited text gives back the components
themselves.  In between they are brought into normal form, which moves restored text in front of
an adjacent deletion; but inverses of components with one effect have one effect, so it makes no
difference.
-/

namespace Coauthor

namespace Component

/-- The components consume the text exactly. -/
inductive Walks : List Component → Text → Prop where
  | nil : Walks [] []
  | retain {rest : List Component} {after : Text} (kept : Text) (h : Walks rest after) :
      Walks (.retain kept.length :: rest) (kept ++ after)
  | insert {rest : List Component} {text : Text} (added : Text) (h : Walks rest text) :
      Walks (.insert added :: rest) text
  | delete {rest : List Component} {after : Text} (cut : Text) (h : Walks rest after) :
      Walks (.delete cut.length :: rest) (cut ++ after)

end Component

namespace Operation

open Component

variable {operation inverse : Operation} {text : Text} {components first second : List Component}

theorem walks_of_length (h : text.length = total Component.baseLength components) :
    Walks components text := by
  induction components generalizing text with
  | nil => exact List.length_eq_zero_iff.mp h ▸ .nil
  | cons component rest ih =>
      obtain ⟨before, after, rfl, hbefore⟩ := exists_append_of_le_length (Nat.le.intro h.symm)
      have hafter : Walks rest after := ih (by
        simp only [total, List.length_append] at h
        omega)
      cases component with
      | retain count =>
          obtain rfl : before.length = count := hbefore
          exact .retain before hafter
      | insert added =>
          obtain rfl : before = [] := List.length_eq_zero_iff.mp hbefore
          exact .insert added hafter
      | delete count =>
          obtain rfl : before.length = count := hbefore
          exact .delete before hafter

/-! ## Inverse components -/

theorem baseLength_invertComponents (components : List Component) (text : Text) :
    total Component.baseLength (invertComponents components text) =
      total Component.targetLength components := by
  fun_induction invertComponents components text <;>
    simp_all [total, Component.baseLength, Component.targetLength]

theorem targetLength_invertComponents (h : Walks components text) :
    total Component.targetLength (invertComponents components text) =
      total Component.baseLength components := by
  induction h with
  | nil => rfl
  | retain kept h ih | insert added h ih | delete cut h ih =>
      simp [invertComponents, total, Component.baseLength, Component.targetLength, ih]

/-- The inverse components restore the text. -/
theorem applyComponents_invertComponents (h : Walks components text) :
    applyComponents (invertComponents components text) (applyComponents components text) =
      text := by
  induction h with
  | nil => rfl
  | retain kept h ih | insert added h ih | delete cut h ih =>
      simp [invertComponents, applyComponents, ih]

/-- The inverse of the inverse consists of the components that were inverted. -/
theorem invertComponents_invertComponents (h : Walks components text) :
    invertComponents (invertComponents components text) (applyComponents components text) =
      components := by
  induction h with
  | nil => rfl
  | retain kept h ih | insert added h ih | delete cut h ih =>
      simp [invertComponents, applyComponents, ih]

/-! ## Normal form -/

/-- Components with one effect have one normal form. -/
theorem ofComponents_eq_of_agree (h : Agree first second) :
    ofComponents first = ofComponents second := by
  apply (built_ofComponents first).eq_of_apply_eq (built_ofComponents second)
  · rw [baseLength_ofComponents, baseLength_ofComponents, h.base]
  · intro text htext
    rw [baseLength_ofComponents] at htext
    rw [apply_of_length (htext.trans (baseLength_ofComponents first).symm),
      apply_of_length (htext.trans (h.base.trans (baseLength_ofComponents second).symm)),
      applyComponents_ofComponents, applyComponents_ofComponents, h.effect text htext]

/-- The inverse of what is attached has the effect of the inverse of a component in front. -/
theorem agree_invertComponents_attach (component : Component) (rest : List Component)
    (text : Text) : Agree (invertComponents (component.attach rest) text)
      (invertComponents (component :: rest) text) where
  base := by
    rw [baseLength_invertComponents, baseLength_invertComponents, targetLength_attach]
    rfl
  effect := by
    intro edited _
    fun_cases attach component rest
    case case1 hsize => cases component <;> simp_all [invertComponents, applyComponents, size]
    all_goals simp [invertComponents, applyComponents, List.take_add, List.drop_drop]

theorem ofComponents_cons_congr (component : Component)
    (h : ofComponents first = ofComponents second) :
    ofComponents (component :: first) = ofComponents (component :: second) := by
  change Operation.mk (component.attach (ofComponents first).components) = _
  rw [h]
  rfl

/-- Components may be brought into normal form before they are inverted. -/
theorem ofComponents_invertComponents (components : List Component) (text : Text) :
    ofComponents (invertComponents (ofComponents components).components text) =
      ofComponents (invertComponents components text) := by
  induction components generalizing text with
  | nil => rfl
  | cons component rest ih =>
      have hattach := ofComponents_eq_of_agree
        (agree_invertComponents_attach component (ofComponents rest).components text)
      refine hattach.trans ?_
      cases component with
      | retain count | insert added | delete count => exact ofComponents_cons_congr _ (ih _)

/-! ## Inverses -/

theorem invert_of_length (h : text.length = operation.baseLength) :
    operation.invert text =
      .ok (ofComponents (invertComponents operation.components text)) := by
  simp [invert, checkBase, h, bind, Except.bind, pure, Except.pure]

theorem invert_of_ne (h : text.length ≠ operation.baseLength) :
    operation.invert text = .error (.baseLengthMismatch operation.baseLength text.length) := by
  simp [invert, checkBase, h, bind, Except.bind]

/-- `inverse` takes the text that the operation makes of `text` back to `text`, and is taken back
itself by the operation. -/
structure Inverts (operation : Operation) (text : Text) (inverse : Operation) : Prop where
  normal : Normal inverse.components
  base : inverse.baseLength = operation.targetLength
  target : inverse.targetLength = operation.baseLength
  restores : ∃ edited, operation.apply text = .ok edited ∧ inverse.apply edited = .ok text ∧
    inverse.invert edited = .ok operation

theorem inverts_invertComponents (hnormal : Normal operation.components)
    (h : text.length = operation.baseLength) :
    Inverts operation text (ofComponents (invertComponents operation.components text)) := by
  have hwalks : Walks operation.components text := walks_of_length h
  have hbase : (ofComponents (invertComponents operation.components text)).baseLength =
      operation.targetLength :=
    (baseLength_ofComponents _).trans (baseLength_invertComponents ..)
  have hedited : (applyComponents operation.components text).length = operation.targetLength :=
    length_applyComponents h
  refine ⟨normal_ofComponents _, hbase,
    (targetLength_ofComponents _).trans (targetLength_invertComponents hwalks),
    _, apply_of_length h, ?_, ?_⟩
  · rw [apply_of_length (hedited.trans hbase.symm), applyComponents_ofComponents,
      applyComponents_invertComponents hwalks]
  · rw [invert_of_length (hedited.trans hbase.symm), ofComponents_invertComponents,
      invertComponents_invertComponents hwalks, ofComponents_of_normal hnormal]

/-- An operation in normal form can be inverted on the texts that it applies to and on no others.
The inverse restores the text, and its own inverse on the edited text is the operation. -/
theorem invert_exact (hnormal : Normal operation.components) (text : Text) :
    ((∃ inverse, operation.invert text = .ok inverse) ↔ text.length = operation.baseLength) ∧
      ∀ inverse, operation.invert text = .ok inverse → Inverts operation text inverse := by
  by_cases h : text.length = operation.baseLength
  · refine ⟨iff_of_true ⟨_, invert_of_length h⟩ h, fun inverse hinvert => ?_⟩
    obtain rfl := Except.ok.inj ((invert_of_length h).symm.trans hinvert)
    exact inverts_invertComponents hnormal h
  · have herror := invert_of_ne h
    refine ⟨iff_of_false ?_ h, fun inverse hinvert => ?_⟩
    · rintro ⟨inverse, hinvert⟩
      cases herror.symm.trans hinvert
    · cases herror.symm.trans hinvert

/-- What is inserted and what is deleted at one place change roles. -/
theorem invert_exact_replaced :
    ∃ inverse, (ofComponents [.retain 1, .delete 1, .insert ['x', 'y'], .retain 1]).invert
        ['a', 'b', 'c'] = .ok inverse ∧
      inverse.components = [.retain 1, .insert ['b'], .delete 2, .retain 1] ∧
      inverse.invert ['a', 'x', 'y', 'c'] =
        .ok ⟨[.retain 1, .insert ['x', 'y'], .delete 1, .retain 1]⟩ := by
  obtain ⟨hiff, hinverts⟩ := invert_exact
    (normal_ofComponents [.retain 1, .delete 1, .insert ['x', 'y'], .retain 1]) ['a', 'b', 'c']
  obtain ⟨inverse, hinvert⟩ := hiff.mpr (by decide)
  obtain ⟨edited, hedited, -, hback⟩ := (hinverts inverse hinvert).restores
  obtain rfl : ['a', 'x', 'y', 'c'] = edited := Except.ok.inj hedited
  obtain rfl := Except.ok.inj (hinvert.symm.trans (invert_of_length (by decide)))
  exact ⟨_, hinvert, by decide, hback⟩

end Operation

end Coauthor
