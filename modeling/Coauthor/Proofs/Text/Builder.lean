import Coauthor.Proofs.Text.Effect

/-!
# Building operations

Adding components one at a time gives the operation that the whole list gives at once, however
insertions and deletions follow one another: what is added behind a list in normal form ends up
where it would have been attached from the other side.  The lengths that are counted along the way
are the lengths of the operation, as long as the words in which they are counted can hold them.
-/

namespace Coauthor

namespace Component

variable {first next component : Component} {components rest : List Component}

/-- Only the last two components matter to one that is joined behind them. -/
theorem join_cons_cons_cons (first next last component : Component) (rest : List Component) :
    join (first :: next :: last :: rest) component =
      first :: join (next :: last :: rest) component := by
  simp [join]

/-- The first of two components or more keeps its kind. -/
theorem exists_join_cons_cons (first next component : Component) (rest : List Component) :
    ∃ head tail, join (first :: next :: rest) component = head :: tail ∧
      ∀ other : Component, other.mayPrecede first → other.mayPrecede head := by
  cases rest with
  | cons last rest => exact ⟨_, _, join_cons_cons_cons .., fun other hother => hother⟩
  | nil =>
      cases first <;> cases next <;> cases component <;>
        exact ⟨_, _, rfl, fun other hother => by cases other <;> exact hother⟩

theorem join_cons (h : Normal (first :: rest)) (hsize : 0 < component.size) :
    join (first :: rest) component = first.attach (join rest component) := by
  have hfirst : first.size ≠ 0 := h.size_pos.ne'
  cases rest with
  | nil => cases first <;> cases component <;> simp_all [attach, join]
  | cons next rest =>
      have hnext : first.mayPrecede next := (normal_cons_cons.mp h).2.1
      cases rest with
      | nil =>
          cases first <;> cases next <;> cases component <;>
            simp_all [attach, join, mayPrecede, size]
      | cons last rest =>
          obtain ⟨head, tail, hjoin, hhead⟩ := exists_join_cons_cons next last component rest
          rw [join_cons_cons_cons, hjoin, attach_of_mayPrecede h.size_pos (hhead first hnext)]

/-- What is pushed behind a list in normal form stands where it is attached before the list. -/
theorem push_eq_foldr_attach (h : Normal components) (component : Component) :
    push components component = (components ++ [component]).foldr attach [] := by
  rw [push, List.foldr_append, List.foldr_cons, List.foldr_nil]
  split_ifs with hsize
  · rw [attach_of_size_eq_zero hsize]
    exact (congrArg Operation.components (Operation.ofComponents_of_normal h)).symm
  · have hpos : 0 < component.size := Nat.pos_of_ne_zero hsize
    rw [attach_of_normal (normal_singleton.mpr hpos)]
    induction components with
    | nil => rfl
    | cons first rest ih => rw [join_cons h hpos, ih h.tail, List.foldr_cons]

end Component

namespace Operation

open Component

variable {operation : Operation} {components : List Component}

theorem Built.add_eq (h : operation.Built) (component : Component) :
    operation.add component = ofComponents (operation.components ++ [component]) :=
  congrArg Operation.mk (push_eq_foldr_attach ((built_iff_normal operation).mp h) component)

theorem Built.add (h : operation.Built) (component : Component) :
    (operation.add component).Built :=
  h.add_eq component ▸ built_ofComponents _

/-- Components may be brought into normal form before others follow them. -/
theorem ofComponents_append (first second : List Component) :
    ofComponents ((ofComponents first).components ++ second) = ofComponents (first ++ second) := by
  have hbase : total Component.baseLength (ofComponents first).components =
      total Component.baseLength first := baseLength_ofComponents first
  apply (built_ofComponents _).eq_of_apply_eq (built_ofComponents _)
  · rw [baseLength_ofComponents, baseLength_ofComponents, total_append, total_append, hbase]
  · intro text htext
    have htotal : text.length = total Component.baseLength (first ++ second) := by
      rw [htext, baseLength_ofComponents, total_append, total_append, hbase]
    rw [apply_of_length htext, apply_of_length (htotal.trans (baseLength_ofComponents _).symm),
      applyComponents_ofComponents, applyComponents_ofComponents]
    rw [total_append] at htotal
    obtain ⟨before, after, rfl, hbefore⟩ := exists_append_of_le_length (Nat.le.intro htotal.symm)
    rw [applyComponents_append hbefore, applyComponents_append (hbefore.trans hbase.symm),
      applyComponents_ofComponents]

theorem ofComponents_concat (components : List Component) (component : Component) :
    ofComponents (components ++ [component]) = (ofComponents components).add component :=
  (((built_ofComponents components).add_eq component).trans (ofComponents_append ..)).symm

/-- Adding one component after the other gives what the whole list gives. -/
theorem foldl_add_eq_ofComponents (components : List Component) :
    components.foldl add empty = ofComponents components := by
  induction components using List.reverseRecOn with
  | nil => rfl
  | append_singleton components component ih =>
      rw [List.foldl_append, ih, ofComponents_concat]
      rfl

/-! ## Counted lengths -/

/-- An operation that is made by adding components, and the two lengths that are counted
meanwhile, in words of 64 bits. -/
inductive Counted : Operation → UInt64 → UInt64 → Prop where
  | empty : Counted .empty 0 0
  | add {operation : Operation} {base target : UInt64} (h : Counted operation base target)
      (component : Component) :
      Counted (operation.add component) (base + .ofNat component.baseLength)
        (target + .ofNat component.targetLength)

theorem Built.baseLength_add (h : operation.Built) (component : Component) :
    (operation.add component).baseLength = operation.baseLength + component.baseLength := by
  rw [h.add_eq, baseLength_ofComponents, total_append]
  rfl

theorem Built.targetLength_add (h : operation.Built) (component : Component) :
    (operation.add component).targetLength = operation.targetLength + component.targetLength := by
  rw [h.add_eq, targetLength_ofComponents, total_append]
  rfl

/-- Whatever is made by adding components has counted its lengths, modulo the size of the words. -/
theorem counted_iff {base target : UInt64} :
    Counted operation base target ↔
      operation.Built ∧ base = .ofNat operation.baseLength ∧
        target = .ofNat operation.targetLength := by
  constructor
  · intro h
    induction h with
    | empty => exact ⟨built_empty, rfl, rfl⟩
    | add h component ih =>
        obtain ⟨hbuilt, rfl, rfl⟩ := ih
        refine ⟨hbuilt.add component, ?_, ?_⟩
        · rw [hbuilt.baseLength_add, UInt64.ofNat_add]
        · rw [hbuilt.targetLength_add, UInt64.ofNat_add]
  · rintro ⟨⟨components, rfl⟩, rfl, rfl⟩
    induction components using List.reverseRecOn with
    | nil => exact .empty
    | append_singleton components component ih =>
        have hbuilt := built_ofComponents components
        rw [ofComponents_concat, hbuilt.baseLength_add, hbuilt.targetLength_add, UInt64.ofNat_add,
          UInt64.ofNat_add]
        exact ih.add component

/-- Words of 64 bits can hold both lengths of the operation. -/
structure Fits (operation : Operation) : Prop where
  base : operation.baseLength < lengthLimit
  target : operation.targetLength < lengthLimit

/-- Lengths that the words can hold are counted exactly, whatever was added in which order. -/
theorem counted_iff_toNat (h : operation.Built) (hfits : operation.Fits) {base target : UInt64} :
    Counted operation base target ↔
      base.toNat = operation.baseLength ∧ target.toNat = operation.targetLength := by
  have hbase := UInt64.toNat_ofNat_of_lt' hfits.base
  have htarget := UInt64.toNat_ofNat_of_lt' hfits.target
  rw [counted_iff, ← UInt64.toNat_inj, ← UInt64.toNat_inj, hbase, htarget]
  exact and_iff_right h

end Operation

end Coauthor
