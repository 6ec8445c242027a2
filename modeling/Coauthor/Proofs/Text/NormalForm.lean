import Coauthor.Text.Wire
import Mathlib.Data.List.Chain
import Mathlib.Tactic.Common

/-!
# The normal form of operations

No component is empty, neighbours differ in kind, and nothing is inserted directly
behind a deletion.  Attaching a component keeps this form and leaves a list alone
that has it already, so the operations that can be built are exactly those in normal
form.  The lengths of an operation are the sums over the components it was built
from.
-/

namespace Coauthor

namespace Component

/-- The first component may stand directly in front of the second. -/
def mayPrecede : Component → Component → Prop
  | retain _, retain _ => False
  | insert _, insert _ => False
  | delete _, retain _ => True
  | delete _, _ => False
  | _, _ => True

/-- The normal form of component lists. -/
structure Normal (components : List Component) : Prop where
  sized : ∀ component ∈ components, 0 < component.size
  ordered : components.IsChain mayPrecede

theorem normal_nil : Normal [] := ⟨by simp, .nil⟩

theorem normal_singleton {component : Component} :
    Normal [component] ↔ 0 < component.size :=
  ⟨fun h => h.sized component (by simp), fun h => ⟨by simpa using h, .singleton _⟩⟩

theorem normal_cons_cons {first second : Component} {rest : List Component} :
    Normal (first :: second :: rest) ↔
      0 < first.size ∧ first.mayPrecede second ∧ Normal (second :: rest) := by
  constructor
  · intro h
    have hordered := List.isChain_cons_cons.mp h.ordered
    exact ⟨h.sized first (by simp), hordered.1,
      fun component hmem => h.sized component (List.mem_cons_of_mem _ hmem), hordered.2⟩
  · rintro ⟨hsize, hfirst, hrest⟩
    exact ⟨List.forall_mem_cons.mpr ⟨hsize, hrest.sized⟩,
      List.isChain_cons_cons.mpr ⟨hfirst, hrest.ordered⟩⟩

theorem Normal.size_pos {component : Component} {rest : List Component}
    (h : Normal (component :: rest)) : 0 < component.size :=
  h.sized component (by simp)

theorem Normal.tail {component : Component} {rest : List Component}
    (h : Normal (component :: rest)) : Normal rest :=
  ⟨fun other hmem => h.sized other (List.mem_cons_of_mem _ hmem), h.ordered.of_cons⟩

/-- What may stand in front of a list depends on the kind of its first component. -/
theorem Normal.swap_head {first second : Component} {rest : List Component}
    (h : Normal (first :: rest)) (hsize : 0 < second.size)
    (hkind : ∀ next, first.mayPrecede next → second.mayPrecede next) :
    Normal (second :: rest) := by
  cases rest with
  | nil => exact normal_singleton.mpr hsize
  | cons next rest =>
      obtain ⟨-, hfirst, hrest⟩ := normal_cons_cons.mp h
      exact normal_cons_cons.mpr ⟨hsize, hkind next hfirst, hrest⟩

/-! ## Attaching a component -/

theorem attach_of_size_eq_zero {component : Component} (h : component.size = 0)
    (rest : List Component) : component.attach rest = rest := by
  simp [attach, h]

theorem normal_attach (component : Component) {rest : List Component} (hrest : Normal rest) :
    Normal (component.attach rest) := by
  by_cases hsize : component.size = 0
  · rwa [attach_of_size_eq_zero hsize]
  have hpos : 0 < component.size := Nat.pos_of_ne_zero hsize
  unfold attach
  rw [if_neg hsize]
  split
  case h_1 count more tail =>
      exact hrest.swap_head (Nat.add_pos_left hpos more) fun next hnext => by
        cases next <;> exact hnext
  case h_2 text more tail =>
      have hmerged : 0 < (Component.insert (text ++ more)).size := by
        simp only [size, List.length_append] at hpos ⊢
        omega
      exact hrest.swap_head hmerged fun next hnext => by cases next <;> exact hnext
  case h_3 count more tail =>
      exact hrest.swap_head (Nat.add_pos_left hpos more) fun next hnext => by
        cases next <;> exact hnext
  case h_4 count text more tail =>
      refine normal_cons_cons.mpr ⟨hrest.size_pos, trivial, ?_⟩
      exact hrest.tail.swap_head (Nat.add_pos_left hpos more) fun next hnext => by
        cases next <;> exact hnext
  case h_5 count text tail htail =>
      refine normal_cons_cons.mpr ⟨hrest.size_pos, trivial, ?_⟩
      -- Behind an insertion that no deletion follows there is a retained part or nothing.
      cases tail with
      | nil => exact normal_singleton.mpr hpos
      | cons next tail =>
          obtain ⟨-, hnext, htailNormal⟩ := normal_cons_cons.mp hrest
          refine normal_cons_cons.mpr ⟨hpos, ?_, htailNormal⟩
          cases next with
          | retain => trivial
          | insert => exact hnext.elim
          | delete => exact (htail _ _ rfl).elim
  case h_6 hretain hinsert hdelete hswap hskip =>
      cases rest with
      | nil => exact normal_singleton.mpr hpos
      | cons next rest =>
          refine normal_cons_cons.mpr ⟨hpos, ?_, hrest⟩
          cases component <;> cases next <;> simp_all [mayPrecede]

/-- A component is attached as it is to one that it may precede. -/
theorem attach_of_mayPrecede {component next : Component} (hsize : 0 < component.size)
    (hnext : component.mayPrecede next) (rest : List Component) :
    component.attach (next :: rest) = component :: next :: rest := by
  unfold attach
  rw [if_neg hsize.ne']
  cases component <;> cases next <;> first | rfl | exact hnext.elim

/-- A list in normal form is attached as it is. -/
theorem attach_of_normal {component : Component} {rest : List Component}
    (h : Normal (component :: rest)) : component.attach rest = component :: rest := by
  cases rest with
  | nil =>
      unfold attach
      rw [if_neg h.size_pos.ne']
      cases component <;> rfl
  | cons next rest => exact attach_of_mayPrecede h.size_pos (normal_cons_cons.mp h).2.1 rest

/-! ## Lengths -/

theorem total_append (measure : Component → Nat) (first second : List Component) :
    total measure (first ++ second) = total measure first + total measure second := by
  induction first with
  | nil => simp [total]
  | cons component rest ih => simp only [List.cons_append, total, ih]; omega

/-- Attaching only merges and reorders, so it keeps every measure that merging keeps. -/
theorem total_attach {measure : Component → Nat}
    (hempty : ∀ component : Component, component.size = 0 → measure component = 0)
    (hretain : ∀ count more, measure (retain (count + more)) =
      measure (retain count) + measure (retain more))
    (hinsert : ∀ text more, measure (insert (text ++ more)) =
      measure (insert text) + measure (insert more))
    (hdelete : ∀ count more, measure (delete (count + more)) =
      measure (delete count) + measure (delete more))
    (component : Component) (rest : List Component) :
    total measure (component.attach rest) = measure component + total measure rest := by
  fun_cases attach component rest
  case case1 hsize => simp [hempty _ hsize]
  all_goals simp only [total, hretain, hinsert, hdelete]; try omega

theorem baseLength_attach (component : Component) (rest : List Component) :
    total baseLength (component.attach rest) = component.baseLength + total baseLength rest :=
  total_attach (fun component h => by cases component <;> simp_all [size, baseLength])
    (fun _ _ => rfl) (fun _ _ => rfl) (fun _ _ => rfl) component rest

theorem targetLength_attach (component : Component) (rest : List Component) :
    total targetLength (component.attach rest) =
      component.targetLength + total targetLength rest :=
  total_attach (fun component h => by cases component <;> simp_all [size, targetLength])
    (fun _ _ => rfl) (fun _ _ => List.length_append) (fun _ _ => rfl) component rest

end Component

namespace Operation

open Component

/-- What the builder and the decoder make: every operation that comes from raw components. -/
def Built (operation : Operation) : Prop := ∃ components, ofComponents components = operation

theorem normal_ofComponents (components : List Component) :
    Normal (ofComponents components).components := by
  induction components with
  | nil => exact normal_nil
  | cons component rest ih => exact normal_attach component ih

theorem ofComponents_of_normal {components : List Component} (h : Normal components) :
    ofComponents components = ⟨components⟩ := by
  induction components with
  | nil => rfl
  | cons component rest ih =>
      have hrest : rest.foldr attach [] = rest := congrArg Operation.components (ih h.tail)
      simp only [ofComponents, List.foldr_cons, hrest, attach_of_normal h]

theorem built_iff_normal (operation : Operation) :
    operation.Built ↔ Normal operation.components := by
  constructor
  · rintro ⟨components, rfl⟩
    exact normal_ofComponents components
  · intro h
    exact ⟨operation.components, ofComponents_of_normal h⟩

theorem built_ofComponents (components : List Component) : (ofComponents components).Built :=
  ⟨components, rfl⟩

theorem built_empty : empty.Built := ⟨[], rfl⟩

theorem built_of_read {value : Json} {operation : Operation} (h : read value = .ok operation) :
    operation.Built := by
  unfold read at h
  split at h
  · cases h
  · rename_i elements _
    cases hcheck : WireComponent.checkAll 0 0 elements with
    | error error => simp [hcheck, bind, Except.bind] at h
    | ok =>
        simp only [hcheck, bind, Except.bind, pure, Except.pure, Except.ok.injEq] at h
        exact ⟨_, h⟩

@[simp]
theorem baseLength_ofComponents (components : List Component) :
    (ofComponents components).baseLength = total Component.baseLength components := by
  induction components with
  | nil => rfl
  | cons component rest ih =>
      simp only [total, ← ih]
      exact baseLength_attach component _

@[simp]
theorem targetLength_ofComponents (components : List Component) :
    (ofComponents components).targetLength = total Component.targetLength components := by
  induction components with
  | nil => rfl
  | cons component rest ih =>
      simp only [total, ← ih]
      exact targetLength_attach component _

end Operation

end Coauthor
