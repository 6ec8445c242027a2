import Coauthor.Proofs.Text.NormalForm
import Coauthor.Text.Apply

/-!
# The effect of an operation

An operation makes of every text of its base length a text of its target length.
Bringing components into normal form keeps the effect, and so does cutting one
component in two.  Conversely the effect determines the normal form: two operations
in normal form that agree on every text of a length are the same.
-/

namespace Coauthor

namespace Component

/-- No component is empty. -/
def Sized (components : List Component) : Prop := ∀ component ∈ components, 0 < component.size

theorem Sized.tail {component : Component} {rest : List Component}
    (h : Sized (component :: rest)) : Sized rest :=
  fun other hmem => h other (List.mem_cons_of_mem _ hmem)

/-- The first `used` characters of a component, as a component. -/
def front (used : Nat) : Component → Component
  | retain _ => retain used
  | insert text => insert (text.take used)
  | delete _ => delete used

theorem sized_leave {component : Component} {rest : List Component} (used : Nat)
    (h : Sized (component :: rest)) : Sized (component.leave used rest) := by
  unfold leave
  split
  · exact h.tail
  · rename_i hused
    cases component <;> intro other hmem <;> rcases List.mem_cons.mp hmem with rfl | hmem <;>
      first
        | exact h.tail _ hmem
        | (simp only [size, List.length_drop] at hused ⊢; omega)

/-- A component that is cut keeps its length over the texts that it consumes. -/
theorem baseLength_front_leave {component : Component} {used : Nat} (hused : used ≤ component.size)
    (rest : List Component) :
    (component.front used).baseLength + total baseLength (component.leave used rest) =
      component.baseLength + total baseLength rest := by
  unfold leave
  cases component <;> split <;> simp_all [front, baseLength, total, size] <;> omega

theorem targetLength_front_leave {component : Component} {used : Nat}
    (hused : used ≤ component.size) (rest : List Component) :
    (component.front used).targetLength + total targetLength (component.leave used rest) =
      component.targetLength + total targetLength rest := by
  unfold leave
  cases component <;> split <;> simp_all [front, targetLength, total, size] <;> omega

end Component

namespace Operation

open Component

/-! ## Applying cut components -/

theorem applyComponents_retain_append {before : Text} {count : Nat} (h : before.length = count)
    (rest : List Component) (after : Text) :
    applyComponents (.retain count :: rest) (before ++ after) =
      before ++ applyComponents rest after := by
  subst h
  simp [applyComponents]

theorem applyComponents_delete_append {before : Text} {count : Nat} (h : before.length = count)
    (rest : List Component) (after : Text) :
    applyComponents (.delete count :: rest) (before ++ after) = applyComponents rest after := by
  subst h
  simp [applyComponents]

theorem applyComponents_front_leave {component : Component} {used : Nat}
    (hused : used ≤ component.size) (rest : List Component) (text : Text) :
    applyComponents (component.front used :: component.leave used rest) text =
      applyComponents (component :: rest) text := by
  unfold leave
  split
  · rename_i hsize
    have hall : used = component.size := Nat.le_antisymm hused hsize
    cases component <;> simp [front, applyComponents, hall, size]
  · rename_i hsize
    cases component with
    | retain count =>
        have hcount : count = used + (count - used) := by simp only [size] at hused; omega
        conv => rhs; rw [hcount]
        simp [front, applyComponents, List.take_add, List.append_assoc]
    | insert added => simp [front, applyComponents, ← List.append_assoc]
    | delete count =>
        have hcount : used + (count - used) = count := by simp only [size] at hused; omega
        simp [front, applyComponents, hcount]

/-- The effect of a component that is attached is the effect of a component in front. -/
theorem applyComponents_attach (component : Component) (rest : List Component) (text : Text) :
    applyComponents (component.attach rest) text = applyComponents (component :: rest) text := by
  fun_cases attach component rest
  case case1 hsize => cases component <;> simp_all [applyComponents, size]
  all_goals simp [applyComponents, List.take_add]

theorem applyComponents_ofComponents (components : List Component) (text : Text) :
    applyComponents (ofComponents components).components text =
      applyComponents components text := by
  induction components generalizing text with
  | nil => rfl
  | cons component rest ih =>
      change applyComponents (component.attach (ofComponents rest).components) text = _
      rw [applyComponents_attach]
      cases component <;> simp only [applyComponents, ih]

theorem length_applyComponents {components : List Component} {text : Text}
    (h : text.length = total Component.baseLength components) :
    (applyComponents components text).length = total Component.targetLength components := by
  fun_induction applyComponents components text <;>
    simp_all [total, Component.baseLength, Component.targetLength]

/-- What a component makes of the characters it consumes stands in front of the rest. -/
theorem exists_applyComponents_append (component : Component) {before : Text}
    (h : before.length = component.baseLength) :
    ∃ produced, ∀ rest after, applyComponents (component :: rest) (before ++ after) =
      produced ++ applyComponents rest after := by
  cases component with
  | retain count => exact ⟨before, applyComponents_retain_append h⟩
  | insert added =>
      obtain rfl : before = [] := List.length_eq_zero_iff.mp h
      exact ⟨added, fun _ _ => rfl⟩
  | delete count => exact ⟨[], applyComponents_delete_append h⟩

theorem exists_append_of_le_length {length : Nat} {text : Text} (h : length ≤ text.length) :
    ∃ before after, text = before ++ after ∧ before.length = length :=
  ⟨text.take length, text.drop length, (List.take_append_drop ..).symm,
    List.length_take_of_le h⟩

theorem applyComponents_append {first : List Component} {before : Text}
    (h : before.length = total Component.baseLength first) (second : List Component)
    (after : Text) : applyComponents (first ++ second) (before ++ after) =
      applyComponents first before ++ applyComponents second after := by
  induction first generalizing before with
  | nil =>
      obtain rfl : before = [] := List.length_eq_zero_iff.mp h
      rfl
  | cons component rest ih =>
      obtain ⟨front, back, rfl, hfront⟩ := exists_append_of_le_length (Nat.le.intro h.symm)
      obtain ⟨produced, hproduced⟩ := exists_applyComponents_append component hfront
      have hback : back.length = total Component.baseLength rest := by
        simp only [total, List.length_append] at h
        omega
      rw [List.append_assoc, List.cons_append, hproduced, hproduced, ih hback, List.append_assoc]

/-! ## Equal effects -/

/-- Component lists that apply to the same texts and make the same of each of them. -/
structure Agree (first second : List Component) : Prop where
  base : total Component.baseLength first = total Component.baseLength second
  effect : ∀ text : Text, text.length = total Component.baseLength first →
    applyComponents first text = applyComponents second text

namespace Agree

variable {first second : Component} {firstRest secondRest : List Component}

theorem symm {left right : List Component} (h : Agree left right) : Agree right left :=
  ⟨h.base.symm, fun text htext => (h.effect text (htext.trans h.base.symm)).symm⟩

/-- Lists that agree still agree behind a common front. -/
theorem leave {used : Nat} (h : Agree (first :: firstRest) (second :: secondRest))
    (hfront : first.front used = second.front used)
    (hfirst : used ≤ first.size) (hsecond : used ≤ second.size) :
    Agree (first.leave used firstRest) (second.leave used secondRest) := by
  have hbaseFirst := baseLength_front_leave hfirst firstRest
  have hbaseSecond := baseLength_front_leave hsecond secondRest
  have hbase := h.base
  simp only [total] at hbase
  refine ⟨by rw [hfront] at hbaseFirst; omega, fun text htext => ?_⟩
  have hpadding : (List.replicate (first.front used).baseLength 'a').length =
      (first.front used).baseLength := List.length_replicate
  obtain ⟨produced, hproduced⟩ := exists_applyComponents_append _ hpadding
  have heffect := h.effect (List.replicate (first.front used).baseLength 'a' ++ text) (by
    simp only [List.length_append, hpadding, total]
    omega)
  rw [← applyComponents_front_leave hfirst, ← applyComponents_front_leave hsecond, ← hfront,
    hproduced, hproduced] at heffect
  exact List.append_cancel_left heffect

end Agree

end Operation

namespace Component

open Operation

variable {first second : Component} {firstRest secondRest : List Component}

theorem Normal.leave {component : Component} {rest : List Component} (used : Nat)
    (h : Normal (component :: rest)) : Normal (component.leave used rest) := by
  have hsized := sized_leave used h.sized
  unfold Component.leave at hsized ⊢
  by_cases hused : component.size ≤ used
  · simpa only [if_pos hused] using h.tail
  · simp only [if_neg hused] at hsized ⊢
    cases component with
    | retain count | insert text | delete count =>
        refine h.swap_head (hsized _ List.mem_cons_self) fun next hnext => ?_
        cases next <;> exact hnext

/-- What is left behind a proper front has the kind of the component. -/
theorem leave_of_lt {component : Component} {used : Nat} (h : used < component.size)
    (rest : List Component) : ∃ remainder, component.leave used rest = remainder :: rest ∧
      ∀ other : Component, other.front used = component.front used →
        ¬ other.mayPrecede remainder := by
  unfold Component.leave
  rw [if_neg (Nat.not_le.mpr h)]
  cases component with
  | retain count =>
      exact ⟨_, rfl, fun other hother => by cases other <;> simp_all [front, mayPrecede]⟩
  | insert text =>
      exact ⟨_, rfl, fun other hother => by cases other <;> simp_all [front, mayPrecede]⟩
  | delete count =>
      exact ⟨_, rfl, fun other hother => by cases other <;> simp_all [front, mayPrecede]⟩

theorem front_size (component : Component) : component.front component.size = component := by
  cases component <;> simp [front, size]

/-- A list in normal form that has a front of the leading component cut off is not one
that starts with a component of that kind. -/
theorem Normal.eq_of_leave_eq {used : Nat} (hfirst : Normal (first :: firstRest))
    (hfront : first.front used = second.front used) (hused : used = first.size)
    (hsecond : used ≤ second.size)
    (hleave : first.leave used firstRest = second.leave used secondRest) :
    first :: firstRest = second :: secondRest := by
  rw [leave_of_size_le (by omega)] at hleave
  rcases Nat.lt_or_eq_of_le hsecond with hlt | heq
  · obtain ⟨remainder, hremainder, hkind⟩ := leave_of_lt hlt secondRest
    rw [hremainder] at hleave
    subst hleave
    exact absurd (normal_cons_cons.mp hfirst).2.1 (hkind first hfront)
  · rw [leave_of_size_le heq.ge] at hleave
    rw [hleave, ← front_size first, ← front_size second, ← hused, ← heq, hfront]

/-! ## The first character shown -/

/-- A list that does not start with an insertion shows a character of the text first. -/
theorem Normal.mem_head?_replicate {components : List Component} (h : Normal components)
    (hinsert : ∀ added rest, components ≠ insert added :: rest) (char : Char) :
    ∀ shown ∈ (applyComponents components
      (List.replicate (total baseLength components) char)).head?, shown = char := by
  induction components with
  | nil => simp [applyComponents]
  | cons component rest ih =>
      intro shown hshown
      cases component with
      | insert added => exact absurd rfl (hinsert added rest)
      | retain count =>
          rw [total, baseLength, ← List.replicate_append_replicate,
            applyComponents_retain_append List.length_replicate] at hshown
          cases count with
          | zero => exact absurd h.size_pos (Nat.lt_irrefl 0)
          | succ count => simpa [List.replicate_succ, eq_comm] using hshown
      | delete count =>
          rw [total, baseLength, ← List.replicate_append_replicate,
            applyComponents_delete_append List.length_replicate] at hshown
          refine ih h.tail ?_ shown hshown
          rintro added tail rfl
          exact (normal_cons_cons.mp h).2.1

theorem not_agree_insert {added : Text} {rest other : List Component}
    (h : Normal (insert added :: rest)) (hother : Normal other)
    (hinsert : ∀ text tail, other ≠ insert text :: tail) :
    ¬ Agree (insert added :: rest) other := by
  intro hagree
  obtain ⟨first, more, rfl⟩ := List.exists_cons_of_length_pos h.size_pos
  -- A text of another character tells what is inserted from what is shown of the text.
  obtain ⟨char, hchar⟩ : ∃ char : Char, first ≠ char :=
    if hfirst : first = 'a' then ⟨'b', by simp [hfirst]⟩ else ⟨'a', hfirst⟩
  have heffect := hagree.effect (List.replicate (total baseLength other) char) (by
    rw [List.length_replicate, hagree.base])
  apply hchar
  apply hother.mem_head?_replicate hinsert char
  simp [← heffect, applyComponents]

theorem not_agree_retain_delete {kept cut : Nat} {keptRest cutRest : List Component}
    (hkept : Normal (retain kept :: keptRest)) (hcut : Normal (delete cut :: cutRest)) :
    ¬ Agree (retain kept :: keptRest) (delete cut :: cutRest) := by
  intro hagree
  obtain ⟨keptMore, rfl⟩ := Nat.exists_eq_succ_of_ne_zero hkept.size_pos.ne'
  obtain ⟨cutMore, rfl⟩ := Nat.exists_eq_succ_of_ne_zero hcut.size_pos.ne'
  -- The retained part shows the first character, which the deletion has removed.
  have heffect := hagree.effect
    ('a' :: List.replicate cutMore 'b' ++ List.replicate (total baseLength cutRest) 'b') (by
      rw [hagree.base]
      simp only [List.length_append, List.length_cons, List.length_replicate, total, baseLength])
  rw [applyComponents_delete_append (by simp)] at heffect
  have hshown : 'a' = 'b' := by
    refine hcut.tail.mem_head?_replicate ?_ 'b' 'a' ?_
    · rintro added tail rfl
      exact (normal_cons_cons.mp hcut).2.1
    · simp [← heffect, applyComponents]
  exact absurd hshown (by decide)

/-! ## The effect determines the normal form -/

theorem Normal.front_eq_of_agree (hfirst : Normal (first :: firstRest))
    (hsecond : Normal (second :: secondRest))
    (hagree : Agree (first :: firstRest) (second :: secondRest)) {used : Nat}
    (hused : used ≤ first.size ∧ used ≤ second.size) :
    first.front used = second.front used := by
  cases first <;> cases second
  case retain.retain => rfl
  case delete.delete => rfl
  case retain.delete => exact absurd hagree (not_agree_retain_delete hfirst hsecond)
  case delete.retain => exact absurd hagree.symm (not_agree_retain_delete hsecond hfirst)
  case insert.insert text other =>
      have heffect := hagree.effect
        (List.replicate (total baseLength (insert text :: firstRest)) 'a') List.length_replicate
      simp only [applyComponents] at heffect
      have htake := congrArg (List.take used) heffect
      rw [List.take_append_of_le_length hused.1, List.take_append_of_le_length hused.2] at htake
      exact congrArg insert htake
  case insert.retain => exact absurd hagree (not_agree_insert hfirst hsecond (by simp))
  case insert.delete => exact absurd hagree (not_agree_insert hfirst hsecond (by simp))
  case retain.insert => exact absurd hagree.symm (not_agree_insert hsecond hfirst (by simp))
  case delete.insert => exact absurd hagree.symm (not_agree_insert hsecond hfirst (by simp))

theorem Normal.not_agree_nil (h : Normal (first :: firstRest)) :
    ¬ Agree (first :: firstRest) [] := by
  intro hagree
  have hsize := h.size_pos
  have hbase := hagree.base
  cases first with
  | insert text => exact not_agree_insert h normal_nil (by simp) hagree
  | retain count => simp only [total, baseLength, size] at hbase hsize; omega
  | delete count => simp only [total, baseLength, size] at hbase hsize; omega

/-- Two lists in normal form that make the same of every text are the same. -/
theorem Normal.eq_of_agree {left right : List Component} (hleft : Normal left)
    (hright : Normal right) (hagree : Agree left right) : left = right := by
  match left, right with
  | [], [] => rfl
  | first :: firstRest, [] => exact absurd hagree hleft.not_agree_nil
  | [], second :: secondRest => exact absurd hagree.symm hright.not_agree_nil
  | first :: firstRest, second :: secondRest =>
      -- What both leading components speak of is cut off; the rest agrees again.
      let used := min first.size second.size
      have hused : used ≤ first.size ∧ used ≤ second.size :=
        ⟨Nat.min_le_left .., Nat.min_le_right ..⟩
      have hfront := hleft.front_eq_of_agree hright hagree hused
      have hleave := Normal.eq_of_agree (hleft.leave used) (hright.leave used)
        (hagree.leave hfront hused.1 hused.2)
      rcases Nat.le_total first.size second.size with hle | hle
      · exact hleft.eq_of_leave_eq hfront (Nat.min_eq_left hle) hused.2 hleave
      · exact (hright.eq_of_leave_eq hfront.symm (Nat.min_eq_right hle) hused.1 hleave.symm).symm
termination_by left.length + right.length
decreasing_by exact leave_both_shorter first second firstRest secondRest

end Component

namespace Operation

variable {operation : Operation} {text result : Text}

theorem apply_eq_ok_iff : operation.apply text = .ok result ↔
    text.length = operation.baseLength ∧ applyComponents operation.components text = result := by
  by_cases h : text.length = operation.baseLength <;>
    simp [apply, checkBase, h, bind, Except.bind, pure, Except.pure]

theorem apply_of_length (h : text.length = operation.baseLength) :
    operation.apply text = .ok (applyComponents operation.components text) :=
  apply_eq_ok_iff.mpr ⟨h, rfl⟩

theorem length_of_apply (h : operation.apply text = .ok result) :
    result.length = operation.targetLength := by
  obtain ⟨hlength, rfl⟩ := apply_eq_ok_iff.mp h
  exact length_applyComponents hlength

/-- Operations that make the same of every text of one length are equal. -/
theorem Built.eq_of_apply_eq {left right : Operation} (hleft : left.Built) (hright : right.Built)
    (hbase : left.baseLength = right.baseLength)
    (heffect : ∀ text : Text, text.length = left.baseLength → left.apply text = right.apply text) :
    left = right := by
  have hnormalLeft := (built_iff_normal left).mp hleft
  have hnormalRight := (built_iff_normal right).mp hright
  have hagree : Agree left.components right.components := by
    refine ⟨hbase, fun text htext => ?_⟩
    have hsame := heffect text htext
    rw [apply_of_length htext, apply_of_length (htext.trans hbase)] at hsame
    exact Except.ok.inj hsame
  exact congrArg Operation.mk (hnormalLeft.eq_of_agree hnormalRight hagree)

end Operation

end Coauthor
