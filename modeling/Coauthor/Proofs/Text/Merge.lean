import Coauthor.Proofs.Text.Composition
import Coauthor.Text.Transform

/-!
# Transformation merges concurrent operations

Two operations made on one text say for each gap of it what they insert there, and for
each character whether they keep it.  Their merge goes over the gaps from left to right:
at each it shows the left insertion, then the right one, then the next character if both
keep it.  Carrying the operations over each other leads to this text, whichever of them
is applied first.
-/

namespace Coauthor

namespace Component

open Operation

/-- What a list of components inserts in front of the character at `gap`, or at the end
of the text. -/
def insertedAt : List Component → Nat → Text
  | [], _ => []
  | insert text :: rest, gap => (if gap = 0 then text else []) ++ insertedAt rest gap
  | retain count :: rest, gap => if gap < count then [] else insertedAt rest (gap - count)
  | delete count :: rest, gap => if gap < count then [] else insertedAt rest (gap - count)

/-- A list of components retains the character at `index`. -/
def keeps : List Component → Nat → Bool
  | [], _ => false
  | insert _ :: rest, index => keeps rest index
  | retain count :: rest, index => if index < count then true else keeps rest (index - count)
  | delete count :: rest, index => if index < count then false else keeps rest (index - count)

/-- The merge of two lists of components from a gap on, over what follows the gap. -/
def mergeFrom (left right : List Component) (gap : Nat) : Text → Text
  | [] => insertedAt left gap ++ insertedAt right gap
  | char :: rest =>
      insertedAt left gap ++ insertedAt right gap ++
        (if keeps left gap && keeps right gap then [char] else []) ++
          mergeFrom left right (gap + 1) rest

variable {left right : List Component}

/-! ## Reading gap by gap -/

/-- From a gap on, two lists say the same once the gaps of the first are counted on by
`shift`. -/
def Shifted (shift gap : Nat) (longer shorter : List Component) : Prop :=
  ∀ index, gap ≤ index → insertedAt longer (shift + index) = insertedAt shorter index ∧
    keeps longer (shift + index) = keeps shorter index

theorem Shifted.refl (gap : Nat) (components : List Component) :
    Shifted 0 gap components components := by
  intro index _
  simp

theorem shifted_insert (text : Text) (rest : List Component) :
    Shifted 0 1 (insert text :: rest) rest := by
  intro index hindex
  simp [insertedAt, keeps, Nat.pos_iff_ne_zero.mp hindex]

theorem shifted_of_insert_free {component : Component} (h : ∀ text, component ≠ insert text)
    (rest : List Component) : Shifted component.baseLength 0 (component :: rest) rest := by
  intro index _
  cases component with
  | insert text => exact absurd rfl (h text)
  | _ => simp [insertedAt, keeps, baseLength]

theorem mergeFrom_of_shifted {shift gap : Nat} {longerLeft longerRight : List Component}
    (hleft : Shifted shift gap longerLeft left) (hright : Shifted shift gap longerRight right)
    (text : Text) :
    mergeFrom longerLeft longerRight (shift + gap) text = mergeFrom left right gap text := by
  induction text generalizing gap with
  | nil =>
      simp only [mergeFrom]
      rw [(hleft gap le_rfl).1, (hright gap le_rfl).1]
  | cons char rest ih =>
      have hrest : mergeFrom longerLeft longerRight (shift + (gap + 1)) rest =
          mergeFrom left right (gap + 1) rest :=
        ih (fun index hindex => hleft index (by omega))
          (fun index hindex => hright index (by omega))
      simp only [mergeFrom]
      rw [(hleft gap le_rfl).1, (hright gap le_rfl).1, (hleft gap le_rfl).2,
        (hright gap le_rfl).2, Nat.add_assoc, hrest]

/-- Before the end of a leading component nothing is inserted, and its kind decides. -/
theorem insertedAt_of_lt {component : Component} {index : Nat} (h : index < component.baseLength)
    (rest : List Component) : insertedAt (component :: rest) index = [] := by
  cases component <;> simp_all [insertedAt, baseLength]

theorem keeps_of_lt {component : Component} {index : Nat} (h : index < component.baseLength)
    (rest : List Component) :
    keeps (component :: rest) index = decide (0 < component.targetLength) := by
  cases component with
  | retain count =>
      have hindex : index < count := h
      simp [keeps, targetLength, hindex, Nat.zero_lt_of_lt hindex]
  | insert text => exact absurd h (Nat.not_lt_zero index)
  | delete count =>
      have hindex : index < count := h
      simp [keeps, targetLength, hindex]

theorem insertedAt_front_leave {component : Component} {used : Nat}
    (hused : used ≤ component.size) (rest : List Component) (gap : Nat) :
    insertedAt (component.front used :: component.leave used rest) gap =
      insertedAt (component :: rest) gap := by
  unfold leave
  split
  · rename_i hsize
    rw [Nat.le_antisymm hused hsize, front_size]
  · rename_i hsize
    cases component with
    | insert text => by_cases hgap : gap = 0 <;> simp [insertedAt, front, hgap, ← List.append_assoc]
    | _ =>
        simp only [insertedAt, front, size] at hused ⊢
        split_ifs <;> first | rfl | omega | (congr 1; omega)

theorem keeps_front_leave {component : Component} {used : Nat}
    (hused : used ≤ component.size) (rest : List Component) (index : Nat) :
    keeps (component.front used :: component.leave used rest) index =
      keeps (component :: rest) index := by
  unfold leave
  split
  · rename_i hsize
    rw [Nat.le_antisymm hused hsize, front_size]
  · rename_i hsize
    cases component with
    | insert text => simp [keeps, front]
    | _ =>
        simp only [keeps, front, size] at hused ⊢
        split_ifs <;> first | rfl | omega | (congr 1; omega)

theorem mergeFrom_cut {first second : Component} {used : Nat} (hfirst : used ≤ first.size)
    (hsecond : used ≤ second.size) (left right : List Component) (gap : Nat) (text : Text) :
    mergeFrom (first.front used :: first.leave used left)
        (second.front used :: second.leave used right) gap text =
      mergeFrom (first :: left) (second :: right) gap text := by
  induction text generalizing gap with
  | nil => simp only [mergeFrom, insertedAt_front_leave hfirst, insertedAt_front_leave hsecond]
  | cons char rest ih =>
      simp only [mergeFrom, insertedAt_front_leave hfirst, insertedAt_front_leave hsecond,
        keeps_front_leave hfirst, keeps_front_leave hsecond, ih]

/-- Where neither side inserts, the merge keeps what both sides retain. -/
theorem mergeFrom_append {first second : Component} (hsize : first.baseLength = second.baseLength)
    (hfirst : ∀ text, first ≠ insert text) (hsecond : ∀ text, second ≠ insert text)
    {before : Text} (hbefore : before.length = first.baseLength) (left right : List Component)
    (after : Text) :
    mergeFrom (first :: left) (second :: right) 0 (before ++ after) =
      (if 0 < first.targetLength ∧ 0 < second.targetLength then before else []) ++
        mergeFrom left right 0 after := by
  have hwalk : ∀ gap, gap + before.length = first.baseLength →
      mergeFrom (first :: left) (second :: right) gap (before ++ after) =
        (if 0 < first.targetLength ∧ 0 < second.targetLength then before else []) ++
          mergeFrom (first :: left) (second :: right) first.baseLength after := by
    clear hbefore
    induction before with
    | nil => intro gap hgap; simp [← hgap]
    | cons char before ih =>
        intro gap hgap
        rw [List.length_cons] at hgap
        have hgapFirst : gap < first.baseLength := by omega
        have hgapSecond : gap < second.baseLength := by omega
        rw [List.cons_append, mergeFrom, insertedAt_of_lt hgapFirst, insertedAt_of_lt hgapSecond,
          keeps_of_lt hgapFirst, keeps_of_lt hgapSecond, ih (gap + 1) (by omega)]
        by_cases hkept : 0 < first.targetLength ∧ 0 < second.targetLength <;> simp [hkept]
  rw [hwalk 0 (by omega)]
  have hshiftSecond := shifted_of_insert_free hsecond right
  rw [← hsize] at hshiftSecond
  rw [← mergeFrom_of_shifted (shifted_of_insert_free hfirst left) hshiftSecond after, Nat.add_zero]

theorem mergeFrom_insert_left (added : Text) (left right : List Component) (text : Text) :
    mergeFrom (insert added :: left) right 0 text = added ++ mergeFrom left right 0 text := by
  cases text with
  | nil => simp [mergeFrom, insertedAt]
  | cons char rest =>
      have hrest := mergeFrom_of_shifted (shifted_insert added left) (.refl 1 right) rest
      rw [Nat.zero_add] at hrest
      simp [mergeFrom, insertedAt, keeps, hrest]

theorem mergeFrom_insert_right (added : Text) (hleft : insertedAt left 0 = [])
    (right : List Component) (text : Text) :
    mergeFrom left (insert added :: right) 0 text = added ++ mergeFrom left right 0 text := by
  cases text with
  | nil => simp [mergeFrom, insertedAt, hleft]
  | cons char rest =>
      have hrest := mergeFrom_of_shifted (.refl 1 left) (shifted_insert added right) rest
      rw [Nat.zero_add] at hrest
      simp [mergeFrom, insertedAt, keeps, hleft, hrest]

/-! ## Carrying over -/

theorem baseLength_front {component : Component} (used : Nat)
    (h : ∀ text, component ≠ insert text) : (component.front used).baseLength = used := by
  cases component with
  | insert text => exact absurd rfl (h text)
  | _ => rfl

theorem front_ne_insert {component : Component} (used : Nat)
    (h : ∀ text, component ≠ insert text) : ∀ text, component.front used ≠ insert text := by
  cases component with
  | insert text => exact absurd rfl (h text)
  | _ => simp [front]

/-- `left'` carries the left list over the right one and `right'` the right over the left,
and either way the merge comes out. -/
structure Merges (left right left' right' : List Component) : Prop where
  base : total baseLength left = total baseLength right
  baseLeft : total baseLength left' = total targetLength right
  baseRight : total baseLength right' = total targetLength left
  target : total targetLength left' = total targetLength right'
  leftFirst : ∀ text : Text, text.length = total baseLength left →
    applyComponents right' (applyComponents left text) = mergeFrom left right 0 text
  rightFirst : ∀ text : Text, text.length = total baseLength right →
    applyComponents left' (applyComponents right text) = mergeFrom left right 0 text

namespace Merges

variable {left' right' : List Component}

theorem nil : Merges [] [] [] [] where
  base := rfl
  baseLeft := rfl
  baseRight := rfl
  target := rfl
  leftFirst := by
    intro text htext
    obtain rfl : text = [] := List.length_eq_zero_iff.mp htext
    rfl
  rightFirst := by
    intro text htext
    obtain rfl : text = [] := List.length_eq_zero_iff.mp htext
    rfl

theorem insert_left (h : Merges left right left' right') (added : Text) :
    Merges (insert added :: left) right (insert added :: left')
      (retain added.length :: right') where
  base := by simpa [total, baseLength] using h.base
  baseLeft := by simpa [total, baseLength] using h.baseLeft
  baseRight := congrArg (added.length + ·) h.baseRight
  target := congrArg (added.length + ·) h.target
  leftFirst := by
    intro text htext
    have hrest := h.leftFirst text (by simpa [total, baseLength] using htext)
    rw [mergeFrom_insert_left, ← hrest]
    exact applyComponents_retain_append rfl right' _
  rightFirst := by
    intro text htext
    rw [mergeFrom_insert_left, ← h.rightFirst text htext]
    rfl

theorem insert_right (h : Merges left right left' right') (hleft : insertedAt left 0 = [])
    (added : Text) :
    Merges left (insert added :: right) (retain added.length :: left')
      (insert added :: right') where
  base := by simpa [total, baseLength] using h.base
  baseLeft := congrArg (added.length + ·) h.baseLeft
  baseRight := by simpa [total, baseLength] using h.baseRight
  target := congrArg (added.length + ·) h.target
  leftFirst := by
    intro text htext
    rw [mergeFrom_insert_right added hleft, ← h.leftFirst text htext]
    rfl
  rightFirst := by
    intro text htext
    have hrest := h.rightFirst text (by simpa [total, baseLength] using htext)
    rw [mergeFrom_insert_right added hleft, ← hrest]
    exact applyComponents_retain_append rfl left' _

/-- Characters that both sides consume, in front of what is merged already. -/
theorem pair {first second : Component} {used : Nat} (hpos : 0 < used)
    (hfirst : ∀ text, first ≠ insert text) (hsecond : ∀ text, second ≠ insert text)
    (h : Merges left right left' right') :
    Merges (first.front used :: left) (second.front used :: right)
      ((transformPair used first second).1 ++ left')
      ((transformPair used first second).2 ++ right') := by
  have hfrontFirst := baseLength_front used hfirst
  have hfrontSecond := baseLength_front used hsecond
  have heffect : ∀ before after : Text, before.length = used →
      after.length = total baseLength left →
        applyComponents ((transformPair used first second).2 ++ right')
            (applyComponents (first.front used :: left) (before ++ after)) =
          mergeFrom (first.front used :: left) (second.front used :: right) 0 (before ++ after) ∧
        applyComponents ((transformPair used first second).1 ++ left')
            (applyComponents (second.front used :: right) (before ++ after)) =
          mergeFrom (first.front used :: left) (second.front used :: right) 0
            (before ++ after) := by
    intro before after hbefore hafter
    rw [mergeFrom_append (hfrontFirst.trans hfrontSecond.symm) (front_ne_insert used hfirst)
      (front_ne_insert used hsecond) (hbefore.trans hfrontFirst.symm)]
    have hleftFirst := h.leftFirst after hafter
    have hrightFirst := h.rightFirst after (hafter.trans h.base)
    cases first with
    | insert text => exact absurd rfl (hfirst text)
    | _ =>
        cases second with
        | insert text => exact absurd rfl (hsecond text)
        | _ =>
            simp [front, transformPair, targetLength, hpos, hleftFirst, hrightFirst,
              applyComponents_retain_append hbefore, applyComponents_delete_append hbefore]
  have hbase := h.base
  have hbaseLeft := h.baseLeft
  have hbaseRight := h.baseRight
  have htarget := h.target
  refine ⟨by simp [total, hfrontFirst, hfrontSecond, hbase], ?_, ?_, ?_, ?_, ?_⟩
  · cases first <;> cases second <;>
      simp_all [transformPair, total, front, baseLength, targetLength]
  · cases first <;> cases second <;>
      simp_all [transformPair, total, front, baseLength, targetLength]
  · cases first <;> cases second <;>
      simp_all [transformPair, total, baseLength, targetLength]
  · intro text htext
    rw [total, hfrontFirst] at htext
    obtain ⟨before, after, rfl, hbefore⟩ := exists_append_of_le_length (Nat.le.intro htext.symm)
    rw [List.length_append] at htext
    exact (heffect before after hbefore (by omega)).1
  · intro text htext
    rw [total, hfrontSecond, ← hbase] at htext
    obtain ⟨before, after, rfl, hbefore⟩ := exists_append_of_le_length (Nat.le.intro htext.symm)
    rw [List.length_append] at htext
    exact (heffect before after hbefore (by omega)).2

/-- Components may be cut before they are merged. -/
theorem of_cut {first second : Component} {used : Nat} (hfirst : used ≤ first.size)
    (hsecond : used ≤ second.size)
    (h : Merges (first.front used :: first.leave used left)
      (second.front used :: second.leave used right) left' right') :
    Merges (first :: left) (second :: right) left' right' where
  base := calc
    _ = _ := (baseLength_front_leave hfirst left).symm
    _ = _ := h.base
    _ = _ := baseLength_front_leave hsecond right
  baseLeft := h.baseLeft.trans (targetLength_front_leave hsecond right)
  baseRight := h.baseRight.trans (targetLength_front_leave hfirst left)
  target := h.target
  leftFirst := by
    intro text htext
    rw [← mergeFrom_cut hfirst hsecond, ← applyComponents_front_leave hfirst]
    exact h.leftFirst text (htext.trans (baseLength_front_leave hfirst left).symm)
  rightFirst := by
    intro text htext
    rw [← mergeFrom_cut hfirst hsecond, ← applyComponents_front_leave hsecond]
    exact h.rightFirst text (htext.trans (baseLength_front_leave hsecond right).symm)

end Merges

/-! ## The walk -/

theorem insertedAt_zero_of_insert_free (hsized : Sized left)
    (hleft : ∀ added rest, left ≠ insert added :: rest) : insertedAt left 0 = [] := by
  cases left with
  | nil => rfl
  | cons component rest =>
      have hsize := hsized component List.mem_cons_self
      cases component with
      | insert added => exact absurd rfl (hleft added rest)
      | _ => exact insertedAt_of_lt hsize rest

/-- Lists for texts of one length are walked to their common end. -/
theorem exists_transformComponents (hleft : Sized left) (hright : Sized right)
    (hbase : total baseLength left = total baseLength right) :
    ∃ left' right', transformComponents left right = .ok (left', right') ∧
      Merges left right left' right' := by
  fun_induction transformComponents left right
  case case1 => exact ⟨[], [], rfl, .nil⟩
  case case2 right added left ih =>
      obtain ⟨left', right', hwalk, hmerges⟩ := ih hleft.tail hright (by
        simpa [total, baseLength] using hbase)
      exact ⟨_, _, by rw [hwalk]; rfl, hmerges.insert_left _⟩
  case case3 left added right hfree ih =>
      obtain ⟨left', right', hwalk, hmerges⟩ := ih hleft hright.tail (by
        simpa [total, baseLength] using hbase)
      have hnone := insertedAt_zero_of_insert_free hleft hfree
      exact ⟨_, _, by rw [hwalk]; rfl, hmerges.insert_right hnone _⟩
  case case4 second right hsecond =>
      have hsize := hright second List.mem_cons_self
      cases second with
      | insert text => exact absurd rfl (hsecond text)
      | _ => simp only [total, baseLength, size] at hbase hsize; omega
  case case5 first left hfirst =>
      have hsize := hleft first List.mem_cons_self
      cases first with
      | insert text => exact absurd rfl (hfirst text)
      | _ => simp only [total, baseLength, size] at hbase hsize; omega
  case case6 first left second right hfirst hsecond count ih =>
      have hcount : count ≤ first.size ∧ count ≤ second.size :=
        ⟨Nat.min_le_left .., Nat.min_le_right ..⟩
      have hpos : 0 < count := Nat.lt_min.mpr
        ⟨hleft first List.mem_cons_self, hright second List.mem_cons_self⟩
      have hrest : total baseLength (first.leave count left) =
          total baseLength (second.leave count right) := by
        have hlengthFirst := baseLength_front_leave hcount.1 left
        have hlengthSecond := baseLength_front_leave hcount.2 right
        rw [baseLength_front count hfirst] at hlengthFirst
        rw [baseLength_front count hsecond] at hlengthSecond
        simp only [total] at hbase
        omega
      obtain ⟨left', right', hwalk, hmerges⟩ :=
        ih (sized_leave count hleft) (sized_leave count hright) hrest
      exact ⟨_, _, by rw [hwalk]; rfl,
        .of_cut hcount.1 hcount.2 (hmerges.pair hpos hfirst hsecond)⟩

end Component

namespace Operation

open Component

variable {left right left' right' : Operation}

/-- The text that two operations on `text` lead to together. -/
def merge (left right : Operation) (text : Text) : Text :=
  mergeFrom left.components right.components 0 text

/-- `left'` and `right'` are what is left of two operations on one text after the other. -/
structure Carried (left right left' right' : Operation) : Prop where
  builtLeft : left'.Built
  builtRight : right'.Built
  baseLeft : left'.baseLength = right.targetLength
  baseRight : right'.baseLength = left.targetLength
  target : left'.targetLength = right'.targetLength
  leftFirst : ∀ text : Text, text.length = left.baseLength →
    (left.apply text >>= right'.apply) = .ok (left.merge right text)
  rightFirst : ∀ text : Text, text.length = right.baseLength →
    (right.apply text >>= left'.apply) = .ok (left.merge right text)

theorem transform_of_ne (h : left.baseLength ≠ right.baseLength) :
    left.transform right =
      .error (.transformLengthMismatch left.baseLength right.baseLength) := by
  simp [transform, h, bind, Except.bind, throw, throwThe, MonadExceptOf.throw]

theorem exists_transform (hleft : left.Built) (hright : right.Built)
    (hbase : left.baseLength = right.baseLength) :
    ∃ left' right', left.transform right = .ok (left', right') ∧
      Carried left right left' right' := by
  obtain ⟨components, others, hwalk, hmerges⟩ := exists_transformComponents
    ((built_iff_normal left).mp hleft).sized ((built_iff_normal right).mp hright).sized hbase
  have hbaseLeft : (ofComponents components).baseLength = right.targetLength :=
    (baseLength_ofComponents components).trans hmerges.baseLeft
  have hbaseRight : (ofComponents others).baseLength = left.targetLength :=
    (baseLength_ofComponents others).trans hmerges.baseRight
  refine ⟨ofComponents components, ofComponents others, ?_, built_ofComponents _,
    built_ofComponents _, hbaseLeft, hbaseRight, ?_, ?_, ?_⟩
  · simp [transform, hbase, hwalk, bind, Except.bind, pure, Except.pure]
  · rw [targetLength_ofComponents, targetLength_ofComponents]
    exact hmerges.target
  · intro text htext
    have happlied := apply_of_length htext
    have hthen := apply_of_length ((length_of_apply happlied).trans hbaseRight.symm)
    rw [applyComponents_ofComponents, hmerges.leftFirst text htext] at hthen
    rw [happlied]
    exact hthen
  · intro text htext
    have happlied := apply_of_length htext
    have hthen := apply_of_length ((length_of_apply happlied).trans hbaseLeft.symm)
    rw [applyComponents_ofComponents, hmerges.rightFirst text htext] at hthen
    rw [happlied]
    exact hthen

/-- Two operations on one text are carried over each other to operations that meet. -/
theorem exists_transform_apply {text leftText rightText : Text} (hleft : left.Built)
    (hright : right.Built) (happlyLeft : left.apply text = .ok leftText)
    (happlyRight : right.apply text = .ok rightText) :
    ∃ left' right' merged, left.transform right = .ok (left', right') ∧ left'.Built ∧
      right'.Built ∧ left'.apply rightText = .ok merged ∧ right'.apply leftText = .ok merged := by
  have hlengthLeft := (apply_eq_ok_iff.mp happlyLeft).1
  have hlengthRight := (apply_eq_ok_iff.mp happlyRight).1
  obtain ⟨left', right', htransform, hcarried⟩ :=
    exists_transform hleft hright (hlengthLeft.symm.trans hlengthRight)
  have hleftFirst := hcarried.leftFirst text hlengthLeft
  have hrightFirst := hcarried.rightFirst text hlengthRight
  rw [happlyLeft] at hleftFirst
  rw [happlyRight] at hrightFirst
  exact ⟨left', right', left.merge right text, htransform, hcarried.builtLeft,
    hcarried.builtRight, hrightFirst, hleftFirst⟩

/-- Either way round, the two operations in sequence are one and the same operation. -/
theorem Carried.exists_compose_eq (h : Carried left right left' right') (hleft : left.Built)
    (hright : right.Built) (hbase : left.baseLength = right.baseLength) :
    ∃ composed, left.compose right' = .ok composed ∧ right.compose left' = .ok composed := by
  obtain ⟨first, hfirst, hfirstBuilt, hfirstBase, -, hfirstEffect⟩ :=
    exists_compose hleft h.builtRight h.baseRight.symm
  obtain ⟨second, hsecond, hsecondBuilt, hsecondBase, -, hsecondEffect⟩ :=
    exists_compose hright h.builtLeft h.baseLeft.symm
  have hsame : first = second := by
    apply hfirstBuilt.eq_of_apply_eq hsecondBuilt (by omega)
    intro text htext
    rw [hfirstBase] at htext
    rw [hfirstEffect text htext, hsecondEffect text (htext.trans hbase), h.leftFirst text htext,
      h.rightFirst text (htext.trans hbase)]
  exact ⟨first, hfirst, hsame ▸ hsecond⟩

/-- Operations on texts of one length, and no others, are carried over each other; both
ways of applying them are one operation, and it makes their merge of every text. -/
theorem transform_merges (hleft : left.Built) (hright : right.Built) :
    (left.baseLength ≠ right.baseLength →
      left.transform right =
        .error (.transformLengthMismatch left.baseLength right.baseLength)) ∧
    (left.baseLength = right.baseLength →
      ∃ left' right', left.transform right = .ok (left', right') ∧
        left'.baseLength = right.targetLength ∧ right'.baseLength = left.targetLength ∧
        left'.targetLength = right'.targetLength ∧
        (∃ composed, left.compose right' = .ok composed ∧
          right.compose left' = .ok composed) ∧
        ∀ text : Text, text.length = left.baseLength →
          (left.apply text >>= right'.apply) = .ok (left.merge right text) ∧
          (right.apply text >>= left'.apply) = .ok (left.merge right text)) := by
  refine ⟨transform_of_ne, fun hbase => ?_⟩
  obtain ⟨left', right', htransform, hcarried⟩ := exists_transform hleft hright hbase
  exact ⟨left', right', htransform, hcarried.baseLeft, hcarried.baseRight, hcarried.target,
    hcarried.exists_compose_eq hleft hright hbase,
    fun text htext => ⟨hcarried.leftFirst text htext, hcarried.rightFirst text (htext.trans hbase)⟩⟩

/-- Two insertions at one place, one of them behind a deletion that the other shares. -/
theorem transform_merges_shared_gap :
    ∃ left' right',
      (ofComponents [.delete 1, .insert ['x'], .retain 2]).transform
        (ofComponents [.retain 1, .insert ['y'], .delete 2]) = .ok (left', right') ∧
      ((ofComponents [.retain 1, .insert ['y'], .delete 2]).apply ['a', 'b', 'c'] >>=
        left'.apply) = .ok ['x', 'y'] := by
  obtain ⟨left', right', htransform, -, -, -, -, heffect⟩ :=
    (transform_merges (built_ofComponents [.delete 1, .insert ['x'], .retain 2])
      (built_ofComponents [.retain 1, .insert ['y'], .delete 2])).2 (by decide)
  exact ⟨left', right', htransform, (heffect ['a', 'b', 'c'] (by decide)).2.trans (by decide)⟩

end Operation

end Coauthor
