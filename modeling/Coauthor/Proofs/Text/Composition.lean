import Coauthor.Proofs.Text.Builder
import Coauthor.Text.Compose

/-!
# Composition is one operation after the other

The walk of two component lists succeeds as soon as the first produces as much as the
second consumes, and what it yields does what the two do in sequence.  Sequences of
that kind can be put side by side, so it is enough to look at the leading components.

An effect has one normal form, so whatever holds of doing one thing after the other holds of the
composed operations themselves: composing is associative, and an operation that keeps the whole
text is a unit on either side.
-/

namespace Coauthor

namespace Component

open Operation

variable {first second composed : List Component}

/-- `composed` does to every text what `first` and then `second` do. -/
structure InSequence (first second composed : List Component) : Prop where
  base : total baseLength composed = total baseLength first
  middle : total targetLength first = total baseLength second
  target : total targetLength composed = total targetLength second
  effect : ∀ text : Text, text.length = total baseLength first →
    applyComponents composed text = applyComponents second (applyComponents first text)

namespace InSequence

theorem nil : InSequence [] [] [] := ⟨rfl, rfl, rfl, fun _ _ => rfl⟩

theorem append {firstRest secondRest composedRest : List Component}
    (h : InSequence first second composed)
    (hrest : InSequence firstRest secondRest composedRest) :
    InSequence (first ++ firstRest) (second ++ secondRest) (composed ++ composedRest) where
  base := by rw [total_append, total_append, h.base, hrest.base]
  middle := by rw [total_append, total_append, h.middle, hrest.middle]
  target := by rw [total_append, total_append, h.target, hrest.target]
  effect := by
    intro text htext
    rw [total_append] at htext
    obtain ⟨before, after, rfl, hbefore⟩ := exists_append_of_le_length (Nat.le.intro htext.symm)
    have hafter : after.length = total baseLength firstRest := by
      rw [List.length_append] at htext
      omega
    have hmiddle : (applyComponents first before).length = total baseLength second := by
      rw [length_applyComponents hbefore, h.middle]
    rw [applyComponents_append (hbefore.trans h.base.symm), applyComponents_append hbefore,
      applyComponents_append hmiddle, h.effect before hbefore, hrest.effect after hafter]

theorem of_delete (count : Nat) : InSequence [delete count] [] [delete count] :=
  ⟨rfl, rfl, rfl, fun _ _ => rfl⟩

theorem of_insert (text : Text) : InSequence [] [insert text] [insert text] :=
  ⟨rfl, rfl, rfl, fun _ _ => rfl⟩

/-- What one component produces and the next consumes, as far as both reach. -/
theorem of_pair {left right : Component} {count : Nat} (hleft : ∀ cut, left ≠ delete cut)
    (hright : ∀ text, right ≠ insert text) (hcount : count ≤ left.size) :
    InSequence [left.front count] [right.front count] (composePair count left right) := by
  cases left with
  | delete cut => exact absurd rfl (hleft cut)
  | retain kept =>
      cases right with
      | insert text => exact absurd rfl (hright text)
      | retain =>
          exact ⟨rfl, rfl, rfl, fun text _ => by
            simp [applyComponents, front, composePair, List.take_take]⟩
      | delete =>
          exact ⟨rfl, rfl, rfl, fun text _ => by simp [applyComponents, front, composePair]⟩
  | insert added =>
      have hlength : (added.take count).length = count := List.length_take_of_le hcount
      cases right with
      | insert text => exact absurd rfl (hright text)
      | retain =>
          refine ⟨rfl, hlength, hlength, fun text _ => ?_⟩
          simp [applyComponents, front, composePair, List.take_take]
      | delete =>
          refine ⟨rfl, hlength, rfl, fun text htext => ?_⟩
          obtain rfl : text = [] := List.length_eq_zero_iff.mp htext
          simp [applyComponents, front, composePair]

/-- Components may be cut before they are put in sequence. -/
theorem of_cut {left right : Component} {firstRest secondRest : List Component} {used : Nat}
    (hleft : used ≤ left.size) (hright : used ≤ right.size)
    (h : InSequence (left.front used :: left.leave used firstRest)
      (right.front used :: right.leave used secondRest) composed) :
    InSequence (left :: firstRest) (right :: secondRest) composed where
  base := h.base.trans (baseLength_front_leave hleft firstRest)
  middle := calc
    _ = _ := (targetLength_front_leave hleft firstRest).symm
    _ = _ := h.middle
    _ = _ := baseLength_front_leave hright secondRest
  target := h.target.trans (targetLength_front_leave hright secondRest)
  effect := by
    intro text htext
    rw [← applyComponents_front_leave hleft, ← applyComponents_front_leave hright]
    exact h.effect text (htext.trans (baseLength_front_leave hleft firstRest).symm)

end InSequence

/-! ## The walk -/

/-- Lists whose lengths meet are walked to their common end. -/
theorem exists_composeComponents (hfirst : Sized first) (hsecond : Sized second)
    (hmiddle : total targetLength first = total baseLength second) :
    ∃ composed, composeComponents first second = .ok composed ∧
      InSequence first second composed := by
  fun_induction composeComponents first second
  case case1 => exact ⟨[], rfl, .nil⟩
  case case2 second count first ih =>
      obtain ⟨composed, hwalk, hsequence⟩ := ih hfirst.tail hsecond (by
        simpa [total, targetLength] using hmiddle)
      exact ⟨_, by rw [hwalk]; rfl, (InSequence.of_delete _).append hsequence⟩
  case case3 first text second _ ih =>
      obtain ⟨composed, hwalk, hsequence⟩ := ih hfirst hsecond.tail (by
        simpa [total, baseLength] using hmiddle)
      exact ⟨_, by rw [hwalk]; rfl, (InSequence.of_insert _).append hsequence⟩
  case case4 right second hright =>
      have hsize := hsecond right List.mem_cons_self
      cases right with
      | insert text => exact absurd rfl (hright text)
      | _ => simp only [total, baseLength, size] at hmiddle hsize; omega
  case case5 left first hleft =>
      have hsize := hfirst left List.mem_cons_self
      cases left with
      | delete cut => exact absurd rfl (hleft cut)
      | _ => simp only [total, targetLength, size] at hmiddle hsize; omega
  case case6 left first right second hleft hright count ih =>
      have hcount : count ≤ left.size ∧ count ≤ right.size :=
        ⟨Nat.min_le_left .., Nat.min_le_right ..⟩
      have hpair := InSequence.of_pair hleft hright hcount.1
      have hrest : total targetLength (left.leave count first) =
          total baseLength (right.leave count second) := by
        have hleftLength := targetLength_front_leave hcount.1 first
        have hrightLength := baseLength_front_leave hcount.2 second
        have hpairLength := hpair.middle
        simp only [total] at hmiddle hpairLength
        omega
      obtain ⟨composed, hwalk, hsequence⟩ :=
        ih (sized_leave count hfirst) (sized_leave count hsecond) hrest
      exact ⟨_, by rw [hwalk]; rfl, .of_cut hcount.1 hcount.2 (hpair.append hsequence)⟩

end Component

namespace Operation

open Component

variable {first second third composed operation : Operation} {text : Text}

/-! ## Keeping the whole text -/

theorem built_keep (length : Nat) : (keep length).Built := built_ofComponents _

@[simp]
theorem baseLength_keep (length : Nat) : (keep length).baseLength = length :=
  (baseLength_ofComponents _).trans (Nat.add_zero length)

@[simp]
theorem targetLength_keep (length : Nat) : (keep length).targetLength = length :=
  (targetLength_ofComponents _).trans (Nat.add_zero length)

theorem apply_keep (text : Text) : (keep text.length).apply text = .ok text := by
  rw [apply_of_length (baseLength_keep _).symm, keep, applyComponents_ofComponents]
  simp [applyComponents]

/-! ## Operations in sequence -/

/-- `composed` does to every text of its length what `first` and then `second` do. -/
structure Composes (first second composed : Operation) : Prop where
  built : composed.Built
  base : composed.baseLength = first.baseLength
  target : composed.targetLength = second.targetLength
  effect : ∀ text : Text, text.length = first.baseLength → ∃ between result,
    first.apply text = .ok between ∧ second.apply between = .ok result ∧
      composed.apply text = .ok result

namespace Composes

/-- There is only one operation with the effect of two. -/
theorem unique {other : Operation} (h : Composes first second composed)
    (hother : Composes first second other) : composed = other := by
  apply h.built.eq_of_apply_eq hother.built (h.base.trans hother.base.symm)
  intro text htext
  obtain ⟨between, result, hfirst, hsecond, hcomposed⟩ := h.effect text (htext.trans h.base)
  obtain ⟨middle, last, hmiddle, hlast, hresult⟩ := hother.effect text (htext.trans h.base)
  obtain rfl := Except.ok.inj (hfirst.symm.trans hmiddle)
  rw [hcomposed, hresult, hsecond.symm.trans hlast]

/-- What does the work of three operations can be put together from either end. -/
theorem assoc {front back : Operation} (hfront : Composes first second front)
    (hback : Composes second third back) (h : Composes front third composed) :
    Composes first back composed where
  built := h.built
  base := h.base.trans hfront.base
  target := h.target.trans hback.target.symm
  effect := by
    intro text htext
    obtain ⟨between, middle, hfirst, hsecond, hmiddle⟩ := hfront.effect text htext
    obtain ⟨shown, result, hshown, hthird, hcomposed⟩ :=
      h.effect text (htext.trans hfront.base.symm)
    obtain rfl := Except.ok.inj (hmiddle.symm.trans hshown)
    obtain ⟨later, last, hlater, hlast, hresult⟩ :=
      hback.effect between (apply_eq_ok_iff.mp hsecond).1
    obtain rfl := Except.ok.inj (hsecond.symm.trans hlater)
    obtain rfl := Except.ok.inj (hthird.symm.trans hlast)
    exact ⟨between, result, hfirst, hresult, hcomposed⟩

theorem keep_left (h : operation.Built) :
    Composes (keep operation.baseLength) operation operation where
  built := h
  base := (baseLength_keep _).symm
  target := rfl
  effect := by
    intro text htext
    rw [baseLength_keep] at htext
    exact ⟨text, _, htext ▸ apply_keep text, apply_of_length htext, apply_of_length htext⟩

theorem keep_right (h : operation.Built) :
    Composes operation (keep operation.targetLength) operation where
  built := h
  base := rfl
  target := (targetLength_keep _).symm
  effect := by
    intro text htext
    have hresult := apply_of_length htext
    exact ⟨_, _, hresult, length_of_apply hresult ▸ apply_keep _, hresult⟩

end Composes

theorem compose_of_ne (h : first.targetLength ≠ second.baseLength) :
    first.compose second =
      .error (.composeLengthMismatch first.targetLength second.baseLength) := by
  simp [compose, h, bind, Except.bind, throw, throwThe, MonadExceptOf.throw]

theorem exists_composes (hfirst : first.Built) (hsecond : second.Built)
    (hmiddle : first.targetLength = second.baseLength) :
    ∃ composed, first.compose second = .ok composed ∧ Composes first second composed := by
  obtain ⟨components, hwalk, hsequence⟩ := exists_composeComponents
    ((built_iff_normal first).mp hfirst).sized ((built_iff_normal second).mp hsecond).sized hmiddle
  have hbase : (ofComponents components).baseLength = first.baseLength :=
    (baseLength_ofComponents components).trans hsequence.base
  refine ⟨ofComponents components, ?_, built_ofComponents components, hbase,
    (targetLength_ofComponents components).trans hsequence.target, ?_⟩
  · simp [compose, hmiddle, hwalk, bind, Except.bind, pure, Except.pure]
  · intro text htext
    have hbetween := length_applyComponents htext
    refine ⟨_, _, apply_of_length htext, apply_of_length (hbetween.trans hmiddle), ?_⟩
    rw [apply_of_length (htext.trans hbase.symm), applyComponents_ofComponents,
      hsequence.effect text htext]

/-- Operations that meet compose, and the composition does what they do in sequence. -/
theorem exists_compose (hfirst : first.Built) (hsecond : second.Built)
    (hmiddle : first.targetLength = second.baseLength) :
    ∃ composed, first.compose second = .ok composed ∧ composed.Built ∧
      composed.baseLength = first.baseLength ∧ composed.targetLength = second.targetLength ∧
      ∀ text : Text, text.length = first.baseLength →
        composed.apply text = first.apply text >>= second.apply := by
  obtain ⟨composed, hcompose, h⟩ := exists_composes hfirst hsecond hmiddle
  refine ⟨composed, hcompose, h.built, h.base, h.target, fun text htext => ?_⟩
  obtain ⟨between, result, hbetween, hresult, hcomposed⟩ := h.effect text htext
  rw [hcomposed, hbetween]
  exact hresult.symm

/-- Composing yields the one operation that does what the two do in sequence, and does so for
operations that meet. -/
theorem compose_eq_ok_iff (hfirst : first.Built) (hsecond : second.Built) :
    first.compose second = .ok composed ↔
      first.targetLength = second.baseLength ∧ Composes first second composed := by
  constructor
  · intro hcompose
    have hmiddle : first.targetLength = second.baseLength := by
      by_contra hne
      rw [compose_of_ne hne] at hcompose
      cases hcompose
    obtain ⟨other, hother, hcomposes⟩ := exists_composes hfirst hsecond hmiddle
    exact ⟨hmiddle, Except.ok.inj (hother.symm.trans hcompose) ▸ hcomposes⟩
  · rintro ⟨hmiddle, hcomposes⟩
    obtain ⟨other, hother, hsame⟩ := exists_composes hfirst hsecond hmiddle
    exact hother.trans (congrArg _ (hsame.unique hcomposes))

/-- Three operations compose from either end, to the same operation or not at all. -/
theorem compose_assoc (hfirst : first.Built) (hsecond : second.Built) (hthird : third.Built) :
    (first.compose second >>= (·.compose third)).toOption =
      (second.compose third >>= first.compose).toOption := by
  by_cases hfront : first.targetLength = second.baseLength
  · obtain ⟨front, hcompose, hcomposes⟩ := exists_composes hfirst hsecond hfront
    rw [hcompose]
    change (front.compose third).toOption = _
    by_cases hback : second.targetLength = third.baseLength
    · obtain ⟨back, hcomposeBack, hcomposesBack⟩ := exists_composes hsecond hthird hback
      obtain ⟨composed, hwhole, hcomposed⟩ :=
        exists_composes hcomposes.built hthird (hcomposes.target.trans hback)
      have hsame := (compose_eq_ok_iff hfirst hcomposesBack.built).mpr
        ⟨hfront.trans hcomposesBack.base.symm, hcomposes.assoc hcomposesBack hcomposed⟩
      rw [hwhole, hcomposeBack]
      exact (congrArg Except.toOption hsame).symm
    · -- The composition ends where the second operation ends, so it is refused just the same.
      rw [compose_of_ne (hcomposes.target ▸ hback), compose_of_ne hback]
      rfl
  · rw [compose_of_ne hfront]
    by_cases hback : second.targetLength = third.baseLength
    · obtain ⟨back, hcomposeBack, hcomposesBack⟩ := exists_composes hsecond hthird hback
      rw [hcomposeBack]
      change _ = (first.compose back).toOption
      rw [compose_of_ne (hcomposesBack.base ▸ hfront)]
      rfl
    · rw [compose_of_ne hback]
      rfl

/-- Composition is sequential application: of operations that meet it makes the one operation
that does what they do in turn, without a length that grows out of its word, and it refuses all
others for their lengths.  It is associative, and keeping the whole text is its unit on both
sides. -/
theorem compose_sequential (hfirst : first.Built) (hsecond : second.Built)
    (hfirstFits : first.Fits) (hsecondFits : second.Fits) :
    (first.targetLength ≠ second.baseLength →
      first.compose second =
        .error (.composeLengthMismatch first.targetLength second.baseLength)) ∧
    (first.targetLength = second.baseLength →
      ∃ composed, first.compose second = .ok composed ∧ Composes first second composed ∧
        composed.Fits ∧ ∀ base target, Counted composed base target ↔
          base.toNat = first.baseLength ∧ target.toNat = second.targetLength) ∧
    (∀ third : Operation, third.Built →
      (first.compose second >>= (·.compose third)).toOption =
        (second.compose third >>= first.compose).toOption) ∧
    (keep first.baseLength).compose first = .ok first ∧
    first.compose (keep first.targetLength) = .ok first := by
  refine ⟨compose_of_ne, fun hmiddle => ?_, fun third => compose_assoc hfirst hsecond, ?_, ?_⟩
  · obtain ⟨composed, hcompose, h⟩ := exists_composes hfirst hsecond hmiddle
    have hfits : composed.Fits := ⟨h.base ▸ hfirstFits.base, h.target ▸ hsecondFits.target⟩
    refine ⟨composed, hcompose, h, hfits, fun base target => ?_⟩
    rw [counted_iff_toNat h.built hfits, h.base, h.target]
  · exact (compose_eq_ok_iff (built_keep _) hfirst).mpr ⟨targetLength_keep _, .keep_left hfirst⟩
  · exact (compose_eq_ok_iff hfirst (built_keep _)).mpr
      ⟨(baseLength_keep _).symm, .keep_right hfirst⟩

/-- The second operation cuts what the first inserts; the third deletes what is left of both. -/
theorem compose_sequential_cut :
    ∃ composed : Operation,
      (ofComponents [.delete 1, .insert ['x', 'y'], .retain 2]).compose
        (ofComponents [.retain 1, .insert ['z'], .delete 2, .retain 1]) = .ok composed ∧
      composed.apply ['a', 'b', 'c'] = .ok ['x', 'z', 'c'] ∧
      ((ofComponents [.retain 1, .insert ['z'], .delete 2, .retain 1]).compose
        (ofComponents [.delete 2, .retain 1]) >>=
          (ofComponents [.delete 1, .insert ['x', 'y'], .retain 2]).compose).toOption =
        some (ofComponents [.delete 2, .retain 1]) := by
  obtain ⟨-, hmeet, hassoc, -, -⟩ := compose_sequential
    (built_ofComponents [.delete 1, .insert ['x', 'y'], .retain 2])
    (built_ofComponents [.retain 1, .insert ['z'], .delete 2, .retain 1])
    ⟨by decide, by decide⟩ ⟨by decide, by decide⟩
  obtain ⟨composed, hcompose, h, -, -⟩ := hmeet (by decide)
  obtain ⟨between, result, hbetween, hresult, happly⟩ := h.effect ['a', 'b', 'c'] (by decide)
  obtain rfl : ['x', 'y', 'b', 'c'] = between := Except.ok.inj hbetween
  obtain rfl : ['x', 'z', 'c'] = result := Except.ok.inj hresult
  refine ⟨composed, hcompose, happly, ?_⟩
  rw [← hassoc _ (built_ofComponents [.delete 2, .retain 1])]
  cbv

end Operation

end Coauthor
