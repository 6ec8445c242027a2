import Coauthor.Commit.Commit
import Mathlib.Tactic.Common

/-!
# The text that an id is a digest of

Two commits with the same text have the same fields.  A string ends at its first quote that is not
escaped, a list at its closing bracket and a number before the comma behind it, so each value can be
told from what follows it, whatever that is.  The names of the fields and their order are fixed.
-/

namespace Coauthor

/-- No text of a value is the beginning of the text of another. -/
def Delimits {Value : Type} (write : Value → List Char) : Prop :=
  ∀ ⦃first second rest more⦄, write first ++ rest = write second ++ more →
    first = second ∧ rest = more

namespace Json

variable {first second : Char} {rest more : List Char}

/-! ## Strings -/

/-- The characters that do not stand for themselves. -/
def escaped : List Char := ['"', '\\'] ++ (List.range 32).map Char.ofNat

theorem mem_escaped_of_toNat_lt (h : first.toNat < 32) : first ∈ escaped := by
  refine List.mem_append_right _ (List.mem_map.mpr ⟨first.toNat, List.mem_range.mpr h, ?_⟩)
  exact Char.ofNat_toNat first

/-- A character stands for itself or is written behind a backslash. -/
theorem escapeChar_cases (first : Char) :
    (first ∉ ['"', '\\'] ∧ escapeChar first = [first]) ∨
      (first ∈ escaped ∧ ∃ tail, escapeChar first = '\\' :: tail) := by
  unfold escapeChar
  split_ifs with hquote hbackslash hback htab hline hfeed hreturn hcontrol
  · exact .inr ⟨hquote ▸ by decide, _, rfl⟩
  · exact .inr ⟨hbackslash ▸ by decide, _, rfl⟩
  · exact .inr ⟨hback ▸ by decide, _, rfl⟩
  · exact .inr ⟨htab ▸ by decide, _, rfl⟩
  · exact .inr ⟨hline ▸ by decide, _, rfl⟩
  · exact .inr ⟨hfeed ▸ by decide, _, rfl⟩
  · exact .inr ⟨hreturn ▸ by decide, _, rfl⟩
  · exact .inr ⟨mem_escaped_of_toNat_lt hcontrol, _, rfl⟩
  · exact .inl ⟨by simp [hquote, hbackslash], rfl⟩

/-- What is written for one of these characters is not the beginning of what is written for
another. -/
theorem eq_of_prefix_escapeChar (hfirst : first ∈ escaped) (hsecond : second ∈ escaped)
    (h : escapeChar first <+: escapeChar second) : first = second := by
  have hall : (escaped.all fun one => escaped.all fun other =>
      one == other || !(escapeChar one).isPrefixOf (escapeChar other)) = true := by
    decide +kernel
  have hpair := List.all_eq_true.mp (List.all_eq_true.mp hall first hfirst) second hsecond
  rw [List.isPrefixOf_iff_prefix.mpr h, Bool.not_true, Bool.or_false] at hpair
  exact eq_of_beq hpair

theorem delimits_escapeChar : Delimits escapeChar := by
  intro first second rest more h
  obtain rfl : first = second := by
    rcases escapeChar_cases first with ⟨hfirst, hplain⟩ | ⟨hfirst, tail, htail⟩
    · rcases escapeChar_cases second with ⟨hsecond, hother⟩ | ⟨hsecond, tail, htail⟩
      · rw [hplain, hother] at h
        exact (List.cons.inj h).1
      · rw [hplain, htail] at h
        exact absurd ((List.cons.inj h).1 ▸ hfirst) (by simp)
    · rcases escapeChar_cases second with ⟨hsecond, hplain⟩ | ⟨hsecond, -⟩
      · rw [hplain, htail] at h
        exact absurd ((List.cons.inj h).1 ▸ hsecond) (by simp)
      · rcases List.prefix_or_prefix_of_prefix ⟨rest, rfl⟩ ⟨more, h.symm⟩ with hprefix | hprefix
        · exact eq_of_prefix_escapeChar hfirst hsecond hprefix
        · exact (eq_of_prefix_escapeChar hsecond hfirst hprefix).symm
  exact ⟨rfl, List.append_cancel_left h⟩

theorem escapeChar_append_ne_quote (first : Char) (rest more : List Char) :
    escapeChar first ++ rest ≠ '"' :: more := by
  intro h
  rcases escapeChar_cases first with ⟨hfirst, hplain⟩ | ⟨-, tail, htail⟩
  · rw [hplain] at h
    exact absurd ((List.cons.inj h).1 ▸ hfirst) (by simp)
  · rw [htail] at h
    exact absurd (List.cons.inj h).1 (by decide)

/-- A string ends at the first quote that is not escaped. -/
theorem delimits_escape : Delimits fun chars => escape chars ++ ['"'] := by
  intro chars
  induction chars with
  | nil =>
      rintro (_ | ⟨other, others⟩) rest more h
      · exact ⟨rfl, (List.cons.inj h).2⟩
      · simp only [escape, List.flatMap_cons, List.append_assoc] at h
        exact absurd h.symm (escapeChar_append_ne_quote other _ _)
  | cons char chars ih =>
      rintro (_ | ⟨other, others⟩) rest more h
      · simp only [escape, List.flatMap_cons, List.append_assoc] at h
        exact absurd h (escapeChar_append_ne_quote char _ _)
      · simp only [escape, List.flatMap_cons, List.append_assoc] at h
        obtain ⟨rfl, hrest⟩ := delimits_escapeChar h
        obtain ⟨rfl, rfl⟩ := @ih others rest more (by simpa [escape] using hrest)
        exact ⟨rfl, rfl⟩

theorem delimits_quote : Delimits quote := by
  intro first second rest more h
  obtain ⟨hchars, hrest⟩ := delimits_escape (List.cons.inj h).2
  exact ⟨String.toList_inj.mp hchars, hrest⟩

/-! ## Optional strings and lists of strings -/

theorem delimits_ofOption : Delimits fun value => (ofOption .string value).write := by
  rintro (_ | first) (_ | second) rest more h
  · exact ⟨rfl, List.append_cancel_left h⟩
  · exact absurd (List.cons.inj h).1 (by decide)
  · exact absurd (List.cons.inj h).1 (by decide)
  · obtain ⟨rfl, hrest⟩ := delimits_quote h
    exact ⟨rfl, hrest⟩

theorem delimits_writeItems :
    Delimits fun values : List String => writeItems (values.map string) := by
  intro first
  induction first with
  | nil =>
      rintro (_ | ⟨other, others⟩) rest more h
      · exact ⟨rfl, (List.cons.inj h).2⟩
      · exact absurd (List.cons.inj h).1 (by decide)
  | cons value values ih =>
      rintro (_ | ⟨other, others⟩) rest more h
      · exact absurd (List.cons.inj h).1 (by decide)
      · simp only [List.map_cons, writeItems, List.cons_append, List.append_assoc,
          List.cons.injEq, true_and] at h
        obtain ⟨rfl, hitems⟩ := delimits_quote h
        obtain ⟨rfl, hrest⟩ := ih hitems
        exact ⟨rfl, hrest⟩

theorem delimits_strings : Delimits fun values => (strings values).write := by
  rintro (_ | ⟨first, firsts⟩) (_ | ⟨second, seconds⟩) rest more h
  · exact ⟨rfl, List.append_cancel_left h⟩
  · exact absurd (List.cons.inj (List.cons.inj h).2).1 (by decide)
  · exact absurd (List.cons.inj (List.cons.inj h).2).1 (by decide)
  · simp only [strings, List.map_cons, write, List.cons_append, List.append_assoc,
      List.cons.injEq, true_and] at h
    obtain ⟨rfl, hitems⟩ := delimits_quote h
    obtain ⟨rfl, hrest⟩ := delimits_writeItems hitems
    exact ⟨rfl, hrest⟩

/-! ## Numbers -/

theorem toDigits_injective : Function.Injective (Nat.toDigits 10) :=
  Function.LeftInverse.injective fun _ => Nat.ofDigitChars_ten_toDigits

/-- A number ends before the first character that is no digit. -/
theorem delimits_toDigits : Delimits fun magnitude => Nat.toDigits 10 magnitude ++ [','] := by
  have htake (magnitude : Nat) (rest : List Char) :
      ((Nat.toDigits 10 magnitude ++ [',']) ++ rest).takeWhile Char.isDigit =
        Nat.toDigits 10 magnitude := by
    rw [List.append_assoc, List.takeWhile_append_of_pos]
    · exact List.append_nil _
    · exact fun char hchar => Nat.isDigit_of_mem_toDigits (by decide) (by decide) hchar
  intro first second rest more h
  have hdigits := congrArg (List.takeWhile Char.isDigit) h
  rw [htake, htake] at hdigits
  obtain rfl := toDigits_injective hdigits
  exact ⟨rfl, List.append_cancel_left h⟩

theorem toDigits_append_ne_minus (magnitude : Nat) (rest more : List Char) :
    Nat.toDigits 10 magnitude ++ rest ≠ '-' :: more := by
  intro h
  obtain ⟨digit, digits, hdigits⟩ := List.exists_cons_of_ne_nil Nat.toDigits_ne_nil
  rw [hdigits] at h
  have hdigit : digit.isDigit = true :=
    Nat.isDigit_of_mem_toDigits (by decide) (by decide) (hdigits ▸ List.mem_cons_self)
  rw [(List.cons.inj h).1] at hdigit
  exact absurd hdigit (by decide)

theorem delimits_writeInt : Delimits fun value => writeInt value ++ [','] := by
  rintro (first | first) (second | second) rest more h
  · obtain ⟨rfl, hrest⟩ := delimits_toDigits h
    exact ⟨rfl, hrest⟩
  · simp only [writeInt, List.append_assoc] at h
    exact absurd h (toDigits_append_ne_minus first _ _)
  · simp only [writeInt, List.append_assoc] at h
    exact absurd h.symm (toDigits_append_ne_minus second _ _)
  · obtain ⟨hsucc, hrest⟩ := delimits_toDigits (List.cons.inj h).2
    exact ⟨congrArg Int.negSucc (Nat.succ.inj hsucc), hrest⟩

end Json

/-! ## Commits -/

/-- The text tells everything about a commit but its id. -/
theorem Commit.eq_of_contentText {first second : Commit}
    (h : first.contentText = second.contentText) : first = { second with id := first.id } := by
  obtain ⟨id, root, parents, updater, time, message, branchName⟩ := first
  simp only [contentText, content, Json.write, Json.writeEntries, List.cons.injEq, true_and,
    List.append_cancel_left_eq] at h
  obtain ⟨rfl, hmessage⟩ := Json.delimits_ofOption h
  simp only [List.cons.injEq, true_and, List.append_cancel_left_eq] at hmessage
  obtain ⟨rfl, hparents⟩ := Json.delimits_quote hmessage
  simp only [List.cons.injEq, true_and, List.append_cancel_left_eq] at hparents
  obtain ⟨rfl, hroot⟩ := Json.delimits_strings hparents
  simp only [List.cons.injEq, true_and, List.append_cancel_left_eq] at hroot
  obtain ⟨rfl, htime⟩ := Json.delimits_quote hroot
  simp only [List.cons.injEq, true_and, List.append_cancel_left_eq] at htime
  rw [List.append_cons, List.append_cons (Json.writeInt second.time)] at htime
  obtain ⟨rfl, hupdater⟩ := Json.delimits_writeInt htime
  rw [List.append_cancel_left_eq, List.cons.injEq] at hupdater
  obtain ⟨rfl, -⟩ := Json.delimits_strings hupdater.2
  rfl

end Coauthor
