import Coauthor.Json.Parser
import Coauthor.Json.Printer
import Mathlib

/-!
# Parsing what was printed

A value is printed as the texts of its tokens, one after the other.  Brackets, commas and colons end
where they stand, a string at its first quote that is not escaped, and a number or a word before the
mark that follows it; so the tokens are read back one by one, whatever comes after them.  From the
tokens the value is put together again, whatever arrays and objects are open around it.  Numbers
that are no integers of 64 bits are left out: their spelling is not taken as it stands.
-/

namespace Coauthor

namespace Json

/-- A value without fractions, whose integers fit into 64 bits. -/
inductive Plain : Json → Prop where
  | null : Plain .null
  | bool (value : Bool) : Plain (.bool value)
  | int {value : Int} (hlow : minInt ≤ value) (hhigh : value ≤ maxInt) : Plain (.int value)
  | string (value : String) : Plain (.string value)
  | array {items : List Json} (hitems : ∀ item ∈ items, Plain item) : Plain (.array items)
  | object {entries : List (String × Json)} (hentries : ∀ entry ∈ entries, Plain entry.2) :
      Plain (.object entries)

mutual

/-- What a value is printed as. -/
def tokens : Json → List Token
  | array [] => [.openArray, .closeArray]
  | array (item :: items) => .openArray :: (tokens item ++ itemTokens items)
  | object [] => [.openObject, .closeObject]
  | object ((key, value) :: entries) =>
      .openObject :: .string key true :: .colon :: (tokens value ++ entryTokens entries)
  | string value => [.string value true]
  | null => [.value .null]
  | bool value => [.value (.bool value)]
  | int value => [.value (.int value)]
  | fraction spelling => [.value (.fraction spelling)]

/-- The items behind the first, and the closing bracket. -/
def itemTokens : List Json → List Token
  | [] => [.closeArray]
  | item :: items => .comma :: (tokens item ++ itemTokens items)

def entryTokens : List (String × Json) → List Token
  | [] => [.closeObject]
  | (key, value) :: entries =>
      .comma :: .string key true :: .colon :: (tokens value ++ entryTokens entries)

end

/-- A machine that may get stuck takes a text up where it stands after the first part. -/
theorem foldlM_append_of_eq_some {State Input : Type} {step : State → Input → Option State}
    {start next : State} {first : List Input} (h : first.foldlM step start = some next)
    (second : List Input) : (first ++ second).foldlM step start = second.foldlM step next := by
  rw [List.foldlM_append, h]
  rfl

/-! ## Reading tokens -/

namespace Token

open Lexer

variable {before tokens more : List Token} {chars others rest : List Char} {value : Json}

/-- Reads all of a text and ends what has not ended by itself. -/
def run (lexer : Lexer) (chars : List Char) : Option Lexer := chars.foldlM step lexer >>= close

theorem run_cons (lexer : Lexer) (c : Char) (chars : List Char) :
    run lexer (c :: chars) = lexer.step c >>= fun next => run next chars := by
  rw [run, List.foldlM_cons]
  cases lexer.step c <;> rfl

theorem run_append {lexer next : Lexer} (h : chars.foldlM step lexer = some next)
    (rest : List Char) : run lexer (chars ++ rest) = run next rest := by
  rw [run, foldlM_append_of_eq_some h]
  rfl

theorem ofText?_eq_run (text : List Char) :
    ofText? text = (run ⟨[], .between⟩ text).map fun lexer => lexer.tokens.reverse := by
  unfold ofText? run
  cases text.foldlM step ⟨[], .between⟩ with
  | none => rfl
  | some lexer =>
      simp only [bind, Option.bind_some]
      cases lexer.close <;> rfl

/-- The marks between values. -/
def marks : List Char := [',', ':', ']', '\x7d']

/-- A text that begins with a mark or not at all. -/
def Marked (rest : List Char) : Prop := ∀ c ∈ rest.head?, c ∈ marks

theorem marked_nil : Marked [] := nofun

theorem marked_cons {c : Char} (h : c ∈ marks) (rest : List Char) : Marked (c :: rest) :=
  fun _ hhead => Option.some.inj hhead ▸ h

/-- A text is read as the given tokens, whatever was read before and whichever mark comes after. -/
def Spells (chars : List Char) (tokens : List Token) : Prop :=
  ∀ before rest, Marked rest →
    run ⟨before, .between⟩ (chars ++ rest) = run ⟨tokens.reverse ++ before, .between⟩ rest

theorem Spells.append (h : Spells chars tokens) (hmore : Spells others more)
    (hmarked : ∀ rest, Marked (others ++ rest)) : Spells (chars ++ others) (tokens ++ more) := by
  intro before rest hrest
  rw [List.append_assoc, h before _ (hmarked rest), hmore _ rest hrest, List.reverse_append,
    List.append_assoc]

/-- A character that is a token by itself. -/
def IsMark (c : Char) (token : Token) : Prop :=
  ∀ before, step ⟨before, .between⟩ c = some ⟨token :: before, .between⟩

theorem IsMark.spells {c : Char} {token : Token} (h : IsMark c token) : Spells [c] [token] := by
  intro before rest hrest
  rw [List.singleton_append, run_cons, h before]
  rfl

theorem IsMark.spells_cons {c : Char} {token : Token} (h : IsMark c token)
    (hchars : Spells chars tokens) : Spells (c :: chars) (token :: tokens) := by
  intro before rest hrest
  rw [List.cons_append, run_cons, h before]
  simp only [Option.bind_eq_bind, Option.bind_some]
  rw [hchars _ rest hrest, List.reverse_cons, List.append_assoc, List.singleton_append]

theorem isMark_openArray : IsMark '[' .openArray := fun _ => rfl

theorem isMark_closeArray : IsMark ']' .closeArray := fun _ => rfl

theorem isMark_openObject : IsMark '\x7b' .openObject := fun _ => rfl

theorem isMark_closeObject : IsMark '\x7d' .closeObject := fun _ => rfl

theorem isMark_comma : IsMark ',' .comma := fun _ => rfl

theorem isMark_colon : IsMark ':' .colon := fun _ => rfl

/-! ### Strings -/

/-- A character is read back from what it is written as inside a string. -/
theorem foldlM_escapeChar (before : List Token) (c : Char) (letters : List (Option Char)) :
    (escapeChar c).foldlM step ⟨before, .string letters⟩ =
      some ⟨before, .string (some c :: letters)⟩ := by
  unfold escapeChar
  split_ifs with hquote hbackslash hback htab hline hfeed hreturn hcontrol
  · subst hquote; rfl
  · subst hbackslash; rfl
  · subst hback; rfl
  · subst htab; rfl
  · subst hline; rfl
  · subst hfeed; rfl
  · subst hreturn; rfl
  · -- One of thirty-two characters, each of which is spelled by its number.
    have hchar : c = Char.ofNat c.toNat := (Char.ofNat_toNat c).symm
    generalize c.toNat = number at hchar hcontrol
    subst hchar
    interval_cases number <;> rfl
  · have hplain : step ⟨before, .string letters⟩ c =
        some ⟨before, .string (some c :: letters)⟩ := by
      simp [step, stepString, hcontrol]
    rw [List.foldlM_cons, hplain]
    rfl

theorem foldlM_escape (before : List Token) (chars : List Char) (letters : List (Option Char)) :
    (escape chars).foldlM step ⟨before, .string letters⟩ =
      some ⟨before, .string ((chars.map some).reverse ++ letters)⟩ := by
  induction chars generalizing letters with
  | nil => rfl
  | cons c chars ih =>
      rw [escape, List.flatMap_cons, foldlM_append_of_eq_some (foldlM_escapeChar before c letters),
        ← escape, ih, List.map_cons, List.reverse_cons, List.append_assoc, List.singleton_append]

/-- Whole characters make a whole string. -/
theorem ofLetters_map_some (text : String) :
    ofLetters (text.toList.map some) = .string text true := by
  simp [ofLetters, Function.comp_def]

theorem spells_quote (text : String) : Spells (quote text) [.string text true] := by
  intro before rest hrest
  have hopen : step ⟨before, .between⟩ '"' = some ⟨before, .string []⟩ := rfl
  have hclose : step ⟨before, .string (text.toList.map some).reverse⟩ '"' =
      some ⟨.string text true :: before, .between⟩ := by
    simp only [step, stepString, emit, List.reverse_reverse, ofLetters_map_some]
  have htext := foldlM_escape before text.toList []
  rw [List.append_nil] at htext
  rw [quote, List.cons_append, List.append_assoc, run_cons, hopen]
  simp only [Option.bind_eq_bind, Option.bind_some]
  rw [run_append htext, List.singleton_append, run_cons, hclose]
  rfl

/-! ### Numbers and words -/

/-- What is on its way is ended by a mark, or by the end of the text. -/
theorem run_of_close {lexer : Lexer} {token : Token}
    (hstep : ∀ c ∈ marks, lexer.step c = lexer.close >>= (·.stepBetween c))
    (hclose : lexer.close = some ⟨token :: before, .between⟩) (hrest : Marked rest) :
    run lexer rest = run ⟨token :: before, .between⟩ rest := by
  cases rest with
  | nil => exact hclose
  | cons c rest =>
      rw [run_cons, run_cons, hstep c (hrest c rfl), hclose]
      rfl

theorem spells_word (letters : List Char)
    (hchars : ∀ before, chars.foldlM step ⟨before, .between⟩ = some ⟨before, .word letters⟩)
    (hword : Lexer.word? letters.reverse = some value) : Spells chars [.value value] := by
  intro before rest hrest
  have hclose : close ⟨before, .word letters⟩ = some ⟨.value value :: before, .between⟩ := by
    simp [close, emit, hword]
  have hends (c : Char) (hc : c ∈ marks) : c.isLower = false := by
    fin_cases hc <;> rfl
  rw [run_append (hchars before)]
  refine run_of_close (fun c hc => ?_) hclose hrest
  rw [step, hends c hc]
  rfl

theorem foldlM_number (letters : List Char) (hchars : ∀ c ∈ chars, isNumberLetter c) :
    chars.foldlM step ⟨before, .number letters⟩ =
      some ⟨before, .number (chars.reverse ++ letters)⟩ := by
  induction chars generalizing letters with
  | nil => rfl
  | cons c chars ih =>
      have hstep : step ⟨before, .number letters⟩ c = some ⟨before, .number (c :: letters)⟩ :=
        if_pos (hchars c List.mem_cons_self)
      rw [List.foldlM_cons, hstep]
      simp only [Option.bind_eq_bind, Option.bind_some]
      rw [ih _ fun other hother => hchars other (.tail _ hother), List.reverse_cons,
        List.append_assoc, List.singleton_append]

theorem step_digit {c : Char} (h : c.isDigit) :
    step ⟨before, .between⟩ c = some ⟨before, .number [c]⟩ := by
  have hrange : 48 ≤ c.toNat ∧ c.toNat ≤ 57 := by
    simpa [Char.isDigit, UInt32.le_iff_toNat_le] using h
  have hchar : c = Char.ofNat c.toNat := (Char.ofNat_toNat c).symm
  generalize c.toNat = number at hchar hrange
  obtain ⟨hlow, hhigh⟩ := hrange
  subst hchar
  interval_cases number <;> rfl

/-- A spelling that begins with a digit or a minus is read as the number it stands for. -/
theorem spells_number {first : Char} (hfirst : first.isDigit ∨ first = '-')
    (hchars : ∀ c ∈ chars, isNumberLetter c) (hnumber : number? (first :: chars) = some value) :
    Spells (first :: chars) [.value value] := by
  intro before rest hrest
  have hstep : step ⟨before, .between⟩ first = some ⟨before, .number [first]⟩ := by
    rcases hfirst with hdigit | rfl
    · exact step_digit hdigit
    · rfl
  have hclose : close ⟨before, .number (chars.reverse ++ [first])⟩ =
      some ⟨.value value :: before, .between⟩ := by
    simp [close, emit, hnumber]
  have hends (c : Char) (hc : c ∈ marks) : isNumberLetter c = false := by
    fin_cases hc <;> rfl
  rw [List.cons_append, run_cons, hstep]
  simp only [Option.bind_eq_bind, Option.bind_some]
  rw [run_append (foldlM_number _ hchars)]
  refine run_of_close (fun c hc => ?_) hclose hrest
  rw [step, hends c hc]
  rfl

theorem natOfDigits_toDigits (magnitude : Nat) :
    natOfDigits (Nat.toDigits 10 magnitude) = magnitude := by
  have hdigits : natOfDigits (Nat.toDigits 10 magnitude) =
      Nat.ofDigitChars 10 (Nat.toDigits 10 magnitude) 0 := by
    simp only [natOfDigits, Nat.ofDigitChars, Nat.mul_comm]
  rw [hdigits, Nat.ofDigitChars_ten_toDigits]

/-- Only zero is written with a zero in front. -/
theorem head?_toDigits_ne_zero {magnitude : Nat} (h : 0 < magnitude) :
    (Nat.toDigits 10 magnitude).head? ≠ some '0' := by
  induction magnitude using Nat.strongRecOn with
  | ind magnitude ih =>
      rcases Nat.lt_or_ge magnitude 10 with hdigit | hmore
      · rw [Nat.toDigits_of_lt_base hdigit]
        interval_cases magnitude <;> decide
      · rw [Nat.toDigits_of_base_le (by decide) hmore,
          List.head?_append_of_ne_nil _ Nat.toDigits_ne_nil]
        exact ih _ (by omega) (by omega)

/-- The digits of a number: a first one, which is zero for zero only, and more. -/
theorem exists_toDigits (magnitude : Nat) : ∃ digit digits,
    Nat.toDigits 10 magnitude = digit :: digits ∧ digit.isDigit ∧ (∀ c ∈ digits, c.isDigit) ∧
      (digit = '0' → digits = [] ∧ magnitude = 0) := by
  obtain ⟨digit, digits, hdigits⟩ := List.exists_cons_of_ne_nil
    (Nat.toDigits_ne_nil (n := magnitude) (b := 10))
  have hall (c : Char) (hc : c ∈ digit :: digits) : c.isDigit = true :=
    Nat.isDigit_of_mem_toDigits (by decide) (by decide) (hdigits ▸ hc)
  refine ⟨digit, digits, hdigits, hall digit List.mem_cons_self,
    fun c hc => hall c (.tail _ hc), fun hzero => ?_⟩
  obtain rfl : magnitude = 0 := by
    by_contra hpos
    exact head?_toDigits_ne_zero (Nat.pos_of_ne_zero hpos) (by rw [hdigits, hzero]; rfl)
  exact ⟨(List.cons.inj hdigits).2.symm, rfl⟩

theorem takeDigits_of_forall {digits : List Char} (h : ∀ c ∈ digits, c.isDigit = true) :
    takeDigits digits = (digits, []) := by
  rw [takeDigits, List.takeWhile_eq_self_iff.mpr h, List.dropWhile_eq_nil_iff.mpr h]

theorem number?_writeInt {number : Int} (hlow : minInt ≤ number) (hhigh : number ≤ maxInt) :
    number? (writeInt number) = some (.int number) := by
  have hending : (fraction? [] >>= exponent?) = some [] := rfl
  cases number with
  | ofNat magnitude =>
      obtain ⟨digit, digits, hwritten, hdigit, hdigits, hzero⟩ := exists_toDigits magnitude
      have hvalue := natOfDigits_toDigits magnitude
      -- Neither complaint about the digits applies: there is one, and only zero begins with zero.
      have htake := takeDigits_of_forall (List.forall_mem_cons.mpr ⟨hdigit, hdigits⟩)
      have hminus : digit ≠ '-' := by rintro rfl; cases hdigit
      rw [hwritten] at hvalue
      rw [writeInt, hwritten]
      unfold number?
      split
      rename_i negative unsigned hsplit
      obtain ⟨rfl, rfl⟩ : false = negative ∧ digit :: digits = unsigned := by
        simpa [hminus] using hsplit
      simp only [htake]
      split
      · rename_i hnone
        cases hnone
      · rename_i hleading
        obtain ⟨hfirst, hmore⟩ := List.cons.inj hleading
        cases hmore.symm.trans (hzero hfirst).1
      · simpa [hending, hvalue] using ⟨hlow, hhigh⟩
  | negSucc predecessor =>
      obtain ⟨digit, digits, hwritten, hdigit, hdigits, hzero⟩ := exists_toDigits (predecessor + 1)
      have hvalue := natOfDigits_toDigits (predecessor + 1)
      have htake := takeDigits_of_forall (List.forall_mem_cons.mpr ⟨hdigit, hdigits⟩)
      rw [hwritten] at hvalue
      rw [writeInt, hwritten]
      unfold number?
      simp only [htake]
      split
      · rename_i hnone
        cases hnone
      · rename_i hleading
        cases (hzero (List.cons.inj hleading).1).2
      · rw [Int.negSucc_eq] at hlow hhigh
        simp [hending, hvalue, Int.negSucc_eq]
        omega

theorem isNumberLetter_of_isDigit {c : Char} (h : c.isDigit) : isNumberLetter c := by
  simp [isNumberLetter, h]

theorem spells_writeInt {number : Int} (hlow : minInt ≤ number) (hhigh : number ≤ maxInt) :
    Spells (writeInt number) [.value (.int number)] := by
  have hnumber := number?_writeInt hlow hhigh
  cases number with
  | ofNat magnitude =>
      obtain ⟨digit, digits, hwritten, hdigit, hdigits, -⟩ := exists_toDigits magnitude
      rw [writeInt, hwritten] at hnumber ⊢
      refine spells_number (.inl hdigit) (fun c hc => ?_) hnumber
      exact isNumberLetter_of_isDigit (hdigits c hc)
  | negSucc predecessor =>
      refine spells_number (.inr rfl) (fun c hc => isNumberLetter_of_isDigit ?_) hnumber
      exact Nat.isDigit_of_mem_toDigits (by decide) (by decide) hc

/-! ### Values -/

theorem marked_writeItems (items : List Json) (rest : List Char) :
    Marked (writeItems items ++ rest) := by
  cases items with
  | nil => exact marked_cons (by simp [marks]) rest
  | cons item items => exact marked_cons (by simp [marks]) _

theorem marked_writeEntries (entries : List (String × Json)) (rest : List Char) :
    Marked (writeEntries entries ++ rest) := by
  cases entries with
  | nil => exact marked_cons (by simp [marks]) rest
  | cons entry entries => exact marked_cons (by simp [marks]) _

theorem spells_writeItems {items : List Json}
    (hitems : ∀ item ∈ items, Spells item.write item.tokens) :
    Spells (writeItems items) (itemTokens items) := by
  induction items with
  | nil => exact isMark_closeArray.spells
  | cons item items ih =>
      have hrest := ih fun other hother => hitems other (.tail _ hother)
      exact isMark_comma.spells_cons
        ((hitems item List.mem_cons_self).append hrest (marked_writeItems items))

/-- An entry and what follows it. -/
theorem spells_entry {key : String} {entries : List (String × Json)}
    (hvalue : Spells value.write value.tokens)
    (hentries : Spells (writeEntries entries) (entryTokens entries)) :
    Spells (quote key ++ ':' :: (value.write ++ writeEntries entries))
      (.string key true :: .colon :: (value.tokens ++ entryTokens entries)) :=
  (spells_quote key).append
    (isMark_colon.spells_cons (hvalue.append hentries (marked_writeEntries entries)))
    fun rest => marked_cons (by simp [marks]) _

theorem spells_writeEntries {entries : List (String × Json)}
    (hentries : ∀ entry ∈ entries, Spells entry.2.write entry.2.tokens) :
    Spells (writeEntries entries) (entryTokens entries) := by
  induction entries with
  | nil => exact isMark_closeObject.spells
  | cons entry entries ih =>
      have hrest := ih fun other hother => hentries other (.tail _ hother)
      exact isMark_comma.spells_cons (spells_entry (hentries entry List.mem_cons_self) hrest)

theorem spells_write (h : value.Plain) : Spells value.write value.tokens := by
  induction h with
  | null => exact spells_word "llun".toList (fun _ => rfl) rfl
  | bool value =>
      cases value with
      | true => exact spells_word "eurt".toList (fun _ => rfl) rfl
      | false => exact spells_word "eslaf".toList (fun _ => rfl) rfl
  | int hlow hhigh => exact spells_writeInt hlow hhigh
  | string value => exact spells_quote value
  | @array items hitems ih =>
      cases items with
      | nil => exact isMark_openArray.spells_cons isMark_closeArray.spells
      | cons item items =>
          obtain ⟨hitem, hrest⟩ := List.forall_mem_cons.mp ih
          exact isMark_openArray.spells_cons
            (hitem.append (spells_writeItems hrest) (marked_writeItems items))
  | @object entries hentries ih =>
      cases entries with
      | nil => exact isMark_openObject.spells_cons isMark_closeObject.spells
      | cons entry entries =>
          obtain ⟨hentry, hrest⟩ := List.forall_mem_cons.mp ih
          exact isMark_openObject.spells_cons (spells_entry hentry (spells_writeEntries hrest))

theorem ofText?_write (h : value.Plain) : ofText? value.write = some value.tokens := by
  have hread := spells_write h [] [] marked_nil
  rw [List.append_nil, List.append_nil] at hread
  rw [ofText?_eq_run, hread]
  exact congrArg some (List.reverse_reverse _)

end Token

/-! ## Putting values together -/

namespace Assembly

theorem foldlM_singleton (assembly : Assembly) (token : Token) :
    [token].foldlM step assembly = assembly.step token := by
  rw [List.foldlM_cons]
  exact bind_pure (assembly.step token)

/-- Where an array may end instead, a value begins as it does elsewhere. -/
theorem foldlM_tokens_valueOrClose (value : Json) (stack : List Frame) :
    value.tokens.foldlM step ⟨stack, .valueOrClose⟩ = value.tokens.foldlM step ⟨stack, .value⟩ := by
  unfold tokens
  split <;> rfl

mutual

theorem foldlM_tokens (value : Json) (stack : List Frame) :
    value.tokens.foldlM step ⟨stack, .value⟩ = place stack value := by
  match value with
  | .null | .bool _ | .int _ | .fraction _ | .string _ =>
      rw [tokens, foldlM_singleton]
      rfl
  | .array [] | .object [] =>
      rw [tokens, List.foldlM_cons]
      exact foldlM_singleton _ _
  | .array (item :: items) =>
      have hopen : [.openArray].foldlM step ⟨stack, .value⟩ =
          some ⟨.array [] :: stack, .valueOrClose⟩ := rfl
      have hitem := foldlM_tokens item (.array [] :: stack)
      rw [tokens, ← List.singleton_append, foldlM_append_of_eq_some hopen, List.foldlM_append,
        foldlM_tokens_valueOrClose, ← List.foldlM_append, foldlM_append_of_eq_some hitem]
      exact foldlM_itemTokens items [item] stack
  | .object ((key, value) :: entries) =>
      have hopen : [.openObject, .string key true, .colon].foldlM step ⟨stack, .value⟩ =
          some ⟨.entry [] key :: stack, .value⟩ := rfl
      have hvalue := foldlM_tokens value (.entry [] key :: stack)
      refine (foldlM_append_of_eq_some hopen (value.tokens ++ entryTokens entries)).trans ?_
      rw [foldlM_append_of_eq_some hvalue]
      exact foldlM_entryTokens entries [(key, value)] stack

theorem foldlM_itemTokens (items done : List Json) (stack : List Frame) :
    (itemTokens items).foldlM step ⟨.array done :: stack, .commaOrClose⟩ =
      place stack (.array (done.reverse ++ items)) := by
  match items with
  | [] =>
      rw [itemTokens, foldlM_singleton, List.append_nil]
      rfl
  | item :: items =>
      have hcomma : [.comma].foldlM step ⟨.array done :: stack, .commaOrClose⟩ =
          some ⟨.array done :: stack, .value⟩ := rfl
      have hitem := foldlM_tokens item (.array done :: stack)
      refine (foldlM_append_of_eq_some hcomma (item.tokens ++ itemTokens items)).trans ?_
      rw [foldlM_append_of_eq_some hitem, foldlM_itemTokens items, List.reverse_cons,
        List.append_assoc, List.singleton_append]

theorem foldlM_entryTokens (entries done : List (String × Json)) (stack : List Frame) :
    (entryTokens entries).foldlM step ⟨.object done :: stack, .commaOrClose⟩ =
      place stack (.object (done.reverse ++ entries)) := by
  match entries with
  | [] =>
      rw [entryTokens, foldlM_singleton, List.append_nil]
      rfl
  | (key, value) :: entries =>
      have hkey : [.comma, .string key true, .colon].foldlM step
          ⟨.object done :: stack, .commaOrClose⟩ = some ⟨.entry done key :: stack, .value⟩ := rfl
      have hvalue := foldlM_tokens value (.entry done key :: stack)
      refine (foldlM_append_of_eq_some hkey (value.tokens ++ entryTokens entries)).trans ?_
      rw [foldlM_append_of_eq_some hvalue, foldlM_entryTokens entries, List.reverse_cons,
        List.append_assoc, List.singleton_append]

end

end Assembly

theorem ofTokens?_tokens (value : Json) : ofTokens? value.tokens = some value := by
  rw [ofTokens?, Assembly.foldlM_tokens]
  rfl

/-- A printed value is read again. -/
theorem parse?_render {value : Json} (h : value.Plain) : parse? value.render = some value := by
  rw [parse?, render, String.toList_ofList, Token.ofText?_write h]
  exact ofTokens?_tokens value

end Json

end Coauthor
