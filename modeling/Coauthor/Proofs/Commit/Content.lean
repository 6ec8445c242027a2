import Coauthor.Proofs.Commit.Text
import Coauthor.Proofs.Wire
import Mathlib

/-!
# What an id stands for

An id is the digest of a text, in hexadecimal digits.  The digits tell the digest, and the text
tells all that a commit says.  So two commits with one id say the same unless their texts are a
collision of the digest; and a commit that was changed under its id is not intact.
-/

namespace Coauthor

/-! ## Digits of a digest -/

namespace Sha1

theorem digitChar_inj : ∀ first < 16, ∀ second < 16,
    Nat.digitChar first = Nat.digitChar second → first = second := by
  decide

theorem toNat_nibble (word shift : UInt32) :
    ((word >>> shift) &&& 0xF).toNat = word.toNat / 2 ^ (shift.toNat % 32) % 16 := by
  rw [UInt32.toNat_and, UInt32.toNat_shiftRight, Nat.shiftRight_eq_div_pow]
  exact Nat.and_two_pow_sub_one_eq_mod _ 4

theorem hexDigit_nibble_inj {first second shift : UInt32}
    (h : hexDigit ((first >>> shift) &&& 0xF) = hexDigit ((second >>> shift) &&& 0xF)) :
    first.toNat / 2 ^ (shift.toNat % 32) % 16 = second.toNat / 2 ^ (shift.toNat % 32) % 16 := by
  rw [hexDigit, hexDigit, toNat_nibble, toNat_nibble] at h
  exact digitChar_inj _ (Nat.mod_lt _ (by decide)) _ (Nat.mod_lt _ (by decide)) h

theorem div_eq_of_nibble {first second low : Nat}
    (hrest : first / 2 ^ (low + 4) = second / 2 ^ (low + 4))
    (hnibble : first / 2 ^ low % 16 = second / 2 ^ low % 16) :
    first / 2 ^ low = second / 2 ^ low := by
  rw [pow_add, ← Nat.div_div_eq_div_mul, ← Nat.div_div_eq_div_mul] at hrest
  omega

/-- A word is told by its eight digits, the highest first. -/
theorem hexWord_injective : Function.Injective hexWord := by
  intro first second h
  have hnibble (shift : UInt32) (hshift : shift ∈ [28, 24, 20, 16, 12, 8, 4, 0]) :=
    hexDigit_nibble_inj (List.map_inj_left.mp h shift hshift)
  have h32 : first.toNat / 2 ^ 32 = second.toNat / 2 ^ 32 := by
    rw [Nat.div_eq_of_lt first.toNat_lt, Nat.div_eq_of_lt second.toNat_lt]
  have h28 := div_eq_of_nibble h32 (hnibble 28 (by decide))
  have h24 := div_eq_of_nibble h28 (hnibble 24 (by decide))
  have h20 := div_eq_of_nibble h24 (hnibble 20 (by decide))
  have h16 := div_eq_of_nibble h20 (hnibble 16 (by decide))
  have h12 := div_eq_of_nibble h16 (hnibble 12 (by decide))
  have h8 := div_eq_of_nibble h12 (hnibble 8 (by decide))
  have h4 := div_eq_of_nibble h8 (hnibble 4 (by decide))
  have h0 := div_eq_of_nibble h4 (hnibble 0 (by decide))
  exact UInt32.toNat_inj.mp (by simpa using h0)

theorem flatMap_hexWord_injective : Function.Injective (List.flatMap hexWord) := by
  intro first
  induction first with
  | nil =>
      rintro (_ | ⟨other, others⟩) h
      · rfl
      · cases h
  | cons word words ih =>
      rintro (_ | ⟨other, others⟩) h
      · cases h
      · rw [List.flatMap_cons, List.flatMap_cons] at h
        obtain ⟨hword, hwords⟩ := List.append_inj h rfl
        rw [hexWord_injective hword, ih hwords]

/-- Two different messages with one digest. -/
def Collide (first second : List UInt8) : Prop := first ≠ second ∧ digest first = digest second

instance (first second : List UInt8) : Decidable (Collide first second) :=
  inferInstanceAs (Decidable (_ ∧ _))

theorem Registers.words_injective : Function.Injective Registers.words := by
  rintro ⟨a, b, c, d, e⟩ ⟨a', b', c', d', e'⟩ h
  simpa [Registers.words] using h

theorem digest_eq_of_hexDigest_eq {first second : List UInt8}
    (h : hexDigest first = hexDigest second) : digest first = digest second :=
  Registers.words_injective (flatMap_hexWord_injective (String.ofList_inj.mp h))

theorem eq_of_hexDigest_eq {first second : List UInt8} (hfree : ¬ Collide first second)
    (h : hexDigest first = hexDigest second) : first = second :=
  by_contra fun hne => hfree ⟨hne, digest_eq_of_hexDigest_eq h⟩

end Sha1

/-! ## Content -/

namespace Commit

variable {first second : Commit}

theorem utf8Bytes_injective : Function.Injective utf8Bytes := by
  intro first second h
  exact String.ofList_injective (String.toByteArray_inj.mp (ByteArray.ext (Array.toList_inj.mp h)))

/-- Two commits say the same; only their ids may differ. -/
structure SameContent (first second : Commit) : Prop where
  root : first.root = second.root
  parents : first.parents = second.parents
  updater : first.updater = second.updater
  time : first.time = second.time
  message : first.message = second.message
  branchName : first.branchName = second.branchName

theorem contentText_eq_iff : first.contentText = second.contentText ↔ SameContent first second := by
  constructor
  · intro h
    rw [eq_of_contentText h]
    exact ⟨rfl, rfl, rfl, rfl, rfl, rfl⟩
  · intro h
    rw [contentText, contentText, content, content, h.root, h.parents, h.updater, h.time, h.message,
      h.branchName]

/-- The texts that the ids of the two commits are digests of are a collision. -/
def Collide (first second : Commit) : Prop :=
  Sha1.Collide (utf8Bytes first.contentText) (utf8Bytes second.contentText)

instance (first second : Commit) : Decidable (Collide first second) :=
  inferInstanceAs (Decidable (Sha1.Collide _ _))

theorem computedId_eq_iff (hfree : ¬ Collide first second) :
    first.computedId = second.computedId ↔ SameContent first second := by
  rw [← contentText_eq_iff]
  constructor
  · intro h
    have hdigits := (String.append_right_inj "#").mp h
    exact utf8Bytes_injective (Sha1.eq_of_hexDigest_eq hfree hdigits)
  · intro h
    rw [computedId, computedId, h]

/-- Under the id of an intact commit, only what this commit says is intact. -/
theorem isIntact_iff (hfree : ¬ Collide first second) (hintact : first.isIntact)
    (hid : second.id = first.id) : second.isIntact ↔ SameContent first second := by
  rw [← computedId_eq_iff hfree, isIntact, decide_eq_true_iff, hid,
    of_decide_eq_true (hintact : decide _ = true)]

/-- The text of a commit tells its content, and so does its id unless digests collide: then the id
is intact under no other content.  Being sent does not change it. -/
theorem id_tells_content (first second : Commit) :
    (first.contentText = second.contentText ↔ SameContent first second) ∧
      (¬ Collide first second →
        (first.computedId = second.computedId ↔ SameContent first second) ∧
          (first.isIntact → second.id = first.id →
            (second.isIntact ↔ SameContent first second))) ∧
      (first.Dated → ∃ read, Json.parse? first.toJson.render >>= ofJson? = some read ∧
        read.id = first.id ∧ read.computedId = first.computedId) := by
  refine ⟨contentText_eq_iff, fun hfree => ⟨computedId_eq_iff hfree, isIntact_iff hfree⟩, ?_⟩
  intro hdated
  exact ⟨first, readsText hdated, rfl, rfl⟩

/-- A commit without parents, under the id that fits it. -/
def initial : Commit where
  id := "#b4f86ef86d99f77afeb727faaad594756cc5690b"
  root := "#root0"
  parents := []
  updater := []
  time := 1700000000000
  message := "initial"
  branchName := none

/-- With another message it is not intact, and for a branch it would have another id. -/
theorem id_tells_content_edited :
    initial.isIntact ∧ ¬ { initial with message := "edited" }.isIntact ∧
      { initial with branchName := some "" }.computedId ≠ initial.computedId ∧
      ∃ read, Json.parse? initial.toJson.render >>= ofJson? = some read ∧ read.id = initial.id := by
  have hintact : initial.isIntact := by decide +kernel
  have hmessage : ¬ Collide initial { initial with message := "edited" } := by decide +kernel
  have hbranch : ¬ Collide initial { initial with branchName := some "" } := by decide +kernel
  obtain ⟨-, hmessages, hsent⟩ := id_tells_content initial { initial with message := "edited" }
  obtain ⟨-, hbranches, -⟩ := id_tells_content initial { initial with branchName := some "" }
  refine ⟨hintact, fun hedited => ?_, fun hid => ?_, ?_⟩
  · exact absurd (((hmessages hmessage).2 hintact rfl).mp hedited).message (by decide)
  · exact absurd ((hbranches hbranch).1.mp hid.symm).branchName (by decide)
  · obtain ⟨read, hread, hid, -⟩ := hsent ⟨by decide, by decide⟩
    exact ⟨read, hread, hid⟩

end Commit

end Coauthor
