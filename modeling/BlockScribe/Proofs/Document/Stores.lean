import BlockScribe.Proofs.Document.Identifier
import BlockScribe.Proofs.Document.UniqueReading
import BlockScribe.Proofs.Text.Utf8

/-!
# Ids below different names

Nothing in a message marks where the name of the store ends and the indices
begin.  A name without the character U+0000 has no zero among its bytes though,
and eight bytes of a small index begin with one, so a message can be cut in one
way only.
-/

namespace BlockScribe.Identifier

/-- A name that a command line can give, and a position below it with indices of seven bytes. -/
structure Addresses (store : String) (path : List Nat) : Prop where
  named : '\x00' ∉ store.toList
  nonempty : path ≠ []
  small : ∀ index ∈ path, index < 0x100000000000000

variable {store store' : String} {path path' : List Nat}

namespace Addresses

theorem counted (addresses : Addresses store path) : Counted path := by
  intro index member
  have small := addresses.small index member
  simp only [UInt64.size]
  omega

/-- No byte of the name is zero. -/
theorem ne_zero_of_mem (addresses : Addresses store path) : ∀ byte ∈ utf8 store, byte ≠ 0 := by
  rintro byte member rfl
  exact ascii_not_mem_utf8 (by decide) rfl addresses.named member

end Addresses

theorem head?_indexBytes {index : Nat} (small : index < 0x100000000000000) :
    (indexBytes index).head? = some 0 := by
  have first : index >>> 56 = 0 := by
    rw [Nat.shiftRight_eq_div_pow]
    omega
  simp [indexBytes, Sha256.bigEndian, List.range_succ, first]

/-- The byte behind the name is zero. -/
theorem Addresses.eq_zero_of_head? (addresses : Addresses store path) :
    ∀ byte ∈ (path.flatMap indexBytes).head?, ¬byte ≠ 0 := by
  obtain ⟨-, nonempty, small⟩ := addresses
  cases path with
  | nil => exact absurd rfl nonempty
  | cons index path =>
      have first := head?_indexBytes (small index List.mem_cons_self)
      simp [List.head?_append, first]

/-- The message tells the name and the position. -/
theorem Addresses.message_inj (addresses : Addresses store path)
    (addresses' : Addresses store' path') :
    message store path = message store' path' ↔ store = store' ∧ path = path' := by
  constructor
  · intro same
    obtain ⟨names, indices⟩ := append_inj_of_forall same addresses.ne_zero_of_mem
      addresses'.ne_zero_of_mem addresses.eq_zero_of_head? addresses'.eq_zero_of_head?
    exact ⟨utf8_inj.mp names,
      (flatMap_indexBytes_inj addresses.counted addresses'.counted).mp indices⟩
  · rintro ⟨rfl, rfl⟩
    rfl

/--
Stores of different names have no message in common, and neither have two
positions below one name.  So ids are the same only if they were derived for one
position below one name, or else their messages are told apart by nothing in the
heads of their digests.
-/
theorem derive_eq_iff (addresses : Addresses store path) (addresses' : Addresses store' path') :
    (message store path = message store' path' ↔ store = store' ∧ path = path') ∧
      ((digestHead store path = digestHead store' path' →
          message store path = message store' path') →
        (derive store path = derive store' path' ↔ store = store' ∧ path = path')) := by
  have messages := addresses.message_inj addresses'
  refine ⟨messages, fun collisionFree => ⟨fun same => ?_, ?_⟩⟩
  · exact messages.mp (collisionFree (digestHead_of_derive same))
  · rintro ⟨rfl, rfl⟩
    rfl

/-- Names and positions of different lengths, and messages of one length. -/
theorem derive_eq_iff_sample : Addresses "notes" [0, 1] ∧ Addresses "notes of mine" [1] ∧
    message "notes" [0, 1] ≠ message "notes of mine" [1] ∧
    derive "notes" [0, 1] ≠ derive "notes of mine" [1] := by
  have addresses : Addresses "notes" [0, 1] := ⟨by decide, by decide, by decide⟩
  have addresses' : Addresses "notes of mine" [1] := ⟨by decide, by decide, by decide⟩
  obtain ⟨messages, ids⟩ := derive_eq_iff addresses addresses'
  have heads : digestHead "notes" [0, 1] ≠ digestHead "notes of mine" [1] := by decide +kernel
  have other : ¬("notes" = "notes of mine" ∧ [0, 1] = [1]) := by decide
  exact ⟨addresses, addresses', mt messages.mp other,
    mt (ids fun same => absurd same heads).mp other⟩

end BlockScribe.Identifier
