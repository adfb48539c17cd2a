import BlockScribe.Proofs.Text.Utf8

/-!
# Bytes that end every sequence

A byte below 0x80 belongs to no longer sequence.  Whatever the decoder is in the
middle of when it meets one, it gives that up, takes the byte for the character
that it is, and stands between characters again.  So a text can be cut at such
bytes before or after it is decoded, and it makes no difference; and no line
feed comes of bytes that are none.
-/

namespace BlockScribe

namespace Utf8

/-- The byte that comes next is above 0x7F, and what comes of the sequence is above a line feed. -/
def State.Sound : State → Prop
  | .between => True
  | .inside _ low _ code => 0x80 ≤ low.toNat ∧ '\n'.toNat < code * 64 + (low.toNat - 0x80)

theorem sound_between : State.between.Sound := trivial

theorem ofNat_ne_lineFeed {code : Nat} (other : code ≠ '\n'.toNat) : Char.ofNat code ≠ '\n' := by
  intro same
  by_cases valid : code.isValidChar
  · have here : Char.ofNat code = Char.ofNatAux code valid := dif_pos valid
    exact other (congrArg Char.toNat (here.symm.trans same))
  · have here : Char.ofNat code = Char.ofNat 0 := dif_neg valid
    exact absurd (here.symm.trans same) (by decide)

/-! ## One byte -/

theorem lead_ascii {byte : UInt8} (ascii : byte.toNat < 0x80) :
    lead byte = ([Char.ofNat byte.toNat], .between) := by
  simpa using lead_one ascii

theorem lead_sound (byte : UInt8) : (lead byte).2.Sound := by
  simp only [lead]
  split_ifs <;> simp [State.Sound] <;> omega

theorem lineFeed_not_mem_lead {byte : UInt8} (other : byte.toNat ≠ '\n'.toNat) :
    '\n' ∉ (lead byte).1 := by
  simp only [lead]
  split_ifs <;> simp [replacement, Ne.symm (ofNat_ne_lineFeed other)]

theorem step_ascii {state : State} (sound : state.Sound) {byte : UInt8}
    (ascii : byte.toNat < 0x80) :
    step state byte = (decodeFrom state [] ++ [Char.ofNat byte.toNat], .between) := by
  cases state with
  | between => simpa [step, decodeFrom] using lead_ascii ascii
  | inside missing low high code =>
      simp only [State.Sound] at sound
      have below : ¬ low ≤ byte := by
        rw [UInt8.le_iff_toNat_le]
        omega
      simp [step, below, lead_ascii ascii, decodeFrom]

theorem step_sound {state : State} (sound : state.Sound) (byte : UInt8) :
    (step state byte).2.Sound := by
  cases state with
  | between => exact lead_sound byte
  | inside missing low high code =>
      simp only [step]
      split_ifs with within last
      · exact trivial
      · have above := UInt8.le_iff_toNat_le.mp within.1
        simp only [State.Sound] at sound ⊢
        exact ⟨by decide, by omega⟩
      · exact lead_sound byte

theorem lineFeed_not_mem_step {state : State} (sound : state.Sound) {byte : UInt8}
    (other : byte.toNat ≠ '\n'.toNat) : '\n' ∉ (step state byte).1 := by
  cases state with
  | between => exact lineFeed_not_mem_lead other
  | inside missing low high code =>
      simp only [step]
      split_ifs with within last
      · have above := UInt8.le_iff_toNat_le.mp within.1
        simp only [State.Sound] at sound
        have large : code * 64 + (byte.toNat - 0x80) ≠ '\n'.toNat := by omega
        simp [Ne.symm (ofNat_ne_lineFeed large)]
      · simp
      · simp [replacement, lineFeed_not_mem_lead other]

/-- A byte that shows nothing yet begins a sequence or goes on with one. -/
theorem step_ne_nil {state : State} {byte : UInt8} :
    (step state byte).2 = .between → (step state byte).1 ≠ [] := by
  cases state with
  | between =>
      simp only [step, lead]
      split_ifs <;> simp
  | inside missing low high code =>
      simp only [step]
      split_ifs <;> simp

/-! ## Many bytes -/

theorem decodeFrom_append_ascii {state : State} (sound : state.Sound) (before : List UInt8)
    {byte : UInt8} (ascii : byte.toNat < 0x80) (rest : List UInt8) :
    decodeFrom state (before ++ byte :: rest) =
      decodeFrom state before ++ Char.ofNat byte.toNat :: decodeFrom .between rest := by
  induction before generalizing state with
  | nil => simp [decodeFrom_cons, step_ascii sound ascii]
  | cons first before ih =>
      simp [decodeFrom_cons, ih (step_sound sound first)]

theorem lineFeed_not_mem_decodeFrom {state : State} (sound : state.Sound) {bytes : List UInt8}
    (none : ∀ byte ∈ bytes, byte.toNat ≠ '\n'.toNat) : '\n' ∉ decodeFrom state bytes := by
  induction bytes generalizing state with
  | nil => cases state <;> simp [decodeFrom, replacement]
  | cons byte bytes ih =>
      simp only [List.mem_cons, forall_eq_or_imp] at none
      simp [decodeFrom_cons, lineFeed_not_mem_step sound none.1,
        ih (step_sound sound byte) none.2]

theorem decodeFrom_eq_nil {state : State} {bytes : List UInt8}
    (empty : decodeFrom state bytes = []) : state = .between ∧ bytes = [] := by
  induction bytes generalizing state with
  | nil => cases state <;> simp_all [decodeFrom]
  | cons byte bytes ih =>
      rw [decodeFrom_cons, List.append_eq_nil_iff] at empty
      exact absurd empty.1 (step_ne_nil (ih empty.2).1)

end Utf8

theorem decodeLossy_append_ascii (before : List UInt8) {byte : UInt8} (ascii : byte.toNat < 0x80)
    (rest : List UInt8) :
    decodeLossy (before ++ byte :: rest) =
      decodeLossy before ++ Char.ofNat byte.toNat :: decodeLossy rest :=
  Utf8.decodeFrom_append_ascii Utf8.sound_between before ascii rest

theorem lineFeed_not_mem_decodeLossy {bytes : List UInt8}
    (none : ∀ byte ∈ bytes, byte.toNat ≠ '\n'.toNat) : '\n' ∉ decodeLossy bytes :=
  Utf8.lineFeed_not_mem_decodeFrom Utf8.sound_between none

theorem decodeLossy_eq_nil {bytes : List UInt8} : decodeLossy bytes = [] ↔ bytes = [] := by
  refine ⟨fun empty => (Utf8.decodeFrom_eq_nil empty).2, ?_⟩
  rintro rfl
  rfl

end BlockScribe
