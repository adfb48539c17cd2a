import BlockScribe.Document.Heap
import BlockScribe.Document.Payload

/-!
# Formats

How documents are kept as bytes.  That is the business of a document library, and
nothing here looks into the bytes: a document that was saved can be loaded again
as it was, and there is always something to save.  Payloads are one such format.
-/

namespace BlockScribe

/-- Saving and loading, for operations that do build a document. -/
structure Format where
  save : Actor → List Operation → List UInt8
  load? : List UInt8 → Option (Actor × List Operation)
  load?_save : ∀ actor operations, (Heap.replay? operations).isSome →
    load? (save actor operations) = some (actor, operations)
  save_ne_nil : ∀ actor operations, save actor operations ≠ []

namespace Format

def payload : Format where
  save := Payload.encode
  load? := Payload.decode?
  load?_save actor operations _ := Payload.decode?_encode actor operations
  save_ne_nil := Payload.encode_ne_nil

/-- No two documents are saved alike. -/
theorem save_inj (format : Format) {actor actor' : Actor} {operations operations' : List Operation}
    (built : (Heap.replay? operations).isSome) (built' : (Heap.replay? operations').isSome) :
    format.save actor operations = format.save actor' operations' ↔
      actor = actor' ∧ operations = operations' := by
  constructor
  · intro same
    have loaded := format.load?_save actor operations built
    rw [same, format.load?_save actor' operations' built', Option.some_inj, Prod.mk.injEq] at loaded
    exact ⟨loaded.1.symm, loaded.2.symm⟩
  · rintro ⟨rfl, rfl⟩
    rfl

end Format

end BlockScribe
