import BlockScribe.Proofs.Document.RoundTrip

/-!
# Blocks behind blocks

Blocks that are put behind others are planned and written behind them, from the
index and the operation number that those have left off at.  What comes first is
the same with and without them: its error if it has one, and otherwise its
operations and the blocks that are read back from them.
-/

namespace BlockScribe

/-! ## Plans -/

namespace Plan

theorem ofBlocks_append (store : String) (path : List Nat) (index : Nat) (a b : List Block) :
    ofBlocks store path index (a ++ b) = do
      let before ← ofBlocks store path index a
      let after ← ofBlocks store path (index + a.length) b
      return before ++ after := by
  induction a generalizing index with
  | nil =>
      rw [List.nil_append, ofBlocks]
      exact (bind_pure _).symm
  | cons block a ih =>
      rw [List.cons_append, ofBlocks, ih (index + 1), ofBlocks, List.length_cons,
        Nat.add_right_comm, Nat.add_assoc]
      simp only [bind_assoc, pure_bind, List.cons_append]

theorem length_ofBlocks {store : String} {path : List Nat} {index : Nat} {blocks : List Block}
    {plans : List Plan} (planned : ofBlocks store path index blocks = .ok plans) :
    plans.length = blocks.length := by
  induction blocks generalizing index plans with
  | nil =>
      rw [ofBlocks_nil_eq_ok planned]
      rfl
  | cons block blocks ih =>
      obtain ⟨plan, rest, rfl, -, later⟩ := ofBlocks_cons_eq_ok planned
      rw [List.length_cons, List.length_cons, ih later]

end Plan

/-! ## Scripts -/

namespace Script

theorem blocks_append (list index : Nat) (a b : List Plan) :
    blocks list index (a ++ b) = blocks list index a ++ blocks list (index + a.length) b := by
  induction a generalizing index with
  | nil =>
      rw [List.nil_append, blocks]
      funext first
      rfl
  | cons plan a ih =>
      rw [List.cons_append, blocks, ih (index + 1), blocks, append_assoc, List.length_cons,
        Nat.add_right_comm, Nat.add_assoc]

/-- The operations for further plans come behind all others. -/
theorem store_append (name : String) (a b : List Plan) (first : Nat) :
    store name (a ++ b) first = store name a first ++
      blocks first a.length b (first + (store name a first).length) := by
  have position : first + 1 + (blocks first 0 a (first + 1)).length =
      first + ((blocks first 0 a (first + 1)).length + 1) := by omega
  simp only [store, making, blocks_append, append_apply, List.cons_append, List.length_cons,
    Nat.zero_add, position]

end Script

/-! ## Documents -/

/--
Appending blocks only appends operations.  What is wrong with the first blocks
is reported whatever comes behind them; if nothing is, their operations begin
those of all blocks, and a document that is loaded shows them the same in both,
with the ids that were derived for them.
-/
theorem construct_append (format : Format) (store : String) (actor : Actor) (a b : List Block) :
    (∀ error, construct store a = .error error → construct store (a ++ b) = .error error) ∧
    ∀ whole, construct store (a ++ b) = .ok whole →
      ∃ part before after, construct store a = .ok part ∧ part <+: whole ∧
        format.load? (format.save actor part) = some (actor, part) ∧
        format.load? (format.save actor whole) = some (actor, whole) ∧
        readBlocks? part store = some before ∧
        readBlocks? whole store = some (before ++ after) ∧
        before.length = a.length ∧ after.length = b.length := by
  have planned : Plan.ofList store (a ++ b) = do
      let before ← Plan.ofList store a
      let after ← Plan.ofBlocks store [] a.length b
      return before ++ after := by
    rw [Plan.ofList, Plan.ofBlocks_append, Nat.zero_add, Plan.ofList]
  constructor
  · intro error failed
    rw [construct] at failed ⊢
    rw [planned]
    cases first : Plan.ofList store a with
    | ok plans =>
        rw [first] at failed
        cases failed
    | error found =>
        rw [first] at failed
        cases failed
        rfl
  · intro whole constructed
    have wholeLoaded := format.load?_save_of_construct actor constructed
    obtain ⟨plans, made, constructed⟩ := bind_eq_ok.mp constructed
    cases constructed
    rw [planned] at made
    obtain ⟨before, first, made⟩ := bind_eq_ok.mp made
    obtain ⟨after, second, made⟩ := bind_eq_ok.mp made
    cases made
    have part : construct store a = .ok (Script.store store before firstNumber) := by
      rw [construct, first]
      rfl
    refine ⟨Script.store store before firstNumber, before.map Plan.view, after.map Plan.view, part,
      ?_, format.load?_save_of_construct actor part, wholeLoaded, readBlocks?_store store before,
      ?_, ?_, ?_⟩
    · rw [Script.store_append]
      exact List.prefix_append _ _
    · rw [readBlocks?_store, List.map_append]
    · rw [List.length_map, Plan.length_ofBlocks first]
    · rw [List.length_map, Plan.length_ofBlocks second]

theorem construct_append_sample :
    let quote : Block := ⟨some "top", "quote", .empty, none, []⟩
    let paragraph : Block := ⟨none, "paragraph", .empty, none, []⟩
    let unknown : Block := ⟨none, "nothing", .empty, none, []⟩
    (∃ part whole, construct "notes" [quote] = .ok part ∧
      construct "notes" [quote, paragraph] = .ok whole ∧ part <+: whole) ∧
    construct "notes" [unknown, paragraph] = .error (.unknownType "nothing") := by
  intro quote paragraph unknown
  constructor
  · obtain ⟨whole, constructed⟩ :
        ∃ whole, construct "notes" [quote, paragraph] = .ok whole := ⟨_, rfl⟩
    obtain ⟨part, _, _, first, begins, -⟩ :=
      (construct_append .payload "notes" [7] [quote] [paragraph]).2 whole constructed
    exact ⟨part, whole, first, constructed, begins⟩
  · exact (construct_append .payload "notes" [7] [unknown] [paragraph]).1 _ rfl

end BlockScribe
