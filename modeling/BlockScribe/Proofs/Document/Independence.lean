import BlockScribe.Proofs.Document.Positions
import BlockScribe.Proofs.Document.UniqueReading

/-!
# Documents of other stores and actors

The name of a store is known wherever blocks are written, but it shows in two
places only: as the key of the whole list, and in the ids that are derived for
blocks without one.  Two documents of the same blocks are compared operation by
operation, the number of each counted along, and stored block by stored block.
The actor is no part of the operations at all.
-/

namespace BlockScribe

/-! ## Operations -/

/--
The same operations from `number` on, but for the ids of blocks without one.
Such an id is set right behind the operation that makes the map of its block.
-/
inductive SameButIds (store store' : String) (blocks : List Block) :
    Nat → List Operation → List Operation → Prop
  | nil {number : Nat} : SameButIds store store' blocks number [] []
  | same {number : Nat} {operation : Operation} {rest rest' : List Operation}
      (later : SameButIds store store' blocks (number + 1) rest rest') :
      SameButIds store store' blocks number (operation :: rest) (operation :: rest')
  | derived {number list index : Nat} {path : List Nat} {rest rest' : List Operation}
      (unnamed : Unnamed blocks (path ++ [index]))
      (later : SameButIds store store' blocks (number + 2) rest rest') :
      SameButIds store store' blocks number
        (.make .map list (.index index) ::
          .set number (.key "id") (.text (Identifier.derive store (path ++ [index]))) :: rest)
        (.make .map list (.index index) ::
          .set number (.key "id") (.text (Identifier.derive store' (path ++ [index]))) :: rest')

variable {store store' : String} {blocks : List Block}

namespace SameButIds

theorem refl (number : Nat) (operations : List Operation) :
    SameButIds store store' blocks number operations operations := by
  induction operations generalizing number with
  | nil => exact .nil
  | cons operation rest ih => exact .same (ih (number + 1))

theorem length_eq {number : Nat} {a a' : List Operation}
    (alike : SameButIds store store' blocks number a a') : a.length = a'.length := by
  induction alike with
  | nil => rfl
  | same _ ih => rw [List.length_cons, List.length_cons, ih]
  | derived _ _ ih => simp only [List.length_cons, ih]

theorem append {number : Nat} {a a' b b' : List Operation}
    (first : SameButIds store store' blocks number a a')
    (second : SameButIds store store' blocks (number + a.length) b b') :
    SameButIds store store' blocks number (a ++ b) (a' ++ b') := by
  induction first with
  | nil => exact second
  | same _ ih =>
      rw [List.length_cons, Nat.add_comm _ 1, ← Nat.add_assoc] at second
      exact .same (ih second)
  | derived unnamed _ ih =>
      rw [List.length_cons, List.length_cons, Nat.add_assoc, Nat.add_comm _ 2,
        ← Nat.add_assoc] at second
      exact .derived unnamed (ih second)

end SameButIds

/-! ## Stored blocks -/

mutual

/-- One stored block in two documents; nothing but the id may differ, and below it likewise. -/
inductive SameButId (store store' : String) : List Nat → Block → BlockView → BlockView → Prop
  | intro {path : List Nat} {block : Block} {view : BlockView} {children' : List BlockView}
      (id : view.id = block.id.getD (Identifier.derive store path))
      (children : SameViews store store' path 0 block.children view.children children') :
      SameButId store store' path block view
        { view with
          id := block.id.getD (Identifier.derive store' path)
          children := children' }

/-- As many stored blocks in two documents, the first of them at `index` below `path`. -/
inductive SameViews (store store' : String) :
    List Nat → Nat → List Block → List BlockView → List BlockView → Prop
  | nil {path : List Nat} {index : Nat} : SameViews store store' path index [] [] []
  | cons {path : List Nat} {index : Nat} {block : Block} {view view' : BlockView}
      {blocks : List Block} {views views' : List BlockView}
      (first : SameButId store store' (path ++ [index]) block view view')
      (rest : SameViews store store' path (index + 1) blocks views views') :
      SameViews store store' path index (block :: blocks) (view :: views) (view' :: views')

end

/-! ## Plans for two stores -/

namespace Plan

/-- Of the plan of a block only its id and the plans below it depend on the store. -/
theorem ofBlock_other {path : List Nat} {block : Block} {plan plan' : Plan}
    (planned : ofBlock store path block = .ok plan)
    (planned' : ofBlock store' path block = .ok plan') :
    plan' = { plan with
      id := block.id.getD (Identifier.derive store' path)
      children := plan'.children } := by
  obtain ⟨known, -, props, body, -⟩ := ofBlock_eq_ok planned
  obtain ⟨known', id', props', body', -⟩ := ofBlock_eq_ok planned'
  obtain ⟨_, type, _, _, _⟩ := plan
  obtain ⟨_, type', _, _, _⟩ := plan'
  cases id'
  cases known.symm.trans known'
  cases props.symm.trans props'
  cases body.symm.trans body'
  rfl

mutual

theorem sameButId_of_block : (block : Block) → {path : List Nat} → {plan plan' : Plan} →
    ofBlock store path block = .ok plan → ofBlock store' path block = .ok plan' →
    SameButId store store' path block plan.view plan'.view
  | ⟨id, name, given, content, children⟩, path, plan, plan', planned, planned' => by
      obtain ⟨-, derived, -, -, below⟩ := ofBlock_eq_ok planned
      obtain ⟨-, -, -, -, below'⟩ := ofBlock_eq_ok planned'
      have inner := sameViews_of_blocks children below below'
      rw [ofBlock_other planned planned']
      cases plan
      rw [view, view]
      exact .intro derived inner

theorem sameViews_of_blocks : (blocks : List Block) → {path : List Nat} → {index : Nat} →
    {plans plans' : List Plan} → ofBlocks store path index blocks = .ok plans →
    ofBlocks store' path index blocks = .ok plans' →
    SameViews store store' path index blocks (plans.map view) (plans'.map view)
  | [], path, index, plans, plans', planned, planned' => by
      rw [ofBlocks_nil_eq_ok planned, ofBlocks_nil_eq_ok planned']
      exact .nil
  | block :: blocks, path, index, plans, plans', planned, planned' => by
      obtain ⟨plan, rest, rfl, taken, later⟩ := ofBlocks_cons_eq_ok planned
      obtain ⟨plan', rest', rfl, taken', later'⟩ := ofBlocks_cons_eq_ok planned'
      exact .cons (sameButId_of_block block taken taken')
        (sameViews_of_blocks blocks later later')

end

end Plan

/-! ## Scripts for two stores -/

theorem atPath?_below {α : Type} {below : α → List α} {items : List α} {path : List Nat} {item : α}
    (there : atPath? below items path = some item) (index : Nat) :
    atPath? below items (path ++ [index]) = (below item)[index]? := by
  induction path generalizing items with
  | nil => simp [atPath?] at there
  | cons next path ih =>
      cases path with
      | nil =>
          rw [atPath?] at there
          simp [atPath?, there]
      | cons _ path =>
          obtain ⟨inner, here, deeper⟩ := Option.bind_eq_some_iff.mp there
          have lower := ih deeper
          simpa [atPath?, here] using lower

namespace Script

/-- Two scripts write the same from any number on, but for the ids of blocks without one. -/
def Alike (store store' : String) (blocks : List Block) (script script' : Script) : Prop :=
  ∀ first, SameButIds store store' blocks first (script first) (script' first)

namespace Alike

theorem refl (script : Script) : Alike store store' blocks script script :=
  fun first => .refl first (script first)

theorem append {a a' b b' : Script} (first : Alike store store' blocks a a')
    (second : Alike store store' blocks b b') : Alike store store' blocks (a ++ b) (a' ++ b') := by
  intro number
  rw [append_apply, append_apply, ← (first number).length_eq]
  exact (first number).append (second _)

theorem making {kind : ObjectKind} {owner : Nat} {place : Place} {body body' : Nat → Script}
    (inner : ∀ object, Alike store store' blocks (body object) (body' object)) :
    Alike store store' blocks (making kind owner place body) (making kind owner place body') :=
  fun number => .same (inner number (number + 1))

/-- The map of a block, with the blocks in it written alike. -/
theorem block {list index : Nat} {path : List Nat} {given : Block} {plan plan' : Plan}
    (planned : Plan.ofBlock store (path ++ [index]) given = .ok plan)
    (planned' : Plan.ofBlock store' (path ++ [index]) given = .ok plan')
    (there : atPath? Block.children blocks (path ++ [index]) = some given)
    (inner : ∀ object, Alike store store' blocks (childrenOf object plan.children)
      (childrenOf object plan'.children)) :
    Alike store store' blocks (Script.block list index plan) (Script.block list index plan') := by
  obtain ⟨-, id, -, -, -⟩ := Plan.ofBlock_eq_ok planned
  rw [Plan.ofBlock_other planned planned', block_eq, block_eq]
  -- All that is written behind the id.
  have rest (object : Nat) : Alike store store' blocks
      (setting object (.key "type") (.text plan.type.name) ++ (props object plan.props ++
        (body object plan.body ++ childrenOf object plan.children)))
      (setting object (.key "type") (.text plan.type.name) ++ (props object plan.props ++
        (body object plan.body ++ childrenOf object plan'.children))) :=
    .append (.refl _) (.append (.refl _) (.append (.refl _) (inner object)))
  cases given_id : given.id with
  | some name =>
      rw [given_id, Option.getD_some] at id
      refine .making fun object => ?_
      rw [fields, fields, id]
      exact .append (.refl _) (rest object)
  | none =>
      rw [given_id, Option.getD_none] at id
      intro first
      have unnamed : Unnamed blocks (path ++ [index]) := ⟨given, there, given_id⟩
      have later := @SameButIds.derived _ _ _ first list _ _ _ _ unnamed (rest first (first + 2))
      rw [← id] at later
      exact later

end Alike

mutual

theorem alike_block : (given : Block) → {path : List Nat} → {list index : Nat} →
    {plan plan' : Plan} → Plan.ofBlock store (path ++ [index]) given = .ok plan →
    Plan.ofBlock store' (path ++ [index]) given = .ok plan' →
    atPath? Block.children blocks (path ++ [index]) = some given →
    Alike store store' blocks (block list index plan) (block list index plan')
  | ⟨id, name, given, content, children⟩, path, list, index, plan, plan', planned, planned',
      there => by
      obtain ⟨-, -, -, -, below⟩ := Plan.ofBlock_eq_ok planned
      obtain ⟨-, -, -, -, below'⟩ := Plan.ofBlock_eq_ok planned'
      refine .block planned planned' there fun object => .making fun list => ?_
      refine alike_blocks children below below' fun place inner here => ?_
      rw [Nat.zero_add, atPath?_below there]
      exact here

theorem alike_blocks : (given : List Block) → {path : List Nat} → {list index : Nat} →
    {plans plans' : List Plan} → Plan.ofBlocks store path index given = .ok plans →
    Plan.ofBlocks store' path index given = .ok plans' →
    (∀ place inner, given[place]? = some inner →
      atPath? Block.children blocks (path ++ [index + place]) = some inner) →
    Alike store store' blocks (Script.blocks list index plans) (Script.blocks list index plans')
  | [], path, list, index, plans, plans', planned, planned', _ => by
      rw [Plan.ofBlocks_nil_eq_ok planned, Plan.ofBlocks_nil_eq_ok planned']
      exact .refl _
  | first :: given, path, list, index, plans, plans', planned, planned', there => by
      obtain ⟨plan, rest, rfl, taken, later⟩ := Plan.ofBlocks_cons_eq_ok planned
      obtain ⟨plan', rest', rfl, taken', later'⟩ := Plan.ofBlocks_cons_eq_ok planned'
      rw [Script.blocks, Script.blocks]
      refine .append (alike_block first taken taken' (there 0 first rfl)) ?_
      refine alike_blocks given later later' fun place inner here => ?_
      rw [Nat.add_assoc, Nat.add_comm 1 place]
      exact there (place + 1) inner here

end

end Script

/-! ## Documents -/

/--
Neither the name of the store nor the actor has a say in the document.  Blocks
fail for two pairs of them with one error, or the two documents differ in the
key of the list, in the actor, and in the ids of the blocks that came without
one; for one store they do not differ at all but in the actor.
-/
theorem construct_independent (format : Format) (store store' : String) (actor actor' : Actor)
    (blocks : List Block) :
    (∃ error, construct store blocks = .error error ∧ construct store' blocks = .error error) ∨
    ∃ operations operations' views views',
      construct store blocks = .ok operations ∧ construct store' blocks = .ok operations' ∧
      format.load? (format.save actor operations) = some (actor, operations) ∧
      format.load? (format.save actor' operations') = some (actor', operations') ∧
      (∃ rest rest', operations = .make .list rootObject (.key store) :: rest ∧
        operations' = .make .list rootObject (.key store') :: rest' ∧
        SameButIds store store' blocks (firstNumber + 1) rest rest') ∧
      readBlocks? operations store = some views ∧ readBlocks? operations' store' = some views' ∧
      SameViews store store' [] 0 blocks views views' ∧
      (store = store' → operations = operations' ∧ views = views') := by
  have reports := construct_reports store blocks
  have reports' := construct_reports store' blocks
  cases made : construct store blocks with
  | error error =>
      refine .inl ⟨error, rfl, ?_⟩
      rw [reports'.error_iff, ← reports.error_iff, made]
  | ok operations =>
      obtain ⟨operations', made'⟩ := reports'.ok_iff.mpr (reports.ok_iff.mp ⟨operations, made⟩)
      have loaded := format.load?_save_of_construct actor made
      have loaded' := format.load?_save_of_construct actor' made'
      obtain ⟨plans, planned, constructed⟩ := bind_eq_ok.mp made
      obtain ⟨plans', planned', constructed'⟩ := bind_eq_ok.mp made'
      cases constructed
      cases constructed'
      refine .inr ⟨_, _, plans.map Plan.view, plans'.map Plan.view, rfl, made',
        loaded, loaded', ⟨_, _, rfl, rfl, ?_⟩,
        readBlocks?_store store plans, readBlocks?_store store' plans',
        Plan.sameViews_of_blocks blocks planned planned', ?_⟩
      · refine Script.alike_blocks blocks planned planned' (fun place inner here => ?_) _
        rw [Nat.zero_add]
        exact here
      · rintro rfl
        cases planned.symm.trans planned'
        exact ⟨rfl, rfl⟩

end BlockScribe
