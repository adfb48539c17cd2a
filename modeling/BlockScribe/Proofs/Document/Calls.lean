import BlockScribe.Proofs.Document.UniqueReading
import BlockScribe.Proofs.Result

/-!
# Writing while checking

A script is written once all plans are made.  Blocks can as well be written as
they are looked at; an error is then found among operations that are already
done, and ends them.  Both ways come to the same: they report the same error,
and if there is none they write the same operations.
-/

namespace BlockScribe

/-- The operations that were done, and the error that ended them if one did. -/
structure Trace where
  operations : List Operation
  error? : Option SchemaError

def Trace.result (trace : Trace) : Except SchemaError (List Operation) :=
  match trace.error? with
  | none => .ok trace.operations
  | some error => .error error

theorem Trace.result_eq_ok {trace : Trace} {operations : List Operation} :
    trace.result = .ok operations ↔ trace.error? = none ∧ trace.operations = operations := by
  obtain ⟨done, _ | error⟩ := trace <;> simp [result]

theorem Trace.result_eq_error {trace : Trace} {error : SchemaError} :
    trace.result = .error error ↔ trace.error? = some error := by
  obtain ⟨done, _ | found⟩ := trace <;> simp [result]

/-- Operations up to an error, given the number of the first of them. -/
def Calls := Nat → Trace

namespace Calls

variable {α β : Type}

def nothing : Calls := fun _ => ⟨[], none⟩

def fail (error : SchemaError) : Calls := fun _ => ⟨[], some error⟩

def write (script : Script) : Calls := fun first => ⟨script first, none⟩

/-- What is written of a value if it could be made. -/
def writing (made : Except SchemaError α) (script : α → Script) : Calls :=
  match made with
  | .ok value => write (script value)
  | .error error => fail error

def append (a b : Calls) : Calls := fun first =>
  let trace := a first
  match trace.error? with
  | some _ => trace
  | none =>
      let rest := b (first + trace.operations.length)
      ⟨trace.operations ++ rest.operations, rest.error?⟩

instance : Append Calls := ⟨append⟩

def making (kind : ObjectKind) (object : Nat) (place : Place) (body : Nat → Calls) : Calls :=
  fun number =>
    let trace := body number (number + 1)
    ⟨.make kind object place :: trace.operations, trace.error?⟩

/-- Items one after the other, the first of them at `index`. -/
def sequence (one : Nat → α → Calls) : Nat → List α → Calls
  | _, [] => nothing
  | index, item :: items => one index item ++ sequence one (index + 1) items

/-! ## Parts of a block -/

def props (owner : PropOwner) (object : Nat) (given : SortedMap Json) : Calls :=
  writing (owner.planProps given) (Script.props object)

def cell (row index : Nat) (cell : Cell) : Calls :=
  making .map row (.index index) fun object =>
    props .cell object cell.props ++ write (Script.flatText object (.ofInline cell.content))

def rows (list : Nat) : Nat → List (List Cell) → Calls :=
  sequence fun index cells =>
    making .list list (.index index) fun row => sequence (cell row) 0 cells

def table (object : Nat) (table : Table) : Calls :=
  (write <| Script.making .list object (.key "columnWidths") fun list =>
    Script.values list 0 (table.columnWidths.map Scalar.ofWidth)) ++
  making .list object (.key "rows") fun list => rows list 0 table.rows

/-- Of all contents only the rows of a table are checked while they are written. -/
def content (object : Nat) (type : BlockType) (given : Option Content) : Calls :=
  match type.contentKind, given with
  | .table, some (.table given) => table object given
  | _, _ => writing (Body.ofContent type given) (Script.body object)

/-! ## Blocks -/

mutual

def block (store : String) (path : List Nat) (list index : Nat) : Block → Calls
  | ⟨id, typeName, given, inner, blocks⟩ =>
      making .map list (.index index) fun object =>
        match BlockType.ofName? typeName with
        | none => fail (.unknownType typeName)
        | some type =>
            write (Script.setting object (.key "id")
              (.text (id.getD (Identifier.derive store path)))) ++
            (write (Script.setting object (.key "type") (.text type.name)) ++
              (props (.block type) object given ++
                (content object type inner ++
                  making .list object (.key "children") fun children =>
                    Calls.blocks store path children 0 blocks)))

def blocks (store : String) (path : List Nat) (list index : Nat) : List Block → Calls
  | [] => nothing
  | inner :: rest =>
      block store (path ++ [index]) list index inner ++
        blocks store path list (index + 1) rest

end

def store (name : String) (list : List Block) : Calls :=
  making .list rootObject (.key name) fun object => blocks name [] object 0 list

/-! ## Results -/

/-- Calls have the errors of what makes a value, and the operations that it is written with. -/
def Writes (calls : Calls) (made : Except SchemaError α) (script : α → Script) : Prop :=
  ∀ first, (calls first).result = made.map (script · first)

theorem result_append (a b : Calls) (first : Nat) :
    ((a ++ b) first).result = do
      let operations ← (a first).result
      let rest ← (b (first + operations.length)).result
      return operations ++ rest := by
  show (append a b first).result = _
  cases stops : (a first).error? with
  | some error => simp [append, stops, Trace.result, bind, Except.bind]
  | none =>
      cases stops' : (b (first + (a first).operations.length)).error? <;>
        simp [append, stops, stops', Trace.result, bind, Except.bind, pure, Except.pure]

theorem result_making (kind : ObjectKind) (owner : Nat) (place : Place) (body : Nat → Calls)
    (number : Nat) : (making kind owner place body number).result =
      (body number (number + 1)).result.map (.make kind owner place :: ·) := by
  cases stops : (body number (number + 1)).error? <;> simp [making, Trace.result, stops, Except.map]

namespace Writes

variable {γ : Type} {made : Except SchemaError α} {script : α → Script}

theorem writing (made : Except SchemaError α) (script : α → Script) :
    Writes (writing made script) made script := by
  cases made <;> exact fun _ => rfl

theorem append {a b : Calls} {made' : Except SchemaError β} {script' : β → Script}
    (first : Writes a made script) (second : Writes b made' script') (combine : α → β → γ)
    {whole : γ → Script} (splits : ∀ x y, whole (combine x y) = script x ++ script' y) :
    Writes (a ++ b) (do return combine (← made) (← made')) whole := by
  intro number
  rw [result_append, first number]
  cases made with
  | error error => rfl
  | ok x =>
      have rest := second (number + (script x number).length)
      cases made' with
      | error error => simp [Except.map, bind, Except.bind, rest]
      | ok y =>
          simp [Except.map, bind, Except.bind, pure, Except.pure, rest, splits,
            Script.append_apply]

theorem pair {a b : Calls} {made' : Except SchemaError β} {script' : β → Script}
    (first : Writes a made script) (second : Writes b made' script') :
    Writes (a ++ b) (do return (← made, ← made')) fun parts => script parts.1 ++ script' parts.2 :=
  first.append second Prod.mk fun _ _ => rfl

theorem map {calls : Calls} (writes : Writes calls made script) (f : α → β)
    {whole : β → Script} (same : ∀ value, whole (f value) = script value) :
    Writes calls (do return f (← made)) whole := by
  intro number
  rw [writes number]
  cases made with
  | error error => rfl
  | ok value =>
      show Except.ok (script value number) = Except.ok (whole (f value) number)
      rw [same]

theorem write (script : Script) : Writes (Calls.write script) (.ok ()) fun _ => script :=
  fun _ => rfl

theorem after {calls : Calls} (writes : Writes calls made script) (before : Script) :
    Writes (Calls.write before ++ calls) made fun value => before ++ script value := by
  have whole := (Writes.write before).append writes (fun _ value => value) fun _ _ => rfl
  have same : (do return (fun _ value => value) (← Except.ok ()) (← made)) = made := bind_pure made
  rwa [same] at whole

theorem making {kind : ObjectKind} {owner : Nat} {place : Place} {body : Nat → Calls}
    {script : Nat → α → Script} (writes : ∀ object, Writes (body object) made (script object)) :
    Writes (making kind owner place body) made
      fun value => Script.making kind owner place fun object => script object value := by
  intro number
  rw [result_making, writes number]
  cases made <;> rfl

/-- Items are looked at and written in the same order. -/
theorem sequence {one : Nat → α → Calls} {make : α → Except SchemaError β}
    {script : Nat → β → Script} (all : Nat → List β → Script)
    (nil : ∀ index, all index [] = Script.nothing)
    (cons : ∀ index value values,
      all index (value :: values) = script index value ++ all (index + 1) values)
    {items : List α} (each : ∀ item index, Writes (one index item) (make item) (script index))
    (index : Nat) : Writes (sequence one index items) (items.mapM make) (all index) := by
  induction items generalizing index with
  | nil =>
      intro first
      show Except.ok [] = Except.ok (all index [] first)
      rw [nil]
      rfl
  | cons item items ih =>
      rw [List.mapM_cons]
      exact (each item index).append (ih (index + 1)) List.cons (cons index)

end Writes

/-! ## Blocks by their parts -/

theorem writes_cell (row index : Nat) (given : Cell) :
    Writes (cell row index given) given.plan (Script.cell row index) := by
  refine .making fun object => ?_
  exact (Writes.writing (PropOwner.cell.planProps given.props) (Script.props object)).append
    (.write (Script.flatText object (.ofInline given.content)))
    (fun props _ => CellPlan.mk props (.ofInline given.content)) fun _ _ => rfl

theorem writes_row (list index : Nat) (given : List Cell) :
    Writes (making .list list (.index index) fun row => sequence (cell row) 0 given)
      (given.mapM Cell.plan)
      fun plans => Script.making .list list (.index index) fun row => Script.cells row 0 plans :=
  .making fun row => .sequence (Script.cells row) (fun _ => rfl) (fun _ _ _ => rfl)
    (fun given index => writes_cell row index given) 0

theorem writes_rows (list index : Nat) (given : List (List Cell)) :
    Writes (rows list index given) (given.mapM fun row => row.mapM Cell.plan)
      (Script.rows list index) :=
  .sequence (Script.rows list) (fun _ => rfl) (fun _ _ _ => rfl)
    (fun given index => writes_row list index given) index

theorem writes_table (object : Nat) (given : Table) :
    Writes (table object given) (Body.ofTable given) (Script.body object) :=
  (Writes.write (Script.making .list object (.key "columnWidths") fun list =>
    Script.values list 0 (given.columnWidths.map Scalar.ofWidth))).append
    (.making fun list => writes_rows list 0 given.rows)
    (fun _ rows => Body.table (given.columnWidths.map Scalar.ofWidth) rows) fun _ _ => rfl

theorem writes_content (object : Nat) (type : BlockType) (given : Option Content) :
    Writes (content object type given) (Body.ofContent type given) (Script.body object) := by
  unfold content
  split
  · next given isTable =>
      rw [Body.ofContent.eq_def, isTable]
      exact writes_table object given
  · exact .writing _ _

mutual

theorem writes_block (store : String) (path : List Nat) (list index : Nat) : (given : Block) →
    Writes (block store path list index given) (Plan.ofBlock store path given)
      (Script.block list index)
  | ⟨id, typeName, given, inner, children⟩ => by
      rw [block, Plan.ofBlock]
      cases known : BlockType.ofName? typeName with
      | none => exact fun _ => rfl
      | some type =>
          rw [funext (Script.block_eq list index)]
          refine .making fun object => ?_
          have below : Writes (making .list object (.key "children") fun children' =>
              blocks store path children' 0 children) (Plan.ofBlocks store path 0 children)
              (Script.childrenOf object) :=
            .making fun children' => writes_blocks store path children' 0 children
          have inside := (Writes.writing ((PropOwner.block type).planProps given)
            (Script.props object)).pair ((writes_content object type inner).pair below)
          have whole : Writes _ _ (Script.fields object) :=
            ((inside.after (Script.setting object (.key "type") (.text type.name))).after
              (Script.setting object (.key "id")
                (.text (id.getD (Identifier.derive store path))))).map
            (fun parts => Plan.mk (id.getD (Identifier.derive store path)) type parts.1 parts.2.1
              parts.2.2) fun _ => rfl
          simp only [bind_assoc, pure_bind] at whole
          exact whole

theorem writes_blocks (store : String) (path : List Nat) (list index : Nat) :
    (given : List Block) → Writes (blocks store path list index given)
      (Plan.ofBlocks store path index given) (Script.blocks list index)
  | [] => by
      rw [blocks, Plan.ofBlocks]
      intro first
      rw [Except.map, Script.blocks]
      rfl
  | first :: rest => by
      rw [blocks, Plan.ofBlocks]
      exact (writes_block store (path ++ [index]) list index first).append
        (writes_blocks store path list (index + 1) rest) List.cons
        fun _ _ => by rw [Script.blocks]

end

/-- Blocks may as well be checked while they are written. -/
theorem result_store (name : String) (given : List Block) :
    (store name given firstNumber).result = construct name given :=
  Writes.making (fun object => writes_blocks name [] object 0 given) firstNumber

end Calls

end BlockScribe
