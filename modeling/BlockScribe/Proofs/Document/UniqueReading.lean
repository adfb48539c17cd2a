import BlockScribe.Proofs.Document.Reading

/-!
# Scripts say what they write

A script is one flat list of operations, in which only the numbers of objects
tell where a part ends.  All that is written into an object addresses it or
objects made later, and what comes behind addresses an older one.  Cutting at
those places gives back the parts, and from them the plans: no two lists of
plans have the same script, under any name.
-/

namespace BlockScribe

def Operation.object : Operation → Nat
  | .make _ object _ | .set object _ _ | .markBegin object _ _ _ | .markEnd object _ _ => object

theorem BlockType.name_injective : Function.Injective name := by
  intro type type' same
  have known := ofName?_name type'
  rw [← same, ofName?_name] at known
  exact Option.some_inj.mp known

/-- A list is cut in one way only where its elements cease to have a property. -/
theorem append_inj_of_forall {α : Type} {holds : α → Prop} {a a' b b' : List α}
    (same : a ++ b = a' ++ b') (inside : ∀ x ∈ a, holds x) (inside' : ∀ x ∈ a', holds x)
    (outside : ∀ x ∈ b.head?, ¬holds x) (outside' : ∀ x ∈ b'.head?, ¬holds x) :
    a = a' ∧ b = b' := by
  induction a generalizing a' with
  | nil =>
      cases a' with
      | nil => exact ⟨rfl, same⟩
      | cons x rest =>
          rw [List.nil_append, List.cons_append] at same
          exact absurd (inside' x (by simp)) (outside x (by simp [same]))
  | cons x rest ih =>
      cases a' with
      | nil =>
          rw [List.nil_append, List.cons_append] at same
          exact absurd (inside x (by simp)) (outside' x (by simp [← same]))
      | cons x' rest' =>
          obtain ⟨rfl, tails⟩ := List.cons.inj same
          have ⟨_, inside⟩ := List.forall_mem_cons.mp inside
          have ⟨_, inside'⟩ := List.forall_mem_cons.mp inside'
          obtain ⟨rfl, rfl⟩ := ih tails inside inside'
          exact ⟨rfl, rfl⟩

namespace Script

variable {α : Type} {owner : Nat}

/-! ## What a script addresses -/

/-- The first operation addresses `owner`, and all address it or objects of the script's own. -/
structure Local (owner : Nat) (script : Script) : Prop where
  head : ∀ first, ∀ operation ∈ (script first).head?, operation.object = owner
  all : ∀ first, ∀ operation ∈ script first, operation.object = owner ∨ first ≤ operation.object

theorem append_nothing (script : Script) : script ++ nothing = script := by
  funext first
  rw [append_apply]
  exact List.append_nil _

namespace Local

theorem nothing : Script.nothing.Local owner := by
  constructor <;> simp [Script.nothing]

theorem single {operation : Operation} (here : operation.object = owner) :
    (Script.single operation).Local owner := by
  constructor <;> simp [Script.single, here]

theorem setting (place : Place) (value : Scalar) : (setting owner place value).Local owner :=
  single rfl

theorem append {a b : Script} (first : a.Local owner) (second : b.Local owner) :
    (a ++ b).Local owner := by
  constructor
  · intro number operation member
    rw [append_apply, List.head?_append] at member
    cases start : (a number).head? with
    | none =>
        rw [start] at member
        exact second.head _ _ member
    | some found =>
        rw [start] at member
        exact first.head number operation (by rw [start]; exact member)
  · intro number operation member
    rcases List.mem_append.mp member with member | member
    · exact first.all number operation member
    · exact (second.all _ operation member).imp_right (by omega)

theorem making {kind : ObjectKind} {place : Place} {body : Nat → Script}
    (inner : ∀ number, (body number).Local number) :
    (making kind owner place body).Local owner := by
  constructor
  · intro number operation member
    cases member
    rfl
  · intro number operation member
    rcases List.mem_cons.mp member with rfl | member
    · exact .inl rfl
    · have := (inner number).all _ operation member
      omega

theorem sequence (all : Nat → List α → Script) (one : Nat → α → Script)
    (nil : ∀ index, all index [] = Script.nothing)
    (cons : ∀ index item items,
      all index (item :: items) = one index item ++ all (index + 1) items)
    {items : List α} (each : ∀ item ∈ items, ∀ index, (one index item).Local owner)
    (index : Nat) : (all index items).Local owner := by
  induction items generalizing index with
  | nil =>
      rw [nil]
      exact .nothing
  | cons item items ih =>
      have ⟨first, later⟩ := List.forall_mem_cons.mp each
      rw [cons]
      exact (first index).append (ih later (index + 1))

end Local

/-! ## Telling values apart -/

/-- Nothing but `value` makes `write` write what it writes for `value`. -/
def Determines (owner : Nat) (write : α → Script) (value : α) : Prop :=
  ∀ other first, owner < first → write value first = write other first → value = other

/-- The same while more is written behind it, and that is found again as well. -/
def Tells (owner : Nat) (write : α → Script) (value : α) : Prop :=
  ∀ other first (next next' : Script), owner < first → next.Local owner → next'.Local owner →
    (write value ++ next) first = (write other ++ next') first →
    value = other ∧ ∃ later, owner < later ∧ next later = next' later

theorem Tells.determines {write : α → Script} {value : α} (tells : Tells owner write value) :
    Determines owner write value := by
  intro other first below same
  rw [← append_nothing (write value), ← append_nothing (write other)] at same
  exact (tells other first nothing nothing below .nothing .nothing same).1

theorem tells_single (operation : α → Operation) (injective : Function.Injective operation)
    (value : α) : Tells owner (fun value => single (operation value)) value := by
  intro other first next next' below _ _ same
  have ⟨here, rest⟩ := List.cons.inj same
  exact ⟨injective here, first + 1, Nat.lt_succ_of_lt below, rest⟩

theorem tells_setting (place : Place) (value : Scalar) :
    Tells owner (setting owner place) value :=
  tells_single (.set owner place) (fun _ _ same => (Operation.set.inj same).2.2) value

/-- The body of an object ends where an operation addresses an older object. -/
theorem tells_making {kind : ObjectKind} {place : Place} {body : Nat → α → Script} {value : α}
    (inner : ∀ number value, (body number value).Local number)
    (determines : ∀ number, Determines number (body number) value) :
    Tells owner (fun value => making kind owner place fun number => body number value) value := by
  intro other first next next' below stays stays' same
  have inside (value : α) : ∀ operation ∈ body first value (first + 1),
      first ≤ operation.object := by
    intro operation member
    have := (inner first value).all _ operation member
    omega
  have outside {next : Script} (stays : next.Local owner) (number : Nat) :
      ∀ operation ∈ (next number).head?, ¬first ≤ operation.object := by
    intro operation member
    have := stays.head number operation member
    omega
  obtain ⟨bodies, rest⟩ := append_inj_of_forall (List.cons.inj same).2 (inside value)
    (inside other) (outside stays _) (outside stays' _)
  obtain rfl := determines first other (first + 1) (Nat.lt_succ_self first) bodies
  exact ⟨rfl, _, Nat.lt_of_lt_of_le below (Nat.le_add_right first _), rest⟩

theorem determines_sequence (all : Nat → List α → Script) (one : Nat → α → Script)
    (nil : ∀ index, all index [] = nothing)
    (cons : ∀ index item items,
      all index (item :: items) = one index item ++ all (index + 1) items)
    (nonempty : ∀ index item first, one index item first ≠ [])
    (stays : ∀ index item, (one index item).Local owner) {items : List α}
    (tells : ∀ item ∈ items, ∀ index, Tells owner (one index) item) (index : Nat) :
    Determines owner (all index) items := by
  have cons_ne_nil (index : Nat) (item : α) (items : List α) (first : Nat) :
      all index (item :: items) first ≠ all index [] first := by
    rw [nil, cons, append_apply]
    intro same
    exact nonempty index item first (List.append_eq_nil_iff.mp same).1
  induction items generalizing index with
  | nil =>
      intro others first below same
      cases others with
      | nil => rfl
      | cons other others => exact absurd same.symm (cons_ne_nil index other others first)
  | cons item items ih =>
      intro others first below same
      cases others with
      | nil => exact absurd same (cons_ne_nil index item items first)
      | cons other others =>
          have ⟨here, later⟩ := List.forall_mem_cons.mp tells
          have localRest (items : List α) : (all (index + 1) items).Local owner :=
            .sequence all one nil cons (fun item _ index => stays index item) (index + 1)
          rw [cons, cons] at same
          obtain ⟨rfl, number, below, rests⟩ :=
            here index other first _ _ below (localRest items) (localRest others) same
          rw [ih later (index + 1) others number below rests]

theorem Local.concat {one : α → Script} {items : List α}
    (each : ∀ item, (one item).Local owner) : (Script.concat (items.map one)).Local owner :=
  .sequence (fun _ items => Script.concat (items.map one)) (fun _ => one) (fun _ => rfl)
    (fun _ _ _ => rfl) (fun item _ _ => each item) 0

theorem determines_concat {one : α → Script} (nonempty : ∀ item first, one item first ≠ [])
    (stays : ∀ item, (one item).Local owner) (tells : ∀ item, Tells owner one item)
    (items : List α) : Determines owner (fun items => concat (items.map one)) items :=
  determines_sequence (fun _ items => concat (items.map one)) (fun _ => one) (fun _ => rfl)
    (fun _ _ _ => rfl) (fun _ => nonempty) (fun _ => stays) (fun item _ _ => tells item) 0

/-! ## Values and props -/

theorem local_values (list index : Nat) (scalars : List Scalar) :
    (values list index scalars).Local list :=
  .sequence (values list) (fun index => setting list (.index index)) (fun _ => rfl)
    (fun _ _ _ => rfl) (fun value _ index => .setting (.index index) value) index

theorem determines_values (list index : Nat) (scalars : List Scalar) :
    Determines list (values list index) scalars :=
  determines_sequence (values list) (fun index => setting list (.index index)) (fun _ => rfl)
    (fun _ _ _ => rfl) (fun _ _ _ => List.cons_ne_nil _ _)
    (fun index value => .setting (.index index) value)
    (fun value _ index => tells_setting (.index index) value) index

theorem local_props (owner : Nat) (map : SortedMap Scalar) : (props owner map).Local owner :=
  .making fun _ => .concat fun entry => .setting (.key entry.1) entry.2

theorem tells_entry (object : Nat) (entry : String × Scalar) :
    Tells object (fun entry => setting object (.key entry.1) entry.2) entry := by
  refine tells_single (fun entry => .set object (.key entry.1) entry.2) ?_ entry
  intro entry other same
  obtain ⟨-, key, value⟩ := Operation.set.inj same
  exact Prod.ext (Place.key.inj key) value

theorem tells_props (owner : Nat) (map : SortedMap Scalar) : Tells owner (props owner) map := by
  have localEntry (number : Nat) (entry : String × Scalar) :
      (setting number (.key entry.1) entry.2).Local number := .setting (.key entry.1) entry.2
  refine tells_making (fun number map => .concat (localEntry number)) fun number => ?_
  intro other first below same
  exact SortedMap.ext (determines_concat (fun _ _ => List.cons_ne_nil _ _) (localEntry number)
    (tells_entry number) map.entries other.entries first below same)

/-! ## Texts -/

theorem local_mark (object : Nat) (span : Span) : (mark object span).Local object :=
  .append (.single rfl) (.single rfl)

theorem tells_mark (object : Nat) (span : Span) : Tells object (mark object) span := by
  intro other first next next' below _ _ same
  have ⟨begins, rest⟩ := List.cons.inj same
  have ⟨ends, rest⟩ := List.cons.inj rest
  obtain ⟨-, start, name, value⟩ := Operation.markBegin.inj begins
  obtain ⟨-, stop, -⟩ := Operation.markEnd.inj ends
  exact ⟨by cases span; cases other; simp_all, first + 2, by omega, rest⟩

theorem set_of_mem_values {list index first : Nat} {scalars : List Scalar} {operation : Operation}
    (member : operation ∈ values list index scalars first) :
    ∃ place value, operation = .set list place value := by
  induction scalars generalizing index first with
  | nil => cases member
  | cons value rest ih =>
      rcases List.mem_cons.mp member with rfl | member
      · exact ⟨_, _, rfl⟩
      · exact ih member

/-- The characters of a text end where its first mark begins. -/
theorem determines_text (object : Nat) (content : FlatText) :
    Determines object (fun content : FlatText =>
      values object 0 (content.text.toList.map fun c => .text c.toString) ++
        concat (content.spans.map (mark object))) content := by
  intro other first below same
  have noSet (spans : List Span) (number : Nat) :
      ∀ operation ∈ (concat (spans.map (mark object)) number).head?,
        ¬∃ place value, operation = .set object place value := by
    rintro operation member ⟨place, value, rfl⟩
    cases spans <;> cases member
  obtain ⟨texts, marks⟩ := append_inj_of_forall same (fun _ => set_of_mem_values)
    (fun _ => set_of_mem_values) (noSet _ _) (noSet _ _)
  have chars := determines_values object 0 _ _ first below texts
  rw [texts] at marks
  have spans := determines_concat (fun _ _ => List.cons_ne_nil _ _) (local_mark object)
    (tells_mark object) content.spans other.spans _ (Nat.lt_add_right _ below) marks
  have text : content.text = other.text := by
    have single : Function.Injective fun c : Char => Scalar.text c.toString := by
      intro c c' same
      simpa using congrArg String.toList (Scalar.text.inj same)
    exact String.toList_inj.mp (single.list_map chars)
  cases content
  cases other
  cases text
  cases spans
  rfl

theorem local_flatText (owner : Nat) (content : FlatText) : (flatText owner content).Local owner :=
  .making fun object => .append (local_values object 0 _) (.concat (local_mark object))

theorem tells_flatText (owner : Nat) (content : FlatText) :
    Tells owner (flatText owner) content :=
  tells_making (fun object _ => .append (local_values object 0 _) (.concat (local_mark object)))
    fun object => determines_text object content

/-! ## Tables -/

theorem local_cell (row index : Nat) (plan : CellPlan) : (cell row index plan).Local row :=
  .making fun object => .append (local_props object _) (local_flatText object _)

theorem tells_cell (row index : Nat) (plan : CellPlan) : Tells row (cell row index) plan := by
  refine tells_making (fun object _ => .append (local_props object _) (local_flatText object _))
    fun object => ?_
  intro other first below same
  obtain ⟨props, later, below, rest⟩ := tells_props object plan.props other.props first _ _ below
    (local_flatText object _) (local_flatText object _) same
  have content := (tells_flatText object plan.content).determines _ later below rest
  cases plan
  cases other
  simp_all

theorem local_cells (row index : Nat) (plans : List CellPlan) :
    (cells row index plans).Local row :=
  .sequence (cells row) (cell row) (fun _ => rfl) (fun _ _ _ => rfl)
    (fun plan _ index => local_cell row index plan) index

theorem determines_cells (row index : Nat) (plans : List CellPlan) :
    Determines row (cells row index) plans :=
  determines_sequence (cells row) (cell row) (fun _ => rfl) (fun _ _ _ => rfl)
    (fun _ _ _ => List.cons_ne_nil _ _) (local_cell row)
    (fun plan _ index => tells_cell row index plan) index

def row (list index : Nat) (plans : List CellPlan) : Script :=
  making .list list (.index index) fun row => cells row 0 plans

theorem local_row (list index : Nat) (plans : List CellPlan) : (row list index plans).Local list :=
  .making fun number => local_cells number 0 plans

theorem tells_row (list index : Nat) (plans : List CellPlan) :
    Tells list (row list index) plans :=
  tells_making (fun number => local_cells number 0) fun number => determines_cells number 0 plans

theorem local_rows (list index : Nat) (plans : List (List CellPlan)) :
    (rows list index plans).Local list :=
  .sequence (rows list) (row list) (fun _ => rfl) (fun _ _ _ => rfl)
    (fun plans _ index => local_row list index plans) index

theorem determines_rows (list index : Nat) (plans : List (List CellPlan)) :
    Determines list (rows list index) plans :=
  determines_sequence (rows list) (row list) (fun _ => rfl) (fun _ _ _ => rfl)
    (fun _ _ _ => List.cons_ne_nil _ _) (local_row list)
    (fun plans _ index => tells_row list index plans) index

/-! ## Contents -/

theorem local_body (object : Nat) (content : Body) : (body object content).Local object := by
  cases content with
  | inline content => exact local_flatText object content
  | table widths plans =>
      exact .append (.making fun list => local_values list 0 widths)
        (.making fun list => local_rows list 0 plans)
  | none => exact .nothing

def childrenOf (object : Nat) (plans : List Plan) : Script :=
  making .list object (.key "children") fun children => blocks children 0 plans

theorem tells_columnWidths (object : Nat) (widths : List Scalar) :
    Tells object (fun widths => making .list object (.key "columnWidths") fun list =>
      values list 0 widths) widths :=
  tells_making (fun list => local_values list 0) fun list => determines_values list 0 widths

theorem tells_rows (object : Nat) (plans : List (List CellPlan)) :
    Tells object (fun plans => making .list object (.key "rows") fun list =>
      rows list 0 plans) plans :=
  tells_making (fun list => local_rows list 0) fun list => determines_rows list 0 plans

/-- The first object of a content tells what kind of content it is. -/
theorem body_append_inj {object first : Nat} {content content' : Body} {plans plans' : List Plan}
    (below : object < first) (stays : ∀ plans, (childrenOf object plans).Local object)
    (same : (body object content ++ childrenOf object plans) first =
      (body object content' ++ childrenOf object plans') first) :
    content = content' ∧ ∃ later, object < later ∧
      childrenOf object plans later = childrenOf object plans' later := by
  cases content <;> cases content'
  case inline.inline content content' =>
      have ⟨equal, rest⟩ :=
        tells_flatText object content content' first _ _ below (stays _) (stays _) same
      exact ⟨congrArg Body.inline equal, rest⟩
  case table.table widths cells widths' cells' =>
      have localRows (plans : List (List CellPlan)) :
          (making .list object (.key "rows") fun list => rows list 0 plans).Local object :=
        .making fun list => local_rows list 0 plans
      simp only [body, append_assoc] at same
      obtain ⟨rfl, later, below, same⟩ := tells_columnWidths object widths widths' first _ _ below
        (.append (localRows cells) (stays plans)) (.append (localRows cells') (stays plans')) same
      have ⟨equal, rest⟩ :=
        tells_rows object cells cells' later _ _ below (stays _) (stays _) same
      exact ⟨congrArg (Body.table widths) equal, rest⟩
  case none.none => exact ⟨rfl, first, below, same⟩
  -- Otherwise the two have made objects of two kinds or under two names.
  all_goals
    have heads := (List.cons.inj same).1
    simp at heads

/-! ## Blocks -/

/-- What is written into the map of a block. -/
def fields (object : Nat) (plan : Plan) : Script :=
  setting object (.key "id") (.text plan.id) ++
    (setting object (.key "type") (.text plan.type.name) ++
      (props object plan.props ++ (body object plan.body ++ childrenOf object plan.children)))

theorem block_eq (list index : Nat) (plan : Plan) :
    block list index plan = making .map list (.index index) fun object => fields object plan := by
  cases plan
  rw [block]
  rfl

theorem local_blocks {plans : List Plan}
    (each : ∀ plan ∈ plans, ∀ list index, (block list index plan).Local list) (list index : Nat) :
    (blocks list index plans).Local list :=
  .sequence (blocks list) (block list) (fun _ => by rw [blocks]) (fun _ _ _ => by rw [blocks])
    (fun plan member index => each plan member list index) index

theorem local_childrenOf {plans : List Plan}
    (each : ∀ plan ∈ plans, ∀ list index, (block list index plan).Local list) (object : Nat) :
    (childrenOf object plans).Local object :=
  .making fun children => local_blocks each children 0

theorem local_fields {plan : Plan}
    (each : ∀ child ∈ plan.children, ∀ list index, (block list index child).Local list)
    (object : Nat) : (fields object plan).Local object :=
  .append (.setting _ _) (.append (.setting _ _) (.append (local_props object _)
    (.append (local_body object _) (local_childrenOf each object))))

theorem local_block (plan : Plan) (list index : Nat) : (block list index plan).Local list := by
  induction plan using Plan.induction generalizing list index with
  | step plan ih =>
      rw [block_eq]
      exact .making (local_fields ih)

theorem determines_blocks {plans : List Plan}
    (each : ∀ plan ∈ plans, ∀ list index, Tells list (block list index) plan) (list index : Nat) :
    Determines list (blocks list index) plans :=
  determines_sequence (blocks list) (block list) (fun _ => by rw [blocks])
    (fun _ _ _ => by rw [blocks]) (fun _ plan _ => by rw [block_eq]; exact List.cons_ne_nil _ _)
    (fun index plan => local_block plan list index)
    (fun plan member index => each plan member list index) index

theorem determines_fields {plan : Plan}
    (each : ∀ child ∈ plan.children, ∀ list index, Tells list (block list index) child)
    (object : Nat) : Determines object (fields object) plan := by
  intro other first below same
  have localChildren (plans : List Plan) : (childrenOf object plans).Local object :=
    local_childrenOf (fun plan _ => local_block plan) object
  have localBody (plan : Plan) :
      (body object plan.body ++ childrenOf object plan.children).Local object :=
    .append (local_body object _) (localChildren _)
  have localProps (plan : Plan) : (props object plan.props ++
      (body object plan.body ++ childrenOf object plan.children)).Local object :=
    .append (local_props object _) (localBody plan)
  obtain ⟨id, _, below, same⟩ := tells_setting (.key "id") (.text plan.id) (.text other.id) first
    _ _ below (.append (.setting _ _) (localProps plan)) (.append (.setting _ _) (localProps other))
    same
  obtain ⟨type, _, below, same⟩ := tells_setting (.key "type") (.text plan.type.name)
    (.text other.type.name) _ _ _ below (localProps plan) (localProps other) same
  obtain ⟨props, _, below, same⟩ := tells_props object plan.props other.props _ _ _ below
    (localBody plan) (localBody other) same
  obtain ⟨body, _, below, same⟩ := body_append_inj below localChildren same
  have children : plan.children = other.children :=
    (tells_making (fun children plans => local_blocks (fun plan _ => local_block plan) children 0)
      fun children => determines_blocks each children 0).determines _ _ below same
  have type : plan.type = other.type := BlockType.name_injective (Scalar.text.inj type)
  cases plan
  cases other
  simp_all

theorem tells_block (plan : Plan) (list index : Nat) : Tells list (block list index) plan := by
  induction plan using Plan.induction generalizing list index with
  | step plan ih =>
      rw [funext (block_eq list index)]
      exact tells_making (fun object _ => local_fields (fun child _ => local_block child) object)
        (determines_fields ih)

/-- Neither two names nor two lists of plans have one script. -/
theorem store_inj {name name' : String} {plans plans' : List Plan} :
    store name plans firstNumber = store name' plans' firstNumber ↔
      name = name' ∧ plans = plans' := by
  refine ⟨fun same => ?_, by rintro ⟨rfl, rfl⟩; rfl⟩
  have ⟨heads, rest⟩ := List.cons.inj same
  refine ⟨Place.key.inj (Operation.make.inj heads).2.2, ?_⟩
  exact determines_blocks (fun plan _ => tells_block plan) _ 0 plans' _ (Nat.lt_succ_self _) rest

end Script

end BlockScribe
