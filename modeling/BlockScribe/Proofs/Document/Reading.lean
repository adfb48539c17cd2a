import BlockScribe.Proofs.Document.Writing

/-!
# Reading plans back

The view of a plan is what a reader of its document gets to see.  Writing the
plans of blocks and reading the document under the name of their store gives
the views of the plans, in their order: the reader finds every object it looks
for, and never looks at one that is not there.
-/

namespace BlockScribe

/-! ## Views -/

def CellPlan.view (plan : CellPlan) : CellView :=
  ⟨plan.props, plan.content.view⟩

namespace Body

def text? : Body → Option TextView
  | .inline content => some content.view
  | .table .. | .none => Option.none

def columnWidths? : Body → Option (List Scalar)
  | .table columnWidths _ => some columnWidths
  | .inline _ | .none => Option.none

def rows? : Body → Option (List (List CellView))
  | .table _ rows => some (rows.map (·.map CellPlan.view))
  | .inline _ | .none => Option.none

end Body

def Plan.view : Plan → BlockView
  | ⟨id, type, props, body, children⟩ =>
      ⟨id, type.name, props, body.text?, body.columnWidths?, body.rows?, children.map Plan.view⟩

theorem Plan.induction {motive : Plan → Prop}
    (step : ∀ plan, (∀ child ∈ plan.children, motive child) → motive plan) (plan : Plan) :
    motive plan := by
  obtain ⟨id, type, props, body, children⟩ := plan
  exact step _ fun child member => Plan.induction step child

namespace Heap

/-! ## Lists of slots -/

theorem mapM_of_forall₂ {α β γ : Type} {read? : α → Option γ} {view : β → γ} {numbers : List α}
    {items : List β}
    (shown : List.Forall₂ (fun number item => read? number = some (view item)) numbers items) :
    numbers.mapM read? = some (items.map view) := by
  induction shown with
  | nil => rfl
  | cons first _ ih => simp [first, ih]

theorem props?_of_map {heap : Heap} {entries : SortedMap Slot} {number : Nat}
    {map : SortedMap Scalar} (there : entries.get? "props" = some (.object number))
    (filled : heap.map? number = some (map.mapValues .scalar)) :
    heap.props? entries = some map := by
  have values : (map.mapValues Slot.scalar).entries.map (·.2) =
      (map.entries.map (·.2)).map Slot.scalar := by
    simp [SortedMap.mapValues]
  have names : (map.mapValues Slot.scalar).entries.map (·.1) = map.entries.map (·.1) := by
    simp [SortedMap.mapValues]
  have zipped : (map.entries.map (·.1)).zip (map.entries.map (·.2)) = map.entries := by
    simp [List.zip_map']
  simp only [props?, child?, there, filled, values, names, scalars?_map, zipped,
    SortedMap.ofList_entries, Option.bind_eq_bind, Option.bind_some, Option.pure_def]

theorem mapM_of_list {α β : Type} {heap : Heap} {list : Nat} {numbers : List Nat} {items : List α}
    {read? : Nat → Option β} {view : α → β}
    (here : heap.list? list = some (numbers.map .object))
    (shown : List.Forall₂ (fun number item => list < number ∧ read? number = some (view item))
      numbers items) :
    (do (← objects? (← heap.list? list)).mapM read?) = some (items.map view) := by
  have reads := mapM_of_forall₂ (shown.imp fun _ _ there => there.2)
  simp only [here, Option.bind_eq_bind, Option.bind_some, objects?_map, reads]

/-! ## Blocks by their parts -/

theorem part?_of_none {α : Type} {entries : SortedMap Slot} {key : String}
    (absent : entries.get? key = none) (read? : Nat → Option α) :
    part? entries key read? = some none := by
  simp [part?, child?, absent]

theorem part?_of_object {α : Type} {entries : SortedMap Slot} {key : String} {number : Nat}
    {read? : Nat → Option α} {value : α} (there : entries.get? key = some (.object number))
    (read : read? number = some value) : part? entries key read? = some (some value) := by
  simp [part?, child?, there, read]

def bodyKeys : List String := ["content", "columnWidths", "rows"]

structure ShowsBody (heap : Heap) (entries : SortedMap Slot) (body : Body) : Prop where
  content : part? entries "content" heap.text? = some body.text?
  columnWidths : part? entries "columnWidths" heap.widthsAt? = some body.columnWidths?
  rows : part? entries "rows" heap.rowsAt? = some body.rows?

theorem ShowsBody.congr {heap : Heap} {entries entries' : SortedMap Slot} {body : Body}
    (shows : heap.ShowsBody entries body)
    (same : ∀ key ∈ bodyKeys, entries'.get? key = entries.get? key) :
    heap.ShowsBody entries' body := by
  have part {α : Type} (key : String) (member : key ∈ bodyKeys) (read? : Nat → Option α) :
      part? entries' key read? = part? entries key read? := by
    simp only [part?, child?, same key member]
  refine ⟨?_, ?_, ?_⟩
  · rw [part _ (by simp [bodyKeys]), shows.content]
  · rw [part _ (by simp [bodyKeys]), shows.columnWidths]
  · rw [part _ (by simp [bodyKeys]), shows.rows]

theorem blockAt?_of_entries {heap : Heap} {blocks? : Nat → Option (List BlockView)}
    {number children : Nat} {entries : SortedMap Slot} {plan : Plan}
    (here : heap.object? number = some (.map entries))
    (id : entries.get? "id" = some (.scalar (.text plan.id)))
    (type : entries.get? "type" = some (.scalar (.text plan.type.name)))
    (props : heap.props? entries = some plan.props)
    (body : heap.ShowsBody entries plan.body)
    (list : entries.get? "children" = some (.object children))
    (blocks : blocks? children = some (plan.children.map Plan.view)) :
    heap.blockAt? blocks? number = some plan.view := by
  obtain ⟨_, _, _, _, _⟩ := plan
  simp only [blockAt?, map?, here, child?, list, textAt?, id, type, props, body.content,
    body.columnWidths, body.rows, blocks, Option.bind_eq_bind, Option.bind_some, Option.pure_def,
    Plan.view]

/-- A block reads as the view of a plan, given fuel for the objects behind it. -/
def ShowsBlock (plan : Plan) (number : Nat) (heap : Heap) : Prop :=
  ∀ depth, heap.count < depth + number →
    heap.blockAt? (heap.blocksAt? depth) number = some plan.view

end Heap

namespace Script

open Heap

variable {heap : Heap}

/-! ## Tables -/

theorem cell_list {list : Nat} (settled : heap.Settled) {slots : Array Slot}
    (here : heap.object? list = some (.list slots)) (plan : CellPlan) :
    (cell list slots.size plan).Adds list heap
      (fun number => .list (slots.push (.object number)))
      (fun number later => later.cellAt? number = some plan.view) := by
  refine .making settled here (by simp [putSlot?]) fun number heap₁ settled₁ made => ?_
  apply Achieves.append (props_map settled₁ made plan.props)
  rintro heap₂ grows₂ ⟨props, above, changed, lasts⟩
  apply (flatText_map grows₂.settled changed plan.content).mono
  rintro heap₃ grows₃ ⟨content, above', filled, lasts'⟩ later keeps
  have entries := keeps.kept _ _ (Nat.le_refl _) filled
  have propsRead := lasts later ((grows₃.keeps above).trans (keeps.mono above.le))
  have contentRead := lasts' later (keeps.mono above'.le)
  have there : ((SortedMap.empty.insert "props" (.object props)).insert "content"
      (.object content)).get? "props" = some (Slot.object props) := by simp
  have propsWhole := props?_of_map there propsRead
  simp [cellAt?, map?, entries, child?, propsWhole, contentRead, CellPlan.view]

theorem row_list {list : Nat} (settled : heap.Settled) {slots : Array Slot}
    (here : heap.object? list = some (.list slots)) (plans : List CellPlan) :
    (making .list list (.index slots.size) fun row => cells row 0 plans).Adds list heap
      (fun number => .list (slots.push (.object number)))
      (fun number later => later.rowAt? number = some (plans.map CellPlan.view)) := by
  refine .making settled here (by simp [putSlot?]) fun number heap₁ settled₁ made => ?_
  refine (sequence_empty (cells number) (cell number)
    (fun plan number later => later.cellAt? number = some plan.view)
    (fun _ => rfl) (fun _ _ _ => rfl) plans
    (fun plan _ _ _ settled here => cell_list settled here plan) settled₁ made).mono ?_
  intro heap₂ _ lasts later keeps
  obtain ⟨numbers, slots, shown⟩ := lasts later keeps
  exact mapM_of_list slots shown

theorem rows_map {owner : Nat} (settled : heap.Settled) {entries : SortedMap Slot}
    (here : heap.object? owner = some (.map entries)) (plans : List (List CellPlan)) :
    (making .list owner (.key "rows") fun list => rows list 0 plans).Adds owner heap
      (fun number => .map (entries.insert "rows" (.object number)))
      (fun number later => later.rowsAt? number = some (plans.map (·.map CellPlan.view))) := by
  apply Adds.making settled here (fun _ => rfl)
  intro number heap₁ settled₁ made
  refine (sequence_empty (rows number)
    (fun index plans => making .list number (.index index) fun row => cells row 0 plans)
    (fun plans number later => later.rowAt? number = some (plans.map CellPlan.view))
    (fun _ => rfl) (fun _ _ _ => rfl) plans
    (fun plans _ _ _ settled here => row_list settled here plans) settled₁ made).mono ?_
  intro heap₂ _ lasts later keeps
  obtain ⟨numbers, slots, shown⟩ := lasts later keeps
  exact mapM_of_list slots shown

/-! ## Blocks -/

theorem body_map {owner : Nat} (settled : heap.Settled) {entries : SortedMap Slot}
    (here : heap.object? owner = some (.map entries))
    (fresh : ∀ key ∈ bodyKeys, entries.get? key = none) (content : Body) :
    (body owner content).Achieves owner heap fun heap' => ∃ entries',
      heap'.object? owner = some (.map entries') ∧
      (∀ key ∉ bodyKeys, entries'.get? key = entries.get? key) ∧
      heap'.Lasts (owner + 1) (·.ShowsBody entries' content) := by
  simp only [bodyKeys, List.forall_mem_cons, List.not_mem_nil, false_implies, implies_true,
    and_true] at fresh
  obtain ⟨noContent, noWidths, noRows⟩ := fresh
  cases content with
  | inline content =>
      apply (flatText_map settled here content).mono
      rintro heap' _ ⟨text, above, filled, lasts⟩
      refine ⟨_, filled, fun key other => ?_, fun later keeps => ⟨?_, ?_, ?_⟩⟩
      · simp only [bodyKeys, List.mem_cons, not_or] at other
        simp [other]
      · exact part?_of_object (by simp) (lasts later (keeps.mono above))
      · exact part?_of_none (by simpa using noWidths) _
      · exact part?_of_none (by simpa using noRows) _
  | table widths plans =>
      apply Achieves.append (columnWidths_map settled here widths)
      rintro heap₁ grows₁ ⟨list, above, changed, lasts⟩
      apply (rows_map grows₁.settled changed plans).mono
      rintro heap₂ grows₂ ⟨list', above', filled, lasts'⟩
      refine ⟨_, filled, fun key other => ?_, fun later keeps => ⟨?_, ?_, ?_⟩⟩
      · simp only [bodyKeys, List.mem_cons, not_or] at other
        simp [other]
      · exact part?_of_none (by simpa using noContent) _
      · have read := lasts later ((grows₂.keeps above).trans (keeps.mono above))
        exact part?_of_object (by simp) read
      · exact part?_of_object (by simp) (lasts' later (keeps.mono above'))
  | none =>
      refine .nothing settled ⟨entries, here, fun _ _ => rfl, fun later _ => ⟨?_, ?_, ?_⟩⟩
      · exact part?_of_none noContent _
      · exact part?_of_none noWidths _
      · exact part?_of_none noRows _

theorem blocks_list {list : Nat} (plans : List Plan)
    (adds : ∀ plan ∈ plans, ∀ (heap : Heap) (slots : Array Slot), heap.Settled →
      heap.object? list = some (.list slots) →
      (block list slots.size plan).Adds list heap
        (fun number => .list (slots.push (.object number))) (ShowsBlock plan))
    (settled : heap.Settled) (here : heap.object? list = some (.empty .list)) :
    (blocks list 0 plans).Achieves list heap fun heap' => heap'.Lasts list fun later =>
      ∀ depth, later.count < depth + list →
        later.blocksAt? depth list = some (plans.map Plan.view) := by
  refine (sequence_empty (blocks list) (block list) ShowsBlock (fun _ => by rw [blocks])
    (fun _ _ _ => by rw [blocks]) plans adds settled here).mono ?_
  intro heap' grows lasts later keeps depth enough
  obtain ⟨numbers, slots, shown⟩ := lasts later keeps
  cases depth with
  | zero =>
      obtain ⟨object, there⟩ : ∃ object, later.object? list = some object := by
        cases there : later.object? list with
        | none => simp [list?, there] at slots
        | some object => exact ⟨object, rfl⟩
      have below := keeps.settled.le_count there
      omega
  | succ depth =>
      refine mapM_of_list slots (shown.imp ?_)
      rintro number plan ⟨above, shows⟩
      exact ⟨above, shows depth (by omega)⟩

theorem block_list (plan : Plan) {list : Nat} (settled : heap.Settled) {slots : Array Slot}
    (here : heap.object? list = some (.list slots)) :
    (block list slots.size plan).Adds list heap
      (fun number => .list (slots.push (.object number))) (ShowsBlock plan) := by
  induction plan using Plan.induction generalizing heap list slots with
  | step plan ih =>
      obtain ⟨id, type, map, content, plans⟩ := plan
      rw [block]
      refine .making settled here (by simp [putSlot?]) fun number heap₁ settled₁ made => ?_
      apply Achieves.append (.setting settled₁ made rfl)
      intro heap₂ grows₂ withId
      apply Achieves.append (.setting grows₂.settled withId rfl)
      intro heap₃ grows₃ withType
      apply Achieves.append (props_map grows₃.settled withType map)
      rintro heap₄ grows₄ ⟨props, aboveProps, withProps, lastsProps⟩
      refine .append (body_map grows₄.settled withProps (by simp [bodyKeys]) content) ?_
      rintro heap₅ grows₅ ⟨entries, withBody, others, lastsBody⟩
      refine Achieves.mono (Adds.making grows₅.settled withBody (fun _ => rfl)
        fun list heap settled made => blocks_list plans
          (fun plan member _ _ settled here => ih plan member settled here) settled made) ?_
      rintro heap₆ grows₆ ⟨children, aboveChildren, withChildren, lasts⟩ later keeps depth enough
      -- Props and body were read off earlier heaps; they have to outlast what came behind them.
      have whole := keeps.kept number _ (Nat.le_refl _) withChildren
      have keeps₅ := (grows₆.keeps (Nat.lt_succ_self number)).trans (keeps.mono (Nat.le_succ _))
      have keeps₄ := (grows₅.keeps (Nat.lt_succ_self number)).trans keeps₅
      have propsRead := lastsProps later (keeps₄.mono aboveProps)
      have blocksRead := lasts later (keeps.mono aboveChildren.le) depth (by omega)
      have list : (entries.insert "children" (.object children)).get? "children" =
          some (Slot.object children) := by simp
      refine blockAt?_of_entries whole ?_ ?_ (props?_of_map ?_ propsRead)
        ((lastsBody later keeps₅).congr ?_) list blocksRead
      all_goals simp [others, bodyKeys]

end Script

/-! ## Documents -/

namespace Heap

theorem object?_initial (number : Nat) :
    initial.object? number = if number = rootObject then some (.empty .map) else none := by
  rw [initial, object?_insert ⟨0, .empty, none⟩ 0 rootObject number (.empty .map) none]
  rfl

theorem settled_initial : initial.Settled := by
  refine ⟨rfl, fun number beyond => ?_⟩
  have other : number ≠ rootObject := Nat.ne_of_gt beyond
  rw [object?_initial, if_neg other]

end Heap

open Heap Script in
theorem readBlocks?_store (store : String) (plans : List Plan) :
    readBlocks? (Script.store store plans firstNumber) store = some (plans.map Plan.view) := by
  have root : initial.object? rootObject = some (.map .empty) := object?_initial rootObject
  have added : (Script.store store plans).Adds rootObject initial
      (fun list => .map (SortedMap.empty.insert store (.object list)))
      (fun list heap => ∀ depth, heap.count < depth + list →
        heap.blocksAt? depth list = some (plans.map Plan.view)) :=
    .making settled_initial root (fun _ => rfl) fun list heap settled made =>
      blocks_list plans (fun plan _ _ _ settled here => block_list plan settled here)
        settled made
  obtain ⟨heap, runs, list, above, changed, lasts⟩ := added
  have replayed : replay? (Script.store store plans firstNumber) = some heap := runs.run
  have map : heap.map? rootObject = some (SortedMap.empty.insert store (.object list)) := by
    rw [map?, changed]
  have here : Keeps list heap heap := ⟨runs.grows.settled, fun _ _ _ there => there⟩
  have read := lasts heap here heap.count (Nat.lt_add_of_pos_right above)
  simp [readBlocks?, replayed, blocks?, map, child?, read]

end BlockScribe
