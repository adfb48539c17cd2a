import BlockScribe.Proofs.Document.RoundTrip
import BlockScribe.Proofs.Record.OutputLine

/-!
# Stored blocks fit the schema

What every block of a document comes with, at any depth: all default props of
its type, props that keep to the rules of the type, the content that the type
has and no other, and texts whose marks lie inside them.  None of this depends
on what a description says, as long as it is converted at all.
-/

namespace BlockScribe

/-! ## Props -/

namespace Scalar

def IsNumber : Scalar → Prop
  | .int _ | .uint _ | .double _ => True
  | _ => False

def IsPositive : Scalar → Prop
  | .int value => 1 ≤ value
  | .uint value => 1 ≤ value
  | _ => False

end Scalar

/-- What a rule for the values of props comes to for the scalars made of them. -/
def PropRule.Admits : PropRule → Scalar → Prop
  | .scalar, _ => True
  | .headingLevel, value => ∃ level, value = .int level ∧ 1 ≤ level ∧ level ≤ 6
  | .boolean, value => ∃ on, value = .bool on
  | .number, value => value.IsNumber
  | .positive, value => value.IsPositive

theorem PropRule.admits_ofJson? {rule : PropRule} {value : Json} {scalar : Scalar}
    (kept : rule.holds value) (taken : Scalar.ofJson? value = some scalar) :
    rule.Admits scalar := by
  unfold holds at kept
  split at kept
  · trivial
  · next level lower upper =>
      rw [Bool.and_eq_true, decide_eq_true_eq, decide_eq_true_eq] at kept
      have small : level < 0x8000000000000000 := Int.lt_of_le_of_lt kept.2 (by decide)
      rw [Scalar.ofJson?, Scalar.ofNumber, if_pos small, Option.some_inj] at taken
      exact ⟨level, taken.symm, kept⟩
  · next on =>
      cases taken
      exact ⟨on, rfl⟩
  · next number =>
      cases taken
      rcases number with ⟨value, lower, upper⟩ | value
      · rw [Scalar.ofNumber]
        split <;> trivial
      · trivial
  · next count lower upper =>
      cases taken
      have least : 1 ≤ count := by simpa using kept
      rw [Scalar.ofNumber]
      split
      · exact least
      · show 1 ≤ count.toNat
        omega
  · cases kept

namespace PropOwner

/-- All defaults are there, and every prop keeps to its rule. -/
structure Fits (owner : PropOwner) (props : SortedMap Scalar) : Prop where
  defaults : ∀ name ∈ owner.defaultProps.map (·.1), (props.get? name).isSome
  rules : ∀ name rule value, owner.rule? name = some rule → props.get? name = some value →
    rule.Admits value

theorem holds_of_violation? {owner : PropOwner} {name : String} {value : Json}
    {rule : PropRule} (clean : owner.violation? name value = none)
    (known : owner.rule? name = some rule) : rule.holds value := by
  by_contra broken
  cases scalar : value.isScalar <;> simp [violation?, scalar, known, broken] at clean

/-- Each prop of a plan was made of a value that breaks no rule, given or by default. -/
theorem source_of_planProps {owner : PropOwner} {given : SortedMap Json}
    {props : SortedMap Scalar} (planned : owner.planProps given = .ok props) {name : String}
    {scalar : Scalar} (there : props.get? name = some scalar) :
    ∃ value, Scalar.ofJson? value = some scalar ∧ owner.violation? name value = none := by
  have shown := shown_of_planProps planned name
  obtain ⟨_, checked, _⟩ := bind_eq_ok.mp planned
  rw [there, Option.map_some] at shown
  obtain ⟨value, found, taken⟩ := Option.map_eq_some_iff.mp shown.symm
  refine ⟨value, taken, ?_⟩
  rcases Option.or_eq_some_iff.mp found with here | ⟨-, byDefault⟩
  · exact violation?_of_checkProps checked here
  · rw [← SortedMap.get?_ofList owner.nodup_defaultProps] at byDefault
    exact violation?_of_checkProps owner.checkProps_defaultProps byDefault

theorem fits_of_planProps {owner : PropOwner} {given : SortedMap Json}
    {props : SortedMap Scalar} (planned : owner.planProps given = .ok props) :
    owner.Fits props := by
  refine ⟨fun name listed => ?_, fun name rule scalar known there => ?_⟩
  · have shown := shown_of_planProps planned name
    have byDefault : (owner.defaultProps.lookup name).isSome := by
      rwa [← SortedMap.get?_ofList owner.nodup_defaultProps, SortedMap.isSome_get?_ofList]
    rw [← Option.isSome_map (f := some), shown, Option.isSome_map, Option.isSome_or, byDefault,
      Bool.or_true]
  · obtain ⟨value, taken, clean⟩ := source_of_planProps planned there
    exact PropRule.admits_ofJson? (holds_of_violation? clean known) taken

end PropOwner

/-! ## Texts -/

/-- Marks cover some characters of the text each, and no character has two values of one name. -/
structure TextView.WellMarked (view : TextView) : Prop where
  inside : ∀ mark ∈ view.marks, mark.start < mark.stop ∧ mark.stop ≤ view.text.length
  single : TextView.Consistent view.marks

theorem TextView.start_lt_stop {chars : List Char} {marks : List Mark} {mark : Mark}
    (member : mark ∈ (ofChars chars marks).marks) : mark.start < mark.stop := by
  obtain ⟨name, -, member⟩ := List.mem_flatMap.mp member
  exact (mem_stretches 0 _ mark member).2.2

theorem Inline.Shown.wellMarked {content : Inline} {view : TextView} (shown : content.Shown view)
    (wide : ∀ mark ∈ view.marks, mark.start < mark.stop) : view.WellMarked := by
  refine ⟨fun mark member => ⟨wide mark member, ?_⟩, ?_⟩
  · -- The last character that the mark covers is one of the text.
    have nonempty := wide mark member
    have covered : Covered view.marks (mark.stop - 1) mark.name mark.value :=
      ⟨mark, member, rfl, rfl, by omega, by omega⟩
    obtain ⟨c, there, -⟩ := (shown.marks _ _ _).mp covered
    have ⟨below, _⟩ := List.getElem?_eq_some_iff.mp there
    rw [← String.length_toList, shown.chars, List.length_map]
    omega
  · intro position name value value' covered covered'
    obtain ⟨c, there, holds⟩ := (shown.marks position name value).mp covered
    obtain ⟨c', there', holds'⟩ := (shown.marks position name value').mp covered'
    obtain rfl : c = c' := Option.some_inj.mp (there.symm.trans there')
    exact Option.some_inj.mp (holds.symm.trans holds')

theorem FlatText.wellMarked_view (content : Inline) : (ofInline content).view.WellMarked :=
  content.shown_view.wellMarked fun _ => TextView.start_lt_stop

/-! ## Contents -/

structure CellView.FitsSchema (view : CellView) : Prop where
  defaults : ∀ name ∈ Cell.defaultProps.map (·.1), (view.props.get? name).isSome
  colspan : ∃ span, view.props.get? "colspan" = some span ∧ span.IsPositive
  rowspan : ∃ span, view.props.get? "rowspan" = some span ∧ span.IsPositive
  content : view.content.WellMarked

theorem PropOwner.Fits.admits {owner : PropOwner} {props : SortedMap Scalar}
    (fits : owner.Fits props) {name : String} {rule : PropRule}
    (known : owner.rule? name = some rule) (byDefault : name ∈ owner.defaultProps.map (·.1)) :
    ∃ value, props.get? name = some value ∧ rule.Admits value := by
  obtain ⟨value, there⟩ := Option.isSome_iff_exists.mp (fits.defaults name byDefault)
  exact ⟨value, there, fits.rules name rule value known there⟩

theorem PropOwner.Fits.boolean {owner : PropOwner} {props : SortedMap Scalar}
    (fits : owner.Fits props) {name : String} (known : owner.rule? name = some .boolean)
    (byDefault : name ∈ owner.defaultProps.map (·.1)) :
    ∃ on, props.get? name = some (.bool on) := by
  obtain ⟨_, there, on, rfl⟩ := fits.admits known byDefault
  exact ⟨on, there⟩

theorem PropOwner.Fits.number {owner : PropOwner} {props : SortedMap Scalar}
    (fits : owner.Fits props) {name : String} (known : owner.rule? name = some .number)
    (byDefault : name ∈ owner.defaultProps.map (·.1)) :
    ∃ value, props.get? name = some value ∧ value.IsNumber :=
  fits.admits known byDefault

theorem Cell.fitsSchema_of_plan {cell : Cell} {plan : CellPlan} (planned : cell.plan = .ok plan) :
    plan.view.FitsSchema := by
  obtain ⟨props, taken, planned⟩ := bind_eq_ok.mp planned
  cases planned
  have fits := PropOwner.fits_of_planProps taken
  have colspan : PropOwner.cell.rule? "colspan" = some .positive := rfl
  have rowspan : PropOwner.cell.rule? "rowspan" = some .positive := rfl
  exact ⟨fits.defaults, fits.admits colspan (by decide), fits.admits rowspan (by decide),
    FlatText.wellMarked_view cell.content⟩

/-- The parts of a stored block that go with a kind of content, and what they are made of. -/
structure ContentFits (kind : ContentKind) (content : Option TextView)
    (columnWidths : Option (List Scalar)) (rows : Option (List (List CellView))) : Prop where
  inlineOnly : content.isSome ↔ kind = .inline
  widthsOnly : columnWidths.isSome ↔ kind = .table
  rowsOnly : rows.isSome ↔ kind = .table
  text : ∀ text ∈ content, text.WellMarked
  widths : ∀ widths ∈ columnWidths, ∀ width ∈ widths, width = .null ∨ ∃ x, width = .double x
  cells : ∀ table ∈ rows, ∀ row ∈ table, ∀ cell ∈ row, cell.FitsSchema

theorem Body.cells_fitSchema {table : Table} {rows : List (List CellPlan)}
    (planned : table.rows.mapM (fun row => row.mapM Cell.plan) = .ok rows) :
    ∀ row ∈ rows.map (·.map CellPlan.view), ∀ cell ∈ row, cell.FitsSchema := by
  intro row member cell inside
  obtain ⟨plans, listed, rfl⟩ := List.mem_map.mp member
  obtain ⟨plan, there, rfl⟩ := List.mem_map.mp inside
  obtain ⟨cells, taken⟩ := exists_of_mem_mapM planned listed
  obtain ⟨cell, taken⟩ := exists_of_mem_mapM taken there
  exact Cell.fitsSchema_of_plan taken

theorem Body.MadeOf.fits {kind : ContentKind} {content : Option Content} {body : Body}
    (made : MadeOf kind content body) :
    ContentFits kind body.text? body.columnWidths? body.rows? := by
  have ofText (content : Inline) :
      ContentFits .inline (some (FlatText.ofInline content).view) Option.none Option.none := by
    constructor <;> simp [FlatText.wellMarked_view]
  cases made with
  | noInline => exact ofText .empty
  | inline content => exact ofText content
  | noTable => constructor <;> simp [text?, columnWidths?, rows?]
  | none => constructor <;> simp [text?, columnWidths?, rows?]
  | table taken =>
      have widths (width : Option Double) :
          Scalar.ofWidth width = .null ∨ ∃ x, Scalar.ofWidth width = .double x := by
        cases width <;> simp [Scalar.ofWidth]
      constructor
      case cells => simpa [rows?] using Body.cells_fitSchema taken
      case widths => simpa [columnWidths?] using fun width _ => widths width
      all_goals simp [text?, columnWidths?, rows?]

/-! ## Blocks -/

structure BlockView.FitsSchema (view : BlockView) (type : BlockType) : Prop where
  named : view.type = type.name
  defaults : ∀ name ∈ type.defaultProps.map (·.1), (view.props.get? name).isSome
  level : type = .heading → ∃ level, view.props.get? "level" = some (.int level) ∧
    1 ≤ level ∧ level ≤ 6
  checked : type = .checkListItem → ∃ on, view.props.get? "checked" = some (.bool on)
  showPreview : type = .image ∨ type = .video ∨ type = .audio →
    ∃ on, view.props.get? "showPreview" = some (.bool on)
  previewWidth : type = .image ∨ type = .video →
    ∃ width, view.props.get? "previewWidth" = some width ∧ width.IsNumber
  content : ContentFits type.contentKind view.content view.columnWidths view.rows

/-- A block stands in a list of blocks, or anywhere below one that does. -/
inductive BlockView.Within : List BlockView → BlockView → Prop
  | here {views : List BlockView} {view : BlockView} (member : view ∈ views) : Within views view
  | deeper {views : List BlockView} {parent view : BlockView} (member : parent ∈ views)
      (inside : Within parent.children view) : Within views view

end BlockScribe
