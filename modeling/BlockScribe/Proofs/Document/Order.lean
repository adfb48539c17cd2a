import BlockScribe.Proofs.Document.Calls
import BlockScribe.Proofs.Document.Held
import BlockScribe.Proofs.Document.RoundTrip

/-!
# Blocks are written in good order

Every part of a block is written into an object that has just been made.  Each
fits where the places taken so far are known, and says which places it takes;
what it writes into objects of its own leaves those places alone.  So no
library has anything to refuse, and nothing that is written is replaced.
-/

namespace BlockScribe

open History

/-! ## Marks that lie apart -/

namespace FlatText

theorem apart_append {a b : List Mark} (first : Apart a) (second : Apart b)
    (between : ∀ mark ∈ a, ∀ later ∈ b, mark.name = later.name → mark.stop ≤ later.start) :
    Apart (a ++ b) :=
  List.pairwise_append.mpr ⟨first, second, between⟩

def markNames : List String :=
  ["bold", "italic", "underline", "strike", "code", "textColor", "backgroundColor"]

theorem sublist_names_marks (styles : Styles) :
    (styles.marks.map (·.1)).Sublist markNames := by
  have flag (name : String) (on : Bool) :
      ((if on then [(name, Scalar.bool true)] else []).map (·.1)).Sublist [name] := by
    cases on <;> simp
  have color (name : String) (given : Option String) :
      ((given.toList.map fun value => (name, Scalar.text value)).map (·.1)).Sublist [name] := by
    cases given <;> simp
  simp only [Styles.marks, List.map_append]
  exact ((((((flag _ _).append (flag _ _)).append (flag _ _)).append (flag _ _)).append
    (flag _ _)).append (color _ _)).append (color _ _)

theorem apart_runSpans (start : Nat) (run : Run) : Apart ((runSpans start run).map Span.mark) := by
  have distinct : (run.styles.marks.map (·.1)).Nodup :=
    (sublist_names_marks run.styles).nodup (by decide)
  rw [runSpans]
  split
  · exact .nil
  · rw [Apart, List.pairwise_map, List.pairwise_map]
    exact (List.pairwise_map.mp distinct).imp fun differ same => absurd same differ

theorem apart_of_within {a b : List Span} {start middle stop : Nat}
    (first : Apart (a.map Span.mark)) (second : Apart (b.map Span.mark))
    (below : ∀ span ∈ a, span.Within start middle) (above : ∀ span ∈ b, span.Within middle stop) :
    Apart ((a ++ b).map Span.mark) := by
  rw [List.map_append]
  refine apart_append first second ?_
  rintro _ member _ member' -
  obtain ⟨span, there, rfl⟩ := List.mem_map.mp member
  obtain ⟨span', there', rfl⟩ := List.mem_map.mp member'
  exact (below span there).2.2.trans (above span' there').1

theorem apart_runsSpans (start : Nat) (runs : List Run) :
    Apart ((runsSpans start runs).map Span.mark) := by
  induction runs generalizing start with
  | nil => exact .nil
  | cons run runs ih =>
      exact apart_of_within (apart_runSpans start run) (ih _) (within_runSpans start run)
        (within_runsSpans _ runs)

theorem name_of_mem_runsSpans {start : Nat} {runs : List Run} {span : Span}
    (member : span ∈ runsSpans start runs) : span.name ∈ markNames := by
  induction runs generalizing start with
  | nil => cases member
  | cons run runs ih =>
      rcases List.mem_append.mp member with member | member
      · rw [runSpans] at member
        split at member
        · cases member
        · obtain ⟨mark, listed, rfl⟩ := List.mem_map.mp member
          exact (sublist_names_marks run.styles).subset (List.mem_map_of_mem listed)
      · exact ih member

theorem apart_itemSpans (start : Nat) (item : InlineItem) :
    Apart ((itemSpans start item).map Span.mark) := by
  rw [itemSpans, List.map_append]
  refine apart_append (apart_runsSpans start item.runs) ?_ ?_
  · rw [linkSpans.eq_def]
    split
    · dsimp only
      split
      · exact .nil
      · exact List.pairwise_singleton _ _
    · exact .nil
  · -- No style has the name of the mark for links.
    rintro _ member _ member' same
    obtain ⟨span, there, rfl⟩ := List.mem_map.mp member
    obtain ⟨span', there', rfl⟩ := List.mem_map.mp member'
    have styled := name_of_mem_runsSpans there
    have linked : span'.name = linkMark := by
      cases item with
      | link link =>
          rw [linkSpans] at there'
          split at there'
          · cases there'
          · rw [List.mem_singleton.mp there']
      | plain | run => cases there'
    have same : span.name = span'.name := same
    rw [same, linked] at styled
    exact absurd styled (by decide)

theorem apart_itemsSpans (start : Nat) (items : List InlineItem) :
    Apart ((itemsSpans start items).map Span.mark) := by
  induction items generalizing start with
  | nil => exact .nil
  | cons item items ih =>
      exact apart_of_within (apart_itemSpans start item) (ih _) (within_itemSpans start item)
        (within_itemsSpans _ items)

theorem apart_ofInline (content : Inline) : Apart ((ofInline content).spans.map Span.mark) :=
  apart_itemsSpans 0 content.toItems

end FlatText

namespace History

variable {before more : List Operation} {operation : Operation} {owner : Nat} {kind : ObjectKind}
  {taken : List Place} {place : Place}

/-! ## Where an object stands -/

/-- An object of a kind, the places taken in it, and no mark over it. -/
structure Stands (before : List Operation) (owner : Nat) (kind : ObjectKind)
    (taken : List Place) : Prop where
  closed : openMark? before = none
  known : kind? before owner = some kind
  places : places before owner = taken
  unmarked : ∀ operation ∈ before, operation.object = owner → operation.place?.isSome
  addressed : ∀ operation ∈ before, operation.object ≤ before.length

/-- More operations, in good order, into an object and into objects made since. -/
structure Extends (before : List Operation) (owner : Nat) (more : List Operation) : Prop where
  orderly : Orderly before more
  within : ∀ operation ∈ more, operation.object = owner ∨ before.length < operation.object

theorem Extends.nil : Extends before owner [] :=
  ⟨trivial, by simp⟩

theorem Extends.append {a b : List Operation} (first : Extends before owner a)
    (second : Extends (before ++ a) owner b) : Extends before owner (a ++ b) := by
  refine ⟨orderly_append.mpr ⟨first.orderly, second.orderly⟩, fun operation member => ?_⟩
  rcases List.mem_append.mp member with member | member
  · exact first.within operation member
  · refine (second.within operation member).imp_right fun later => ?_
    rw [List.length_append] at later
    exact (Nat.le_add_right _ _).trans_lt later

theorem Extends.single (follows : Follows before operation) (here : operation.object = owner) :
    Extends before owner [operation] :=
  ⟨⟨follows, trivial⟩, by simp [here]⟩

/-- A place that one more operation may take in an object of a kind. -/
inductive Open (taken : List Place) : ObjectKind → Place → Prop
  | key {name : String} (free : .key name ∉ taken) : Open taken .map (.key name)
  | index : Open taken .list (.index taken.length)

theorem Stands.follows (stands : Stands before owner kind taken) (isOpen : Open taken kind place)
    (here : operation.object = owner) (takes : operation.place? = some place) :
    Follows before operation := by
  subst here
  obtain ⟨closed, known, rfl, -, -⟩ := stands
  cases isOpen with
  | key free => exact .entry closed known takes free
  | index => exact .item closed known takes

theorem Stands.concat (stands : Stands before owner kind taken) (follows : Follows before operation)
    (here : operation.object = owner) (takes : operation.place? = some place) :
    Stands (before ++ [operation]) owner kind (taken ++ [place]) := by
  obtain ⟨closed, known, rfl, unmarked, addressed⟩ := stands
  refine ⟨?_, kind?_append known _, ?_, ?_, ?_⟩
  · rw [openMark?_concat]
    cases operation with
    | make | set => rfl
    | markBegin | markEnd => cases takes
  · rw [places_append, places_singleton, if_pos here, takes]
    rfl
  · intro earlier member
    rcases List.mem_append.mp member with member | member
    · exact unmarked earlier member
    · rw [List.mem_singleton.mp member, takes]
      exact fun _ => rfl
  · have orderly : Orderly before [operation] := ⟨follows, trivial⟩
    exact object_le_of_orderly orderly addressed

/-- An object that is made stands empty, and the places of the others are what they were. -/
theorem Stands.make (stands : Stands before owner kind taken) {kind' : ObjectKind}
    (follows : Follows before (.make kind' owner place)) :
    Stands (before ++ [.make kind' owner place]) (before.length + 1) kind' [] := by
  have old : ∀ operation ∈ before ++ [.make kind' owner place],
      operation.object ≠ before.length + 1 := by
    intro operation member
    rcases List.mem_append.mp member with member | member
    · exact Nat.ne_of_lt (Nat.lt_succ_of_le (stands.addressed operation member))
    · rw [List.mem_singleton.mp member]
      exact Nat.ne_of_lt (Nat.lt_succ_of_le (le_length_of_kind? stands.known))
  have whole := stands.concat follows rfl rfl
  refine ⟨whole.closed, ?_, places_of_elsewhere old, ?_, whole.addressed⟩
  · rw [kind?_concat, if_pos rfl]
    rfl
  · exact fun operation member same => absurd same (old operation member)

/-- Operations into newer objects leave the places of an object alone. -/
theorem Stands.extend {made : Nat} (stands : Stands before owner kind taken)
    (extends_ : Extends before made more) (newer : owner < made)
    (closed : openMark? (before ++ more) = none) :
    Stands (before ++ more) owner kind taken := by
  have elsewhere : ∀ operation ∈ more, operation.object ≠ owner := by
    intro operation member
    have old := le_length_of_kind? stands.known
    rcases extends_.within operation member with same | later <;> omega
  refine ⟨closed, kind?_append stands.known _, ?_, fun operation member same => ?_,
    object_le_of_orderly extends_.orderly stands.addressed⟩
  · rw [places_append, places_of_elsewhere elsewhere, List.append_nil, stands.places]
  · rcases List.mem_append.mp member with member | member
    · exact stands.unmarked operation member same
    · exact absurd same (elsewhere operation member)

end History

namespace Calls

variable {α : Type} {before : List Operation} {owner : Nat} {kind : ObjectKind}
  {taken more : List Place} {place : Place} {calls a b : Calls}

/-! ## Calls that fit -/

/-- In an object in which some places are taken, calls are in good order, and if no error ends
them something holds after them. -/
def Reaches (calls : Calls) (owner : Nat) (kind : ObjectKind) (taken : List Place)
    (holds : List Operation → Prop) : Prop :=
  ∀ before, Stands before owner kind taken →
    Extends before owner (calls (before.length + 1)).operations ∧
    ((calls (before.length + 1)).error? = none →
      holds (before ++ (calls (before.length + 1)).operations))

/-- Calls that take more places. -/
def Fits (calls : Calls) (owner : Nat) (kind : ObjectKind) (taken more : List Place) : Prop :=
  Reaches calls owner kind taken (Stands · owner kind (taken ++ more))

/-- Calls that write all there is in an object. -/
def Fills (calls : Calls) (owner : Nat) (kind : ObjectKind) : Prop :=
  Reaches calls owner kind [] (openMark? · = none)

theorem Fits.fills (fits : Fits calls owner kind [] more) : Fills calls owner kind :=
  fun before stands =>
    have ⟨extends_, stays⟩ := fits before stands
    ⟨extends_, fun done => (stays done).closed⟩

theorem Fits.nothing : Fits nothing owner kind taken [] := by
  intro before stands
  refine ⟨.nil, fun _ => ?_⟩
  simpa [Calls.nothing] using stands

theorem Fits.fail (error : SchemaError) : Fits (fail error) owner kind taken more :=
  fun _ _ => ⟨.nil, fun done => nomatch done⟩

theorem Fills.fail (error : SchemaError) : Fills (Calls.fail error) owner kind :=
  fun _ _ => ⟨.nil, fun done => nomatch done⟩

theorem append_eq (a b : Calls) (first : Nat) (done : (a first).error? = none) :
    (a ++ b) first = ⟨(a first).operations ++ (b (first + (a first).operations.length)).operations,
      (b (first + (a first).operations.length)).error?⟩ := by
  show append a b first = _
  simp only [append, done]

theorem append_eq_of_error (a b : Calls) (first : Nat) {error : SchemaError}
    (stops : (a first).error? = some error) : (a ++ b) first = a first := by
  show append a b first = _
  simp only [append, stops]

theorem Fits.then {holds : List Operation → Prop} (first : Fits a owner kind taken more)
    (second : Reaches b owner kind (taken ++ more) holds) :
    Reaches (a ++ b) owner kind taken holds := by
  intro before stands
  obtain ⟨extends_, stays⟩ := first before stands
  cases stops : (a (before.length + 1)).error? with
  | some error =>
      rw [append_eq_of_error a b _ stops]
      exact ⟨extends_, fun done => by rw [stops] at done; cases done⟩
  | none =>
      have rest := second _ (stays stops)
      rw [List.length_append, Nat.add_right_comm] at rest
      rw [append_eq a b _ stops, ← List.append_assoc]
      exact ⟨extends_.append rest.1, rest.2⟩

theorem Fits.append {more' : List Place} (first : Fits a owner kind taken more)
    (second : Fits b owner kind (taken ++ more) more') :
    Fits (a ++ b) owner kind taken (more ++ more') := by
  have whole := first.then second
  simp only [List.append_assoc] at whole
  exact whole

theorem Fits.setting {value : Scalar} (isOpen : Open taken kind place) :
    Fits (write (Script.setting owner place value)) owner kind taken [place] := by
  intro before stands
  have follows : Follows before (.set owner place value) := stands.follows isOpen rfl rfl
  exact ⟨.single follows rfl, fun _ => stands.concat follows rfl rfl⟩

theorem Fits.making {kind' : ObjectKind} {body : Nat → Calls} (isOpen : Open taken kind place)
    (fills : ∀ object, Fills (body object) object kind') :
    Fits (making kind' owner place body) owner kind taken [place] := by
  intro before stands
  have follows : Follows before (.make kind' owner place) := stands.follows isOpen rfl rfl
  obtain ⟨extends_, closes⟩ := fills (before.length + 1) _ (stands.make follows)
  rw [List.length_append, List.length_singleton] at extends_ closes
  have old := le_length_of_kind? stands.known
  have whole := stands.concat follows rfl rfl
  refine ⟨⟨⟨follows, extends_.orderly⟩, ?_⟩, fun done => ?_⟩
  · intro operation member
    rcases List.mem_cons.mp member with rfl | member
    · exact .inl rfl
    · have := extends_.within operation member
      rw [List.length_append, List.length_singleton] at this
      omega
  · have all := whole.extend extends_ (by omega) (closes done)
    rwa [List.append_assoc, List.singleton_append] at all

/-! ## Items one after the other -/

def indices (first count : Nat) : List Place :=
  (List.range' first count).map .index

theorem Fits.sequence {one : Nat → α → Calls} {items : List α}
    (each : ∀ item ∈ items, ∀ taken : List Place,
      Fits (one taken.length item) owner kind taken [.index taken.length]) :
    ∀ taken, Fits (sequence one taken.length items) owner kind taken
      (indices taken.length items.length) := by
  induction items with
  | nil => exact fun _ => .nothing
  | cons item items ih =>
      intro taken
      have ⟨first, later⟩ := List.forall_mem_cons.mp each
      have rest := ih later (taken ++ [.index taken.length])
      rw [List.length_append, List.length_singleton] at rest
      exact (first taken).append rest

theorem Fits.items {one : Nat → α → Calls} {items : List α}
    (each : ∀ item ∈ items, ∀ taken : List Place,
      Fits (one taken.length item) owner kind taken [.index taken.length]) :
    Fits (Calls.sequence one 0 items) owner kind [] (indices 0 items.length) :=
  .sequence each []

theorem write_values (list index : Nat) (scalars : List Scalar) :
    write (Script.values list index scalars) =
      sequence (fun index value => write (Script.setting list (.index index) value)) index
        scalars := by
  induction scalars generalizing index with
  | nil => rfl
  | cons value scalars ih =>
      rw [sequence, ← ih]
      rfl

theorem fits_values (list : Nat) (scalars : List Scalar) :
    Fits (write (Script.values list 0 scalars)) list .list [] (indices 0 scalars.length) := by
  rw [write_values]
  exact .items fun value _ taken => .setting .index

theorem fits_entries (map : Nat) (entries : List (String × Scalar)) (taken : List Place)
    (distinct : (taken ++ entries.map fun entry => Place.key entry.1).Nodup) :
    Fits (write (Script.concat (entries.map fun (name, value) =>
      Script.setting map (.key name) value))) map .map taken
        (entries.map fun entry => .key entry.1) := by
  induction entries generalizing taken with
  | nil => exact .nothing
  | cons entry entries ih =>
      rw [List.map_cons, ← List.singleton_append, ← List.append_assoc] at distinct
      have free : Place.key entry.1 ∉ taken := by
        intro there
        have apart := (List.nodup_append.mp distinct.of_append_left).2.2
        exact apart _ there _ (List.mem_singleton_self _) rfl
      exact (Fits.setting (Open.key free)).append (ih _ distinct)

theorem fits_props (owner : PropOwner) (object : Nat) (given : SortedMap Json)
    (free : .key "props" ∉ taken) :
    Fits (props owner object given) object .map taken [.key "props"] := by
  rw [props]
  cases owner.planProps given with
  | error error => exact .fail error
  | ok map =>
      have distinct : (map.entries.map fun entry => Place.key entry.1).Nodup := by
        have injective : Function.Injective Place.key := fun _ _ => Place.key.inj
        simpa [Function.comp_def] using map.nodup_names.map injective
      exact .making (.key free) fun props => (fits_entries props map.entries [] distinct).fills

/-! ## Texts -/

theorem fits_chars (text : Nat) (chars : List Char) :
    Fits (write (Script.values text 0 (chars.map fun c => .text c.toString))) text .text []
      (indices 0 chars.length) := by
  rw [write_values, ← List.length_map fun c => Scalar.text c.toString]
  refine .items fun value member taken before stands => ?_
  obtain ⟨c, -, rfl⟩ := List.mem_map.mp member
  have follows : Follows before (.set text (.index taken.length) (.text c.toString)) := by
    obtain ⟨closed, known, rfl, unmarked, -⟩ := stands
    exact .character closed known unmarked
  exact ⟨.single follows rfl, fun _ => stands.concat follows rfl rfl⟩

theorem marks_of_unmarked (unmarked : ∀ operation ∈ before, operation.object = owner →
    operation.place?.isSome) : History.marks before owner = [] := by
  fun_induction History.marks before owner with
  | case1 text object start name value object' stop grows rest here =>
      have takes := unmarked _ List.mem_cons_self here.1
      cases takes
  | case2 text object start name value object' stop grows rest elsewhere ih =>
      exact ih fun operation member => unmarked operation (by simp [member])
  | case3 first rest text single ih =>
      exact ih fun operation member => unmarked operation (List.mem_cons_of_mem _ member)
  | case4 => rfl

/-- Marks fit over a text whose characters are all there, one pair of operations for each. -/
theorem extends_marks {text : Nat} {spans : List Span} (closed : openMark? before = none)
    (known : kind? before text = some .text)
    (inside : ∀ span ∈ spans, span.Within 0 (places before text).length)
    (apart : Apart (History.marks before text ++ spans.map Span.mark)) (first : Nat) :
    Extends before text (Script.concat (spans.map (Script.mark text)) first) ∧
      openMark? (before ++ Script.concat (spans.map (Script.mark text)) first) = none := by
  induction spans generalizing before first with
  | nil => exact ⟨.nil, by simpa [Script.concat, Script.nothing] using closed⟩
  | cons span spans ih =>
      obtain ⟨⟨_, wide, below⟩, later⟩ := List.forall_mem_cons.mp inside
      let begins : Operation := .markBegin text span.start span.name span.value
      let ends : Operation := .markEnd text span.stop (span.name ≠ linkMark)
      have clear : ∀ mark ∈ History.marks before text, mark.name = span.name →
          mark.stop ≤ span.start := by
        intro mark member
        exact (List.pairwise_append.mp apart).2.2 mark member span.mark (by simp)
      have starts : Follows before begins := .markBegin closed known (wide.trans_le below) clear
      have opened : openMark? (before ++ [begins]) =
          some ⟨text, span.start, span.name, span.value⟩ := openMark?_concat before begins
      have samePlaces : places (before ++ [begins]) text = places before text := by
        simp [places_append, places_singleton, begins, Operation.place?]
      have samePlaces' : places (before ++ [begins] ++ [ends]) text = places before text := by
        rw [places_append, samePlaces, places_singleton]
        simp [ends, Operation.place?]
      have marked : History.marks (before ++ [begins] ++ [ends]) text =
          History.marks before text ++ [span.mark] := by
        rw [marks_concat_end opened, marks_concat (Operation.isEnd_markBegin ..), if_pos rfl]
        rfl
      have stops : Follows (before ++ [begins]) ends :=
        .markEnd opened (kind?_append known _) wide (samePlaces ▸ below)
      have rest := ih (openMark?_concat (before ++ [begins]) ends)
        (kind?_append (kind?_append known _) _) (samePlaces' ▸ later)
        (by rwa [marked, List.append_assoc]) (first + 1 + 1)
      have here : Extends before text ([begins] ++ [ends]) :=
        .append (.single starts rfl) (.single stops rfl)
      rw [List.append_assoc] at rest
      refine ⟨here.append rest.1, ?_⟩
      have closes := rest.2
      rwa [List.append_assoc] at closes

theorem fills_flatText (text : Nat) (given : Inline) :
    Fills (write (Script.values text 0
        ((FlatText.ofInline given).text.toList.map fun c => .text c.toString)) ++
      write (Script.concat ((FlatText.ofInline given).spans.map (Script.mark text))))
      text .text := by
  refine (fits_chars text (FlatText.ofInline given).text.toList).then fun before stands => ?_
  have enough := congrArg List.length stands.places
  rw [List.nil_append, indices, List.length_map, List.length_range', String.length_toList] at enough
  have apart := FlatText.apart_ofInline given
  rw [← List.nil_append (List.map _ _), ← marks_of_unmarked stands.unmarked] at apart
  have ⟨marked, closes⟩ := extends_marks stands.closed stands.known
    (enough ▸ (FlatText.ofInline given).inside) apart (before.length + 1)
  exact ⟨marked, fun _ => closes⟩

theorem fits_flatText (object : Nat) (given : Inline) (free : .key "content" ∉ taken) :
    Fits (write (Script.flatText object (.ofInline given))) object .map taken
      [.key "content"] :=
  .making (.key free) fun text => fills_flatText text given

/-! ## Tables -/

theorem fits_cell (row : Nat) (given : Cell) (taken : List Place) :
    Fits (cell row taken.length given) row .list taken [.index taken.length] := by
  refine .making .index fun object => ?_
  have props : Fits (props .cell object given.props) object .map [] [.key "props"] :=
    fits_props .cell object given.props (by simp)
  exact (props.append (fits_flatText object given.content (by simp))).fills

theorem fits_row (list : Nat) (given : List Cell) (taken : List Place) :
    Fits (making .list list (.index taken.length) fun row => sequence (cell row) 0 given) list .list
      taken [.index taken.length] :=
  .making .index fun row =>
    (Fits.items fun given _ taken => fits_cell row given taken).fills

theorem fits_table (object : Nat) (given : Table) (noWidths : .key "columnWidths" ∉ taken)
    (noRows : .key "rows" ∉ taken) :
    Fits (table object given) object .map taken [.key "columnWidths", .key "rows"] := by
  have widths : Fits (write <| Script.making .list object (.key "columnWidths") fun list =>
      Script.values list 0 (given.columnWidths.map Scalar.ofWidth)) object .map taken
      [.key "columnWidths"] := .making (.key noWidths) fun list => (fits_values list _).fills
  refine widths.append (.making (.key (by simp [noRows])) fun list => ?_)
  exact (Fits.items fun given _ taken => fits_row list given taken).fills

/-! ## Blocks -/

/-- What a block has as content is found under some of these keys. -/
theorem fits_content (object : Nat) (type : BlockType) (given : Option Content)
    (free : ∀ key ∈ Heap.bodyKeys, .key key ∉ taken) :
    ∃ keys : List String, keys ⊆ Heap.bodyKeys ∧
      Fits (content object type given) object .map taken (keys.map .key) := by
  obtain ⟨noContent, noWidths, noRows⟩ : .key "content" ∉ taken ∧ .key "columnWidths" ∉ taken ∧
      .key "rows" ∉ taken := by simpa [Heap.bodyKeys] using free
  have inline (inner : Inline) := fits_flatText object inner noContent
  have fails (error : SchemaError) : ∃ keys : List String,
      keys ⊆ Heap.bodyKeys ∧ Fits (fail error) object .map taken (keys.map .key) :=
    ⟨[], List.nil_subset _, .fail error⟩
  unfold content
  split
  · next inner isTable =>
      exact ⟨["columnWidths", "rows"], by simp [Heap.bodyKeys],
        fits_table object inner noWidths noRows⟩
  · next inner other =>
      unfold Body.ofContent
      split
      · exact ⟨["content"], by simp [Heap.bodyKeys], inline .empty⟩
      · exact ⟨["content"], by simp [Heap.bodyKeys], inline _⟩
      · exact ⟨["columnWidths", "rows"], by simp [Heap.bodyKeys],
          fits_table object ⟨[], []⟩ noWidths noRows⟩
      · next found isTable => exact absurd rfl (other found isTable)
      · exact ⟨[], List.nil_subset _, .nothing⟩
      all_goals exact fails _

mutual

theorem fits_block (name : String) (path : List Nat) (list : Nat) (taken : List Place) :
    (given : Block) → Fits (block name path list taken.length given) list .list taken
      [.index taken.length]
  | ⟨id, typeName, given, inner, children⟩ => by
      rw [block]
      refine .making .index fun object => ?_
      cases BlockType.ofName? typeName with
      | none => exact .fail _
      | some type =>
          obtain ⟨keys, among, inside⟩ := fits_content object type inner
            (show ∀ key ∈ Heap.bodyKeys, Place.key key ∉ [.key "id", .key "type", .key "props"]
              by simp [Heap.bodyKeys])
          have free : Place.key "children" ∉
              [.key "id", .key "type", .key "props"] ++ keys.map Place.key := by
            have other : "children" ∉ keys := fun there => absurd (among there) (by decide)
            simpa using other
          have below : Fits (making .list object (.key "children") fun children' =>
              blocks name path children' 0 children) object .map _ [.key "children"] :=
            .making (.key free) fun children' => (fits_blocks name path children' children []).fills
          have props := fits_props (.block type) object given
            (show Place.key "props" ∉ [.key "id", .key "type"] by simp)
          exact ((Fits.setting (.key (by simp))).append
            ((Fits.setting (.key (by simp))).append
              (props.append (inside.append below)))).fills

theorem fits_blocks (name : String) (path : List Nat) (list : Nat) : (given : List Block) →
    ∀ taken, Fits (blocks name path list taken.length given) list .list taken
      (indices taken.length given.length)
  | [], taken => by
      rw [blocks]
      exact .nothing
  | first :: rest, taken => by
      rw [blocks]
      have later := fits_blocks name path list rest (taken ++ [.index taken.length])
      rw [List.length_append, List.length_singleton] at later
      exact (fits_block name (path ++ [taken.length]) list taken first).append later

end

theorem stands_initial : Stands [] rootObject .map [] :=
  ⟨rfl, rfl, rfl, by simp, by simp⟩

/-- Whether or not an error ends them, calls for a document are in good order. -/
theorem orderly_store (name : String) (given : List Block) :
    Orderly [] (store name given firstNumber).operations ∧
      ((store name given firstNumber).error? = none →
        openMark? (store name given firstNumber).operations = none) := by
  have fits : Fits (store name given) rootObject .map [] [.key name] :=
    .making (.key (by simp)) fun list => (fits_blocks name [] list given []).fills
  have ⟨extends_, stays⟩ := fits [] stands_initial
  exact ⟨extends_.orderly, fun done => (stays done).closed⟩

end Calls

/-! ## Documents -/

/-- Blocks written into the document of a library, which may refuse a call. -/
def Library.construct {σ ε : Type} (library : Library σ ε) (store : String) (blocks : List Block) :
    Except (ε ⊕ SchemaError) σ :=
  let trace := Calls.store store blocks firstNumber
  match library.perform trace.operations, trace.error? with
  | .error error, _ => .error (.inl error)
  | .ok _, some error => .error (.inr error)
  | .ok document, none => .ok document

/-- Only the schema can keep a document from being finished.  Up to an error and without one, all
calls are in good order, and a finished document holds everything that was written into it. -/
theorem construct_orderly {σ ε : Type} (library : Library σ ε) (takes : library.TakesAllowed)
    (store : String) (blocks : List Block) :
    Orderly [] (Calls.store store blocks firstNumber).operations ∧
    (Calls.store store blocks firstNumber).result = construct store blocks ∧
    (∀ error, construct store blocks = .error error →
      library.construct store blocks = .error (.inr error)) ∧
    ∀ operations, construct store blocks = .ok operations →
      openMark? operations = none ∧
      (∃ document, library.perform operations = .ok document ∧
        library.construct store blocks = .ok document) ∧
      ∃ heap, Heap.replay? operations = some heap ∧ heap.Holds operations := by
  have result := Calls.result_store store blocks
  obtain ⟨orderly, closes⟩ := Calls.orderly_store store blocks
  obtain ⟨document, performed⟩ := Library.perform_orderly takes orderly
  refine ⟨orderly, result, fun error failed => ?_, fun operations built => ?_⟩
  · have stopped := Trace.result_eq_error.mp (result.trans failed)
    simp only [Library.construct, performed, stopped]
  · obtain ⟨done, rfl⟩ := Trace.result_eq_ok.mp (result.trans built)
    refine ⟨closes done, ⟨document, performed, ?_⟩, Heap.holds_of_orderly orderly⟩
    simp only [Library.construct, performed, done]

theorem construct_orderly_sample : Heap.library.TakesAllowed ∧ ∃ operations,
    construct "notes" sampleBlocks = .ok operations ∧ openMark? operations = none ∧
    (∃ document, Heap.library.perform operations = .ok document ∧
      Heap.library.construct "notes" sampleBlocks = .ok document) ∧
    ∃ heap, Heap.replay? operations = some heap ∧ heap.Holds operations :=
  ⟨Heap.takesAllowed_library, _, rfl,
    (construct_orderly Heap.library Heap.takesAllowed_library "notes" sampleBlocks).2.2.2 _ rfl⟩

end BlockScribe
