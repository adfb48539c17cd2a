import BlockScribe.Proofs.Block.Faults
import BlockScribe.Proofs.Json.Canonical
import BlockScribe.Proofs.Json.Compact
import BlockScribe.Proofs.Json.Leaves
import BlockScribe.Record.Outcome

/-!
# Block lists are read from values

A block list is read off the tree of its text, fields as they come.  It could
as well be read off the value that the text has, and there the order of members
does not matter, nor how anything was spelled.  Members that blocks do not have
may be there or not.
-/

namespace BlockScribe.Block

open Json (Node Key Fault Tree)

/-! ## Reading values -/

def idOfJson? : Json → Option (Option String)
  | .null => some none
  | value => some <$> value.string?

def propsOfJson? : Json → Option (SortedMap Json)
  | .object members => some (Json.memberMap members)
  | _ => none

/-- Content is there or not, and never refused. -/
def contentOfJson? : Json → Option (Option Content)
  | .null => some none
  | value => some (some (.ofJson value))

/-- A draft of the fields that there are. -/
def Draft.ofFields? (children? : Json → Option (List Block)) : List (Option Json) → Option Draft
  | [id, type, props, content, children] => do
      let id ← id.mapM idOfJson?
      let type ← type.mapM Json.string?
      let props ← props.mapM propsOfJson?
      let content ← content.mapM contentOfJson?
      let children ← children.mapM children?
      return ⟨id, type, props, content, children⟩
  | _ => none

mutual

def ofJson? : Nat → Json → Option Block
  | 0, _ => none
  | depth + 1, value =>
      Draft.block <$> (value.fields? fieldNames).bind (Draft.ofFields? (listOfJson? depth))

def listOfJson? : Nat → Json → Option (List Block)
  | 0, _ => none
  | depth + 1, value => value.array?.bind (·.mapM (ofJson? depth))

end

/-! ## Parts of a tree with a value -/

/-- A node has a value, and a leaf no other than a scalar. -/
structure Has (depth : Nat) (node : Node) (value : Json) : Prop where
  value : node.value depth = .ok value
  grounded : node.Grounded

theorem has_leaf {depth start stop : Nat} {reading : Json.Reading Json} {value : Json}
    (has : Has depth (.leaf start stop reading) value) :
    reading = .sound value ∧ value.isScalar := by
  obtain ⟨read, ground⟩ := has
  rw [Node.value] at read
  cases ground with
  | leaf scalar =>
      cases reading with
      | sound =>
          cases read
          exact ⟨rfl, scalar value rfl⟩
      | skippable | broken => cases read

theorem has_array {depth start : Nat} {nodes : List Node} {value : Json}
    (has : Has depth (.array start nodes) value) : ∃ below items, depth = below + 1 ∧
      value = .array items ∧ List.Forall₂ (Has below) nodes items := by
  obtain ⟨read, ground⟩ := has
  cases depth with
  | zero => cases read
  | succ depth =>
      obtain ⟨items, reads, rfl⟩ := map_eq_ok.mp read
      cases ground with
      | array each =>
          have paired := (List.forall₂_and_left _ _).mpr ⟨each, forall₂_of_mapM reads⟩
          exact ⟨depth, items, rfl, rfl, paired.imp fun _ _ both => ⟨both.2, both.1⟩⟩

theorem has_object {depth start : Nat} {nodes : List (Key × Node)} {value : Json}
    (has : Has depth (.object start nodes) value) : ∃ below members, depth = below + 1 ∧
      value = .object members ∧ List.Forall₂ (fun node member =>
        node.1.name.value = .ok member.1 ∧ Has below node.2 member.2) nodes members := by
  obtain ⟨read, ground⟩ := has
  cases depth with
  | zero => cases read
  | succ depth =>
      obtain ⟨members, reads, rfl⟩ := map_eq_ok.mp read
      cases ground with
      | object each =>
          have paired := (List.forall₂_and_left _ _).mpr ⟨each, forall₂_of_mapM reads⟩
          refine ⟨depth, members, rfl, rfl, paired.imp ?_⟩
          rintro ⟨key, node⟩ member ⟨ground, read⟩
          obtain ⟨name, named, read⟩ := bind_eq_ok.mp read
          obtain ⟨value, valued, read⟩ := bind_eq_ok.mp read
          cases read
          exact ⟨named, valued, ground⟩

/-! ## Fields of a tree -/

section

variable {depth : Nat} {node : Node} {value : Json}

theorem toOption_readString (has : Has depth node value) :
    (readString node).toOption = value.string? := by
  cases node with
  | leaf start stop reading =>
      obtain ⟨rfl, -⟩ := has_leaf has
      cases value <;> rfl
  | array start nodes =>
      obtain ⟨_, _, rfl, rfl, _⟩ := has_array has
      rfl
  | object start nodes =>
      obtain ⟨_, _, rfl, rfl, _⟩ := has_object has
      rfl

theorem toOption_readId (has : Has depth node value) :
    (readId node).toOption = idOfJson? value := by
  cases node with
  | leaf start stop reading =>
      obtain ⟨rfl, -⟩ := has_leaf has
      cases value <;> rfl
  | array start nodes =>
      obtain ⟨_, _, rfl, rfl, _⟩ := has_array has
      rfl
  | object start nodes =>
      obtain ⟨_, _, rfl, rfl, _⟩ := has_object has
      rfl

theorem toOption_readProps (has : Has depth node value) :
    (readProps depth node).toOption = propsOfJson? value := by
  cases node with
  | leaf start stop reading =>
      obtain ⟨rfl, scalar⟩ := has_leaf has
      cases value <;> first | rfl | cases scalar
  | array start nodes =>
      obtain ⟨_, _, rfl, rfl, _⟩ := has_array has
      rfl
  | object start nodes =>
      have read := has.value
      obtain ⟨_, _, rfl, rfl, _⟩ := has_object has
      rw [readProps, read]
      rfl

theorem toOption_readContent (has : Has depth node value) :
    (readContent depth node).toOption = contentOfJson? value := by
  rw [readContent, has.value]
  cases value <;> rfl

end

/-! ## Members one after the other -/

/-- A field that is not yet there is read and put there. -/
def take {α : Type} (read : Json → Option α) (before : Option α) (value : Json) :
    Option (Option α) :=
  if before.isSome then none else some <$> read value

def Draft.add? (children? : Json → Option (List Block)) (draft : Draft) (name : String)
    (value : Json) : Option Draft :=
  match name with
  | "id" => (take idOfJson? draft.id value).map ({ draft with id := · })
  | "type" => (take Json.string? draft.type value).map ({ draft with type := · })
  | "props" => (take propsOfJson? draft.props value).map ({ draft with props := · })
  | "content" => (take contentOfJson? draft.content value).map ({ draft with content := · })
  | "children" => (take children? draft.children value).map ({ draft with children := · })
  | _ => some draft

theorem toOption_once {α : Type} {read : Except Fault α} {found : Json → Option α} {value : Json}
    (same : read.toOption = found value) (name : String) (key : Key) (field : Option α)
    (put : Option α → Draft) :
    (do
      once name key field
      return put (some (← read))).toOption = (take found field value).map put := by
  cases field with
  | some => rfl
  | none =>
      rw [take, ← same]
      cases read <;> rfl

theorem Draft.add?_unknown {children? : Json → Option (List Block)} {draft : Draft} {name : String}
    {value : Json} (unknown : name ∉ fieldNames) :
    draft.add? children? name value = some draft := by
  unfold add?
  split
  case h_6 => rfl
  all_goals exact absurd (by decide) unknown

theorem toOption_readMember {readChildren : Node → Except Fault (List Block)} {depth : Nat}
    {children? : Json → Option (List Block)} {key : Key} {node : Node} {name : String}
    {value : Json} (named : key.name.value = .ok name) (has : Has depth node value)
    (children : (readChildren node).toOption = children? value) (draft : Draft) :
    (readMember readChildren depth draft (key, node)).toOption =
      draft.add? children? name value := by
  rw [readMember, show key.name.value = pure name from named, pure_bind]
  split
  case h_6 _ noId noType noProps noContent noChildren =>
    have unknown : name ∉ fieldNames := by
      simp only [fieldNames, List.mem_cons, List.not_mem_nil, or_false, not_or]
      exact ⟨noId, noType, noProps, noContent, noChildren⟩
    rw [Node.skip_of_value has.value, Draft.add?_unknown unknown]
    rfl
  · exact toOption_once (toOption_readId has) "id" key draft.id ({ draft with id := · })
  · exact toOption_once (toOption_readString has) "type" key draft.type ({ draft with type := · })
  · exact toOption_once (toOption_readProps has) "props" key draft.props ({ draft with props := · })
  · exact toOption_once (toOption_readContent has) "content" key draft.content
      ({ draft with content := · })
  · exact toOption_once children "children" key draft.children ({ draft with children := · })

/-! ### Which members there are -/

def valuesOf (members : List (String × Json)) (name : String) : List Json :=
  (members.filter (·.1 = name)).map (·.2)

theorem valuesOf_cons (member : String × Json) (members : List (String × Json)) (name : String) :
    valuesOf (member :: members) name =
      if member.1 = name then member.2 :: valuesOf members name else valuesOf members name := by
  unfold valuesOf
  by_cases here : member.1 = name <;> simp [here]

/-- Whatever else there is among them, each field comes of the members of its name. -/
theorem foldlM_add? (children? : Json → Option (List Block)) (members : List (String × Json))
    (before after : Draft) :
    members.foldlM (fun draft member => draft.add? children? member.1 member.2) before =
        some after ↔
      (valuesOf members "id").foldlM (take idOfJson?) before.id = some after.id ∧
      (valuesOf members "type").foldlM (take Json.string?) before.type = some after.type ∧
      (valuesOf members "props").foldlM (take propsOfJson?) before.props = some after.props ∧
      (valuesOf members "content").foldlM (take contentOfJson?) before.content =
        some after.content ∧
      (valuesOf members "children").foldlM (take children?) before.children =
        some after.children := by
  induction members generalizing before with
  | nil =>
      cases before
      cases after
      simp [valuesOf]
  | cons member members ih =>
      obtain ⟨name, value⟩ := member
      rw [List.foldlM_cons]
      generalize added : before.add? children? name value = draft
      unfold Draft.add? at added
      split at added
      case h_6 _ noId noType noProps noContent noChildren =>
        subst added
        simp only [valuesOf_cons, if_neg noId, if_neg noType, if_neg noProps, if_neg noContent,
          if_neg noChildren]
        exact ih before
      all_goals
        subst added
        simp only [valuesOf_cons, String.reduceEq, reduceIte, List.foldlM_cons,
          Option.bind_eq_bind, Option.bind_eq_some_iff, Option.map_eq_some_iff,
          exists_exists_and_eq_and, ih]
        grind

theorem foldlM_take {α : Type} (read : Json → Option α) (members : List (String × Json))
    (name : String) : (valuesOf members name).foldlM (take read) none =
      (Json.soleMember members name).bind (·.mapM read) := by
  rw [valuesOf, Json.soleMember]
  generalize members.filter (·.1 = name) = found
  rcases found with _ | ⟨first, _ | ⟨second, rest⟩⟩
  · rfl
  · simp [take]
  · simp [take]

theorem Draft.ofFields?_eq_some {children? : Json → Option (List Block)}
    {id type props content children : Option Json} {draft : Draft} :
    ofFields? children? [id, type, props, content, children] = some draft ↔
      id.mapM idOfJson? = some draft.id ∧ type.mapM Json.string? = some draft.type ∧
      props.mapM propsOfJson? = some draft.props ∧
      content.mapM contentOfJson? = some draft.content ∧
      children.mapM children? = some draft.children := by
  obtain ⟨_, _, _, _, _⟩ := draft
  simp [ofFields?, Option.bind_eq_some_iff]

theorem foldlM_empty_add? (children? : Json → Option (List Block))
    (members : List (String × Json)) :
    members.foldlM (fun draft member => draft.add? children? member.1 member.2) .empty =
      ((Json.object members).fields? fieldNames).bind (Draft.ofFields? children?) := by
  refine Option.ext fun draft => ?_
  rw [foldlM_add?]
  simp only [Draft.empty, foldlM_take, Json.fields?, fieldNames, List.mapM_cons, List.mapM_nil]
  cases Json.soleMember members "id"
  · simp
  cases Json.soleMember members "type"
  · simp
  cases Json.soleMember members "props"
  · simp
  cases Json.soleMember members "content"
  · simp
  cases Json.soleMember members "children"
  · simp
  simp [Draft.ofFields?_eq_some]

/-! ## Items at their places -/

theorem fields?_array_eq (items : List Json) :
    (Json.array items).fields? fieldNames =
      if items[5]? = none then some [items[0]?, items[1]?, items[2]?, items[3]?, items[4]?]
      else none := by
  rcases items with _ | ⟨_, _ | ⟨_, _ | ⟨_, _ | ⟨_, _ | ⟨_, _ | _⟩⟩⟩⟩⟩ <;>
    simp [Json.fields?, fieldNames]

theorem toOption_field {α : Type} {depth : Nat} {nodes : List Node} {items : List Json}
    {read : Node → Except Fault α} {found : Json → Option α}
    (paired : List.Forall₂ (Has depth) nodes items)
    (same : ∀ node value, Has depth node value → (read node).toOption = found value)
    (place : Nat) : (nodes[place]?.mapM read).toOption = items[place]?.mapM found := by
  induction paired generalizing place with
  | nil => rfl
  | cons here _ ih =>
      cases place with
      | zero =>
          show (some <$> read _).toOption = some <$> found _
          rw [toOption_map, same _ _ here]
      | succ place => simpa using ih place

theorem toOption_readFields {depth : Nat} {nodes : List Node} {items : List Json}
    {readChildren : Node → Except Fault (List Block)}
    {children? : Json → Option (List Block)}
    (paired : List.Forall₂ (Has depth) nodes items)
    (children : ∀ node value, Has depth node value →
      (readChildren node).toOption = children? value) :
    (readFields readChildren depth nodes).toOption =
      ((Json.array items).fields? fieldNames).bind (Draft.ofFields? children?) := by
  rw [fields?_array_eq, readFields]
  simp only [toOption_bind, toOption_field paired fun _ _ => toOption_readId,
    toOption_field paired fun _ _ => toOption_readString,
    toOption_field paired fun _ _ => toOption_readProps,
    toOption_field paired fun _ _ => toOption_readContent, toOption_field paired children]
  have sixth : nodes[5]? = none ↔ items[5]? = none := by
    simp [paired.length_eq]
  cases behind : nodes[5]? with
  | none =>
      rw [if_pos (sixth.mp behind)]
      rfl
  | some node =>
      have surplus : items[5]? ≠ none := fun none => by
        rw [sixth.mpr none] at behind
        cases behind
      rw [if_neg surplus, Option.bind_none]
      simp only [Option.bind_eq_none_iff]
      intros
      rfl

/-! ## Blocks and block lists -/

theorem readList_leaf (depth start stop : Nat) (reading : Json.Reading Json) :
    (readList depth (.leaf start stop reading)).toOption = none := by
  cases depth <;> rw [readList] <;> first | rfl | exact nofun

theorem readList_object (depth start : Nat) (nodes : List (Key × Node)) :
    (readList depth (.object start nodes)).toOption = none := by
  cases depth <;> rw [readList] <;> first | rfl | exact nofun

theorem toOption_read_succ {depth : Nat} (lists : ∀ node value, Has depth node value →
      (readList depth node).toOption = listOfJson? depth value)
    {node : Node} {value : Json} (has : Has (depth + 1) node value) :
    (read (depth + 1) node).toOption = ofJson? (depth + 1) value := by
  rw [ofJson?]
  cases node with
  | leaf start stop reading =>
      obtain ⟨rfl, scalar⟩ := has_leaf has
      rw [read]
      cases value <;> first | rfl | cases scalar
  | array start nodes =>
      obtain ⟨_, items, ⟨⟩, rfl, paired⟩ := has_array has
      rw [read, toOption_map, toOption_readFields paired lists]
  | object start nodes =>
      obtain ⟨_, members, ⟨⟩, rfl, paired⟩ := has_object has
      rw [read, toOption_map, ← foldlM_empty_add?]
      refine congrArg _ (toOption_foldlM paired ?_ _)
      rintro draft ⟨key, node⟩ member ⟨named, has⟩
      exact toOption_readMember named has (lists _ _ has) draft

theorem toOption_readList_succ {depth : Nat} (blocks : ∀ node value, Has depth node value →
      (read depth node).toOption = ofJson? depth value)
    {node : Node} {value : Json} (has : Has (depth + 1) node value) :
    (readList (depth + 1) node).toOption = listOfJson? (depth + 1) value := by
  rw [listOfJson?]
  cases node with
  | leaf start stop reading =>
      obtain ⟨-, scalar⟩ := has_leaf has
      rw [readList_leaf]
      cases value <;> first | rfl | cases scalar
  | array start nodes =>
      obtain ⟨_, items, ⟨⟩, rfl, paired⟩ := has_array has
      rw [readList]
      exact toOption_mapM paired blocks
  | object start nodes =>
      obtain ⟨_, members, ⟨⟩, rfl, paired⟩ := has_object has
      rw [readList_object]
      rfl

/-- Blocks of a tree are the blocks of its value. -/
theorem toOption_read_and_readList (depth : Nat) :
    (∀ node value, Has depth node value → (read depth node).toOption = ofJson? depth value) ∧
    ∀ node value, Has depth node value →
      (readList depth node).toOption = listOfJson? depth value := by
  induction depth with
  | zero =>
      have leaf {node : Node} {value : Json} (has : Has 0 node value) :
          ∃ start stop reading, node = .leaf start stop reading := by
        cases node with
        | leaf start stop reading => exact ⟨start, stop, reading, rfl⟩
        | array start nodes => obtain ⟨_, _, ⟨⟩, _⟩ := has_array has
        | object start nodes => obtain ⟨_, _, ⟨⟩, _⟩ := has_object has
      constructor
      all_goals
        intro node value has
        obtain ⟨start, stop, reading, rfl⟩ := leaf has
      · rw [read, ofJson?]
        rfl
      · rw [readList_leaf, listOfJson?]
  | succ depth ih =>
      exact ⟨fun _ _ => toOption_read_succ ih.2, fun _ _ => toOption_readList_succ ih.1⟩

theorem toOption_readList {depth : Nat} {node : Node} {value : Json} (has : Has depth node value) :
    (readList depth node).toOption = listOfJson? depth value :=
  (toOption_read_and_readList depth).2 node value has

/-! ## Values in canonical form -/

section

open Json

@[simp] theorem idOfJson?_canonical (value : Json) :
    idOfJson? value.canonical = idOfJson? value :=
  read_canonical_of_refused idOfJson? (fun _ => rfl) (fun _ => rfl) value

theorem propsOfJson?_respects : Respects propsOfJson? := by
  intro value _
  cases value with
  | array => rw [canonical_array]; rfl
  | object => rw [canonical_object, propsOfJson?, propsOfJson?, memberMap_canonical]
  | null | bool | number | string => rw [canonical_of_isScalar rfl]

theorem contentOfJson?_respects : Respects contentOfJson? := by
  intro value unrepeated
  have same := Content.respects value unrepeated
  cases value with
  | array =>
      rw [canonical_array] at same ⊢
      rw [contentOfJson?, contentOfJson?, same]
      all_goals exact nofun
  | object =>
      rw [canonical_object] at same ⊢
      rw [contentOfJson?, contentOfJson?, same]
      all_goals exact nofun
  | null | bool | number | string => rw [canonical_of_isScalar rfl]

theorem Draft.ofFields?_respects {children? : Json → Option (List Block)}
    (lists : Respects children?) :
    Respects fun value => (value.fields? fieldNames).bind (ofFields? children?) := by
  refine Respects.fields fun fields unrepeated => ?_
  have field {α : Type} {read : Json → Option α} (respects : Respects read) {value : Option Json}
      (member : value ∈ fields) : (value.map canonical).mapM read = value.mapM read := by
    cases value with
    | none => rfl
    | some value => simp [respects value (unrepeated value member)]
  rcases fields with _ | ⟨id, _ | ⟨type, _ | ⟨props, _ | ⟨content, _ | ⟨children, _ | _⟩⟩⟩⟩⟩
  case cons.cons.cons.cons.cons.nil =>
    simp only [List.map_cons, List.map_nil, ofFields?]
    rw [field (fun value _ => idOfJson?_canonical value) (by simp),
      field (fun value _ => string?_canonical value) (by simp),
      field propsOfJson?_respects (by simp), field contentOfJson?_respects (by simp),
      field lists (by simp)]
  all_goals rfl

theorem ofJson?_and_listOfJson?_respect (depth : Nat) :
    Respects (ofJson? depth) ∧ Respects (listOfJson? depth) := by
  induction depth with
  | zero =>
      constructor <;> intro value _
      · rw [ofJson?, ofJson?]
      · rw [listOfJson?, listOfJson?]
  | succ depth ih =>
      constructor
      · intro value unrepeated
        rw [ofJson?, ofJson?]
        exact congrArg _ (Draft.ofFields?_respects ih.2 value unrepeated)
      · have objects (members : List (String × Json)) :
            listOfJson? (depth + 1) (.object members) = none := by
          rw [listOfJson?]
          rfl
        refine .of_arrays objects fun items each => ?_
        rw [listOfJson?, listOfJson?]
        exact ih.1.mapM each

theorem listOfJson?_respects (depth : Nat) : Respects (listOfJson? depth) :=
  (ofJson?_and_listOfJson?_respect depth).2

end

end BlockScribe.Block
