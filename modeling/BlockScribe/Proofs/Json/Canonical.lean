import BlockScribe.Block.Basic
import BlockScribe.Proofs.Result
import BlockScribe.Proofs.SortedMap

/-!
# Values in canonical form

Content is read from a value as it was written.  Where no object has two members
of one name, the canonical form of a value is read as the same content: readers
ask for members by name and for items by position, and pass over the order of
members.
-/

namespace BlockScribe

namespace Json

theorem induction {motive : Json → Prop}
    (scalar : ∀ value : Json, value.isScalar → motive value)
    (array : ∀ items, (∀ item ∈ items, motive item) → motive (.array items))
    (object : ∀ members : List (String × Json), (∀ member ∈ members, motive member.2) →
      motive (.object members)) : (value : Json) → motive value
  | .null | .bool _ | .number _ | .string _ => scalar _ rfl
  | .array items => array items fun item _ => induction scalar array object item
  | .object members => object members fun (_, value) _ => induction scalar array object value
decreasing_by
  · have := List.sizeOf_lt_of_mem ‹_ ∈ items›
    rw [Json.array.sizeOf_spec]
    omega
  · have := List.sizeOf_lt_of_mem ‹(_, value) ∈ members›
    rw [Prod.mk.sizeOf_spec] at this
    rw [Json.object.sizeOf_spec]
    omega

/-- No object has two members of one name. -/
inductive Unrepeated : Json → Prop
  | scalar {value : Json} (isScalar : value.isScalar) : Unrepeated value
  | array {items : List Json} (each : ∀ item ∈ items, Unrepeated item) : Unrepeated (.array items)
  | object {members : List (String × Json)} (distinct : (members.map (·.1)).Nodup)
      (each : ∀ member ∈ members, Unrepeated member.2) : Unrepeated (.object members)

theorem canonicalItems_eq_map (items : List Json) : canonicalItems items = items.map canonical := by
  induction items with
  | nil => rfl
  | cons item items ih => rw [canonicalItems, ih, List.map_cons]

theorem canonicalMembers_eq_map (members : List (String × Json)) :
    canonicalMembers members = members.map fun member => (member.1, member.2.canonical) := by
  induction members with
  | nil => rfl
  | cons member members ih => rw [canonicalMembers, ih, List.map_cons]

theorem canonical_array (items : List Json) :
    (Json.array items).canonical = .array (items.map canonical) := by
  rw [canonical, canonicalItems_eq_map]

theorem canonical_object (members : List (String × Json)) :
    (Json.object members).canonical = .object (memberMap members).entries := by
  rw [canonical]
  rfl

theorem canonical_of_isScalar {value : Json} (isScalar : value.isScalar) :
    value.canonical = value := by
  cases value with
  | array | object => cases isScalar
  | null | bool | number | string => rw [canonical] <;> exact nofun

/-! ## Members -/

theorem soleMember_of_nodup {members : List (String × Json)}
    (distinct : (members.map (·.1)).Nodup) (name : String) :
    soleMember members name = some (members.lookup name) := by
  induction members with
  | nil => rfl
  | cons member members ih =>
      have ⟨fresh, distinct⟩ := List.nodup_cons.mp distinct
      rw [SortedMap.lookup_cons_ite]
      by_cases here : name = member.1
      · have absent : members.filter (·.1 = name) = [] := by
          refine List.filter_eq_nil_iff.mpr fun other listed => ?_
          simpa [here] using fun same => fresh (List.mem_map.mpr ⟨other, listed, same⟩)
        rw [soleMember, List.filter_cons_of_pos (by simp [here]), absent, if_pos here]
      · have other : member.1 ≠ name := Ne.symm here
        rw [soleMember, List.filter_cons_of_neg (by simpa using other), if_neg here, ← ih distinct]
        rfl

theorem lookup_canonical (members : List (String × Json)) (name : String) :
    (members.map fun member => (member.1, member.2.canonical)).lookup name =
      (members.lookup name).map canonical := by
  induction members with
  | nil => rfl
  | cons member members ih =>
      rw [List.map_cons, SortedMap.lookup_cons_ite, SortedMap.lookup_cons_ite, ih]
      split <;> rfl

theorem get?_memberMap {members : List (String × Json)} (distinct : (members.map (·.1)).Nodup)
    (name : String) : (memberMap members).get? name = (members.lookup name).map canonical := by
  have names : (members.map fun member => (member.1, member.2.canonical)).map (·.1) =
      members.map (·.1) := by simp
  rw [memberMap, canonicalMembers_eq_map, SortedMap.get?_ofList (names ▸ distinct),
    lookup_canonical]

theorem get?_memberMap_last (before : List (String × Json)) (name : String) (value : Json)
    {behind : List (String × Json)} (fresh : name ∉ behind.map (·.1)) :
    (memberMap (before ++ (name, value) :: behind)).get? name = some value.canonical := by
  rw [memberMap, canonicalMembers_eq_map, List.map_append, List.map_cons]
  apply SortedMap.get?_ofList_last
  simpa [List.map_map] using fresh

theorem exists_of_get?_memberMap {members : List (String × Json)} {name : String} {value : Json}
    (there : (memberMap members).get? name = some value) :
    ∃ given, (name, given) ∈ members ∧ value = given.canonical := by
  have member := SortedMap.mem_of_get?_ofList there
  rw [canonicalMembers_eq_map] at member
  obtain ⟨⟨_, given⟩, listed, same⟩ := List.mem_map.mp member
  cases same
  exact ⟨given, listed, rfl⟩

/-- What is looked up is the last of several members with the name. -/
theorem exists_last_of_get?_memberMap {members : List (String × Json)} {name : String}
    {value : Json} (there : (memberMap members).get? name = some value) :
    ∃ before last behind, members = before ++ (name, last) :: behind ∧
      name ∉ behind.map (·.1) ∧ value = last.canonical := by
  obtain ⟨given, listed, -⟩ := exists_of_get?_memberMap there
  obtain ⟨before, last, behind, rfl, fresh⟩ :=
    SortedMap.exists_last (List.mem_map_of_mem (f := (·.1)) listed)
  rw [get?_memberMap_last before name last fresh] at there
  exact ⟨before, last, behind, rfl, fresh, (Option.some_inj.mp there).symm⟩

@[simp] theorem canonical_canonical (value : Json) :
    value.canonical.canonical = value.canonical := by
  induction value using Json.induction with
  | scalar value isScalar => rw [canonical_of_isScalar isScalar, canonical_of_isScalar isScalar]
  | array items ih =>
      rw [canonical_array, canonical_array, List.map_map]
      exact congrArg _ (List.map_congr_left ih)
  | object members ih =>
      rw [canonical_object, canonical_object]
      refine congrArg (Json.object ·.entries) (SortedMap.ext_get? fun name => ?_)
      rw [get?_memberMap (SortedMap.nodup_names _)]
      show ((memberMap members).get? name).map canonical = _
      cases found : (memberMap members).get? name with
      | none => rfl
      | some value =>
          obtain ⟨given, listed, rfl⟩ := exists_of_get?_memberMap found
          exact congrArg some (ih (name, given) listed)

theorem memberMap_canonical (members : List (String × Json)) :
    memberMap (memberMap members).entries = memberMap members := by
  have same := canonical_canonical (.object members)
  rw [canonical_object, canonical_object] at same
  exact SortedMap.ext (Json.object.inj same)

/-! ## Records -/

theorem fields?_object {members : List (String × Json)} (distinct : (members.map (·.1)).Nodup)
    (names : List String) :
    (Json.object members).fields? names = some (names.map fun name => members.lookup name) := by
  rw [fields?]
  induction names with
  | nil => rfl
  | cons name names ih => simp [soleMember_of_nodup distinct, ih]

theorem fields?_canonical {value : Json} (unrepeated : value.Unrepeated) (names : List String) :
    value.canonical.fields? names = (value.fields? names).map (·.map (Option.map canonical)) := by
  cases unrepeated with
  | scalar isScalar =>
      rw [canonical_of_isScalar isScalar]
      cases value <;> first | rfl | cases isScalar
  | array each =>
      rw [canonical_array, fields?, fields?, List.length_map]
      split
      · simp
      · rfl
  | @object members distinct each =>
      rw [canonical_object, fields?_object (SortedMap.nodup_names _), fields?_object distinct,
        Option.map_some, List.map_map]
      exact congrArg some (List.map_congr_left fun name _ => get?_memberMap distinct name)

theorem unrepeated_of_mem_fields? {value : Json} (unrepeated : value.Unrepeated)
    {names : List String} {fields : List (Option Json)} (read : value.fields? names = some fields)
    {field : Json} (member : some field ∈ fields) : field.Unrepeated := by
  cases unrepeated with
  | scalar isScalar => cases value <;> first | cases read | cases isScalar
  | array each =>
      rw [fields?] at read
      split at read
      · cases read
        simp only [List.mem_append, List.mem_map, Option.some_inj, exists_eq_right,
          List.mem_replicate, reduceCtorEq, and_false, or_false] at member
        exact each field member
      · cases read
  | @object members distinct each =>
      rw [fields?_object distinct, Option.some_inj] at read
      subst read
      obtain ⟨name, -, found⟩ := List.mem_map.mp member
      rw [← SortedMap.get?_ofList distinct] at found
      exact each _ (SortedMap.mem_of_get?_ofList found)

/-- A value and its canonical form are read alike. -/
def Respects {α : Type} (read : Json → α) : Prop :=
  ∀ value : Json, value.Unrepeated → read value.canonical = read value

theorem Respects.mapM {α : Type} {read : Json → Option α} (respects : Respects read)
    {items : List Json} (each : ∀ item ∈ items, item.Unrepeated) :
    (items.map canonical).mapM read = items.mapM read := by
  induction items with
  | nil => rfl
  | cons item items ih =>
      have ⟨first, later⟩ := List.forall_mem_cons.mp each
      rw [List.map_cons, List.mapM_cons, List.mapM_cons, respects item first, ih later]

/-- What is made of the fields of a record is made of their canonical forms as well. -/
theorem Respects.fields {α : Type} {names : List String}
    {make : List (Option Json) → Option α}
    (respects : ∀ fields, (∀ field, some field ∈ fields → field.Unrepeated) →
      make (fields.map (Option.map canonical)) = make fields) :
    Respects fun value => (value.fields? names).bind make := by
  intro value unrepeated
  dsimp only
  rw [fields?_canonical unrepeated]
  cases read : value.fields? names with
  | none => rfl
  | some fields => exact respects fields fun field => unrepeated_of_mem_fields? unrepeated read

/-- What is read of no list and no object is read of a canonical form alike. -/
theorem read_canonical_of_refused {α : Type} (read : Json → α) {refused : α}
    (arrays : ∀ items, read (.array items) = refused)
    (objects : ∀ members, read (.object members) = refused) (value : Json) :
    read value.canonical = read value := by
  cases value with
  | array => rw [canonical_array, arrays, arrays]
  | object => rw [canonical_object, objects, objects]
  | null | bool | number | string => rw [canonical_of_isScalar rfl]

theorem Respects.of_arrays {α : Type} {read : Json → α} {refused : α}
    (objects : ∀ members, read (.object members) = refused)
    (arrays : ∀ items : List Json, (∀ item ∈ items, item.Unrepeated) →
      read (.array (items.map canonical)) = read (.array items)) : Respects read := by
  intro value unrepeated
  cases unrepeated with
  | scalar isScalar => rw [canonical_of_isScalar isScalar]
  | array each => rw [canonical_array, arrays _ each]
  | object => rw [canonical_object, objects, objects]

@[simp] theorem string?_canonical (value : Json) : value.canonical.string? = value.string? :=
  read_canonical_of_refused string? (fun _ => rfl) (fun _ => rfl) value

@[simp] theorem bool?_canonical (value : Json) : value.canonical.bool? = value.bool? :=
  read_canonical_of_refused bool? (fun _ => rfl) (fun _ => rfl) value

end Json

open Json

/-! ## Inline content -/

@[simp] theorem Styles.flag?_canonical (field : Option Json) :
    flag? (field.map canonical) = flag? field := by
  cases field with
  | none => rfl
  | some value => exact bool?_canonical value

@[simp] theorem Styles.color?_canonical (field : Option Json) :
    color? (field.map canonical) = color? field := by
  cases field with
  | none => rfl
  | some value =>
      exact read_canonical_of_refused (fun value => color? (some value)) (fun _ => rfl)
        (fun _ => rfl) value

theorem Styles.respects : Respects Styles.ofJson? := by
  refine Respects.fields fun fields _ => ?_
  rcases fields with _ | ⟨_, _ | ⟨_, _ | ⟨_, _ | ⟨_, _ | ⟨_, _ | ⟨_, _ | ⟨_, _ | _⟩⟩⟩⟩⟩⟩⟩ <;> simp

theorem Run.respects : Respects Run.ofJson? := by
  refine Respects.fields fun fields unrepeated => ?_
  rcases fields with _ | ⟨_ | text, _ | ⟨_ | styles, _ | _⟩⟩
  case cons.some.cons.some.nil =>
    have same := Styles.respects styles (unrepeated styles (by simp))
    simp [same]
  all_goals simp

theorem LinkContent.respects : Respects LinkContent.ofJson? := by
  refine .of_arrays (fun _ => rfl) fun items each => ?_
  rw [ofJson?, ofJson?, Run.respects.mapM each]

theorem Link.respects : Respects Link.ofJson? := by
  refine Respects.fields fun fields unrepeated => ?_
  rcases fields with _ | ⟨_ | href, _ | ⟨_ | content, _ | _⟩⟩
  case cons.some.cons.some.nil =>
    have same := LinkContent.respects content (unrepeated content (by simp))
    simp [same]
  all_goals simp

@[simp] theorem NodeTag.ofJson?_canonical (value : Json) :
    ofJson? value.canonical = ofJson? value :=
  read_canonical_of_refused ofJson? (fun _ => rfl) (fun _ => rfl) value

/-- The fields of a node are found whether or not its tag stands among them. -/
theorem fields?_filter (members : List (String × Json)) {tag : String} {names : List String}
    (other : tag ∉ names) :
    (Json.object (members.filter (·.1 ≠ tag))).fields? names =
      (Json.object members).fields? names := by
  refine mapM_congr fun name listed => ?_
  have distinct : name ≠ tag := fun same => other (same ▸ listed)
  have kept : (members.filter (·.1 ≠ tag)).filter (·.1 = name) = members.filter (·.1 = name) := by
    rw [List.filter_filter]
    refine List.filter_congr fun member _ => ?_
    by_cases here : member.1 = name <;> simp [here, distinct]
  rw [soleMember, soleMember, kept]

/-- What a node is read as once its tag is known. -/
def NodeTag.read? (value : Json) : NodeTag → Option InlineItem
  | .text => .run <$> Run.ofJson? value
  | .link => .link <$> Link.ofJson? value

theorem NodeTag.read?_canonical {value : Json} (unrepeated : value.Unrepeated) (tag : NodeTag) :
    tag.read? value.canonical = tag.read? value := by
  cases tag with
  | text => rw [read?, read?, Run.respects value unrepeated]
  | link => rw [read?, read?, Link.respects value unrepeated]

theorem NodeTag.read?_filter (members : List (String × Json)) (tag : NodeTag) :
    tag.read? (.object (members.filter (·.1 ≠ "type"))) = tag.read? (.object members) := by
  cases tag with
  | text => rw [read?, read?, Run.ofJson?, Run.ofJson?, fields?_filter members (by decide)]
  | link => rw [read?, read?, Link.ofJson?, Link.ofJson?, fields?_filter members (by decide)]

theorem InlineItem.ofJson?_object {members : List (String × Json)}
    (distinct : (members.map (·.1)).Nodup) :
    ofJson? (.object members) = (members.lookup "type").bind fun tag =>
      (NodeTag.ofJson? tag).bind (NodeTag.read? (.object members)) := by
  rw [ofJson?, taggedRecord?, soleMember_of_nodup distinct]
  · cases members.lookup "type" with
    | none => rfl
    | some tag =>
        simp only [Option.bind_eq_bind, Option.bind_some, Option.pure_def]
        refine congrArg _ (funext fun tag => ?_)
        rw [← NodeTag.read?_filter]
        cases tag <;> rfl
  · exact nofun

theorem InlineItem.ofJson?_array (tag : Json) (fields : List Json) :
    ofJson? (.array (tag :: fields)) =
      (NodeTag.ofJson? tag).bind (NodeTag.read? (.array fields)) := by
  rw [ofJson?, taggedRecord?]
  · simp only [Option.bind_eq_bind, Option.bind_some]
    refine congrArg _ (funext fun tag => ?_)
    cases tag <;> rfl
  · exact nofun

theorem InlineItem.respects : Respects InlineItem.ofJson? := by
  intro value unrepeated
  cases unrepeated with
  | scalar isScalar => rw [canonical_of_isScalar isScalar]
  | @array items each =>
      rw [canonical_array]
      cases items with
      | nil => rfl
      | cons tag fields =>
          have ⟨_, later⟩ := List.forall_mem_cons.mp each
          rw [List.map_cons, ofJson?_array, ofJson?_array, NodeTag.ofJson?_canonical,
            ← canonical_array]
          exact congrArg _ (funext (NodeTag.read?_canonical (.array later)))
  | @object members distinct each =>
      have read := funext (NodeTag.read?_canonical (.object distinct each))
      rw [canonical_object] at read ⊢
      rw [ofJson?_object distinct, ofJson?_object (SortedMap.nodup_names _), read]
      show ((memberMap members).get? "type").bind _ = _
      rw [get?_memberMap distinct]
      cases members.lookup "type" with
      | none => rfl
      | some tag => simp

theorem Inline.respects : Respects Inline.ofJson? := by
  refine .of_arrays (fun _ => rfl) fun items each => ?_
  rw [ofJson?, ofJson?, InlineItem.respects.mapM each]

/-! ## Tables -/

theorem Cell.propsOfJson?_canonical {field : Option Json}
    (unrepeated : ∀ value ∈ field, value.Unrepeated) :
    propsOfJson? (field.map canonical) = propsOfJson? field := by
  rcases field with _ | value
  · rfl
  · cases unrepeated value rfl with
    | scalar isScalar => rw [Option.map_some, canonical_of_isScalar isScalar]
    | array => rw [Option.map_some, canonical_array]; rfl
    | object distinct each =>
        rw [Option.map_some, canonical_object, propsOfJson?, propsOfJson?,
          memberMap_canonical]

theorem Cell.respects_full : Respects Cell.fullOfJson? := by
  refine Respects.fields fun fields unrepeated => ?_
  rcases fields with _ | ⟨props, _ | ⟨content, _ | _⟩⟩
  case cons.cons.nil =>
    have same : propsOfJson? (props.map canonical) = propsOfJson? props :=
      propsOfJson?_canonical fun value there => unrepeated value (by simp [Option.mem_def.mp there])
    simp only [List.map_cons, List.map_nil, same]
    cases content with
    | none => rfl
    | some content =>
        simp only [Option.map_some, Inline.respects content (unrepeated content (by simp))]
  all_goals rfl

theorem Cell.respects : Respects Cell.ofJson? := by
  intro value unrepeated
  rw [ofJson?, ofJson?, Inline.respects value unrepeated, Cell.respects_full value unrepeated]

theorem Table.widthOfJson?_canonical (value : Json) :
    widthOfJson? value.canonical = widthOfJson? value :=
  read_canonical_of_refused widthOfJson? (fun _ => rfl) (fun _ => rfl) value

/-- A list of values is read as long as its items are. -/
theorem Respects.list {α : Type} {read : Json → Option α} (respects : Respects read) :
    Respects fun value => value.array?.bind (·.mapM read) :=
  .of_arrays (fun _ => rfl) fun _ each => respects.mapM each

theorem Table.respects_row : Respects Table.rowOfJson? := by
  refine Respects.fields fun fields unrepeated => ?_
  rcases fields with _ | ⟨_ | cells, _ | _⟩
  case cons.some.nil => exact Respects.list Cell.respects cells (unrepeated cells (by simp))
  all_goals rfl

theorem Table.respects : Respects Table.ofJson? := by
  refine Respects.fields fun fields unrepeated => ?_
  rcases fields with _ | ⟨widths, _ | ⟨_ | rows, _ | _⟩⟩
  case cons.cons.some.nil =>
    have sameRows := Respects.list Table.respects_row rows (unrepeated rows (by simp))
    have each : Respects widthOfJson? := fun value _ => widthOfJson?_canonical value
    dsimp only at sameRows
    rcases widths with _ | widths
    · simp [← Option.bind_assoc, sameRows]
    · have sameWidths := Respects.list each widths (unrepeated widths (by simp))
      dsimp only at sameWidths
      simp [← Option.bind_assoc, sameRows, sameWidths]
  all_goals rfl

theorem Content.respects : Respects Content.ofJson := by
  intro value unrepeated
  rw [ofJson, ofJson, Inline.respects value unrepeated, Table.respects value unrepeated,
    canonical_canonical]

end BlockScribe
