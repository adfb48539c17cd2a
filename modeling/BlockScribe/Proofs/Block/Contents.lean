import BlockScribe.Proofs.Block.Cells
import BlockScribe.Proofs.Block.Substitution
import BlockScribe.Proofs.Json.Splicing

/-!
# Any content of a block

Whatever value is written as the content of a block, the list of blocks is read.
A value that is no content is kept as it is, and comes to light when the
document is built, behind all violations that stand in front of it.
-/

namespace BlockScribe

/-! ## The content of a value -/

/-- What a value is as content.  No value can be taken for two things. -/
inductive ContentFor (value : Json) : Option Content → Prop
  | null (isNull : value = .null) : ContentFor value none
  | inline {content : Inline} (read : Inline.ofJson? value = some content)
      (noTable : Table.ofJson? value = none) : ContentFor value (some (.inline content))
  | table {table : Table} (noInline : Inline.ofJson? value = none)
      (read : Table.ofJson? value = some table) : ContentFor value (some (.table table))
  | malformed (notNull : value ≠ .null) (noInline : Inline.ofJson? value = none)
      (noTable : Table.ofJson? value = none) :
      ContentFor value (some (.malformed value.canonical))

theorem contentFor_ofJson {value : Json} (notNull : value ≠ .null) :
    ContentFor value (some (.ofJson value)) := by
  cases inline : Inline.ofJson? value with
  | some content =>
      cases table : Table.ofJson? value with
      | some found =>
          obtain ⟨rows, written, -⟩ := Table.exists_written table
          rw [Table.inline_of_written written] at inline
          cases inline
      | none =>
          simp only [Content.ofJson, inline]
          exact .inline inline table
  | none =>
      cases table : Table.ofJson? value with
      | some found =>
          simp only [Content.ofJson, inline, table]
          exact .table inline table
      | none =>
          simp only [Content.ofJson, inline, table]
          exact .malformed notNull inline table

namespace Block

open Json (Node Key Fault Tree)

/-- Content is never refused. -/
theorem exists_contentFor {depth : Nat} {node : Node} {value : Json}
    (read : node.value depth = .ok value) :
    ∃ content, readContent depth node = .ok content ∧ ContentFor value content := by
  rw [readContent, read]
  by_cases isNull : value = .null
  · subst isNull
    exact ⟨none, rfl, .null rfl⟩
  · refine ⟨some (.ofJson value), ?_, contentFor_ofJson isNull⟩
    cases value <;> first | rfl | exact absurd rfl isNull

/-! ## What is wrong in front of a content -/

/-- The blocks in front of the block at a path, in the order of the text. -/
def ahead : List Nat → List Block → List Block
  | [], _ => []
  | [index], blocks => preorders (blocks.take index)
  | index :: next :: path, blocks =>
      preorders (blocks.take index) ++
        match blocks[index]? with
        | none => []
        | some block => block :: ahead (next :: path) block.children

/-- What is reported before the content of the block at a path could be. -/
def violationsAhead (path : List Nat) (blocks : List Block) : List SchemaError :=
  (ahead path blocks).flatMap violations ++
    match atPath? Block.children blocks path with
    | none => []
    | some block => (block.withContent none).violations

theorem preorder_eq (block : Block) : block.preorder = block :: preorders block.children := by
  cases block
  rw [preorder]

theorem preorders_append (blocks more : List Block) :
    preorders (blocks ++ more) = preorders blocks ++ preorders more := by
  induction blocks with
  | nil => rw [preorders]; rfl
  | cons block blocks ih => rw [List.cons_append, preorders, preorders, ih, List.append_assoc]

theorem preorders_eq_of_getElem? {blocks : List Block} {index : Nat} {block : Block}
    (there : blocks[index]? = some block) : preorders blocks =
      preorders (blocks.take index) ++
        block :: (preorders block.children ++ preorders (blocks.drop (index + 1))) := by
  obtain ⟨inside, rfl⟩ := List.getElem?_eq_some_iff.mp there
  conv => lhs; rw [← List.take_append_drop index blocks]
  rw [preorders_append, List.drop_eq_getElem_cons inside, preorders, preorder_eq]
  rfl

theorem preorders_eq_ahead {path : List Nat} {blocks : List Block} {block : Block}
    (there : atPath? Block.children blocks path = some block) :
    ∃ after, preorders blocks = ahead path blocks ++ block :: after := by
  induction path generalizing blocks with
  | nil => cases there
  | cons index path ih =>
      cases path with
      | nil => exact ⟨_, preorders_eq_of_getElem? there⟩
      | cons next path =>
          obtain ⟨parent, here, deeper⟩ := Option.bind_eq_some_iff.mp there
          obtain ⟨after, inner⟩ := ih deeper
          refine ⟨after ++ preorders (blocks.drop (index + 1)), ?_⟩
          rw [preorders_eq_of_getElem? here, inner, ahead, here]
          simp

theorem take_modify {α : Type} (change : α → α) (index : Nat) (values : List α) :
    (values.modify index change).take index = values.take index := by
  refine List.ext_getElem? fun place => ?_
  rw [List.getElem?_take, List.getElem?_take]
  split
  · next inside => rw [List.getElem?_modify_ne change values (Nat.ne_of_gt inside)]
  · rfl

/-- A change of content changes nothing that stands in front of it. -/
theorem ahead_modifyAt (change : Block → Block) (path : List Nat) (blocks : List Block) :
    (ahead path (modifyAt change path blocks)).flatMap violations =
      (ahead path blocks).flatMap violations := by
  induction path generalizing blocks with
  | nil => rfl
  | cons index path ih =>
      cases path with
      | nil => rw [ahead, ahead, modifyAt, take_modify]
      | cons next path =>
          rw [ahead, ahead, modifyAt, take_modify, List.getElem?_modify_eq, List.flatMap_append,
            List.flatMap_append]
          cases blocks[index]? with
          | none => rfl
          | some block =>
              exact congrArg (fun later => _ ++ (block.violations ++ later)) (ih block.children)

theorem atPath?_modifyAt {path : List Nat} {blocks : List Block} {block : Block}
    (there : atPath? Block.children blocks path = some block) (change : Block → Block) :
    atPath? Block.children (modifyAt change path blocks) path = some (change block) := by
  induction path generalizing blocks with
  | nil => cases there
  | cons index path ih =>
      cases path with
      | nil =>
          have here : blocks[index]? = some block := there
          rw [modifyAt, atPath?, List.getElem?_modify_eq, here]
          rfl
      | cons next path =>
          obtain ⟨parent, here, deeper⟩ := Option.bind_eq_some_iff.mp there
          rw [modifyAt, atPath?, List.getElem?_modify_eq, here]
          exact ih deeper

theorem violations_malformed (block : Block) (value : Json) :
    (block.withContent (some (.malformed value))).violations =
      (block.withContent none).violations ++
        match BlockType.ofName? block.type with
        | none => []
        | some type => [.malformedContent type] := by
  rw [violations, violations]
  simp only [withContent]
  cases BlockType.ofName? block.type with
  | none => rfl
  | some type => simp [Content.violations]

/-- A content that is none is reported on its block, unless something is wrong in front of it. -/
theorem construct_malformedAt {path : List Nat} {blocks : List Block} {block : Block}
    (there : atPath? Block.children blocks path = some block) (value : Json) :
    ∃ type, (violationsAhead path blocks = [] → BlockType.ofName? block.type = some type) ∧
      ∀ store, construct store (modifyAt (withContent (some (.malformed value))) path blocks) =
        .error ((violationsAhead path blocks).headD (.malformedContent type)) := by
  have changed := atPath?_modifyAt there (withContent (some (.malformed value)))
  obtain ⟨after, order⟩ := preorders_eq_ahead changed
  have reports (store : String) := construct_reports store
    (modifyAt (withContent (some (.malformed value))) path blocks)
  simp only [order, List.flatMap_append, List.flatMap_cons, ahead_modifyAt,
    violations_malformed] at reports
  simp only [violationsAhead, there]
  cases known : BlockType.ofName? block.type with
  | none =>
      -- No type, no content to be wrong: the type itself is reported in front of it.
      have unknown : (block.withContent none).violations = [.unknownType block.type] := by
        rw [violations]
        simp only [withContent, known]
      refine ⟨.paragraph, fun clean => ?_, fun store => ?_⟩
      · simp [unknown] at clean
      · rw [(reports store).error_iff, known, unknown]
        cases (ahead path blocks).flatMap violations <;> rfl
  | some type =>
      refine ⟨type, fun _ => rfl, fun store => ?_⟩
      rw [(reports store).error_iff, known]
      simp only [← List.append_assoc]
      cases (ahead path blocks).flatMap violations ++ (block.withContent none).violations <;> rfl

/-! ## Texts -/

/-- The text in front of the content of an object and the text behind it.  Where the object has
no content, a member for it is put in front of the others. -/
inductive Surrounds (text : String) (start : Nat) (members : List (Key × Node)) :
    String → String → Prop
  | member {key : Key} {node node' : Node} {before old behind : String}
      (listed : (key, node) ∈ members) (named : key.name.value = .ok "content")
      (cut : text = before ++ old ++ behind)
      (begins : Json.byteLength before.toList = node.start)
      (whole : Tree.ofText old = ⟨node', .ok ()⟩) (alike : node.Alike node') :
      Surrounds text start members before behind
  | missing {before behind : String}
      (unnamed : ∀ member ∈ members, member.1.name.value ≠ .ok "content")
      (cut : text = before ++ "\x7b" ++ behind) (begins : Json.byteLength before.toList = start) :
      Surrounds text start members (before ++ "\x7b\"content\":")
        ((if members = [] then "" else ",") ++ behind)

/-- The value of a text, where arrays and objects may be nested so deep. -/
def valueAt (depth : Nat) (text : String) : Except Fault Json := do
  let value ← (Tree.ofText text).root.value depth
  (Tree.ofText text).ending
  return value

theorem parseList_of_alike {text : String} {root node : Node} {blocks : List Block}
    (tree : Tree.ofText text = ⟨root, .ok ()⟩) (alike : node.Alike root)
    (read : readList Json.maxDepth node = .ok blocks) : parseList text = .ok blocks := by
  have same := (toOption_read_congr Json.maxDepth).2 _ _ alike
  rw [read] at same
  rw [parseList_eq_ok, tree]
  exact ⟨toOption_eq_some.mp same.symm, rfl⟩

/-- The content of an object has its text between two ends, and any content that is read from
another text between them becomes that of the block. -/
theorem exists_surrounds {text : String} {around : Node → Node} (hole : Json.Hole around)
    {start : Nat} {members : List (Key × Node)}
    (tree : Tree.ofText text = ⟨around (.object start members), .ok ()⟩)
    (whole : (around (.object start members)).skip = .ok ()) {depth : Nat} {block : Block}
    (here : read (depth + 1) (.object start members) = .ok block) :
    ∃ before behind, Surrounds text start members before behind ∧
      ∃ inside : Node → Node, Json.Encloses before behind (fun node => around (inside node)) ∧
        ∀ node content, readContent depth node = .ok content →
          read (depth + 1) (inside node) = .ok (block.withContent content) := by
  by_cases nameless : ∃ member ∈ members, member.1.name.value = .ok "content"
  · obtain ⟨⟨key, node⟩, listed, named⟩ := nameless
    obtain ⟨front, back, rfl⟩ := List.append_of_mem listed
    obtain ⟨before, old, behind, cut, begins, ⟨node', old_tree, alike⟩, encloses⟩ :=
      Json.exists_encloses (hole.comp (.member start front back key .root)) tree whole
    exact ⟨before, behind, .member listed named cut begins old_tree alike, _, encloses,
      fun node' content taken => replace_content named here taken⟩
  · obtain ⟨before, behind, cut, begins, encloses⟩ :=
      Json.exists_encloses_content hole tree whole
    have unnamed : ∀ member ∈ members, member.1.name.value ≠ .ok "content" :=
      fun member listed named => nameless ⟨member, listed, named⟩
    exact ⟨_, _, .missing unnamed cut begins, _, encloses,
      fun node content taken => insert_content unnamed here rfl taken⟩

/--
Each block of a list that is read has its tree in that of the text.  Where this is
an object, the content of the block can be written as any value that may be nested
there: the list is read, and only this content is another.  If the value is none of
those that a block can have, it is so reported, unless there is something to report
in front of it.
-/
theorem parseList_withContent {text : String} {blocks : List Block}
    (accepted : parseList text = .ok blocks) :
    (∀ path block, atPath? Block.children blocks path = some block → ∃ around node depth,
      Around path around ∧ (Tree.ofText text).root = around node ∧
        read depth node = .ok block) ∧
    ∀ path around start members, Around path around →
      (Tree.ofText text).root = around (.object start members) →
      ∃ block before behind, atPath? Block.children blocks path = some block ∧
        Surrounds text start members before behind ∧
        ∀ inserted value, valueAt (Json.maxDepth - 2 * path.length) inserted = .ok value →
          ∃ content, ContentFor value content ∧
            parseList (before ++ inserted ++ behind) =
              .ok (modifyAt (withContent content) path blocks) ∧
            ∀ malformed, content = some (.malformed malformed) → ∃ type,
              (violationsAhead path blocks = [] → BlockType.ofName? block.type = some type) ∧
              ∀ store, construct store (modifyAt (withContent content) path blocks) =
                .error ((violationsAhead path blocks).headD (.malformedContent type)) := by
  obtain ⟨read, ending⟩ := parseList_eq_ok.mp accepted
  refine ⟨fun path block there => exists_around read there, ?_⟩
  intro path around start members there written
  have whole := (skip_of_read _).2 _ _ read
  rw [written] at read whole
  have tree : Tree.ofText text = ⟨around (.object start members), .ok ()⟩ := by
    rw [← written, ← ending]
  obtain ⟨depth, block, deep, here, found, changed⟩ := there.readsApart read
  have depth_eq : Json.maxDepth - 2 * path.length = depth := by omega
  obtain ⟨before, behind, surrounds, inside, encloses, reads⟩ :=
    exists_surrounds there.hole tree whole here
  refine ⟨block, before, behind, found, surrounds, fun inserted value valued => ?_⟩
  rw [valueAt, depth_eq] at valued
  obtain ⟨_, valued, rest⟩ := bind_eq_ok.mp valued
  obtain ⟨⟨⟩, ends, ⟨⟩⟩ := bind_eq_ok.mp rest
  obtain ⟨content, taken, isContent⟩ := exists_contentFor valued
  have inserted_tree : Tree.ofText inserted = ⟨(Tree.ofText inserted).root, .ok ()⟩ := by
    rw [← ends]
  obtain ⟨root, tree', alike⟩ := encloses inserted_tree (Node.skip_of_value valued)
  refine ⟨content, isContent, ?_, ?_⟩
  · exact parseList_of_alike tree' alike (changed _ _ (reads _ _ taken))
  · rintro malformed rfl
    exact construct_malformedAt found malformed

set_option maxRecDepth 8000 in
theorem parseList_withContent_sample :
    let blocks : List Block := [⟨none, "paragraph", .empty, none,
      [⟨none, "paragraph", .empty, some (.malformed (.bool true)), []⟩]⟩]
    ∃ before behind, parseList (before ++ "true" ++ behind) = .ok blocks ∧
      ∀ store, construct store blocks = .error (.malformedContent .paragraph) := by
  intro blocks
  have tokens : Json.tokensFrom "[\x7b\"children\":[\x7b\"content\":\"Hi\"\x7d]\x7d]".toList 0 =
      [.mark 0 .openArray, .mark 1 .openObject, .string 2 12 (.sound "children"), .mark 12 .colon,
        .mark 13 .openArray, .mark 14 .openObject, .string 15 24 (.sound "content"),
        .mark 24 .colon, .string 25 29 (.sound "Hi"), .mark 29 .closeObject, .mark 30 .closeArray,
        .mark 31 .closeObject, .mark 32 .closeArray] := by
    with_unfolding_all rfl
  have word : Json.tokensFrom "true".toList 0 = [.plain 0 4 (.sound (.bool true))] := by
    with_unfolding_all rfl
  have tree : Tree.ofText "[\x7b\"children\":[\x7b\"content\":\"Hi\"\x7d]\x7d]" =
      ⟨.array 0 [.object 1 [(⟨.sound "children", 12⟩, .array 13 [.object 14
        [(⟨.sound "content", 24⟩, .leaf 25 29 (.sound (.string "Hi")))]])]], .ok ()⟩ := by
    rw [Tree.ofText, tokens]
    rfl
  have accepted : parseList "[\x7b\"children\":[\x7b\"content\":\"Hi\"\x7d]\x7d]" =
      .ok [⟨none, "paragraph", .empty, none,
        [⟨none, "paragraph", .empty, some (.inline (.text "Hi")), []⟩]⟩] := by
    rw [parseList_eq_ok, tree]
    exact ⟨rfl, rfl⟩
  have there : Around [0, 0] fun block => .array 0 [.object 1 [(⟨.sound "children", 12⟩,
      .array 13 [block])]] :=
    .object 0 [] [] 1 [] [] rfl (.item 13 [] [])
  obtain ⟨block, before, behind, found, -, taken⟩ :=
    (parseList_withContent accepted).2 [0, 0] _ 14 _ there (by rw [tree])
  have value : valueAt (Json.maxDepth - 2 * [0, 0].length) "true" = .ok (.bool true) := by
    rw [valueAt, Tree.ofText, word]
    rfl
  obtain ⟨content, isContent, parsed, rejected⟩ := taken "true" _ value
  obtain rfl : content = some (.malformed (.bool true)) := by
    cases isContent with
    | null isNull => cases isNull
    | inline read => cases read
    | table _ read => cases read
    | malformed => rfl
  refine ⟨before, behind, parsed, fun store => ?_⟩
  obtain ⟨type, known, fails⟩ := rejected _ rfl
  cases found
  cases known rfl
  exact fails store

end Block

end BlockScribe
