import BlockScribe.Proofs.Block.Values

/-!
# Spellings of a block list

Two texts of one value are read as the same block list, or neither is one.
Blanks, escapes, the spelling of a number and the order of members make no
difference, and members that blocks do not have may stand in a block or not,
whether or not their values could be read.  Values are told apart as they are
printed, so a negative zero is not zero.
-/

namespace BlockScribe.Block

open Json (Node Key Fault Tree)

/-! ## Members that blocks do not have -/

/-- The same members, some of those left out that blocks do not have; `lists` relates what the
children are read from. -/
inductive TrimsMembers (lists : Node → Node → Prop) :
    List (Key × Node) → List (Key × Node) → Prop
  | nil : TrimsMembers lists [] []
  | keep (member : Key × Node) {members rest : List (Key × Node)}
      (later : TrimsMembers lists members rest) :
      TrimsMembers lists (member :: members) (member :: rest)
  | children {key : Key} (named : key.name.value = .ok "children") {node trimmed : Node}
      (here : lists node trimmed) {members rest : List (Key × Node)}
      (later : TrimsMembers lists members rest) :
      TrimsMembers lists ((key, node) :: members) ((key, trimmed) :: rest)
  | drop {key : Key} {name : String} (named : key.name.value = .ok name)
      (unknown : name ∉ fieldNames) {node : Node} (skipped : node.skip = .ok ())
      {members rest : List (Key × Node)} (later : TrimsMembers lists members rest) :
      TrimsMembers lists ((key, node) :: members) rest

mutual

/-- The same block list, members left out of its blocks. -/
inductive TrimsList : Node → Node → Prop
  | refl (node : Node) : TrimsList node node
  | array (start : Nat) {nodes trimmed : List Node} (each : List.Forall₂ Trims nodes trimmed) :
      TrimsList (.array start nodes) (.array start trimmed)

/-- The same block, members left out of it and of the blocks below it. -/
inductive Trims : Node → Node → Prop
  | refl (node : Node) : Trims node node
  | object (start : Nat) {members trimmed : List (Key × Node)}
      (each : TrimsMembers TrimsList members trimmed) :
      Trims (.object start members) (.object start trimmed)
  | array (start : Nat) (id type props content : Node) {children trimmed : Node}
      (here : TrimsList children trimmed) (behind : List Node) :
      Trims (.array start (id :: type :: props :: content :: children :: behind))
        (.array start (id :: type :: props :: content :: trimmed :: behind))

end

section

variable {depth : Nat} {node trimmed : Node}

theorem readMember_unknown {readChildren : Node → Except Fault (List Block)} {draft : Draft}
    {key : Key} {name : String} (named : key.name.value = .ok name) (unknown : name ∉ fieldNames)
    (skipped : node.skip = .ok ()) :
    readMember readChildren depth draft (key, node) = .ok draft := by
  rw [readMember, show key.name.value = pure name from named, pure_bind]
  split
  case h_6 =>
    rw [skipped]
    rfl
  all_goals exact absurd (by decide) unknown

theorem readMember_children {readChildren : Node → Except Fault (List Block)} {draft : Draft}
    {key : Key} (named : key.name.value = .ok "children")
    (same : readChildren node = readChildren trimmed) :
    readMember readChildren depth draft (key, node) =
      readMember readChildren depth draft (key, trimmed) := by
  rw [readMember, readMember, named]
  show (do once _ key draft.children; _) = (do once _ key draft.children; _)
  rw [same]

theorem foldlM_trimsMembers {readChildren : Node → Except Fault (List Block)}
    (lists : ∀ node trimmed, TrimsList node trimmed → readChildren node = readChildren trimmed)
    {members rest : List (Key × Node)} (trims : TrimsMembers TrimsList members rest)
    (draft : Draft) : members.foldlM (readMember readChildren depth) draft =
      rest.foldlM (readMember readChildren depth) draft := by
  induction trims generalizing draft with
  | nil => rfl
  | keep member _ ih =>
      rw [List.foldlM_cons, List.foldlM_cons]
      exact congrArg _ (funext ih)
  | children named here _ ih =>
      rw [List.foldlM_cons, List.foldlM_cons, readMember_children named (lists _ _ here)]
      exact congrArg _ (funext ih)
  | drop named unknown skipped _ ih =>
      rw [List.foldlM_cons, readMember_unknown named unknown skipped]
      exact ih draft

theorem read_trims (lists : ∀ node trimmed, TrimsList node trimmed →
      readList depth node = readList depth trimmed) (trims : Trims node trimmed) :
    read (depth + 1) node = read (depth + 1) trimmed := by
  cases trims with
  | refl => rfl
  | object start each => rw [read, read, foldlM_trimsMembers lists each]
  | array start id type props content here behind =>
      rw [read, read, readFields, readFields]
      simp [lists _ _ here]

/-- Nothing is read from what is left out. -/
theorem read_and_readList_trims (depth : Nat) :
    (∀ node trimmed, Trims node trimmed → read depth node = read depth trimmed) ∧
    ∀ node trimmed, TrimsList node trimmed → readList depth node = readList depth trimmed := by
  induction depth with
  | zero =>
      constructor
      · intro node trimmed trims
        cases trims <;> rfl
      · intro node trimmed trims
        cases trims <;> rfl
  | succ depth ih =>
      constructor
      · intro node trimmed trims
        exact read_trims ih.2 trims
      · intro node trimmed trims
        cases trims with
        | refl => rfl
        | array start each =>
            rw [readList, readList]
            induction each with
            | nil => rfl
            | cons here _ rest => rw [List.mapM_cons, List.mapM_cons, ih.1 _ _ here, rest]

theorem grounded_trimsMembers {members rest : List (Key × Node)}
    (trims : TrimsMembers TrimsList members rest)
    (lists : ∀ member ∈ members, ∀ trimmed, TrimsList member.2 trimmed → trimmed.Grounded) :
    ∀ member ∈ rest, member.2.Grounded := by
  induction trims with
  | nil => exact List.forall_mem_nil _
  | keep member _ ih =>
      have ⟨first, later⟩ := List.forall_mem_cons.mp lists
      exact List.forall_mem_cons.mpr ⟨first _ (.refl _), ih later⟩
  | children named here _ ih =>
      have ⟨first, later⟩ := List.forall_mem_cons.mp lists
      exact List.forall_mem_cons.mpr ⟨first _ here, ih later⟩
  | drop named unknown skipped _ ih => exact ih (List.forall_mem_cons.mp lists).2

theorem grounded_trims (ground : node.Grounded) :
    (∀ trimmed, Trims node trimmed → trimmed.Grounded) ∧
    ∀ trimmed, TrimsList node trimmed → trimmed.Grounded := by
  induction ground with
  | leaf scalar =>
      constructor
      all_goals
        intro trimmed trims
        cases trims
        exact .leaf scalar
  | array each ih =>
      constructor <;> intro trimmed trims
      · cases trims with
        | refl => exact .array each
        | array start id type props content here behind =>
            simp only [List.forall_mem_cons] at each ih
            refine .array ?_
            simp only [List.forall_mem_cons]
            exact ⟨each.1, each.2.1, each.2.2.1, each.2.2.2.1, ih.2.2.2.2.1.2 _ here,
              each.2.2.2.2.2⟩
      · cases trims with
        | refl => exact .array each
        | array start paired =>
            refine .array fun item member => ?_
            obtain ⟨node, member, trims⟩ := exists_mem_of_forall₂ paired member
            exact (ih node member).1 item trims
  | object each ih =>
      constructor <;> intro trimmed trims
      · cases trims with
        | refl => exact .object each
        | object start trims =>
            exact .object (grounded_trimsMembers trims fun member listed => (ih member listed).2)
      · cases trims
        exact .object each

end

/-! ## Texts -/

/-- A text has a value, members of its blocks left out or not. -/
def ReadsAs (text : String) (value : Json) : Prop :=
  ∃ root, TrimsList (Tree.ofText text).root root ∧
    (Tree.mk root (Tree.ofText text).ending).value = .ok value

theorem readsAs_of_parse {text : String} {value : Json} (read : Json.parse text = .ok value) :
    ReadsAs text value :=
  ⟨_, .refl _, mapError_eq_ok.mp read⟩

theorem ReadsAs.toOption_parseList {text : String} {value : Json} (reads : ReadsAs text value) :
    (parseList text).toOption = listOfJson? Json.maxDepth value := by
  obtain ⟨root, trims, read⟩ := reads
  obtain ⟨_, valued, rest⟩ := bind_eq_ok.mp read
  obtain ⟨⟨⟩, ended, ⟨⟩⟩ := bind_eq_ok.mp rest
  have has : Has Json.maxDepth root value :=
    ⟨valued, (grounded_trims (Tree.grounded_ofText text)).2 root trims⟩
  have same := (read_and_readList_trims Json.maxDepth).2 _ _ trims
  have closed : (Tree.ofText text).ending = pure () := ended
  rw [parseList, toOption_mapError, readTree, same, ← toOption_readList has, closed]
  cases readList Json.maxDepth root <;> rfl

/-- What a value is read as is read from its compact text as well. -/
theorem parseList_compact {value : Json} (plain : value.IsPlain Json.maxDepth)
    {blocks : List Block} (reads : listOfJson? Json.maxDepth value = some blocks) :
    parseList value.compact = .ok blocks := by
  have same := (readsAs_of_parse (Json.parse_compact plain)).toOption_parseList
  exact toOption_eq_some.mp (same.trans reads)

/-- Texts of equal canonical values read as the same blocks, or are both refused as block lists. -/
theorem parseList_of_canonical_eq {text text' : String} {value value' : Json}
    (reads : ReadsAs text value) (reads' : ReadsAs text' value') (unrepeated : value.Unrepeated)
    (unrepeated' : value'.Unrepeated) (same : value.canonical = value'.canonical) :
    (∃ blocks, parseList text = .ok blocks ∧ parseList text' = .ok blocks ∧
      ∀ settings : Settings,
        settings.encodeDescription text = settings.encodeDescription text') ∨
    ∃ error error', parseList text = .error error ∧ parseList text' = .error error' ∧
      ∀ settings : Settings,
        settings.encodeDescription text = .error (.record (.invalidBlockList error)) ∧
        settings.encodeDescription text' = .error (.record (.invalidBlockList error')) := by
  have alike : (parseList text).toOption = (parseList text').toOption := by
    have respects := listOfJson?_respects Json.maxDepth
    rw [reads.toOption_parseList, reads'.toOption_parseList, ← respects value unrepeated,
      ← respects value' unrepeated', same]
  cases read : parseList text with
  | ok blocks =>
      rw [read] at alike
      have read' : parseList text' = .ok blocks := toOption_eq_some.mp alike.symm
      refine .inl ⟨blocks, rfl, read', fun settings => ?_⟩
      rw [Settings.encodeDescription, Settings.encodeDescription, read, read']
  | error error =>
      cases read' : parseList text' with
      | ok blocks' =>
          rw [read, read'] at alike
          cases alike
      | error error' =>
          refine .inr ⟨error, error', rfl, rfl, fun settings => ⟨?_, ?_⟩⟩
          · rw [Settings.encodeDescription, read]
            rfl
          · rw [Settings.encodeDescription, read']
            rfl

set_option maxRecDepth 8000 in
theorem parseList_of_canonical_eq_sample :
    let text := "[\x7b\"id\":\"b\",\"content\":\"A\"\x7d]"
    let text' := "[\x7b\"content\": \"\\u0041\",\"x\":\"\\ud800\",\"id\":\"b\"\x7d]"
    (∃ blocks, parseList text = .ok blocks ∧ parseList text' = .ok blocks ∧
      ∀ settings : Settings,
        settings.encodeDescription text = settings.encodeDescription text') ∨
    ∃ error error', parseList text = .error error ∧ parseList text' = .error error' ∧
      ∀ settings : Settings,
        settings.encodeDescription text = .error (.record (.invalidBlockList error)) ∧
        settings.encodeDescription text' = .error (.record (.invalidBlockList error')) := by
  have tokens : Json.tokensFrom "[\x7b\"id\":\"b\",\"content\":\"A\"\x7d]".toList 0 =
      [.mark 0 .openArray, .mark 1 .openObject, .string 2 6 (.sound "id"), .mark 6 .colon,
        .string 7 10 (.sound "b"), .mark 10 .comma, .string 11 20 (.sound "content"),
        .mark 20 .colon, .string 21 24 (.sound "A"), .mark 24 .closeObject,
        .mark 25 .closeArray] := by
    with_unfolding_all rfl
  have tokens' : Json.tokensFrom
      "[\x7b\"content\": \"\\u0041\",\"x\":\"\\ud800\",\"id\":\"b\"\x7d]".toList 0 =
      [.mark 0 .openArray, .mark 1 .openObject,
        .string 2 11 (.sound "content"), .mark 11 .colon, .string 13 21 (.sound "A"),
        .mark 21 .comma, .string 22 25 (.sound "x"), .mark 25 .colon,
        .string 26 34 (.skippable ⟨.surrogateNotContinued, 34⟩), .mark 34 .comma,
        .string 35 39 (.sound "id"), .mark 39 .colon, .string 40 43 (.sound "b"),
        .mark 43 .closeObject, .mark 44 .closeArray] := by
    with_unfolding_all rfl
  intro text text'
  have read : Json.parse text =
      .ok (.array [.object [("id", .string "b"), ("content", .string "A")]]) := by
    rw [Json.parse, Tree.ofText, tokens]
    rfl
  have tree : Tree.ofText text' = ⟨.array 0 [.object 1
      [(⟨.sound "content", 11⟩, .leaf 13 21 (.sound (.string "A"))),
        (⟨.sound "x", 25⟩, .leaf 26 34 (.skippable ⟨.surrogateNotContinued, 34⟩)),
        (⟨.sound "id", 39⟩, .leaf 40 43 (.sound (.string "b")))]], .ok ()⟩ := by
    rw [Tree.ofText, tokens']
    rfl
  have reads' : ReadsAs text'
      (.array [.object [("content", .string "A"), ("id", .string "b")]]) := by
    refine ⟨.array 0 [.object 1 [(⟨.sound "content", 11⟩, .leaf 13 21 (.sound (.string "A"))),
      (⟨.sound "id", 39⟩, .leaf 40 43 (.sound (.string "b")))]], ?_, ?_⟩
    · rw [tree]
      refine .array 0 (.cons (.object 1 (.keep _ (.drop rfl (by decide) ?_ (.keep _ .nil)))) .nil)
      rw [Node.skip]
      rfl
    · rw [tree]
      rfl
  have unrepeated {first second name name' : String} (distinct : name ≠ name') : Json.Unrepeated
      (.array [.object [(name, .string first), (name', .string second)]]) := by
    have leaf (text : String) : Json.Unrepeated (.string text) := .scalar rfl
    refine .array (List.forall_mem_singleton.mpr (.object ?_ ?_))
    · simpa using distinct
    · simp [leaf]
  exact parseList_of_canonical_eq (readsAs_of_parse read) reads' (unrepeated (by decide))
    (unrepeated (by decide)) rfl

end BlockScribe.Block
