import BlockScribe.Proofs.Block.Alike
import BlockScribe.Proofs.Document.Positions

/-!
# One field of one block

A field is read from its own member, and the other members pass over it.  So
where one field of one block is written otherwise, the block differs in that
field, and the list that the block is in differs in that block only, as deep
inside as it may be.
-/

namespace BlockScribe.Block

open Json (Node Key Fault Hole)

/-! ## One field among the members -/

section

variable {α : Type} {readChildren : Node → Except Fault (List Block)} {depth : Nat} {name : String}
  {get : Draft → Option α} {put : Option α → Draft → Draft} {read : Node → Except Fault α}

/-- A field of a draft, and how it is read from the member of its name. -/
structure IsField (readChildren : Node → Except Fault (List Block)) (depth : Nat) (name : String)
    (get : Draft → Option α) (put : Option α → Draft → Draft) (read : Node → Except Fault α) :
    Prop where
  get_put (field : Option α) (draft : Draft) : get (put field draft) = field
  put_put (field other : Option α) (draft : Draft) : put field (put other draft) = put field draft
  put_get (draft : Draft) : put (get draft) draft = draft
  here (draft : Draft) (key : Key) (node : Node) (named : key.name.value = .ok name) :
    readMember readChildren depth draft (key, node) = (do
      once name key (get draft)
      return put (some (← read node)) draft)
  other (draft : Draft) (field : Option α) (member : Key × Node)
    (unnamed : member.1.name.value ≠ .ok name) :
    readMember readChildren depth (put field draft) member =
      put field <$> readMember readChildren depth draft member

theorem content_isField (readChildren : Node → Except Fault (List Block)) (depth : Nat) :
    IsField readChildren depth "content" Draft.content
      (fun content draft => { draft with content := content }) (readContent depth) where
  get_put _ _ := rfl
  put_put _ _ _ := rfl
  put_get _ := rfl
  here draft key node named := by
    rw [readMember, named]
    rfl
  other draft field member unnamed := by
    rw [readMember, readMember]
    cases named : member.1.name.value with
    | error fault => rfl
    | ok name =>
        rw [show Except.ok name = (pure name : Except Fault String) from rfl, pure_bind, pure_bind]
        split
        case h_4 => exact absurd named unnamed
        all_goals simp only [map_bind, map_pure]

theorem children_isField (readChildren : Node → Except Fault (List Block)) (depth : Nat) :
    IsField readChildren depth "children" Draft.children
      (fun children draft => { draft with children := children }) readChildren where
  get_put _ _ := rfl
  put_put _ _ _ := rfl
  put_get _ := rfl
  here draft key node named := by
    rw [readMember, named]
    rfl
  other draft field member unnamed := by
    rw [readMember, readMember]
    cases named : member.1.name.value with
    | error fault => rfl
    | ok name =>
        rw [show Except.ok name = (pure name : Except Fault String) from rfl, pure_bind, pure_bind]
        split
        case h_5 => exact absurd named unnamed
        all_goals simp only [map_bind, map_pure]

namespace IsField

variable {draft last : Draft} {members : List (Key × Node)}

theorem foldlM_put (isField : IsField readChildren depth name get put read)
    (unnamed : ∀ member ∈ members, member.1.name.value ≠ .ok name) (field : Option α)
    (draft : Draft) : members.foldlM (readMember readChildren depth) (put field draft) =
      put field <$> members.foldlM (readMember readChildren depth) draft := by
  induction members generalizing draft with
  | nil => rfl
  | cons member members ih =>
      obtain ⟨first, later⟩ := List.forall_mem_cons.mp unnamed
      rw [List.foldlM_cons, List.foldlM_cons, isField.other _ _ _ first, map_bind, bind_map_left]
      exact congrArg _ (funext (ih later))

/-- Once it is there, no member of its name comes again. -/
theorem unnamed_of_isSome (isField : IsField readChildren depth name get put read)
    (there : (get draft).isSome)
    (accepted : members.foldlM (readMember readChildren depth) draft = .ok last) :
    ∀ member ∈ members, member.1.name.value ≠ .ok name := by
  induction members generalizing draft with
  | nil => exact List.forall_mem_nil _
  | cons member members ih =>
      obtain ⟨key, node⟩ := member
      obtain ⟨draft', first, accepted⟩ := bind_eq_ok.mp accepted
      have unnamed : key.name.value ≠ .ok name := by
        intro named
        rw [isField.here draft key node named, once, if_pos there] at first
        cases first
      have kept : get draft' = get draft := by
        have same := isField.other draft (get draft) (key, node) unnamed
        rw [isField.put_get, first] at same
        rw [Except.ok.inj same, isField.get_put]
      exact List.forall_mem_cons.mpr ⟨unnamed, ih (by rwa [kept]) accepted⟩

/-- The field is what its one member says, and everything else is what it is. -/
theorem replace (isField : IsField readChildren depth name get put read)
    {front back : List (Key × Node)} {key : Key} {node : Node}
    (named : key.name.value = .ok name)
    (accepted : (front ++ (key, node) :: back).foldlM (readMember readChildren depth) draft =
      .ok last) :
    ∃ value, read node = .ok value ∧ get last = some value ∧ ∀ node' value',
      read node' = .ok value' →
        (front ++ (key, node') :: back).foldlM (readMember readChildren depth) draft =
          .ok (put (some value') last) := by
  rw [List.foldlM_append] at accepted
  obtain ⟨before, ahead, accepted⟩ := bind_eq_ok.mp accepted
  rw [List.foldlM_cons, isField.here _ _ _ named] at accepted
  obtain ⟨after, here, accepted⟩ := bind_eq_ok.mp accepted
  obtain ⟨_, once, here⟩ := bind_eq_ok.mp here
  obtain ⟨value, valued, here⟩ := bind_eq_ok.mp here
  cases here
  have unnamed := isField.unnamed_of_isSome (by rw [isField.get_put]; rfl) accepted
  have again (field : Option α) :
      back.foldlM (readMember readChildren depth) (put field before) = .ok (put field last) := by
    have same := isField.foldlM_put unnamed field (put (some value) before)
    rwa [isField.put_put, accepted] at same
  refine ⟨value, valued, ?_, fun node' value' valued' => ?_⟩
  · rw [← isField.get_put (some value) last]
    exact congrArg get (Except.ok.inj (accepted.symm.trans (again _)))
  · rw [List.foldlM_append, ahead, show Except.ok before = (pure before : Except Fault Draft)
      from rfl, pure_bind, List.foldlM_cons, isField.here _ _ _ named, once, valued']
    exact again (some value')

theorem insert (isField : IsField readChildren depth name get put read) {key : Key} {node : Node}
    {value : α} (named : key.name.value = .ok name) (absent : get draft = none)
    (unnamed : ∀ member ∈ members, member.1.name.value ≠ .ok name)
    (accepted : members.foldlM (readMember readChildren depth) draft = .ok last)
    (valued : read node = .ok value) :
    ((key, node) :: members).foldlM (readMember readChildren depth) draft =
      .ok (put (some value) last) := by
  rw [List.foldlM_cons, isField.here _ _ _ named, absent, valued]
  show members.foldlM _ (put (some value) draft) = _
  rw [isField.foldlM_put unnamed, accepted]
  rfl

end IsField

end

/-! ## Blocks at a path -/

/-- The same list, with the block at a path changed. -/
def modifyAt (change : Block → Block) : List Nat → List Block → List Block
  | [], blocks => blocks
  | [index], blocks => blocks.modify index change
  | index :: next :: path, blocks =>
      blocks.modify index fun block =>
        { block with children := modifyAt change (next :: path) block.children }

/-- The tree of a block list, as a function of the tree of the block at a path. -/
inductive Around : List Nat → (Node → Node) → Prop
  | item (start : Nat) (ahead behind : List Node) :
      Around [ahead.length] fun block => .array start (ahead ++ block :: behind)
  | object (start : Nat) (ahead behind : List Node) (place : Nat)
      (front back : List (Key × Node)) {key : Key} (named : key.name.value = .ok "children")
      {path : List Nat} {around : Node → Node} (inner : Around path around) :
      Around (ahead.length :: path) fun block =>
        .array start (ahead ++ .object place (front ++ (key, around block) :: back) :: behind)
  | array (start : Nat) (ahead behind : List Node) (place : Nat) (id type props content : Node)
      {path : List Nat} {around : Node → Node} (inner : Around path around) :
      Around (ahead.length :: path) fun block =>
        .array start (ahead ++ .array place [id, type, props, content, around block] :: behind)

theorem Around.hole {path : List Nat} {around : Node → Node} (there : Around path around) :
    Hole around := by
  induction there with
  | item start ahead behind => exact .item start ahead behind .root
  | object start ahead behind place front back _ _ ih =>
      exact .item start ahead behind (.member place front back _ ih)
  | array start ahead behind place id type props content _ ih =>
      exact .item start ahead behind (.item place [id, type, props, content] [] ih)

theorem Around.path_ne_nil {path : List Nat} {around : Node → Node} (there : Around path around) :
    ∃ index later, path = index :: later := by
  cases there <;> exact ⟨_, _, rfl⟩

/-- In a list that is read item by item, each item is one of the results. -/
theorem mapM_around {ε α β : Type} {make : α → Except ε β} {ahead behind : List α} {value : α}
    {made : List β} (accepted : (ahead ++ value :: behind).mapM make = .ok made) :
    ∃ image, make value = .ok image ∧ made[ahead.length]? = some image ∧
      ∀ value' image', make value' = .ok image' →
        (ahead ++ value' :: behind).mapM make = .ok (made.set ahead.length image') := by
  induction ahead generalizing made with
  | nil =>
      rw [List.nil_append, List.mapM_cons] at accepted
      obtain ⟨image, here, accepted⟩ := bind_eq_ok.mp accepted
      obtain ⟨images, later, accepted⟩ := bind_eq_ok.mp accepted
      cases accepted
      refine ⟨image, here, rfl, fun value' image' here' => ?_⟩
      rw [List.nil_append, List.mapM_cons, here', later]
      rfl
  | cons first ahead ih =>
      rw [List.cons_append, List.mapM_cons] at accepted
      obtain ⟨image, here, accepted⟩ := bind_eq_ok.mp accepted
      obtain ⟨images, later, accepted⟩ := bind_eq_ok.mp accepted
      cases accepted
      obtain ⟨found, made, listed, again⟩ := ih later
      refine ⟨found, made, listed, fun value' image' here' => ?_⟩
      rw [List.cons_append, List.mapM_cons, here, again value' image' here']
      rfl

theorem exists_draft_of_object {depth start : Nat} {members : List (Key × Node)} {block : Block}
    (accepted : read depth (.object start members) = .ok block) : ∃ below draft,
      depth = below + 1 ∧ draft.block = block ∧
        members.foldlM (readMember (readList below) below) .empty = .ok draft := by
  cases depth with
  | zero => cases accepted
  | succ below =>
      obtain ⟨draft, accepted, made⟩ := map_eq_ok.mp accepted
      exact ⟨below, draft, rfl, made, accepted⟩

/-- A block is written so that its children stand in one place, and nothing else does. -/
def HoldsChildren (wrap : Node → Node) : Prop :=
  ∀ {depth list parent}, read depth (wrap list) = .ok parent → ∃ below, depth = below + 1 ∧
    readList below list = .ok parent.children ∧ ∀ list' children',
      readList below list' = .ok children' →
        read depth (wrap list') = .ok { parent with children := children' }

theorem holdsChildren_object (start : Nat) (front back : List (Key × Node)) {key : Key}
    (named : key.name.value = .ok "children") :
    HoldsChildren fun list => .object start (front ++ (key, list) :: back) := by
  intro depth list parent accepted
  obtain ⟨below, draft, rfl, rfl, members⟩ := exists_draft_of_object accepted
  obtain ⟨children, lists, taken, replaced⟩ :=
    (children_isField (readList below) below).replace named members
  refine ⟨below, rfl, ?_, fun list' children' lists' => ?_⟩
  · rw [lists, Draft.block, taken]
    rfl
  · rw [read, replaced list' children' lists']
    rfl

theorem holdsChildren_array (start : Nat) (id type props content : Node) :
    HoldsChildren fun list => .array start [id, type, props, content, list] := by
  intro depth list parent accepted
  cases depth with
  | zero => cases accepted
  | succ below =>
      rw [read] at accepted
      obtain ⟨draft, found, rfl⟩ := map_eq_ok.mp accepted
      have fields (list : Node) : readFields (readList below) below [id, type, props, content, list]
          = (do
            let id ← some <$> readId id
            let type ← some <$> readString type
            let props ← some <$> readProps below props
            let content ← some <$> readContent below content
            return ⟨id, type, props, content, some (← readList below list)⟩) := by
        rw [readFields]
        simp
      rw [fields] at found
      obtain ⟨_, ids, found⟩ := bind_eq_ok.mp found
      obtain ⟨_, types, found⟩ := bind_eq_ok.mp found
      obtain ⟨_, propses, found⟩ := bind_eq_ok.mp found
      obtain ⟨_, contents, found⟩ := bind_eq_ok.mp found
      obtain ⟨children, lists, found⟩ := bind_eq_ok.mp found
      cases found
      refine ⟨below, rfl, lists, fun list' children' lists' => ?_⟩
      rw [read, fields, ids, types, propses, contents, lists']
      rfl

theorem modify_of_getElem? {α : Type} {values : List α} {index : Nat} {value : α}
    (there : values[index]? = some value) (change : α → α) :
    values.modify index change = values.set index (change value) := by
  induction values generalizing index with
  | nil => cases there
  | cons first values ih =>
      cases index with
      | zero =>
          cases there
          rfl
      | succ index => exact congrArg (first :: ·) (ih there)

/-- One block of a list is read by itself from its own tree, and whatever is read from another
tree in its place stands in its place. -/
def ReadsApart (path : List Nat) (around : Node → Node) (node : Node) (depth : Nat)
    (blocks : List Block) : Prop :=
  ∃ below block, depth = below + 2 * path.length ∧ read (below + 1) node = .ok block ∧
    atPath? Block.children blocks path = some block ∧ ∀ node' change,
      read (below + 1) node' = .ok (change block) →
        readList depth (around node') = .ok (modifyAt change path blocks)

/-- What is read apart among the children of a block is so in the list that the block is in. -/
theorem HoldsChildren.readsApart {wrap : Node → Node} (holds : HoldsChildren wrap) {path : List Nat}
    {around : Node → Node} (inner : Around path around) {node : Node}
    (apart : ∀ {depth blocks}, readList depth (around node) = .ok blocks →
      ReadsApart path around node depth blocks)
    {start depth : Nat} {ahead behind : List Node} {blocks : List Block}
    (accepted : readList depth (.array start (ahead ++ wrap (around node) :: behind)) =
      .ok blocks) :
    ReadsApart (ahead.length :: path)
      (fun node => .array start (ahead ++ wrap (around node) :: behind)) node depth blocks := by
  cases depth with
  | zero => cases accepted
  | succ depth =>
      rw [readList] at accepted
      obtain ⟨parent, here, listed, again⟩ := mapM_around accepted
      obtain ⟨lower, rfl, lists, replaced⟩ := holds here
      obtain ⟨below, block, rfl, read, found, changed⟩ := apart lists
      obtain ⟨index, later, rfl⟩ := inner.path_ne_nil
      refine ⟨below, block, by simp only [List.length_cons]; omega, read, ?_, ?_⟩
      · rw [atPath?, listed]
        exact found
      · intro node' change read'
        rw [readList, again _ _ (replaced _ _ (changed node' change read')), modifyAt,
          modify_of_getElem? listed]

theorem Around.readsApart {path : List Nat} {around : Node → Node} (there : Around path around)
    {depth : Nat} {node : Node} {blocks : List Block}
    (accepted : readList depth (around node) = .ok blocks) :
    ReadsApart path around node depth blocks := by
  induction there generalizing depth blocks with
  | item start ahead behind =>
      cases depth with
      | zero => cases accepted
      | succ depth =>
          rw [readList] at accepted
          obtain ⟨block, here, listed, again⟩ := mapM_around accepted
          cases depth with
          | zero => cases node <;> cases here
          | succ below =>
              refine ⟨below, block, rfl, here, listed, fun node' change here' => ?_⟩
              rw [readList, again _ _ here', modifyAt, modify_of_getElem? listed]
  | object start ahead behind place front back named inner ih =>
      exact HoldsChildren.readsApart (holdsChildren_object place front back named) inner ih accepted
  | array start ahead behind place id type props content inner ih =>
      exact HoldsChildren.readsApart (holdsChildren_array place id type props content) inner ih
        accepted

/-- A field that is there has been read from a member of its name. -/
theorem IsField.exists_member {α : Type} {readChildren : Node → Except Fault (List Block)}
    {depth : Nat} {name : String} {get : Draft → Option α} {put : Option α → Draft → Draft}
    {read : Node → Except Fault α} (isField : IsField readChildren depth name get put read)
    {members : List (Key × Node)} {draft last : Draft}
    (accepted : members.foldlM (readMember readChildren depth) draft = .ok last)
    (absent : get draft = none) (there : get last ≠ none) :
    ∃ front key node back, members = front ++ (key, node) :: back ∧
      key.name.value = .ok name := by
  by_cases named : ∃ member ∈ members, member.1.name.value = .ok name
  · obtain ⟨⟨key, node⟩, listed, named⟩ := named
    obtain ⟨front, back, rfl⟩ := List.append_of_mem listed
    exact ⟨front, key, node, back, rfl, named⟩
  · have unnamed : ∀ member ∈ members, member.1.name.value ≠ .ok name :=
      fun member listed here => named ⟨member, listed, here⟩
    have same := isField.foldlM_put unnamed (get draft) draft
    rw [isField.put_get, accepted, absent] at same
    refine absurd ?_ there
    rw [Except.ok.inj same, isField.get_put]

/-- The children of a block stand in one place of its tree. -/
theorem exists_wrap {depth : Nat} {node : Node} {parent : Block}
    (accepted : read depth node = .ok parent) (some : parent.children ≠ []) :
    (∃ start front key list back, node = .object start (front ++ (key, list) :: back) ∧
      key.name.value = .ok "children") ∨
    ∃ start id type props content list, node = .array start [id, type, props, content, list] := by
  cases depth with
  | zero => cases node <;> cases accepted
  | succ depth =>
      cases node with
      | leaf => cases accepted
      | object start members =>
          obtain ⟨_, draft, ⟨⟩, rfl, read⟩ := exists_draft_of_object accepted
          have there : draft.children ≠ none := fun none => some (by rw [Draft.block, none]; rfl)
          obtain ⟨front, key, list, back, rfl, named⟩ :=
            (children_isField (readList depth) depth).exists_member read rfl there
          exact .inl ⟨start, front, key, list, back, rfl, named⟩
      | array start items =>
          obtain ⟨draft, found, rfl⟩ := map_eq_ok.mp accepted
          obtain ⟨_, -, found⟩ := bind_eq_ok.mp found
          obtain ⟨_, -, found⟩ := bind_eq_ok.mp found
          obtain ⟨_, -, found⟩ := bind_eq_ok.mp found
          obtain ⟨_, -, found⟩ := bind_eq_ok.mp found
          obtain ⟨children, lists, found⟩ := bind_eq_ok.mp found
          match items with
          | [id, type, props, content, list] =>
              exact .inr ⟨start, id, type, props, content, list, rfl⟩
          | [] | [_] | [_, _] | [_, _, _] | [_, _, _, _] =>
              cases lists
              cases found
              exact absurd rfl some
          | _ :: _ :: _ :: _ :: _ :: _ :: _ => cases found

theorem exists_append_of_mapM {ε α β : Type} {make : α → Except ε β} {values : List α}
    {made : List β} (accepted : values.mapM make = .ok made) {index : Nat} {image : β}
    (there : made[index]? = some image) : ∃ ahead value behind,
      values = ahead ++ value :: behind ∧ ahead.length = index ∧ make value = .ok image := by
  have paired := forall₂_of_mapM accepted
  clear accepted
  induction paired generalizing index with
  | nil => cases there
  | @cons value _ values _ here _ ih =>
      cases index with
      | zero =>
          cases there
          exact ⟨[], value, values, rfl, rfl, here⟩
      | succ index =>
          obtain ⟨ahead, found, behind, rfl, rfl, made⟩ := ih there
          exact ⟨value :: ahead, found, behind, rfl, rfl, made⟩

theorem parseList_eq_ok {text : String} {blocks : List Block} :
    parseList text = .ok blocks ↔
      readList Json.maxDepth (Json.Tree.ofText text).root = .ok blocks ∧
        (Json.Tree.ofText text).ending = .ok () := by
  rw [parseList, mapError_eq_ok, readTree, bind_eq_ok]
  constructor
  · rintro ⟨found, read, rest⟩
    obtain ⟨⟨⟩, ending, rest⟩ := bind_eq_ok.mp rest
    cases rest
    exact ⟨read, ending⟩
  · rintro ⟨read, ending⟩
    exact ⟨blocks, read, by rw [ending]; rfl⟩

/-- A list is an array, and its blocks are read one level below it. -/
theorem exists_items_of_readList {depth : Nat} {node : Node} {blocks : List Block}
    (accepted : readList depth node = .ok blocks) :
    ∃ below start items, depth = below + 1 ∧ node = .array start items ∧
      items.mapM (read below) = .ok blocks := by
  cases node with
  | array start items =>
      cases depth with
      | zero => cases accepted
      | succ below => exact ⟨below, start, items, rfl, rfl, accepted⟩
  | leaf | object => cases depth <;> cases accepted

/-- Each block of a list is read from the tree at its path. -/
theorem exists_around {path : List Nat} {depth : Nat} {root : Node} {blocks : List Block}
    {block : Block} (accepted : readList depth root = .ok blocks)
    (there : atPath? Block.children blocks path = some block) :
    ∃ around node below, Around path around ∧ root = around node ∧
      read below node = .ok block := by
  induction path generalizing depth root blocks with
  | nil => cases there
  | cons index path ih =>
      obtain ⟨below, start, items, rfl, rfl, made⟩ := exists_items_of_readList accepted
      cases path with
      | nil =>
          obtain ⟨ahead, node, behind, rfl, rfl, here⟩ := exists_append_of_mapM made there
          exact ⟨_, node, below, .item start ahead behind, rfl, here⟩
      | cons next path =>
          obtain ⟨parent, here, deeper⟩ := Option.bind_eq_some_iff.mp there
          obtain ⟨ahead, node, behind, rfl, rfl, read⟩ := exists_append_of_mapM made here
          -- There is something below, so that the children have been written.
          have some : parent.children ≠ [] := by
            intro none
            rw [none] at deeper
            cases path <;> cases deeper
          rcases exists_wrap read some with ⟨place, front, key, list, back, rfl, named⟩ |
            ⟨place, id, type, props, content, list, rfl⟩
          · obtain ⟨_, -, lists, -⟩ := holdsChildren_object place front back named read
            obtain ⟨around, node, lower, inner, rfl, found⟩ := ih lists deeper
            exact ⟨_, node, lower, .object start ahead behind place front back named inner, rfl,
              found⟩
          · obtain ⟨_, -, lists, -⟩ := holdsChildren_array place id type props content read
            obtain ⟨around, node, lower, inner, rfl, found⟩ := ih lists deeper
            exact ⟨_, node, lower, .array start ahead behind place id type props content inner,
              rfl, found⟩

/-! ## The content of a block -/

def withContent (content : Option Content) (block : Block) : Block :=
  { block with content := content }

theorem replace_content {depth start : Nat} {front back : List (Key × Node)} {key : Key}
    {node : Node} (named : key.name.value = .ok "content") {block : Block}
    (accepted : read (depth + 1) (.object start (front ++ (key, node) :: back)) = .ok block)
    {node' : Node} {content' : Option Content} (valued : readContent depth node' = .ok content') :
    read (depth + 1) (.object start (front ++ (key, node') :: back)) =
      .ok (block.withContent content') := by
  obtain ⟨_, draft, ⟨⟩, rfl, members⟩ := exists_draft_of_object accepted
  obtain ⟨_, -, -, replaced⟩ := (content_isField (readList depth) depth).replace named members
  rw [read, replaced node' content' valued]
  rfl

theorem insert_content {depth start : Nat} {members : List (Key × Node)}
    (unnamed : ∀ member ∈ members, member.1.name.value ≠ .ok "content") {block : Block}
    (accepted : read (depth + 1) (.object start members) = .ok block) {key : Key}
    (named : key.name.value = .ok "content") {node : Node} {content : Option Content}
    (valued : readContent depth node = .ok content) :
    read (depth + 1) (.object start ((key, node) :: members)) =
      .ok (block.withContent content) := by
  obtain ⟨_, draft, ⟨⟩, rfl, members⟩ := exists_draft_of_object accepted
  rw [read, (content_isField (readList depth) depth).insert named rfl unnamed members valued]
  rfl

end BlockScribe.Block
