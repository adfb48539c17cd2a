import BlockScribe.Block.Read
import BlockScribe.Proofs.Json.Holes

/-!
# Alike trees are read alike

Places in a text are told with faults and nowhere else.  Trees that are the same
but for places are read as the same blocks, or neither is a block list; and what
is read has no gaps, not even in the parts that are skipped.
-/

namespace BlockScribe

open Json (Node Key Fault Reading)

/-! ## Values -/

namespace Json

theorem Reading.Alike.toOption_value {α : Type} {reading reading' : Reading α}
    (alike : reading.Alike reading') : reading.value.toOption = reading'.value.toOption := by
  cases alike <;> rfl

theorem Reading.Alike.toOption_skip {α : Type} {reading reading' : Reading α}
    (alike : reading.Alike reading') : reading.skip.toOption = reading'.skip.toOption := by
  cases alike <;> rfl

/-- What holds of a tree and any tree alike may be assumed of their parts. -/
theorem Node.Alike.induction {motive : (node node' : Node) → node.Alike node' → Prop}
    (leaf : ∀ start stop start' stop' (reading reading' : Reading Json)
      (same : reading.Alike reading'), motive (.leaf start stop reading)
        (.leaf start' stop' reading') (.leaf same))
    (array : ∀ start start' items items' (each : List.Forall₂ Node.Alike items items'),
      List.Forall₂ (fun item item' => ∃ alike, motive item item' alike) items items' →
      motive (.array start items) (.array start' items') (.array each))
    (object : ∀ start start' members members'
      (each : List.Forall₂ (Alongside Node.Alike) members members'),
      List.Forall₂ (Alongside fun node node' => ∃ alike, motive node node' alike) members members' →
      motive (.object start members) (.object start' members') (.object each))
    {node node' : Node} (alike : node.Alike node') : motive node node' alike := by
  induction node using Node.induction generalizing node' with
  | leaf start stop reading =>
      cases alike with
      | leaf same => exact leaf _ _ _ _ _ _ same
  | array start items ih =>
      cases alike with
      | array each =>
          have both := (List.forall₂_and_left _ _).mpr ⟨ih, each⟩
          exact array _ _ _ _ each (both.imp fun _ _ both => ⟨both.2, both.1 both.2⟩)
  | object start members ih =>
      cases alike with
      | object each =>
          have both := (List.forall₂_and_left _ _).mpr ⟨ih, each⟩
          refine object _ _ _ _ each (both.imp fun _ _ both => ?_)
          obtain ⟨below, ⟨named, here⟩⟩ := both
          exact .intro named ⟨here, below here⟩

theorem Node.Alike.toOption_value {node node' : Node} (alike : node.Alike node') (depth : Nat) :
    (node.value depth).toOption = (node'.value depth).toOption := by
  induction alike using Node.Alike.induction generalizing depth with
  | leaf _ _ _ _ reading reading' same =>
      rw [Node.value, Node.value]
      exact same.toOption_value
  | array start start' items items' _ each =>
      cases depth with
      | zero => rfl
      | succ depth =>
          rw [Node.value, Node.value, toOption_map, toOption_map]
          refine congrArg _ (toOption_mapM_congr (each.imp fun _ _ inner => ?_))
          obtain ⟨_, same⟩ := inner
          exact same depth
  | object start start' members members' _ each =>
      cases depth with
      | zero => rfl
      | succ depth =>
          rw [Node.value, Node.value, toOption_map, toOption_map]
          refine congrArg _ (toOption_mapM_congr (each.imp fun _ _ inner => ?_))
          obtain ⟨named, ⟨_, same⟩⟩ := inner
          exact toOption_bind_congr named.toOption_value fun name =>
            toOption_bind_congr (same depth) fun _ => rfl

theorem Node.Alike.skip_eq_ok_iff {node node' : Node} (alike : node.Alike node') :
    node.skip = .ok () ↔ node'.skip = .ok () := by
  have reading {α : Type} {reading reading' : Reading α} (same : reading.Alike reading') :
      reading.skip = .ok () ↔ reading'.skip = .ok () := by
    rw [← toOption_eq_some, ← toOption_eq_some, same.toOption_skip]
  induction alike using Node.Alike.induction with
  | leaf _ _ _ _ _ _ same =>
      rw [Node.skip, Node.skip]
      exact reading same
  | array start start' items items' _ each =>
      rw [Node.skip_array_eq_ok, Node.skip_array_eq_ok]
      refine forall_mem_congr (each.imp fun _ _ inner => ?_)
      obtain ⟨_, same⟩ := inner
      exact same
  | object start start' members members' _ each =>
      rw [Node.skip_object_eq_ok, Node.skip_object_eq_ok]
      refine forall_mem_congr (each.imp fun _ _ inner => ?_)
      obtain ⟨named, ⟨_, same⟩⟩ := inner
      exact and_congr (reading named) same

theorem Node.Alike.toOption_skip {node node' : Node} (alike : node.Alike node') :
    node.skip.toOption = node'.skip.toOption := by
  refine Option.ext fun ⟨⟩ => ?_
  rw [toOption_eq_some, toOption_eq_some, alike.skip_eq_ok_iff]

end Json

namespace Block

variable {node node' : Node}

theorem toOption_readString_congr (alike : node.Alike node') :
    (readString node).toOption = (readString node').toOption := by
  cases alike with
  | leaf same =>
      cases same with
      | sound value => cases value <;> rfl
      | skippable | broken => rfl
  | array | object => rfl

theorem toOption_readId_congr (alike : node.Alike node') :
    (readId node).toOption = (readId node').toOption := by
  cases alike with
  | leaf same =>
      cases same with
      | sound value => cases value <;> rfl
      | skippable | broken => rfl
  | array | object => rfl

theorem toOption_readProps_congr (alike : node.Alike node') (depth : Nat) :
    (readProps depth node).toOption = (readProps depth node').toOption := by
  have same := alike.toOption_value depth
  cases alike with
  | leaf | array => rfl
  | object each =>
      rw [readProps, readProps]
      exact toOption_bind_congr same fun value => by cases value <;> rfl

theorem toOption_readContent_congr (alike : node.Alike node') (depth : Nat) :
    (readContent depth node).toOption = (readContent depth node').toOption := by
  rw [readContent, readContent]
  exact toOption_bind_congr (alike.toOption_value depth) fun _ => rfl

theorem toOption_once_congr {α β : Type} (name : String) (key key' : Key) (field : Option α)
    {read read' : Except Fault α} {take : α → Except Fault β}
    (same : read.toOption = read'.toOption) :
    (once name key field >>= fun _ => read >>= take).toOption =
      (once name key' field >>= fun _ => read' >>= take).toOption := by
  unfold once
  split
  · rfl
  · exact toOption_bind_congr rfl fun _ => toOption_bind_congr same fun _ => rfl

theorem toOption_readMember_congr {readChildren : Node → Except Fault (List Block)}
    {member member' : Key × Node} (alike : Json.Alongside (fun node node' => node.Alike node' ∧
      (readChildren node).toOption = (readChildren node').toOption) member member')
    (depth : Nat) (draft : Draft) : (readMember readChildren depth draft member).toOption =
      (readMember readChildren depth draft member').toOption := by
  obtain ⟨named, alike, children⟩ := alike
  rw [readMember, readMember]
  refine toOption_bind_congr named.toOption_value fun name => ?_
  split
  · exact toOption_once_congr _ _ _ _ (toOption_readId_congr alike)
  · exact toOption_once_congr _ _ _ _ (toOption_readString_congr alike)
  · exact toOption_once_congr _ _ _ _ (toOption_readProps_congr alike depth)
  · exact toOption_once_congr _ _ _ _ (toOption_readContent_congr alike depth)
  · exact toOption_once_congr _ _ _ _ children
  · exact toOption_bind_congr alike.toOption_skip fun _ => rfl

theorem toOption_field_congr {α : Type} {read : Node → Except Fault α} {items items' : List Node}
    (paired : List.Forall₂ (fun item item' => (read item).toOption = (read item').toOption)
      items items') (place : Nat) :
    (items[place]?.mapM read).toOption = (items'[place]?.mapM read).toOption := by
  induction paired generalizing place with
  | nil => rfl
  | cons here _ ih =>
      cases place with
      | zero =>
          simp only [List.getElem?_cons_zero, Option.mapM_some]
          exact toOption_bind_congr here fun _ => rfl
      | succ place => exact ih place

theorem toOption_readFields_congr {readChildren : Node → Except Fault (List Block)}
    {items items' : List Node} (paired : List.Forall₂ (fun item item' => item.Alike item' ∧
      (readChildren item).toOption = (readChildren item').toOption) items items') (depth : Nat) :
    (readFields readChildren depth items).toOption =
      (readFields readChildren depth items').toOption := by
  have field {α : Type} {read : Node → Except Fault α} (same : ∀ node node', node.Alike node' →
      (read node).toOption = (read node').toOption) (place : Nat) :
      (items[place]?.mapM read).toOption = (items'[place]?.mapM read).toOption :=
    toOption_field_congr (paired.imp fun item item' both => same item item' both.1) place
  rw [readFields, readFields]
  refine toOption_bind_congr (field (fun _ _ => toOption_readId_congr) 0) fun id => ?_
  refine toOption_bind_congr (field (fun _ _ => toOption_readString_congr) 1) fun type => ?_
  refine toOption_bind_congr (field (fun _ _ alike => toOption_readProps_congr alike depth) 2)
    fun props => ?_
  refine toOption_bind_congr (field (fun _ _ alike => toOption_readContent_congr alike depth) 3)
    fun content => ?_
  refine toOption_bind_congr (toOption_field_congr (paired.imp fun _ _ both => both.2) 4)
    fun children => ?_
  have same : items[5]? = none ↔ items'[5]? = none := by
    rw [List.getElem?_eq_none_iff, List.getElem?_eq_none_iff, paired.length_eq]
  cases here : items[5]? with
  | none => rw [same.mp here]
  | some node =>
      cases there : items'[5]? with
      | none =>
          rw [same.mpr there] at here
          cases here
      | some node' => rfl

/-- Trees that are the same but for places are read as the same. -/
theorem toOption_read_congr (depth : Nat) : (∀ node node', node.Alike node' →
      (read depth node).toOption = (read depth node').toOption) ∧
    ∀ node node', node.Alike node' →
      (readList depth node).toOption = (readList depth node').toOption := by
  induction depth with
  | zero =>
      constructor <;> intro node node' alike
      · cases alike <;> rfl
      · cases alike <;> rfl
  | succ depth ih =>
      constructor <;> intro node node' alike
      · cases alike with
        | leaf => rfl
        | array each =>
            rw [read, read, toOption_map, toOption_map]
            refine congrArg _ (toOption_readFields_congr (each.imp fun _ _ alike => ?_) depth)
            exact ⟨alike, ih.2 _ _ alike⟩
        | object each =>
            rw [read, read, toOption_map, toOption_map]
            refine congrArg _ (toOption_foldlM_congr (each.imp fun _ _ inner draft => ?_) _)
            refine toOption_readMember_congr ?_ depth draft
            obtain ⟨named, alike⟩ := inner
            exact .intro named ⟨alike, ih.2 _ _ alike⟩
      · cases alike with
        | leaf | object => rfl
        | array each =>
            rw [readList, readList]
            exact toOption_mapM_congr (each.imp fun _ _ alike => ih.1 _ _ alike)

/-! ## What is read has no gaps -/

theorem skip_of_readString {text : String} (accepted : readString node = .ok text) :
    node.skip = .ok () := by
  unfold readString at accepted
  split at accepted
  · rw [Node.skip]
    rfl
  · cases accepted

theorem skip_of_readId {id : Option String} (accepted : readId node = .ok id) :
    node.skip = .ok () := by
  unfold readId at accepted
  split at accepted
  · rw [Node.skip]
    rfl
  · obtain ⟨text, accepted, -⟩ := map_eq_ok.mp accepted
    exact skip_of_readString accepted

theorem skip_of_readProps {depth : Nat} {props : SortedMap Json}
    (accepted : readProps depth node = .ok props) : node.skip = .ok () := by
  unfold readProps at accepted
  split at accepted
  · obtain ⟨value, valued, -⟩ := bind_eq_ok.mp accepted
    exact Node.skip_of_value valued
  · cases accepted

theorem skip_of_readContent {depth : Nat} {content : Option Content}
    (accepted : readContent depth node = .ok content) : node.skip = .ok () := by
  obtain ⟨value, valued, -⟩ := bind_eq_ok.mp accepted
  exact Node.skip_of_value valued

section

variable {readChildren : Node → Except Fault (List Block)}
    (lists : ∀ node blocks, readChildren node = .ok blocks → node.skip = .ok ())

include lists

theorem skip_of_readMember {depth : Nat} {draft draft' : Draft} {member : Key × Node}
    (accepted : readMember readChildren depth draft member = .ok draft') :
    member.1.name.skip = .ok () ∧ member.2.skip = .ok () := by
  obtain ⟨key, node⟩ := member
  obtain ⟨name, named, accepted⟩ := bind_eq_ok.mp accepted
  refine ⟨Reading.skip_of_value named, ?_⟩
  split at accepted
  · obtain ⟨_, -, accepted⟩ := bind_eq_ok.mp accepted
    obtain ⟨id, accepted, -⟩ := bind_eq_ok.mp accepted
    exact skip_of_readId accepted
  · obtain ⟨_, -, accepted⟩ := bind_eq_ok.mp accepted
    obtain ⟨type, accepted, -⟩ := bind_eq_ok.mp accepted
    exact skip_of_readString accepted
  · obtain ⟨_, -, accepted⟩ := bind_eq_ok.mp accepted
    obtain ⟨props, accepted, -⟩ := bind_eq_ok.mp accepted
    exact skip_of_readProps accepted
  · obtain ⟨_, -, accepted⟩ := bind_eq_ok.mp accepted
    obtain ⟨content, accepted, -⟩ := bind_eq_ok.mp accepted
    exact skip_of_readContent accepted
  · obtain ⟨_, -, accepted⟩ := bind_eq_ok.mp accepted
    obtain ⟨blocks, accepted, -⟩ := bind_eq_ok.mp accepted
    exact lists _ _ accepted
  · obtain ⟨_, skipped, -⟩ := bind_eq_ok.mp accepted
    exact skipped

theorem skip_of_readFields {depth : Nat} {items : List Node} {draft : Draft}
    (accepted : readFields readChildren depth items = .ok draft) :
    ∀ item ∈ items, item.skip = .ok () := by
  obtain ⟨id, ids, accepted⟩ := bind_eq_ok.mp accepted
  obtain ⟨type, types, accepted⟩ := bind_eq_ok.mp accepted
  obtain ⟨props, propses, accepted⟩ := bind_eq_ok.mp accepted
  obtain ⟨content, contents, accepted⟩ := bind_eq_ok.mp accepted
  obtain ⟨children, listed, accepted⟩ := bind_eq_ok.mp accepted
  have field {α : Type} {read : Node → Except Fault α} {place : Nat} {found : Option α}
      {item : Node} (accepted : items[place]?.mapM read = .ok found)
      (here : items[place]? = some item) : ∃ value, read item = .ok value := by
    rw [here, Option.mapM_some] at accepted
    obtain ⟨value, accepted, -⟩ := map_eq_ok.mp accepted
    exact ⟨value, accepted⟩
  have short : items[5]? = none := by
    cases surplus : items[5]? with
    | none => rfl
    | some node =>
        rw [surplus] at accepted
        cases accepted
  intro item member
  obtain ⟨place, here⟩ := List.mem_iff_getElem?.mp member
  match place with
  | 0 => exact (field ids here).elim fun _ accepted => skip_of_readId accepted
  | 1 => exact (field types here).elim fun _ accepted => skip_of_readString accepted
  | 2 => exact (field propses here).elim fun _ accepted => skip_of_readProps accepted
  | 3 => exact (field contents here).elim fun _ accepted => skip_of_readContent accepted
  | 4 => exact (field listed here).elim fun _ accepted => lists _ _ accepted
  | place + 5 =>
      have long := (List.getElem?_eq_some_iff.mp here).1
      rw [List.getElem?_eq_none_iff] at short
      omega

end

/-- A block list, and any block of it, has been read to its end everywhere. -/
theorem skip_of_read (depth : Nat) :
    (∀ node block, read depth node = .ok block → node.skip = .ok ()) ∧
      ∀ node blocks, readList depth node = .ok blocks → node.skip = .ok () := by
  induction depth with
  | zero =>
      constructor <;> intro node _ accepted <;> cases node <;> cases accepted
  | succ depth ih =>
      constructor <;> intro node _ accepted
      · cases node with
        | leaf => cases accepted
        | array start items =>
            obtain ⟨draft, accepted, -⟩ := map_eq_ok.mp accepted
            exact Node.skip_array_eq_ok.mpr (skip_of_readFields ih.2 accepted)
        | object start members =>
            obtain ⟨draft, accepted, -⟩ := map_eq_ok.mp accepted
            refine Node.skip_object_eq_ok.mpr fun member listed => ?_
            obtain ⟨_, _, here⟩ := exists_of_mem_foldlM accepted listed
            exact skip_of_readMember ih.2 here
      · cases node with
        | leaf | object => cases accepted
        | array start items =>
            refine Node.skip_array_eq_ok.mpr fun item listed => ?_
            obtain ⟨block, here⟩ := exists_of_forall₂ (forall₂_of_mapM accepted) listed
            exact ih.1 item block here

end Block

end BlockScribe
