import BlockScribe.Proofs.Json.Leaves
import BlockScribe.Proofs.Json.Lexing

/-!
# Trees and their tokens

The builder is an automaton, and what it accepts is a grammar: the tokens of a
tree are those of its parts, with commas and colons between them and marks
around them.  Tokens of one part can therefore be put in the place of those of
another, and the tree changes in that place only.
-/

namespace BlockScribe.Json

/-! ## The grammar -/

/-- Parts one behind the other, commas in between. -/
inductive Sequence {α : Type} (one : List Token → α → Prop) : List Token → List α → Prop
  | nil : Sequence one [] []
  | last {tokens : List Token} {part : α} (here : one tokens part) : Sequence one tokens [part]
  | more {tokens rest : List Token} {part next : α} {parts : List α} (here : one tokens part)
      (comma : Nat) (later : Sequence one rest (next :: parts)) :
      Sequence one (tokens ++ .mark comma .comma :: rest) (part :: next :: parts)

inductive MemberOf (one : List Token → Node → Prop) : List Token → Key × Node → Prop
  | intro (start stop colon : Nat) {name : Reading String} (whole : name.isBroken = false)
      {tokens : List Token} {node : Node} (here : one tokens node) :
      MemberOf one (.string start stop name :: .mark colon .colon :: tokens) (⟨name, colon⟩, node)

/-- The tokens of a tree without gaps. -/
inductive Forms : List Token → Node → Prop
  | plain (start stop : Nat) {reading : Reading Json} (whole : reading.isBroken = false) :
      Forms [.plain start stop reading] (.leaf start stop reading)
  | string (start stop : Nat) {reading : Reading String} (whole : reading.isBroken = false) :
      Forms [.string start stop reading] (.leaf start stop (reading.map .string))
  | array (start stop : Nat) {tokens : List Token} {items : List Node}
      (each : Sequence Forms tokens items) :
      Forms (.mark start .openArray :: (tokens ++ [.mark stop .closeArray])) (.array start items)
  | object (start stop : Nat) {tokens : List Token} {members : List (Key × Node)}
      (each : Sequence (MemberOf Forms) tokens members) :
      Forms (.mark start .openObject :: (tokens ++ [.mark stop .closeObject]))
        (.object start members)

namespace Sequence

variable {α β : Type} {one : List Token → α → Prop} {tokens : List Token} {parts : List α}

theorem cons (sequence : Sequence one tokens parts) {first : List Token} {part : α}
    (here : one first part) (comma : Nat) (some : parts ≠ []) :
    Sequence one (first ++ .mark comma .comma :: tokens) (part :: parts) := by
  obtain ⟨next, parts, rfl⟩ := List.exists_cons_of_ne_nil some
  exact .more here comma sequence

theorem uncons {part : α} (sequence : Sequence one tokens (part :: parts)) (some : parts ≠ []) :
    ∃ first comma rest, tokens = first ++ .mark comma .comma :: rest ∧ one first part ∧
      Sequence one rest parts := by
  cases sequence with
  | last => exact absurd rfl some
  | more here comma later => exact ⟨_, comma, _, rfl, here, later⟩

theorem imp {two : List Token → α → Prop} (sequence : Sequence one tokens parts)
    (each : ∀ part ∈ parts, ∀ tokens, one tokens part → two tokens part) :
    Sequence two tokens parts := by
  induction sequence with
  | nil => exact .nil
  | last here => exact .last (each _ List.mem_cons_self _ here)
  | more here comma _ ih =>
      obtain ⟨first, rest⟩ := List.forall_mem_cons.mp each
      exact .more (first _ here) comma (ih rest)

theorem snoc (sequence : Sequence one tokens parts) (some : parts ≠ []) {last : List Token}
    {part : α} (here : one last part) (comma : Nat) :
    Sequence one (tokens ++ .mark comma .comma :: last) (parts ++ [part]) := by
  induction sequence with
  | nil => exact absurd rfl some
  | last first => exact .more first comma (.last here)
  | more first comma' _ ih =>
      rw [List.append_assoc, List.cons_append]
      exact .more first comma' (ih (List.cons_ne_nil _ _))

/-- What holds of commas and of the tokens of each part holds of all of them. -/
theorem forall_mem {holds : Token → Prop} (comma : ∀ index, holds (.mark index .comma))
    (sequence : Sequence (fun tokens _ => ∀ token ∈ tokens, holds token) tokens parts) :
    ∀ token ∈ tokens, holds token := by
  induction sequence with
  | nil => exact List.forall_mem_nil _
  | last here => exact here
  | more here index _ ih =>
      exact List.forall_mem_append.mpr ⟨here, List.forall_mem_cons.mpr ⟨comma index, ih⟩⟩

end Sequence

theorem MemberOf.imp {one two : List Token → Node → Prop} {tokens : List Token}
    {member : Key × Node} (forms : MemberOf one tokens member)
    (here : ∀ tokens, one tokens member.2 → two tokens member.2) : MemberOf two tokens member := by
  cases forms with
  | intro start stop colon whole inner => exact .intro start stop colon whole (here _ inner)

namespace Forms

variable {tokens : List Token} {node : Node}

theorem induction {motive : (tokens : List Token) → (node : Node) → Forms tokens node → Prop}
    (plain : ∀ start stop (reading : Reading Json) (whole : reading.isBroken = false),
      motive _ _ (.plain start stop whole))
    (string : ∀ start stop (reading : Reading String) (whole : reading.isBroken = false),
      motive _ _ (.string start stop whole))
    (array : ∀ start stop tokens items (each : Sequence Forms tokens items),
      Sequence (fun tokens node => ∃ forms, motive tokens node forms) tokens items →
      motive _ _ (.array start stop each))
    (object : ∀ start stop tokens members (each : Sequence (MemberOf Forms) tokens members),
      Sequence (MemberOf fun tokens node => ∃ forms, motive tokens node forms) tokens members →
      motive _ _ (.object start stop each))
    (forms : Forms tokens node) : motive tokens node forms := by
  induction node using Node.induction generalizing tokens with
  | leaf start stop reading =>
      cases forms with
      | plain _ _ whole => exact plain start stop reading whole
      | string _ _ whole => exact string start stop _ whole
  | array start items ih =>
      cases forms with
      | array _ stop each =>
          exact array start stop _ items each (each.imp fun item member tokens forms =>
            ⟨forms, ih item member forms⟩)
  | object start members ih =>
      cases forms with
      | object _ stop each =>
          exact object start stop _ members each (each.imp fun member listed tokens forms =>
            forms.imp fun tokens forms => ⟨forms, ih member listed forms⟩)

theorem exists_first (forms : Forms tokens node) : ∃ token rest, tokens = token :: rest ∧
    token.start = node.start ∧ ∀ index, token ≠ .mark index .closeArray := by
  cases forms <;> exact ⟨_, _, rfl, rfl, nofun⟩

/-- The tokens of a tree are read to their end. -/
theorem goesOn (forms : Forms tokens node) : ∀ token ∈ tokens, ¬token.IsLast := by
  have known (index : Nat) (kind : Mark) (known : kind ≠ .stray := by decide) :
      ¬(Token.mark index kind).IsLast := known
  have enclosed {opening closing : Token} {tokens : List Token} (first : ¬opening.IsLast)
      (last : ¬closing.IsLast) (inner : ∀ token ∈ tokens, ¬token.IsLast) :
      ∀ token ∈ opening :: (tokens ++ [closing]), ¬token.IsLast :=
    List.forall_mem_cons.mpr
      ⟨first, List.forall_mem_append.mpr ⟨inner, List.forall_mem_singleton.mpr last⟩⟩
  induction forms using Forms.induction with
  | plain start stop reading whole => simp [Token.IsLast, whole]
  | string start stop reading whole => simp [Token.IsLast, whole]
  | array start stop tokens items _ each =>
      refine enclosed (known start .openArray) (known stop .closeArray) (Sequence.forall_mem
        (known · .comma) (each.imp fun _ _ tokens inner => ?_))
      obtain ⟨-, inner⟩ := inner
      exact inner
  | object start stop tokens members _ each =>
      refine enclosed (known start .openObject) (known stop .closeObject) (Sequence.forall_mem
        (known · .comma) (each.imp fun _ _ tokens inner => ?_))
      cases inner with
      | intro first last colon whole inner =>
          obtain ⟨-, inner⟩ := inner
          have name : ¬(Token.string first last _).IsLast := fun broken => by
            cases whole.symm.trans broken
          exact List.forall_mem_cons.mpr
            ⟨name, List.forall_mem_cons.mpr ⟨known colon .colon, inner⟩⟩

end Forms

/-! ## The builder follows the grammar -/

namespace Builder

/-- Wherever a value may stand, these tokens put the node there. -/
def Feeds (tokens : List Token) (node : Node) : Prop :=
  ∀ frames, tokens.foldl step (.value frames) = feed node frames

theorem foldl_items {tokens : List Token} {items : List Node}
    (each : Sequence Feeds tokens items) (some : items ≠ []) (start : Nat) (done : List Node)
    (frames : List Frame) : tokens.foldl step (.value (.items start done :: frames)) =
      .afterItem start (items.reverse ++ done) frames := by
  induction each generalizing done with
  | nil => exact absurd rfl some
  | last here => exact here _
  | more here comma _ ih =>
      rw [List.foldl_append, here, List.foldl_cons]
      refine (ih (List.cons_ne_nil _ _) _).trans ?_
      simp

/-- The first item is met as any other, since it does not begin with a closing mark. -/
theorem foldl_firstItem {tokens : List Token} {items : List Node}
    (each : Sequence Forms tokens items) (some : items ≠ []) (start : Nat) (frames : List Frame) :
    tokens.foldl step (.firstItem start frames) =
      tokens.foldl step (.value (.items start [] :: frames)) := by
  have first {tokens : List Token} {node : Node} (forms : Forms tokens node) (rest : List Token) :
      (tokens ++ rest).foldl step (.firstItem start frames) =
        (tokens ++ rest).foldl step (.value (.items start [] :: frames)) := by
    obtain ⟨token, later, rfl, -, other⟩ := forms.exists_first
    rw [List.cons_append, List.foldl_cons, List.foldl_cons]
    congr 1
    unfold step
    split <;> simp_all
  cases each with
  | nil => exact absurd rfl some
  | last here => simpa using first here []
  | more here comma later => exact first here _

theorem foldl_member {tokens : List Token} {member : Key × Node}
    (forms : MemberOf Feeds tokens member) (start : Nat) (done : List (Key × Node))
    (frames : List Frame) :
    tokens.foldl step (.nextKey start done frames) = .afterMember start (member :: done) frames ∧
    tokens.foldl step (.firstKey start frames) = .afterMember start [member] frames := by
  cases forms with
  | @intro _ _ colon name whole tokens node here =>
      cases name with
      | broken => cases whole
      | sound | skippable => exact ⟨here _, here _⟩

theorem foldl_members {tokens : List Token} {members : List (Key × Node)}
    (each : Sequence (MemberOf Feeds) tokens members) (some : members ≠ []) (start : Nat)
    (done : List (Key × Node)) (frames : List Frame) :
    tokens.foldl step (.nextKey start done frames) =
        .afterMember start (members.reverse ++ done) frames ∧
      tokens.foldl step (.firstKey start frames) = .afterMember start members.reverse frames := by
  induction each generalizing done with
  | nil => exact absurd rfl some
  | last here => exact foldl_member here start done frames
  | more here comma _ ih =>
      rw [List.foldl_append, List.foldl_append, (foldl_member here start done frames).1,
        (foldl_member here start done frames).2, List.foldl_cons, List.foldl_cons]
      refine ⟨(ih (List.cons_ne_nil _ _) _).1.trans ?_, (ih (List.cons_ne_nil _ _) _).1.trans ?_⟩
      · simp
      · simp

theorem feeds_of_forms {tokens : List Token} {node : Node} (forms : Forms tokens node) :
    Feeds tokens node := by
  induction forms using Forms.induction with
  | plain start stop reading whole =>
      intro frames
      show onLeaf _ reading.isBroken frames = _
      rw [whole]
      rfl
  | string start stop reading whole =>
      intro frames
      show onLeaf _ reading.isBroken frames = _
      rw [whole]
      rfl
  | array start stop tokens items forms each =>
      intro frames
      have each : Sequence Feeds tokens items := each.imp fun _ _ _ inner => inner.2
      rw [List.foldl_cons, List.foldl_append]
      show step (tokens.foldl step (.firstItem start frames)) (.mark stop .closeArray) = _
      by_cases none : items = []
      · subst none
        cases each
        rfl
      · rw [foldl_firstItem forms none, foldl_items each none, List.append_nil]
        show feed (.array start items.reverse.reverse) frames = _
        rw [List.reverse_reverse]
  | object start stop tokens members _ each =>
      intro frames
      have each : Sequence (MemberOf Feeds) tokens members :=
        each.imp fun _ _ _ inner => inner.imp fun _ inner => inner.2
      rw [List.foldl_cons, List.foldl_append]
      show step (tokens.foldl step (.firstKey start frames)) (.mark stop .closeObject) = _
      by_cases none : members = []
      · subst none
        cases each
        rfl
      · rw [(foldl_members each none start [] frames).2]
        show feed (.object start members.reverse.reverse) frames = _
        rw [List.reverse_reverse]

end Builder

/-! ## The builder accepts no more than the grammar -/

/-- Tokens that another part may follow, whatever part it is. -/
def Begun {α : Type} (one : List Token → α → Prop) (tokens : List Token) (parts : List α) : Prop :=
  ∀ last part, one last part → Sequence one (tokens ++ last) (parts ++ [part])

theorem Begun.nil {α : Type} (one : List Token → α → Prop) : Begun one [] [] :=
  fun _ _ here => .last here

theorem Sequence.begun {α : Type} {one : List Token → α → Prop} {tokens : List Token}
    {parts : List α} (sequence : Sequence one tokens parts) (some : parts ≠ []) (comma : Nat) :
    Begun one (tokens ++ [.mark comma .comma]) parts := by
  intro last part here
  rw [List.append_assoc, List.singleton_append]
  exact sequence.snoc some here comma

/-- The tokens of what is open, up to where the next value is to be put. -/
inductive Opened : List Token → List Frame → Prop
  | root : Opened [] []
  | items {outer inner : List Token} {frames : List Frame} {done : List Node} (start : Nat)
      (opened : Opened outer frames) (begun : Begun Forms inner done.reverse) :
      Opened (outer ++ .mark start .openArray :: inner) (.items start done :: frames)
  | member {outer inner : List Token} {frames : List Frame} {done : List (Key × Node)}
      {name : Reading String} (start first last colon : Nat) (opened : Opened outer frames)
      (begun : Begun (MemberOf Forms) inner done.reverse) (whole : name.isBroken = false) :
      Opened (outer ++ .mark start .openObject ::
          (inner ++ [.string first last name, .mark colon .colon]))
        (.member start done ⟨name, colon⟩ :: frames)

/-- Something is missing in the tree, or there is too much behind it. -/
def Tree.IsFaulty (tree : Tree) : Prop :=
  tree.root.skip ≠ .ok () ∨ tree.ending ≠ .ok ()

namespace Builder

/-- What has been taken in is what the grammar says, or the tree is faulty. -/
def Obeys (tokens : List Token) : Builder → Prop
  | .value frames => Opened tokens frames
  | .firstItem start frames => ∃ outer, tokens = outer ++ [.mark start .openArray] ∧
      Opened outer frames
  | .firstKey start frames => ∃ outer, tokens = outer ++ [.mark start .openObject] ∧
      Opened outer frames
  | .nextKey start done frames => ∃ outer inner,
      tokens = outer ++ .mark start .openObject :: inner ∧ Opened outer frames ∧
        Begun (MemberOf Forms) inner done.reverse
  | .colon start done name frames => ∃ outer inner first last,
      tokens = outer ++ .mark start .openObject :: (inner ++ [.string first last name]) ∧
        Opened outer frames ∧ Begun (MemberOf Forms) inner done.reverse ∧ name.isBroken = false
  | .afterItem start done frames => ∃ outer inner,
      tokens = outer ++ .mark start .openArray :: inner ∧ Opened outer frames ∧
        Sequence Forms inner done.reverse ∧ done ≠ []
  | .afterMember start done frames => ∃ outer inner,
      tokens = outer ++ .mark start .openObject :: inner ∧ Opened outer frames ∧
        Sequence (MemberOf Forms) inner done.reverse ∧ done ≠ []
  | .complete root => Forms tokens root
  | .stopped tree => tree.IsFaulty

variable {tokens : List Token} {frames : List Frame}

theorem obeys_feed {outer inner : List Token} {node : Node} (opened : Opened outer frames)
    (forms : Forms inner node) : Obeys (outer ++ inner) (feed node frames) := by
  cases opened with
  | root => exact forms
  | @items outer before frames done start opened begun =>
      refine ⟨outer, before ++ inner, by simp, opened, ?_, List.cons_ne_nil _ _⟩
      rw [List.reverse_cons]
      exact begun _ _ forms
  | @member outer before frames done name start first last colon opened begun whole =>
      refine ⟨outer, before ++ .string first last name :: .mark colon .colon :: inner, by simp,
        opened, ?_, List.cons_ne_nil _ _⟩
      rw [List.reverse_cons]
      exact begun _ _ (.intro first last colon whole forms)

theorem skip_fill_ne_ok {node : Node} (broken : node.skip ≠ .ok ()) (frame : Frame) :
    (frame.fill node).skip ≠ .ok () := by
  cases frame with
  | items start done =>
      exact fun skipped => broken
        (Node.skip_array_eq_ok.mp skipped node (List.mem_reverse.mpr List.mem_cons_self))
  | member start done key =>
      exact fun skipped => broken
        (Node.skip_object_eq_ok.mp skipped (key, node)
          (List.mem_reverse.mpr List.mem_cons_self)).2

theorem skip_close_ne_ok {node : Node} (broken : node.skip ≠ .ok ()) (frames : List Frame) :
    (close node frames).skip ≠ .ok () := by
  induction frames generalizing node with
  | nil => exact broken
  | cons frame frames ih => exact ih (skip_fill_ne_ok broken frame)

theorem skip_missing_ne_ok (index : Nat) (place : Break) :
    (Node.missing index place).skip ≠ .ok () := by
  rintro ⟨⟩

theorem obeys_stop {node : Node} (broken : node.skip ≠ .ok ()) :
    Obeys tokens (stop node frames) :=
  .inl (skip_close_ne_ok broken frames)

theorem obeys_stopAtKey (index : Nat) (place : Break) (start : Nat) (done : List (Key × Node)) :
    Obeys tokens (stopAtKey index place start done frames) :=
  .inl (skip_close_ne_ok (skip_missing_ne_ok index place) _)

theorem obeys_onValue (opened : Opened tokens frames) (token : Token) :
    Obeys (tokens ++ [token]) (onValue token frames) := by
  have onLeaf {node : Node} {isBroken : Bool} (whole : isBroken = false → Forms [token] node)
      (broken : isBroken = true → node.skip ≠ .ok ()) :
      Obeys (tokens ++ [token]) (onLeaf node isBroken frames) := by
    cases isBroken with
    | true => exact obeys_stop (broken rfl)
    | false => exact obeys_feed opened (whole rfl)
  unfold onValue
  split
  · next start stop reading =>
      refine onLeaf (.plain start stop) fun broken => ?_
      cases reading <;> cases broken
      rintro ⟨⟩
  · next start stop reading =>
      refine onLeaf (.string start stop) fun broken => ?_
      cases reading <;> cases broken
      rintro ⟨⟩
  · exact ⟨tokens, rfl, opened⟩
  · exact ⟨tokens, rfl, opened⟩
  · exact obeys_stop (skip_missing_ne_ok _ _)
  · exact obeys_stop (skip_missing_ne_ok _ _)

theorem obeys_onKey {outer inner : List Token} {start : Nat} {done : List (Key × Node)}
    (opened : Opened outer frames) (begun : Begun (MemberOf Forms) inner done.reverse)
    (token : Token) : Obeys (outer ++ .mark start .openObject :: (inner ++ [token]))
      (onKey token start done frames) := by
  unfold onKey
  split
  · exact obeys_stopAtKey _ _ _ _
  · next first last name whole =>
      refine ⟨outer, inner, first, last, rfl, opened, begun, ?_⟩
      cases name with
      | broken place => exact absurd rfl (whole place)
      | sound | skippable => rfl
  · exact obeys_stopAtKey _ _ _ _

theorem obeys_onColon {outer inner : List Token} {start first last : Nat}
    {done : List (Key × Node)} {name : Reading String} (opened : Opened outer frames)
    (begun : Begun (MemberOf Forms) inner done.reverse) (whole : name.isBroken = false)
    (token : Token) : Obeys
      (outer ++ .mark start .openObject :: (inner ++ [.string first last name]) ++ [token])
      (onColon token start done name frames) := by
  unfold onColon
  split
  · next index =>
      have whole := Opened.member start first last index opened begun whole
      simpa [Obeys] using whole
  · exact obeys_stop (skip_missing_ne_ok _ _)

theorem obeys_step {builder : Builder} (obeys : Obeys tokens builder) (token : Token) :
    Obeys (tokens ++ [token]) (builder.step token) := by
  unfold step
  -- The cases are those of `step`: each state with the tokens it tells apart.
  split
  · exact obeys_onValue obeys token
  · next start frames stop =>
      obtain ⟨outer, rfl, opened⟩ := obeys
      rw [List.append_assoc]
      exact obeys_feed opened (.array start stop .nil)
  · next start frames _ =>
      obtain ⟨outer, rfl, opened⟩ := obeys
      exact obeys_onValue (.items start opened (.nil _)) token
  · next start frames stop =>
      obtain ⟨outer, rfl, opened⟩ := obeys
      rw [List.append_assoc]
      exact obeys_feed opened (.object start stop .nil)
  · next start frames _ =>
      obtain ⟨outer, rfl, opened⟩ := obeys
      rw [List.append_assoc]
      exact obeys_onKey opened (.nil _) token
  · exact obeys_stopAtKey _ _ _ _
  · obtain ⟨outer, inner, rfl, opened, begun⟩ := obeys
    rw [List.append_assoc]
    exact obeys_onKey opened begun token
  · obtain ⟨outer, inner, first, last, rfl, opened, begun, whole⟩ := obeys
    exact obeys_onColon opened begun whole token
  -- Behind an item.
  · next start done frames comma =>
      obtain ⟨outer, inner, rfl, opened, each, some⟩ := obeys
      rw [List.append_assoc]
      exact .items start opened (each.begun (by simpa using some) comma)
  · next start done frames stop =>
      obtain ⟨outer, inner, rfl, opened, each, -⟩ := obeys
      rw [List.append_assoc]
      exact obeys_feed opened (.array start stop each)
  · exact obeys_stop (skip_missing_ne_ok _ _)
  -- Behind a member.
  · next start done frames comma =>
      obtain ⟨outer, inner, rfl, opened, each, some⟩ := obeys
      rw [List.append_assoc]
      exact ⟨outer, _, rfl, opened, each.begun (by simpa using some) comma⟩
  · next start done frames stop =>
      obtain ⟨outer, inner, rfl, opened, each, -⟩ := obeys
      rw [List.append_assoc]
      exact obeys_feed opened (.object start stop each)
  · exact obeys_stopAtKey _ _ _ _
  -- Nothing is taken in any more.
  · exact .inr nofun
  · exact obeys

theorem obeys_foldl {builder : Builder} (obeys : Obeys tokens builder)
    (later : List Token) : Obeys (tokens ++ later) (later.foldl step builder) := by
  induction later generalizing tokens builder with
  | nil => rwa [List.append_nil]
  | cons token later ih =>
      have whole := ih (obeys_step obeys token)
      rwa [List.append_assoc, List.singleton_append] at whole

theorem finish_faulty (index : Nat) {builder : Builder} (obeys : Obeys tokens builder)
    (unfinished : ∀ root, builder ≠ .complete root) : (builder.finish index).IsFaulty := by
  have closed (node : Node) (broken : node.skip ≠ .ok ()) (frames : List Frame) :
      Tree.IsFaulty ⟨close node frames, .ok ()⟩ := .inl (skip_close_ne_ok broken frames)
  cases builder with
  | complete root => exact absurd rfl (unfinished root)
  | stopped tree => exact obeys
  | value | firstItem | firstKey | nextKey | colon | afterItem | afterMember =>
      exact closed _ (skip_missing_ne_ok _ _) _

end Builder

namespace Tree

theorem ofTokens_of_forms {tokens : List Token} {root : Node} (forms : Forms tokens root)
    (length : Nat) : ofTokens tokens length = ⟨root, .ok ()⟩ := by
  rw [ofTokens, Builder.feeds_of_forms forms]
  rfl

/-- A tree without gaps, with nothing behind it, has the tokens that the grammar gives it. -/
theorem forms_of_ofTokens {tokens : List Token} {root : Node} {length : Nat}
    (tree : ofTokens tokens length = ⟨root, .ok ()⟩) (whole : root.skip = .ok ()) :
    Forms tokens root := by
  have start : Builder.Obeys [] (.value []) := Opened.root
  have obeys := Builder.obeys_foldl start tokens
  rw [List.nil_append] at obeys
  rw [ofTokens] at tree
  by_cases complete : ∃ root, tokens.foldl Builder.step (.value []) = .complete root
  · obtain ⟨other, complete⟩ := complete
    rw [complete] at tree obeys
    cases tree
    exact obeys
  · have faulty := Builder.finish_faulty length obeys fun other same => complete ⟨other, same⟩
    rw [tree] at faulty
    rcases faulty with broken | ended
    · exact absurd whole broken
    · exact absurd rfl ended

end Tree

end BlockScribe.Json
