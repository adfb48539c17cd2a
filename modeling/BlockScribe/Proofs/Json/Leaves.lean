import BlockScribe.Json.Read
import BlockScribe.Proofs.Result

/-!
# Leaves hold scalars

Arrays and objects are built up from their marks, so a leaf never holds one.
What is read from a tree therefore depends on the shape of its value alone.
Where all of a tree has a value there is no gap in it, so it can be skipped.
-/

namespace BlockScribe.Json

theorem Node.induction {motive : Node → Prop}
    (leaf : ∀ start stop reading, motive (.leaf start stop reading))
    (array : ∀ start items, (∀ item ∈ items, motive item) → motive (.array start items))
    (object : ∀ start members, (∀ member : Key × Node, member ∈ members → motive member.2) →
      motive (.object start members)) : (node : Node) → motive node
  | .leaf start stop reading => leaf start stop reading
  | .array start items => array start items fun item _ => induction leaf array object item
  | .object start members =>
      object start members fun (_, node) _ => induction leaf array object node
decreasing_by
  · have := List.sizeOf_lt_of_mem ‹_ ∈ items›
    rw [Node.array.sizeOf_spec]
    omega
  · have := List.sizeOf_lt_of_mem ‹(_, node) ∈ members›
    rw [Prod.mk.sizeOf_spec] at this
    rw [Node.object.sizeOf_spec]
    omega

def Reading.IsScalar (reading : Reading Json) : Prop :=
  ∀ value, reading = .sound value → value.isScalar

inductive Node.Grounded : Node → Prop
  | leaf {start stop : Nat} {reading : Reading Json} (scalar : reading.IsScalar) :
      Grounded (.leaf start stop reading)
  | array {start : Nat} {items : List Node} (each : ∀ item ∈ items, Grounded item) :
      Grounded (.array start items)
  | object {start : Nat} {members : List (Key × Node)}
      (each : ∀ member ∈ members, Grounded member.2) : Grounded (.object start members)

/-! ## Tokens -/

def Token.Grounded : Token → Prop
  | .plain _ _ reading => reading.IsScalar
  | .mark .. | .string .. => True

theorem isScalar_of_word? {c : Char} {letters : List Char} {value : Json}
    (isWord : word? c = some (letters, value)) : value.isScalar := by
  unfold word? at isWord
  split at isWord <;> cases isWord <;> rfl

theorem Numeral.reading_isScalar (numeral : Numeral) (stop : Nat) :
    (numeral.reading stop).IsScalar := by
  intro value sound
  rw [reading] at sound
  split at sound <;> cases sound
  rfl

theorem nextToken_grounded (c : Char) (text : List Char) (index : Nat) :
    (nextToken c text index).1.Grounded := by
  unfold nextToken
  split
  · split <;> trivial
  · split
    · split
      · exact Numeral.reading_isScalar _ _
      · exact fun _ sound => nomatch sound
    · split
      · next isWord =>
          split
          · rintro _ ⟨⟩
            exact isScalar_of_word? isWord
          · exact fun _ sound => nomatch sound
      · split <;> trivial

theorem tokensFrom_grounded (text : List Char) (index : Nat) :
    ∀ token ∈ tokensFrom text index, token.Grounded := by
  fun_induction tokensFrom text index with
  | case1 => simp
  | case2 _ _ _ _ ih => exact ih
  | case3 index c text _ token next =>
      have here := nextToken_grounded c text index
      rw [next] at here
      simpa using here
  | case4 index c text _ token rest stop next ih =>
      have here := nextToken_grounded c text index
      rw [next] at here
      exact List.forall_mem_cons.mpr ⟨here, ih⟩

/-! ## Trees -/

def Frame.nodes : Frame → List Node
  | .items _ done => done
  | .member _ done _ => done.map (·.2)

def Frame.Grounded (frame : Frame) : Prop :=
  ∀ node ∈ frame.nodes, node.Grounded

theorem grounded_missing (index : Nat) (place : Break) : (Node.missing index place).Grounded :=
  .leaf fun _ sound => nomatch sound

theorem grounded_object {members : List (Key × Node)}
    (each : ∀ node ∈ members.map (·.2), node.Grounded) (start : Nat) :
    (Node.object start members.reverse).Grounded :=
  .object fun member there =>
    each member.2 (List.mem_map_of_mem (List.mem_reverse.mp there))

theorem grounded_array {items : List Node} (each : ∀ node ∈ items, node.Grounded) (start : Nat) :
    (Node.array start items.reverse).Grounded :=
  .array fun item there => each item (List.mem_reverse.mp there)

theorem grounded_close {node : Node} (inner : node.Grounded) {frames : List Frame}
    (outer : ∀ frame ∈ frames, frame.Grounded) : (close node frames).Grounded := by
  induction frames generalizing node with
  | nil => exact inner
  | cons frame frames ih =>
      have ⟨first, later⟩ := List.forall_mem_cons.mp outer
      refine ih ?_ later
      have whole : ∀ other ∈ node :: frame.nodes, other.Grounded :=
        List.forall_mem_cons.mpr ⟨inner, first⟩
      cases frame with
      | items start done => exact grounded_array whole start
      | member start done key =>
          show (Node.object start ((key, node) :: done).reverse).Grounded
          refine grounded_object ?_ start
          exact whole

namespace Builder

/-- What is open or done, as frames around what comes next. -/
def Grounded : Builder → Prop
  | .value frames | .firstItem _ frames | .firstKey _ frames => ∀ frame ∈ frames, frame.Grounded
  | .nextKey _ done frames | .afterMember _ done frames | .colon _ done _ frames =>
      (∀ node ∈ done.map (·.2), node.Grounded) ∧ ∀ frame ∈ frames, frame.Grounded
  | .afterItem _ done frames =>
      (∀ node ∈ done, node.Grounded) ∧ ∀ frame ∈ frames, frame.Grounded
  | .complete root => root.Grounded
  | .stopped tree => tree.root.Grounded

variable {frames : List Frame}

theorem grounded_feed {node : Node} (inner : node.Grounded)
    (outer : ∀ frame ∈ frames, frame.Grounded) : (feed node frames).Grounded := by
  rcases frames with _ | ⟨frame, frames⟩
  · exact inner
  · have ⟨first, later⟩ := List.forall_mem_cons.mp outer
    cases frame with
    | items | member => exact ⟨List.forall_mem_cons.mpr ⟨inner, first⟩, later⟩

theorem grounded_stopAtKey (index : Nat) (place : Break) (start : Nat)
    {done : List (Key × Node)} (before : ∀ node ∈ done.map (·.2), node.Grounded)
    (outer : ∀ frame ∈ frames, frame.Grounded) :
    (closeAtKey index place start done frames).Grounded :=
  grounded_close (grounded_missing index place) (List.forall_mem_cons.mpr ⟨before, outer⟩)

theorem grounded_onValue {token : Token} (holds : token.Grounded)
    (outer : ∀ frame ∈ frames, frame.Grounded) : (onValue token frames).Grounded := by
  have onLeaf {node : Node} (inner : node.Grounded) (isBroken : Bool) :
      (onLeaf node isBroken frames).Grounded := by
    unfold Builder.onLeaf
    split
    · exact grounded_close inner outer
    · exact grounded_feed inner outer
  unfold onValue
  split
  · exact onLeaf (.leaf holds) _
  · next start stop reading =>
      refine onLeaf (.leaf ?_) _
      cases reading <;> rintro _ ⟨⟩
      rfl
  · exact outer
  · exact outer
  · exact grounded_close (grounded_missing _ _) outer
  · exact grounded_close (grounded_missing _ _) outer

theorem grounded_onKey (token : Token) (start : Nat) {done : List (Key × Node)}
    (before : ∀ node ∈ done.map (·.2), node.Grounded)
    (outer : ∀ frame ∈ frames, frame.Grounded) : (onKey token start done frames).Grounded := by
  unfold onKey
  split
  · exact grounded_stopAtKey _ _ start before outer
  · exact ⟨before, outer⟩
  · exact grounded_stopAtKey _ _ start before outer

theorem grounded_onColon (token : Token) (start : Nat) {done : List (Key × Node)}
    (before : ∀ node ∈ done.map (·.2), node.Grounded) (name : Reading String)
    (outer : ∀ frame ∈ frames, frame.Grounded) :
    (onColon token start done name frames).Grounded := by
  have whole (key : Key) : ∀ frame ∈ .member start done key :: frames, frame.Grounded :=
    List.forall_mem_cons.mpr ⟨before, outer⟩
  unfold onColon
  split
  · exact whole _
  · exact grounded_close (grounded_missing _ _) (whole _)

theorem grounded_step {builder : Builder} (built : builder.Grounded) {token : Token}
    (holds : token.Grounded) : (builder.step token).Grounded := by
  unfold step
  split
  · exact grounded_onValue holds built
  · exact grounded_feed (.array (List.forall_mem_nil _)) built
  · exact grounded_onValue holds (List.forall_mem_cons.mpr ⟨List.forall_mem_nil _, built⟩)
  · exact grounded_feed (.object (List.forall_mem_nil _)) built
  · exact grounded_onKey token _ (List.forall_mem_nil _) built
  · exact grounded_stopAtKey _ _ _ built.1 built.2
  · exact grounded_onKey token _ built.1 built.2
  · exact grounded_onColon token _ built.1 _ built.2
  · exact List.forall_mem_cons.mpr built
  · exact grounded_feed (grounded_array built.1 _) built.2
  · exact grounded_close (grounded_missing _ _) (List.forall_mem_cons.mpr built)
  · exact built
  · exact grounded_feed (grounded_object built.1 _) built.2
  · exact grounded_stopAtKey _ _ _ built.1 built.2
  · exact built
  · exact built

theorem grounded_finish (index : Nat) {builder : Builder} (built : builder.Grounded) :
    (builder.finish index).root.Grounded := by
  unfold finish
  dsimp only
  split
  · exact grounded_close (grounded_missing _ _) built
  · exact grounded_close (grounded_missing _ _)
      (List.forall_mem_cons.mpr ⟨List.forall_mem_nil _, built⟩)
  · exact grounded_stopAtKey _ _ _ (List.forall_mem_nil _) built
  · exact grounded_stopAtKey _ _ _ built.1 built.2
  · exact grounded_close (grounded_missing _ _) (List.forall_mem_cons.mpr built)
  · exact grounded_close (grounded_missing _ _) (List.forall_mem_cons.mpr built)
  · exact grounded_stopAtKey _ _ _ built.1 built.2
  · exact built
  · exact built

end Builder

theorem Tree.grounded_ofText (text : String) : (ofText text).root.Grounded := by
  have built {tokens : List Token} (holds : ∀ token ∈ tokens, token.Grounded) {builder : Builder}
      (before : builder.Grounded) : (tokens.foldl Builder.step builder).Grounded := by
    induction tokens generalizing builder with
    | nil => exact before
    | cons token tokens ih =>
        have ⟨first, later⟩ := List.forall_mem_cons.mp holds
        exact ih later (Builder.grounded_step before first)
  exact Builder.grounded_finish _ (built (tokensFrom_grounded _ _) (List.forall_mem_nil _))

/-! ## Skipping -/

namespace Node

theorem skip_array_eq_ok {start : Nat} {items : List Node} :
    (array start items).skip = .ok () ↔ ∀ item ∈ items, item.skip = .ok () := by
  rw [skip]
  induction items with
  | nil => simp [skipItems]
  | cons item items ih =>
      rw [skipItems, bind_eq_ok, List.forall_mem_cons, ← ih]
      exact ⟨fun ⟨(), both⟩ => both, fun both => ⟨(), both⟩⟩

theorem skip_object_eq_ok {start : Nat} {members : List (Key × Node)} :
    (object start members).skip = .ok () ↔
      ∀ member ∈ members, member.1.name.skip = .ok () ∧ member.2.skip = .ok () := by
  rw [skip]
  induction members with
  | nil => simp [skipMembers]
  | cons member members ih =>
      rw [skipMembers, bind_eq_ok, List.forall_mem_cons, ← ih, and_assoc]
      simp only [bind_eq_ok]
      exact ⟨fun ⟨(), name, (), both⟩ => ⟨name, both⟩, fun ⟨name, both⟩ => ⟨(), name, (), both⟩⟩

/-- What has a value can be skipped. -/
theorem skip_of_value {depth : Nat} {node : Node} {value : Json}
    (read : node.value depth = .ok value) : node.skip = .ok () := by
  induction node using Node.induction generalizing depth value with
  | leaf start stop reading =>
      rw [Node.value] at read
      exact Reading.skip_of_value read
  | array start items ih =>
      cases depth with
      | zero => cases read
      | succ depth =>
          obtain ⟨values, reads, rfl⟩ := map_eq_ok.mp read
          refine skip_array_eq_ok.mpr fun item listed => ?_
          obtain ⟨value, valued⟩ := exists_of_forall₂ (forall₂_of_mapM reads) listed
          exact ih item listed valued
  | object start members ih =>
      cases depth with
      | zero => cases read
      | succ depth =>
          obtain ⟨values, reads, rfl⟩ := map_eq_ok.mp read
          refine skip_object_eq_ok.mpr fun member listed => ?_
          obtain ⟨entry, entered⟩ := exists_of_forall₂ (forall₂_of_mapM reads) listed
          obtain ⟨name, named, entered⟩ := bind_eq_ok.mp entered
          obtain ⟨value, valued, -⟩ := bind_eq_ok.mp entered
          exact ⟨Reading.skip_of_value named, ih member listed valued⟩

end Node

end BlockScribe.Json
