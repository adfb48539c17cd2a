import BlockScribe.Json.Read
import BlockScribe.Proofs.Result

/-!
# Faults of a text

Reading a text for its value only ever finds fault with the text itself.  That
a value has another shape than is wanted, or a field twice, is found by those
who read records from it.  The property is carried from the characters through
the tokens and the builder's open arrays and objects to the finished tree.
-/

namespace BlockScribe.Json

def Fault.Syntactic (fault : Fault) : Prop :=
  fault.cause.category ≠ .shape

structure Break.Syntactic (place : Break) : Prop where
  fault : place.fault.Syntactic
  skipping : place.skipping.Syntactic

def Reading.Syntactic {α : Type} : Reading α → Prop
  | .sound _ => True
  | .skippable fault => fault.Syntactic
  | .broken place => place.Syntactic

theorem Reading.Syntactic.value {α : Type} {reading : Reading α} (syntactic : reading.Syntactic) :
    FailsOnly Fault.Syntactic reading.value := by
  cases reading with
  | sound value => exact .of_ok value
  | skippable fault => exact .of_error syntactic
  | broken place => exact .of_error syntactic.fault

theorem Reading.Syntactic.skip {α : Type} {reading : Reading α} (syntactic : reading.Syntactic) :
    FailsOnly Fault.Syntactic reading.skip := by
  cases reading with
  | sound | skippable => exact .of_ok ()
  | broken place => exact .of_error syntactic.skipping

theorem error_syntactic {α : Type} {cause : Cause} (index : Nat)
    (syntactic : cause.category ≠ .shape := by decide) :
    FailsOnly Fault.Syntactic (.error ⟨cause, index⟩ : Except Fault α) :=
  .of_error syntactic

/-! ## Strings -/

theorem hexQuad_syntactic (text : List Char) (index : Nat) :
    FailsOnly Fault.Syntactic (hexQuad text index) := by
  unfold hexQuad
  split
  · split
    · exact .of_ok _
    · exact error_syntactic _
  · split
    · exact error_syntactic _
    · exact error_syntactic _

theorem skipString_syntactic (text : List Char) (index : Nat) :
    FailsOnly Fault.Syntactic (skipString text index) := by
  fun_induction skipString text index with
  | case1 => exact error_syntactic _
  | case2 => exact .of_ok _
  | case3 => exact error_syntactic _
  | case4 _ _ _ broken => exact .of_error (hexQuad_syntactic _ _ _ broken)
  | case5 _ _ _ _ _ ih => exact ih
  | case6 _ _ _ _ _ ih => exact ih
  | case7 => exact error_syntactic _
  | case8 => exact error_syntactic _
  | case9 _ _ _ _ _ _ _ _ ih => exact ih

theorem trailingSurrogate_syntactic (text : List Char) (index : Nat) :
    FailsOnly Fault.Syntactic (trailingSurrogate text index) := by
  unfold trailingSurrogate
  split
  · exact error_syntactic _
  · exact error_syntactic _
  · refine (hexQuad_syntactic _ _).bind fun _ _ => ?_
    dsimp only
    split
    · exact .of_ok _
    · exact error_syntactic _
  · exact error_syntactic _
  · exact error_syntactic _

theorem escapedChar_syntactic (digits : List Char) (index : Nat) :
    FailsOnly Fault.Syntactic (escapedChar digits index) := by
  refine (hexQuad_syntactic digits index).bind fun _ _ => ?_
  dsimp only
  split
  · exact error_syntactic _
  · split
    · exact (trailingSurrogate_syntactic _ _).bind fun _ _ => .of_ok _
    · exact .of_ok _

theorem readString_syntactic (text : List Char) (index : Nat) :
    FailsOnly Fault.Syntactic (readString text index) := by
  fun_induction readString text index with
  | case1 => exact error_syntactic _
  | case2 => exact .of_ok _
  | case3 => exact error_syntactic _
  | case4 _ _ _ broken => exact .of_error (escapedChar_syntactic _ _ _ broken)
  | case5 _ _ _ _ _ _ ih => exact ih.map _
  | case6 _ _ _ _ _ _ ih => exact ih.map _
  | case7 => exact error_syntactic _
  | case8 => exact error_syntactic _
  | case9 _ _ _ _ _ _ _ _ ih => exact ih.map _

/-! ## Numerals -/

theorem digitMissing_syntactic (index : Nat) (text : List Char) :
    FailsOnly Break.Syntactic (digitMissing index text) := by
  cases text with
  | nil => exact .of_error ⟨nofun, nofun⟩
  | cons c text => exact .of_error ⟨nofun, nofun⟩

theorem someDigits_syntactic (text : List Char) (index : Nat) :
    FailsOnly Break.Syntactic (someDigits text index) := by
  unfold someDigits
  split
  · exact digitMissing_syntactic _ _
  · exact .of_ok _

theorem wholeDigits_syntactic (text : List Char) (index : Nat) :
    FailsOnly Break.Syntactic (wholeDigits text index) := by
  unfold wholeDigits
  split
  · exact digitMissing_syntactic _ _
  · exact .of_error ⟨nofun, nofun⟩
  · exact .of_ok _

theorem splitPower_syntactic (numeral : Numeral) (negative : Bool) (text : List Char)
    (index : Nat) : FailsOnly Break.Syntactic (splitPower numeral negative text index) :=
  (someDigits_syntactic text index).bind fun _ _ => .of_ok _

theorem splitTail_syntactic (numeral : Numeral) (text : List Char) (index : Nat) :
    FailsOnly Break.Syntactic (splitTail numeral text index) := by
  have exponent (rest : List Char) :
      FailsOnly Break.Syntactic (splitExponent numeral rest (index + 1)) := by
    unfold splitExponent
    split <;> exact splitPower_syntactic _ _ _ _
  unfold splitTail
  split
  · exact exponent _
  · exact exponent _
  · exact .of_ok _

theorem splitFraction_syntactic (numeral : Numeral) (text : List Char) (index : Nat) :
    FailsOnly Break.Syntactic (splitFraction numeral text index) := by
  unfold splitFraction
  split
  · exact (someDigits_syntactic _ _).bind fun _ _ => splitTail_syntactic _ _ _
  · exact splitTail_syntactic _ _ _

theorem splitNumeral_syntactic (text : List Char) (index : Nat) :
    FailsOnly Break.Syntactic (splitNumeral text index) := by
  have magnitude (negative : Bool) (text : List Char) (index : Nat) :
      FailsOnly Break.Syntactic (splitMagnitude negative text index) :=
    (wholeDigits_syntactic text index).bind fun _ _ => splitFraction_syntactic _ _ _
  unfold splitNumeral
  split <;> exact magnitude _ _ _

theorem Numeral.number_syntactic (numeral : Numeral) (stop : Nat) :
    FailsOnly Fault.Syntactic (numeral.number stop) := by
  unfold number
  split
  extract_lets rounded
  have each (exponent : Int) : FailsOnly Fault.Syntactic (rounded exponent) := by
    unfold rounded
    split
    · exact .of_ok _
    · exact error_syntactic _
  split
  · split
    · exact .of_ok _
    · exact each _
  · split
    · split
      · exact .of_ok _
      · exact error_syntactic _
    · exact each _

theorem Numeral.reading_syntactic (numeral : Numeral) (stop : Nat) :
    (numeral.reading stop).Syntactic := by
  unfold reading
  split
  · trivial
  · next broken => exact numeral.number_syntactic stop _ broken

/-! ## Tokens -/

def Token.Syntactic : Token → Prop
  | .mark .. => True
  | .plain _ _ reading => reading.Syntactic
  | .string _ _ reading => reading.Syntactic

theorem spell_syntactic (letters text : List Char) (index : Nat) :
    FailsOnly Fault.Syntactic (spell letters text index) := by
  fun_induction spell letters text index with
  | case1 => exact .of_ok _
  | case2 => exact error_syntactic _
  | case3 _ _ _ _ ih => exact ih
  | case4 => exact error_syntactic _

theorem nextToken_syntactic (c : Char) (text : List Char) (index : Nat) :
    (nextToken c text index).1.Syntactic := by
  have skipped := skipString_syntactic text (index + 1)
  have read := readString_syntactic text (index + 1)
  unfold nextToken
  split
  · split
    · trivial
    · next broken => exact read _ broken
    · next unended broken => exact ⟨read _ broken, skipped _ unended⟩
    · next unended _ => exact ⟨skipped _ unended, skipped _ unended⟩
  · split
    · split
      · exact Numeral.reading_syntactic _ _
      · next broken => exact splitNumeral_syntactic _ _ _ broken
    · split
      · split
        · trivial
        · next broken =>
            have fault := spell_syntactic _ _ _ _ broken
            exact ⟨fault, fault⟩
      · split <;> trivial

theorem tokensFrom_syntactic (text : List Char) (index : Nat) :
    ∀ token ∈ tokensFrom text index, token.Syntactic := by
  fun_induction tokensFrom text index with
  | case1 => simp
  | case2 _ _ _ _ ih => exact ih
  | case3 index c text _ token next =>
      have here := nextToken_syntactic c text index
      rw [next] at here
      simpa using here
  | case4 index c text _ token rest stop next ih =>
      have here := nextToken_syntactic c text index
      rw [next] at here
      exact List.forall_mem_cons.mpr ⟨here, ih⟩

/-! ## Trees -/

inductive Node.Syntactic : Node → Prop
  | leaf {start stop : Nat} {reading : Reading Json} (read : reading.Syntactic) :
      Syntactic (.leaf start stop reading)
  | array {start : Nat} {items : List Node} (each : ∀ item ∈ items, Syntactic item) :
      Syntactic (.array start items)
  | object {start : Nat} {members : List (Key × Node)}
      (names : ∀ member ∈ members, member.1.name.Syntactic)
      (values : ∀ member ∈ members, Syntactic member.2) : Syntactic (.object start members)

structure MembersSyntactic (members : List (Key × Node)) : Prop where
  names : ∀ member ∈ members, member.1.name.Syntactic
  values : ∀ member ∈ members, member.2.Syntactic

def Frame.Syntactic : Frame → Prop
  | .items _ done => ∀ item ∈ done, item.Syntactic
  | .member _ done key => MembersSyntactic done ∧ key.name.Syntactic

structure Tree.Syntactic (tree : Tree) : Prop where
  root : tree.root.Syntactic
  ending : FailsOnly Fault.Syntactic tree.ending

theorem MembersSyntactic.nil : MembersSyntactic [] := by
  constructor <;> simp

theorem MembersSyntactic.cons {key : Key} {node : Node} {members : List (Key × Node)}
    (rest : MembersSyntactic members) (name : key.name.Syntactic) (value : node.Syntactic) :
    MembersSyntactic ((key, node) :: members) :=
  ⟨List.forall_mem_cons.mpr ⟨name, rest.names⟩, List.forall_mem_cons.mpr ⟨value, rest.values⟩⟩

theorem MembersSyntactic.object {members : List (Key × Node)} (done : MembersSyntactic members)
    (start : Nat) : (Node.object start members.reverse).Syntactic :=
  .object (fun member there => done.names member (List.mem_reverse.mp there))
    (fun member there => done.values member (List.mem_reverse.mp there))

theorem Node.missing_syntactic (index : Nat) {place : Break} (syntactic : place.Syntactic) :
    (missing index place).Syntactic :=
  .leaf syntactic

theorem Frame.fill_syntactic {node : Node} (inner : node.Syntactic) {frame : Frame}
    (syntactic : frame.Syntactic) : (frame.fill node).Syntactic := by
  cases frame with
  | items start done =>
      refine .array fun item there => ?_
      exact List.forall_mem_cons.mpr ⟨inner, syntactic⟩ item (List.mem_reverse.mp there)
  | member start done key => exact (syntactic.1.cons syntactic.2 inner).object start

theorem close_syntactic {node : Node} (inner : node.Syntactic) {frames : List Frame}
    (syntactic : ∀ frame ∈ frames, frame.Syntactic) : (close node frames).Syntactic := by
  induction frames generalizing node with
  | nil => exact inner
  | cons frame frames ih =>
      have ⟨first, later⟩ := List.forall_mem_cons.mp syntactic
      exact ih (Frame.fill_syntactic inner first) later

/-! ## The builder -/

def Builder.Syntactic : Builder → Prop
  | .value frames | .firstItem _ frames | .firstKey _ frames =>
      ∀ frame ∈ frames, frame.Syntactic
  | .nextKey _ done frames | .afterMember _ done frames =>
      MembersSyntactic done ∧ ∀ frame ∈ frames, frame.Syntactic
  | .colon _ done name frames =>
      MembersSyntactic done ∧ name.Syntactic ∧ ∀ frame ∈ frames, frame.Syntactic
  | .afterItem _ done frames =>
      (∀ item ∈ done, item.Syntactic) ∧ ∀ frame ∈ frames, frame.Syntactic
  | .complete root => root.Syntactic
  | .stopped tree => tree.Syntactic

namespace Builder

variable {frames : List Frame}

theorem stray_syntactic {cause : Cause} (index : Nat)
    (malformed : cause.category ≠ .shape := by decide) : (stray cause index).Syntactic :=
  ⟨malformed, malformed⟩

theorem danglingComma_syntactic {skipping : Cause} (index : Nat)
    (malformed : skipping.category ≠ .shape := by decide) :
    (danglingComma skipping index).Syntactic :=
  ⟨nofun, malformed⟩

theorem feed_syntactic {node : Node} (inner : node.Syntactic)
    (syntactic : ∀ frame ∈ frames, frame.Syntactic) : (feed node frames).Syntactic := by
  rcases frames with _ | ⟨frame, frames⟩
  · exact inner
  · have ⟨first, later⟩ := List.forall_mem_cons.mp syntactic
    cases frame with
    | items start done => exact ⟨List.forall_mem_cons.mpr ⟨inner, first⟩, later⟩
    | member start done key => exact ⟨first.1.cons first.2 inner, later⟩

theorem stop_syntactic {node : Node} (inner : node.Syntactic)
    (syntactic : ∀ frame ∈ frames, frame.Syntactic) : (stop node frames).Syntactic :=
  ⟨close_syntactic inner syntactic, .of_ok ()⟩

theorem closeAtKey_syntactic (index : Nat) {place : Break} (broken : place.Syntactic)
    (start : Nat) {done : List (Key × Node)} (before : MembersSyntactic done)
    (syntactic : ∀ frame ∈ frames, frame.Syntactic) :
    (closeAtKey index place start done frames).Syntactic :=
  close_syntactic (Node.missing_syntactic index broken)
    (List.forall_mem_cons.mpr ⟨⟨before, broken⟩, syntactic⟩)

theorem stopAtKey_syntactic (index : Nat) {place : Break} (broken : place.Syntactic)
    (start : Nat) {done : List (Key × Node)} (before : MembersSyntactic done)
    (syntactic : ∀ frame ∈ frames, frame.Syntactic) :
    (stopAtKey index place start done frames).Syntactic :=
  ⟨closeAtKey_syntactic index broken start before syntactic, .of_ok ()⟩

theorem onLeaf_syntactic {node : Node} (inner : node.Syntactic) (isBroken : Bool)
    (syntactic : ∀ frame ∈ frames, frame.Syntactic) :
    (onLeaf node isBroken frames).Syntactic := by
  unfold onLeaf
  split
  · exact stop_syntactic inner syntactic
  · exact feed_syntactic inner syntactic

theorem onValue_syntactic {token : Token} (read : token.Syntactic)
    (syntactic : ∀ frame ∈ frames, frame.Syntactic) : (onValue token frames).Syntactic := by
  unfold onValue
  split
  · exact onLeaf_syntactic (.leaf read) _ syntactic
  · next start stop reading =>
      have mapped : (reading.map Json.string).Syntactic := by
        cases reading <;> exact read
      exact onLeaf_syntactic (.leaf mapped) _ syntactic
  · exact syntactic
  · exact syntactic
  · exact stop_syntactic (Node.missing_syntactic _ (danglingComma_syntactic _)) syntactic
  · exact stop_syntactic (Node.missing_syntactic _ (stray_syntactic _)) syntactic

theorem onKey_syntactic {token : Token} (read : token.Syntactic) (start : Nat)
    {done : List (Key × Node)} (before : MembersSyntactic done)
    (syntactic : ∀ frame ∈ frames, frame.Syntactic) :
    (onKey token start done frames).Syntactic := by
  unfold onKey
  split
  · exact stopAtKey_syntactic _ read start before syntactic
  · exact ⟨before, read, syntactic⟩
  · exact stopAtKey_syntactic _ (stray_syntactic _) start before syntactic

theorem onColon_syntactic (token : Token) (start : Nat) {done : List (Key × Node)}
    (before : MembersSyntactic done) {name : Reading String} (read : name.Syntactic)
    (syntactic : ∀ frame ∈ frames, frame.Syntactic) :
    (onColon token start done name frames).Syntactic := by
  unfold onColon
  split
  · exact List.forall_mem_cons.mpr ⟨⟨before, read⟩, syntactic⟩
  · exact stop_syntactic (Node.missing_syntactic _ (stray_syntactic _))
      (List.forall_mem_cons.mpr ⟨⟨before, read⟩, syntactic⟩)

/-- One token more leaves no other faults in the tree than those of the text. -/
theorem step_syntactic {builder : Builder} (built : builder.Syntactic) {token : Token}
    (read : token.Syntactic) : (builder.step token).Syntactic := by
  unfold step
  split
  · exact onValue_syntactic read built
  · exact feed_syntactic (.array (List.forall_mem_nil _)) built
  · exact onValue_syntactic read (List.forall_mem_cons.mpr ⟨List.forall_mem_nil _, built⟩)
  · exact feed_syntactic (MembersSyntactic.nil.object _) built
  · exact onKey_syntactic read _ .nil built
  · exact stopAtKey_syntactic _ (danglingComma_syntactic _) _ built.1 built.2
  · exact onKey_syntactic read _ built.1 built.2
  · exact onColon_syntactic _ _ built.1 built.2.1 built.2.2
  · exact List.forall_mem_cons.mpr built
  · exact feed_syntactic (.array fun item there => built.1 item (List.mem_reverse.mp there)) built.2
  · exact stop_syntactic (Node.missing_syntactic _ (stray_syntactic _))
      (List.forall_mem_cons.mpr built)
  · exact built
  · exact feed_syntactic (built.1.object _) built.2
  · exact stopAtKey_syntactic _ (stray_syntactic _) _ built.1 built.2
  · exact ⟨built, .of_error nofun⟩
  · exact built

theorem finish_syntactic (index : Nat) {builder : Builder} (built : builder.Syntactic) :
    (builder.finish index).Syntactic := by
  have ended {cause : Cause} (malformed : cause.category ≠ .shape := by decide) :
      (Break.both ⟨cause, index⟩).Syntactic := ⟨malformed, malformed⟩
  unfold finish
  dsimp only
  split
  · exact ⟨close_syntactic (Node.missing_syntactic _ ended) built, .of_ok ()⟩
  · exact ⟨close_syntactic (Node.missing_syntactic _ ended)
      (List.forall_mem_cons.mpr ⟨List.forall_mem_nil _, built⟩), .of_ok ()⟩
  · exact ⟨closeAtKey_syntactic _ ended _ .nil built, .of_ok ()⟩
  · have place : (Break.mk ⟨.endInValue, index⟩ ⟨.endInObject, index⟩).Syntactic :=
      ⟨nofun, nofun⟩
    exact ⟨closeAtKey_syntactic _ place _ built.1 built.2, .of_ok ()⟩
  · exact ⟨close_syntactic (Node.missing_syntactic _ ended)
      (List.forall_mem_cons.mpr ⟨⟨built.1, built.2.1⟩, built.2.2⟩), .of_ok ()⟩
  · exact ⟨close_syntactic (Node.missing_syntactic _ ended) (List.forall_mem_cons.mpr built),
      .of_ok ()⟩
  · exact ⟨closeAtKey_syntactic _ ended _ built.1 built.2, .of_ok ()⟩
  · exact ⟨built, .of_ok ()⟩
  · exact built

theorem foldl_step_syntactic {tokens : List Token} (read : ∀ token ∈ tokens, token.Syntactic)
    {builder : Builder} (built : builder.Syntactic) : (tokens.foldl step builder).Syntactic := by
  induction tokens generalizing builder with
  | nil => exact built
  | cons token tokens ih =>
      have ⟨first, later⟩ := List.forall_mem_cons.mp read
      exact ih later (step_syntactic built first)

end Builder

theorem Tree.ofText_syntactic (text : String) : (ofText text).Syntactic :=
  Builder.finish_syntactic _ (Builder.foldl_step_syntactic (tokensFrom_syntactic _ _)
    (List.forall_mem_nil _))

/-! ## Values -/

theorem failsOnly_skipItems {items : List Node}
    (each : ∀ item ∈ items, FailsOnly Fault.Syntactic item.skip) :
    FailsOnly Fault.Syntactic (Node.skipItems items) := by
  induction items with
  | nil => exact .of_ok ()
  | cons item items ih =>
      have ⟨first, later⟩ := List.forall_mem_cons.mp each
      rw [Node.skipItems]
      exact first.bind fun _ _ => ih later

theorem failsOnly_skipMembers {members : List (Key × Node)}
    (names : ∀ member ∈ members, member.1.name.Syntactic)
    (each : ∀ member ∈ members, FailsOnly Fault.Syntactic member.2.skip) :
    FailsOnly Fault.Syntactic (Node.skipMembers members) := by
  induction members with
  | nil => exact .of_ok ()
  | cons member members ih =>
      have ⟨name, laterNames⟩ := List.forall_mem_cons.mp names
      have ⟨first, later⟩ := List.forall_mem_cons.mp each
      rw [Node.skipMembers]
      exact name.skip.bind fun _ _ => first.bind fun _ _ => ih laterNames later

theorem Node.Syntactic.value {node : Node} (syntactic : node.Syntactic) (depth : Nat) :
    FailsOnly Fault.Syntactic (node.value depth) := by
  induction syntactic generalizing depth with
  | leaf read =>
      rw [Node.value]
      exact read.value
  | array _ ih =>
      cases depth with
      | zero => exact .of_error nofun
      | succ depth => exact (FailsOnly.mapM fun item there => ih item there depth).map _
  | object names _ ih =>
      cases depth with
      | zero => exact .of_error nofun
      | succ depth =>
          refine (FailsOnly.mapM fun member there => ?_).map _
          exact (names member there).value.bind fun _ _ =>
            (ih member there depth).bind fun _ _ => .of_ok _

theorem Node.Syntactic.skip {node : Node} (syntactic : node.Syntactic) :
    FailsOnly Fault.Syntactic node.skip := by
  induction syntactic with
  | leaf read => exact read.skip
  | array _ ih =>
      rw [Node.skip]
      exact failsOnly_skipItems ih
  | object names _ ih =>
      rw [Node.skip]
      exact failsOnly_skipMembers names ih

theorem Tree.Syntactic.value {tree : Tree} (syntactic : tree.Syntactic) :
    FailsOnly Fault.Syntactic tree.value :=
  (syntactic.root.value maxDepth).bind fun _ _ => syntactic.ending.bind fun _ _ => .of_ok _

/-- A text that cannot be read as a value has a fault of its own. -/
theorem parse_syntactic (text : String) :
    FailsOnly (fun error => error.cause.category ≠ .shape) (parse text) :=
  (Tree.ofText_syntactic text).value.mapError fun _ syntactic => syntactic

end BlockScribe.Json
