import BlockScribe.Block.Read
import BlockScribe.Proofs.Json.Faults

/-!
# Faults of a block list

What can be wrong with the text of a block list: a fault of the text itself,
something of another shape than a block has there, or a field of a block that
is there twice.  The only names that a fault repeats are those of the fields.
-/

namespace BlockScribe.Block

open Json (Node Key Fault Cause)

def fieldNames : List String :=
  ["id", "type", "props", "content", "children"]

/-- A cause speaks of no repeated field but those that blocks have. -/
def NamesFields (cause : Cause) : Prop :=
  ∀ name, cause = .repeatedField name → name ∈ fieldNames

theorem namesFields_of_syntactic {cause : Cause} (syntactic : cause.category ≠ .shape) :
    NamesFields cause := by
  rintro name rfl
  exact absurd rfl syntactic

/-- Reading some part of a block list finds no other faults than a block list has. -/
def ReadsFields {α : Type} (result : Except Fault α) : Prop :=
  FailsOnly (fun fault => NamesFields fault.cause) result

theorem readsFields_value {node : Node} (syntactic : node.Syntactic) (depth : Nat) :
    ReadsFields (node.value depth) :=
  (syntactic.value depth).mono fun _ => namesFields_of_syntactic

theorem namesFields_wrongShape {node : Node} (syntactic : node.Syntactic)
    (expected : Json.Expected) : NamesFields (node.wrongShape expected).cause := by
  cases syntactic with
  | array => exact nofun
  | object => exact nofun
  | leaf read =>
      rw [Node.wrongShape]
      split
      · exact nofun
      · next broken => exact namesFields_of_syntactic (read.value _ broken)

theorem readsFields_wrongShape {α : Type} {node : Node} (syntactic : node.Syntactic)
    (expected : Json.Expected) : ReadsFields (.error (node.wrongShape expected) : Except Fault α) :=
  .of_error (namesFields_wrongShape syntactic expected)

/-! ## Fields -/

variable {node : Node}

theorem readsFields_readString (syntactic : node.Syntactic) : ReadsFields (readString node) := by
  unfold readString
  split
  · exact .of_ok _
  · exact readsFields_wrongShape syntactic _

theorem readsFields_readId (syntactic : node.Syntactic) : ReadsFields (readId node) := by
  unfold readId
  split
  · exact .of_ok _
  · exact (readsFields_readString syntactic).map _

theorem readsFields_readProps (syntactic : node.Syntactic) (depth : Nat) :
    ReadsFields (readProps depth node) := by
  unfold readProps
  split
  · refine (readsFields_value syntactic depth).bind fun value _ => ?_
    split
    · exact .of_ok _
    · exact readsFields_wrongShape syntactic _
  · exact readsFields_wrongShape syntactic _

theorem readsFields_readContent (syntactic : node.Syntactic) (depth : Nat) :
    ReadsFields (readContent depth node) := by
  refine (readsFields_value syntactic depth).bind fun value _ => ?_
  split <;> exact .of_ok _

theorem readsFields_once {α : Type} {name : String} (known : name ∈ fieldNames) (key : Key)
    (field : Option α) : ReadsFields (once name key field) := by
  unfold once
  split
  · refine .of_error ?_
    rintro _ ⟨⟩
    exact known
  · exact .of_ok ()

theorem readsFields_readMember {readChildren : Node → Except Fault (List Block)}
    (children : ReadsFields (readChildren node)) (depth : Nat) (draft : Draft) {key : Key}
    (name : key.name.Syntactic) (syntactic : node.Syntactic) :
    ReadsFields (readMember readChildren depth draft (key, node)) := by
  refine (name.value.mono fun _ => namesFields_of_syntactic).bind fun value _ => ?_
  split
  · exact (readsFields_once (by decide) key _).bind fun _ _ =>
      (readsFields_readId syntactic).bind fun _ _ => .of_ok _
  · exact (readsFields_once (by decide) key _).bind fun _ _ =>
      (readsFields_readString syntactic).bind fun _ _ => .of_ok _
  · exact (readsFields_once (by decide) key _).bind fun _ _ =>
      (readsFields_readProps syntactic depth).bind fun _ _ => .of_ok _
  · exact (readsFields_once (by decide) key _).bind fun _ _ =>
      (readsFields_readContent syntactic depth).bind fun _ _ => .of_ok _
  · exact (readsFields_once (by decide) key _).bind fun _ _ =>
      children.bind fun _ _ => .of_ok _
  · exact (syntactic.skip.mono fun _ => namesFields_of_syntactic).bind fun _ _ => .of_ok _

theorem namesFields_surplus (syntactic : node.Syntactic) : NamesFields (surplus node).cause := by
  cases syntactic with
  | array => exact nofun
  | object => exact nofun
  | @leaf start stop reading read =>
      cases reading with
      | sound | skippable => exact nofun
      | broken place =>
          have fault := namesFields_of_syntactic (Json.Break.Syntactic.fault read)
          rw [surplus]
          split
          · exact fault
          · exact fault
          · exact nofun

theorem readsFields_field {α : Type} {items : List Node} {read : Node → Except Fault α}
    (each : ∀ item ∈ items, ReadsFields (read item)) (index : Nat) :
    ReadsFields (items[index]?.mapM read) := by
  cases there : items[index]? with
  | none => exact .of_ok none
  | some item => exact (each item (List.mem_of_getElem? there)).map some

theorem readsFields_readFields {readChildren : Node → Except Fault (List Block)} {depth : Nat}
    {items : List Node} (children : ∀ item ∈ items, ReadsFields (readChildren item))
    (syntactic : ∀ item ∈ items, item.Syntactic) :
    ReadsFields (readFields readChildren depth items) := by
  refine (readsFields_field (fun item there => readsFields_readId (syntactic item there)) 0).bind
    fun _ _ => ?_
  refine (readsFields_field (fun item there => readsFields_readString (syntactic item there))
    1).bind fun _ _ => ?_
  refine (readsFields_field (fun item there => readsFields_readProps (syntactic item there) depth)
    2).bind fun _ _ => ?_
  refine (readsFields_field (fun item there => readsFields_readContent (syntactic item there)
    depth) 3).bind fun _ _ => ?_
  refine (readsFields_field children 4).bind fun _ _ => ?_
  split
  · exact .of_ok _
  · next item there =>
      exact .of_error (namesFields_surplus (syntactic item (List.mem_of_getElem? there)))

/-! ## Blocks and block lists -/

theorem readsFields_tooDeep {α : Type} (start : Nat) :
    ReadsFields (.error (Node.tooDeep start) : Except Fault α) :=
  .of_error nofun

theorem readsFields_read (depth : Nat) : ∀ {node : Node}, node.Syntactic →
    ReadsFields (read depth node) ∧ ReadsFields (readList depth node) := by
  induction depth with
  | zero =>
      intro node syntactic
      constructor
      · unfold read
        cases syntactic with
        | leaf read => exact readsFields_wrongShape (.leaf read) _
        | array | object => exact readsFields_tooDeep _
      · unfold readList
        cases syntactic with
        | leaf read => exact readsFields_wrongShape (.leaf read) _
        | object names values => exact readsFields_wrongShape (.object names values) _
        | array => exact readsFields_tooDeep _
  | succ depth ih =>
      intro node syntactic
      constructor
      · unfold read
        cases syntactic with
        | leaf read => exact readsFields_wrongShape (.leaf read) _
        | array each =>
            exact FailsOnly.map
              (readsFields_readFields (fun item there => (ih (each item there)).2) each) _
        | object names values =>
            refine FailsOnly.map (FailsOnly.foldlM (fun member there draft => ?_) _) _
            exact readsFields_readMember (ih (values member there)).2 depth draft
              (names member there) (values member there)
      · unfold readList
        cases syntactic with
        | leaf read => exact readsFields_wrongShape (.leaf read) _
        | object names values => exact readsFields_wrongShape (.object names values) _
        | array each => exact FailsOnly.mapM fun item there => (ih (each item there)).1

/-- A text that cannot be read as a block list has a fault that is one of a block list. -/
theorem parseList_namesFields (text : String) :
    FailsOnly (fun error => NamesFields error.cause) (parseList text) := by
  have syntactic := Json.Tree.ofText_syntactic text
  have read : ReadsFields (readTree (.ofText text)) :=
    (readsFields_read Json.maxDepth syntactic.root).2.bind fun _ _ =>
      (syntactic.ending.mono fun _ => namesFields_of_syntactic).bind fun _ _ => .of_ok _
  exact read.mapError fun _ names => names

end BlockScribe.Block
