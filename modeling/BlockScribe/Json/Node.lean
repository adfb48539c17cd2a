import BlockScribe.Json.Token

/-!
# The tree of a text

Tokens are gathered into a tree that remembers where each piece stands.  Every
text has a tree: where the text goes wrong or ends too early, the tree has a
broken leaf in the place of what is missing, and every array and object that is
still open ends there.  So a reader that walks the tree in the order of the
text meets the first fault first, whether the fault is one of the text or one
of its own.
-/

namespace BlockScribe.Json

/-- A member's name, and where the reader stands once it has seen what follows the name. -/
structure Key where
  name : Reading String
  follow : Nat
  deriving Repr

inductive Node where
  | leaf (start stop : Nat) (reading : Reading Json)
  | array (start : Nat) (items : List Node)
  | object (start : Nat) (members : List (Key × Node))
  deriving Repr

namespace Node

def missing (index : Nat) (place : Break) : Node :=
  .leaf index index (.broken place)

def start : Node → Nat
  | .leaf start _ _ | .array start _ | .object start _ => start

end Node

structure Tree where
  root : Node
  ending : Except Fault Unit

/-! ## Open arrays and objects -/

/-- What a value is put into: an array, or an object under a key.  Parts stand in reverse. -/
inductive Frame where
  | items (start : Nat) (done : List Node)
  | member (start : Nat) (done : List (Key × Node)) (key : Key)
  deriving Repr

def Frame.fill (node : Node) : Frame → Node
  | .items start done => .array start (node :: done).reverse
  | .member start done key => .object start ((key, node) :: done).reverse

/-- The tree that remains when the text ends with `node`: everything still open ends there. -/
def close (node : Node) (frames : List Frame) : Node :=
  frames.foldl Frame.fill node

/-! ## The builder -/

inductive Builder where
  | value (frames : List Frame)
  | firstItem (start : Nat) (frames : List Frame)
  | firstKey (start : Nat) (frames : List Frame)
  | nextKey (start : Nat) (done : List (Key × Node)) (frames : List Frame)
  | colon (start : Nat) (done : List (Key × Node)) (name : Reading String) (frames : List Frame)
  | afterItem (start : Nat) (done : List Node) (frames : List Frame)
  | afterMember (start : Nat) (done : List (Key × Node)) (frames : List Frame)
  | complete (root : Node)
  | stopped (tree : Tree)

namespace Builder

def feed (node : Node) : List Frame → Builder
  | [] => .complete node
  | .items start done :: frames => .afterItem start (node :: done) frames
  | .member start done key :: frames => .afterMember start ((key, node) :: done) frames

def stop (node : Node) (frames : List Frame) : Builder :=
  .stopped ⟨close node frames, .ok ()⟩

def closeAtKey (index : Nat) (place : Break) (start : Nat) (done : List (Key × Node))
    (frames : List Frame) : Node :=
  close (.missing index place) (.member start done ⟨.broken place, index⟩ :: frames)

def stopAtKey (index : Nat) (place : Break) (start : Nat) (done : List (Key × Node))
    (frames : List Frame) : Builder :=
  .stopped ⟨closeAtKey index place start done frames, .ok ()⟩

def stray (cause : Cause) (index : Nat) : Break :=
  .both (.on cause index)

/-- A closing mark right behind a comma is named as such only to those who read. -/
def danglingComma (skipping : Cause) (index : Nat) : Break :=
  ⟨.on .trailingComma index, .on skipping index⟩

def onLeaf (node : Node) (isBroken : Bool) (frames : List Frame) : Builder :=
  if isBroken then stop node frames else feed node frames

def onValue (token : Token) (frames : List Frame) : Builder :=
  match token, frames with
  | .plain start stop reading, frames =>
      onLeaf (.leaf start stop reading) reading.isBroken frames
  | .string start stop reading, frames =>
      onLeaf (.leaf start stop (reading.map .string)) reading.isBroken frames
  | .mark start .openArray, frames => .firstItem start frames
  | .mark start .openObject, frames => .firstKey start frames
  | .mark index .closeArray, .items start done :: frames =>
      stop (.missing index (danglingComma .valueExpected index)) (.items start done :: frames)
  | .mark index _, frames => stop (.missing index (stray .valueExpected index)) frames

def onKey (token : Token) (start : Nat) (done : List (Key × Node)) (frames : List Frame) :
    Builder :=
  match token with
  | .string index _ (.broken place) => stopAtKey index place start done frames
  | .string _ _ name => .colon start done name frames
  | token => stopAtKey token.start (stray .keyNotString token.start) start done frames

/-- A token behind a key; who gives up on the object takes in a closing brace. -/
def onColon (token : Token) (start : Nat) (done : List (Key × Node)) (name : Reading String)
    (frames : List Frame) : Builder :=
  match token with
  | .mark index .colon => .value (.member start done ⟨name, index⟩ :: frames)
  | token =>
      let index := token.start
      let follow :=
        match token with
        | .mark _ .closeObject => index + 1
        | _ => index
      stop (.missing index (stray .colonExpected index))
        (.member start done ⟨name, follow⟩ :: frames)

def step (builder : Builder) (token : Token) : Builder :=
  match builder, token with
  | .value frames, token => onValue token frames
  | .firstItem start frames, .mark _ .closeArray => feed (.array start []) frames
  | .firstItem start frames, token => onValue token (.items start [] :: frames)
  | .firstKey start frames, .mark _ .closeObject => feed (.object start []) frames
  | .firstKey start frames, token => onKey token start [] frames
  | .nextKey start done frames, .mark index .closeObject =>
      stopAtKey index (danglingComma .keyNotString index) start done frames
  | .nextKey start done frames, token => onKey token start done frames
  | .colon start done name frames, token => onColon token start done name frames
  | .afterItem start done frames, .mark _ .comma => .value (.items start done :: frames)
  | .afterItem start done frames, .mark _ .closeArray => feed (.array start done.reverse) frames
  | .afterItem start done frames, token =>
      stop (.missing token.start (stray .commaOrBracketExpected token.start))
        (.items start done :: frames)
  | .afterMember start done frames, .mark _ .comma => .nextKey start done frames
  | .afterMember start done frames, .mark _ .closeObject =>
      feed (.object start done.reverse) frames
  | .afterMember start done frames, token =>
      stopAtKey token.start (stray .commaOrBraceExpected token.start) start done frames
  | .complete root, token => .stopped ⟨root, .error (.on .trailingText token.start)⟩
  | .stopped tree, _ => .stopped tree

def finish (index : Nat) (builder : Builder) : Tree :=
  let ended (cause : Cause) : Break := .both ⟨cause, index⟩
  match builder with
  | .value frames => ⟨close (.missing index (ended .endInValue)) frames, .ok ()⟩
  | .firstItem start frames =>
      ⟨close (.missing index (ended .endInArray)) (.items start [] :: frames), .ok ()⟩
  | .firstKey start frames =>
      ⟨closeAtKey index (ended .endInObject) start [] frames, .ok ()⟩
  | .nextKey start done frames =>
      ⟨closeAtKey index ⟨⟨.endInValue, index⟩, ⟨.endInObject, index⟩⟩ start done frames, .ok ()⟩
  | .colon start done name frames =>
      ⟨close (.missing index (ended .endInObject)) (.member start done ⟨name, index⟩ :: frames),
        .ok ()⟩
  | .afterItem start done frames =>
      ⟨close (.missing index (ended .endInArray)) (.items start done :: frames), .ok ()⟩
  | .afterMember start done frames =>
      ⟨closeAtKey index (ended .endInObject) start done frames, .ok ()⟩
  | .complete root => ⟨root, .ok ()⟩
  | .stopped tree => tree

end Builder

namespace Tree

def ofTokens (tokens : List Token) (length : Nat) : Tree :=
  (tokens.foldl Builder.step (.value [])).finish length

def ofText (text : String) : Tree :=
  ofTokens (tokensFrom text.toList 0) (byteLength text.toList)

end Tree

end BlockScribe.Json
