import BlockScribe.Json.Basic

/-!
# Inline content

Text in runs of one style each, some of them gathered into links.  Content that
has none of the shapes below is refused as a whole.
-/

namespace BlockScribe

structure Styles where
  bold : Bool
  italic : Bool
  underline : Bool
  strike : Bool
  code : Bool
  textColor : Option String
  backgroundColor : Option String
  deriving DecidableEq, Repr

def Styles.plain : Styles :=
  ⟨false, false, false, false, false, none, none⟩

structure Run where
  text : String
  styles : Styles
  deriving DecidableEq, Repr

def Run.plain (text : String) : Run :=
  ⟨text, .plain⟩

inductive LinkContent where
  | text (text : String)
  | runs (runs : List Run)
  deriving DecidableEq, Repr

structure Link where
  href : String
  content : LinkContent
  deriving DecidableEq, Repr

def Link.runs (link : Link) : List Run :=
  match link.content with
  | .text text => [.plain text]
  | .runs runs => runs

inductive InlineItem where
  | plain (text : String)
  | run (run : Run)
  | link (link : Link)
  deriving DecidableEq, Repr

inductive Inline where
  | text (text : String)
  | items (items : List InlineItem)
  deriving DecidableEq, Repr

def Inline.empty : Inline := .text ""

/-! ## Reading -/

def Styles.flag? : Option Json → Option Bool
  | none => some false
  | some value => value.bool?

def Styles.color? : Option Json → Option (Option String)
  | none | some .null => some none
  | some value => some <$> value.string?

def Styles.ofJson? (value : Json) : Option Styles := do
  let fields ← value.fields?
    ["bold", "italic", "underline", "strike", "code", "textColor", "backgroundColor"]
  match fields with
  | [bold, italic, underline, strike, code, textColor, backgroundColor] =>
      return {
        bold := ← flag? bold
        italic := ← flag? italic
        underline := ← flag? underline
        strike := ← flag? strike
        code := ← flag? code
        textColor := ← color? textColor
        backgroundColor := ← color? backgroundColor }
  | _ => none

def Run.ofJson? (value : Json) : Option Run := do
  match ← value.fields? ["text", "styles"] with
  | [some text, styles] =>
      return {
        text := ← text.string?
        styles := ← match styles with
          | none => some .plain
          | some styles => Styles.ofJson? styles }
  | _ => none

def LinkContent.ofJson? : Json → Option LinkContent
  | .string value => some (.text value)
  | .array values => .runs <$> values.mapM Run.ofJson?
  | _ => none

def Link.ofJson? (value : Json) : Option Link := do
  match ← value.fields? ["href", "content"] with
  | [some href, content] =>
      return {
        href := ← href.string?
        content := ← match content with
          | none => some (.text "")
          | some content => LinkContent.ofJson? content }
  | _ => none

inductive NodeTag where
  | text
  | link
  deriving DecidableEq, Repr

def NodeTag.ofJson? : Json → Option NodeTag
  | .string name =>
      if name = "text" then some .text else if name = "link" then some .link else none
  | .number (.integer value _ _) =>
      if value = 0 then some .text else if value = 1 then some .link else none
  | _ => none

/-- The tag of a node and the record behind it: one member of an object, or the head of an array. -/
def taggedRecord? : Json → Option (Json × Json)
  | .object members => do
      let tag ← (← Json.soleMember members "type")
      return (tag, .object (members.filter (·.1 ≠ "type")))
  | .array (tag :: fields) => some (tag, .array fields)
  | _ => none

def InlineItem.ofJson? : Json → Option InlineItem
  | .string text => some (.plain text)
  | value => do
      let (tag, fields) ← taggedRecord? value
      match ← NodeTag.ofJson? tag with
      | .text => .run <$> Run.ofJson? fields
      | .link => .link <$> Link.ofJson? fields

def Inline.ofJson? : Json → Option Inline
  | .string value => some (.text value)
  | .array values => .items <$> values.mapM InlineItem.ofJson?
  | _ => none

end BlockScribe
