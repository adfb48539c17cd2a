import BlockScribe.Json.Basic

/-!
# Block types

The types of blocks that a document holds, what content each can have, and the
props that each carries unless a block says otherwise.
-/

namespace BlockScribe

inductive BlockType where
  | paragraph
  | heading
  | bulletListItem
  | numberedListItem
  | checkListItem
  | toggleListItem
  | codeBlock
  | quote
  | table
  | image
  | video
  | audio
  | file
  deriving DecidableEq, Repr

inductive ContentKind where
  | inline
  | table
  | none
  deriving DecidableEq, Repr

namespace BlockType

def all : List BlockType :=
  [.paragraph, .heading, .bulletListItem, .numberedListItem, .checkListItem, .toggleListItem,
    .codeBlock, .quote, .table, .image, .video, .audio, .file]

def name : BlockType → String
  | .paragraph => "paragraph"
  | .heading => "heading"
  | .bulletListItem => "bulletListItem"
  | .numberedListItem => "numberedListItem"
  | .checkListItem => "checkListItem"
  | .toggleListItem => "toggleListItem"
  | .codeBlock => "codeBlock"
  | .quote => "quote"
  | .table => "table"
  | .image => "image"
  | .video => "video"
  | .audio => "audio"
  | .file => "file"

def ofName? (name : String) : Option BlockType :=
  all.find? (·.name = name)

@[simp] theorem ofName?_name (type : BlockType) : ofName? type.name = some type := by
  cases type <;> decide

theorem name_of_ofName? {name : String} {type : BlockType} (h : ofName? name = some type) :
    type.name = name := by
  simpa using List.find?_some h

def contentKind : BlockType → ContentKind
  | .table => .table
  | .image | .video | .audio | .file => .none
  | _ => .inline

/-! ## Default props -/

def colors : List (String × Json) :=
  [("textColor", .string "default"), ("backgroundColor", .string "default")]

def alignment : String × Json :=
  ("textAlignment", .string "left")

def attachment : List (String × Json) :=
  [("backgroundColor", .string "default"), ("url", .string ""), ("name", .string ""),
    ("caption", .string "")]

def defaultProps : BlockType → List (String × Json)
  | .paragraph | .bulletListItem | .numberedListItem | .toggleListItem => colors ++ [alignment]
  | .heading => colors ++ [alignment, ("level", .ofUInt32 1)]
  | .checkListItem => colors ++ [alignment, ("checked", .bool false)]
  | .codeBlock => [("language", .string "text")]
  | .quote => colors
  | .table => [("textColor", .string "default")]
  | .image | .video =>
      attachment ++ [("showPreview", .bool true), ("previewWidth", .ofUInt32 512), alignment]
  | .audio => attachment ++ [("showPreview", .bool true)]
  | .file => attachment

end BlockType

end BlockScribe
