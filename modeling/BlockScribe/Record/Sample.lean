import BlockScribe.Record.Basic

/-!
# Sample records

Lines of input and the JSON values they are made of, for those who write
records rather than read them.
-/

namespace BlockScribe.Sample

def text (value : Json) : String :=
  value.canonical.compact

def recordLine (id blocks : Json) : String :=
  text (.object [("id", id), ("description", .string (text blocks))])

def emptyRecordLine (id : Json) : String :=
  text (.object [("id", id), ("description", .null)])

def block (type : String) (content : Json) : Json :=
  .object [("type", .string type), ("content", content)]

def paragraph (content : String) : Json :=
  block "paragraph" (.string content)

def heading (level : UInt8) (content : String) : Json :=
  .object [("type", .string "heading"),
    ("props", .object [("level", .ofUInt32 level.toUInt32)]), ("content", .string content)]

def styled (content : String) (styles : Json) : Json :=
  .object [("type", .string "text"), ("text", .string content), ("styles", styles)]

def link (href content : String) : Json :=
  .object [("type", .string "link"), ("href", .string href), ("content", .string content)]

end BlockScribe.Sample
