import BlockScribe.Text.Hex
import BlockScribe.Text.Visible

/-!
# Quotations in messages

A text or a character inside a message, so written that what does not show can
be told: a few controls have names, a backslash and the enclosing quote get a
backslash, and every other hidden character is given by its code point.
-/

namespace BlockScribe

def quoteChar (mark c : Char) : List Char :=
  match c with
  | '\x00' => ['\\', '0']
  | '\t' => ['\\', 't']
  | '\r' => ['\\', 'r']
  | '\n' => ['\\', 'n']
  | '\\' => ['\\', '\\']
  | c =>
      if c = mark then ['\\', c]
      else if isVisible c then [c]
      else ['\\', 'u', '\x7b'] ++ (Hex.ofNat c.toNat).toList ++ ['\x7d']

def quotedChar (c : Char) : String :=
  String.ofList ('\'' :: quoteChar '\'' c ++ ['\''])

def quotedText (text : String) : String :=
  String.ofList ('"' :: text.toList.flatMap (quoteChar '"') ++ ['"'])

end BlockScribe
