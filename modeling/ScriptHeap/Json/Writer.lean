import ScriptHeap.Json.Basic

/-!
# Writing JSON text

Values are written in one of two ways: without any blanks, or spread over lines with an indent of
two blanks a level. Text beyond ASCII is written as it is.
-/

namespace ScriptHeap.Json

/-- The escape of one character in a string literal: the quote and the backslash, five control
    characters with a letter of their own, and the other control characters by code point. -/
def escapeChar (c : Char) : List Char :=
  match c with
  | '"' => ['\\', '"']
  | '\\' => ['\\', '\\']
  | '\x08' => ['\\', 'b']
  | '\t' => ['\\', 't']
  | '\n' => ['\\', 'n']
  | '\x0c' => ['\\', 'f']
  | '\r' => ['\\', 'r']
  | _ =>
    if c < ' ' then
      '\\' :: 'u' :: '0' :: '0' :: Nat.digitChar (c.toNat / 16) :: [Nat.digitChar (c.toNat % 16)]
    else [c]

/-- Whether a character is written with an escape. -/
def escapes (c : Char) : Bool :=
  decide (escapeChar c ≠ [c])

/-- Whether a string is written with an escape. -/
def hasEscape (s : String) : Bool :=
  s.toList.any escapes

/-- A string literal. -/
def literal (s : String) : String :=
  "\"" ++ String.ofList (s.toList.flatMap escapeChar) ++ "\""

/-- The literal of a string value. What has no text is written as an empty literal. -/
def textLiteral (s : Option String) : String :=
  literal (s.getD "")

mutual

/-- A value without blanks. -/
def compact : Json → String
  | .null => "null"
  | .bool b => if b then "true" else "false"
  | .number lit => lit
  | .string s => textLiteral s
  | .array items => "[" ++ ",".intercalate (compactItems items) ++ "]"
  | .object fields => "\x7b" ++ ",".intercalate (compactFields fields) ++ "\x7d"

def compactItems : List Json → List String
  | [] => []
  | v :: rest => compact v :: compactItems rest

def compactFields : List (FieldName × Json) → List String
  | [] => []
  | (key, v) :: rest => (textLiteral key.text ++ ":" ++ compact v) :: compactFields rest

end

/-- A new line at a level of indentation. -/
def lineAt (level : Nat) : String :=
  "\n" ++ String.ofList (List.replicate (2 * level) ' ')

/-- Parts between two brackets, one to a line. -/
def block (level : Nat) (opening closing : String) (parts : List String) : String :=
  if parts.isEmpty then opening ++ closing
  else
    opening ++ lineAt (level + 1) ++ ("," ++ lineAt (level + 1)).intercalate parts ++ lineAt level
      ++ closing

mutual

/-- A value spread over lines, at a level of indentation. -/
def prettyAt (level : Nat) : Json → String
  | .null => "null"
  | .bool b => if b then "true" else "false"
  | .number lit => lit
  | .string s => textLiteral s
  | .array items => block level "[" "]" (prettyItems (level + 1) items)
  | .object fields => block level "\x7b" "\x7d" (prettyFields (level + 1) fields)

def prettyItems (level : Nat) : List Json → List String
  | [] => []
  | v :: rest => prettyAt level v :: prettyItems level rest

def prettyFields (level : Nat) : List (FieldName × Json) → List String
  | [] => []
  | (key, v) :: rest => (textLiteral key.text ++ ": " ++ prettyAt level v) :: prettyFields level rest

end

/-- A value spread over lines. -/
def pretty (v : Json) : String :=
  prettyAt 0 v

end ScriptHeap.Json
