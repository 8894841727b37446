/-!
# Quoted text

Strings inside diagnostics are written with escapes, so that a printed string holds nothing but
visible ASCII characters and its end can be told from its contents.
-/

namespace ScriptHeap.Text

/-- The escape of one character. The three usual control characters have a letter, the two quotes
    and the backslash are marked by a backslash, visible ASCII stands for itself, and everything
    else is written as its code point in hexadecimal, without leading zeros, between braces. -/
def escapeChar (c : Char) : List Char :=
  match c with
  | '\t' => ['\\', 't']
  | '\r' => ['\\', 'r']
  | '\n' => ['\\', 'n']
  | '\'' => ['\\', '\'']
  | '"' => ['\\', '"']
  | '\\' => ['\\', '\\']
  | _ =>
    if ' ' ≤ c ∧ c ≤ '~' then [c]
    else '\\' :: 'u' :: '\x7b' :: Nat.toDigits 16 c.toNat ++ ['\x7d']

/-- A string with every character escaped. -/
def escape (s : String) : String :=
  String.ofList (s.toList.flatMap escapeChar)

/-- A string between double quotes, with every character escaped. -/
def quoted (s : String) : String :=
  "\"" ++ escape s ++ "\""

/-- Text between braces. -/
def braced (s : String) : String :=
  "\x7b" ++ s ++ "\x7d"

end ScriptHeap.Text
