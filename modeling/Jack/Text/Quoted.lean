import Jack.Text.Invisible

/-!
Characters and texts as messages quote them. A character that a reader cannot see is written by its
code point.
-/

namespace Jack

/-- A code point in hexadecimal, lower case, without leading zeros. -/
def codePoint (c : Char) : String :=
  "\\u\x7b" ++ String.ofList (Nat.toDigits 16 c.toNat) ++ "\x7d"

/-- The character as it stands between quotes, quotes of its own apart. -/
def escapeChar : Char → String
  | '\x00' => "\\0"
  | '\t' => "\\t"
  | '\r' => "\\r"
  | '\n' => "\\n"
  | '\\' => "\\\\"
  | c => if isInvisible c then codePoint c else c.toString

/-- A character between single quotes. A double quote needs no escape there. -/
def quoteChar (c : Char) : String :=
  "'" ++ (if c = '\'' then "\\'" else escapeChar c) ++ "'"

/-- A text between double quotes. A single quote needs no escape there. -/
def quoteText (text : String) : String :=
  "\"" ++ String.join (text.toList.map fun c => if c = '"' then "\\\"" else escapeChar c) ++ "\""

end Jack
