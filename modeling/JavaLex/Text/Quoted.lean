import JavaLex.Text.CombiningMark
import JavaLex.Text.Invisible

/-! A character as it is shown in messages: between single quotes, escaped where its own shape
would not be seen. -/

namespace JavaLex.Text

/-- The escape that gives the code point in hexadecimal digits. -/
def codePoint (c : Char) : String :=
  "\\u\x7b" ++ String.ofList (Nat.toDigits 16 c.toNat) ++ "\x7d"

def shown (c : Char) : String :=
  match c with
  | '\x00' => "\\0"
  | '\t' => "\\t"
  | '\r' => "\\r"
  | '\n' => "\\n"
  | '\'' => "\\'"
  | '\\' => "\\\\"
  | c => if isCombiningMark c || isInvisible c then codePoint c else c.toString

def quoted (c : Char) : String := "'" ++ shown c ++ "'"

end JavaLex.Text
