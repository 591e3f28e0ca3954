import SealedMail.Text.Invisible

/-!
# Quoted text

How a character or a string is shown between quotes in messages and log lines. A backslash
escapes the backslash itself, the enclosing quote and the common control characters; the other
characters without a mark of their own are written as their code point in braces.
-/

namespace SealedMail.Text

/-- The lower-case hexadecimal digits of a code point, without leading zeros. -/
def codePoint (c : Char) : String := String.ofList (Nat.toDigits 16 c.toNat)

/-- One character between quotes of the kind `quote`. -/
def escape (quote c : Char) : String :=
  if c = quote ∨ c = '\\' then String.ofList ['\\', c]
  else if c = '\n' then "\\n"
  else if c = '\r' then "\\r"
  else if c = '\t' then "\\t"
  else if c = '\x00' then "\\0"
  else if isInvisible c then "\\u\x7b" ++ codePoint c ++ "\x7d"
  else String.singleton c

/-- A character between apostrophes. -/
def quotedChar (c : Char) : String := "'" ++ escape '\'' c ++ "'"

/-- A string between double quotes. -/
def quoted (text : String) : String :=
  "\"" ++ String.join (text.toList.map (escape '"')) ++ "\""

end SealedMail.Text
