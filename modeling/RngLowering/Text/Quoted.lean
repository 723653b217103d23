import RngLowering.Numeral
import RngLowering.Text.GraphemeExtend
import RngLowering.Text.Unprintable

set_option autoImplicit false

namespace RngLowering.Text

/-- A character by its code point: `\u` and the hexadecimal digits in braces. -/
def codePointEscape (c : Char) : String :=
  "\\u\x7b" ++ Numeral.hexDigits c.toNat ++ "\x7d"

/-- One character inside quotes. A combining mark is escaped, since it would join the text around
it. -/
def quotedChar (c : Char) : String :=
  if c = '\x00' then "\\0"
  else if c = '\t' then "\\t"
  else if c = '\r' then "\\r"
  else if c = '\n' then "\\n"
  else if c = '\\' then "\\\\"
  else if c = '"' then "\\\""
  else if isGraphemeExtend c || !isPrintable c then codePointEscape c
  else c.toString

/-- The text in double quotes. -/
def quoted (text : String) : String :=
  "\"" ++ String.join (text.toList.map quotedChar) ++ "\""

end RngLowering.Text
