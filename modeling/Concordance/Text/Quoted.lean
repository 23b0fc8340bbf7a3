import Concordance.Text.Printable

/-!
# Quoted Text

A text between double quotes, fit to be shown in a message.

What would end the quote or can not be seen is escaped: the quote itself, the
backslash, and every character without a glyph of its own. The common controls
have short escapes; the rest are written as their code point in hexadecimal.

## Main definitions

* `escape`: One character inside a quote.
* `quoted`: A whole text, quoted.
-/

namespace Concordance

namespace Text

/-- One character inside a quote. -/
def escape (c : Char) : List Char :=
  if c = '\x00' then ['\\', '0']
  else if c = '\t' then ['\\', 't']
  else if c = '\n' then ['\\', 'n']
  else if c = '\r' then ['\\', 'r']
  else if c = '"' then ['\\', '"']
  else if c = '\\' then ['\\', '\\']
  else if isExtender c || isUnprintable c then
    "\\u\x7b".toList ++ Nat.toDigits 16 c.toNat ++ ['}']
  else [c]

/-- The text between double quotes. -/
def quoted (text : String) : String :=
  String.ofList ('"' :: text.toList.flatMap escape ++ ['"'])

end Text

end Concordance
