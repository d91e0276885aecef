import Compendium.Text.Printable

/-!
# Quotations in messages

A message quotes a text between quotation marks, with everything escaped that a reader could not
tell from the message or could not see.
-/

namespace Compendium.Text

/-- A code point between braces, in lower-case hexadecimal digits. -/
def numberedChar (c : Char) : List Char :=
  '\\' :: 'u' :: '\x7b' :: Nat.toDigits 16 c.toNat ++ ['\x7d']

def quotedChar (c : Char) : List Char :=
  if c = '"' then ['\\', '"']
  else if c = '\\' then ['\\', '\\']
  else if c = '\n' then ['\\', 'n']
  else if c = '\r' then ['\\', 'r']
  else if c = '\t' then ['\\', 't']
  else if c = '\x00' then ['\\', '0']
  else if isPrintable c then [c]
  else numberedChar c

/-- A text as messages quote it. -/
def quotation (s : String) : String :=
  String.ofList ('"' :: s.toList.flatMap quotedChar ++ ['"'])

end Compendium.Text
