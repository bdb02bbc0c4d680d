import StyleFlip.Text.Basic

/-!
Texts between double quotes, for messages. Quotes and backslashes are escaped, and so are control characters, the usual
ones by a letter and the others by their number in braces; every other character stands for itself.
-/
namespace StyleFlip.Text

/-- A character as it is written between double quotes. -/
def quotedChar (c : Char) : Text :=
  if c = '\x22' then "\\\x22".toList
  else if c = '\\' then "\\\\".toList
  else if c = '\n' then "\\n".toList
  else if c = '\r' then "\\r".toList
  else if c = '\t' then "\\t".toList
  else if c.toNat = 0 then "\\0".toList
  else if c.toNat < 0x20 || (0x7f ≤ c.toNat && c.toNat < 0xa0) then
    "\\u\x7b".toList ++ Nat.toDigits 16 c.toNat ++ "\x7d".toList
  else [c]

def quoted (text : Text) : Text := '\x22' :: (text.flatMap quotedChar ++ ['\x22'])

end StyleFlip.Text
