import Simultaneous.Text.Hidden

/-!
Quoted text in messages: quotes and backslashes are escaped, and so are characters that cannot be
read off a text.
-/

namespace Simultaneous.Text

def hexDigits (n : Nat) : List Char := Nat.toDigits 16 n

def codePoint (c : Char) : List Char := "\\u\x7b".toList ++ hexDigits c.toNat ++ ['\x7d']

def quotedChar (c : Char) : List Char :=
  if c = '"' ∨ c = '\\' then ['\\', c]
  else if c = '\n' then ['\\', 'n']
  else if c = '\r' then ['\\', 'r']
  else if c = '\t' then ['\\', 't']
  else if c.toNat = 0 then ['\\', '0']
  else if isHidden c then codePoint c
  else [c]

def quoted (s : String) : String := String.ofList ('"' :: s.toList.flatMap quotedChar ++ ['"'])

end Simultaneous.Text
