import GridTick.Text.Hidden

/-!
# GridTick.Text.Quoted — text between quotation marks

A text is quoted for a message so that it stays on one line and every character of it can be told.  The quotation
mark, the backslash and the four common controls have short escapes; any other hidden character is written as its
code point in hexadecimal.

* `Quoted.escape`: one character.
* `Quoted.encode`: a whole text.
-/

namespace GridTick.Quoted

def escape (c : Char) : List Char :=
  match c with
  | '\x00' => ['\\', '0']
  | '\t' => ['\\', 't']
  | '\r' => ['\\', 'r']
  | '\n' => ['\\', 'n']
  | '"' => ['\\', '"']
  | '\\' => ['\\', '\\']
  | c =>
    if isHidden c then '\\' :: 'u' :: '\x7b' :: (Nat.toDigits 16 c.toNat ++ ['\x7d'])
    else [c]

def encode (s : String) : String :=
  String.ofList ('"' :: (s.toList.flatMap escape ++ ['"']))

end GridTick.Quoted
