import Devnet.Text.Hidden

namespace Devnet.Text

def escapeChar (quote c : Char) : List Char :=
  if c = Char.ofNat 0 then ['\\', '0']
  else if c = '\t' then ['\\', 't']
  else if c = '\n' then ['\\', 'n']
  else if c = '\r' then ['\\', 'r']
  else if c = quote || c = '\\' then ['\\', c]
  else if isHidden c then ['\\', 'u', '\x7b'] ++ Nat.toDigits 16 c.toNat ++ ['\x7d']
  else [c]

def quote (mark : Char) (text : List Char) : String :=
  String.ofList (mark :: text.flatMap (escapeChar mark) ++ [mark])

def quoted (text : String) : String := quote '\x22' text.toList

def quotedChar (c : Char) : String := quote '\x27' [c]

end Devnet.Text
