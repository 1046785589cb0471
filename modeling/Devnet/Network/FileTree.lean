import Devnet.Fault.Basic

/-! Files and directories by name, and how a path leads to the text of one. -/
namespace Devnet

inductive FileTree
  | file (text : String)
  | directory (entries : List (String × FileTree))
  deriving Repr

inductive PathFault
  | missing
  | notDirectory
  | isDirectory
  | nameTooLong
  | zeroByte
  deriving DecidableEq, Repr

def PathFault.message : PathFault → String
  | .missing => "No such file or directory (os error 2)"
  | .notDirectory => "Not a directory (os error 20)"
  | .isDirectory => "Is a directory (os error 21)"
  | .nameTooLong => "File name too long (os error 36)"
  | .zeroByte => "file name contained an unexpected NUL byte"

namespace FileTree

def nameLimit : Nat := 255

def pathLimit : Nat := 4096

/-- Follows names from a place that lies in others, the innermost first. Above the outermost one there
is nothing but itself, and a file leads nowhere, not even to itself. -/
def follow (here : FileTree) (outer : List FileTree) : List String → Except PathFault FileTree
  | [] => .ok here
  | name :: names =>
    match here with
    | .file _ => .error .notDirectory
    | .directory entries =>
      if name = "" || name = "." then follow here outer names
      else if name = ".." then
        match outer with
        | [] => follow here [] names
        | above :: outer => follow above outer names
      else if nameLimit < name.utf8ByteSize then .error .nameTooLong
      else
        match entries.lookup name with
        | none => .error .missing
        | some found => follow found (here :: outer) names

/-- Follows a path from the root if it starts with a slash, and else from a directory under the root. -/
def find (root working : FileTree) (path : String) : Except PathFault FileTree :=
  let chars := path.toList
  if chars.contains '\x00' then .error .zeroByte
  else if pathLimit ≤ path.utf8ByteSize then .error .nameTooLong
  else if chars.isEmpty then .error .missing
  else if chars.head? == some '/' then follow root [] (path.splitOn "/")
  else follow working [root] (path.splitOn "/")

def read (root working : FileTree) (path : String) : Except PathFault String := do
  match ← find root working path with
  | .file text => return text
  | .directory _ => throw .isDirectory

def readConfig (root working : FileTree) (path : String) : Except ConfigFault String :=
  (read root working path).mapError fun cause => .unreadable path cause.message

end FileTree
end Devnet
