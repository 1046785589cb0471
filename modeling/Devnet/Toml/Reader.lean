import Devnet.Toml.Number
import Devnet.Toml.Table

namespace Devnet.Toml

/-- A key and its value; the parts of the key before the last one lead to its table. -/
structure Pair where
  path : List String
  key : String
  value : Toml

def Pair.make? (parts : List String) (value : Toml) : Option Pair :=
  match parts.reverse with
  | [] => none
  | key :: path => some ⟨path.reverse, key, value⟩

def addPair (entries : Entries) (pair : Pair) : Option Entries :=
  entries.addDotted pair.path pair.key pair.value

mutual

/-- A value; `room` is how many arrays and inline tables it may nest. -/
def readValue : (fuel room : Nat) → List Char → Option (Toml × List Char)
  | 0, _, _ => none
  | fuel + 1, room, text =>
    match room, text with
    | room + 1, '[' :: rest => (readItems fuel room rest).map fun (items, rest) => (.array items, rest)
    | room + 1, '\x7b' :: rest => do
      let (pairs, rest) ← readPairs fuel room rest
      let entries ← pairs.foldlM addPair []
      some (.table (entryValues entries), rest)
    | _, 't' :: 'r' :: 'u' :: 'e' :: rest => some (.bool true, rest)
    | _, 'f' :: 'a' :: 'l' :: 's' :: 'e' :: rest => some (.bool false, rest)
    | _, text => ((readString text).map fun (value, rest) => (.string value, rest)).or (readNumber text)

def readItems : (fuel room : Nat) → List Char → Option (List Toml × List Char)
  | 0, _, _ => none
  | fuel + 1, room, text => do
    match ← skipLines? false text with
    | ']' :: rest => some ([], rest)
    | text =>
      let (item, rest) ← readValue fuel room text
      match ← skipLines? false rest with
      | ']' :: rest => some ([item], rest)
      | ',' :: rest =>
        let (items, rest) ← readItems fuel room rest
        some (item :: items, rest)
      | _ => none

def readPairs : (fuel room : Nat) → List Char → Option (List Pair × List Char)
  | 0, _, _ => none
  | fuel + 1, room, text =>
    match skipGap text with
    | '\x7d' :: rest => some ([], rest)
    | text => readMorePairs fuel room text

def readMorePairs : (fuel room : Nat) → List Char → Option (List Pair × List Char)
  | 0, _, _ => none
  | fuel + 1, room, text => do
    let (pair, rest) ← readPair fuel room text
    match skipGap rest with
    | '\x7d' :: rest => some ([pair], rest)
    | ',' :: rest =>
      let (pairs, rest) ← readMorePairs fuel room rest
      some (pair :: pairs, rest)
    | _ => none

def readPair : (fuel room : Nat) → List Char → Option (Pair × List Char)
  | 0, _, _ => none
  | fuel + 1, room, text => do
    let (parts, rest) ← readKey text
    match rest with
    | '=' :: rest =>
      let (value, rest) ← readValue fuel room (skipGap rest)
      let pair ← Pair.make? parts value
      some (pair, rest)
    | _ => none

end

inductive Line
  | pair (pair : Pair)
  | table (path : List String)
  | tableItem (path : List String)

def readLine (text : List Char) : Option (Line × List Char) := do
  match text with
  | '[' :: '[' :: rest =>
    let (path, rest) ← readKey rest
    let rest ← (expect? ']' rest).bind (expect? ']')
    let rest ← closeLine? rest
    some (.tableItem path, rest)
  | '[' :: rest =>
    let (path, rest) ← readKey rest
    let rest ← expect? ']' rest
    let rest ← closeLine? rest
    some (.table path, rest)
  | text =>
    let (pair, rest) ← readPair (4 * text.length + 4) maxDepth text
    let rest ← closeLine? rest
    some (.pair pair, rest)

/-- The lines of a document that are not empty. Each takes at least one character. -/
def readLines : (fuel : Nat) → List Char → Option (List Line)
  | 0, _ => none
  | fuel + 1, text =>
    match skipGap text with
    | [] => some []
    | '\n' :: rest => readLines fuel rest
    | '\r' :: '\n' :: rest => readLines fuel rest
    | '#' :: rest => do
      let rest ← lineEnd? (rest.dropWhile isPrintable)
      readLines fuel rest
    | text => do
      let (line, rest) ← readLine text
      let lines ← readLines fuel rest
      some (line :: lines)

/-- A header that has been read: it is carried out when the pairs under it are known. -/
inductive Header
  | root
  | table (path : List String)
  | tableItem (path : List String)

def Header.place (pairs : List Pair) (entries : Entries) : Header → Option Entries
  | .root => fill entries
  | .table path => withLast path Entries.define
  | .tableItem path => withLast path Entries.append
where
  fill (entries : Entries) : Option Entries := pairs.foldlM addPair entries
  withLast (path : List String)
      (act : (Entries → Option Entries) → String → Entries → Option Entries) : Option Entries :=
    match path.reverse with
    | [] => none
    | key :: before => entries.changeAt (act fill key) before.reverse

def groupLines : List Line → List Pair × List (Header × List Pair)
  | [] => ([], [])
  | .pair pair :: lines => let (pairs, groups) := groupLines lines; (pair :: pairs, groups)
  | .table path :: lines => let (pairs, groups) := groupLines lines; ([], (.table path, pairs) :: groups)
  | .tableItem path :: lines =>
    let (pairs, groups) := groupLines lines
    ([], (.tableItem path, pairs) :: groups)

def assemble (lines : List Line) : Option Entries :=
  let (pairs, groups) := groupLines lines
  ((.root, pairs) :: groups).foldlM
    (fun (entries : Entries) (group : Header × List Pair) => group.1.place group.2 entries) []

/-- A mark of the byte order in front of a document does not belong to it. -/
def skipByteOrderMark : List Char → List Char
  | c :: rest => if c = Char.ofNat 0xFEFF then rest else c :: rest
  | [] => []

def ofString? (text : String) : Option (List (String × Toml)) := do
  let text := skipByteOrderMark text.toList
  let lines ← readLines (text.length + 1) text
  let entries ← assemble lines
  some (entryValues entries)

end Devnet.Toml
