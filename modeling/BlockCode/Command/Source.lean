import BlockCode.Text.Quoted
import BlockCode.Text.Utf8

/-! Source files: how their paths are read, what can go wrong, and how their bytes become text. -/

namespace BlockCode

/-- A path in its shortest spelling: its root and the names from there on. -/
structure SourcePath where
  /-- Empty for a path from the working folder. -/
  root : String
  names : List String
deriving DecidableEq, Repr

namespace SourcePath

/-- Splits characters at every slash. -/
def splitSlashes : List Char → List (List Char)
  | [] => [[]]
  | c :: cs =>
    -- The parts behind come first, and the character joins the first of them.
    match splitSlashes cs with
    | [] => [[]]
    | part :: parts => if c = '/' then [] :: part :: parts else (c :: part) :: parts

/-- The slashes that make a path absolute: exactly two are kept, any other number counts as one. -/
def rootOf (cs : List Char) : String :=
  -- Only two slashes have a meaning of their own.
  match (cs.takeWhile (· == '/')).length with
  | 0 => ""
  | 2 => "//"
  | _ => "/"

/-- Reads a path; empty names and single dots mean nothing. -/
def ofText (text : String) : SourcePath :=
  -- Dots for the folder around stay, since what they lead to is not known yet.
  let names := (splitSlashes text.toList).map String.ofList
  ⟨rootOf text.toList, names.filter fun name => name != "" && name != "."⟩

/-- The text of a path. -/
def text (p : SourcePath) : String :=
  -- A path with no names left is the folder itself.
  let joined := p.root ++ String.intercalate "/" p.names
  if joined = "" then "." else joined

end SourcePath

/-- Why a file cannot be read. -/
inductive ReadFault where
  | absent
  | notFolder
  | isFolder
  | nameTooLong
  /-- Any other reason the system gives, with its number. -/
  | system (number : Nat) (reason : String)
  /-- The bytes are no text. -/
  | encoding (fault : Text.Utf8Fault)
deriving DecidableEq, Repr

/-- What a fault says about a path. -/
def ReadFault.message (path : SourcePath) (fault : ReadFault) : String :=
  -- Every message has a number and a reason in it, and quotes the path.
  let about (number : Nat) (reason : String) : String :=
    s!"[Errno {number}] {reason}: {Text.quoted path.text}"
  match fault with
  | absent => about 2 "No such file or directory"
  | notFolder => about 20 "Not a directory"
  | isFolder => about 21 "Is a directory"
  | nameTooLong => about 36 "File name too long"
  | system number reason => about number reason
  | encoding fault => fault.message

/-- Something with a name in a folder. -/
inductive FolderEntry where
  | file (bytes : List UInt8)
  | folder (entries : List (String × FolderEntry))

/-- The names of a folder. -/
abbrev Folder := List (String × FolderEntry)

namespace Folder

/-- Names with more bytes than this are refused. -/
def maxName : Nat := 255

/-- Paths with as many bytes as this are refused. -/
def maxPath : Nat := 4096

/-- Walks from a folder along some names. The folders around it come from the inside out; beyond
them nothing is known but that there are folders. -/
def walk (here : Folder) (around : List Folder) : List String → Except ReadFault (List UInt8)
  | [] => .error .isFolder
  | name :: names =>
    -- The folder around is taken from those that were walked through.
    if name = ".." then
      match around with
      | [] => walk [] [] names
      | parent :: around => walk parent around names
    else if name.utf8ByteSize > maxName then .error .nameTooLong
    else
      -- A file can only come last, and a folder only before something else.
      match here.lookup name, names with
      | none, _ => .error .absent
      | some (.file bytes), [] => .ok bytes
      | some (.file _), _ :: _ => .error .notFolder
      | some (.folder entries), names => walk entries (here :: around) names

/-- The bytes of the file at a path, seen from a working folder. -/
def read (working : Folder) (path : SourcePath) : Except ReadFault (List UInt8) :=
  -- The length of the whole path is looked at before any name in it.
  if path.text.utf8ByteSize ≥ maxPath then .error .nameTooLong
  else if path.root = "" then walk working [] path.names
  else walk [] [] path.names

end Folder

/-- The source text that some bytes hold, with line feeds for all its line ends. -/
def sourceText (bytes : List UInt8) : Except ReadFault String :=
  -- The bytes have to be a text before its line ends can be looked at.
  match Text.decodeUtf8 bytes with
  | .error fault => .error (.encoding fault)
  | .ok cs => .ok (String.ofList (Text.unifyLineEnds cs))

end BlockCode
