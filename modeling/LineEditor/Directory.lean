import LineEditor.Text.Basic

/-!
# Directories

The files that a program can see, as a list of paths and what stands there, and reading one of them
as text. A path names its parts between slashes; empty parts and single dots do not count, and two
dots stand for the directory above.
-/

namespace LineEditor

/-- what stands at a path -/
inductive Entry
  | file (bytes : ByteArray)
  | directory

/-- the entries below a directory by the parts of their paths -/
structure Directory where
  entries : List (List Text × Entry)

/-- why a file cannot be read as text -/
inductive ReadFailure
  /-- nothing stands at the path -/
  | missing
  /-- a file stands where the path goes on -/
  | notDirectory
  | isDirectory
  /-- the bytes are no UTF-8 -/
  | notText
  /-- a part of the path, or the path, has too many bytes -/
  | tooLong
  /-- the path holds a NUL character -/
  | badName
deriving DecidableEq

/-- the message for a failure -/
def ReadFailure.message : ReadFailure → Text
  | missing => "No such file or directory (os error 2)".toList
  | notDirectory => "Not a directory (os error 20)".toList
  | isDirectory => "Is a directory (os error 21)".toList
  | notText => "stream did not contain valid UTF-8".toList
  | tooLong => "File name too long (os error 36)".toList
  | badName => "file name contained an unexpected NUL byte".toList

/-- the pieces of a text between the characters `sep` -/
def splitAt (sep : Char) : Text → List Text
  | [] => [[]]
  | c :: s =>
    match splitAt sep s with
    | [] => [[c]]
    | p :: ps => if c = sep then [] :: p :: ps else (c :: p) :: ps

/-- the parts of a path -/
def pathParts (path : Text) : List Text :=
  (splitAt '/' path).filter fun p => p ≠ [] ∧ p ≠ ['.']

/-- whether a path asks for a directory: its last part is empty or a single dot -/
def endsInDirectory (path : Text) : Bool :=
  (splitAt '/' path).getLast?.any fun p => p = [] ∨ p = ['.']

/-- the text of some bytes -/
def decode? (bytes : ByteArray) : Option Text := (String.fromUTF8? bytes).map String.toList

namespace Directory

/-- an empty directory -/
def empty : Directory := ⟨[]⟩

/-- what stands at the parts of a path; a directory also stands wherever an entry lies below -/
def find? (d : Directory) (parts : List Text) : Option Entry :=
  match d.entries.find? fun e => e.1 = parts with
  | some e => some e.2
  | none =>
    if parts = [] ∨ d.entries.any fun e => parts.isPrefixOf e.1 then some .directory else none

/-- what stands at the end of a path that has left the directory: of the rest of the system only the
directories that two dots lead to are seen -/
def beyond : List Text → Except ReadFailure Entry
  | [] => .ok .directory
  | p :: ps =>
    if p = ['.', '.'] then beyond ps
    else if 255 < p.utf8Size then .error .tooLong
    else .error .missing

/-- what stands at the end of a path of which the parts `before` are walked already. Two dots go one
step up. -/
def walk (d : Directory) (before : List Text) : List Text → Except ReadFailure Entry
  | [] =>
    match d.find? before with
    | some e => .ok e
    | none => .error .missing
  | p :: ps =>
    match d.find? before with
    | some .directory =>
      if p = ['.', '.'] then
        if before = [] then beyond ps else d.walk before.dropLast ps
      else if 255 < p.utf8Size then .error .tooLong
      else d.walk (before ++ [p]) ps
    | some (.file _) => .error .notDirectory
    | none => .error .missing

/-- the text of the file at a path. A path that starts with a slash leaves the directory. -/
def read (d : Directory) (path : Text) : Except ReadFailure Text :=
  if path.contains '\x00' then .error .badName
  else if path = [] then .error .missing
  else if 4096 ≤ path.utf8Size then .error .tooLong
  else
    let found :=
      if path.head? = some '/' then beyond (pathParts path) else d.walk [] (pathParts path)
    match found with
    | .error e => .error e
    | .ok .directory => .error .isDirectory
    | .ok (.file bytes) =>
      if endsInDirectory path then .error .notDirectory
      else
        match decode? bytes with
        | some s => .ok s
        | none => .error .notText

end Directory

end LineEditor
