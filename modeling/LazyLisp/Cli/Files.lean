/-!
# Files — source files and why they cannot be read

A path is followed from the working directory, one component after the other.  This file defines:

* `Fault`, the reasons why a file cannot be read, with the message for each;
* `Directory`, a working directory given by the files below it;
* `Directory.read`, the text of a file.
-/

namespace LazyLisp
namespace Cli

/-- Why a file cannot be read. -/
inductive Fault where
  | notFound
  | permissionDenied
  /-- The bytes of the file are not UTF-8. -/
  | notText
  | other (reason : String)
deriving DecidableEq, Repr

def Fault.message (path : String) : Fault → String
  | .notFound => "cannot find file '" ++ path ++ "'"
  | .permissionDenied => "permission denied reading '" ++ path ++ "'"
  | .notText => "'" ++ path ++ "' contains invalid UTF-8 data"
  | .other reason => "error reading '" ++ path ++ "': " ++ reason

/-- A working directory: the contents of files by their components. -/
structure Directory where
  files : List (List String × ByteArray)

namespace Directory

/-- The components of a path. -/
def components (path : String) : List String :=
  (path.toList.splitOn '/').map String.ofList

def ofList (files : List (String × ByteArray)) : Directory :=
  ⟨files.map fun file => (components file.1, file.2)⟩

/-- What a place in the tree holds. -/
inductive Node where
  | file (bytes : ByteArray)
  | directory
  | missing

/-- What the place with these components holds. -/
def node (directory : Directory) (place : List String) : Node :=
  match directory.files.lookup place with
  | some bytes => .file bytes
  | none =>
      if place.isEmpty || directory.files.any fun file => place.isPrefixOf file.1 then .directory
      else .missing

/-- Follow components from `place`; `none` stands for everything outside the working directory. -/
def follow (directory : Directory) (place : Option (List String)) :
    List String → Except Fault (Option (List String))
  | [] => .ok place
  | component :: rest =>
      match (place.map directory.node).getD .directory with
      | .missing => .error .notFound
      | .file _ => .error (.other "Not a directory (os error 20)")
      | .directory =>
          if component = "" ∨ component = "." then directory.follow place rest
          else if component = ".." then
            match place with
            | some (_ :: _) => directory.follow (place.map List.dropLast) rest
            | _ => directory.follow none rest
          else
            match place with
            | some place => directory.follow (some (place ++ [component])) rest
            | none => .error .notFound

/-- The bytes of a file. -/
def readBytes (directory : Directory) (path : String) : Except Fault ByteArray := do
  if path = "" then .error .notFound
  else
    let start := if path.startsWith "/" then none else some []
    match ← directory.follow start (components path) with
    | none => .error (.other "Is a directory (os error 21)")
    | some place =>
        match directory.node place with
        | .file bytes => .ok bytes
        | .directory => .error (.other "Is a directory (os error 21)")
        | .missing => .error .notFound

/-- The text of a file. -/
def read (directory : Directory) (path : String) : Except Fault String := do
  let bytes ← directory.readBytes path
  match String.fromUTF8? bytes with
  | some text => .ok text
  | none => .error .notText

end Directory
end Cli
end LazyLisp
