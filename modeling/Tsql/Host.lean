import Tsql.Text.Basic

/-!
What a program gets from outside: files and its input. The monad is free, so that one program runs
on the files of a computer and on files that are only data (`Files.host`).

The paths of files are names separated by slashes. A dot stands for the directory itself, two dots
for the one above.
-/

namespace Tsql.Path

/-- The most bytes that a path may have. -/
def limit : Nat := 4095

/-- The most bytes that a name in a path may have. -/
def nameLimit : Nat := 255

/-- What stands between the slashes. -/
def parts (path : String) : List String :=
  (Text.split (· = '/') path.toList).map String.ofList

/-- The names in a path, without the dots and repeated slashes that change nothing. -/
def names (path : String) : List String :=
  match parts path with
  | [] => []
  | first :: rest => first :: rest.filter fun p => p ≠ "" && p ≠ "."

def isAbsolute (path : String) : Bool :=
  path.toList.head? = some '/'

/-- A path, written backwards, without the slashes and dots at its end that change nothing. -/
def trimBackwards : List Char → List Char
  | ['/'] => ['/']
  | '/' :: cs => trimBackwards cs
  | ['.', '/'] => ['/']
  | '.' :: '/' :: cs => trimBackwards cs
  | cs => cs

/-- The directory that a path leads into; empty where the path is a name alone. -/
def directory (path : String) : String :=
  String.ofList (trimBackwards (path.toList.reverse.dropWhile (· ≠ '/'))).reverse

/-- A path as seen from a directory. -/
def within (dir path : String) : String :=
  if isAbsolute path || dir.isEmpty then path
  else if dir.toList.getLast? = some '/' then dir ++ path
  else dir ++ "/" ++ path

end Tsql.Path

namespace Tsql

/-- Why a file cannot be read as text. -/
inductive FileError
  | notFound
  | notDirectory
  | isDirectory
  | denied
  | longName
  | notText
  deriving DecidableEq, Repr

namespace FileError

def message : FileError → String
  | notFound => "No such file or directory (os error 2)"
  | notDirectory => "Not a directory (os error 20)"
  | isDirectory => "Is a directory (os error 21)"
  | denied => "Permission denied (os error 13)"
  | longName => "File name too long (os error 36)"
  | notText => "stream did not contain valid UTF-8"

/-- Whether there is a file all the same. -/
def isPresent : FileError → Bool
  | denied => true
  | notText => true
  | _ => false

end FileError

structure Host (m : Type → Type) where
  readFile : String → m (Except FileError String)
  readInput : m (Except FileError String)

/-- Whether a path leads to a file. -/
def Host.isFile {m : Type → Type} [Monad m] (host : Host m) (path : String) : m Bool := do
  match ← host.readFile path with
  | .ok _ => return true
  | .error e => return e.isPresent

/-- The host of a program that asks for a text: of the input if the path is a hyphen, else of a
file. -/
def Host.readSource {m : Type → Type} (host : Host m) (path : String) :
    m (Except FileError String) :=
  if Path.names path = ["-"] then host.readInput else host.readFile path

/-- Files under one directory, by the names that lead to them. -/
structure Files where
  entries : List (List String × String) := []

namespace Files

def ofList (files : List (String × String)) : Files :=
  ⟨files.map fun (path, text) => ((Path.names path).filter (· ≠ "."), text)⟩

def find? (fs : Files) (names : List String) : Option String :=
  fs.entries.lookup names

/-- Whether the names lead to a directory with something in it. -/
def hasDirectory (fs : Files) (names : List String) : Bool :=
  fs.entries.any fun e => names.length < e.1.length && names.isPrefixOf e.1

/-- What is missing where a name leads to nothing. -/
def missing (name : String) : FileError :=
  if Path.nameLimit < name.utf8ByteSize then .longName else .notFound

/-- Why there is no file at a path from outside the directory. -/
def outside (names : List String) : FileError :=
  match names.filter fun n => n ≠ "" && n ≠ "." && n ≠ ".." with
  | [] => .isDirectory
  | name :: _ => missing name

/-- The file that a path leads to from a directory. -/
def walk (fs : Files) (dir : List String) : List String → Except FileError String
  | [] => .error .isDirectory
  | "" :: rest => walk fs dir rest
  | "." :: rest => walk fs dir rest
  | ".." :: rest => if dir.isEmpty then .error (outside rest) else walk fs dir.dropLast rest
  | name :: rest =>
    let here := dir ++ [name]
    match fs.find? here with
    | some text => if rest.isEmpty then .ok text else .error .notDirectory
    | none => if fs.hasDirectory here then walk fs here rest else .error (missing name)

def read (fs : Files) (path : String) : Except FileError String :=
  if Path.limit < path.utf8ByteSize then .error .longName
  else if path.isEmpty then .error .notFound
  else if Path.isAbsolute path then .error (outside (Path.parts path))
  else fs.walk [] (Path.parts path)

/-- A host with these files and the given input. -/
def host (fs : Files) (input : String) : Host Id where
  readFile := fs.read
  readInput := .ok input

end Files

end Tsql
