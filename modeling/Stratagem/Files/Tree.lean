import Stratagem.Files.Path
import Stratagem.Text.Utf8

/-!
A tree of files, as commands see it: what stands at a path, reading text, writing text, and
making directories, with the errors of each.
-/

namespace Stratagem

inductive Contents where
  | text (s : String)
  | bytes (bs : List UInt8)
  deriving DecidableEq, Repr

inductive Entry where
  | directory
  | file (contents : Contents)
  deriving DecidableEq, Repr

inductive FileError where
  | missing (path : Path)
  | exists (path : Path)
  | notDirectory (path : Path)
  | isDirectory (path : Path)
  deriving DecidableEq, Repr

def FileError.message : FileError → String
  | .missing path => "[Errno 2] No such file or directory: " ++ Text.quoted path.text
  | .exists path => "[Errno 17] File exists: " ++ Text.quoted path.text
  | .notDirectory path => "[Errno 20] Not a directory: " ++ Text.quoted path.text
  | .isDirectory path => "[Errno 21] Is a directory: " ++ Text.quoted path.text

inductive ReadError where
  | file (reason : FileError)
  | undecodable (reason : Text.Utf8Error)
  deriving DecidableEq, Repr

/-- Every line break becomes a line feed. -/
def unifyBreaks : List Char → List Char
  | [] => []
  | '\r' :: '\n' :: rest => '\n' :: unifyBreaks rest
  | '\r' :: rest => '\n' :: unifyBreaks rest
  | c :: rest => c :: unifyBreaks rest

def Contents.decode : Contents → Except Text.Utf8Error String
  | .text s => .ok s
  | .bytes bs => Text.ofUtf8 bs

structure FileTree where
  entries : List (Path × Entry)
  deriving Repr

namespace FileTree

def empty : FileTree := ⟨[]⟩

/-- What stands at a path. -/
inductive Found where
  | nothing
  | directory
  | file (contents : Contents)
  | underFile
  deriving DecidableEq

def entry? (t : FileTree) (p : Path) : Option Entry := t.entries.lookup p

def isFile (t : FileTree) (p : Path) : Bool :=
  match t.entry? p with
  | some (.file _) => true
  | _ => false

/-- Whether something stands inside a directory. -/
def hasInside (t : FileTree) (p : Path) : Bool := t.entries.any fun e => e.1.ancestors.contains p

def find (t : FileTree) (path : Path) : Found :=
  let p := path.resolved
  if p.parts.isEmpty then .directory
  else match t.entry? p with
    | some .directory => .directory
    | some (.file contents) => .file contents
    | none =>
      if p.ancestors.any t.isFile then .underFile
      else if t.hasInside p then .directory
      else .nothing

def has (t : FileTree) (p : Path) : Bool :=
  match t.find p with
  | .directory | .file _ => true
  | _ => false

def isDirectory (t : FileTree) (p : Path) : Bool := t.find p = .directory

/-- The text of a file. -/
def read (t : FileTree) (p : Path) : Except ReadError String :=
  match t.find p with
  | .nothing => .error (.file (.missing p))
  | .directory => .error (.file (.isDirectory p))
  | .underFile => .error (.file (.notDirectory p))
  | .file contents =>
    match contents.decode with
    | .ok s => .ok (String.ofList (unifyBreaks s.toList))
    | .error reason => .error (.undecodable reason)

/-- Set an entry: in place if it is there, else at the end. -/
def set (t : FileTree) (p : Path) (e : Entry) : FileTree :=
  let p := p.resolved
  if (t.entry? p).isSome then ⟨t.entries.map fun old => if old.1 = p then (p, e) else old⟩
  else ⟨t.entries ++ [(p, e)]⟩

def write (t : FileTree) (p : Path) (s : String) : Except FileError FileTree :=
  match t.find p with
  | .directory => .error (.isDirectory p)
  | .underFile => .error (.notDirectory p)
  | .file _ => .ok (t.set p (.file (.text s)))
  | .nothing =>
    if t.isDirectory p.parent then .ok (t.set p (.file (.text s))) else .error (.missing p)

/-- Add to the end of a file, which is made if need be. -/
def append (t : FileTree) (p : Path) (s : String) : Except FileError FileTree :=
  match t.find p with
  | .file (.text old) => .ok (t.set p (.file (.text (old ++ s))))
  | .file (.bytes old) => .ok (t.set p (.file (.bytes (old ++ s.toUTF8.toList))))
  | _ => t.write p s

/-- Make a directory and all above it. -/
def makeDirectories (t : FileTree) (p : Path) : Except FileError FileTree :=
  match t.find p with
  | .directory => .ok t
  | .file _ => .error (.exists p)
  | .underFile => .error (.notDirectory p)
  | .nothing => .ok ((p.resolved.ancestors ++ [p]).foldl (fun t d =>
      if t.isDirectory d then t else t.set d .directory) t)

/-- The files of a tree that are not the same in an older one. -/
def changes (t old : FileTree) : List (Path × Contents) :=
  t.entries.filterMap fun (p, e) =>
    match e with
    | .file contents => if old.entry? p = some (.file contents) then none else some (p, contents)
    | .directory => none

end FileTree

end Stratagem
