import ReplicaCensus.OrderedMap
import ReplicaCensus.Text.Lines
import ReplicaCensus.Text.Quoted
/-!
# File trees -- directories and files, and what goes wrong with paths

A tree gives an entry to some paths, a path being the list of names from the root, which is always
there and is the current directory, too. Operations take path texts, which are walked name by name,
so a slash in front of a text makes no difference.
-/

namespace ReplicaCensus

/-- What stands at a path. -/
inductive FileEntry where
  | dir
  | file (content : Bytes)
  deriving DecidableEq, Repr

abbrev FileTree := OrderedMap (List String) FileEntry

/-- Why an operation on a path fails. -/
inductive PathError where
  | absent
  | taken
  | notDirectory
  | isDirectory
  | nameTooLong
  | zeroCharacter
  deriving DecidableEq, Repr

/-- A failed operation and the path it was asked for. -/
structure FileError where
  error : PathError
  path : String
  deriving DecidableEq, Repr

namespace FileError

def kind (e : FileError) : String :=
  match e.error with
  | .absent => "FileNotFoundError"
  | .taken => "FileExistsError"
  | .notDirectory => "NotADirectoryError"
  | .isDirectory => "IsADirectoryError"
  | .nameTooLong => "OSError"
  | .zeroCharacter => "ValueError"

def message (e : FileError) : String :=
  match e.error with
  | .absent => "[Errno 2] No such file or directory: " ++ Text.quoted e.path
  | .taken => "[Errno 17] File exists: " ++ Text.quoted e.path
  | .notDirectory => "[Errno 20] Not a directory: " ++ Text.quoted e.path
  | .isDirectory => "[Errno 21] Is a directory: " ++ Text.quoted e.path
  | .nameTooLong => "[Errno 36] File name too long: " ++ Text.quoted e.path
  | .zeroCharacter => "embedded null byte"

def isSystem (e : FileError) : Bool := e.error ≠ .zeroCharacter

end FileError

namespace FileTree

def maxName : Nat := 255

def maxPath : Nat := 4095

/-- Where a path text leads: to an entry, or to a free name in a directory that exists. -/
inductive Place where
  | there (path : List String) (entry : FileEntry)
  | free (path : List String)
  deriving DecidableEq, Repr

def entry? (tree : FileTree) (path : List String) : Option FileEntry :=
  if path.isEmpty then some .dir else tree.get? path

/-- Walks on from an entry. An empty name and a dot stay where they are, two dots go back, and from
the root they lead to the root. -/
def walk (tree : FileTree) : List String → FileEntry → List String → Except PathError Place
  | path, entry, [] => .ok (.there path entry)
  | _, .file _, _ :: _ => .error .notDirectory
  | path, .dir, name :: rest =>
    if name = "" ∨ name = "." then walk tree path .dir rest
    else if name = ".." then walk tree path.dropLast .dir rest
    else if maxName < name.utf8ByteSize then .error .nameTooLong
    else
      let path := path ++ [name]
      match tree.entry? path with
      | some entry => walk tree path entry rest
      -- a slash at the end of a free name does no harm
      | none => if rest.all (· = "") then .ok (.free path) else .error .absent

def names (path : String) : List String := (Text.splitAtChar '/' path.toList).map String.ofList

def locate (tree : FileTree) (path : String) : Except PathError Place :=
  if path.toList.any fun c => c.toNat = 0 then .error .zeroCharacter
  else if path.isEmpty then .error .absent
  else if maxPath < path.utf8ByteSize then .error .nameTooLong
  else walk tree [] .dir (names path)

def join (directory name : String) : String :=
  if name.startsWith "/" then name
  else if directory.isEmpty || directory.endsWith "/" then directory ++ name
  else directory ++ "/" ++ name

def has (tree : FileTree) (path : String) : Bool :=
  match tree.locate path with
  | .ok (.there ..) => true
  | _ => false

def hasDir (tree : FileTree) (path : String) : Bool :=
  match tree.locate path with
  | .ok (.there _ .dir) => true
  | _ => false

def read (tree : FileTree) (path : String) : Except FileError Bytes :=
  match tree.locate path with
  | .ok (.there _ (.file content)) => .ok content
  | .ok (.there _ .dir) => .error ⟨.isDirectory, path⟩
  | .ok (.free _) => .error ⟨.absent, path⟩
  | .error e => .error ⟨e, path⟩

def write (tree : FileTree) (path : String) (content : Bytes) : Except FileError FileTree :=
  match tree.locate path with
  | .ok (.there place (.file _)) => .ok (tree.insert place (.file content))
  | .ok (.there _ .dir) => .error ⟨.isDirectory, path⟩
  | .ok (.free place) => .ok (tree.insert place (.file content))
  | .error e => .error ⟨e, path⟩

def remove (tree : FileTree) (path : String) : Except FileError FileTree :=
  match tree.locate path with
  | .ok (.there place (.file _)) => .ok (tree.erase place)
  | .ok (.there _ .dir) => .error ⟨.isDirectory, path⟩
  | .ok (.free _) => .error ⟨.absent, path⟩
  | .error e => .error ⟨e, path⟩

def rename (tree : FileTree) (source target : String) : Except FileError FileTree :=
  match tree.read source with
  | .error e => .error e
  | .ok content =>
    match tree.remove source with
    | .error e => .error e
    | .ok tree => tree.write target content

def makeDir (tree : FileTree) (path : String) : Except FileError FileTree :=
  match tree.locate path with
  | .ok (.there ..) => .error ⟨.taken, path⟩
  | .ok (.free place) => .ok (tree.insert place .dir)
  | .error e => .error ⟨e, path⟩

/-- A path text without its last name, and that name; a slash at the end makes the name empty. -/
def splitPath (path : String) : String × String :=
  let reversed := path.toList.reverse
  let tail := (reversed.takeWhile (· ≠ '/')).reverse
  let before := reversed.dropWhile (· ≠ '/')
  let head := before.dropWhile (· = '/')
  -- a text of slashes alone keeps them
  (String.ofList (if head.isEmpty then before else head).reverse, String.ofList tail)

/-- Makes a directory and those above it that are missing; one that is there already is left as it
is. The result has what was made before a fault. The first argument bounds the number of names. -/
def makeDirsWithin : Nat → FileTree → String → FileTree × Option FileError
  | 0, tree, _ => (tree, none)
  | depth + 1, tree, path =>
    let (head, tail) := splitPath path
    -- a slash at the end is no name of its own
    let (head, tail) := if tail.isEmpty then splitPath head else (head, tail)
    let (tree, fault) :=
      if !head.isEmpty && !tail.isEmpty && !tree.has head then makeDirsWithin depth tree head
      else (tree, none)
    match fault with
    | some e => (tree, some e)
    | none =>
      -- a dot stands for the directory that has just been made
      if tail = "." && tree.hasDir head then (tree, none)
      else
        match tree.makeDir path with
        | .ok tree => (tree, none)
        -- what is there already may be a directory, and then nothing is wrong
        | .error e => (tree, if tree.hasDir path then none else some e)

def makeDirs (tree : FileTree) (path : String) : FileTree × Option FileError :=
  makeDirsWithin (path.length + 1) tree path

/-- The entries below a directory, each with its path text behind `start`. -/
def under (tree : FileTree) (start : String) (directory : List String) :
    List (String × FileEntry) :=
  tree.entries.filterMap fun (path, entry) =>
    if directory.isPrefixOf path && directory.length < path.length then
      some (start ++ "/" ++ String.intercalate "/" (path.drop directory.length), entry)
    else none

end FileTree

end ReplicaCensus
