import PropSat.CommandLine.FileTree

/-!
# Paths

A file system is a tree with a working directory in it.  A path is a list of
names between slashes; one that begins with a slash starts at the root, and
any other one in the working directory.
-/

namespace PropSat.CommandLine

/-- A tree of files and the directory in it from which paths start. -/
structure FileSystem where
  root : FileTree
  /-- The names that lead from the root to the working directory. -/
  workingDirectory : List String

namespace FileSystem

def maxPathLength : Nat := 4095

def names (system : FileSystem) (path : String) : List String :=
  let start := if path.startsWith "/" then [] else system.workingDirectory
  start ++ path.splitOn "/"

def find (system : FileSystem) (path : String) : Except FileError FileTree :=
  if maxPathLength < path.utf8ByteSize then .error .nameTooLong
  else if path.isEmpty then .error .notFound
  else system.root.follow [] (system.names path)

def readText (system : FileSystem) (path : String) :
    Except FileError String :=
  match system.find path with
  | .error error => .error error
  | .ok (.directory _) => .error .isADirectory
  | .ok (.file bytes) =>
      match String.fromUTF8? bytes with
      | some text => .ok text
      | none => .error .invalidText

def isDirectory (system : FileSystem) (path : String) : Bool :=
  match system.find path with
  | .ok (.directory _) => true
  | _ => false

def walk (system : FileSystem) (path : String) : List WalkEntry :=
  match system.find path with
  | .ok found => found.walkFrom path
  | .error _ => []

/-- A tree and a place in it, whose names are given latest first. -/
structure Site where
  tree : FileTree
  place : List String

/-- Goes on by one name, into a directory that is made if it is missing. -/
def Site.enter (site : Site) (name : String) : Site :=
  if name.isEmpty || name == "." then site
  else if name = ".." then { site with place := site.place.tail }
  else
    let place := name :: site.place
    ⟨site.tree.modifyAt id place.reverse, place⟩

def enterAll (system : FileSystem) (names : List String) : Site :=
  names.foldl Site.enter ⟨system.root, []⟩

/-- The file system with a directory at a path, and those on the way to it. -/
def makeDirectory (system : FileSystem) (path : String) : FileSystem :=
  { system with root := (system.enterAll (system.names path)).tree }

def writeFile (system : FileSystem) (path : String) (bytes : ByteArray) :
    FileSystem :=
  let names := system.names path
  let site := system.enterAll names.dropLast
  let place := (names.getLast?.toList ++ site.place).reverse
  { system with root := site.tree.modifyAt (fun _ => .file bytes) place }

end FileSystem

end PropSat.CommandLine
