/-!
# Files and directories

A directory with all that is in it as a value: how names are followed through
it, how parts of it are changed, and in which order its files are found.

A name that is empty or a single dot stays where it is, and two dots lead to
the directory above, which for the outermost one is itself.  Only a directory
can be left by any of these.
-/

namespace PropSat.CommandLine

inductive FileError where
  /-- The system refuses, in its words and with its number. -/
  | system (text : String) (code : Nat)
  | invalidText
  deriving DecidableEq

namespace FileError

def notFound : FileError := .system "No such file or directory" 2

def notADirectory : FileError := .system "Not a directory" 20

def isADirectory : FileError := .system "Is a directory" 21

/-- The path, or a name in it, has more bytes than any file's. -/
def nameTooLong : FileError := .system "File name too long" 36

def message : FileError → String
  | .system text code => s!"{text} (os error {code})"
  | .invalidText => "stream did not contain valid UTF-8"

end FileError

structure WalkEntry where
  /-- Its path, beginning with the one that the walk started from. -/
  path : String
  isFile : Bool
  deriving DecidableEq

namespace WalkEntry

def fileName (path : String) : String :=
  (path.splitOn "/").getLastD path

/-- Whether a path ends in a dot and the given word, with something before
the dot. -/
def hasExtension (path word : String) : Bool :=
  let name := fileName path
  let ending := "." ++ word
  name.endsWith ending && name != ending

def join (directory name : String) : String :=
  if directory.endsWith "/" then directory ++ name
  else directory ++ "/" ++ name

end WalkEntry

inductive FileTree where
  | file (bytes : ByteArray)
  | directory (entries : List (String × FileTree))

namespace FileTree

def empty : FileTree := .directory []

def child? (entries : List (String × FileTree)) (name : String) :
    Option FileTree :=
  (entries.find? (·.1 == name)).map (·.2)

def setEntry (entries : List (String × FileTree)) (name : String)
    (tree : FileTree) : List (String × FileTree) :=
  (name, tree) :: entries.filter (·.1 != name)

/-- The tree with the part at some names changed.  Directories that are
missing on the way are made. -/
def modifyAt (change : FileTree → FileTree) :
    List String → FileTree → FileTree
  | [], tree => change tree
  | name :: rest, tree =>
      let entries := match tree with
        | .file _ => []
        | .directory entries => entries
      let below := (child? entries name).getD empty
      .directory (setEntry entries name (modifyAt change rest below))

def maxNameLength : Nat := 255

/-- Follows names, with the directories above, innermost first. -/
def follow (tree : FileTree) (above : List FileTree) :
    List String → Except FileError FileTree
  | [] => .ok tree
  | name :: rest =>
      match tree with
      | .file _ => .error .notADirectory
      | .directory entries =>
          if name.isEmpty || name == "." then follow tree above rest
          else if name = ".." then
            match above with
            | [] => follow tree [] rest
            | parent :: others => follow parent others rest
          else if maxNameLength < name.utf8ByteSize then .error .nameTooLong
          else
            match child? entries name with
            | some next => follow next (tree :: above) rest
            | none => .error .notFound

mutual

/-- Everything in a tree whose path is given, a directory before its entries
and these by increasing name. -/
def walkFrom (path : String) : FileTree → List WalkEntry
  | .file _ => [⟨path, true⟩]
  | .directory entries =>
      ⟨path, false⟩ ::
        ((walkEntries path entries).mergeSort fun first second =>
          decide (first.1 ≤ second.1)).flatMap (·.2)

def walkEntries (path : String) :
    List (String × FileTree) → List (String × List WalkEntry)
  | [] => []
  | (name, tree) :: rest =>
      (name, walkFrom (WalkEntry.join path name) tree) ::
        walkEntries path rest

end

end FileTree

end PropSat.CommandLine
