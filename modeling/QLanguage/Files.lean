import QLanguage.Text.Lines

/-!
# Files

A path is followed component by component: `.` and empty components stay, `..` goes up, and every
component in front of another one has to be a directory. A tree of files grows by writing: a file
that is written replaces the one at its place, and the directories on its path are made.
-/

namespace QLanguage

/-- How the bytes behind a path are found. -/
abbrev FileReader := String → Option ByteArray

/-- The components of a path. -/
def components (path : String) : List String := (pieces '/' path.toList).map String.ofList

/-- The last component of a path. -/
def baseName (path : String) : String := (components path).getLastD ""

/-- The text of a file, or `none` if it cannot be read as text. -/
def readText? (read : FileReader) (path : String) : Option String := (read path).bind decodeText?

/-- A place in a tree, by the components of its path from the base directory. A place above the base
directory starts with `..`. -/
abbrev Place := List String

/-- The place that a component leads to. -/
def Place.move (place : Place) (component : String) : Place :=
  if component == "" || component == "." then place
  else if component == ".." then
    if place.all (· == "..") then place ++ [component] else place.dropLast
  else place ++ [component]

/-- The directories and files around a base directory. -/
structure FileTree where
  /-- The directories below the base directory. -/
  directories : List Place
  /-- The files, the latest first. -/
  files : List (Place × ByteArray)

namespace FileTree

/-- The tree of the base directory alone. -/
def empty : FileTree := ⟨[], []⟩

/-- Whether a directory lies at a place. -/
def isDirectory (tree : FileTree) (place : Place) : Bool :=
  place.all (· == "..") || tree.directories.contains place

/-- Follows components from a place. -/
def follow (tree : FileTree) : Place → List String → Option Place
  | place, [] => some place
  | place, component :: more =>
    if tree.isDirectory place then tree.follow (place.move component) more else none

/-- Makes a directory, unless it is there. -/
def makeDirectory (tree : FileTree) (place : Place) : FileTree :=
  if tree.isDirectory place then tree
  else { tree with directories := place :: tree.directories }

/-- Writes a file at the end of some components from a place, with the directories on the way. -/
def writeFrom (tree : FileTree) (bytes : ByteArray) : Place → List String → FileTree
  | place, [] => { tree with files := (place, bytes) :: tree.files }
  | place, component :: more =>
    (tree.makeDirectory place).writeFrom bytes (place.move component) more

/-- Writes a file under a relative path. -/
def write (tree : FileTree) (path : String) (bytes : ByteArray) : FileTree :=
  tree.writeFrom bytes [] (components path)

/-- The tree of files that are written one after another under relative paths. -/
def ofPaths (files : List (String × ByteArray)) : FileTree :=
  files.foldl (fun tree (path, bytes) => tree.write path bytes) .empty

/-- The most bytes that a path may have. -/
def longestPath : Nat := 4095

/-- Reads a file by its path. Absolute paths lead nowhere, and neither do paths that are empty or
too long. -/
def read (tree : FileTree) : FileReader := fun path =>
  if path.isEmpty || path.utf8ByteSize > longestPath || path.toList.head? == some '/' then none
  else (tree.follow [] (components path)).bind (tree.files.lookup ·)

end FileTree

end QLanguage
