/-
This file models the files that a command line works on: a tree of named contents with a
working directory. Paths that start with a slash are read from the root and all others from
the working directory; empty names and single points on a path count for nothing, and two
points lead one directory up.
-/

import ScriptEngine.Text

namespace ScriptEngine

/-- Files by their path from the root, and the directory that other paths start in. -/
structure FileTree where
  files : List (Text × Text)
  working : List Text := []

namespace FileTree

/-- Follows one name of a path from a directory. -/
def follow (place : List Text) (name : Text) : List Text :=
  if name = [] ∨ name = Text.ofString "." then place
  else if name = Text.ofString ".." then place.dropLast
  else place ++ [name]

/-- The names that lead from the root to what a path means. -/
def resolve (tree : FileTree) (path : Text) : List Text :=
  (path.splitOn 47).foldl follow (if path.head? = some 47 then [] else tree.working)

/-- The key of a file in the tree: the names that lead to it. -/
def key (names : List Text) : Text :=
  Text.join [47] names

/-- What a file holds, if there is one. -/
def content (tree : FileTree) (path : Text) : Option Text :=
  tree.files.lookup (key (tree.resolve path))

/-- Whether names lead to a directory: the working one, or one with something in it. -/
def isDirectory (tree : FileTree) (names : List Text) : Bool :=
  names = tree.working || tree.files.any fun file => (key names ++ [47]).isPrefixOf file.1

/-- Whether a file can be written at a path: its directory exists, and it is no directory
itself. -/
def writable (tree : FileTree) (path : Text) : Bool :=
  path ≠ [] && path.getLast? ≠ some 47 && tree.isDirectory (tree.resolve path).dropLast &&
    !tree.isDirectory (tree.resolve path)

/-- The tree after a file was written. -/
def write (tree : FileTree) (path content : Text) : FileTree :=
  { tree with files := (key (tree.resolve path), content) :: tree.files }

end FileTree

end ScriptEngine
