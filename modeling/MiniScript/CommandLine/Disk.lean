/-!
# Reading files

The texts of a few files, found by a path that may go through their folders.
Around the current folder there is a system of which only the usual folders at
its top are known.
-/

namespace MiniScript.CommandLine

/-- Why a file cannot be read. -/
inductive FileFault where
  | notFound
  | notAFolder
  | isAFolder
  | nameTooLong
  | other (reason : String)
deriving DecidableEq, Repr

def FileFault.message : FileFault → String
  | .notFound => "No such file or directory (os error 2)"
  | .notAFolder => "Not a directory (os error 20)"
  | .isAFolder => "Is a directory (os error 21)"
  | .nameTooLong => "File name too long (os error 36)"
  | .other reason => reason

abbrev Reading := Except FileFault String

/-- Files by their paths below the current folder. -/
abbrev Disk := List (String × String)

/-- The parts of a path between slashes. -/
abbrev Parts := List (List Char)

/-- A folder, with the files and folders in it that are known. -/
structure Tree where
  files : List (Parts × String) := []
  folders : List Parts := []
  /-- Whether the folder is its own parent. -/
  isTop : Bool := false

namespace Tree

def isFolder (tree : Tree) (place : Parts) : Bool :=
  place.isEmpty || tree.folders.contains place ||
    tree.files.any fun file => place.length < file.1.length && place.isPrefixOf file.1

/-- The folder above; of the one above the current folder nothing is known. -/
def above (tree : Tree) : Tree :=
  if tree.isTop then tree else {}

/-- The most bytes that a part of a path can have. -/
def longestPart : Nat := 255

/-- Walks along the parts of a path; `place` is a folder, given by its parts. -/
def walk : Tree → Parts → Parts → Reading
  | _, _, [] => .error .isAFolder
  | tree, place, part :: rest =>
      if part.isEmpty || part = ['.'] then walk tree place rest
      else if part = ['.', '.'] then
        if place.isEmpty then walk tree.above [] rest else walk tree place.dropLast rest
      else if longestPart < (String.ofList part).utf8ByteSize then .error .nameTooLong
      else
        let next := place ++ [part]
        match tree.files.lookup next with
        | some text => if rest.isEmpty then .ok text else .error .notAFolder
        | none => if tree.isFolder next then walk tree next rest else .error .notFound

/-- The whole system, with an empty device. -/
def system : Tree where
  files := [(["dev".toList, "null".toList], "")]
  folders :=
    ["bin", "boot", "dev", "etc", "home", "lib", "media", "mnt", "opt", "proc", "root", "run",
      "sbin", "srv", "sys", "tmp", "usr", "var"].map fun name => [name.toList]
  isTop := true

end Tree

namespace Disk

def parts (path : List Char) : Parts :=
  match path with
  | [] => [[]]
  | '/' :: rest => [] :: parts rest
  | char :: rest =>
      match parts rest with
      | [] => [[char]]
      | part :: others => (char :: part) :: others

/-- The current folder. -/
def tree (disk : Disk) : Tree where
  files := disk.map fun (path, text) =>
    ((parts path.toList).filter fun part => !part.isEmpty && part != ['.'], text)

/-- The most bytes that a path can have. -/
def longestPath : Nat := 4095

/-- The text of the file at a path. -/
def read (disk : Disk) (path : String) : Reading :=
  if longestPath < path.utf8ByteSize then .error .nameTooLong
  else
    match path.toList with
    | [] => .error .notFound
    | '/' :: chars => Tree.system.walk [] (parts chars)
    | chars => disk.tree.walk [] (parts chars)

end Disk

namespace Path

/-- Drops slashes and single dots at the end of a path that is written backwards. -/
def trimBackwards : List Char → List Char
  | '/' :: rest => if rest.isEmpty then ['/'] else trimBackwards rest
  | '.' :: '/' :: rest => if rest.isEmpty then ['/'] else trimBackwards rest
  | path => path

/-- The folder that holds what a path names. -/
def folder (path : String) : String :=
  let backwards := trimBackwards path.toList.reverse
  match backwards.dropWhile (· ≠ '/') with
  | [] => ""
  | rest => String.ofList (trimBackwards rest).reverse

/-- A path inside a folder; a path that starts at the root stays as it is. -/
def join (folder path : String) : String :=
  match path.toList, folder.toList.reverse with
  | '/' :: _, _ => path
  | _, [] => path
  | _, '/' :: _ => folder ++ path
  | _, _ => folder ++ "/" ++ path

end Path

end MiniScript.CommandLine
