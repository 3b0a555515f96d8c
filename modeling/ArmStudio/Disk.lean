import ArmStudio.Table

/-!
# Files

Files by path, and the directories that exist. A file is written only into a directory that
exists. Opening a path fails in two ways: nothing is found there, or a directory is.
-/

namespace ArmStudio

structure Disk where
  files : Table (List UInt8)
  dirs : List String
  deriving DecidableEq

namespace Disk

/-- The directory part of a path: what stands before the last slash. -/
def parent (path : String) : String :=
  String.ofList ((path.toList.reverse.dropWhile (· != '/')).drop 1).reverse

def fileName (path : String) : String :=
  String.ofList (path.toList.reverse.takeWhile (· != '/')).reverse

def join (folder name : String) : String :=
  if folder.isEmpty then name else folder ++ "/" ++ name

variable (d : Disk)

def read? (path : String) : Option (List UInt8) := d.files.find? path

/-- The path is that of a directory, with or without a slash at its end. -/
def isDir (path : String) : Bool :=
  path != "" && d.dirs.contains (if fileName path = "" then parent path else path)

def canWrite (path : String) : Bool :=
  d.dirs.contains (parent path) && fileName path != "" && !d.isDir path

def write (path : String) (content : List UInt8) : Disk :=
  { d with files := d.files.insert path content }

def makeDir (path : String) : Disk :=
  if d.dirs.contains path then d else { d with dirs := d.dirs ++ [path] }

end Disk

end ArmStudio
