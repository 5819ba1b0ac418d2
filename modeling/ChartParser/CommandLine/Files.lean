import Std.Data.ExtTreeMap

/-! Access to files, as a program needs it: opening, creating, reading and writing. A directory of
named byte sequences is one way to provide it. -/

namespace ChartParser.CommandLine

open Std (ExtTreeMap)

/-- Why a file cannot be opened, created or read as text. -/
inductive FileFault where
  | notFound
  | notUtf8
  | other (text : String)
deriving DecidableEq

def FileFault.message : FileFault → String
  | notFound => "No such file or directory (os error 2)"
  | notUtf8 => "stream did not contain valid UTF-8"
  | other text => text

/-- Files by name, and handles on open ones. Creating a file empties one that is there. -/
class Files (m : Type → Type) (Handle : outParam Type) where
  openFile : String → m (Except FileFault Handle)
  createFile : String → m (Except FileFault Handle)
  readAll : Handle → m (Except FileFault (List UInt8))
  writeAll : Handle → List UInt8 → m (Except FileFault Unit)

/-- Files by name. A name may lead through folders, each with a slash after it. -/
abbrev Directory := ExtTreeMap String (List UInt8)

/-- The folder that a name leads to: the name up to its last slash. -/
def folderOf (name : String) : List Char :=
  (name.toList.reverse.dropWhile (· != '/')).reverse

/-- Whether some file lies in a folder or in one of its subfolders. -/
def Directory.leadsThrough (files : Directory) (folder : List Char) : Bool :=
  files.keys.any fun name => folder.isPrefixOf name.toList

/-- Which files can be created. Folders, and who may write to them, are no part of a directory, so
it is for the file system that it lies in to say why a name is refused, if it is. -/
class Admission where
  refusal? : Directory → String → Option FileFault

/-- A file system without empty folders that takes every name as it is written: the folder that the
name leads to is the working directory, for a name without a slash, or it holds a file, and the name
is not that of a folder. -/
instance Admission.ofNames : Admission where
  refusal? files name :=
    let folder := folderOf name
    let isThere := folder.isEmpty || files.leadsThrough folder
    let namesFolder := folder == name.toList || files.leadsThrough (name.toList ++ ['/'])
    if isThere && !namesFolder then none else some .notFound

/-- In a directory a handle is the name of its file. -/
instance [Admission] : Files (StateM Directory) String where
  openFile name := do
    let files ← get
    pure (if files.contains name then .ok name else .error .notFound)
  createFile name := do
    let files ← get
    match Admission.refusal? files name with
    | some fault => pure (.error fault)
    | none =>
      set (files.insert name [])
      pure (.ok name)
  readAll name := do
    let files ← get
    pure (.ok (files[name]?.getD []))
  writeAll name bytes := do
    modify (·.insert name bytes)
    pure (.ok ())

end ChartParser.CommandLine
