import ArithAsm.Path

/-!
Files as commands see them: reading and writing whole files by path. The
operations are a record, so that commands run on the real file system as well
as on a `Directory`, a tree of files held as a value.
-/

namespace ArithAsm

inductive FileErrorReason where
  | notFound
  | notDirectory
  | isDirectory
  | other (description : Text)
  deriving DecidableEq, Repr

def FileErrorReason.message : FileErrorReason → Text
  | notFound => "no such file or directory"
  | notDirectory => "not a directory"
  | isDirectory => "is a directory"
  | other description => description

structure FileError where
  action : String
  path : Text
  reason : FileErrorReason
  deriving DecidableEq, Repr

def FileError.message (e : FileError) : Text :=
  e.action ++ " " ++ e.path ++ ": " ++ e.reason.message

structure FileSystem (m : Type → Type) where
  read : Text → m (Except FileError Text)
  write : Text → Text → m (Except FileError Unit)

/-- Files below one directory, each under the list of parts of its path. The
directories are those that some file lies in. -/
structure Directory where
  files : List (List Text × Text)
  deriving DecidableEq, Repr

namespace Directory

def ofFiles (files : List (Text × Text)) : Directory :=
  ⟨files.map fun file => (Path.resolve false [] (file.1.splitOn Path.slash), file.2)⟩

def contents? (d : Directory) (parts : List Text) : Option Text :=
  d.files.lookup parts

def isDirectory (d : Directory) (parts : List Text) : Bool :=
  parts.isEmpty || d.files.any fun file => parts.isPrefixOf file.1 && parts != file.1

/-- Follows a path from the directory `here`. Every part but the last has to be
a directory; nothing outside the tree exists. -/
def follow (d : Directory) (here : List Text) : List Text → Except FileErrorReason (List Text)
  | [] => .ok here
  | part :: rest =>
      if (d.contents? here).isSome then .error .notDirectory
      else if part = [] ∨ part = "." then d.follow here rest
      else if part = ".." then
        if here = [] then .error .notFound else d.follow here.dropLast rest
      else
        let next := here ++ [part]
        if d.isDirectory next ∨ (d.contents? next).isSome ∨ rest = [] then d.follow next rest
        else .error .notFound

def locate (d : Directory) (path : Text) : Except FileErrorReason (List Text) :=
  if path = [] ∨ Path.isRooted path then .error .notFound
  else d.follow [] (path.splitOn Path.slash)

def read (d : Directory) (path : Text) : Except FileError Text :=
  match d.locate path with
  | .error reason => .error ⟨"open", path, reason⟩
  | .ok parts =>
      match d.contents? parts with
      | some body => .ok body
      | none =>
          if d.isDirectory parts then .error ⟨"read", path, .isDirectory⟩
          else .error ⟨"open", path, .notFound⟩

def put (parts : List Text) (body : Text) : List (List Text × Text) → List (List Text × Text)
  | [] => [(parts, body)]
  | file :: rest => if file.1 = parts then (parts, body) :: rest else file :: put parts body rest

/-- Creates or replaces a file. A path that ends with a slash can only name a
directory. -/
def write (d : Directory) (path body : Text) : Except FileError Directory :=
  let name := (path.reverse.dropWhile (· = Path.slash)).reverse
  match d.locate name with
  | .error reason => .error ⟨"open", path, reason⟩
  | .ok parts =>
      if name ≠ path ∨ d.isDirectory parts then .error ⟨"open", path, .isDirectory⟩
      else .ok ⟨put parts body d.files⟩

/-- The files that are new or different compared with an earlier state. -/
def changesSince (d earlier : Directory) : List (Text × Text) :=
  (d.files.filter fun file => earlier.contents? file.1 ≠ some file.2).map fun file =>
    (Text.joinWith [Path.slash] file.1, file.2)

/-- The files of a directory that is passed along from one operation to the
next. -/
def fileSystem : FileSystem (StateM Directory) where
  read path := fun d => (d.read path, d)
  write path body := fun d =>
    match d.write path body with
    | .ok d => (.ok (), d)
    | .error e => (.error e, d)

end Directory

end ArithAsm
