import CalcScript.Error
import CalcScript.Text.Lines

set_option autoImplicit false

namespace CalcScript

abbrev Files := String → Except IoFault (List UInt8)

def readSource (files : Files) (path : String) : Except IoFault String :=
  match files path with
  | .error fault => .error fault
  | .ok bytes =>
    match Text.ofUtf8? bytes with
    | some source => .ok source
    | none => .error .invalidText

structure FileTree where
  files : List (List String × List UInt8)

namespace FileTree

def names (path : String) : List String := path.splitOn "/"

-- Where a path has led so far. Outside of the tree nothing is known but that names are missing.
inductive Place where
  | directory (names : List String)
  | file (contents : List UInt8)
  | outside

def child (t : FileTree) (names : List String) : Except IoFault Place :=
  match t.files.find? (·.1 == names) with
  | some (_, contents) => .ok (.file contents)
  | none =>
    if t.files.any fun (other, _) => names.isPrefixOf other then .ok (.directory names)
    else .error .notFound

def step (t : FileTree) : Place → String → Except IoFault Place
  | .file _, _ => .error .notDirectory
  | place, "" => .ok place
  | place, "." => .ok place
  | .directory [], ".." => .ok .outside
  | .directory names, ".." => .ok (.directory names.dropLast)
  | .directory names, name => t.child (names ++ [name])
  | .outside, ".." => .ok .outside
  | .outside, _ => .error .notFound

def resolve (t : FileTree) (path : String) : Except IoFault Place :=
  if path = "" then .error .notFound
  else
    match names path with
    | "" :: rest => rest.foldlM t.step .outside
    | names => names.foldlM t.step (.directory [])

def read (t : FileTree) (path : String) : Except IoFault (List UInt8) := do
  match ← t.resolve path with
  | .file contents => return contents
  | _ => throw .isDirectory

def ofList (files : List (String × List UInt8)) : FileTree :=
  ⟨files.map fun (path, contents) =>
    ((names path).filter fun name => name != "" && name != ".", contents)⟩

end FileTree

end CalcScript
