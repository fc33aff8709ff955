/-
# TokenLayout.Path -- file paths and the extensions of file names

A path is a list of components between slashes.  Empty components and the
component `.` say nothing, so they are dropped; `..` leads away and names no
file.  The extension of a file name follows its last point, but a name that only
begins with a point has none.
-/
namespace TokenLayout.Path

set_option autoImplicit false

/-- The components of a path that lead somewhere. -/
def components (path : String) : List (List Char) :=
  (path.toList.splitOn '/').filter fun part => !part.isEmpty && part != ['.']

/-- The name of the file a path leads to. -/
def fileName? (path : String) : Option (List Char) :=
  match (components path).getLast? with
  | some part => if part = ['.', '.'] then none else some part
  | none => none

/-- The extension of the file a path leads to. -/
def extension? (path : String) : Option String :=
  match fileName? path with
  | none => none
  | some name =>
      let tail := name.reverse.takeWhile (· != '.')
      match name.reverse.dropWhile (· != '.') with
      | _ :: _ :: _ => some (String.ofList tail.reverse)
      | _ => none

/-- Whether a path leads to a file of this name in the working directory: all its
components before the last say nothing, and it does not end in a slash. -/
def leadsTo (path name : String) : Bool :=
  components path == [name.toList] &&
    (path.toList.splitOn '/').getLast? == some name.toList &&
    path.toList.head? != some '/'

/-- The path with an extension after the name of the file it leads to.  What says
nothing at the end of the path is dropped. -/
def extended? (path extension : String) : Option String :=
  let leads (part : List Char) : Bool := !part.isEmpty && part != ['.']
  let parts := ((path.toList.splitOn '/').reverse.dropWhile fun part => !leads part).reverse
  match fileName? path with
  | some _ => some (String.ofList (['/'].intercalate parts) ++ "." ++ extension)
  | none => none

end TokenLayout.Path
