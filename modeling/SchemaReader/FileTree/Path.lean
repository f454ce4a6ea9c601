/-
Written paths.

* `joinPath`: one path below another;
* `pathParts`: the parts between slashes;
* `parentPath?`: the path without its last part;
* `hasExtension`: whether a file name ends in a point and a given extension.
-/
import SchemaReader.Text.Segments

namespace SchemaReader

/-- A path below another.  An absolute path stays as it is; otherwise a slash comes between, if
the first path is neither empty nor ends in one. -/
def joinPath (root path : List Char) : List Char :=
  if path.head? == some '/' then path
  else if root.isEmpty || root.getLast? == some '/' then root ++ path
  else root ++ '/' :: path

/-- The parts of a path between slashes.  A slash at the start or the end, and two in a row,
leave an empty part. -/
def pathParts (path : List Char) : List (List Char) :=
  Text.segments (· == '/') path

/-- Whether a path begins at the root. -/
def isAbsolute (path : List Char) : Bool :=
  path.head? == some '/'

/-- The parts of a path that name something: empty parts do not, and neither does a point, unless
it is the first part. -/
def namingParts (path : List Char) : List (List Char) :=
  let parts := pathParts path
  let first := parts.take 1
  first.filter (fun p => !p.isEmpty) ++
    (parts.drop 1).filter fun p => !p.isEmpty && p != ['.']

/-- The path without its last part; the empty path and the root have none. -/
def parentPath? (path : List Char) : Option (List Char) :=
  match namingParts path with
  | [] => none
  | parts =>
    let start := if isAbsolute path then ['/'] else []
    some (start ++ Text.joinWith ['/'] parts.dropLast)

/-- Whether the name of a file ends in a point and an extension, with something before the
point. -/
def hasExtension (extension name : List Char) : Bool :=
  match name.reverse.span (· != '.') with
  | (last, '.' :: before) => last.reverse == extension && !before.isEmpty && name != ['.', '.']
  | _ => false

end SchemaReader
