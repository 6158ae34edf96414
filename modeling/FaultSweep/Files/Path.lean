/-!
# Path texts

Paths are kept as the text they were given, since that is how they are shown. A component is a part
between slashes; empty parts and `.` are none, but a relative path may begin with `.`.
-/

namespace FaultSweep.Path

/-- The parts between slashes, empty ones included. -/
def segments : List Char → List (List Char)
  | [] => [[]]
  | c :: cs =>
    if c = '/' then [] :: segments cs
    else match segments cs with
      | [] => [[c]]
      | s :: ss => (c :: s) :: ss

def isAbsolute (p : String) : Bool := p.toList.head? == some '/'

/-- A segment that is no component. -/
def isIdle (s : List Char) : Bool := s = [] || s = ['.']

/-- A path cut before its last component: the segments in front, in reverse, and the component.
A leading `.` of a relative path is a component. -/
def cutLast (p : String) : Option (List (List Char) × List Char) :=
  let segs := segments p.toList
  let go := segs.reverse.dropWhile isIdle
  match go with
  | s :: front => some (front, s)
  | [] => if segs.head? = some ['.'] then some ([], ['.']) else none

def joinSegments (segs : List (List Char)) : List Char := List.intercalate ['/'] segs

/-- The path without its last component; none for the root and the empty path. -/
def parent? (p : String) : Option String :=
  (cutLast p).map fun (front, _) =>
    match front.dropWhile isIdle with
    | [] =>
      if isAbsolute p then "/"
      else if front.getLast? = some ['.'] then "." else ""
    | kept => String.ofList (joinSegments kept.reverse)

/-- The last component, unless it is `.` or `..`. -/
def fileName? (p : String) : Option String :=
  match cutLast p with
  | some (_, s) => if s = ['.'] ∨ s = ['.', '.'] then none else some (String.ofList s)
  | none => none

/-- A path seen from a directory: itself if it is absolute. -/
def join (base p : String) : String :=
  if isAbsolute p then p
  else if base = "" then p
  else if base.toList.getLast? = some '/' then base ++ p
  else base ++ "/" ++ p

/-- The path with another last component. -/
def withFileName (p name : String) : String :=
  match fileName? p with
  | some _ => join ((parent? p).getD "") name
  | none => join p name

end FaultSweep.Path
