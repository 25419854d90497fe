import EntityQuery.Url.Host

/-!
# Reading paths

A path is read segment by segment.  A segment that is a dot stands for nothing, one that is two dots
takes the segment before it away, and either may be written with escapes; at the end of a path they
leave an empty segment, so that the path ends in a slash.

A segment such as `C:` or `C|` looks like a drive, and two dots never take it away.  In a `file` URL the
first segment of that form is a drive: it is written with a colon, and a host in front of it is
dropped.
-/

set_option autoImplicit false

namespace EntityQuery.Url

def isDot (cs : List Char) : Bool := ["." , "%2e", "%2E"].contains (String.ofList cs)

def isDoubleDot (cs : List Char) : Bool :=
  ["..", "%2e%2e", "%2e%2E", "%2E%2e", "%2E%2E", "%2e.", "%2E.", ".%2e", ".%2E"].contains
    (String.ofList cs)

/-- A letter with a colon or a bar. -/
def isDrive : List Char → Bool
  | [a, b] => a.isAlpha && (b == ':' || b == '|')
  | _ => false

/-- A letter with a colon. -/
def isWrittenDrive : List Char → Bool
  | [a, b] => a.isAlpha && b == ':'
  | _ => false

/-- Takes the last segment away, unless it looks like a drive. -/
def dropSegment (segments : List (List Char)) : List (List Char) :=
  if segments.getLast?.any isDrive then segments else segments.dropLast

/-- A segment as it is written in its place. -/
def writtenSegment (kind : SchemeKind) (first : Bool) (cs : List Char) : List Char :=
  match cs with
  | [a, _] => if kind = .file ∧ first ∧ isDrive cs then [a, ':'] else cs
  | _ => cs

/-- Adds a segment behind others; `last` says that the path ends with it. -/
def addSegment (kind : SchemeKind) (done : List (List Char)) (cs : List Char) (last : Bool) :
    List (List Char) :=
  if isDoubleDot cs then
    let rest := dropSegment done
    if last then rest ++ [[]] else rest
  else if isDot cs then if last then done ++ [[]] else done
  else done ++ [writtenSegment kind done.isEmpty cs]

def endsSegment (kind : SchemeKind) (c : Char) : Bool :=
  c == '/' || (c == '\\' && kind.hasBackslash)

/-- Reads segments behind those that are done; `part` is the one being read, newest first.  Returns
the segments and what follows the path. -/
def readSegments (kind : SchemeKind) :
    List (List Char) → List Char → List Char → List (List Char) × List Char
  | done, part, [] => (addSegment kind done part.reverse true, [])
  | done, part, c :: r =>
    if c = '?' ∨ c = '#' then (addSegment kind done part.reverse true, c :: r)
    else if endsSegment kind c then
      readSegments kind (addSegment kind done part.reverse false) [] r
    else readSegments kind done ((Text.Percent.encodeChar keepsPath c).reverse ++ part) r

/-- Reads the segments of a path behind those that are done. -/
def readPath (kind : SchemeKind) (done : List (List Char)) (cs : List Char) :
    List (List Char) × List Char :=
  readSegments kind done [] cs

/-- Reads a path that goes on inside the last segment of another, where no slash stands between the
two.  Dots that begin it are a segment of their own all the same. -/
def readPathInside (kind : SchemeKind) (done : List (List Char)) (last : List Char)
    (cs : List Char) : List (List Char) × List Char :=
  let inside (c : Char) : Bool := !(c == '?' || c == '#' || endsSegment kind c)
  let part := Text.Percent.encodeChars keepsPath (cs.takeWhile inside)
  let isDots := isDot part || isDoubleDot part
  let joined := done ++ [if isDots then last else last ++ part]
  match cs.dropWhile inside with
  | c :: r =>
    if endsSegment kind c then readSegments kind joined [] r
    else (if isDot part then joined ++ [[]] else joined, c :: r)
  | [] => (if isDot part then joined ++ [[]] else joined, [])

/-- Reads a reference that replaces the last segment of a path.  In a `file` path that segment stays if
it is a written drive; what the reference adds is then written behind it, after a slash only when the
drive is all there is. -/
def readRelativePath (kind : SchemeKind) (base : List (List Char)) (cs : List Char) :
    List (List Char) × List Char :=
  if kind = .file ∧ base.getLast?.any isWrittenDrive then
    match base with
    | [drive] => readPath kind [drive] cs
    | _ => readPathInside kind base.dropLast (base.getLast?.getD []) cs
  else readPath kind base.dropLast cs

/-- Empty segments at the beginning of a `file` path are left out. -/
def trimLeading : List (List Char) → List (List Char)
  | [] :: s :: rest => trimLeading (s :: rest)
  | segments => segments

/-- Reads what follows a path: the query and the fragment. -/
def readTail (kind : SchemeKind) (cs : List Char) : Option (List Char) × Option (List Char) :=
  let fragment (r : List Char) := Text.Percent.encodeChars keepsFragment r
  match cs with
  | '?' :: r =>
    let query := r.takeWhile (· ≠ '#')
    (some (Text.Percent.encodeChars (keepsQuery kind) query),
      match r.dropWhile (· ≠ '#') with
      | _ :: f => some (fragment f)
      | [] => none)
  | '#' :: r => (none, some (fragment r))
  | _ => (none, none)

end EntityQuery.Url
