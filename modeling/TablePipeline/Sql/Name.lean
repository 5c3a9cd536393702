import TablePipeline.Sql.Error

/-!
# Names and paths of names

A name is written between the quote characters of a dialect, one inside it twice. A path is a
sequence of segments between dots, each one bare or in quotes of either kind.
-/

set_option autoImplicit false

namespace TablePipeline.Sql

/-- What forbids a name in a dialect; of several faults the first in this order. -/
def nameFault? (d : Dialect) (name : String) : Option NameFault :=
  if name.isEmpty then some .empty
  else if name.toList.any Text.isControl then some .control
  else if Text.contains name ";" && (Text.contains name "--" || Text.contains name "/*") then
    some .terminatorAndComment
  else if d.maxLength < d.lengthOf name then some (.tooLong d)
  else none

def checkName (d : Dialect) (name : String) : Except Error String :=
  match nameFault? d name with
  | some fault => .error (.invalidName name fault)
  | none => .ok name

def doubleQuotes (q : Char) : List Char → List Char
  | [] => []
  | c :: cs => if c = q then q :: q :: doubleQuotes q cs else c :: doubleQuotes q cs

def quoteChars (q : Char) (name : List Char) : List Char := q :: doubleQuotes q name ++ [q]

def quoteText (d : Dialect) (name : String) : String :=
  String.ofList (quoteChars d.quote name.toList)

def quoteName (d : Dialect) (name : String) : Except Error String :=
  (checkName d name).map (quoteText d)

/-- Takes one of each pair of quote characters; nothing if one stands alone. -/
def undoubleQuotes (q : Char) : List Char → Option (List Char)
  | [] => some []
  | [c] => if c = q then none else some [c]
  | c :: c' :: cs =>
    if c = q then
      if c' = q then (undoubleQuotes q cs).map (q :: ·) else none
    else (undoubleQuotes q (c' :: cs)).map (c :: ·)

/-- What stands between a first and a last quote character. -/
def unwrapQuotes (q : Char) : List Char → Option (List Char)
  | [] => none
  | c :: cs => if c = q ∧ cs.getLast? = some q then some cs.dropLast else none

def unquoteName (d : Dialect) (quoted : String) : Except Error String :=
  match unwrapQuotes d.quote quoted.toList with
  | none => .error (.invalidName quoted .notQuoted)
  | some inner =>
    match undoubleQuotes d.quote inner with
    | none => .error (.invalidName quoted .loneQuote)
    | some name => checkName d (String.ofList name)

/-- Where a reader of a path stands. -/
inductive PathState
  | start
  | bare
  | inside (quote : Char)
  /-- Behind a quote character that ends the segment, unless another one follows. -/
  | closing (quote : Char)
  deriving DecidableEq

/-- The segments from a state on; `seen` is the current segment so far, backwards. -/
def segmentsFrom : PathState → List Char → List Char → Except NameFault (List String)
  | .inside _, _, [] => .error .unterminated
  | _, seen, [] => .ok [String.ofList seen.reverse]
  | .inside q, seen, c :: cs =>
    if c = q then segmentsFrom (.closing q) seen cs else segmentsFrom (.inside q) (c :: seen) cs
  | .closing q, seen, c :: cs =>
    if c = q then segmentsFrom (.inside q) (c :: seen) cs
    else if c = '.' then (segmentsFrom .start [] cs).map (String.ofList seen.reverse :: ·)
    else .error .textAfterQuote
  | .start, seen, c :: cs =>
    if c = '.' then (segmentsFrom .start [] cs).map (String.ofList seen.reverse :: ·)
    else if c = '"' ∨ c = '\x60' then segmentsFrom (.inside c) seen cs
    else segmentsFrom .bare (c :: seen) cs
  | .bare, seen, c :: cs =>
    if c = '.' then (segmentsFrom .start [] cs).map (String.ofList seen.reverse :: ·)
    else segmentsFrom .bare (c :: seen) cs

def splitPath (path : String) : Except Error (List String) :=
  match segmentsFrom .start [] path.toList with
  | .ok segments => .ok segments
  | .error fault => .error (.invalidName path fault)

/-- The segments of a path to a table: one or two names that the dialect allows. -/
def tablePath (d : Dialect) (path : String) : Except Error (List String) := do
  let segments ← splitPath path
  if 2 < segments.length then throw (.invalidName path .notATable)
  segments.mapM (checkName d)

def quotePath (d : Dialect) (path : String) : Except Error String :=
  (tablePath d path).map fun segments => String.intercalate "." (segments.map (quoteText d))

end TablePipeline.Sql
