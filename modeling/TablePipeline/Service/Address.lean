import TablePipeline.Number.Digits

/-!
# Addresses to listen on

An address of four bytes is written with points, one of eight groups in brackets with colons, where
`::` may stand for a run of zeros and four bytes for the last two groups. A port follows.
-/

set_option autoImplicit false

namespace TablePipeline

inductive SocketAddress
  | bytes (bytes : List Nat) (port : Nat)
  /-- Eight groups of 16 bits; the scope is 0 where none is given. -/
  | groups (groups : List Nat) (scope port : Nat)
  deriving DecidableEq, Repr

namespace SocketAddress

private def digit? (base : Nat) (c : Char) : Option Nat :=
  let n :=
    if c.isDigit then some (c.toNat - '0'.toNat)
    else if 'a' ≤ c ∧ c ≤ 'f' then some (c.toNat - 'a'.toNat + 10)
    else if 'A' ≤ c ∧ c ≤ 'F' then some (c.toNat - 'A'.toNat + 10)
    else none
  n.filter (· < base)

private def takeDigits (base : Nat) : List Char → List Nat × List Char
  | [] => ([], [])
  | c :: cs =>
    match digit? base c with
    | some d =>
      let (ds, rest) := takeDigits base cs
      (d :: ds, rest)
    | none => ([], c :: cs)

/-- The number in front, up to `most`, of at most so many digits where there is such a limit. -/
private def takeNumber (base : Nat) (maxDigits : Option Nat) (most : Nat) (cs : List Char) :
    Option (Nat × List Char) :=
  let (ds, rest) := takeDigits base cs
  let n := ds.foldl (fun n d => base * n + d) 0
  if ds.isEmpty || maxDigits.any (· < ds.length) || most < n then none else some (n, rest)

/-- One byte; a zero in front is refused. -/
private def takeByte (cs : List Char) : Option (Nat × List Char) :=
  match cs with
  | '0' :: c :: _ => if c.isDigit then none else takeNumber 10 (some 3) 255 cs
  | _ => takeNumber 10 (some 3) 255 cs

private def takeChar (c : Char) : List Char → Option (List Char)
  | [] => none
  | d :: cs => if d = c then some cs else none

private def takeBytes : Nat → List Char → Option (List Nat × List Char)
  | 0, cs => some ([], cs)
  | n + 1, cs => do
    let (b, cs) ← takeByte cs
    if n = 0 then return ([b], cs)
    let (bs, cs) ← takeBytes n (← takeChar '.' cs)
    return (b :: bs, cs)

private def pairs : List Nat → List Nat
  | a :: b :: rest => (256 * a + b) :: pairs rest
  | _ => []

/-- Up to `n` groups with colons between, and whether four bytes stand for the last two. -/
private def takeGroups : (n : Nat) → (first : Bool) → List Char → List Nat × Bool × List Char
  | 0, _, cs => ([], false, cs)
  | n + 1, first, cs =>
    match if first then some cs else takeChar ':' cs with
    | none => ([], false, cs)
    | some item =>
      match if n = 0 then none else takeBytes 4 item with
      | some (bs, rest) => (pairs bs, true, rest)
      | none =>
        match takeNumber 16 (some 4) 0xFFFF item with
        | some (g, rest) =>
          let (gs, ended, rest) := takeGroups n false rest
          (g :: gs, ended, rest)
        | none => ([], false, cs)

/-- Eight groups, a run of zeros among them written as `::`. -/
private def takeAddress (cs : List Char) : Option (List Nat × List Char) := do
  let (front, ended, cs) := takeGroups 8 true cs
  if front.length = 8 then return (front, cs)
  if ended then none
  let cs ← takeChar ':' (← takeChar ':' cs)
  let (back, _, cs) := takeGroups (7 - front.length) true cs
  return (front ++ List.replicate (8 - front.length - back.length) 0 ++ back, cs)

private def takePort (cs : List Char) : Option (Nat × List Char) := do
  takeNumber 10 none 0xFFFF (← takeChar ':' cs)

private def takeBracketed (cs : List Char) : Option (SocketAddress × List Char) := do
  let (gs, cs) ← takeAddress (← takeChar '[' cs)
  let (scope, cs) ← match takeChar '%' cs with
    | some cs => takeNumber 10 none 0xFFFFFFFF cs
    | none => some (0, cs)
  let (port, cs) ← takePort (← takeChar ']' cs)
  return (groups gs scope port, cs)

private def takeDotted (cs : List Char) : Option (SocketAddress × List Char) := do
  let (bs, cs) ← takeBytes 4 cs
  let (port, cs) ← takePort cs
  return (bytes bs port, cs)

/-- Reads an address; nothing may follow it. -/
def read? (s : String) : Option SocketAddress :=
  match takeDotted s.toList <|> takeBracketed s.toList with
  | some (a, []) => some a
  | _ => none

private def bytesText (bs : List Nat) : String := String.intercalate "." (bs.map Digits.text)

private def groupsText (gs : List Nat) : String :=
  String.intercalate ":" (gs.map fun g => String.ofList (Digits.writeHex g))

/-- Start and length of the first longest run of zeros. -/
private def longestRun : List Nat → (index : Nat) → (current best : Nat × Nat) → Nat × Nat
  | [], _, _, best => best
  | g :: gs, i, (start, n), best =>
    if g = 0 then
      let current := if n = 0 then (i, 1) else (start, n + 1)
      longestRun gs (i + 1) current (if best.2 < current.2 then current else best)
    else longestRun gs (i + 1) (0, 0) best

private def addressText (gs : List Nat) : String :=
  match gs with
  | [0, 0, 0, 0, 0, 0xFFFF, a, b] => "::ffff:" ++ bytesText [a / 256, a % 256, b / 256, b % 256]
  | gs =>
    let (start, n) := longestRun gs 0 (0, 0) (0, 0)
    if 1 < n then groupsText (gs.take start) ++ "::" ++ groupsText (gs.drop (start + n))
    else groupsText gs

def text : SocketAddress → String
  | bytes bs port => bytesText bs ++ ":" ++ Digits.text port
  | groups gs scope port =>
    let zone := if scope = 0 then "" else "%" ++ Digits.text scope
    "[" ++ addressText gs ++ zone ++ "]:" ++ Digits.text port

end SocketAddress

end TablePipeline
