import TablePipeline.Json

/-!
# Reading JSON

A text is cut into tokens by a machine that takes one character at a time, and the tokens are built
into a value on a stack. Both are folds, so reading ends after one pass.
-/

set_option autoImplicit false

namespace TablePipeline.Json

attribute [local instance (high)] instPowNat

/-- A number times a power of ten, multiplied or divided by at most `10 ^ 308` at a time; nothing
if it becomes infinite. -/
def scaleByTen (x : Binary64) (e : Int) : Option Binary64 :=
  let power (k : Nat) := Binary64.ofRatio false (10 ^ k) 1
  if x.isZero then some x
  else if 308 < e then none
  else if 0 ≤ e then
    let y := x.mul (power e.toNat)
    if y.isInfinite then none else some y
  else if -308 ≤ e then some (x.div (power (-e).toNat))
  else scaleByTen (x.div (power 308)) (e + 308)
termination_by (-e).toNat

/-- Digits of which only the first that fit 64 bits count. -/
private structure Leading where
  value : Nat
  dropped : Nat
  kept : Nat
  full : Bool

private def Leading.add (l : Leading) (c : Char) : Leading :=
  let next := 10 * l.value + Digits.ofChar c
  if l.full || 2 ^ (64 : Nat) ≤ next then { l with dropped := l.dropped + 1, full := true }
  else { l with value := next, kept := l.kept + 1 }

private def readExponent? : List Char → Option Int
  | '-' :: cs => if cs.isEmpty || !cs.all Char.isDigit then none else some (-Digits.value cs)
  | '+' :: cs => if cs.isEmpty || !cs.all Char.isDigit then none else some (Digits.value cs)
  | cs => if cs.isEmpty || !cs.all Char.isDigit then none else some (Digits.value cs)

/-- Reads a number. One with a fraction or an exponent, or beyond 64 bits, is the nearest binary
number to its leading digits, moved by the power of ten that is left. -/
def readNumber? (cs : List Char) : Option Json := do
  let (negative, cs) := match cs with
    | '-' :: rest => (true, rest)
    | _ => (false, cs)
  let whole := cs.takeWhile Char.isDigit
  let rest := cs.dropWhile Char.isDigit
  if whole.isEmpty || (whole.length > 1 && whole.head? == some '0') then none
  let (places, hasPoint, rest) := match rest with
    | '.' :: tail => (tail.takeWhile Char.isDigit, true, tail.dropWhile Char.isDigit)
    | _ => ([], false, rest)
  if hasPoint && places.isEmpty then none
  let (exponent, hasExponent) ← match rest with
    | [] => some (0, false)
    | c :: tail => if c = 'e' ∨ c = 'E' then (readExponent? tail).map (·, true) else none
  let n := Digits.value whole
  if !hasPoint && !hasExponent then
    if negative && n ≠ 0 && n ≤ 2 ^ (63 : Nat) then return .int (-n)
    if !negative && n < 2 ^ (64 : Nat) then return .int n
  let leading := whole.foldl Leading.add ⟨0, 0, 0, false⟩
  let before := leading.dropped
  let leading := places.foldl Leading.add { leading with kept := 0 }
  let e : Int := exponent + before - leading.kept
  let x ← scaleByTen (Binary64.ofRatio false leading.value 1) e
  return .float (if negative then x.negate else x)

inductive Token
  | openList
  | closeList
  | openObject
  | closeObject
  | comma
  | colon
  | value (v : Json)

private inductive Mode
  | between
  | word (seen : List Char)
  /-- Inside a text; `high` is the first half of a pair that still lacks its second half. -/
  | text (seen : List Char) (high : Option Nat)
  | escape (seen : List Char) (high : Option Nat)
  | code (seen : List Char) (high : Option Nat) (digits : Nat) (n : Nat)

private structure Lexing where
  mode : Mode
  /-- The tokens so far, the last one first. -/
  tokens : List Token

private def word? (cs : List Char) : Option Json :=
  match String.ofList cs with
  | "null" => some .null
  | "true" => some (.bool true)
  | "false" => some (.bool false)
  | _ => readNumber? cs

private def hexValue? (c : Char) : Option Nat :=
  if c.isDigit then some (c.toNat - 48)
  else if 'a' ≤ c ∧ c ≤ 'f' then some (c.toNat - 87)
  else if 'A' ≤ c ∧ c ≤ 'F' then some (c.toNat - 55)
  else none

private def between (tokens : List Token) (c : Char) : Option Lexing :=
  let token (t : Token) : Option Lexing := some ⟨.between, t :: tokens⟩
  match c with
  | ' ' | '\t' | '\n' | '\r' => some ⟨.between, tokens⟩
  | '[' => token .openList
  | ']' => token .closeList
  | '\x7b' => token .openObject
  | '\x7d' => token .closeObject
  | ',' => token .comma
  | ':' => token .colon
  | '"' => some ⟨.text [] none, tokens⟩
  | c => some ⟨.word [c], tokens⟩

private def isWordChar (c : Char) : Bool := c.isAlphanum || c == '+' || c == '-' || c == '.'

private def Lexing.step (l : Lexing) (c : Char) : Option Lexing :=
  match l.mode with
  | .between => between l.tokens c
  | .word seen =>
    if isWordChar c then some { l with mode := .word (c :: seen) }
    else (word? seen.reverse).bind fun v => between (.value v :: l.tokens) c
  | .text seen high =>
    if c = '\\' then some { l with mode := .escape seen high }
    else if high.isSome || c.toNat < 0x20 then none
    else if c = '"' then some ⟨.between, .value (.text (String.ofList seen.reverse)) :: l.tokens⟩
    else some { l with mode := .text (c :: seen) none }
  | .escape seen high =>
    if c = 'u' then some { l with mode := .code seen high 0 0 }
    else if high.isSome then none
    else
      let add (c : Char) : Option Lexing := some { l with mode := .text (c :: seen) none }
      match c with
      | '"' | '\\' | '/' => add c
      | 'b' => add (Char.ofNat 8)
      | 'f' => add (Char.ofNat 12)
      | 'n' => add '\n'
      | 'r' => add '\r'
      | 't' => add '\t'
      | _ => none
  | .code seen high digits n => do
    let n := 16 * n + (← hexValue? c)
    if digits < 3 then return { l with mode := .code seen high (digits + 1) n }
    match high with
    | some first =>
      if 0xDC00 ≤ n ∧ n ≤ 0xDFFF then
        let code := 0x10000 + (first - 0xD800) * 0x400 + (n - 0xDC00)
        return { l with mode := .text (Char.ofNat code :: seen) none }
      else none
    | none =>
      if 0xD800 ≤ n ∧ n ≤ 0xDBFF then return { l with mode := .text seen (some n) }
      else if 0xDC00 ≤ n ∧ n ≤ 0xDFFF then none
      else return { l with mode := .text (Char.ofNat n :: seen) none }

def tokens? (cs : List Char) : Option (List Token) := do
  let l ← cs.foldlM Lexing.step ⟨.between, []⟩
  match l.mode with
  | .between => return l.tokens.reverse
  | .word seen => return (.value (← word? seen.reverse) :: l.tokens).reverse
  | _ => none

private inductive Frame
  | list (done : List Json)
  | object (done : List (String × Json)) (name : String)

private inductive Expect
  | value
  | firstItem
  | firstName
  | name
  | colon (name : String)
  | next
  | finished (v : Json)

private structure Building where
  stack : List Frame
  expect : Expect

private def Building.accept (stack : List Frame) (v : Json) : Building :=
  match stack with
  | [] => ⟨[], .finished v⟩
  | .list done :: rest => ⟨.list (v :: done) :: rest, .next⟩
  | .object done name :: rest => ⟨.object ((name, v) :: done) name :: rest, .next⟩

private def Building.open? (stack : List Frame) : Token → Option Building
  | .value v => some (accept stack v)
  | .openList => some ⟨.list [] :: stack, .firstItem⟩
  | .openObject => some ⟨.object [] "" :: stack, .firstName⟩
  | _ => none

private def Building.step (b : Building) (t : Token) : Option Building :=
  match b.expect, t, b.stack with
  | .finished _, _, _ => none
  | .firstItem, .closeList, .list _ :: rest => some (accept rest (.list []))
  | .firstItem, t, stack | .value, t, stack => open? stack t
  | .firstName, .closeObject, .object _ _ :: rest => some (accept rest (.object []))
  | .firstName, .value (.text n), stack | .name, .value (.text n), stack => some ⟨stack, .colon n⟩
  | .colon n, .colon, .object done _ :: rest => some ⟨.object done n :: rest, .value⟩
  | .next, .comma, .list done :: rest => some ⟨.list done :: rest, .value⟩
  | .next, .comma, .object done n :: rest => some ⟨.object done n :: rest, .name⟩
  | .next, .closeList, .list done :: rest => some (accept rest (.list done.reverse))
  | .next, .closeObject, .object done _ :: rest => some (accept rest (ofMembers done.reverse))
  | _, _, _ => none

/-- Reads one value; blanks may stand around it. -/
def read? (s : String) : Option Json := do
  let b ← (← tokens? s.toList).foldlM Building.step ⟨[], .value⟩
  match b.expect with
  | .finished v => return v
  | _ => none

end TablePipeline.Json
