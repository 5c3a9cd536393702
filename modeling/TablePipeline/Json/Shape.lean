import TablePipeline.Json
import TablePipeline.Text.Quoted

/-!
# Reading JSON into typed values

A shape lists the fields of a record. A record comes as an object, whose members are read in the
order of their names, or as a list of its fields in their own order. Of several faults the first
member read counts, and missing fields come after all members.
-/

set_option autoImplicit false

namespace TablePipeline.Json

inductive ShapeError
  | missingField (name : String)
  | unknownField (name : String) (expected : List String)
  | unknownVariant (name : String) (expected : List String)
  | invalidType (found expected : String)
  | invalidValue (found expected : String)
  | invalidLength (found : Nat) (expected : String)
  /-- A list has more items than a record has fields. -/
  | surplusItems (found : Nat)
  /-- Neither a word nor an object stands where one of some words should. -/
  | notVariant (found : String)
  /-- An object with no or several members stands where a word should; `opens` tells whether the
  first member alone would do. -/
  | notOneVariant (opens : Bool)
  deriving DecidableEq, Repr

private def ticked (s : String) : String := "`" ++ s ++ "`"

/-- Two names with `or` between, more as a list. -/
def oneOf : List String → String
  | [a] => ticked a
  | [a, b] => ticked a ++ " or " ++ ticked b
  | names => "one of " ++ String.intercalate ", " (names.map ticked)

def ShapeError.message : ShapeError → String
  | missingField name => "missing field " ++ ticked name
  | unknownField name expected => "unknown field " ++ ticked name ++ ", expected " ++ oneOf expected
  | unknownVariant name expected =>
    "unknown variant " ++ ticked name ++ ", expected " ++ oneOf expected
  | invalidType found expected => "invalid type: " ++ found ++ ", expected " ++ expected
  | invalidValue found expected => "invalid value: " ++ found ++ ", expected " ++ expected
  | invalidLength found expected =>
    "invalid length " ++ Digits.text found ++ ", expected " ++ expected
  | surplusItems found =>
    "invalid length " ++ Digits.text found ++ ", expected fewer elements in array"
  | notVariant found => "invalid type: " ++ found ++ ", expected string or map"
  | notOneVariant _ => "invalid value: map, expected map with a single key"

/-- Whether reading along the text of a value would stop at a character that cannot stand there. In
all other cases the text is well formed so far, but has not the expected shape. -/
def ShapeError.stopsReading : ShapeError → Bool
  | surplusItems _ | notVariant _ => true
  | notOneVariant opens => opens
  | _ => false

def kindText : Json → String
  | null => "null"
  | bool b => "boolean " ++ ticked (if b then "true" else "false")
  | int n => "integer " ++ ticked (Digits.signedText n)
  | float x => "floating point " ++ ticked (x.text .json)
  | text s => "string " ++ Text.quoted s
  | list _ => "sequence"
  | object _ => "map"

abbrev Reader (α : Type) := Json → Except ShapeError α

private def refuse {α : Type} (j : Json) (expected : String) : Except ShapeError α :=
  .error (.invalidType j.kindText expected)

def readText : Reader String
  | text s => .ok s
  | j => refuse j "a string"

def readNat (typeName : String) (most : Nat) : Reader Nat
  | int n =>
    if 0 ≤ n ∧ n ≤ most then .ok n.toNat
    else .error (.invalidValue (int n).kindText typeName)
  | j => refuse j typeName

def readList {α : Type} (item : Reader α) : Reader (List α)
  | list items => items.mapM item
  | j => refuse j "a sequence"

def readTable {α : Type} (item : Reader α) : Reader (List (String × α))
  | object members => members.mapM fun (n, v) => return (n, ← item v)
  | j => refuse j "a map"

def readOption {α : Type} (item : Reader α) : Reader (Option α)
  | null => .ok none
  | j => some <$> item j

def readAny : Reader Json := .ok

/-- One of some words, alone or as the only member of an object with null. -/
def readVariant {α : Type} (variants : List (String × α)) : Reader α := fun j =>
  let find (name : String) : Except ShapeError α :=
    match variants.find? (·.1 == name) with
    | some (_, a) => .ok a
    | none => .error (.unknownVariant name (variants.map (·.1)))
  match j with
  | text s => find s
  | object [(name, v)] => do
    let a ← find name
    match v with
    | null => return a
    | v => refuse v "unit"
  | object members =>
    .error (.notOneVariant (match members with
      | (name, null) :: _ => variants.any (·.1 == name)
      | (_, _) :: _ => false
      | [] => true))
  | j => .error (.notVariant j.kindText)

inductive Absence
  | required
  /-- Objects may lack the field, lists may not. -/
  | optional
  | defaulted
  deriving DecidableEq

/-- A field of a record `σ`; `read` puts its value in. -/
structure Field (σ : Type) where
  name : String
  absence : Absence
  read : Json → σ → Except ShapeError σ

def Field.of {σ α : Type} (name : String) (absence : Absence) (reader : Reader α)
    (set : σ → α → σ) : Field σ where
  name := name
  absence := absence
  read j s := (reader j).map (set s)

structure Shape (σ : Type) where
  name : String
  fields : List (Field σ)
  /-- Whether other fields are refused. -/
  closed : Bool

namespace Shape

variable {σ : Type}

def lengthText (s : Shape σ) : String :=
  let n := s.fields.length
  "struct " ++ s.name ++ " with " ++ Digits.text n ++ (if n = 1 then " element" else " elements")

private def readMember (s : Shape σ) (acc : σ) (member : String × Json) : Except ShapeError σ :=
  match s.fields.find? (·.name == member.1) with
  | some f => f.read member.2 acc
  | none =>
    if s.closed then .error (.unknownField member.1 (s.fields.map (·.name))) else .ok acc

private def readItems (s : Shape σ) : Nat → List (Field σ) → List Json → σ → Except ShapeError σ
  | n, [], items, acc =>
    if items.isEmpty then .ok acc
    else .error (.surplusItems (n + items.length))
  | n, f :: fs, j :: js, acc => do readItems s (n + 1) fs js (← f.read j acc)
  | n, f :: fs, [], acc =>
    if f.absence = .defaulted then readItems s (n + 1) fs [] acc
    else .error (.invalidLength n s.lengthText)

/-- Reads a record; `start` holds the values of fields that may be absent. -/
def read (s : Shape σ) (start : σ) : Reader σ
  | object members => do
    let r ← members.foldlM s.readMember start
    match s.fields.find? fun f => f.absence = .required ∧ members.all (·.1 != f.name) with
    | some f => throw (.missingField f.name)
    | none => return r
  | list items => s.readItems 0 s.fields items start
  | j => refuse j ("struct " ++ s.name)

private theorem foldlM_keeps {α ε : Type} {P : σ → Prop} {step : σ → α → Except ε σ}
    (hstep : ∀ a x b, P a → step a x = .ok b → P b) {xs : List α} {start r : σ} (h₀ : P start)
    (h : xs.foldlM step start = .ok r) : P r := by
  induction xs generalizing start with
  | nil =>
    obtain rfl := Except.ok.inj h
    exact h₀
  | cons x xs ih =>
    rw [List.foldlM_cons] at h
    cases hx : step start x with
    | ok a =>
      rw [hx] at h
      exact ih (hstep start x a h₀ hx) h
    | error e =>
      rw [hx] at h
      cases h

private theorem readItems_keeps (s : Shape σ) {P : σ → Prop} {fields : List (Field σ)}
    (hfields : ∀ f ∈ fields, ∀ j a b, P a → f.read j a = .ok b → P b) {n : Nat}
    {items : List Json} {start r : σ} (h₀ : P start)
    (h : s.readItems n fields items start = .ok r) : P r := by
  induction fields generalizing n items start with
  | nil =>
    rw [readItems] at h
    split at h
    · obtain rfl := Except.ok.inj h
      exact h₀
    · cases h
  | cons f fs ih =>
    have hrest := fun f' hf' => hfields f' (List.mem_cons_of_mem f hf')
    cases items with
    | nil =>
      rw [readItems] at h
      split at h
      · exact ih hrest h₀ h
      · cases h
    | cons j js =>
      rw [readItems] at h
      cases hread : f.read j start with
      | ok a =>
        rw [hread] at h
        exact ih hrest (hfields f List.mem_cons_self j start a h₀ hread) h
      | error e =>
        rw [hread] at h
        cases h

/-- What reading any field keeps, reading the record keeps. -/
theorem read_keeps (s : Shape σ) {P : σ → Prop}
    (hfields : ∀ f ∈ s.fields, ∀ j a b, P a → f.read j a = .ok b → P b) {start r : σ}
    (h₀ : P start) {j : Json} (h : s.read start j = .ok r) : P r := by
  cases j with
  | object members =>
    rw [read] at h
    cases hfold : members.foldlM s.readMember start with
    | error e =>
      rw [hfold] at h
      cases h
    | ok a =>
      rw [hfold] at h
      have ha : P a := by
        refine foldlM_keeps (fun acc member b hacc hb => ?_) h₀ hfold
        unfold readMember at hb
        split at hb
        · rename_i f hf
          exact hfields f (List.mem_of_find?_eq_some hf) _ acc b hacc hb
        · split at hb
          · cases hb
          · obtain rfl := Except.ok.inj hb
            exact hacc
      dsimp only [bind, Except.bind] at h
      split at h
      · cases h
      · obtain rfl := Except.ok.inj h
        exact ha
  | list items => exact s.readItems_keeps hfields h₀ h
  | null => cases h
  | bool b => cases h
  | int n => cases h
  | float x => cases h
  | text t => cases h

end Shape

end TablePipeline.Json
