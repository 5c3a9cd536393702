import TablePipeline.Sql.Piece

/-!
# Reading quoted names back

SQL is read with one rule: a name runs from a quote character to the next one that is not doubled.
Pieces whose texts hold no quote character and whose names do not touch are read back as they were
meant: each name is the one that was written, and nothing else is in quotes.
-/

set_option autoImplicit false

namespace TablePipeline.Sql

/-- What a reader meets: a character outside of quotes, or a name in quotes. -/
inductive Token
  | char (c : Char)
  | name (n : String)
  deriving DecidableEq, Repr

/-- Where a reader stands; `seen` is the name so far, backwards. -/
inductive QuoteState
  | outside
  | inside (seen : List Char)
  /-- Behind a quote character that ends the name, unless another one follows. -/
  | closing (seen : List Char)

namespace Token

/-- The tokens of a text from a state on; nothing if a name has no end. -/
def readFrom? (q : Char) : QuoteState → List Char → Option (List Token)
  | .outside, [] => some []
  | .outside, c :: cs =>
    if c = q then readFrom? q (.inside []) cs else (readFrom? q .outside cs).map (.char c :: ·)
  | .inside _, [] => none
  | .inside seen, c :: cs =>
    if c = q then readFrom? q (.closing seen) cs else readFrom? q (.inside (c :: seen)) cs
  | .closing seen, [] => some [.name (String.ofList seen.reverse)]
  | .closing seen, c :: cs =>
    if c = q then readFrom? q (.inside (c :: seen)) cs
    else (readFrom? q .outside cs).map (.name (String.ofList seen.reverse) :: .char c :: ·)

def read? (d : Dialect) (sql : String) : Option (List Token) :=
  readFrom? d.quote .outside sql.toList

example : read? .mysql "`a``b`.c" = some [.name "a`b", .char '.', .char 'c'] := by decide +kernel

def name? : Token → Option String
  | char _ => none
  | name n => some n

def char? : Token → Option Char
  | char c => some c
  | name _ => none

def names (ts : List Token) : List String := ts.filterMap name?

/-- The text around the names; each name leaves a gap. -/
def around (ts : List Token) : List (Option Char) := ts.map char?

def chars (q : Char) : Token → List Char
  | char c => [c]
  | name n => quoteChars q n.toList

end Token

/-! ### What a reader makes of a name and of text -/

section
variable {q : Char}

theorem doubleQuotes_append (cs ds : List Char) :
    doubleQuotes q (cs ++ ds) = doubleQuotes q cs ++ doubleQuotes q ds := by
  induction cs with
  | nil => rfl
  | cons c cs ih =>
    rw [List.cons_append, doubleQuotes, doubleQuotes]
    split <;> simp [ih]

theorem readFrom?_doubleQuotes (name seen rest : List Char) :
    Token.readFrom? q (.inside seen) (doubleQuotes q name ++ rest) =
      Token.readFrom? q (.inside (name.reverse ++ seen)) rest := by
  induction name generalizing seen with
  | nil => rfl
  | cons c cs ih =>
    rw [doubleQuotes]
    split
    · rename_i hc
      subst hc
      simp only [List.cons_append, Token.readFrom?, if_true, ih, List.reverse_cons,
        List.append_assoc, List.nil_append]
    · rename_i hc
      simp only [List.cons_append, Token.readFrom?, hc, if_false, ih, List.reverse_cons,
        List.append_assoc, List.nil_append]

theorem readFrom?_outside_quoteChars (name rest : List Char) :
    Token.readFrom? q .outside (quoteChars q name ++ rest) =
      Token.readFrom? q (.closing name.reverse) rest := by
  simp only [quoteChars, List.cons_append, List.append_assoc, Token.readFrom?, if_true,
    readFrom?_doubleQuotes, List.append_nil, List.nil_append]

/-- A name ends where no quote character follows. -/
theorem readFrom?_closing (seen : List Char) {rest : List Char} (h : rest.head? ≠ some q) :
    Token.readFrom? q (.closing seen) rest =
      (Token.readFrom? q .outside rest).map (.name (String.ofList seen.reverse) :: ·) := by
  cases rest with
  | nil => simp [Token.readFrom?]
  | cons c cs =>
    have hc : c ≠ q := by simpa using h
    simp [Token.readFrom?, hc, Function.comp_def]

/-- A quoted name is read back if no quote character follows it. -/
theorem readFrom?_quoteChars {name : String} {rest : List Char} (h : rest.head? ≠ some q) :
    Token.readFrom? q .outside (quoteChars q name.toList ++ rest) =
      (Token.readFrom? q .outside rest).map (.name name :: ·) := by
  rw [readFrom?_outside_quoteChars, readFrom?_closing _ h, List.reverse_reverse,
    String.ofList_toList]

/-- Text without quote characters is read character by character. -/
theorem readFrom?_append {cs rest : List Char} (h : q ∉ cs) :
    Token.readFrom? q .outside (cs ++ rest) =
      (Token.readFrom? q .outside rest).map (cs.map .char ++ ·) := by
  induction cs with
  | nil => simp
  | cons c cs ih =>
    obtain ⟨hc, hcs⟩ : q ≠ c ∧ q ∉ cs := by simpa using h
    simp [Token.readFrom?, Ne.symm hc, ih hcs, Function.comp_def]

/-- What a reader has read of a name that it has not yet given. -/
def QuoteState.chars (q : Char) : QuoteState → List Char
  | outside => []
  | inside seen => q :: doubleQuotes q seen.reverse
  | closing seen => quoteChars q seen.reverse

/-- Reading loses nothing: the tokens of a text, written out, are the text. -/
theorem chars_of_readFrom? {state : QuoteState} {cs : List Char} {ts : List Token}
    (h : Token.readFrom? q state cs = some ts) :
    ts.flatMap (Token.chars q) = state.chars q ++ cs := by
  fun_induction Token.readFrom? q state cs generalizing ts with
  | case1 => cases h; rfl
  | case2 cs ih => simpa [QuoteState.chars, doubleQuotes] using ih h
  | case3 c cs hc ih =>
    obtain ⟨ts', hts, rfl⟩ := Option.map_eq_some_iff.mp h
    simpa [QuoteState.chars, Token.chars] using ih hts
  | case4 seen => cases h
  | case5 seen cs ih => simpa [QuoteState.chars, quoteChars] using ih h
  | case6 seen c cs hc ih =>
    simpa [QuoteState.chars, doubleQuotes_append, doubleQuotes, hc] using ih h
  | case7 seen => cases h; simp [Token.chars, QuoteState.chars]
  | case8 seen cs ih =>
    simpa [QuoteState.chars, quoteChars, doubleQuotes_append, doubleQuotes] using ih h
  | case9 seen c cs hc ih =>
    obtain ⟨ts', hts, rfl⟩ := Option.map_eq_some_iff.mp h
    simpa [QuoteState.chars, Token.chars] using ih hts

end

end TablePipeline.Sql
