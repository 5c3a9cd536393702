import TablePipeline.Proofs.Sql.Leaves

/-!
# Symbols of a statement

A statement is a sequence of symbols: characters, names and bound values. As text a name is in
quotes and a value is a placeholder. Symbols whose characters are no quotes and no placeholders and
whose names do not touch are told from the text and the values alone, and the symbols of whatever
is written are such.
-/

set_option autoImplicit false

namespace TablePipeline.Sql

inductive Symbol
  | char (c : Char)
  | name (n : String)
  | value (v : Scalar)
  deriving DecidableEq, Repr

namespace Symbol

def ofText (s : String) : List Symbol := s.toList.map .char

/-- The text of symbols; `n` values are bound before them. -/
def write (d : Dialect) : Nat → List Symbol → List Char
  | _, [] => []
  | n, char c :: xs => c :: write d n xs
  | n, name s :: xs => quoteChars d.quote s.toList ++ write d n xs
  | n, value _ :: xs => (d.placeholder (n + 1)).toList ++ write d (n + 1) xs

def values : List Symbol → List Scalar
  | [] => []
  | value v :: xs => v :: values xs
  | _ :: xs => values xs

/-- Characters that are neither quotes nor placeholders, and names that do not touch. -/
inductive Legible (d : Dialect) : List Symbol → Prop
  | nil : Legible d []
  | char {c : Char} {xs : List Symbol} (hquote : c ≠ d.quote) (hdollar : c ≠ '$')
    (hmark : c ≠ '?') (h : Legible d xs) : Legible d (char c :: xs)
  | name (n : String) {xs : List Symbol} (hnext : ∀ m ys, xs ≠ name m :: ys) (h : Legible d xs) :
    Legible d (name n :: xs)
  | value (v : Scalar) {xs : List Symbol} (h : Legible d xs) : Legible d (value v :: xs)

end Symbol

/-! ### Telling symbols from text -/

/-- A quote character within a name is written twice, so the next single one ends the name. -/
theorem quoted_append_inj {q : Char} {a b r s : List Char} (hr : r.head? ≠ some q)
    (hs : s.head? ≠ some q) (h : doubleQuotes q a ++ q :: r = doubleQuotes q b ++ q :: s) :
    a = b ∧ r = s := by
  induction a generalizing b with
  | nil =>
    cases b with
    | nil => exact ⟨rfl, (List.cons.inj h).2⟩
    | cons c b =>
      rw [doubleQuotes, doubleQuotes] at h
      split at h
      · obtain ⟨_, rfl⟩ := List.cons.inj h
        exact (hr rfl).elim
      · rename_i hc
        exact (hc (List.cons.inj h).1.symm).elim
  | cons c a ih =>
    cases b with
    | nil =>
      rw [doubleQuotes.eq_def q [], doubleQuotes] at h
      split at h
      · obtain ⟨_, rfl⟩ := List.cons.inj h
        exact (hs rfl).elim
      · rename_i hc
        exact (hc (List.cons.inj h).1).elim
    | cons c' b =>
      rw [doubleQuotes, doubleQuotes] at h
      split at h <;> split at h
      · rename_i hc hc'
        subst hc hc'
        obtain ⟨rfl, rfl⟩ := ih (List.cons.inj (List.cons.inj h).2).2
        exact ⟨rfl, rfl⟩
      · rename_i hc hc'
        exact (hc' (List.cons.inj h).1.symm).elim
      · rename_i hc hc'
        exact (hc (List.cons.inj h).1).elim
      · obtain ⟨rfl, hrest⟩ := List.cons.inj h
        obtain ⟨rfl, rfl⟩ := ih hrest
        exact ⟨rfl, rfl⟩

def Dialect.mark : Dialect → Char
  | postgres => '$'
  | mysql | firebird => '?'

theorem Dialect.mark_ne_quote (d : Dialect) : d.mark ≠ d.quote := by cases d <;> decide

theorem head?_placeholder (d : Dialect) (n : Nat) :
    (d.placeholder n).toList.head? = some d.mark := by
  cases d with
  | postgres =>
    rw [Dialect.placeholder, String.toList_append]
    rfl
  | mysql => exact (rfl : "?".toList.head? = some '?')
  | firebird => exact (rfl : "?".toList.head? = some '?')

namespace Symbol

variable {d : Dialect} {xs ys : List Symbol}

def first (d : Dialect) : Symbol → Char
  | char c => c
  | name _ => d.quote
  | value _ => d.mark

theorem head?_write (d : Dialect) (n : Nat) (xs : List Symbol) :
    (write d n xs).head? = xs.head?.map (first d) := by
  cases xs with
  | nil => rfl
  | cons x xs =>
    cases x with
    | char c => rfl
    | name m => rfl
    | value v =>
      rw [write, List.head?_append, head?_placeholder]
      rfl

theorem Legible.char_ne_mark {c : Char} (h : Legible d (.char c :: xs)) : c ≠ d.mark := by
  cases h with
  | char _ hdollar hmark _ =>
    cases d with
    | postgres => exact hdollar
    | mysql => exact hmark
    | firebird => exact hmark

theorem Legible.head?_ne_quote (h : Legible d xs) (hname : ∀ m ys, xs ≠ .name m :: ys) (n : Nat) :
    (write d n xs).head? ≠ some d.quote := by
  rw [head?_write]
  cases h with
  | nil => simp
  | char hquote _ _ _ => simpa [first] using hquote
  | name m _ _ => exact (hname m _ rfl).elim
  | value v _ => simpa [first] using d.mark_ne_quote

theorem first_eq_of_write_eq {n : Nat} (h : write d n xs = write d n ys) :
    xs.head?.map (first d) = ys.head?.map (first d) := by
  rw [← head?_write d n, h, head?_write]

/-- Symbols are told from their text and their values. The first character tells a name, a value and
any other symbol apart; a name ends before the next symbol, and values are told by the values. -/
theorem Legible.eq_of_write_eq (hx : Legible d xs) (hy : Legible d ys) {n : Nat}
    (hwrite : write d n xs = write d n ys) (hvalues : values xs = values ys) : xs = ys := by
  induction hx generalizing ys n with
  | nil =>
    cases ys with
    | nil => rfl
    | cons y ys => cases first_eq_of_write_eq hwrite
  | @char c xs hquote hdollar hmark hxs ih =>
    have hfirst := first_eq_of_write_eq hwrite
    cases hy with
    | nil => cases hfirst
    | @char c' ys _ _ _ hys =>
      obtain ⟨rfl, hrest⟩ := List.cons.inj hwrite
      rw [ih hys hrest hvalues]
    | name m _ _ => exact (hquote (Option.some.inj hfirst)).elim
    | value v _ =>
      exact ((Legible.char hquote hdollar hmark hxs).char_ne_mark (Option.some.inj hfirst)).elim
  | @name m xs hnext hxs ih =>
    have hfirst := first_eq_of_write_eq hwrite
    cases hy with
    | nil => cases hfirst
    | char hquote _ _ _ => exact (hquote (Option.some.inj hfirst).symm).elim
    | @name m' ys hnext' hys =>
      have hquoted : doubleQuotes d.quote m.toList ++ d.quote :: write d n xs =
          doubleQuotes d.quote m'.toList ++ d.quote :: write d n ys := by
        simpa [write, quoteChars] using hwrite
      obtain ⟨hm, hrest⟩ := quoted_append_inj (hxs.head?_ne_quote hnext n)
        (hys.head?_ne_quote hnext' n) hquoted
      rw [String.toList_inj.mp hm, ih hys hrest hvalues]
    | value v _ => exact (d.mark_ne_quote (Option.some.inj hfirst).symm).elim
  | @value v xs hxs ih =>
    have hfirst := first_eq_of_write_eq hwrite
    cases hy with
    | nil => cases hfirst
    | @char c ys hquote hdollar hmark hys =>
      exact ((Legible.char hquote hdollar hmark hys).char_ne_mark
        (Option.some.inj hfirst).symm).elim
    | name m _ _ => exact (d.mark_ne_quote (Option.some.inj hfirst)).elim
    | @value v' ys hys =>
      obtain ⟨rfl, hrestValues⟩ := List.cons.inj hvalues
      rw [ih hys (List.append_cancel_left hwrite) hrestValues]

end Symbol

/-! ### The symbols of pieces -/

namespace Symbol

variable {d : Dialect}

theorem write_append_ofText (d : Dialect) (n : Nat) (s : String) (xs : List Symbol) :
    write d n (ofText s ++ xs) = s.toList ++ write d n xs := by
  unfold ofText
  induction s.toList with
  | nil => rfl
  | cons c cs ih => rw [List.map_cons, List.cons_append, write, ih, List.cons_append]

theorem values_append (xs ys : List Symbol) : values (xs ++ ys) = values xs ++ values ys := by
  induction xs with
  | nil => rfl
  | cons x xs ih => cases x <;> simp [values, ih]

theorem values_ofText (s : String) : values (ofText s) = [] := by
  unfold ofText
  induction s.toList with
  | nil => rfl
  | cons c cs ih => exact ih

end Symbol

def Symbol.ofValue (d : Dialect) (v : Scalar) : List Symbol :=
  match d, v.type?.bind (d.castType? ·) with
  | .firebird, some type => ofText "CAST(" ++ .value v :: ofText (" AS " ++ type ++ ")")
  | _, _ => [.value v]

namespace Piece

def symbols (d : Dialect) : List Piece → List Symbol
  | [] => []
  | text s :: ps => Symbol.ofText s ++ symbols d ps
  | name n :: ps => .name n :: symbols d ps
  | param v :: ps => Symbol.ofValue d v ++ symbols d ps

variable {d : Dialect}

theorem symbols_append (ps qs : List Piece) :
    symbols d (ps ++ qs) = symbols d ps ++ symbols d qs := by
  induction ps with
  | nil => rfl
  | cons p ps ih => cases p <;> simp [symbols, ih]

theorem write_ofValue (d : Dialect) (n : Nat) (v : Scalar) (xs : List Symbol) :
    Symbol.write d n (Symbol.ofValue d v ++ xs) =
      (placeholder d (n + 1) v).toList ++ Symbol.write d (n + 1) xs := by
  unfold Symbol.ofValue placeholder
  cases d with
  | postgres => rfl
  | mysql => rfl
  | firebird =>
    cases v.type?.bind (Dialect.firebird.castType? ·) with
    | none => rfl
    | some type =>
      simp only [List.append_assoc, List.cons_append, Symbol.write_append_ofText, Symbol.write,
        String.toList_append]

theorem values_ofValue (d : Dialect) (v : Scalar) : Symbol.values (Symbol.ofValue d v) = [v] := by
  unfold Symbol.ofValue
  split
  · rw [Symbol.values_append, Symbol.values, Symbol.values_ofText, Symbol.values_ofText]
    rfl
  · rfl

theorem write_symbols (d : Dialect) (n : Nat) (ps : List Piece) :
    Symbol.write d n (symbols d ps) = (write d n ps).toList := by
  induction ps generalizing n with
  | nil => rfl
  | cons p ps ih =>
    cases p with
    | text s => rw [symbols, Symbol.write_append_ofText, ih, write, String.toList_append]
    | name m =>
      rw [symbols, Symbol.write, ih, write, String.toList_append, quoteText, String.toList_ofList]
    | param v => rw [symbols, write_ofValue, ih, write, String.toList_append]

theorem values_symbols (d : Dialect) (ps : List Piece) :
    Symbol.values (symbols d ps) = params ps := by
  induction ps with
  | nil => rfl
  | cons p ps ih =>
    cases p with
    | text s => rw [symbols, Symbol.values_append, Symbol.values_ofText, ih]; rfl
    | name m => exact ih
    | param v => rw [symbols, Symbol.values_append, values_ofValue, ih]; rfl

end Piece

namespace Symbol

variable {d : Dialect} {xs : List Symbol}

theorem Legible.ofText_append {s : String} (hs : IsFixed s) (h : Legible d xs) :
    Legible d (ofText s ++ xs) := by
  have hchars : ∀ c ∈ s.toList, c ≠ d.quote ∧ c ≠ '$' ∧ c ≠ '?' := by
    intro c hc
    refine ⟨?_, ?_, ?_⟩
    · rintro rfl
      exact hs.1.quote_not_mem d hc
    · rintro rfl
      exact hs.2.1 hc
    · rintro rfl
      exact hs.2.2.1 hc
  unfold ofText
  revert hchars
  induction s.toList with
  | nil => exact fun _ => h
  | cons c cs ih =>
    intro hchars
    obtain ⟨⟨hquote, hdollar, hmark⟩, hcs⟩ := List.forall_mem_cons.mp hchars
    exact .char hquote hdollar hmark (ih hcs)

theorem Legible.ofValue_append (v : Scalar) (h : Legible d xs) : Legible d (ofValue d v ++ xs) := by
  unfold ofValue
  split
  · rename_i type htype
    obtain ⟨t, _, htype⟩ := Option.bind_eq_some_iff.mp htype
    have hend : IsFixed (" AS " ++ type ++ ")") :=
      (IsFixed.append (by decide) (isFixed_castType htype)).append (by decide)
    rw [List.append_assoc, List.cons_append]
    exact .ofText_append (by decide) (.value v (.ofText_append hend h))
  · exact .value v h

/-- Pieces that may follow a name do not begin with one. -/
theorem symbols_ne_name {ps : List Piece} {ls : List Leaf} (hopens : Opens ps) (hlays : Lays ps ls)
    (n : String) (xs : List Symbol) : Piece.symbols d ps ≠ .name n :: xs := by
  have htext {s : String} (hs : IsFixed s) (qs : List Piece) :
      ofText s ++ Piece.symbols d qs ≠ .name n :: xs := by
    unfold ofText
    cases h : s.toList with
    | nil => exact (hs.1.1 (String.toList_eq_nil_iff.mp h)).elim
    | cons c cs => nofun
  cases hlays with
  | nil => nofun
  | text hs _ => exact htext hs _
  | null _ => exact htext (by decide) _
  | name m _ => exact hopens.elim
  | param _ _ =>
    rw [Piece.symbols]
    unfold ofValue
    split <;> nofun

theorem legible_symbols {ps : List Piece} {ns : List String} {ls : List Leaf}
    (hspells : Spells d ps ns) (hlays : Lays ps ls) : Legible d (Piece.symbols d ps) := by
  induction hlays generalizing ns with
  | nil => exact .nil
  | text hs _ ih =>
    cases hspells with
    | text _ h => exact .ofText_append hs (ih h)
  | null _ ih =>
    cases hspells with
    | text _ h => exact .ofText_append (by decide) (ih h)
  | param _ _ ih =>
    cases hspells with
    | param h => exact .ofValue_append _ (ih h)
  | @name n ps ls hps ih =>
    cases hspells with
    | name _ hopens h =>
      exact .name n (symbols_ne_name hopens hps) (ih h)

end Symbol

end TablePipeline.Sql
