import TablePipeline.Proofs.Sql.Leaves

/-!
# Placeholders and values go together

The text of a statement is woven from its leaves: each name in quotes, each null as a word and each
other value as a placeholder with the number of the value. A reader who knows only where names are
in quotes finds just these placeholders, in the order of the values.
-/

set_option autoImplicit false

namespace TablePipeline.Sql

/-- A text of some leaves in order with fixed text around them; `n` values are bound before it. -/
inductive Woven (d : Dialect) : Nat → String → List Leaf → Prop
  | nil (n : Nat) : Woven d n "" []
  | fixed {n : Nat} {s t : String} {ls : List Leaf} (hs : IsFixed s) (h : Woven d n t ls) :
    Woven d n (s ++ t) ls
  | name {n : Nat} (m : String) {t : String} {ls : List Leaf} (h : Woven d n t ls) :
    Woven d n (quoteText d m ++ t) (.name m :: ls)
  | null {n : Nat} {t : String} {ls : List Leaf} (h : Woven d n t ls) :
    Woven d n ("NULL" ++ t) (.value .null :: ls)
  | value {n : Nat} {v : Scalar} {t : String} {ls : List Leaf} (hv : v.isNull = false)
    (h : Woven d (n + 1) t ls) :
    Woven d n (Piece.placeholder d (n + 1) v ++ t) (.value v :: ls)

variable {d : Dialect} {ps : List Piece} {ls : List Leaf}

theorem Lays.woven (h : Lays ps ls) (n : Nat) : Woven d n (Piece.write d n ps) ls := by
  induction h generalizing n with
  | nil => exact .nil n
  | text hs _ ih => exact .fixed hs (ih n)
  | name m _ ih => exact .name m (ih n)
  | null _ ih => exact .null (ih n)
  | param hv _ ih => exact .value hv (ih (n + 1))

theorem Lays.params_eq (h : Lays ps ls) : Piece.params ps = Leaf.bound ls := by
  induction h with
  | nil => rfl
  | text _ _ ih => exact ih
  | name _ _ ih => exact ih
  | null _ ih => exact ih
  | param hv _ ih => simp [Piece.params, ih, Leaf.bound, Leaf.bound?, hv]

theorem Leaf.isNull_of_mem_bound {v : Scalar} (h : v ∈ Leaf.bound ls) : v.isNull = false := by
  obtain ⟨l, _, hl⟩ := List.mem_filterMap.mp h
  cases l with
  | name n => cases hl
  | value w =>
    unfold bound? at hl
    dsimp only at hl
    split at hl
    · cases hl
    · rename_i hw
      obtain rfl := Option.some.inj hl
      exact Bool.eq_false_iff.mpr hw

/-! ### Finding placeholders -/

namespace Token

def leadingDigits : List Token → List Char
  | .char c :: ts => if c.isDigit then c :: leadingDigits ts else []
  | _ => []

/-- The placeholders outside names: a dollar sign with all digits behind it, or a question mark. -/
def placeholders : List Token → List String
  | [] => []
  | .char c :: ts =>
    if c = '$' then String.ofList (c :: leadingDigits ts) :: placeholders ts
    else if c = '?' then "?" :: placeholders ts
    else placeholders ts
  | .name _ :: ts => placeholders ts

example : placeholders ("$12::TEXT = ?$".toList.map .char) = ["$12", "?", "$"] := by decide

theorem placeholders_append {cs : List Char} (hd : '$' ∉ cs) (hq : '?' ∉ cs) (ts : List Token) :
    placeholders (cs.map .char ++ ts) = placeholders ts := by
  induction cs with
  | nil => rfl
  | cons c cs ih =>
    obtain ⟨hcd, hd⟩ : '$' ≠ c ∧ '$' ∉ cs := by simpa using hd
    obtain ⟨hcq, hq⟩ : '?' ≠ c ∧ '?' ∉ cs := by simpa using hq
    rw [List.map_cons, List.cons_append, placeholders, if_neg (Ne.symm hcd), if_neg (Ne.symm hcq),
      ih hd hq]

theorem leadingDigits_append {cs : List Char} (h : ∀ c ∈ cs, c.isDigit = true) {ts : List Token}
    (hts : leadingDigits ts = []) : leadingDigits (cs.map .char ++ ts) = cs := by
  induction cs with
  | nil => exact hts
  | cons c cs ih =>
    obtain ⟨hc, hcs⟩ := List.forall_mem_cons.mp h
    rw [List.map_cons, List.cons_append, leadingDigits, if_pos hc, ih hcs]

end Token

theorem IsFixed.tokens {s : String} (h : IsFixed s) (ts : List Token) :
    Token.leadingDigits (s.toList.map .char ++ ts) = [] ∧
      Token.placeholders (s.toList.map .char ++ ts) = Token.placeholders ts := by
  obtain ⟨hplain, hd, hq, hhead⟩ := h
  refine ⟨?_, Token.placeholders_append hd hq ts⟩
  cases hs : s.toList with
  | nil => exact (hplain.1 (String.toList_eq_nil_iff.mp hs)).elim
  | cons c cs =>
    have hc : c.isDigit = false := by
      rw [hs] at hhead
      exact hhead
    simp [Token.leadingDigits, hc]

theorem placeholder_tokens (d : Dialect) (n : Nat) {ts : List Token}
    (hts : Token.leadingDigits ts = []) :
    Token.leadingDigits ((d.placeholder n).toList.map .char ++ ts) = [] ∧
      Token.placeholders ((d.placeholder n).toList.map .char ++ ts) =
        d.placeholder n :: Token.placeholders ts := by
  cases d with
  | mysql => simp [Dialect.placeholder, Token.leadingDigits, Token.placeholders]
  | firebird => simp [Dialect.placeholder, Token.leadingDigits, Token.placeholders]
  | postgres =>
    have hdigits : ∀ c ∈ Digits.write n, c.isDigit = true := fun c hc =>
      Digits.isDigit_of_mem_write hc
    have htokens : (Dialect.postgres.placeholder n).toList.map Token.char ++ ts =
        .char '$' :: ((Digits.write n).map .char ++ ts) := by
      simp [Dialect.placeholder, Digits.text]
    have hnone {c : Char} (hc : c.isDigit = false) : c ∉ Digits.write n := by
      intro hmem
      rw [hdigits c hmem] at hc
      cases hc
    rw [htokens]
    refine ⟨rfl, ?_⟩
    rw [Token.placeholders, if_pos rfl, Token.leadingDigits_append hdigits hts,
      Token.placeholders_append (hnone (by decide)) (hnone (by decide))]
    simp [Dialect.placeholder, Digits.text, String.ofList_cons]

theorem value_tokens (d : Dialect) (n : Nat) (v : Scalar) {ts : List Token}
    (hts : Token.leadingDigits ts = []) :
    Token.leadingDigits ((Piece.placeholder d n v).toList.map .char ++ ts) = [] ∧
      Token.placeholders ((Piece.placeholder d n v).toList.map .char ++ ts) =
        d.placeholder n :: Token.placeholders ts := by
  unfold Piece.placeholder
  split
  · rename_i type htype
    obtain ⟨t, _, htype⟩ := Option.bind_eq_some_iff.mp htype
    have hopen : IsFixed "CAST(" := by decide
    have hclose : IsFixed (" AS " ++ type ++ ")") :=
      (IsFixed.append (by decide) (isFixed_castType htype)).append (by decide)
    have htext : "CAST(" ++ Dialect.firebird.placeholder n ++ " AS " ++ type ++ ")" =
        "CAST(" ++ (Dialect.firebird.placeholder n ++ (" AS " ++ type ++ ")")) := by
      simp only [String.append_assoc]
    obtain ⟨hdigits, hsame⟩ := hclose.tokens ts
    obtain ⟨_, hfound⟩ := placeholder_tokens .firebird n hdigits
    rw [htext, String.toList_append, String.toList_append, List.map_append, List.map_append,
      List.append_assoc, List.append_assoc]
    obtain ⟨hfront, hskip⟩ := hopen.tokens
      ((Dialect.firebird.placeholder n).toList.map .char ++
        ((" AS " ++ type ++ ")").toList.map .char ++ ts))
    exact ⟨hfront, by rw [hskip, hfound, hsame]⟩
  · exact placeholder_tokens _ n hts

/-! ### Reading a woven text -/

namespace QuoteState

/-- The reader is not inside of a name; one that just ended may go on. -/
def Between : QuoteState → Prop
  | inside _ => False
  | _ => True

/-- The name that ends unless a quote character follows. -/
def ended : QuoteState → List Token
  | closing seen => [.name (String.ofList seen.reverse)]
  | _ => []

end QuoteState

section
variable {q : Char} {state : QuoteState}

theorem readFrom?_nil (h : state.Between) : Token.readFrom? q state [] = some state.ended := by
  cases state with
  | inside seen => exact h.elim
  | _ => simp [Token.readFrom?, QuoteState.ended]

theorem readFrom?_of_head_ne (h : state.Between) {rest : List Char} (hrest : rest.head? ≠ some q) :
    Token.readFrom? q state rest = (Token.readFrom? q .outside rest).map (state.ended ++ ·) := by
  cases state with
  | outside => simp [QuoteState.ended]
  | inside seen => exact h.elim
  | closing seen => rw [readFrom?_closing seen hrest]; rfl

/-- A name that follows another one at once goes on with it. -/
theorem readFrom?_name (h : state.Between) (name rest : List Char) :
    ∃ seen, Token.readFrom? q state (quoteChars q name ++ rest) =
      Token.readFrom? q (.closing seen) rest := by
  cases state with
  | outside => exact ⟨_, readFrom?_outside_quoteChars name rest⟩
  | inside seen => exact h.elim
  | closing seen =>
    refine ⟨name.reverse ++ q :: seen, ?_⟩
    simp only [quoteChars, List.cons_append, List.append_assoc, Token.readFrom?, if_true,
      readFrom?_doubleQuotes, List.nil_append]

end

theorem read_plain {s : String} (hs : IsPlain s) {state : QuoteState} (hstate : state.Between)
    {rest : List Char} {ts : List Token} (hts : Token.readFrom? d.quote .outside rest = some ts)
    (hdigits : Token.leadingDigits (s.toList.map .char ++ ts) = []) :
    ∃ ts', Token.readFrom? d.quote state (s.toList ++ rest) = some ts' ∧
      Token.leadingDigits ts' = [] ∧
      Token.placeholders ts' = Token.placeholders (s.toList.map .char ++ ts) := by
  have hread : Token.readFrom? d.quote state (s.toList ++ rest) =
      some (state.ended ++ (s.toList.map .char ++ ts)) := by
    rw [readFrom?_of_head_ne hstate (hs.head_ne d rest), readFrom?_append (hs.quote_not_mem d),
      hts]
    rfl
  refine ⟨_, hread, ?_⟩
  cases state with
  | closing seen => exact ⟨rfl, rfl⟩
  | _ => exact ⟨hdigits, rfl⟩

theorem read_fixed {s : String} (hs : IsFixed s) {state : QuoteState} (hstate : state.Between)
    {rest : List Char} {ts : List Token} (hts : Token.readFrom? d.quote .outside rest = some ts) :
    ∃ ts', Token.readFrom? d.quote state (s.toList ++ rest) = some ts' ∧
      Token.leadingDigits ts' = [] ∧ Token.placeholders ts' = Token.placeholders ts := by
  obtain ⟨hdigits, hsame⟩ := hs.tokens ts
  obtain ⟨ts', hread, hdigits', hfound⟩ := read_plain hs.1 hstate hts hdigits
  exact ⟨ts', hread, hdigits', hfound.trans hsame⟩

/-- Reading finds one placeholder for each bound value, with the numbers from `n` on. The state may
be behind a name, since two names that touch are read as one. -/
theorem Woven.read {n : Nat} {sql : String} (h : Woven d n sql ls) (state : QuoteState)
    (hstate : state.Between) :
    ∃ ts, Token.readFrom? d.quote state sql.toList = some ts ∧ Token.leadingDigits ts = [] ∧
      Token.placeholders ts =
        (List.range' (n + 1) (Leaf.bound ls).length).map d.placeholder := by
  induction h generalizing state with
  | nil n =>
    refine ⟨state.ended, readFrom?_nil hstate, ?_⟩
    cases state <;> exact ⟨rfl, rfl⟩
  | @fixed n s t ls hs _ ih =>
    obtain ⟨ts, hts, _, hfound⟩ := ih .outside trivial
    obtain ⟨ts', hread, hdigits, hsame⟩ := read_fixed hs hstate hts
    rw [String.toList_append]
    exact ⟨ts', hread, hdigits, hsame.trans hfound⟩
  | @name n m t ls _ ih =>
    obtain ⟨seen, hname⟩ := readFrom?_name (q := d.quote) hstate m.toList t.toList
    obtain ⟨ts, hread, htokens⟩ := ih (.closing seen) trivial
    rw [String.toList_append, quoteText, String.toList_ofList, hname]
    exact ⟨ts, hread, htokens⟩
  | @null n t ls _ ih =>
    have hs : IsFixed "NULL" := by decide
    obtain ⟨ts, hts, _, hfound⟩ := ih .outside trivial
    obtain ⟨ts', hread, hdigits, hsame⟩ := read_fixed hs hstate hts
    rw [String.toList_append]
    exact ⟨ts', hread, hdigits, hsame.trans hfound⟩
  | @value n v t ls hv _ ih =>
    obtain ⟨ts, hts, hnext, hfound⟩ := ih .outside trivial
    obtain ⟨hdigits, hvalue⟩ := value_tokens d (n + 1) v hnext
    obtain ⟨ts', hread, hdigits', hfound'⟩ :=
      read_plain (isPlain_placeholder d (n + 1) v) hstate hts hdigits
    have hbound : Leaf.bound (.value v :: ls) = v :: Leaf.bound ls := by
      simp [Leaf.bound, Leaf.bound?, hv]
    rw [String.toList_append]
    refine ⟨ts', hread, hdigits', ?_⟩
    rw [hfound', hvalue, hfound, hbound, List.length_cons, List.range'_succ, List.map_cons]

/-- The placeholders of `n` values from left to right: numbered from one in Postgres. -/
def Dialect.placeholders (d : Dialect) (n : Nat) : List String :=
  match d with
  | postgres => (List.range' 1 n).map fun k => "$" ++ Digits.text k
  | mysql | firebird => List.replicate n "?"

theorem map_placeholder (d : Dialect) (n : Nat) :
    (List.range' 1 n).map d.placeholder = d.placeholders n := by
  cases d with
  | postgres => rfl
  | mysql => exact (List.map_const' ..).trans (by rw [List.length_range']; rfl)
  | firebird => exact (List.map_const' ..).trans (by rw [List.length_range']; rfl)

/-- Parts that are written one after the other bind the literals other than null in the order of
the text, each where its placeholder stands, and no others; a reader finds just these
placeholders. -/
theorem placeholders_match (d : Dialect) (parts : List Part) (pss : List (List Piece))
    (h : parts.mapM (Part.pieces d) = .ok pss) :
    let f := Piece.fragment d pss.flatten
    let leaves := parts.flatMap Part.leaves
    f.params = Leaf.bound leaves ∧ (∀ v ∈ f.params, v ≠ .null) ∧ Woven d 0 f.sql leaves ∧
      ∃ ts, Token.read? d f.sql = some ts ∧
        Token.placeholders ts = d.placeholders f.params.length := by
  intro f leaves
  have hlays := parts_lay h
  have hparams : f.params = Leaf.bound leaves := hlays.params_eq
  have hwoven : Woven d 0 f.sql leaves := hlays.woven 0
  obtain ⟨ts, hread, _, hfound⟩ := hwoven.read .outside trivial
  refine ⟨hparams, ?values, hwoven, ts, hread, ?found⟩
  case values =>
    rintro v hv rfl
    rw [hparams] at hv
    cases Leaf.isNull_of_mem_bound hv
  case found => rw [hfound, hparams, Nat.zero_add, map_placeholder]

/-- A division with a null sentinel, a value right behind it, and two names that touch and look like
placeholders. -/
def crowdedParts : List Part :=
  [.expr (.safeDivide (.column none "n") (.literal (.integer 2)) .null), .param (.text "x"),
    .name "a$1", .name "b?"]

theorem placeholders_match_crowdedParts :
    ∃ pss ts, crowdedParts.mapM (Part.pieces .postgres) = .ok pss ∧
      (Piece.fragment .postgres pss.flatten).params = [.integer 2, .integer 2, .text "x"] ∧
      Token.read? .postgres (Piece.fragment .postgres pss.flatten).sql = some ts ∧
      Token.placeholders ts = ["$1", "$2", "$3"] := by
  obtain ⟨pss, hpss⟩ : ∃ pss, crowdedParts.mapM (Part.pieces .postgres) = .ok pss := ⟨_, rfl⟩
  obtain ⟨hparams, _, _, ts, hread, hfound⟩ := placeholders_match .postgres crowdedParts pss hpss
  have hbound : Leaf.bound (crowdedParts.flatMap Part.leaves) =
      [.integer 2, .integer 2, .text "x"] := by decide +kernel
  rw [hbound] at hparams
  have hnumbers : Dialect.postgres.placeholders 3 = ["$1", "$2", "$3"] := by decide +kernel
  rw [hparams] at hfound
  exact ⟨pss, ts, hpss, hparams, hread, hfound.trans hnumbers⟩

end TablePipeline.Sql
