import TablePipeline.Proofs.Outcome
import TablePipeline.Proofs.Sql.Reading

/-!
# Pieces that spell names

Pieces spell some names if their names are these, all allowed by the dialect, if no two of them
touch and if the texts around them are plain. A reader of what they write meets just these names,
and around them a text that depends on the shape of the pieces alone.
-/

set_option autoImplicit false

namespace TablePipeline.Sql

/-! ### Plain text -/

/-- Text that is not empty and holds no quote character of any dialect. -/
def IsPlain (s : String) : Prop := s ≠ "" ∧ '"' ∉ s.toList ∧ '\x60' ∉ s.toList

instance (s : String) : Decidable (IsPlain s) := by
  unfold IsPlain
  infer_instance

section
variable {s t : String}

theorem IsPlain.append (hs : IsPlain s) (ht : IsPlain t) : IsPlain (s ++ t) := by
  obtain ⟨hs, hsq, hsb⟩ := hs
  obtain ⟨_, htq, htb⟩ := ht
  refine ⟨by simp [hs], ?_, ?_⟩
  · rw [String.toList_append, List.mem_append]
    rintro (h | h)
    · exact hsq h
    · exact htq h
  · rw [String.toList_append, List.mem_append]
    rintro (h | h)
    · exact hsb h
    · exact htb h

theorem IsPlain.quote_not_mem (h : IsPlain s) (d : Dialect) : d.quote ∉ s.toList := by
  cases d with
  | mysql => exact h.2.2
  | postgres => exact h.2.1
  | firebird => exact h.2.1

theorem IsPlain.head_ne (h : IsPlain s) (d : Dialect) (rest : List Char) :
    (s.toList ++ rest).head? ≠ some d.quote := by
  have hne : s.toList ≠ [] := by simpa using h.1
  cases hs : s.toList with
  | nil => exact (hne hs).elim
  | cons c cs =>
    intro hc
    have hmem : c ∈ s.toList := by simp [hs]
    obtain rfl : c = d.quote := by simpa using hc
    exact h.quote_not_mem d hmem

end

theorem isPlain_text (n : Nat) : IsPlain (Digits.text n) := by
  have hdigit : ∀ c ∈ (Digits.text n).toList, c.isDigit = true := by
    intro c hc
    rw [Digits.text, String.toList_ofList] at hc
    exact Digits.isDigit_of_mem_write hc
  refine ⟨?_, fun h => ?_, fun h => ?_⟩
  · intro h
    have hnil : (Digits.text n).toList = [] := by rw [h]; rfl
    rw [Digits.text, String.toList_ofList] at hnil
    exact Digits.write_ne_nil n hnil
  · exact absurd (hdigit _ h) (by decide)
  · exact absurd (hdigit _ h) (by decide)

theorem isPlain_castType {d : Dialect} {t : ColumnType} {type : String}
    (h : d.castType? t = some type) : IsPlain type := by
  cases d <;> cases t <;> cases h <;> decide

theorem isPlain_divisionType {d : Dialect} {type : String} (h : d.divisionType? = some type) :
    IsPlain type := by
  cases d <;> cases h <;> decide

theorem isPlain_compareOp (op : CompareOp) : IsPlain op.text := by cases op <;> decide

theorem isPlain_arithmeticOp (op : ArithmeticOp) : IsPlain op.text := by cases op <;> decide

theorem isPlain_joinKind (kind : JoinKind) : IsPlain kind.text := by cases kind <;> decide

theorem isPlain_dialectPlaceholder (d : Dialect) (n : Nat) : IsPlain (d.placeholder n) := by
  cases d with
  | postgres => exact IsPlain.append (by decide) (isPlain_text n)
  | mysql => exact (by decide : IsPlain "?")
  | firebird => exact (by decide : IsPlain "?")

theorem isPlain_placeholder (d : Dialect) (n : Nat) (v : Scalar) :
    IsPlain (Piece.placeholder d n v) := by
  unfold Piece.placeholder
  split
  · rename_i htype
    obtain ⟨t, _, htype⟩ := Option.bind_eq_some_iff.mp htype
    exact ((IsPlain.append (by decide) (isPlain_dialectPlaceholder _ n)).append (by decide)).append
      (isPlain_castType htype) |>.append (by decide)
  · exact isPlain_dialectPlaceholder _ n

/-! ### Pieces -/

theorem quoteName_ok_iff {d : Dialect} {n : String} :
    (∃ quoted, quoteName d n = .ok quoted) ↔ nameFault? d n = none := by
  unfold quoteName checkName
  cases nameFault? d n <;> simp [Except.map]

theorem checkName_eq_ok {d : Dialect} {n m : String} :
    checkName d n = .ok m ↔ nameFault? d n = none ∧ m = n := by
  unfold checkName
  cases nameFault? d n <;> simp [eq_comm]

theorem namePiece_eq_ok {d : Dialect} {n : String} {p : Piece} :
    namePiece d n = .ok p ↔ nameFault? d n = none ∧ p = .name n := by
  unfold namePiece
  rw [Outcome.map_eq_ok]
  constructor
  · rintro ⟨m, hm, rfl⟩
    obtain ⟨hn, rfl⟩ := checkName_eq_ok.mp hm
    exact ⟨hn, rfl⟩
  · rintro ⟨hn, rfl⟩
    exact ⟨n, checkName_eq_ok.mpr ⟨hn, rfl⟩, rfl⟩

theorem checkNames_eq_ok {d : Dialect} {ns ms : List String} :
    ns.mapM (checkName d) = .ok ms ↔ ms = ns ∧ ∀ n ∈ ns, nameFault? d n = none := by
  rw [Outcome.mapM_eq_ok]
  constructor
  · intro h
    induction h with
    | nil => simp
    | cons hn _ ih =>
      obtain ⟨hfault, rfl⟩ := checkName_eq_ok.mp hn
      obtain ⟨rfl, hall⟩ := ih
      exact ⟨rfl, List.forall_mem_cons.mpr ⟨hfault, hall⟩⟩
  · rintro ⟨rfl, hall⟩
    exact List.forall₂_same.mpr fun n hn => checkName_eq_ok.mpr ⟨hall n hn, rfl⟩

/-- A path to a table is one or two segments that the dialect allows. -/
theorem tablePath_eq_ok {d : Dialect} {path : String} {segments : List String} :
    tablePath d path = .ok segments ↔ splitPath path = .ok segments ∧ segments.length ≤ 2 ∧
      ∀ n ∈ segments, nameFault? d n = none := by
  unfold tablePath
  rw [Outcome.bind_eq_ok]
  constructor
  · rintro ⟨found, hfound, h⟩
    dsimp only at h
    split at h
    · cases h
    · obtain ⟨rfl, hall⟩ := checkNames_eq_ok.mp h
      exact ⟨hfound, by omega, hall⟩
  · rintro ⟨hfound, hlength, hall⟩
    refine ⟨segments, hfound, ?_⟩
    dsimp only
    rw [if_neg (by omega)]
    exact checkNames_eq_ok.mpr ⟨rfl, hall⟩

theorem joined_cons_cons (between : String) (ps qs : List Piece) (pss : List (List Piece)) :
    Piece.joined between (ps :: qs :: pss) =
      ps ++ .text between :: Piece.joined between (qs :: pss) := rfl

/-- Pieces that do not begin with a name, so that they may follow one. -/
def Opens : List Piece → Prop
  | .name _ :: _ => False
  | _ => True

theorem Opens.append {ps qs : List Piece} (h : Opens ps) (h' : Opens qs) : Opens (ps ++ qs) := by
  cases ps with
  | nil => exact h'
  | cons p ps =>
    cases p with
    | name n => exact h.elim
    | _ => trivial

/-- Pieces that write these names, each allowed, with plain text around and between them. -/
inductive Spells (d : Dialect) : List Piece → List String → Prop
  | nil : Spells d [] []
  | text {s : String} {ps : List Piece} {ns : List String} (hs : IsPlain s) (h : Spells d ps ns) :
    Spells d (.text s :: ps) ns
  | param {v : Scalar} {ps : List Piece} {ns : List String} (h : Spells d ps ns) :
    Spells d (.param v :: ps) ns
  | name {n : String} {ps : List Piece} {ns : List String} (hn : nameFault? d n = none)
    (ho : Opens ps) (h : Spells d ps ns) : Spells d (.name n :: ps) (n :: ns)

namespace Spells

variable {d : Dialect} {ps qs : List Piece} {ns ms : List String} {s : String}

theorem accepted (h : Spells d ps ns) : ∀ n ∈ ns, nameFault? d n = none := by
  induction h with
  | nil => simp
  | text _ _ ih => exact ih
  | param _ ih => exact ih
  | name hn _ _ ih =>
    intro m hm
    rcases List.mem_cons.mp hm with rfl | hm
    · exact hn
    · exact ih m hm

theorem append (h : Spells d ps ns) (h' : Spells d qs ms) (ho : Opens qs) :
    Spells d (ps ++ qs) (ns ++ ms) := by
  induction h with
  | nil => exact h'
  | text hs _ ih => exact .text hs ih
  | param _ ih => exact .param ih
  | name hn hps _ ih => exact .name hn (hps.append ho) ih

theorem between (h : Spells d ps ns) (hs : IsPlain s) (h' : Spells d qs ms) :
    Spells d (ps ++ .text s :: qs) (ns ++ ms) :=
  h.append (.text hs h') trivial

theorem snoc (h : Spells d ps ns) (hs : IsPlain s) : Spells d (ps ++ [.text s]) ns := by
  have := h.between hs .nil
  rwa [List.append_nil] at this

theorem single {n : String} (hn : nameFault? d n = none) : Spells d [.name n] [n] :=
  .name hn trivial .nil

theorem cons_literal (h : Spells d ps ns) (v : Scalar) : Spells d (Piece.literal v :: ps) ns := by
  unfold Piece.literal
  split
  · exact .text (by decide) h
  · exact .param h

theorem literal (v : Scalar) : Spells d [Piece.literal v] [] := Spells.nil.cons_literal v

theorem joined {α : Type} (names : α → List String) {between : String} (hb : IsPlain between)
    {as : List α} {pss : List (List Piece)}
    (h : List.Forall₂ (fun a ps => Spells d ps (names a)) as pss) :
    Spells d (Piece.joined between pss) (as.flatMap names) := by
  induction h with
  | nil => exact .nil
  | @cons a ps as pss ha has ih =>
    cases has with
    | nil => simpa [Piece.joined] using ha
    | cons _ _ => exact ha.between hb ih

end Spells

/-! ### What is read of pieces -/

namespace Piece

/-- The text that pieces write around their names; each name leaves a gap. -/
def around (d : Dialect) : Nat → List Piece → List (Option Char)
  | _, [] => []
  | n, text s :: ps => s.toList.map some ++ around d n ps
  | n, name _ :: ps => none :: around d n ps
  | n, param v :: ps => (placeholder d (n + 1) v).toList.map some ++ around d (n + 1) ps

end Piece

namespace Spells

variable {d : Dialect} {ps : List Piece} {ns : List String}

theorem head_ne (h : Spells d ps ns) (ho : Opens ps) (n : Nat) :
    (Piece.write d n ps).toList.head? ≠ some d.quote := by
  cases h with
  | nil => simp [Piece.write]
  | text hs _ =>
    rw [Piece.write, String.toList_append]
    exact hs.head_ne d _
  | param _ =>
    rw [Piece.write, String.toList_append]
    exact (isPlain_placeholder d _ _).head_ne d _
  | name => exact ho.elim

/-- A reader meets the names that are spelled, and the text around them. -/
theorem read (h : Spells d ps ns) (n : Nat) :
    ∃ ts, Token.read? d (Piece.write d n ps) = some ts ∧ Token.names ts = ns ∧
      Token.around ts = Piece.around d n ps := by
  unfold Token.read?
  induction h generalizing n with
  | nil => exact ⟨[], rfl, rfl, rfl⟩
  | @text s ps ns hs h ih =>
    obtain ⟨ts, hread, hnames, haround⟩ := ih n
    refine ⟨s.toList.map .char ++ ts, ?_, ?_, ?_⟩
    · rw [Piece.write, String.toList_append, readFrom?_append (hs.quote_not_mem d), hread]
      rfl
    · simpa [Token.names, Token.name?, Function.comp_def] using hnames
    · simpa [Token.around, Token.char?, Piece.around, Function.comp_def] using haround
  | @param v ps ns h ih =>
    obtain ⟨ts, hread, hnames, haround⟩ := ih (n + 1)
    have hv := isPlain_placeholder d (n + 1) v
    refine ⟨(Piece.placeholder d (n + 1) v).toList.map .char ++ ts, ?_, ?_, ?_⟩
    · rw [Piece.write, String.toList_append, readFrom?_append (hv.quote_not_mem d), hread]
      rfl
    · simpa [Token.names, Token.name?, Function.comp_def] using hnames
    · simpa [Token.around, Token.char?, Piece.around, Function.comp_def] using haround
  | @name m ps ns hm ho h ih =>
    obtain ⟨ts, hread, hnames, haround⟩ := ih n
    refine ⟨.name m :: ts, ?_, ?_, ?_⟩
    · rw [Piece.write, String.toList_append, quoteText, String.toList_ofList,
        readFrom?_quoteChars (h.head_ne ho n), hread]
      rfl
    · simpa [Token.names, Token.name?] using hnames
    · simpa [Token.around, Token.char?, Piece.around] using haround

end Spells

end TablePipeline.Sql
