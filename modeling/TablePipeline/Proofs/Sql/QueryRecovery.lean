import TablePipeline.Proofs.Sql.ExprRecovery

/-!
# Reading queries back

Predicates, select lists and queries are read from their symbols. Predicates stop before a `WHERE`,
before another join and at the end of a query, where no expression begins.
-/

set_option autoImplicit false

namespace TablePipeline.Sql

open Piece (symbols)

namespace Reader

variable {d : Dialect} {n : Nat} {ps : List Piece} {rest : List Symbol}

/-! ### Predicates -/

/-- What stands behind a query: nothing, or the end of the parentheses around it. -/
inductive Closes : List Symbol → Prop
  | nil : Closes []
  | paren (xs : List Symbol) : Closes (Symbol.ofText ") " ++ xs)

inductive Stops : List Symbol → Prop
  | closes {xs : List Symbol} (h : Closes xs) : Stops xs
  | filters (xs : List Symbol) : Stops (Symbol.ofText " WHERE " ++ xs)
  | join (kind : JoinKind) (xs : List Symbol) :
    Stops (Symbol.ofText (" " ++ kind.text ++ " ") ++ xs)

namespace Stops

theorem clear (h : Stops rest) : Clear rest := by
  cases h with
  | closes h =>
    cases h with
    | nil => nofun
    | paren xs => exact clear_text rfl xs
  | filters xs => exact clear_text rfl xs
  | join kind xs => exact clear_text (by cases kind <;> rfl) xs

theorem and_fails (h : Stops rest) : Fails (skip " AND ") rest := by
  cases h with
  | closes h => cases h <;> rfl
  | filters xs => rfl
  | join kind xs => cases kind <;> rfl

theorem expr_fails (h : Stops rest) (d : Dialect) (n : Nat) : Fails (expr d n) rest := by
  cases n with
  | zero => rfl
  | succ n =>
    cases h with
    | closes h => cases h <;> cases d <;> rfl
    | filters xs => cases d <;> rfl
    | join kind xs => cases kind <;> cases d <;> rfl

theorem conjunction_fails (h : Stops rest) (d : Dialect) (n : Nat) :
    Fails (conjunction d n) rest := by
  unfold conjunction
  cases n with
  | zero => rfl
  | succ n => exact (h.expr_fails d _).bind.bind

end Stops

theorem predicate_reads {p : Predicate} (h : p.pieces d = .ok ps) (hn : ps.length < n)
    (hclear : Clear rest) :
    Reads (predicate d (expr d n) n) (symbols d ps ++ rest) p.normal rest := by
  obtain ⟨left, op, right⟩ := p
  obtain ⟨l, r, hl, hr, rfl⟩ := predicate_written h
  have hright := operand_written hr
  rw [List.length_append] at hn
  rw [Piece.symbols_append, List.append_assoc]
  refine (readsBack d n hl (by omega) (clear_operand hright rest)).bind ?_
  exact comparison_reads (readsBack d n) left.normal hright (by omega) hclear

theorem conjunction_reads {predicates : List Predicate} (hne : predicates ≠ [])
    (h : conjunctionPieces d predicates = .ok ps) (hn : ps.length < n) (hstop : Stops rest) :
    Reads (conjunction d n) (symbols d ps ++ rest) (predicates.map Predicate.normal) rest := by
  obtain ⟨pss, hpss, rfl⟩ := conjunction_written h
  exact separated_reads " AND " Predicate.normal predicate_reads hpss hne hn (clear_text rfl)
    hstop.clear hstop.and_fails

theorem on_reads {predicates : List Predicate} (h : conjunctionPieces d predicates = .ok ps)
    (hn : ps.length < n) (hstop : Stops rest) :
    Reads (conjunction d n <|> return []) (symbols d ps ++ rest) (predicates.map Predicate.normal)
      rest := by
  cases predicates with
  | nil =>
    cases h
    exact .right (hstop.conjunction_fails d n) (.pure _ rest)
  | cons p predicates => exact .left (conjunction_reads (List.cons_ne_nil _ _) h hn hstop)

theorem filters_reads {predicates : List Predicate} (h : wherePieces d predicates = .ok ps)
    (hn : ps.length < n) (hclose : Closes rest) :
    Reads (filters d n) (symbols d ps ++ rest) (predicates.map Predicate.normal) rest := by
  obtain ⟨rfl, rfl⟩ | ⟨hne, qs, hqs, rfl⟩ := where_written h
  · exact .right (by cases hclose <;> rfl) (.pure _ rest)
  · rw [symbols, List.append_assoc]
    exact .left (.skip (conjunction_reads hne hqs (Nat.lt_of_succ_lt hn) (.closes hclose)))

/-! ### Select lists -/

theorem item_reads {selected : SelectItem} (h : selected.pieces d = .ok ps) (hn : ps.length < n)
    (_ : Clear rest) : Reads (item d n) (symbols d ps ++ rest) selected.normal rest := by
  cases selected with
  | wildcard table =>
    obtain ⟨_, rfl⟩ := wildcard_written h
    exact .left rfl
  | expr e aliasName =>
    obtain ⟨qs, hqs, _, rfl⟩ := exprItem_written h
    rw [List.length_append] at hn
    simp only [symbols, Piece.symbols_append, List.append_assoc, List.cons_append, List.nil_append]
    refine .right ?_ ((readsBack d n hqs (by omega) (clear_text rfl _)).bind (.skip ?_))
    · cases hcolumn : e.isColumn with
      | false => exact (name_fails hqs hcolumn).bind
      | true =>
        cases e with
        | column table name =>
          cases table with
          | none =>
            obtain ⟨_, rfl⟩ := column_written hqs
            rfl
          | some table =>
            obtain ⟨_, _, rfl⟩ := qualified_written hqs
            rfl
        | _ => cases hcolumn
    · exact Reads.bind rfl (.pure _ rest)

theorem star_fails {selected : SelectItem} (h : selected.pieces d = .ok ps) :
    Fails (skip "*") (symbols d ps ++ rest) := by
  cases selected with
  | wildcard table =>
    obtain ⟨_, rfl⟩ := wildcard_written h
    rfl
  | expr e aliasName =>
    obtain ⟨qs, hqs, _, rfl⟩ := exprItem_written h
    obtain ⟨x, xs, hx, hbegins⟩ := begins_of_pieces hqs
    rw [Piece.symbols_append, hx]
    cases hbegins <;> rfl

theorem projection_reads {selected : List SelectItem} {pss : List (List Piece)}
    (h : List.Forall₂ (fun item ps => item.pieces d = .ok ps) selected pss)
    (hn : (if pss.isEmpty then [.text "*"] else Piece.joined ", " pss).length < n) :
    Reads (projection d n)
      (symbols d (if pss.isEmpty then [.text "*"] else Piece.joined ", " pss) ++
        (Symbol.ofText " FROM " ++ rest))
      (selected.map SelectItem.normal) (Symbol.ofText " FROM " ++ rest) := by
  cases h with
  | nil => exact .left rfl
  | @cons selected ps items pss hps hpss =>
    have hstar : Fails (skip "*") (symbols d (Piece.joined ", " (ps :: pss)) ++
        (Symbol.ofText " FROM " ++ rest)) := by
      cases hpss with
      | nil => exact star_fails hps
      | cons _ _ =>
        rw [joined_cons_cons, Piece.symbols_append, List.append_assoc]
        exact star_fails hps
    have hend : Clear (Symbol.ofText " FROM " ++ rest) := clear_text rfl rest
    exact .right hstar.bind (separated_reads ", " SelectItem.normal item_reads (.cons hps hpss)
      (List.cons_ne_nil _ _) hn (clear_text rfl) hend rfl)

/-! ### Queries -/

def ReadsQueries (d : Dialect) (n : Nat) : Prop :=
  ∀ {q : Query} {ps : List Piece} {rest : List Symbol}, q.pieces d = .ok ps → ps.length < n →
    Closes rest → Reads (query d n) (symbols d ps ++ rest) q.normal rest

theorem path_reads {written : String} (h : pathPieces d written = .ok ps) (rest : List Symbol) :
    ∃ segments, quotedPath .postgres segments = normalPath written ∧
      Reads path (symbols d ps ++ (Symbol.ofText " " ++ rest)) segments
        (Symbol.ofText " " ++ rest) ∧
      Fails (skip "(") (symbols d ps ++ (Symbol.ofText " " ++ rest)) := by
  obtain ⟨segments, hsplit, hlength, _, rfl⟩ := path_written h
  refine ⟨segments, by rw [normalPath, hsplit], ?_⟩
  rcases segments with _ | ⟨first, _ | ⟨second, _ | ⟨third, others⟩⟩⟩
  · exact (splitPath_ne_nil hsplit rfl).elim
  · exact ⟨rfl, rfl⟩
  · exact ⟨rfl, rfl⟩
  · simp at hlength

theorem stops_of_joins {joins : List Join} (h : joinsPieces d joins = .ok ps)
    (hstop : Stops rest) : Stops (symbols d ps ++ rest) := by
  cases joins with
  | nil =>
    obtain rfl := Except.ok.inj h
    exact hstop
  | cons j js =>
    obtain ⟨p, qs, hp, _, rfl⟩ := joins_written h
    obtain ⟨kind, item, on⟩ := j
    obtain ⟨i, o, _, _, rfl⟩ := join_written hp
    simp only [symbols, List.append_assoc, List.cons_append]
    exact .join kind _

/-- Behind the joins of a query predicates stop and no other join follows. -/
theorem stops_of_where {predicates : List Predicate} (h : wherePieces d predicates = .ok ps)
    (hclose : Closes rest) :
    Stops (symbols d ps ++ rest) ∧
      ∀ p : Reader Query, Fails (join d n p) (symbols d ps ++ rest) := by
  obtain ⟨rfl, rfl⟩ | ⟨_, qs, _, rfl⟩ := where_written h
  · exact ⟨.closes hclose, fun p => Fails.bind (by cases hclose <;> rfl)⟩
  · rw [symbols, List.append_assoc]
    exact ⟨.filters _, fun p => Fails.bind rfl⟩

theorem length_le_joins {joins : List Join} (h : joinsPieces d joins = .ok ps) :
    joins.length ≤ ps.length := by
  induction joins generalizing ps with
  | nil => exact Nat.zero_le _
  | cons j js ih =>
    obtain ⟨p, qs, hp, hqs, rfl⟩ := joins_written h
    obtain ⟨kind, item, on⟩ := j
    obtain ⟨i, o, _, _, rfl⟩ := join_written hp
    have hjs := ih hqs
    simp only [List.cons_append, List.length_cons, List.length_append]
    omega

section
variable (hqueries : ReadsQueries d n)
include hqueries

theorem source_reads {item : FromItem} (h : item.pieces d = .ok ps) (hn : ps.length < n)
    (rest : List Symbol) :
    Reads (source (query d n)) (symbols d ps ++ rest) item.normal rest := by
  cases item with
  | table written aliasName =>
    obtain ⟨qs, hqs, _, rfl⟩ := table_written h
    simp only [symbols, Piece.symbols_append, List.append_assoc, List.cons_append, List.nil_append]
    obtain ⟨segments, hnormal, hpath, hparen⟩ := path_reads hqs (.name aliasName :: rest)
    rw [FromItem.normal, ← hnormal]
    exact .right hparen.bind (hpath.bind (.skip (Reads.bind rfl (.pure _ rest))))
  | derived q aliasName =>
    obtain ⟨qs, hqs, _, rfl⟩ := derived_written h
    simp only [List.cons_append, List.length_cons, List.length_append] at hn
    simp only [symbols, Piece.symbols_append, List.append_assoc, List.cons_append, List.nil_append]
    refine .left (.skip ((hqueries hqs (by omega) (.paren _)).bind (.skip ?_)))
    exact Reads.bind rfl (.pure _ rest)

theorem join_reads {joined : Join} (h : joined.pieces d = .ok ps) (hn : ps.length < n)
    (hstop : Stops rest) :
    Reads (join d n (query d n)) (symbols d ps ++ rest) joined.normal rest := by
  obtain ⟨kind, item, on⟩ := joined
  obtain ⟨i, o, hi, ho, rfl⟩ := join_written h
  simp only [List.cons_append, List.length_cons, List.length_append] at hn
  simp only [symbols, Piece.symbols_append, List.append_assoc, List.cons_append]
  have hkind : Reads (oneOf (fun kind : JoinKind => " " ++ kind.text ++ " ") [.inner, .left])
      (Symbol.ofText (" " ++ kind.text ++ " ") ++
        (symbols d i ++ (Symbol.ofText " ON " ++ (symbols d o ++ rest)))) kind
      (symbols d i ++ (Symbol.ofText " ON " ++ (symbols d o ++ rest))) :=
    oneOf_reads (by decide +kernel) (by cases kind <;> decide) _
  refine hkind.bind ((source_reads hqueries hi (by omega) _).bind (.skip ?_))
  exact (on_reads ho (by omega) hstop).bind (.pure _ rest)

/-- Joins are read where no other join follows. -/
theorem joins_read {joins : List Join} (h : joinsPieces d joins = .ok ps) (hn : ps.length < n)
    (hstop : Stops rest) (hlast : Fails (join d n (query d n)) rest) (k : Nat)
    (hk : joins.length ≤ k) :
    Reads (many (join d n (query d n)) k) (symbols d ps ++ rest) (normalJoins joins) rest := by
  induction joins generalizing ps k with
  | nil =>
    obtain rfl := Except.ok.inj h
    cases k with
    | zero => exact .pure _ rest
    | succ k => exact .right hlast.bind (.pure _ rest)
  | cons j js ih =>
    obtain ⟨p, qs, hp, hqs, rfl⟩ := joins_written h
    rw [List.length_append] at hn
    cases k with
    | zero => cases hk
    | succ k =>
      have htail := ih hqs (by omega) k (Nat.succ_le_succ_iff.mp hk)
      rw [Piece.symbols_append, List.append_assoc]
      refine .left ((join_reads hqueries hp (by omega) (stops_of_joins hqs hstop)).bind ?_)
      exact htail.bind (.pure _ rest)

end

theorem readsQueries (d : Dialect) (n : Nat) : ReadsQueries d n := by
  induction n with
  | zero =>
    intro q ps rest _ hn
    exact (Nat.not_lt_zero _ hn).elim
  | succ n ih =>
    intro q ps rest h hn hclose
    obtain ⟨selected, item, joins, filtered⟩ := q
    obtain ⟨items, f, js, w, hitems, hf, hjs, hw, rfl⟩ := select_written h
    have hlength := length_le_joins hjs
    simp only [List.cons_append, List.length_cons, List.length_append] at hn
    simp only [symbols, Piece.symbols_append, List.append_assoc, List.cons_append]
    obtain ⟨hstop, hlast⟩ := stops_of_where hw hclose
    refine .skip ((projection_reads hitems (by omega)).bind (.skip ?_))
    refine (source_reads ih hf (by omega) _).bind ?_
    refine (joins_read ih hjs (by omega) hstop (hlast _) n (by omega)).bind ?_
    exact (filters_reads hw (by omega) hclose).bind (.pure _ rest)

end Reader

end TablePipeline.Sql
