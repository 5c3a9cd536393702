import TablePipeline.Proofs.Sql.Names

/-!
# Quoted paths read back

A path that is quoted has the segments that it was made of, whatever dots and quote characters are
in them. So two paths are quoted alike just if they have the same segments.
-/

set_option autoImplicit false

namespace TablePipeline.Sql

/-- Only the end of a text and the three dots give a segment, and they never give none. -/
theorem segmentsFrom_ne_nil {state : PathState} {seen cs : List Char} {segments : List String}
    (h : segmentsFrom state seen cs = .ok segments) : segments ≠ [] := by
  have hcons {first : String} {rest : Except NameFault (List String)}
      (h : rest.map (first :: ·) = .ok segments) : segments ≠ [] := by
    obtain ⟨_, _, rfl⟩ := Outcome.map_eq_ok.mp h
    exact List.cons_ne_nil _ _
  fun_induction segmentsFrom state seen cs with
  | case1 => cases h
  | case2 => cases h; exact List.cons_ne_nil _ _
  | case3 _ _ _ ih => exact ih h
  | case4 _ _ _ _ _ ih => exact ih h
  | case5 _ _ _ ih => exact ih h
  | case6 => exact hcons h
  | case7 => cases h
  | case8 => exact hcons h
  | case9 _ _ _ _ _ ih => exact ih h
  | case10 _ _ _ _ _ ih => exact ih h
  | case11 => exact hcons h
  | case12 _ _ _ _ ih => exact ih h

theorem splitPath_eq_ok {path : String} {segments : List String} :
    splitPath path = .ok segments ↔ segmentsFrom .start [] path.toList = .ok segments := by
  unfold splitPath
  cases segmentsFrom .start [] path.toList <;> simp

theorem splitPath_ne_nil {path : String} {segments : List String}
    (h : splitPath path = .ok segments) : segments ≠ [] :=
  segmentsFrom_ne_nil (splitPath_eq_ok.mp h)

/-! ### Segments in quotes -/

section
variable {q : Char}

theorem segmentsFrom_doubleQuotes (name seen rest : List Char) :
    segmentsFrom (.inside q) seen (doubleQuotes q name ++ rest) =
      segmentsFrom (.inside q) (name.reverse ++ seen) rest := by
  induction name generalizing seen with
  | nil => rfl
  | cons c cs ih =>
    rw [List.reverse_cons, List.append_assoc, List.singleton_append, ← ih, doubleQuotes]
    split
    · rename_i hc
      subst hc
      simp only [List.cons_append, segmentsFrom, if_true]
    · rename_i hc
      simp only [List.cons_append, segmentsFrom, hc, if_false]

theorem segmentsFrom_quoteChars (hq : q = '"' ∨ q = '\x60') (name rest : List Char) :
    segmentsFrom .start [] (quoteChars q name ++ rest) =
      segmentsFrom (.closing q) name.reverse rest := by
  have hdot : q ≠ '.' := by rintro rfl; revert hq; decide
  rw [quoteChars, List.cons_append, List.cons_append, List.append_assoc, segmentsFrom,
    if_neg hdot, if_pos hq, segmentsFrom_doubleQuotes, List.append_nil, List.singleton_append,
    segmentsFrom, if_pos rfl]

end

theorem Dialect.quote_eq_or (d : Dialect) : d.quote = '"' ∨ d.quote = '\x60' := by
  cases d <;> decide

theorem Dialect.quote_ne_dot (d : Dialect) : '.' ≠ d.quote := by cases d <;> decide

variable {d : Dialect} {p q s t : String} {segments : List String}

def quotedPath (d : Dialect) (segments : List String) : String :=
  String.intercalate "." (segments.map (quoteText d))

theorem toList_quotedPath_cons (n : String) (ns : List String) :
    (quotedPath d (n :: ns)).toList = quoteChars d.quote n.toList ++
      if ns = [] then [] else '.' :: (quotedPath d ns).toList := by
  unfold quotedPath
  rw [String.toList_intercalate, String.toList_intercalate]
  cases ns with
  | nil => simp [quoteText]
  | cons m ms =>
    simp only [List.map_cons, List.intercalate_cons_cons, quoteText, String.toList_ofList]
    simp

/-- The segments of a quoted path are the ones that were quoted. -/
theorem splitPath_quotedPath (hne : segments ≠ []) :
    splitPath (quotedPath d segments) = .ok segments := by
  rw [splitPath_eq_ok]
  induction segments with
  | nil => exact (hne rfl).elim
  | cons n ns ih =>
    rw [toList_quotedPath_cons, segmentsFrom_quoteChars d.quote_eq_or]
    split
    · rename_i hns
      subst hns
      simp [segmentsFrom]
    · rename_i hns
      rw [segmentsFrom, if_neg d.quote_ne_dot, if_pos rfl, ih hns, List.reverse_reverse,
        String.ofList_toList]
      rfl

theorem quotePath_eq_ok :
    quotePath d p = .ok s ↔ ∃ segments, tablePath d p = .ok segments ∧ quotedPath d segments = s :=
  Outcome.map_eq_ok

theorem splitPath_of_quotePath (h : quotePath d p = .ok s) : splitPath s = splitPath p := by
  obtain ⟨segments, hsegments, rfl⟩ := quotePath_eq_ok.mp h
  have hsplit := (tablePath_eq_ok.mp hsegments).1
  rw [hsplit, splitPath_quotedPath (splitPath_ne_nil hsplit)]

/-- Two paths are quoted alike just if they have the same segments. -/
theorem quotePath_eq_iff (hp : quotePath d p = .ok s) (hq : quotePath d q = .ok t) :
    t = s ↔ splitPath q = splitPath p := by
  constructor
  · rintro rfl
    rw [← splitPath_of_quotePath hp, ← splitPath_of_quotePath hq]
  · intro h
    obtain ⟨segments, hsegments, rfl⟩ := quotePath_eq_ok.mp hp
    obtain ⟨segments', hsegments', rfl⟩ := quotePath_eq_ok.mp hq
    rw [(tablePath_eq_ok.mp hsegments).1, (tablePath_eq_ok.mp hsegments').1] at h
    rw [Except.ok.inj h]

theorem getLast?_quotedPath (hne : segments ≠ []) :
    (quotedPath d segments).toList.getLast? = some d.quote := by
  induction segments with
  | nil => exact (hne rfl).elim
  | cons n ns ih =>
    rw [toList_quotedPath_cons]
    split
    · rw [List.append_nil, quoteChars, List.getLast?_concat]
    · rename_i hns
      rw [List.getLast?_append, List.getLast?_cons, ih hns]
      rfl

/-! ### Segments without dots -/

/-- Segments without dots are told apart by what they give with dots between. -/
theorem intercalate_inj_of_undotted {ps qs : List String} (hps : ps ≠ []) (hqs : qs ≠ [])
    (hp : ∀ n ∈ ps, '.' ∉ n.toList) (hq : ∀ n ∈ qs, '.' ∉ n.toList)
    (h : String.intercalate "." ps = String.intercalate "." qs) : ps = qs := by
  have hsplit {ns : List String} (hne : ns ≠ []) (hn : ∀ n ∈ ns, '.' ∉ n.toList) :
      (String.intercalate "." ns).toList.splitOn '.' = ns.map String.toList := by
    rw [String.toList_intercalate]
    refine List.splitOn_intercalate '.' ?_ (by simpa using hne)
    intro cs hcs
    obtain ⟨n, hmem, rfl⟩ := List.mem_map.mp hcs
    exact hn n hmem
  have hmap : ps.map String.toList = qs.map String.toList := by
    rw [← hsplit hps hp, ← hsplit hqs hq, h]
  exact List.map_injective_iff.mpr (fun _ _ => String.toList_inj.mp) hmap

end TablePipeline.Sql
