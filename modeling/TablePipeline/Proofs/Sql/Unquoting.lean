import TablePipeline.Proofs.Sql.Spelling

/-!
# Quoted names read back

Taking quotes off undoes putting them on, and accepts nothing else: a text between quote characters
pairs up the ones inside in one way only, and both directions check the name in the same way.
-/

set_option autoImplicit false

namespace TablePipeline.Sql

variable {q : Char} {cs inner name : List Char}

theorem undoubleQuotes_doubleQuotes (q : Char) (name : List Char) :
    undoubleQuotes q (doubleQuotes q name) = some name := by
  induction name with
  | nil => rfl
  | cons c name ih =>
    rw [doubleQuotes]
    split
    · rename_i hc
      rw [undoubleQuotes, if_pos rfl, if_pos rfl, ih, hc]
      rfl
    · rename_i hc
      cases hrest : doubleQuotes q name with
      | nil =>
        rw [hrest] at ih
        obtain rfl := Option.some.inj ih
        exact if_neg hc
      | cons c' rest =>
        rw [undoubleQuotes, if_neg hc, ← hrest, ih]
        rfl

theorem doubleQuotes_of_undoubleQuotes (h : undoubleQuotes q cs = some name) :
    doubleQuotes q name = cs := by
  fun_induction undoubleQuotes q cs generalizing name with
  | case1 =>
    obtain rfl := Option.some.inj h
    rfl
  | case2 => cases h
  | case3 c hc =>
    obtain rfl := Option.some.inj h
    rw [doubleQuotes, if_neg hc, doubleQuotes]
  | case4 cs ih =>
    obtain ⟨rest, hrest, rfl⟩ := Option.map_eq_some_iff.mp h
    rw [doubleQuotes, if_pos rfl, ih hrest]
  | case5 => cases h
  | case6 c c' cs hc ih =>
    obtain ⟨rest, hrest, rfl⟩ := Option.map_eq_some_iff.mp h
    rw [doubleQuotes, if_neg hc, ih hrest]

theorem undoubleQuotes_eq_some : undoubleQuotes q cs = some name ↔ doubleQuotes q name = cs :=
  ⟨doubleQuotes_of_undoubleQuotes, fun h => h ▸ undoubleQuotes_doubleQuotes q name⟩

theorem unwrapQuotes_eq_some : unwrapQuotes q cs = some inner ↔ q :: inner ++ [q] = cs := by
  cases cs with
  | nil => simp [unwrapQuotes]
  | cons c cs =>
    rw [unwrapQuotes, List.cons_append, List.cons.injEq, Option.ite_none_right_eq_some]
    constructor
    · rintro ⟨⟨hc, hlast⟩, hinner⟩
      rw [← Option.some.inj hinner]
      exact ⟨hc.symm, List.dropLast_append_getLast? q hlast⟩
    · rintro ⟨rfl, rfl⟩
      exact ⟨⟨rfl, List.getLast?_concat⟩, congrArg some List.dropLast_concat⟩

section
variable {d : Dialect} {n t : String}

theorem quoteName_eq_ok : quoteName d n = .ok t ↔ nameFault? d n = none ∧ quoteText d n = t := by
  unfold quoteName
  rw [Outcome.map_eq_ok]
  constructor
  · rintro ⟨m, hm, rfl⟩
    obtain ⟨hfault, rfl⟩ := checkName_eq_ok.mp hm
    exact ⟨hfault, rfl⟩
  · rintro ⟨hfault, rfl⟩
    exact ⟨n, checkName_eq_ok.mpr ⟨hfault, rfl⟩, rfl⟩

theorem quoteText_eq_iff : quoteText d n = t ↔ quoteChars d.quote n.toList = t.toList := by
  rw [quoteText, ← String.toList_inj, String.toList_ofList]

theorem unquoteName_eq_ok :
    unquoteName d t = .ok n ↔ nameFault? d n = none ∧ quoteText d n = t := by
  rw [quoteText_eq_iff, quoteChars, ← unwrapQuotes_eq_some]
  unfold unquoteName
  cases hinner : unwrapQuotes d.quote t.toList with
  | none => simp
  | some inner =>
    dsimp only
    rw [Option.some.injEq, @eq_comm _ inner, ← undoubleQuotes_eq_some]
    cases hname : undoubleQuotes d.quote inner with
    | none => simp
    | some name =>
      dsimp only
      rw [checkName_eq_ok, Option.some.injEq]
      constructor
      · rintro ⟨hfault, rfl⟩
        exact ⟨hfault, String.toList_ofList.symm⟩
      · rintro ⟨hfault, rfl⟩
        rw [String.ofList_toList]
        exact ⟨hfault, rfl⟩

end

/-- Quoting and unquoting undo each other: no two names are quoted alike, and a text that quotes no
name is refused. -/
theorem quoteName_inverse (d : Dialect) :
    (∀ name quoted : String, quoteName d name = .ok quoted ↔ unquoteName d quoted = .ok name) ∧
      (∀ name other quoted : String, quoteName d name = .ok quoted →
        quoteName d other = .ok quoted → name = other) ∧
      ∀ quoted : String, (∀ name, quoteName d name ≠ .ok quoted) →
        ∃ e, unquoteName d quoted = .error e := by
  have hinverse (name quoted : String) :
      quoteName d name = .ok quoted ↔ unquoteName d quoted = .ok name :=
    quoteName_eq_ok.trans unquoteName_eq_ok.symm
  refine ⟨hinverse, fun name other quoted hname hother => ?_, fun quoted hnone => ?_⟩
  · have h := (hinverse name quoted).mp hname
    rw [(hinverse other quoted).mp hother] at h
    exact (Except.ok.inj h).symm
  · cases h : unquoteName d quoted with
    | error e => exact ⟨e, rfl⟩
    | ok name => exact absurd ((hinverse name quoted).mpr h) (hnone name)

/-- A name of quote characters only: two quotes begin and end the text, and all are in pairs. -/
theorem quoteName_inverse_quotes :
    quoteName .mysql "\x60\x60" = .ok "\x60\x60\x60\x60\x60\x60" ∧
      unquoteName .mysql "\x60\x60\x60\x60\x60\x60" = .ok "\x60\x60" ∧
      ∃ e, unquoteName .mysql "\x60\x60\x60" = .error e := by
  have hquoted : quoteName .mysql "\x60\x60" = .ok "\x60\x60\x60\x60\x60\x60" := by rfl
  refine ⟨hquoted, ((quoteName_inverse .mysql).1 _ _).mp hquoted,
    (quoteName_inverse .mysql).2.2 _ fun name h => ?_⟩
  rw [(quoteName_inverse .mysql).1] at h
  cases h

end TablePipeline.Sql
