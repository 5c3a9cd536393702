import Mathlib.Data.List.Forall2
import TablePipeline.Rule.Like

/-!
# What a pattern matches

A text matches a pattern if it can be cut into pieces that fit the tokens of the pattern in order.
Matching goes back to the last run only. This loses nothing: where an earlier run could take more
characters, what is behind the last run would be left with a shorter end of the text, and the last
run can take what lies before that end.
-/

set_option autoImplicit false

namespace TablePipeline.Like

variable {ts us : List Token} {text : List Char}

/-! ### Patterns and pieces -/

/-- The tokens that a pattern stands for. -/
inductive Spells : List Char → List Token → Prop
  | nil : Spells [] []
  | anyRun {cs : List Char} {ts : List Token} : Spells cs ts → Spells ('%' :: cs) (.anyRun :: ts)
  | anyOne {cs : List Char} {ts : List Token} : Spells cs ts → Spells ('_' :: cs) (.anyOne :: ts)
  | escaped {cs : List Char} {ts : List Token} (c : Char) :
      Spells cs ts → Spells ('\\' :: c :: cs) (.literal c :: ts)
  /-- A backslash with nothing behind it. -/
  | backslash : Spells ['\\'] [.literal '\\']
  | plain {cs : List Char} {ts : List Token} {c : Char} (hrun : c ≠ '%') (hone : c ≠ '_')
      (hbackslash : c ≠ '\\') : Spells cs ts → Spells (c :: cs) (.literal c :: ts)

theorem spells_tokens (cs : List Char) : Spells cs (tokens cs) := by
  fun_induction tokens cs with
  | case1 => exact .nil
  | case2 => exact .backslash
  | case3 c cs ih => exact .escaped c ih
  | case4 cs ih => exact .anyRun ih
  | case5 cs ih => exact .anyOne ih
  | case6 c cs hlone hescape hrun hone ih =>
    refine .plain hrun hone ?_ ih
    rintro rfl
    cases cs with
    | nil => exact hlone rfl rfl
    | cons d ds => exact hescape d ds rfl rfl

theorem Spells.tokens_eq {cs : List Char} (h : Spells cs ts) : tokens cs = ts := by
  induction h with
  | nil => rfl
  | backslash => rfl
  | anyRun _ ih => rw [tokens, ih]
  | anyOne _ ih => rw [tokens, ih]
  | escaped c _ ih => rw [tokens, ih]
  | plain hrun hone hbackslash _ ih =>
    rw [tokens, ih]
    · exact fun h _ => hbackslash h
    · exact fun _ _ h _ => hbackslash h
    · exact hrun
    · exact hone

/-- The pieces of a text that a token matches. -/
def Token.Fits : Token → List Char → Prop
  | .anyRun, _ => True
  | .anyOne, piece => ∃ c, piece = [c]
  | .literal c, piece => piece = [c]

/-- A text can be cut into pieces that fit the tokens in order. -/
def Matches (ts : List Token) (text : List Char) : Prop :=
  ∃ pieces, List.Forall₂ Token.Fits ts pieces ∧ pieces.flatten = text

theorem matches_nil : Matches [] text ↔ text = [] := by
  simp [Matches, eq_comm]

theorem matches_cons {t : Token} :
    Matches (t :: ts) text ↔
      ∃ piece rest, t.Fits piece ∧ Matches ts rest ∧ piece ++ rest = text := by
  constructor
  · rintro ⟨pieces, hfits, rfl⟩
    obtain ⟨piece, pieces, ht, hts, rfl⟩ := List.forall₂_cons_left_iff.mp hfits
    exact ⟨piece, pieces.flatten, ht, ⟨pieces, hts, rfl⟩, rfl⟩
  · rintro ⟨piece, rest, ht, ⟨pieces, hts, rfl⟩, rfl⟩
    exact ⟨piece :: pieces, .cons ht hts, rfl⟩

theorem matches_anyOne_cons {c : Char} {cs : List Char} :
    Matches (.anyOne :: ts) (c :: cs) ↔ Matches ts cs := by
  rw [matches_cons]
  constructor
  · rintro ⟨_, rest, ⟨d, rfl⟩, h, heq⟩
    obtain ⟨-, rfl⟩ := List.cons.inj heq
    exact h
  · exact fun h => ⟨[c], cs, ⟨c, rfl⟩, h, rfl⟩

theorem matches_literal_cons {l c : Char} {cs : List Char} :
    Matches (.literal l :: ts) (c :: cs) ↔ l = c ∧ Matches ts cs := by
  rw [matches_cons]
  constructor
  · rintro ⟨_, rest, rfl, h, heq⟩
    obtain ⟨rfl, rfl⟩ := List.cons.inj heq
    exact ⟨rfl, h⟩
  · rintro ⟨rfl, h⟩
    exact ⟨[l], cs, rfl, h, rfl⟩

theorem matches_anyRun_cons :
    Matches (.anyRun :: ts) text ↔ ∃ rest, rest <:+ text ∧ Matches ts rest := by
  rw [matches_cons]
  constructor
  · rintro ⟨piece, rest, -, h, rfl⟩
    exact ⟨rest, List.suffix_append _ _, h⟩
  · rintro ⟨rest, ⟨piece, rfl⟩, h⟩
    exact ⟨piece, rest, trivial, h, rfl⟩

/-- Nothing is left of a text that only runs match. -/
theorem matches_empty : Matches ts [] ↔ ts.all (· == .anyRun) = true := by
  induction ts with
  | nil => simp [matches_nil]
  | cons t ts ih =>
    cases t with
    | anyRun => simpa [matches_anyRun_cons] using ih
    | anyOne => simp [matches_cons, Token.Fits]
    | literal c => simp [matches_cons, Token.Fits]

theorem matches_append :
    Matches (ts ++ us) text ↔ ∃ front back, Matches ts front ∧ Matches us back ∧
      front ++ back = text := by
  induction ts generalizing text with
  | nil => simp [matches_nil]
  | cons t ts ih =>
    rw [List.cons_append, matches_cons]
    constructor
    · rintro ⟨piece, rest, ht, hrest, rfl⟩
      obtain ⟨front, back, hfront, hback, rfl⟩ := ih.mp hrest
      exact ⟨piece ++ front, back, matches_cons.mpr ⟨piece, front, ht, hfront, rfl⟩, hback,
        List.append_assoc _ _ _⟩
    · rintro ⟨_, back, hcons, hback, rfl⟩
      obtain ⟨piece, front, ht, hfront, rfl⟩ := matches_cons.mp hcons
      exact ⟨piece, front ++ back, ht, ih.mpr ⟨front, back, hfront, hback, rfl⟩,
        (List.append_assoc _ _ _).symm⟩

theorem Matches.length_eq (h : Matches ts text) (hrun : .anyRun ∉ ts) :
    text.length = ts.length := by
  induction ts generalizing text with
  | nil => rw [matches_nil.mp h, List.length_nil, List.length_nil]
  | cons t ts ih =>
    obtain ⟨piece, rest, ht, hrest, rfl⟩ := matches_cons.mp h
    obtain ⟨hne, hrun⟩ := not_or.mp (List.mem_cons.not.mp hrun)
    have hpiece : piece.length = 1 := by
      cases t with
      | anyRun => exact absurd rfl hne
      | anyOne =>
        obtain ⟨c, rfl⟩ := ht
        rfl
      | literal c =>
        obtain rfl : piece = [c] := ht
        rfl
    rw [List.length_append, hpiece, ih hrest hrun, List.length_cons, Nat.add_comm]

/-! ### Behind a run -/

namespace Rest

/-- From `r` to `s` each token has taken one character. -/
def Reaches (r s : Rest) : Prop :=
  ∃ read taken, .anyRun ∉ read ∧ taken.length = read.length ∧ r.tokens = read ++ s.tokens ∧
    r.text = taken ++ s.text

theorem reaches_self (r : Rest) : r.Reaches r := ⟨[], [], List.not_mem_nil, rfl, rfl, rfl⟩

theorem Reaches.take {r : Rest} {t : Token} {c : Char} (h : r.Reaches ⟨c :: text, t :: ts⟩)
    (ht : t ≠ .anyRun) : r.Reaches ⟨text, ts⟩ := by
  obtain ⟨read, taken, hrun, hlength, htokens, htext⟩ := h
  refine ⟨read ++ [t], taken ++ [c], ?_, ?_, ?_, ?_⟩
  · simpa using ⟨hrun, ht.symm⟩
  · rw [List.length_append, List.length_append, hlength, List.length_singleton,
      List.length_singleton]
  · rw [htokens, List.append_assoc, List.singleton_append]
  · rw [htext, List.append_assoc, List.singleton_append]

/-- The run before `r` takes one character more, or several, and what is left matches. -/
def MatchesLater (r : Rest) : Prop :=
  ∃ c cs, r.text = c :: cs ∧ Matches (.anyRun :: r.tokens) cs

theorem not_matchesLater_nil : ¬MatchesLater ⟨[], ts⟩ := by
  rintro ⟨c, cs, ⟨⟩, -⟩

theorem matchesLater_cons {c : Char} :
    MatchesLater ⟨c :: text, ts⟩ ↔ Matches (.anyRun :: ts) text := by
  constructor
  · rintro ⟨d, cs, heq, h⟩
    obtain ⟨-, rfl⟩ := List.cons.inj heq
    exact h
  · exact fun h => ⟨c, text, rfl, h⟩

/-- A run takes nothing, or one character or more. -/
theorem matches_anyRun_iff :
    Matches (.anyRun :: ts) text ↔ Matches ts text ∨ MatchesLater ⟨text, ts⟩ := by
  rw [matches_anyRun_cons]
  constructor
  · rintro ⟨rest, hsuffix, h⟩
    cases text with
    | nil =>
      rw [List.suffix_nil.mp hsuffix] at h
      exact .inl h
    | cons c cs =>
      rcases List.suffix_cons_iff.mp hsuffix with rfl | hsuffix
      · exact .inl h
      · exact .inr (matchesLater_cons.mpr (matches_anyRun_cons.mpr ⟨rest, hsuffix, h⟩))
  · rintro (h | ⟨c, cs, htext, h⟩)
    · exact ⟨text, List.suffix_rfl, h⟩
    · obtain ⟨rest, hsuffix, h⟩ := matches_anyRun_cons.mp h
      obtain rfl : text = c :: cs := htext
      exact ⟨rest, hsuffix.trans (List.suffix_cons c cs), h⟩

/-- If the run before `r` takes more, each token on the way to `s` still takes one character, so a
shorter end of the text is left for what stands at `s`. -/
theorem Reaches.shorter {r s : Rest} (h : r.Reaches s) (hlater : r.MatchesLater) :
    ∃ back, back <:+ s.text ∧ back.length < s.text.length ∧ Matches s.tokens back := by
  obtain ⟨read, taken, hrun, hlength, htokens, htext⟩ := h
  obtain ⟨c, cs, hcs, h⟩ := hlater
  obtain ⟨rest, hrest, h⟩ := matches_anyRun_cons.mp h
  rw [htokens] at h
  obtain ⟨front, back, hfront, hback, rfl⟩ := matches_append.mp h
  have hsuffix : back <:+ taken ++ s.text := by
    rw [← htext, hcs]
    exact ((List.suffix_append _ _).trans hrest).trans (List.suffix_cons c cs)
  have hshort : back.length < s.text.length := by
    have hle := hrest.length_le
    have htotal := congrArg List.length (htext.symm.trans hcs)
    rw [List.length_append, hfront.length_eq hrun] at hle
    rw [List.length_append, List.length_cons, hlength] at htotal
    omega
  exact ⟨back, List.suffix_of_suffix_length_le hsuffix (List.suffix_append _ _)
    (Nat.le_of_lt hshort), hshort, hback⟩

end Rest

/-! ### Steps keep what can be matched -/

namespace State

/-- Since the last run each token has taken one character. -/
def Valid (s : State) : Prop := ∀ r ∈ s.behindRun, r.Reaches s.rest

/-- What is left matches as it is, or after the last run has taken more. -/
def CanMatch (s : State) : Prop :=
  Matches s.rest.tokens s.rest.text ∨ ∃ r ∈ s.behindRun, r.MatchesLater

/-- What a step from `s` may give: the right answer, or a state from which the same is possible. -/
def Keeps (s : State) : Bool ⊕ State → Prop
  | .inl answer => answer = true ↔ s.CanMatch
  | .inr next => next.Valid ∧ (next.CanMatch ↔ s.CanMatch)

theorem lengthenRun_keeps {s : State} (h : ¬Matches s.rest.tokens s.rest.text) :
    s.Keeps s.lengthenRun := by
  obtain ⟨rest, behindRun⟩ := s
  fun_cases lengthenRun ⟨rest, behindRun⟩ with
  | case1 c cs ts heq =>
    obtain rfl : behindRun = some ⟨c :: cs, ts⟩ := heq
    refine ⟨fun r hr => Option.some.inj hr ▸ r.reaches_self, ?_⟩
    simp [CanMatch, h, Rest.matchesLater_cons, Rest.matches_anyRun_iff]
  | case2 hnone =>
    have hlater : ¬∃ r ∈ behindRun, r.MatchesLater := by
      rintro ⟨⟨text, ts⟩, hr, hlater⟩
      cases text with
      | nil => exact Rest.not_matchesLater_nil hlater
      | cons c cs => exact hnone c cs ts hr
    exact iff_of_false Bool.false_ne_true (not_or.mpr ⟨h, hlater⟩)

/-- A step keeps what can match: no end of a text is shorter than what is left of it, and a run that
is met can do whatever an earlier one could. -/
theorem step_keeps {s : State} (hs : s.Valid) : s.Keeps s.step := by
  obtain ⟨rest, behindRun⟩ := s
  fun_cases step ⟨rest, behindRun⟩ with
  | case1 ts heq =>
    obtain rfl : rest = ⟨[], ts⟩ := heq
    have hlater : ¬∃ r ∈ behindRun, r.MatchesLater := by
      rintro ⟨r, hr, hlater⟩
      obtain ⟨_, _, hlt, _⟩ := (hs r hr).shorter hlater
      exact absurd hlt (Nat.not_lt_zero _)
    simp only [Keeps, CanMatch, hlater, or_false, matches_empty]
  | case2 c cs ts heq =>
    obtain rfl : rest = ⟨c :: cs, .anyRun :: ts⟩ := heq
    have hlater : (∃ r ∈ behindRun, r.MatchesLater) → Matches (.anyRun :: ts) (c :: cs) := by
      rintro ⟨r, hr, hlater⟩
      obtain ⟨back, hback, _, h⟩ := (hs r hr).shorter hlater
      obtain ⟨rest, hrest, h⟩ := matches_anyRun_cons.mp h
      exact matches_anyRun_cons.mpr ⟨rest, hrest.trans hback, h⟩
    refine ⟨fun r hr => Option.some.inj hr ▸ r.reaches_self, ?_⟩
    simp only [CanMatch, Option.mem_some_iff, exists_eq_left', ← Rest.matches_anyRun_iff]
    exact (or_iff_left_of_imp hlater).symm
  | case3 c cs ts heq =>
    obtain rfl : rest = ⟨c :: cs, .anyOne :: ts⟩ := heq
    refine ⟨fun r hr => (hs r hr).take (by decide), ?_⟩
    simp only [CanMatch, matches_anyOne_cons]
  | case4 cs l ts heq =>
    obtain rfl : rest = ⟨l :: cs, .literal l :: ts⟩ := heq
    refine ⟨fun r hr => (hs r hr).take Token.noConfusion, ?_⟩
    simp only [CanMatch, matches_literal_cons, true_and]
  | case5 c cs l ts heq hne =>
    obtain rfl : rest = ⟨c :: cs, .literal l :: ts⟩ := heq
    exact lengthenRun_keeps fun h => hne (matches_literal_cons.mp h).1
  | case6 c cs heq =>
    obtain rfl : rest = ⟨c :: cs, []⟩ := heq
    exact lengthenRun_keeps fun h => List.cons_ne_nil _ _ (matches_nil.mp h)

/-- The steps from a state find a match just if there is one. -/
theorem run_eq_true_iff {s : State} (hs : s.Valid) : s.run = true ↔ s.CanMatch := by
  induction s using run.induct with
  | case1 s answer h =>
    have hkeeps := step_keeps hs
    rw [h] at hkeeps
    rw [run, h]
    exact hkeeps
  | case2 s next h ih =>
    have hkeeps := step_keeps hs
    rw [h] at hkeeps
    rw [run, h]
    exact (ih hkeeps.1).trans hkeeps.2

end State

theorem isMatch_iff_matches (text pattern : String) :
    isMatch text pattern = true ↔ Matches (tokens pattern.toList) text.toList := by
  have hvalid : (State.start text pattern).Valid := fun r hr => (Option.not_mem_none r hr).elim
  rw [isMatch, State.run_eq_true_iff hvalid]
  simp [State.CanMatch, State.start]

/-- Matching comes to an end from every state, and a text matches a pattern just if it can be cut
into pieces that fit the tokens that the pattern spells. -/
theorem isMatch_iff_pieces :
    WellFounded State.Next ∧
      ∀ text pattern : String, isMatch text pattern = true ↔
        ∃ ts pieces, Spells pattern.toList ts ∧ List.Forall₂ Token.Fits ts pieces ∧
          pieces.flatten = text.toList := by
  refine ⟨State.wellFounded_next, fun text pattern => ?_⟩
  rw [isMatch_iff_matches]
  constructor
  · rintro ⟨pieces, hfits, hflatten⟩
    exact ⟨_, pieces, spells_tokens _, hfits, hflatten⟩
  · rintro ⟨ts, pieces, hspells, hfits, hflatten⟩
    exact ⟨pieces, hspells.tokens_eq ▸ hfits, hflatten⟩

end TablePipeline.Like
