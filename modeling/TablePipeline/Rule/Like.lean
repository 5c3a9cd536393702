/-!
# Patterns of LIKE

`%` stands for any run of characters, `_` for one, and a backslash takes the next character as it
is. A text is matched from the left: a run takes no character at first and one more each time that
what stands behind it does not fit. Once a later run is met, the earlier ones are settled. Main
statement: no sequence of steps goes on forever.
-/

set_option autoImplicit false

namespace TablePipeline.Like

inductive Token
  | anyRun
  | anyOne
  | literal (c : Char)
  deriving DecidableEq, Repr

/-- The tokens of a pattern; a backslash at the end stands for itself. -/
def tokens : List Char → List Token
  | [] => []
  | ['\\'] => [.literal '\\']
  | '\\' :: c :: cs => .literal c :: tokens cs
  | '%' :: cs => .anyRun :: tokens cs
  | '_' :: cs => .anyOne :: tokens cs
  | c :: cs => .literal c :: tokens cs

/-- What is left of a text and of the tokens that it has to match. -/
structure Rest where
  text : List Char
  tokens : List Token
  deriving DecidableEq, Repr

structure State where
  rest : Rest
  /-- What was left behind the last run when that was tried for the last time. -/
  behindRun : Option Rest
  deriving DecidableEq, Repr

namespace State

def start (text pattern : String) : State := ⟨⟨text.toList, Like.tokens pattern.toList⟩, none⟩

/-- Gives the last run one character more; without a run the text does not match. -/
def lengthenRun (s : State) : Bool ⊕ State :=
  match s.behindRun with
  | some ⟨_ :: cs, ts⟩ => .inr ⟨⟨cs, ts⟩, some ⟨cs, ts⟩⟩
  | _ => .inl false

/-- The answer, or where the match stands one step later. -/
def step (s : State) : Bool ⊕ State :=
  match s.rest with
  | ⟨[], ts⟩ => .inl (ts.all (· == .anyRun))
  | ⟨c :: cs, .anyRun :: ts⟩ => .inr ⟨⟨c :: cs, ts⟩, some ⟨c :: cs, ts⟩⟩
  | ⟨_ :: cs, .anyOne :: ts⟩ => .inr ⟨⟨cs, ts⟩, s.behindRun⟩
  | ⟨c :: cs, .literal l :: ts⟩ =>
    if l = c then .inr ⟨⟨cs, ts⟩, s.behindRun⟩ else s.lengthenRun
  | ⟨_ :: _, []⟩ => s.lengthenRun

/-! ### Steps come to an end -/

/-- How many runs are still to be met, from here or from behind the last run. -/
def runsAhead (s : State) : Nat :=
  max (s.rest.tokens.count .anyRun) (s.behindRun.elim 0 (·.tokens.count .anyRun))

/-- How many characters the last run can still be given. -/
def spare (s : State) : Nat := s.behindRun.elim 0 (·.text.length)

/-- What a step lowers: a run met, a character given to the last run or a token matched, the former
before the latter. -/
def rank (s : State) : Nat × Nat × Nat := (s.runsAhead, s.spare, s.rest.tokens.length)

def Next (s' s : State) : Prop := s.step = .inr s'

def RankBelow (s' s : State) : Prop :=
  Prod.Lex (· < ·) (Prod.Lex (· < ·) (· < ·)) s'.rank s.rank

theorem rankBelow_of_runsAhead {s s' : State} (h : s'.runsAhead < s.runsAhead) : RankBelow s' s :=
  .left _ _ h

theorem rankBelow_of_spare {s s' : State} (hruns : s'.runsAhead ≤ s.runsAhead)
    (h : s'.spare < s.spare) : RankBelow s' s := by
  rcases Nat.lt_or_eq_of_le hruns with hlt | heq
  · exact rankBelow_of_runsAhead hlt
  · unfold RankBelow rank
    rw [heq]
    exact .right _ (.left _ _ h)

theorem rankBelow_of_token {t : Token} {ts : List Token} (text text' : List Char)
    (behindRun : Option Rest) (h : t ≠ .anyRun) :
    RankBelow ⟨⟨text', ts⟩, behindRun⟩ ⟨⟨text, t :: ts⟩, behindRun⟩ := by
  unfold RankBelow rank runsAhead
  rw [List.count_cons_of_ne h]
  exact .right _ (.right _ (Nat.lt_succ_self _))

theorem lengthenRun_rankBelow {s s' : State} (h : s.lengthenRun = .inr s') : RankBelow s' s := by
  obtain ⟨rest, behindRun⟩ := s
  revert h
  fun_cases lengthenRun ⟨rest, behindRun⟩ with
  | case1 c cs ts heq =>
    obtain rfl : behindRun = some ⟨c :: cs, ts⟩ := heq
    rintro ⟨⟩
    apply rankBelow_of_spare
    · exact Nat.max_le.mpr ⟨Nat.le_max_right _ _, Nat.le_max_right _ _⟩
    · exact Nat.lt_succ_self _
  | case2 => rintro ⟨⟩

theorem Next.rankBelow {s s' : State} (h : Next s' s) : RankBelow s' s := by
  obtain ⟨rest, behindRun⟩ := s
  revert h
  unfold Next
  fun_cases step ⟨rest, behindRun⟩ with
  | case1 => rintro ⟨⟩
  | case2 c cs ts heq =>
    obtain rfl : rest = ⟨c :: cs, .anyRun :: ts⟩ := heq
    rintro ⟨⟩
    apply rankBelow_of_runsAhead
    simp only [runsAhead, List.count_cons_self, Option.elim_some]
    omega
  | case3 c cs ts heq =>
    obtain rfl : rest = ⟨c :: cs, .anyOne :: ts⟩ := heq
    rintro ⟨⟩
    exact rankBelow_of_token _ _ _ (by decide)
  | case4 cs l ts heq =>
    obtain rfl : rest = ⟨l :: cs, .literal l :: ts⟩ := heq
    rintro ⟨⟩
    exact rankBelow_of_token _ _ _ Token.noConfusion
  | case5 => exact lengthenRun_rankBelow
  | case6 => exact lengthenRun_rankBelow

theorem wellFounded_next : WellFounded Next :=
  Subrelation.wf Next.rankBelow (InvImage.wf rank
    (Prod.lex Nat.lt_wfRel (Prod.lex Nat.lt_wfRel Nat.lt_wfRel)).wf)

instance : WellFoundedRelation State := ⟨Next, wellFounded_next⟩

def run (s : State) : Bool :=
  match _ : s.step with
  | .inl answer => answer
  | .inr next => next.run
termination_by s
decreasing_by assumption

end State

def isMatch (text pattern : String) : Bool := (State.start text pattern).run

end TablePipeline.Like
