import TablePipeline.Proofs.Sql.Paths

/-!
# The grammar of paths

A path is a list of segments with dots between, each one bare or in quotes of either kind. Splitting
reads just the texts of this grammar, and a text in no two ways. Quoting spells the segments of a
path in the one way of a dialect, so a quoted path is quoted as it is.
-/

set_option autoImplicit false

namespace TablePipeline.Sql

/-- A character that opens and closes a segment in quotes, whatever the dialect. -/
def IsQuote (q : Char) : Prop := q = '"' ∨ q = '\x60'

/-- The texts that stand for a segment. -/
inductive SegmentText : List Char → List Char → Prop
  /-- Bare text may be empty, and may have quote characters in it but not in front. -/
  | bare {name : List Char} (hdot : '.' ∉ name)
    (hfront : ∀ c, name.head? = some c → ¬ IsQuote c) : SegmentText name name
  | quoted {q : Char} (hq : IsQuote q) (name : List Char) : SegmentText (quoteChars q name) name

/-- A path is spelled by one segment at least. -/
def SpellsPath (path : String) (segments : List String) : Prop :=
  ∃ texts, texts ≠ [] ∧ List.Forall₂ SegmentText texts (segments.map String.toList) ∧
    path.toList = ['.'].intercalate texts

theorem IsQuote.ne_dot {q : Char} (h : IsQuote q) : q ≠ '.' := by
  rintro rfl
  revert h
  unfold IsQuote
  decide

variable {seen cs rest text name : List Char} {segments : List String}

/-! ### What is spelled is read -/

/-- A segment ends at a dot or with the text. -/
def EndsSegment (rest : List Char) : Prop := ∀ c, rest.head? = some c → c = '.'

theorem endsSegment_nil : EndsSegment [] := nofun

theorem endsSegment_dot (rest : List Char) : EndsSegment ('.' :: rest) := by
  intro c hc
  exact (Option.some.inj hc).symm

theorem segmentsFrom_bare_append (hdot : '.' ∉ cs) :
    segmentsFrom .bare seen (cs ++ rest) = segmentsFrom .bare (cs.reverse ++ seen) rest := by
  induction cs generalizing seen with
  | nil => rfl
  | cons c cs ih =>
    have hc : c ≠ '.' := fun hc => hdot (hc ▸ List.mem_cons_self)
    rw [List.cons_append, segmentsFrom, if_neg hc, ih (List.not_mem_of_not_mem_cons hdot),
      List.reverse_cons, List.append_assoc, List.singleton_append]

theorem segmentsFrom_start_end (hrest : EndsSegment rest) :
    segmentsFrom .start seen rest = segmentsFrom .bare seen rest := by
  cases rest with
  | nil => rfl
  | cons c rest =>
    obtain rfl := hrest c rfl
    rw [segmentsFrom, segmentsFrom, if_pos rfl, if_pos rfl]

theorem segmentsFrom_closing_end {q : Char} (hq : IsQuote q) (hrest : EndsSegment rest) :
    segmentsFrom (.closing q) seen rest = segmentsFrom .bare seen rest := by
  cases rest with
  | nil => rfl
  | cons c rest =>
    obtain rfl := hrest c rfl
    rw [segmentsFrom, segmentsFrom, if_neg hq.ne_dot.symm, if_pos rfl, if_pos rfl]

/-- Whichever way a segment is written, behind it a reader stands as behind bare text. -/
theorem segmentsFrom_segment (h : SegmentText text name) (hrest : EndsSegment rest) :
    segmentsFrom .start [] (text ++ rest) = segmentsFrom .bare name.reverse rest := by
  cases h with
  | quoted hq =>
    rw [segmentsFrom_quoteChars hq, segmentsFrom_closing_end hq hrest]
  | bare hdot hfront =>
    cases text with
    | nil => exact segmentsFrom_start_end hrest
    | cons c cs =>
      have hc : c ≠ '.' := fun hc => hdot (hc ▸ List.mem_cons_self)
      have hquote : ¬ (c = '"' ∨ c = '\x60') := hfront c rfl
      rw [List.cons_append, segmentsFrom, if_neg hc, if_neg hquote,
        segmentsFrom_bare_append (List.not_mem_of_not_mem_cons hdot), List.reverse_cons]

theorem segmentsFrom_of_spelled {texts : List (List Char)} (hne : texts ≠ [])
    (h : List.Forall₂ SegmentText texts (segments.map String.toList)) :
    segmentsFrom .start [] (['.'].intercalate texts) = .ok segments := by
  induction texts generalizing segments with
  | nil => exact (hne rfl).elim
  | cons text texts ih =>
    obtain ⟨name, names, hname, hnames, hsegments⟩ := List.forall₂_cons_left_iff.mp h
    obtain ⟨segment, segments, rfl, rfl, rfl⟩ := List.map_eq_cons_iff.mp hsegments
    cases texts with
    | nil =>
      obtain rfl := List.map_eq_nil_iff.mp (List.forall₂_nil_left_iff.mp hnames)
      rw [List.intercalate_singleton, ← List.append_nil text,
        segmentsFrom_segment hname endsSegment_nil, segmentsFrom, List.reverse_reverse,
        String.ofList_toList]
      simp
    | cons next texts =>
      rw [List.intercalate_cons_cons, List.append_assoc, List.singleton_append,
        segmentsFrom_segment hname (endsSegment_dot _), segmentsFrom, if_pos rfl,
        ih (List.cons_ne_nil _ _) hnames, List.reverse_reverse, String.ofList_toList]
      rfl

/-! ### What is read is spelled -/

/-- What a reader that stands in a segment may still read of it, and the segment that this gives.
Behind a quote character the segment ends, or another one follows that doubles it. -/
def PathState.Goes (seen : List Char) : PathState → List Char → List Char → Prop
  | .start, text, name => seen = [] ∧ SegmentText text name
  | .bare, text, name => '.' ∉ text ∧ name = seen.reverse ++ text
  | .inside q, text, name => ∃ cs, text = doubleQuotes q cs ++ [q] ∧ name = seen.reverse ++ cs
  | .closing q, text, name => (text = [] ∧ name = seen.reverse) ∨
    ∃ cs, text = q :: (doubleQuotes q cs ++ [q]) ∧ name = seen.reverse ++ q :: cs

section Goes
variable {q c : Char}

theorem reverse_cons_append (c : Char) (seen cs : List Char) :
    (c :: seen).reverse ++ cs = seen.reverse ++ c :: cs := by
  rw [List.reverse_cons, List.append_assoc, List.singleton_append]

theorem goes_end {state : PathState} (hstart : state = .start → seen = [])
    (hinside : ∀ q, state ≠ .inside q) : state.Goes seen [] seen.reverse := by
  cases state with
  | start =>
    obtain rfl := hstart rfl
    exact ⟨rfl, .bare List.not_mem_nil nofun⟩
  | bare => exact ⟨List.not_mem_nil, (List.append_nil _).symm⟩
  | inside q => exact (hinside q rfl).elim
  | closing q => exact .inl ⟨rfl, rfl⟩

theorem goes_inside_cons (hc : c ≠ q) (h : (PathState.inside q).Goes (c :: seen) text name) :
    (PathState.inside q).Goes seen (c :: text) name := by
  obtain ⟨cs, rfl, rfl⟩ := h
  refine ⟨c :: cs, ?_, reverse_cons_append c seen cs⟩
  rw [doubleQuotes, if_neg hc, List.cons_append]

theorem goes_inside_quote (h : (PathState.closing q).Goes seen text name) :
    (PathState.inside q).Goes seen (q :: text) name := by
  rcases h with ⟨rfl, rfl⟩ | ⟨cs, rfl, rfl⟩
  · exact ⟨[], rfl, (List.append_nil _).symm⟩
  · refine ⟨q :: cs, ?_, rfl⟩
    rw [doubleQuotes, if_pos rfl, List.cons_append, List.cons_append]

theorem goes_closing_quote (h : (PathState.inside q).Goes (q :: seen) text name) :
    (PathState.closing q).Goes seen (q :: text) name := by
  obtain ⟨cs, rfl, rfl⟩ := h
  exact .inr ⟨cs, rfl, reverse_cons_append q seen cs⟩

theorem goes_start_quote (hq : IsQuote q) (h : (PathState.inside q).Goes [] text name) :
    PathState.start.Goes [] (q :: text) name := by
  obtain ⟨cs, rfl, rfl⟩ := h
  exact ⟨rfl, .quoted hq _⟩

theorem goes_start_cons (hdot : c ≠ '.') (hc : ¬ IsQuote c)
    (h : PathState.bare.Goes [c] text name) : PathState.start.Goes [] (c :: text) name := by
  obtain ⟨htext, rfl⟩ := h
  refine ⟨rfl, .bare (List.not_mem_cons_of_ne_of_not_mem hdot.symm htext) fun c' hc' => ?_⟩
  rwa [← Option.some.inj hc']

theorem goes_bare_cons (hdot : c ≠ '.') (h : PathState.bare.Goes (c :: seen) text name) :
    PathState.bare.Goes seen (c :: text) name := by
  obtain ⟨htext, rfl⟩ := h
  exact ⟨List.not_mem_cons_of_ne_of_not_mem hdot.symm htext, reverse_cons_append c seen text⟩

end Goes

/-- The first of some segments ends with the text, or at a dot before the others. -/
def FirstOf (cs text name : List Char) (segments : List String) : Prop :=
  (cs = text ∧ segments = [String.ofList name]) ∨
    ∃ rest more, cs = text ++ '.' :: rest ∧ segmentsFrom .start [] rest = .ok more ∧
      segments = String.ofList name :: more

theorem FirstOf.cons (h : FirstOf cs text name segments) (c : Char) :
    FirstOf (c :: cs) (c :: text) name segments := by
  rcases h with ⟨rfl, hsegments⟩ | ⟨rest, more, rfl, hmore, hsegments⟩
  · exact .inl ⟨rfl, hsegments⟩
  · exact .inr ⟨rest, more, rfl, hmore, hsegments⟩

theorem FirstOf.dot (h : (segmentsFrom .start [] cs).map (String.ofList seen.reverse :: ·) =
    .ok segments) : FirstOf ('.' :: cs) [] seen.reverse segments := by
  obtain ⟨more, hmore, rfl⟩ := Outcome.map_eq_ok.mp h
  exact .inr ⟨cs, more, rfl, hmore, rfl⟩

/-- A reader that succeeds goes on to the end of its segment in one of the ways of its state. -/
theorem exists_firstOf {state : PathState} (hstart : state = .start → seen = [])
    (h : segmentsFrom state seen cs = .ok segments) :
    ∃ text name, state.Goes seen text name ∧ FirstOf cs text name segments := by
  have hcons {state state' : PathState} {seen seen' cs : List Char} {c : Char}
      (hgoes : ∀ text name, state'.Goes seen' text name → state.Goes seen (c :: text) name)
      (h : ∃ text name, state'.Goes seen' text name ∧ FirstOf cs text name segments) :
      ∃ text name, state.Goes seen text name ∧ FirstOf (c :: cs) text name segments := by
    obtain ⟨text, name, hrest, hfirst⟩ := h
    exact ⟨c :: text, name, hgoes text name hrest, hfirst.cons c⟩
  fun_induction segmentsFrom state seen cs with
  | case1 => cases h
  | case2 state seen hinside =>
    exact ⟨[], _, goes_end hstart hinside, .inl ⟨rfl, (Except.ok.inj h).symm⟩⟩
  | case3 seen q cs ih => exact hcons (fun _ _ => goes_inside_quote) (ih (by simp) h)
  | case4 q seen c cs hc ih => exact hcons (fun _ _ => goes_inside_cons hc) (ih (by simp) h)
  | case5 seen q cs ih => exact hcons (fun _ _ => goes_closing_quote) (ih (by simp) h)
  | case6 => exact ⟨[], _, goes_end hstart (by simp), .dot h⟩
  | case7 => cases h
  | case8 => exact ⟨[], _, goes_end hstart (by simp), .dot h⟩
  | case9 seen c cs hdot hc ih =>
    obtain rfl := hstart rfl
    exact hcons (fun _ _ => goes_start_quote hc) (ih (by simp) h)
  | case10 seen c cs hdot hc ih =>
    obtain rfl := hstart rfl
    exact hcons (fun _ _ => goes_start_cons hdot hc) (ih (by simp) h)
  | case11 => exact ⟨[], _, goes_end hstart (by simp), .dot h⟩
  | case12 seen c cs hdot ih => exact hcons (fun _ _ => goes_bare_cons hdot) (ih (by simp) h)

/-- A text with segments is spelled by them. The first one is read off, and leaves fewer. -/
theorem exists_spelled (h : segmentsFrom .start [] cs = .ok segments) :
    ∃ texts, texts ≠ [] ∧ List.Forall₂ SegmentText texts (segments.map String.toList) ∧
      cs = ['.'].intercalate texts := by
  induction segments generalizing cs with
  | nil => exact (segmentsFrom_ne_nil h rfl).elim
  | cons segment segments ih =>
    obtain ⟨text, name, ⟨-, htext⟩, hfirst⟩ := exists_firstOf (fun _ => rfl) h
    rcases hfirst with ⟨rfl, hsegments⟩ | ⟨rest, more, rfl, hmore, hsegments⟩
    · obtain ⟨rfl, rfl⟩ := List.cons.inj hsegments
      refine ⟨[cs], List.cons_ne_nil _ _, ?_, List.intercalate_singleton.symm⟩
      exact .cons (String.toList_ofList ▸ htext) .nil
    · obtain ⟨rfl, rfl⟩ := List.cons.inj hsegments
      obtain ⟨texts, hne, htexts, rfl⟩ := ih hmore
      refine ⟨text :: texts, List.cons_ne_nil _ _, ?_, ?_⟩
      · exact .cons (String.toList_ofList ▸ htext) htexts
      · rw [List.intercalate_cons_of_ne_nil hne, List.append_assoc, List.singleton_append]

/-! ### Paths -/

theorem splitPath_eq_ok_iff {path : String} :
    splitPath path = .ok segments ↔ SpellsPath path segments := by
  rw [splitPath_eq_ok]
  constructor
  · exact exists_spelled
  · rintro ⟨texts, hne, htexts, hpath⟩
    rw [hpath]
    exact segmentsFrom_of_spelled hne htexts

variable {d : Dialect} {path quoted : String}

theorem tablePath_congr {p q : String} {segments : List String} (h : splitPath p = splitPath q) :
    tablePath d p = .ok segments ↔ tablePath d q = .ok segments := by
  rw [tablePath_eq_ok, tablePath_eq_ok, h]

theorem quotePath_of_quotePath (h : quotePath d path = .ok quoted) :
    quotePath d quoted = .ok quoted := by
  obtain ⟨segments, hsegments, hquoted⟩ := quotePath_eq_ok.mp h
  rw [tablePath_congr (splitPath_of_quotePath h).symm] at hsegments
  exact quotePath_eq_ok.mpr ⟨segments, hsegments, hquoted⟩

/-- Splitting accepts the texts of the grammar and no others, and quoting gives a normal form. -/
theorem splitPath_grammar :
    (∀ (path : String) (segments : List String),
      splitPath path = .ok segments ↔ SpellsPath path segments) ∧
      ∀ (d : Dialect) (path quoted : String), quotePath d path = .ok quoted →
        splitPath quoted = splitPath path ∧ quotePath d quoted = .ok quoted := by
  refine ⟨fun path segments => splitPath_eq_ok_iff, fun d path quoted h => ⟨?_, ?_⟩⟩
  · exact splitPath_of_quotePath h
  · exact quotePath_of_quotePath h

/-- A quote inside a bare segment, then a dot and a doubled quote in a quoted one. -/
theorem splitPath_grammar_mixed :
    SpellsPath "a\x60b.\"c.\"\"d\"" ["a\x60b", "c.\"d"] ∧
      splitPath "\x60a\x60\x60b\x60.\x60c.\"d\x60" = .ok ["a\x60b", "c.\"d"] ∧
      quotePath .mysql "\x60a\x60\x60b\x60.\x60c.\"d\x60" =
        .ok "\x60a\x60\x60b\x60.\x60c.\"d\x60" := by
  have hsplit : splitPath "a\x60b.\"c.\"\"d\"" = .ok ["a\x60b", "c.\"d"] := by decide +kernel
  have hquoted : quotePath .mysql "a\x60b.\"c.\"\"d\"" =
      .ok "\x60a\x60\x60b\x60.\x60c.\"d\x60" := by decide +kernel
  obtain ⟨hsame, hidem⟩ := splitPath_grammar.2 _ _ _ hquoted
  exact ⟨(splitPath_grammar.1 _ _).mp hsplit, hsame.trans hsplit, hidem⟩

end TablePipeline.Sql
