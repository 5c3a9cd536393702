import TablePipeline.Proofs.Outcome
import TablePipeline.Secret.Base64
import TablePipeline.Text.Class
import TablePipeline.Text.Utf8

/-!
# What base64 reads

Each list of bytes has one text, and only that text is read as these bytes: the symbols are those of
its groups of six bits, padding fills the last group of four, and no bit is left over.
-/

set_option autoImplicit false

namespace TablePipeline.Base64

/-! ### Symbols -/

def symbolByte (n : Nat) : UInt8 := UInt8.ofNat (symbol n).toNat

theorem value?_symbolByte : ∀ n < 64, value? (symbolByte n) = some n ∧ symbolByte n ≠ pad := by
  decide +kernel

theorem value?_eq_some_iff {b : UInt8} {n : Nat} :
    value? b = some n ↔ n < 64 ∧ symbolByte n = b := by
  have hall : ∀ k < 256, ∀ n ∈ value? (UInt8.ofNat k), n < 64 ∧ symbolByte n = UInt8.ofNat k := by
    decide +kernel
  constructor
  · intro h
    rw [← UInt8.ofNat_toNat (x := b)] at h ⊢
    exact hall b.toNat b.toNat_lt n h
  · rintro ⟨hn, rfl⟩
    exact (value?_symbolByte n hn).1

/-! ### Groups of six bits -/

/-- Bytes as values of six bits; bits that are missing in the last one are zero. -/
def sextets : List UInt8 → List Nat
  | [] => []
  | [a] =>
    let n := a.toNat * 16
    [n / 64, n % 64]
  | [a, b] =>
    let n := (a.toNat * 256 + b.toNat) * 4
    [n / 4096, n / 64 % 64, n % 64]
  | a :: b :: c :: rest =>
    let n := (a.toNat * 256 + b.toNat) * 256 + c.toNat
    n / 262144 :: n / 4096 % 64 :: n / 64 % 64 :: n % 64 :: sextets rest

def padding (values : List Nat) : Nat := (4 - values.length % 4) % 4

theorem encodeChars_eq (bytes : List UInt8) : encodeChars bytes =
    (sextets bytes).map symbol ++ List.replicate (padding (sextets bytes)) '=' := by
  induction bytes using sextets.induct with
  | case1 => rfl
  | case2 a => rfl
  | case3 a b => rfl
  | case4 a b c rest ih =>
    rw [encodeChars, sextets, ih]
    simp [padding, Nat.add_assoc]

theorem sextets_lt (bytes : List UInt8) : ∀ v ∈ sextets bytes, v < 64 := by
  induction bytes using sextets.induct with
  | case1 => exact List.forall_mem_nil _
  | case2 a =>
    have := a.toNat_lt
    intro v hv
    simp only [sextets, List.mem_cons, List.not_mem_nil, or_false] at hv
    omega
  | case3 a b =>
    have := a.toNat_lt
    have := b.toNat_lt
    intro v hv
    simp only [sextets, List.mem_cons, List.not_mem_nil, or_false] at hv
    omega
  | case4 a b c rest ih =>
    have := a.toNat_lt
    have := b.toNat_lt
    have := c.toNat_lt
    simp only [sextets, List.forall_mem_cons]
    exact ⟨by omega, by omega, by omega, by omega, ih⟩

theorem length_sextets (bytes : List UInt8) : (sextets bytes).length % 4 ≠ 1 := by
  induction bytes using sextets.induct with
  | case4 a b c rest ih =>
    simp only [sextets, List.length_cons]
    omega
  | _ => simp [sextets]

theorem ofNat_eq_of_toNat {n : Nat} {a : UInt8} (h : n = a.toNat) : UInt8.ofNat n = a := by
  rw [h, UInt8.ofNat_toNat]

theorem collect_sextets (bytes : List UInt8) : collect (sextets bytes) = (bytes, 0) := by
  induction bytes using sextets.induct with
  | case1 => rfl
  | case2 a =>
    simp only [sextets]
    generalize hn : a.toNat * 16 = n
    have hsum : n / 64 * 64 + n % 64 = n := by omega
    simp only [collect, hsum]
    rw [ofNat_eq_of_toNat (show n / 16 = a.toNat by omega), show n % 16 = 0 by omega]
  | case3 a b =>
    have hb := b.toNat_lt
    simp only [sextets]
    generalize hn : (a.toNat * 256 + b.toNat) * 4 = n
    have hsum : (n / 4096 * 64 + n / 64 % 64) * 64 + n % 64 = n := by omega
    simp only [collect, hsum]
    rw [ofNat_eq_of_toNat (show n / 1024 = a.toNat by omega),
      ofNat_eq_of_toNat (show n / 4 % 256 = b.toNat by omega), show n % 4 = 0 by omega]
  | case4 a b c rest ih =>
    have hb := b.toNat_lt
    have hc := c.toNat_lt
    simp only [sextets]
    generalize hn : (a.toNat * 256 + b.toNat) * 256 + c.toNat = n
    have hsum : ((n / 262144 * 64 + n / 4096 % 64) * 64 + n / 64 % 64) * 64 + n % 64 = n := by
      omega
    simp only [collect, hsum, ih]
    rw [ofNat_eq_of_toNat (show n / 65536 = a.toNat by omega),
      ofNat_eq_of_toNat (show n / 256 % 256 = b.toNat by omega),
      ofNat_eq_of_toNat (show n % 256 = c.toNat by omega)]

/-- Values of which no bits are left over are those of their bytes. Four of them are three bytes. -/
theorem sextets_collect {values : List Nat} (hlt : ∀ v ∈ values, v < 64)
    (hlength : values.length % 4 ≠ 1) (hleft : (collect values).2 = 0) :
    sextets (collect values).1 = values := by
  induction values using collect.induct with
  | case1 a b c d rest _ _ _ ih =>
    obtain ⟨ha, hb, hc, hd, hrest⟩ : a < 64 ∧ b < 64 ∧ c < 64 ∧ d < 64 ∧ ∀ v ∈ rest, v < 64 := by
      simpa only [List.forall_mem_cons] using hlt
    have hrestLength : rest.length % 4 ≠ 1 := by
      simp only [List.length_cons] at hlength
      omega
    simp only [collect] at hleft ⊢
    simp only [sextets, ih hrest hrestLength hleft, UInt8.toNat_ofNat']
    generalize hn : ((a * 64 + b) * 64 + c) * 64 + d = n
    have hsum : (n / 65536 % 2 ^ 8 * 256 + n / 256 % 256 % 2 ^ 8) * 256 + n % 256 % 2 ^ 8 = n := by
      omega
    rw [hsum, show n / 262144 = a by omega, show n / 4096 % 64 = b by omega,
      show n / 64 % 64 = c by omega, show n % 64 = d by omega]
  | case2 a b c =>
    obtain ⟨ha, hb, hc, -⟩ : a < 64 ∧ b < 64 ∧ c < 64 ∧ ∀ v ∈ ([] : List Nat), v < 64 := by
      simpa only [List.forall_mem_cons] using hlt
    simp only [collect] at hleft ⊢
    simp only [sextets, UInt8.toNat_ofNat']
    generalize hn : (a * 64 + b) * 64 + c = n at hleft ⊢
    have hsum : (n / 1024 % 2 ^ 8 * 256 + n / 4 % 256 % 2 ^ 8) * 4 = n := by omega
    rw [hsum, show n / 4096 = a by omega, show n / 64 % 64 = b by omega, show n % 64 = c by omega]
  | case3 a b =>
    obtain ⟨ha, hb, -⟩ : a < 64 ∧ b < 64 ∧ ∀ v ∈ ([] : List Nat), v < 64 := by
      simpa only [List.forall_mem_cons] using hlt
    simp only [collect] at hleft ⊢
    simp only [sextets, UInt8.toNat_ofNat']
    generalize hn : a * 64 + b = n at hleft ⊢
    have hsum : n / 16 % 2 ^ 8 * 16 = n := by omega
    rw [hsum, show n / 64 = a by omega, show n % 64 = b by omega]
  | case4 a => exact absurd rfl hlength
  | case5 => rfl

/-! ### Texts -/

theorem symbolByte_ne_pad {n : Nat} (h : n < 64) : symbolByte n ≠ pad := (value?_symbolByte n h).2

/-- What a scan takes: symbols, then padding that stands at the end of a group. -/
structure Scanned (i : Nat) (padded : Option Nat) (text : List UInt8) (values : List Nat)
    (k : Nat) : Prop where
  text_eq : text = values.map symbolByte ++ List.replicate k pad
  lt : ∀ v ∈ values, v < 64
  placed : ∀ j < k, 2 ≤ (i + values.length + j) % 4
  none_behind : padded.isSome → values = []

theorem scanned_nil_iff {i : Nat} {padded : Option Nat} {values : List Nat} {k : Nat} :
    Scanned i padded [] values k ↔ values = [] ∧ k = 0 := by
  constructor
  · intro h
    obtain ⟨hvalues, hpads⟩ := List.append_eq_nil_iff.mp h.text_eq.symm
    exact ⟨List.map_eq_nil_iff.mp hvalues, by simpa using hpads⟩
  · rintro ⟨rfl, rfl⟩
    exact ⟨rfl, List.forall_mem_nil _, fun j hj => absurd hj (Nat.not_lt_zero j), fun _ => rfl⟩

theorem scanned_pad_iff {i : Nat} {padded : Option Nat} {rest : List UInt8} {values : List Nat}
    {k : Nat} : Scanned i padded (pad :: rest) values k ↔
      values = [] ∧ 2 ≤ i % 4 ∧ ∃ j, k = j + 1 ∧ Scanned (i + 1) (padded <|> some i) rest [] j := by
  constructor
  · rintro ⟨htext, hlt, hplaced, -⟩
    cases values with
    | cons v values =>
      exact (symbolByte_ne_pad (hlt v List.mem_cons_self) (List.cons.inj htext).1.symm).elim
    | nil =>
      cases k with
      | zero => cases htext
      | succ k =>
        have hplace := hplaced 0 (Nat.succ_pos k)
        refine ⟨rfl, hplace, k, rfl, (List.cons.inj htext).2, hlt, fun j hj => ?_, fun _ => rfl⟩
        have := hplaced (j + 1) (Nat.succ_lt_succ hj)
        simp only [List.length_nil] at this ⊢
        omega
  · rintro ⟨rfl, hplace, k, rfl, h⟩
    refine ⟨congrArg (pad :: ·) h.text_eq, h.lt, fun j hj => ?_, fun _ => rfl⟩
    cases j with
    | zero => exact hplace
    | succ j =>
      have := h.placed j (Nat.lt_of_succ_lt_succ hj)
      simp only [List.length_nil] at this ⊢
      omega

/-- A byte that is no padding is a symbol, and no padding stands before it. -/
theorem scanned_symbol_iff {i : Nat} {padded : Option Nat} {b : UInt8} {rest : List UInt8}
    {values : List Nat} {k : Nat} (hb : b ≠ pad) : Scanned i padded (b :: rest) values k ↔
      padded = none ∧ ∃ v vs, value? b = some v ∧ values = v :: vs ∧
        Scanned (i + 1) none rest vs k := by
  constructor
  · rintro ⟨htext, hlt, hplaced, hbehind⟩
    cases values with
    | nil =>
      cases k with
      | zero => cases htext
      | succ k => exact (hb (List.cons.inj htext).1).elim
    | cons v vs =>
      obtain ⟨hv, hvs⟩ := List.forall_mem_cons.mp hlt
      obtain ⟨hsymbol, hrest⟩ := List.cons.inj htext
      refine ⟨?_, v, vs, value?_eq_some_iff.mpr ⟨hv, hsymbol.symm⟩, rfl, hrest, hvs, ?_, nofun⟩
      · cases padded with
        | none => rfl
        | some first => cases hbehind rfl
      · intro j hj
        have := hplaced j hj
        rw [List.length_cons] at this
        omega
  · rintro ⟨rfl, v, vs, hvalue, rfl, h⟩
    obtain ⟨hv, hsymbol⟩ := value?_eq_some_iff.mp hvalue
    refine ⟨?_, List.forall_mem_cons.mpr ⟨hv, h.lt⟩, fun j hj => ?_, nofun⟩
    · rw [List.map_cons, List.cons_append, hsymbol, ← h.text_eq]
    · have := h.placed j hj
      rw [List.length_cons]
      omega

/-- Behind padding nothing but padding is taken. -/
theorem scan_eq_ok {i : Nat} {padded : Option Nat} {text : List UInt8} {values : List Nat} :
    scan i padded text = .ok values ↔ ∃ k, Scanned i padded text values k := by
  induction text generalizing i padded values with
  | nil =>
    rw [scan, Except.ok.injEq]
    simp only [scanned_nil_iff]
    exact ⟨fun h => ⟨0, h.symm, rfl⟩, fun ⟨_, h, _⟩ => h.symm⟩
  | cons b rest ih =>
    unfold scan
    split
    case isTrue hpad =>
      subst hpad
      simp only [scanned_pad_iff]
      split
      case isTrue hplace =>
        exact iff_of_false nofun fun ⟨_, _, h, _⟩ => Nat.not_le_of_lt hplace h
      case isFalse hplace =>
        rw [ih]
        constructor
        · rintro ⟨k, h⟩
          obtain rfl := h.none_behind (by cases padded <;> rfl)
          exact ⟨k + 1, rfl, Nat.le_of_not_lt hplace, k, rfl, h⟩
        · rintro ⟨_, rfl, _, k, _, h⟩
          exact ⟨k, h⟩
    case isFalse hpad =>
      simp only [scanned_symbol_iff hpad]
      split
      case h_1 => exact iff_of_false nofun fun ⟨_, h, _⟩ => nomatch h
      case h_2 hvalue =>
        refine iff_of_false nofun fun ⟨_, _, v, _, hv, _⟩ => ?_
        rw [hvalue] at hv
        cases hv
      case h_3 v hvalue =>
        rw [Outcome.map_eq_ok]
        constructor
        · rintro ⟨vs, hvs, rfl⟩
          obtain ⟨k, h⟩ := ih.mp hvs
          exact ⟨k, rfl, v, vs, hvalue, rfl, h⟩
        · rintro ⟨k, _, w, vs, hw, rfl, h⟩
          obtain rfl := Option.some.inj (hvalue.symm.trans hw)
          exact ⟨vs, ih.mpr ⟨k, h⟩, rfl⟩

theorem decode_eq_ok_iff_scan {text bytes : List UInt8} : decode text = .ok bytes ↔
    text.length % 4 = 0 ∧
      ∃ values, scan 0 none text = .ok values ∧ collect values = (bytes, 0) := by
  unfold decode
  by_cases hone : text.length % 4 = 1
  · rw [if_pos hone, hone]
    refine iff_of_false (fun h => ?_) (fun h => nomatch h.1)
    cases hlast : text.getLast? with
    | none =>
      simp only [hlast] at h
      cases h
    | some b =>
      simp only [hlast] at h
      split at h <;> cases h
  · rw [if_neg hone]
    simp only []
    rw [Outcome.bind_eq_ok]
    constructor
    · rintro ⟨values, hvalues, h⟩
      split at h
      · cases h
      · split at h
        · cases h
        case isFalse hlength hleft =>
        exact ⟨not_not.mp hlength, values, hvalues,
          Prod.ext (Outcome.pure_eq_ok.mp h) (not_not.mp hleft)⟩
    · rintro ⟨hlength, values, hvalues, hcollect⟩
      refine ⟨values, hvalues, ?_⟩
      rw [if_neg (not_not.mpr hlength), hcollect]
      rfl

/-- Symbols and padding are characters of one byte. -/
theorem encode_symbols {values : List Nat} (hlt : ∀ v ∈ values, v < 64) (k : Nat) :
    Utf8.encode (String.ofList (values.map symbol ++ List.replicate k '=')) =
      values.map symbolByte ++ List.replicate k pad := by
  have hsymbol : ∀ v < 64, String.utf8EncodeChar (symbol v) = [symbolByte v] := by
    decide +kernel
  rw [Utf8.encode, String.toList_ofList, List.flatMap_append]
  congr 1
  · induction values with
    | nil => rfl
    | cons v values ih =>
      obtain ⟨hv, hvalues⟩ := List.forall_mem_cons.mp hlt
      simp only [List.map_cons, List.flatMap_cons, hsymbol v hv, ih hvalues, List.singleton_append]
  · induction k with
    | zero => rfl
    | succ k ih =>
      rw [List.replicate_succ, List.replicate_succ, List.flatMap_cons, ih]
      rfl

theorem encode_encode (bytes : List UInt8) : Utf8.encode (encode bytes) =
    (sextets bytes).map symbolByte ++ List.replicate (padding (sextets bytes)) pad := by
  rw [encode, encodeChars_eq, encode_symbols (sextets_lt bytes)]

/-- How much padding a text has follows from its length. -/
theorem Scanned.padding_eq {text : List UInt8} {values : List Nat} {k : Nat}
    (h : Scanned 0 none text values k) (hlength : text.length % 4 = 0) :
    values.length % 4 ≠ 1 ∧ k = padding values := by
  have hsum : text.length = values.length + k := by
    rw [h.text_eq, List.length_append, List.length_map, List.length_replicate]
  have hfirst := h.placed 0
  have hthird := h.placed 2
  have hsecond := h.placed 1
  unfold padding
  omega

/-- Bytes are read from their text, and from no other. -/
theorem decode_eq_ok_iff {text bytes : List UInt8} :
    decode text = .ok bytes ↔ text = Utf8.encode (encode bytes) := by
  rw [decode_eq_ok_iff_scan, encode_encode]
  constructor
  · rintro ⟨hlength, values, hvalues, hcollect⟩
    obtain ⟨k, h⟩ := scan_eq_ok.mp hvalues
    obtain ⟨hcount, rfl⟩ := h.padding_eq hlength
    have hbytes := sextets_collect h.lt hcount (congrArg Prod.snd hcollect)
    rw [hcollect] at hbytes
    rw [hbytes]
    exact h.text_eq
  · rintro rfl
    have hcount := length_sextets bytes
    refine ⟨?_, sextets bytes, scan_eq_ok.mpr ⟨padding (sextets bytes), rfl, sextets_lt bytes,
      fun j hj => ?_, fun h => nomatch h⟩, collect_sextets bytes⟩
    · rw [List.length_append, List.length_map, List.length_replicate]
      unfold padding
      omega
    · unfold padding at hj
      omega

theorem isBlank_encode (bytes : List UInt8) :
    ∀ c ∈ (encode bytes).toList, Text.isBlank c = false := by
  have hsymbol : ∀ v < 64, Text.isBlank (symbol v) = false := by
    decide +kernel
  intro c hc
  rw [encode, String.toList_ofList, encodeChars_eq] at hc
  rcases List.mem_append.mp hc with hc | hc
  · obtain ⟨v, hv, rfl⟩ := List.mem_map.mp hc
    exact hsymbol v (sextets_lt bytes v hv)
  · rw [List.eq_of_mem_replicate hc]
    rfl

end TablePipeline.Base64
