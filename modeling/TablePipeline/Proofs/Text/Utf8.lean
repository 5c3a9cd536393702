import TablePipeline.Text.Utf8

/-!
# Reading back encoded texts

The bytes of a character are read as this character whatever follows them, so the bytes of a text
are read as this text and no two texts share their bytes.
-/

set_option autoImplicit false

namespace TablePipeline.Utf8

/-! ### Lead bytes -/

theorem lead?_one : ∀ n < 0x80, lead? (UInt8.ofNat n) = some ⟨0, 0x80, 0xBF, n⟩ := by
  decide +kernel

theorem lead?_two : ∀ n < 0xE0, 0xC2 ≤ n →
    lead? (UInt8.ofNat n) = some ⟨1, 0x80, 0xBF, n - 0xC0⟩ := by
  decide +kernel

theorem lead?_three : ∀ n < 0xF0, 0xE0 ≤ n → lead? (UInt8.ofNat n) =
    some ⟨2, if n = 0xE0 then 0xA0 else 0x80, if n = 0xED then 0x9F else 0xBF, n - 0xE0⟩ := by
  decide +kernel

theorem lead?_four : ∀ n < 0xF5, 0xF0 ≤ n → lead? (UInt8.ofNat n) =
    some ⟨3, if n = 0xF0 then 0x90 else 0x80, if n = 0xF4 then 0x8F else 0xBF, n - 0xF0⟩ := by
  decide +kernel

theorem lead?_none : ∀ n < 256, 0x80 ≤ n ∧ n < 0xC2 ∨ 0xF5 ≤ n → lead? (UInt8.ofNat n) = none := by
  decide +kernel

/-! ### Characters -/

theorem readFollow_cons {k low high acc m : Nat} {rest : List UInt8} (hlow : low ≤ m)
    (hhigh : m ≤ high) (hm : m < 256) : readFollow (k + 1) low high acc (UInt8.ofNat m :: rest) =
      readFollow k 0x80 0xBF (acc * 64 + (m - 0x80)) rest := by
  have hbyte : (UInt8.ofNat m).toNat = m := by
    rw [UInt8.toNat_ofNat']
    omega
  rw [readFollow, hbyte, if_pos ⟨hlow, hhigh⟩]

theorem next_of_lead {b : UInt8} {l : Lead} {bytes rest : List UInt8} {v : Nat}
    (hlead : lead? b = some l)
    (hfollow : readFollow l.follow l.low l.high l.bits bytes = (some v, rest)) :
    next b bytes = (some (Char.ofNat v), rest) := by
  unfold next
  rw [hlead]
  simp only [hfollow, Option.map_some]

/-- The bytes of a character are read as this character, whatever follows them. The lead byte tells
how many follow, and each of them holds six bits. -/
theorem next_encodeChar (c : Char) (rest : List UInt8) : ∃ b follow,
    String.utf8EncodeChar c = b :: follow ∧ next b (follow ++ rest) = (some c, rest) := by
  have hvalid : c.val.toNat < 0xD800 ∨ 0xDFFF < c.val.toNat ∧ c.val.toNat < 0x110000 := c.valid
  have hback : Char.ofNat c.val.toNat = c := Char.ofNat_toNat c
  unfold String.utf8EncodeChar
  simp only []
  generalize c.val.toNat = v at hvalid hback
  subst hback
  by_cases hone : v ≤ 127
  · rw [if_pos hone]
    exact ⟨_, _, rfl, next_of_lead (lead?_one v (by omega)) rfl⟩
  rw [if_neg hone]
  by_cases htwo : v ≤ 2047
  · rw [if_pos htwo]
    refine ⟨_, _, rfl, next_of_lead (lead?_two (v / 64 % 32 + 192) (by omega) (by omega)) ?_⟩
    simp only [List.cons_append, List.nil_append]
    rw [readFollow_cons (by omega) (by omega) (by omega), readFollow]
    exact Prod.ext (congrArg some (by omega)) rfl
  rw [if_neg htwo]
  by_cases hthree : v ≤ 65535
  · rw [if_pos hthree]
    refine ⟨_, _, rfl, next_of_lead (lead?_three (v / 4096 % 16 + 224) (by omega) (by omega)) ?_⟩
    simp only [List.cons_append, List.nil_append]
    rw [readFollow_cons (by split <;> omega) (by split <;> omega) (by omega),
      readFollow_cons (by omega) (by omega) (by omega), readFollow]
    exact Prod.ext (congrArg some (by omega)) rfl
  · rw [if_neg hthree]
    refine ⟨_, _, rfl, next_of_lead (lead?_four (v / 262144 % 8 + 240) (by omega) (by omega)) ?_⟩
    simp only [List.cons_append, List.nil_append]
    rw [readFollow_cons (by split <;> omega) (by split <;> omega) (by omega),
      readFollow_cons (by omega) (by omega) (by omega),
      readFollow_cons (by omega) (by omega) (by omega), readFollow]
    exact Prod.ext (congrArg some (by omega)) rfl

theorem exists_of_readFollow {k low high acc v : Nat} {bytes rest : List UInt8}
    (h : readFollow (k + 1) low high acc bytes = (some v, rest)) :
    ∃ m bytes', low ≤ m ∧ m ≤ high ∧ bytes = UInt8.ofNat m :: bytes' ∧
      readFollow k 0x80 0xBF (acc * 64 + (m - 0x80)) bytes' = (some v, rest) := by
  cases bytes with
  | nil => cases h
  | cons b bytes =>
    rw [readFollow] at h
    split at h
    case isTrue hrange =>
      exact ⟨b.toNat, bytes, hrange.1, hrange.2, by rw [UInt8.ofNat_toNat], h⟩
    case isFalse => cases h

theorem encodeChar_ofNat {v : Nat} (h : v < 0xD800 ∨ 0xDFFF < v ∧ v < 0x110000) :
    String.utf8EncodeChar (Char.ofNat v) =
      if v ≤ 127 then [UInt8.ofNat v]
      else if v ≤ 2047 then [UInt8.ofNat (v / 64 % 32 + 192), UInt8.ofNat (v % 64 + 128)]
      else if v ≤ 65535 then
        [UInt8.ofNat (v / 4096 % 16 + 224), UInt8.ofNat (v / 64 % 64 + 128),
          UInt8.ofNat (v % 64 + 128)]
      else
        [UInt8.ofNat (v / 262144 % 8 + 240), UInt8.ofNat (v / 4096 % 64 + 128),
          UInt8.ofNat (v / 64 % 64 + 128), UInt8.ofNat (v % 64 + 128)] := by
  have hv : (Char.ofNat v).val.toNat = v := by
    rw [Char.ofNat, dif_pos h]
    rfl
  rw [String.utf8EncodeChar, hv]

section Follow

variable {n v : Nat} {bytes rest : List UInt8}

theorem eq_encodeChar_of_two (hlow : 0xC2 ≤ n) (hhigh : n < 0xE0)
    (h : readFollow 1 0x80 0xBF (n - 0xC0) bytes = (some v, rest)) :
    UInt8.ofNat n :: bytes = String.utf8EncodeChar (Char.ofNat v) ++ rest := by
  obtain ⟨m, bytes₁, hlow₁, hhigh₁, rfl, h₁⟩ := exists_of_readFollow h
  obtain ⟨hv, rfl⟩ : (n - 0xC0) * 64 + (m - 0x80) = v ∧ bytes₁ = rest := by
    simpa [readFollow] using h₁
  rw [encodeChar_ofNat (by omega), if_neg (by omega), if_pos (by omega)]
  rw [show v / 64 % 32 + 192 = n by omega, show v % 64 + 128 = m by omega]
  rfl

theorem eq_encodeChar_of_three (hlow : 0xE0 ≤ n) (hhigh : n < 0xF0)
    (h : readFollow 2 (if n = 0xE0 then 0xA0 else 0x80) (if n = 0xED then 0x9F else 0xBF)
      (n - 0xE0) bytes = (some v, rest)) :
    UInt8.ofNat n :: bytes = String.utf8EncodeChar (Char.ofNat v) ++ rest := by
  obtain ⟨m₁, bytes₁, hlow₁, hhigh₁, rfl, h₁⟩ := exists_of_readFollow h
  obtain ⟨m₂, bytes₂, hlow₂, hhigh₂, rfl, h₂⟩ := exists_of_readFollow h₁
  obtain ⟨hv, rfl⟩ : ((n - 0xE0) * 64 + (m₁ - 0x80)) * 64 + (m₂ - 0x80) = v ∧ bytes₂ = rest := by
    simpa [readFollow] using h₂
  have hrange : 0x80 ≤ m₁ ∧ m₁ ≤ 0xBF ∧ (n = 0xE0 → 0xA0 ≤ m₁) ∧ (n = 0xED → m₁ ≤ 0x9F) := by
    split at hlow₁ <;> split at hhigh₁ <;> omega
  rw [encodeChar_ofNat (by omega), if_neg (by omega), if_neg (by omega), if_pos (by omega)]
  rw [show v / 4096 % 16 + 224 = n by omega, show v / 64 % 64 + 128 = m₁ by omega,
    show v % 64 + 128 = m₂ by omega]
  rfl

theorem eq_encodeChar_of_four (hlow : 0xF0 ≤ n) (hhigh : n < 0xF5)
    (h : readFollow 3 (if n = 0xF0 then 0x90 else 0x80) (if n = 0xF4 then 0x8F else 0xBF)
      (n - 0xF0) bytes = (some v, rest)) :
    UInt8.ofNat n :: bytes = String.utf8EncodeChar (Char.ofNat v) ++ rest := by
  obtain ⟨m₁, bytes₁, hlow₁, hhigh₁, rfl, h₁⟩ := exists_of_readFollow h
  obtain ⟨m₂, bytes₂, hlow₂, hhigh₂, rfl, h₂⟩ := exists_of_readFollow h₁
  obtain ⟨m₃, bytes₃, hlow₃, hhigh₃, rfl, h₃⟩ := exists_of_readFollow h₂
  obtain ⟨hv, rfl⟩ : (((n - 0xF0) * 64 + (m₁ - 0x80)) * 64 + (m₂ - 0x80)) * 64 + (m₃ - 0x80) = v ∧
      bytes₃ = rest := by
    simpa [readFollow] using h₃
  have hrange : 0x80 ≤ m₁ ∧ m₁ ≤ 0xBF ∧ (n = 0xF0 → 0x90 ≤ m₁) ∧ (n = 0xF4 → m₁ ≤ 0x8F) := by
    split at hlow₁ <;> split at hhigh₁ <;> omega
  rw [encodeChar_ofNat (by omega), if_neg (by omega), if_neg (by omega), if_neg (by omega)]
  rw [show v / 262144 % 8 + 240 = n by omega, show v / 4096 % 64 + 128 = m₁ by omega,
    show v / 64 % 64 + 128 = m₂ by omega, show v % 64 + 128 = m₃ by omega]
  rfl

end Follow

/-- Bytes are read as a character only if they begin with its bytes. -/
theorem eq_encodeChar_of_next {b : UInt8} {bytes rest : List UInt8} {c : Char}
    (h : next b bytes = (some c, rest)) : b :: bytes = String.utf8EncodeChar c ++ rest := by
  obtain ⟨l, v, hlead, hfollow, rfl⟩ : ∃ l v, lead? b = some l ∧
      readFollow l.follow l.low l.high l.bits bytes = (some v, rest) ∧ Char.ofNat v = c := by
    unfold next at h
    split at h
    case h_1 => cases h
    case h_2 l hlead =>
      obtain ⟨hc, hrest⟩ := Prod.ext_iff.mp h
      obtain ⟨v, hv, hc⟩ := Option.map_eq_some_iff.mp hc
      exact ⟨l, v, hlead, Prod.ext hv hrest, hc⟩
  rw [← UInt8.ofNat_toNat (x := b)] at hlead ⊢
  have hbyte : b.toNat < 256 := b.toNat_lt
  generalize b.toNat = n at hlead hbyte
  by_cases hone : n < 0x80
  · obtain rfl := Option.some.inj ((lead?_one n hone).symm.trans hlead)
    obtain ⟨rfl, rfl⟩ : n = v ∧ bytes = rest := by simpa [readFollow] using hfollow
    rw [encodeChar_ofNat (by omega), if_pos (by omega)]
    rfl
  by_cases hnone : n < 0xC2 ∨ 0xF5 ≤ n
  · rw [lead?_none n hbyte (by omega)] at hlead
    cases hlead
  by_cases htwo : n < 0xE0
  · obtain rfl := Option.some.inj ((lead?_two n htwo (by omega)).symm.trans hlead)
    exact eq_encodeChar_of_two (by omega) htwo hfollow
  by_cases hthree : n < 0xF0
  · obtain rfl := Option.some.inj ((lead?_three n hthree (by omega)).symm.trans hlead)
    exact eq_encodeChar_of_three (by omega) hthree hfollow
  · obtain rfl := Option.some.inj ((lead?_four n (by omega) (by omega)).symm.trans hlead)
    exact eq_encodeChar_of_four (by omega) (by omega) hfollow

/-! ### Texts -/

theorem mapM_id_eq_some {xs : List (Option Char)} {cs : List Char} :
    xs.mapM id = some cs ↔ xs = cs.map some := by
  induction xs generalizing cs with
  | nil =>
    rw [List.mapM_nil, eq_comm, eq_comm (a := []), List.map_eq_nil_iff]
    exact Option.some.injEq cs [] ▸ Iff.rfl
  | cons x xs ih =>
    rw [List.mapM_cons]
    simp only [id, bind, Option.bind_eq_some_iff, pure, Option.some.injEq, ih]
    constructor
    · rintro ⟨c, rfl, cs, rfl, rfl⟩
      rfl
    · intro h
      obtain ⟨c, cs, rfl, rfl, rfl⟩ := List.map_eq_cons_iff.mp h.symm
      exact ⟨c, rfl, cs, rfl, rfl⟩

theorem pieces_eq_map_some {bytes : List UInt8} {cs : List Char} :
    pieces bytes = cs.map some ↔ bytes = cs.flatMap String.utf8EncodeChar := by
  constructor
  · intro h
    fun_induction pieces bytes generalizing cs
    case case1 =>
      rw [List.map_eq_nil_iff.mp h.symm]
      rfl
    case case2 b rest step ih =>
      obtain ⟨c, cs, rfl, hc, hrest⟩ := List.map_eq_cons_iff.mp h.symm
      rw [eq_encodeChar_of_next (Prod.ext hc.symm rfl), List.flatMap_cons]
      exact congrArg _ (ih hrest.symm)
  · rintro rfl
    induction cs with
    | nil =>
      rw [List.flatMap_nil, pieces]
      rfl
    | cons c cs ih =>
      obtain ⟨b, follow, hbytes, hnext⟩ := next_encodeChar c (cs.flatMap String.utf8EncodeChar)
      rw [List.flatMap_cons, hbytes, List.cons_append, pieces, hnext]
      simp only [ih, List.map_cons]

/-- Bytes are read as a text just if they are the bytes of this text. -/
theorem decode?_eq_some_iff {bytes : List UInt8} {s : String} :
    decode? bytes = some s ↔ bytes = encode s := by
  rw [decode?, Option.map_eq_some_iff]
  simp only [mapM_id_eq_some, pieces_eq_map_some]
  constructor
  · rintro ⟨cs, rfl, rfl⟩
    rw [encode, String.toList_ofList]
  · rintro rfl
    exact ⟨s.toList, rfl, String.ofList_toList⟩

/-- No two texts have the same bytes. -/
theorem encode_injective {s t : String} (h : encode s = encode t) : s = t := by
  have hs := decode?_eq_some_iff.mpr h
  rw [decode?_eq_some_iff.mpr rfl] at hs
  exact Option.some.inj hs

end TablePipeline.Utf8
