/-!
# Decimal digits

`write` gives the digits of a number without leading zeros and `value` reads digits back.
Main statement: `value (write n) = n`.

Here and wherever an instance says so powers are the core ones, whatever else is imported; a
literal exponent states its type.
-/

set_option autoImplicit false

namespace TablePipeline.Digits

attribute [local instance (high)] instPowNat

def ofChar (c : Char) : Nat := c.toNat - 48

def toChar (d : Nat) : Char := Char.ofNat (48 + d)

def value (cs : List Char) : Nat := cs.foldl (fun n c => 10 * n + ofChar c) 0

def write (n : Nat) : List Char :=
  if n < 10 then [toChar n] else write (n / 10) ++ [toChar (n % 10)]

def text (n : Nat) : String := String.ofList (write n)

/-- The digits of a number, filled up with zeros in front to a width. -/
def pad (width n : Nat) : List Char :=
  List.replicate (width - (write n).length) '0' ++ write n

def count (n : Nat) : Nat := (write n).length

theorem ofChar_toChar {d : Nat} (h : d < 10) : ofChar (toChar d) = d := by
  match d, h with
  | 0, _ | 1, _ | 2, _ | 3, _ | 4, _ | 5, _ | 6, _ | 7, _ | 8, _ | 9, _ => decide

theorem isDigit_toChar {d : Nat} (h : d < 10) : (toChar d).isDigit = true := by
  match d, h with
  | 0, _ | 1, _ | 2, _ | 3, _ | 4, _ | 5, _ | 6, _ | 7, _ | 8, _ | 9, _ => decide

theorem value_append_singleton (cs : List Char) (c : Char) :
    value (cs ++ [c]) = 10 * value cs + ofChar c := by
  simp [value, List.foldl_append]

theorem value_write (n : Nat) : value (write n) = n := by
  induction n using Nat.strongRecOn with
  | ind n ih =>
    rw [write]
    split
    · rename_i h
      simp [value, ofChar_toChar h]
    · rename_i h
      rw [value_append_singleton, ih (n / 10) (by omega), ofChar_toChar (by omega)]
      omega

theorem write_ne_nil (n : Nat) : write n ≠ [] := by
  rw [write]
  split <;> simp

theorem isDigit_of_mem_write {n : Nat} {c : Char} (h : c ∈ write n) : c.isDigit = true := by
  induction n using Nat.strongRecOn with
  | ind n ih =>
    rw [write] at h
    split at h
    · rename_i hn
      simp only [List.mem_singleton] at h
      exact h ▸ isDigit_toChar hn
    · rcases List.mem_append.mp h with h | h
      · exact ih (n / 10) (by omega) h
      · simp only [List.mem_singleton] at h
        exact h ▸ isDigit_toChar (by omega)

theorem length_write_le {width n : Nat} (hw : 0 < width) (h : n < 10 ^ width) :
    (write n).length ≤ width := by
  induction width generalizing n with
  | zero => omega
  | succ width ih =>
    rw [write]
    split
    · exact Nat.succ_le_succ (Nat.zero_le width)
    · rename_i hn
      rw [Nat.pow_succ] at h
      have hpos : 0 < width := by
        rcases Nat.eq_zero_or_pos width with hzero | hpos
        · subst hzero
          simp only [Nat.pow_zero, Nat.one_mul] at h
          omega
        · exact hpos
      have hrest := ih hpos (n := n / 10) (by omega)
      simp only [List.length_append, List.length_singleton]
      omega

theorem length_pad {width n : Nat} (hw : 0 < width) (h : n < 10 ^ width) :
    (pad width n).length = width := by
  have hle := length_write_le hw h
  simp only [pad, List.length_append, List.length_replicate]
  omega

theorem value_pad (width n : Nat) : value (pad width n) = n := by
  have hzeros (k : Nat) (cs : List Char) : value (List.replicate k '0' ++ cs) = value cs := by
    induction k with
    | zero => rfl
    | succ k ih => exact ih
  rw [pad, hzeros, value_write]

theorem pad_injective {width n m : Nat} (h : pad width n = pad width m) : n = m := by
  rw [← value_pad width n, h, value_pad]

theorem isDigit_of_mem_pad {width n : Nat} {c : Char} (h : c ∈ pad width n) :
    c.isDigit = true := by
  rcases List.mem_append.mp h with h | h
  · rw [List.eq_of_mem_replicate h]
    rfl
  · exact isDigit_of_mem_write h

def signed : Int → List Char
  | .ofNat n => write n
  | .negSucc n => '-' :: write (n + 1)

def signedText (n : Int) : String := String.ofList (signed n)

private def hexDigit (d : Nat) : Char := if d < 10 then toChar d else Char.ofNat (87 + d)

/-- The lower-case hexadecimal digits of a number, without leading zeros. -/
def writeHex (n : Nat) : List Char :=
  if n < 16 then [hexDigit n] else writeHex (n / 16) ++ [hexDigit (n % 16)]

end TablePipeline.Digits
