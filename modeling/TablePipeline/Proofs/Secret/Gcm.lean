import Mathlib.Data.List.Basic
import TablePipeline.Secret.Gcm

/-!
# Opening undoes sealing

Counter mode adds the same stream when it opens, so it gives the plain bytes back, and the tag of
the sealed bytes is the one that was put behind them. No property of the block cipher is needed but
that it gives whole blocks.
-/

set_option autoImplicit false

namespace TablePipeline

namespace Gcm

theorem length_bytesOf (width n : Nat) : (bytesOf width n).length = width := by
  rw [bytesOf, List.length_map, List.length_range]

theorem length_tag (encrypt : List UInt8 → List UInt8) (nonce bytes : List UInt8) :
    (tag encrypt nonce bytes).length = tagLength :=
  length_bytesOf ..

/-- Adding a stream twice changes nothing, when it is long enough. -/
theorem zipWith_xor_twice {bytes key : List UInt8} (h : bytes.length ≤ key.length) :
    List.zipWith (· ^^^ ·) (List.zipWith (· ^^^ ·) bytes key) key = bytes := by
  induction bytes generalizing key with
  | nil => simp
  | cons b bytes ih =>
    cases key with
    | nil => simp at h
    | cons k key =>
      have htail := ih (Nat.le_of_succ_le_succ h)
      simp only [List.zipWith_cons_cons, htail, UInt8.xor_assoc, UInt8.xor_self, UInt8.xor_zero]

theorem blocks_append {block rest : List UInt8} (hne : block ≠ [])
    (hlength : block.length = 16 ∨ block.length ≤ 16 ∧ rest = []) :
    blocks (block ++ rest) = block :: blocks rest := by
  rw [blocks, dif_neg (List.append_ne_nil_of_left_ne_nil hne rest)]
  rcases hlength with hlength | ⟨hlength, rfl⟩
  · rw [List.take_left' hlength, List.drop_left' hlength]
  · rw [List.append_nil, List.take_of_length_le hlength, List.drop_of_length_le hlength]

section Counter

variable {encrypt : List UInt8 → List UInt8} {nonce : List UInt8}

theorem length_stream (hblock : ∀ bytes, 16 ≤ (encrypt bytes).length) (n : Nat)
    (bytes : List UInt8) : (stream encrypt nonce n (blocks bytes)).length = bytes.length := by
  fun_induction blocks bytes generalizing n
  case case1 => rfl
  case case2 bytes hne ih =>
    have := hblock (counter nonce n)
    rw [stream, List.length_append, List.length_zipWith, List.length_take, ih, List.length_drop]
    omega

/-- Adding the stream to bytes twice gives the bytes back. Only the last block is a short one. -/
theorem stream_twice (hblock : ∀ bytes, 16 ≤ (encrypt bytes).length) (n : Nat)
    (bytes : List UInt8) :
    stream encrypt nonce n (blocks (stream encrypt nonce n (blocks bytes))) = bytes := by
  fun_induction blocks bytes generalizing n
  case case1 =>
    rw [stream, blocks, dif_pos rfl, stream]
  case case2 bytes hne ih =>
    have hkey := hblock (counter nonce n)
    have hcount := List.length_pos_iff.mpr hne
    have hrest : (stream encrypt nonce (n + 1) (blocks (bytes.drop 16))).length =
        (bytes.drop 16).length := length_stream hblock (n + 1) _
    have hfirst : (List.zipWith (· ^^^ ·) (bytes.take 16) (encrypt (counter nonce n))).length =
        min 16 bytes.length := by
      rw [List.length_zipWith, List.length_take]
      omega
    rw [stream, blocks_append, stream, zipWith_xor_twice, ih, List.take_append_drop]
    · rw [List.length_take]
      omega
    · rw [← List.length_pos_iff, hfirst]
      omega
    · rw [hfirst, ← List.length_eq_zero_iff, hrest, List.length_drop]
      omega

end Counter

/-- With a block cipher that gives whole blocks, opening undoes sealing. -/
theorem cipher_inverts {encrypt : List UInt8 → List UInt8}
    (hblock : ∀ bytes, 16 ≤ (encrypt bytes).length) : (cipher encrypt).Inverts := by
  intro nonce plain
  have hlength (bytes : List UInt8) :
      (bytes ++ tag encrypt nonce bytes).length - tagLength = bytes.length := by
    rw [List.length_append, length_tag, Nat.add_sub_cancel]
  simp only [cipher, hlength, List.take_left, List.drop_left]
  rw [if_neg, stream_twice hblock]
  rintro (h | h)
  · rw [List.length_append, length_tag] at h
    omega
  · exact h rfl

theorem tagLength_le_length_seal (encrypt : List UInt8 → List UInt8) (nonce plain : List UInt8) :
    tagLength ≤ ((cipher encrypt).sealBytes nonce plain).length := by
  rw [cipher, List.length_append, length_tag]
  exact Nat.le_add_left ..

end Gcm

namespace Aes256

theorem length_bytes (x : Block) : x.bytes.length = 16 := rfl

theorem size_expand (n : Nat) (factor : UInt8) (w : Array Word) :
    (expand n factor w).size = w.size + n := by
  induction n generalizing factor w with
  | zero => rfl
  | succ n ih =>
    have hpush (factor : UInt8) (x : Word) :
        (expand n factor (w.push x)).size = w.size + (n + 1) := by
      rw [ih, Array.size_push]
      omega
    simp only [expand]
    split
    · exact hpush ..
    · split <;> exact hpush ..

theorem roundKeys_ne_nil : ∀ {ws : List Word}, 4 ≤ ws.length → roundKeys ws ≠ []
  | _ :: _ :: _ :: _ :: _, _ => List.cons_ne_nil _ _
  | [], h | [_], h | [_, _], h | [_, _, _], h => by simp at h

theorem roundKeys_schedule_ne_nil (key : List UInt8) : roundKeys (schedule key) ≠ [] := by
  apply roundKeys_ne_nil
  rw [schedule, Array.length_toList, size_expand]
  omega

theorem length_encrypt {keys : List Block} (h : keys ≠ []) (bytes : List UInt8) :
    (encrypt keys bytes).length = 16 := by
  cases keys with
  | nil => exact absurd rfl h
  | cons k ks => exact length_bytes _

end Aes256

/-- What a key seals, the same key opens. -/
theorem Cipher.ofKey_inverts (key : List UInt8) : (Cipher.ofKey key).Inverts :=
  Gcm.cipher_inverts fun bytes =>
    Nat.le_of_eq (Aes256.length_encrypt (Aes256.roundKeys_schedule_ne_nil key) bytes).symm

end TablePipeline
