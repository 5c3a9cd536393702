import TablePipeline.Proofs.Secret.Base64
import TablePipeline.Proofs.Secret.Gcm
import TablePipeline.Proofs.Text.Trimming
import TablePipeline.Proofs.Text.Utf8
import TablePipeline.Secret.Vault

/-!
# What a vault opens

A vault opens what a vault of the same key sealed, and it opens only texts of the form of a sealed
one whose bytes its cipher accepts. Blanks make no difference, around the key or the sealed text.
-/

set_option autoImplicit false

namespace TablePipeline

namespace Text

theorem startsWith_iff {s start : String} :
    startsWith s start = true ↔ ∃ rest, s = start ++ rest := by
  rw [startsWith, List.isPrefixOf_iff_prefix]
  constructor
  · rintro ⟨rest, h⟩
    refine ⟨String.ofList rest, String.toList_inj.mp ?_⟩
    rw [String.toList_append, String.toList_ofList, h]
  · rintro ⟨rest, rfl⟩
    rw [String.toList_append]
    exact List.prefix_append ..

theorem ofList_drop_append (start rest : String) :
    String.ofList ((start ++ rest).toList.drop start.length) = rest := by
  rw [String.toList_append, ← String.length_toList, List.drop_left, String.ofList_toList]

end Text

namespace Vault

variable {v : Vault} {c : Cipher} {key blob : String} {s : Secret} {nonce bytes : List UInt8}

/-! ### Keys -/

theorem cipher_ofKey (h : Text.isBlankText key = false) :
    (ofKey (some key)).cipher = some (Cipher.ofKey (keyBytes (Text.trim key))) := by
  simp only [ofKey, ofKeyBy, Option.map_some, Option.filter_some, Text.isEmpty_trim, h]
  rfl

theorem cipher_ofKey_of_blank {key : Option String}
    (h : ∀ text ∈ key, Text.isBlankText text = true) : (ofKey key).cipher = none := by
  cases key with
  | none => rfl
  | some key =>
    simp only [ofKey, ofKeyBy, Option.map_some, Option.filter_some, Text.isEmpty_trim, h key rfl]
    rfl

/-! ### The form of a sealed text -/

/-- Between blanks a text is the version and bytes; these are a number used once and what a cipher
opens to a text. -/
structure Holds (c : Cipher) (blob : String) (s : Secret) (bytes : List UInt8) : Prop where
  form : Text.trim blob = version ++ Base64.encode bytes
  length : nonceLength + Gcm.tagLength ≤ bytes.length
  opens : c.openBytes? (bytes.take nonceLength) (bytes.drop nonceLength) =
    some (Utf8.encode s.expose)

theorem openEncoded_eq_ok {encoded : String} : openEncoded c encoded = .ok s ↔
    ∃ bytes, encoded = Base64.encode bytes ∧ nonceLength + Gcm.tagLength ≤ bytes.length ∧
      c.openBytes? (bytes.take nonceLength) (bytes.drop nonceLength) =
        some (Utf8.encode s.expose) := by
  unfold openEncoded
  rw [Outcome.bind_eq_ok]
  refine exists_congr fun bytes => ?_
  rw [Outcome.mapError_eq_ok, Base64.decode_eq_ok_iff]
  refine and_congr ⟨Utf8.encode_injective, congrArg _⟩ ?_
  by_cases hlength : bytes.length < nonceLength + Gcm.tagLength
  · rw [if_pos hlength]
    exact iff_of_false (fun h => nomatch h) fun h => Nat.not_le_of_lt hlength h.1
  · rw [if_neg hlength, and_iff_right (Nat.le_of_not_lt hlength)]
    cases c.openBytes? (bytes.take nonceLength) (bytes.drop nonceLength) with
    | none => exact iff_of_false (fun h => nomatch h) fun h => nomatch h
    | some plain =>
      cases hdecode : Utf8.decode? plain with
      | none =>
        refine iff_of_false (fun h => ?_) fun h => ?_
        · simp only [hdecode] at h
          cases h
        · rw [Utf8.decode?_eq_some_iff.mpr (Option.some.inj h)] at hdecode
          cases hdecode
      | some text =>
        obtain rfl := Utf8.decode?_eq_some_iff.mp hdecode
        simp only [hdecode]
        constructor
        · intro h
          rw [← Outcome.pure_eq_ok.mp h]
        · intro h
          rw [Utf8.encode_injective (Option.some.inj h)]
          rfl

/-- A vault opens just the texts of this form. -/
theorem openText_eq_ok (hc : v.cipher = some c) :
    openText v blob = .ok s ↔ ∃ bytes, Holds c blob s bytes := by
  simp only [openText, hc]
  constructor
  · intro h
    split at h
    case isTrue hstart =>
      obtain ⟨rest, hrest⟩ := Text.startsWith_iff.mp hstart
      rw [hrest, Text.ofList_drop_append] at h
      obtain ⟨bytes, rfl, hlength, hopens⟩ := openEncoded_eq_ok.mp (Outcome.mapError_eq_ok.mp h)
      exact ⟨bytes, hrest, hlength, hopens⟩
    case isFalse => cases h
  · rintro ⟨bytes, hform, hlength, hopens⟩
    rw [if_pos (Text.startsWith_iff.mpr ⟨_, hform⟩), hform, Text.ofList_drop_append]
    exact Outcome.mapError_eq_ok.mpr (openEncoded_eq_ok.mpr ⟨bytes, rfl, hlength, hopens⟩)

/-- A vault with a key refuses a text only as one that it cannot open. -/
theorem openText_or_decryption (hc : v.cipher = some c) (blob : String) :
    (∃ s, openText v blob = .ok s) ∨ ∃ fault, openText v blob = .error (.decryption fault) := by
  simp only [openText, hc]
  split
  · cases openEncoded c (String.ofList ((Text.trim blob).toList.drop version.length)) with
    | ok s => exact .inl ⟨s, rfl⟩
    | error fault => exact .inr ⟨fault, rfl⟩
  · exact .inr ⟨.noVersion, rfl⟩

theorem trim_version_encode (bytes : List UInt8) :
    Text.trim (version ++ Base64.encode bytes) = version ++ Base64.encode bytes := by
  apply Text.trim_of_ends
  · intro c hc
    rw [String.toList_append] at hc
    obtain rfl := Option.some.inj hc
    rfl
  · have hversion : version.toList.all (!Text.isBlank ·) = true := rfl
    intro c hc
    rw [String.toList_append] at hc
    rcases List.mem_append.mp (List.mem_of_getLast? hc) with hc | hc
    · simpa using List.all_eq_true.mp hversion c hc
    · exact Base64.isBlank_encode bytes c hc

/-- What is sealed has the form of a sealed text, also between blanks. -/
theorem holds_sealed (hc : c.Inverts) (hnonce : nonce.length = nonceLength) {left right : String}
    (hleft : Text.isBlankText left = true) (hright : Text.isBlankText right = true)
    (plain : String) (hlength : Gcm.tagLength ≤ (c.sealBytes nonce (Utf8.encode plain)).length) :
    Holds c
      (left ++ (version ++ Base64.encode (nonce ++ c.sealBytes nonce (Utf8.encode plain))) ++ right)
      ⟨plain⟩ (nonce ++ c.sealBytes nonce (Utf8.encode plain)) where
  form := by rw [Text.trim_between hleft hright, trim_version_encode]
  length := by
    rw [List.length_append, hnonce]
    exact Nat.add_le_add_left hlength _
  opens := by rw [List.take_left' hnonce, List.drop_left' hnonce, hc]

/-- With a key that is not blank, what was sealed is opened again, also where only blanks are added
to the sealed text or to the key; any text is opened just if it has the form of a sealed one, and is
refused as one that cannot be opened otherwise. Without such a key nothing is sealed or opened. -/
theorem ofKey_opens_sealed :
    (∀ key, Text.isBlankText key = false →
      (∀ key' nonce plain left right, Text.trim key' = Text.trim key → nonce.length = nonceLength →
        Text.isBlankText left = true → Text.isBlankText right = true →
          ∃ blob, sealText (ofKey (some key)) nonce plain = .ok blob ∧
            openText (ofKey (some key')) (left ++ blob ++ right) = .ok ⟨plain⟩) ∧
      ∀ blob,
        (∀ s, openText (ofKey (some key)) blob = .ok s ↔
          ∃ bytes, Holds (Cipher.ofKey (keyBytes (Text.trim key))) blob s bytes) ∧
        ((∃ s, openText (ofKey (some key)) blob = .ok s) ∨
          ∃ fault, openText (ofKey (some key)) blob = .error (.decryption fault))) ∧
    ∀ key : Option String, (∀ text ∈ key, Text.isBlankText text = true) → ∀ nonce plain blob,
      sealText (ofKey key) nonce plain = .error .keyMissing ∧
        openText (ofKey key) blob = .error .keyMissing := by
  refine ⟨fun key hkey => ⟨?_, fun blob => ?_⟩, fun key hblank nonce plain blob => ?_⟩
  · intro key' nonce plain left right htrim hnonce hleft hright
    have hkey' : Text.isBlankText key' = false := by
      rw [← Text.isEmpty_trim, htrim, Text.isEmpty_trim, hkey]
    have hc := cipher_ofKey hkey'
    rw [htrim] at hc
    have hsealed := holds_sealed (Cipher.ofKey_inverts (keyBytes (Text.trim key))) hnonce hleft
      hright plain (Gcm.tagLength_le_length_seal ..)
    exact ⟨_, by rw [sealText, cipher_ofKey hkey], (openText_eq_ok hc).mpr ⟨_, hsealed⟩⟩
  · have hc := cipher_ofKey hkey
    exact ⟨fun s => openText_eq_ok hc, openText_or_decryption hc blob⟩
  · have hc := cipher_ofKey_of_blank hblank
    exact ⟨by rw [sealText, hc], by rw [openText, hc]⟩

/-- A password sealed under a phrase is opened under the phrase between blanks. -/
theorem ofKey_opens_sealed_password : ∃ blob,
    sealText (ofKey (some "correct horse")) (List.replicate nonceLength 7) "s3cr3t-p@ss" =
      .ok blob ∧
    openText (ofKey (some " correct horse\n")) ("\t" ++ blob ++ "  ") = .ok ⟨"s3cr3t-p@ss"⟩ :=
  (ofKey_opens_sealed.1 "correct horse" (by decide)).1 _ _ _ _ _ (by decide +kernel) (by decide)
    (by decide) (by decide)

end Vault

end TablePipeline
