import Enigma.Crypto.Cbc
import Enigma.Crypto.Padding

/-! `AesEncrypt`, `GetSaltFromCipherText` and `AesDecrypt`: a ciphertext is the IV, the salt and
the CBC encryption of the PKCS#5-padded plaintext. -/
namespace Enigma.Crypto

/-- `AesMode`, an `int8` enumeration. -/
abbrev AesMode := Int8

/-- `CBC`, the one mode `crypto.go` declares. -/
def cbc : AesMode := 0

/-- `kSaltSize`. -/
abbrev kSaltSize : Nat := 8

section
variable (aes : List UInt8 → BlockCipher)

/-- `AesEncrypt(key, salt, plaintext, mode)`. `random` is what `io.ReadFull(rand.Reader, iv)`
fills the IV with, or its error. The output buffer is composed as iv + salt + data, and the
data part stays zero unless the mode switch selects CBC. -/
def aesEncrypt (key salt plaintext : List UInt8) (mode : AesMode)
    (random : Except String Block) : Except Fault (List UInt8) := do
  if key.length < 1 then
    throw (.err "invalid key argument: should be not null or empty")
  if plaintext.length < 1 then
    throw (.err "invalid plain text argument: should be not null or empty")
  let paddedPlaintext := pkcs5Padding plaintext blockSize
  if salt.length ≠ kSaltSize then
    throw (.err ("invalid salt size, expecting " ++ toString kSaltSize ++ " having " ++
      toString salt.length))
  if paddedPlaintext.length % blockSize ≠ 0 then
    throw (.err "invalid plain text size: should be a multiple of block size")
  let block ← newCipher aes key
  let iv ← random.mapError Fault.err
  let data ← if mode = cbc then do
      let cipherMode ← newCBCEncrypter block iv.bytes
      cryptBlocks cipherMode paddedPlaintext
    else pure (List.replicate paddedPlaintext.length 0)
  pure (iv.bytes ++ salt ++ data)

/-- `GetSaltFromCipherText(ciphertext)`. -/
def getSaltFromCipherText (ciphertext : List UInt8) : Except Fault (List UInt8) := do
  if ciphertext.length < blockSize + kSaltSize then
    throw (.err ("ciphertext is too short: having " ++ toString ciphertext.length ++
      " expecting > than " ++ toString (blockSize + kSaltSize)))
  slice ciphertext blockSize (blockSize + kSaltSize)

/-- `AesDecrypt(key, ciphertext, mode)`. The IV and the data are sliced off the copied
ciphertext before its length is checked. -/
def aesDecrypt (key ciphertext : List UInt8) (mode : AesMode) : Except Fault (List UInt8) := do
  if key.length < 1 ∨ ciphertext.length < 1 then
    throw (.err "invalid arguments: should be not null or empty")
  let copiedChipertext := ciphertext
  let iv ← slice copiedChipertext 0 blockSize
  let ciphert ← slice copiedChipertext (blockSize + kSaltSize) copiedChipertext.length
  if ciphert.length < blockSize then
    throw (.err "cipher text too short, must be at least longer than block size")
  if ciphert.length % blockSize ≠ 0 then
    throw (.err "chiper text have wrong size, should be a block size multiple")
  let block ← newCipher aes key
  let ciphert ← if mode = cbc then do
      let cipherMode ← newCBCDecrypter block iv
      cryptBlocks cipherMode ciphert
    else pure ciphert
  pkcs5UnPadding ciphert

/-! ### The two functions on well-formed arguments -/

theorem aesEncrypt_of_valid {key salt plaintext : List UInt8} (mode : AesMode)
    (random : Except String Block) (hkey : key ≠ []) (hplain : plaintext ≠ [])
    (hsalt : salt.length = kSaltSize) :
    aesEncrypt aes key salt plaintext mode random =
      newCipher aes key >>= fun block => random.mapError Fault.err >>= fun iv =>
        .ok (iv.bytes ++ salt ++
          if mode = cbc then cbcEncryptBytes block iv (pkcs5Padding plaintext blockSize)
          else List.replicate (pkcs5Padding plaintext blockSize).length 0) := by
  have hm : (pkcs5Padding plaintext blockSize).length % blockSize = 0 := by
    rw [length_pkcs5Padding_of_pos _ (by decide)]; exact Nat.mul_mod_right _ _
  have hk : ¬ key.length < 1 := by simpa [Nat.lt_one_iff] using hkey
  have hp : ¬ plaintext.length < 1 := by simpa [Nat.lt_one_iff] using hplain
  simp only [aesEncrypt, hk, hp, hsalt, hm, ne_eq, not_true_eq_false, if_false, except_pure,
    except_ok_bind]
  congr 1; funext block; congr 1; funext iv
  by_cases hc : mode = cbc
  · simp [hc, newCBCEncrypter_block, cryptBlocks_cbcEncrypt _ _ hm]
  · simp [hc]

theorem aesDecrypt_split {key salt data : List UInt8} (iv : Block) (mode : AesMode)
    (hkey : key ≠ []) (hsalt : salt.length = kSaltSize) :
    aesDecrypt aes key (iv.bytes ++ salt ++ data) mode =
      if data.length < blockSize then
        .error (.err "cipher text too short, must be at least longer than block size")
      else if data.length % blockSize ≠ 0 then
        .error (.err "chiper text have wrong size, should be a block size multiple")
      else newCipher aes key >>= fun block =>
        pkcs5UnPadding (if mode = cbc then cbcDecryptBytes block iv data else data) := by
  have hiv := iv.length_bytes
  have h1 : ¬ (key.length < 1 ∨ (iv.bytes ++ salt ++ data).length < 1) := by
    simp [hkey, hiv, blockSize]
  have h2 : slice (iv.bytes ++ salt ++ data) 0 blockSize = .ok iv.bytes := by
    rw [slice_of_le (Nat.zero_le _) (by simp [hiv])]; simp [List.take_append_of_le_length, hiv]
  have h3 : slice (iv.bytes ++ salt ++ data) (blockSize + kSaltSize)
      (iv.bytes ++ salt ++ data).length = .ok data := by
    rw [slice_of_le (by simp [hiv, hsalt]) le_rfl, List.take_length]
    simp [← hiv, ← hsalt, List.drop_append_of_le_length]
  simp only [aesDecrypt, h1, h2, h3, if_false, except_ok_bind, except_pure]
  by_cases hs : data.length < blockSize
  · simp [hs]
  by_cases hm : data.length % blockSize ≠ 0
  · simp [hs, hm]
  simp only [hs, hm, if_false, except_pure, except_ok_bind]
  by_cases hc : mode = cbc
  · simp only [hc, if_true, newCBCDecrypter_of_length _ hiv, except_ok_bind]
    congr 1; funext block
    rw [cryptBlocks_cbcDecrypt _ _ (by omega)]; rfl
  · simp [hc]

theorem getSaltFromCipherText_split {salt : List UInt8} (iv : Block) (data : List UInt8)
    (hsalt : salt.length = kSaltSize) :
    getSaltFromCipherText (iv.bytes ++ salt ++ data) = .ok salt := by
  have hiv := iv.length_bytes
  have h : ¬ (iv.bytes ++ salt ++ data).length < blockSize + kSaltSize := by simp [hiv, hsalt]
  simp only [getSaltFromCipherText, h, if_false, except_pure, except_ok_bind]
  rw [slice_of_le (Nat.le_add_right _ _) (by simp [hiv, hsalt]),
    List.take_left' (by simp [hiv, hsalt]), List.drop_left' hiv]

/-- Under a valid key and salt, encryption of a non-empty plaintext succeeds with the IV, the
salt and the CBC encryption of the padded plaintext; the salt reads back, and decryption returns
the plaintext. -/
theorem aesDecrypt_aesEncrypt {key salt P : List UInt8} (iv : Block)
    (hkey : key.length = 16 ∨ key.length = 24 ∨ key.length = 32) (hsalt : salt.length = 8)
    (hP : P ≠ []) :
    ∃ C, aesEncrypt aes key salt P cbc (.ok iv) = .ok C ∧
      C.length = 24 + 16 * (P.length / 16 + 1) ∧
      C = iv.bytes ++ salt ++ cbcEncryptBytes (aes key) iv (pkcs5Padding P 16) ∧
      getSaltFromCipherText C = .ok salt ∧ aesDecrypt aes key C cbc = .ok P := by
  have hk : key ≠ [] := by rintro rfl; simp at hkey
  have hl : (pkcs5Padding P 16).length = 16 * (P.length / 16 + 1) :=
    length_pkcs5Padding_of_pos P (by decide)
  have hm : (pkcs5Padding P 16).length % 16 = 0 := by
    rw [hl]; exact Nat.mul_mod_right _ _
  refine ⟨_, ?_, ?_, rfl, getSaltFromCipherText_split iv _ hsalt, ?_⟩
  · rw [aesEncrypt_of_valid aes cbc _ hk hP hsalt, newCipher_of_valid aes hkey]
    simp
  · simp [iv.length_bytes, hsalt, length_cbcEncryptBytes _ _ hm, hl, blockSize]; omega
  · have hd : ¬ (pkcs5Padding P 16).length < blockSize := by
      rw [hl, Nat.mul_succ]; simp only [blockSize]; omega
    have hm' : (pkcs5Padding P 16).length % blockSize = 0 := hm
    rw [aesDecrypt_split aes iv cbc hk hsalt]
    simp only [length_cbcEncryptBytes _ _ hm, hd, hm', newCipher_of_valid aes hkey, if_true,
      if_false, ne_eq, not_true_eq_false, except_ok_bind, cbcDecryptBytes_cbcEncryptBytes _ _ hm]
    exact pkcs5UnPadding_pkcs5Padding P (b := 16) (by decide) (by decide)

theorem aesDecrypt_aesEncrypt_identity :
    ((List.replicate 16 (0 : UInt8)).length = 16 ∨ (List.replicate 16 (0 : UInt8)).length = 24 ∨
        (List.replicate 16 (0 : UInt8)).length = 32) ∧
      (List.replicate 8 (0 : UInt8)).length = 8 ∧ [(1 : UInt8)] ≠ [] ∧
      ∃ C, aesEncrypt (fun _ => BlockCipher.identity) (List.replicate 16 0) (List.replicate 8 0) [1]
          cbc (.ok zeroBlock) = .ok C ∧
        C.length = 24 + 16 * ([(1 : UInt8)].length / 16 + 1) ∧
        C = zeroBlock.bytes ++ List.replicate 8 0 ++
          cbcEncryptBytes BlockCipher.identity zeroBlock (pkcs5Padding [1] 16) ∧
        getSaltFromCipherText C = .ok (List.replicate 8 0) ∧
        aesDecrypt (fun _ => BlockCipher.identity) (List.replicate 16 0) C cbc = .ok [1] :=
  ⟨by decide, by decide, by decide,
    aesDecrypt_aesEncrypt (fun _ => BlockCipher.identity) zeroBlock (by decide) (by decide)
      (by decide)⟩

/-! ### Malformed ciphertexts -/

/-- A ciphertext of 24 bytes or more is an IV, a salt and the data. -/
theorem exists_split {C : List UInt8} (h : blockSize + kSaltSize ≤ C.length) :
    ∃ (iv : Block) (salt data : List UInt8), C = iv.bytes ++ salt ++ data ∧
      salt.length = kSaltSize := by
  refine ⟨⟨C.take blockSize, by simp; omega⟩, (C.drop blockSize).take kSaltSize,
    C.drop (blockSize + kSaltSize), ?_, by simp; omega⟩
  simp [List.drop_drop, Nat.add_comm]

private theorem not_length_lt_one {l : List UInt8} (h : l ≠ []) : ¬ l.length < 1 := by
  simpa [Nat.lt_one_iff] using h

/-- The IV and the data are sliced before any length check, so every ciphertext of 1 to 23 bytes
makes `AesDecrypt` panic. -/
theorem aesDecrypt_of_short {key C : List UInt8} (mode : AesMode) (hkey : key ≠ [])
    (hC : C ≠ []) (hlen : C.length < blockSize + kSaltSize) :
    aesDecrypt aes key C mode = .error (.panic "runtime error: slice bounds out of range") := by
  simp only [aesDecrypt, not_length_lt_one hkey, not_length_lt_one hC, or_self, if_false,
    except_pure, except_ok_bind]
  by_cases h : C.length < blockSize
  · rw [slice_of_lt h]; rfl
  · rw [slice_of_le (Nat.zero_le _) (by omega), except_ok_bind, slice_of_lt_lo hlen]; rfl

/-- At a one-byte ciphertext `AesDecrypt` panics in `copiedChipertext[:16]` instead of returning
an error. -/
theorem aesDecrypt_one_byte_panics (mode : AesMode) :
    aesDecrypt aes (List.replicate 16 0) [0] mode =
      .error (.panic "runtime error: slice bounds out of range") :=
  aesDecrypt_of_short aes mode (by simp) (by simp) (by decide)

/-- `aesDecrypt` panics exactly on a non-empty key and a ciphertext of 1 to 23 bytes, and a
longer ciphertext whose data is shorter than a block or not whole blocks gets an error. -/
theorem aesDecrypt_malformed (key C : List UInt8) (mode : AesMode) :
    ((∃ msg, aesDecrypt aes key C mode = .error (.panic msg)) ↔
      key ≠ [] ∧ C ≠ [] ∧ C.length < blockSize + kSaltSize) ∧
    (blockSize + kSaltSize ≤ C.length → (C.length < 40 ∨ (C.length - 24) % blockSize ≠ 0) →
      ∃ msg, aesDecrypt aes key C mode = .error (.err msg)) := by
  refine ⟨⟨?_, fun ⟨hk, hC, hl⟩ => ⟨_, aesDecrypt_of_short aes mode hk hC hl⟩⟩, fun hl hbad => ?_⟩
  · rintro ⟨msg, h⟩
    by_cases hk : key = []
    · simp [aesDecrypt, hk] at h
    by_cases hC : C = []
    · simp [aesDecrypt, hC] at h
    refine ⟨hk, hC, Nat.lt_of_not_le fun hl => ?_⟩
    obtain ⟨iv, salt, data, rfl, hsalt⟩ := exists_split hl
    rw [aesDecrypt_split aes iv mode hk hsalt] at h
    split_ifs at h
    · cases h
    · cases h
    all_goals
      rcases except_bind_eq_error h with hn | ⟨_, -, h⟩
      exacts [newCipher_ne_panic aes key msg hn, pkcs5UnPadding_ne_panic _ msg h]
  · by_cases hk : key = []
    · exact ⟨"invalid arguments: should be not null or empty", by simp [aesDecrypt, hk]⟩
    obtain ⟨iv, salt, data, rfl, hsalt⟩ := exists_split hl
    have hd : data.length = (iv.bytes ++ salt ++ data).length - 24 := by
      simp only [List.length_append, iv.length_bytes, hsalt, blockSize, kSaltSize]; omega
    rw [aesDecrypt_split aes iv mode hk hsalt]
    by_cases h16 : data.length < blockSize
    · exact ⟨_, if_pos h16⟩
    · exact ⟨_, by rw [if_neg h16, if_pos (by simp only [blockSize] at *; omega)]⟩

/-! ### What a successful decryption accepts -/

/-- The trailer PKCS#5 asks for: a final byte `p` with `1 ≤ p ≤ 16`, repeated `p` times. -/
def ValidTrailer (X : List UInt8) : Prop :=
  1 ≤ (X.getLastD 0).toNat ∧ (X.getLastD 0).toNat ≤ blockSize ∧
    X.drop (X.length - (X.getLastD 0).toNat) = List.replicate (X.getLastD 0).toNat (X.getLastD 0)

instance : DecidablePred ValidTrailer := fun _ => inferInstanceAs (Decidable (_ ∧ _ ∧ _))

/-- A byte string of whole blocks that ends in a valid trailer is the padding of what
unpadding leaves. -/
theorem pkcs5Padding_of_validTrailer {X : List UInt8} (hX : X.length % blockSize = 0)
    (hv : ValidTrailer X) :
    pkcs5Padding (X.take (X.length - (X.getLastD 0).toNat)) blockSize = X := by
  obtain ⟨h1, h16, hd⟩ := hv
  have hl : blockSize ≤ X.length := by
    rcases List.eq_nil_or_concat X with rfl | ⟨s, x, rfl⟩
    · simp at h1
    · simp [blockSize] at hX ⊢; omega
  have hp : blockSize - (X.length - (X.getLastD 0).toNat) % blockSize = (X.getLastD 0).toNat := by
    simp only [blockSize] at *; omega
  simp only [pkcs5Padding, List.length_take, Nat.min_eq_left (Nat.sub_le _ _), hp,
    byte_ofNat_toNat, ← hd, List.take_append_drop]

/-- In the CBC mode, with an RNG that delivers, encryption fails exactly on a key that is not
16, 24 or 32 bytes, an empty plaintext or a salt that is not 8 bytes. -/
theorem aesEncrypt_cbc_ok_iff (key salt plaintext : List UInt8) (iv : Block) :
    (∃ C, aesEncrypt aes key salt plaintext cbc (.ok iv) = .ok C) ↔
      (key.length = 16 ∨ key.length = 24 ∨ key.length = 32) ∧ plaintext ≠ [] ∧
        salt.length = 8 := by
  by_cases hk : key = []
  · simp [aesEncrypt, hk]
  by_cases hp : plaintext = []
  · simp [aesEncrypt, hk, hp]
  by_cases hs : salt.length = kSaltSize
  · rw [aesEncrypt_of_valid aes cbc _ hk hp hs]
    constructor
    · rintro ⟨_, h⟩
      obtain ⟨_, hn, -⟩ := except_bind_eq_ok h
      exact ⟨((newCipher_ok_iff aes).mp hn).1, hp, hs⟩
    · rintro ⟨hv, -, -⟩
      exact ⟨_, by rw [newCipher_of_valid aes hv]; rfl⟩
  · simp [aesEncrypt, hk, hp, hs, Nat.lt_one_iff]

/-- The buffer `AesEncrypt` checks against the block size is a whole number of blocks, so its
"should be a multiple of block size" branch is dead. -/
theorem pkcs5Padding_blockSize_mod (plaintext : List UInt8) :
    (pkcs5Padding plaintext blockSize).length % blockSize = 0 := by
  rw [length_pkcs5Padding_of_pos _ (by decide)]; exact Nat.mul_mod_right _ _

/-- Encryption never panics, in any mode and whatever the RNG delivers: it fails with an error,
or returns the IV, the salt and as many bytes as the padded plaintext has. -/
theorem aesEncrypt_ne_panic (key salt plaintext : List UInt8) (mode : AesMode)
    (random : Except String Block) :
    (∀ msg, aesEncrypt aes key salt plaintext mode random ≠ .error (.panic msg)) ∧
      ∀ C, aesEncrypt aes key salt plaintext mode random = .ok C →
        C.length = 24 + 16 * (plaintext.length / 16 + 1) := by
  by_cases hk : key = []
  · simp [aesEncrypt, hk]
  by_cases hp : plaintext = []
  · simp [aesEncrypt, hk, hp]
  by_cases hs : salt.length = kSaltSize
  swap
  · simp [aesEncrypt, hk, hp, hs, Nat.lt_one_iff]
  rw [aesEncrypt_of_valid aes mode random hk hp hs]
  refine ⟨fun msg h => ?_, fun C h => ?_⟩
  · rcases except_bind_eq_error h with hn | ⟨_, -, h⟩
    · exact newCipher_ne_panic aes key msg hn
    rcases except_bind_eq_error h with hr | ⟨_, -, h⟩
    · cases random <;> cases hr
    · cases h
  · obtain ⟨block, -, h⟩ := except_bind_eq_ok h
    obtain ⟨iv, -, h⟩ := except_bind_eq_ok h
    cases h
    have hm := pkcs5Padding_blockSize_mod plaintext
    have hl := length_pkcs5Padding_of_pos plaintext (b := blockSize) (by decide)
    simp only [List.length_append, iv.length_bytes, hs]
    split
    · rw [length_cbcEncryptBytes _ _ hm, hl]; rfl
    · rw [List.length_replicate, hl]; rfl

/-- Mode 1 is no mode of the package, yet encryption returns IV, salt and zero bytes in place of
the ciphertext, and decryption returns the unpadded ciphertext as plaintext. -/
theorem aesEncrypt_aesDecrypt_unknown_mode :
    aesEncrypt aes (List.replicate 16 0) (List.replicate 8 0) [1] 1 (.ok zeroBlock) =
        .ok (List.replicate 40 0) ∧
      aesDecrypt aes (List.replicate 16 0) (List.replicate 40 0) 1 = .ok (List.replicate 16 0) :=
  ⟨rfl, rfl⟩

end

end Enigma.Crypto
