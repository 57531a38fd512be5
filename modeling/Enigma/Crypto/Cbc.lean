import Enigma.Crypto.Bytes

/-! AES as an abstract block permutation, and the CBC mode of `crypto/cipher` over it. -/
namespace Enigma.Crypto

/-- `aes.BlockSize`. -/
abbrev blockSize : Nat := 16

/-- A 16-byte block, the unit a `cipher.Block` encrypts. -/
@[ext] structure Block where
  bytes : List UInt8
  length_bytes : bytes.length = blockSize
  deriving DecidableEq

/-- Bytewise xor of two blocks. -/
def Block.xor (a b : Block) : Block :=
  ⟨xorBytes a.bytes b.bytes, by simp [a.length_bytes, b.length_bytes]⟩

@[simp] theorem Block.xor_xor_cancel (a b : Block) : (a.xor b).xor b = a :=
  Block.ext (xorBytes_xorBytes_cancel (by rw [a.length_bytes, b.length_bytes]))

/-- A block cipher under one key: a permutation of blocks together with its inverse. AES is
this and nothing more here, so every result holds for every such cipher. -/
structure BlockCipher where
  encrypt : Block → Block
  decrypt : Block → Block
  decrypt_encrypt : ∀ b, decrypt (encrypt b) = b
  encrypt_decrypt : ∀ b, encrypt (decrypt b) = b

attribute [simp] BlockCipher.decrypt_encrypt BlockCipher.encrypt_decrypt

/-- The identity permutation of blocks, the simplest `BlockCipher`. -/
def BlockCipher.identity : BlockCipher := ⟨id, id, fun _ => rfl, fun _ => rfl⟩

/-- The all-zero block. -/
def zeroBlock : Block := ⟨List.replicate blockSize 0, List.length_replicate _ _⟩

section
variable (aes : List UInt8 → BlockCipher)

/-- `aes.NewCipher(key)`: AES-128, -192 or -256 by the key's length; `aes key` is the keyed
permutation. -/
def newCipher (key : List UInt8) : Except Fault BlockCipher :=
  if key.length = 16 ∨ key.length = 24 ∨ key.length = 32 then .ok (aes key)
  else .error (.err ("crypto/aes: invalid key size " ++ toString key.length))

theorem newCipher_of_valid {key : List UInt8}
    (h : key.length = 16 ∨ key.length = 24 ∨ key.length = 32) : newCipher aes key = .ok (aes key) :=
  if_pos h

theorem newCipher_ne_panic (key : List UInt8) (msg : String) :
    newCipher aes key ≠ .error (.panic msg) := by
  unfold newCipher; split <;> simp

theorem newCipher_ok_iff {key : List UInt8} {b : BlockCipher} :
    newCipher aes key = .ok b ↔
      (key.length = 16 ∨ key.length = 24 ∨ key.length = 32) ∧ aes key = b := by
  unfold newCipher
  split <;> simp_all

end

/-! ### Byte strings as blocks -/

/-- The first `n` whole blocks of a byte string. -/
def toBlocks : Nat → List UInt8 → List Block
  | 0, _ => []
  | n + 1, s =>
    if h : blockSize ≤ s.length then
      ⟨s.take blockSize, by simp [h]⟩ :: toBlocks n (s.drop blockSize)
    else []

/-- The bytes of a list of blocks, in order. -/
def fromBlocks (bs : List Block) : List UInt8 := (bs.map Block.bytes).flatten

@[simp] theorem fromBlocks_nil : fromBlocks [] = [] := rfl

@[simp] theorem fromBlocks_cons (b : Block) (bs : List Block) :
    fromBlocks (b :: bs) = b.bytes ++ fromBlocks bs := rfl

@[simp] theorem length_fromBlocks (bs : List Block) :
    (fromBlocks bs).length = blockSize * bs.length := by
  induction bs with
  | nil => rfl
  | cons b bs ih => simp [ih, b.length_bytes, Nat.mul_succ, Nat.add_comm]

theorem fromBlocks_toBlocks :
    ∀ (n : Nat) (s : List UInt8), s.length = blockSize * n → fromBlocks (toBlocks n s) = s
  | 0, s, h => by simp_all [toBlocks]
  | n + 1, s, h => by
    have hs : blockSize ≤ s.length := by rw [h, Nat.mul_succ]; omega
    simp only [toBlocks, hs, dite_true, fromBlocks_cons]
    rw [fromBlocks_toBlocks n _ (by simp [h, Nat.mul_succ]), List.take_append_drop]

theorem toBlocks_fromBlocks : ∀ bs : List Block, toBlocks bs.length (fromBlocks bs) = bs
  | [] => rfl
  | b :: bs => by
    have hb := b.length_bytes
    simp only [List.length_cons, toBlocks, fromBlocks_cons, List.length_append, hb,
      Nat.le_add_right, dite_true, List.take_left' hb, List.drop_left' hb, toBlocks_fromBlocks]

/-! ### Cipher block chaining -/

/-- `cipher.NewCBCEncrypter(b, iv).CryptBlocks` over whole blocks: each block is xored with the
previous ciphertext block, the IV first, and encrypted. -/
def cbcEncrypt (b : BlockCipher) (iv : Block) : List Block → List Block
  | [] => []
  | p :: ps => let c := b.encrypt (p.xor iv); c :: cbcEncrypt b c ps

/-- `cipher.NewCBCDecrypter(b, iv).CryptBlocks` over whole blocks. -/
def cbcDecrypt (b : BlockCipher) (iv : Block) : List Block → List Block
  | [] => []
  | c :: cs => (b.decrypt c).xor iv :: cbcDecrypt b c cs

@[simp] theorem length_cbcEncrypt (b : BlockCipher) (iv : Block) (ps : List Block) :
    (cbcEncrypt b iv ps).length = ps.length := by
  induction ps generalizing iv <;> simp [cbcEncrypt, *]

@[simp] theorem length_cbcDecrypt (b : BlockCipher) (iv : Block) (cs : List Block) :
    (cbcDecrypt b iv cs).length = cs.length := by
  induction cs generalizing iv <;> simp [cbcDecrypt, *]

theorem cbcDecrypt_cbcEncrypt (b : BlockCipher) (iv : Block) (ps : List Block) :
    cbcDecrypt b iv (cbcEncrypt b iv ps) = ps := by
  induction ps generalizing iv <;> simp [cbcEncrypt, cbcDecrypt, *]

theorem cbcEncrypt_cbcDecrypt (b : BlockCipher) (iv : Block) (cs : List Block) :
    cbcEncrypt b iv (cbcDecrypt b iv cs) = cs := by
  induction cs generalizing iv <;> simp [cbcEncrypt, cbcDecrypt, *]

/-- `mode.CryptBlocks(dst, src)` with `dst` as long as `src`, on the bytes: a panic unless
`src` is whole blocks. -/
def cryptBlocks (mode : List Block → List Block) (src : List UInt8) : Except Fault (List UInt8) :=
  if src.length % blockSize = 0 then .ok (fromBlocks (mode (toBlocks (src.length / blockSize) src)))
  else .error (.panic "crypto/cipher: input not full blocks")

/-- `cipher.NewCBCEncrypter(b, iv)`, which panics on an IV that is not one block. -/
def newCBCEncrypter (b : BlockCipher) (iv : List UInt8) : Except Fault (List Block → List Block) :=
  if h : iv.length = blockSize then .ok (cbcEncrypt b ⟨iv, h⟩)
  else .error (.panic "cipher.NewCBCEncrypter: IV length must equal block size")

/-- `cipher.NewCBCDecrypter(b, iv)`. -/
def newCBCDecrypter (b : BlockCipher) (iv : List UInt8) : Except Fault (List Block → List Block) :=
  if h : iv.length = blockSize then .ok (cbcDecrypt b ⟨iv, h⟩)
  else .error (.panic "cipher.NewCBCDecrypter: IV length must equal block size")

/-- What `CryptBlocks` of a CBC encrypter writes for whole blocks of bytes. -/
def cbcEncryptBytes (b : BlockCipher) (iv : Block) (src : List UInt8) : List UInt8 :=
  fromBlocks (cbcEncrypt b iv (toBlocks (src.length / blockSize) src))

/-- What `CryptBlocks` of a CBC decrypter writes for whole blocks of bytes. -/
def cbcDecryptBytes (b : BlockCipher) (iv : Block) (src : List UInt8) : List UInt8 :=
  fromBlocks (cbcDecrypt b iv (toBlocks (src.length / blockSize) src))

theorem length_toBlocks : ∀ (n : Nat) (s : List UInt8), blockSize * n ≤ s.length →
    (toBlocks n s).length = n
  | 0, _, _ => rfl
  | n + 1, s, h => by
    have hs : blockSize ≤ s.length := by rw [Nat.mul_succ] at h; omega
    simp only [toBlocks, hs, dite_true, List.length_cons]
    rw [length_toBlocks n _ (by simp only [List.length_drop]; rw [Nat.mul_succ] at h; omega)]

private theorem length_toBlocks_div (s : List UInt8) :
    (toBlocks (s.length / blockSize) s).length = s.length / blockSize :=
  length_toBlocks _ _ (Nat.mul_div_le _ _)

theorem toBlocks_fromBlocks_of_length {bs : List Block} {n : Nat} (h : bs.length = n) :
    toBlocks n (fromBlocks bs) = bs := h ▸ toBlocks_fromBlocks bs

private theorem length_eq_of_mod {s : List UInt8} (h : s.length % blockSize = 0) :
    s.length = blockSize * (s.length / blockSize) := (Nat.mul_div_cancel' (Nat.dvd_of_mod_eq_zero h)).symm

theorem length_cbcEncryptBytes (b : BlockCipher) (iv : Block) {s : List UInt8}
    (h : s.length % blockSize = 0) : (cbcEncryptBytes b iv s).length = s.length := by
  rw [cbcEncryptBytes, length_fromBlocks, length_cbcEncrypt, length_toBlocks_div s,
    ← length_eq_of_mod h]

theorem length_cbcDecryptBytes (b : BlockCipher) (iv : Block) {s : List UInt8}
    (h : s.length % blockSize = 0) : (cbcDecryptBytes b iv s).length = s.length := by
  rw [cbcDecryptBytes, length_fromBlocks, length_cbcDecrypt, length_toBlocks_div s,
    ← length_eq_of_mod h]

theorem cbcDecryptBytes_cbcEncryptBytes (b : BlockCipher) (iv : Block) {s : List UInt8}
    (h : s.length % blockSize = 0) : cbcDecryptBytes b iv (cbcEncryptBytes b iv s) = s := by
  have hn := length_cbcEncrypt b iv (toBlocks (s.length / blockSize) s)
  rw [length_toBlocks_div s] at hn
  rw [cbcDecryptBytes, length_cbcEncryptBytes b iv h, cbcEncryptBytes,
    toBlocks_fromBlocks_of_length hn, cbcDecrypt_cbcEncrypt,
    fromBlocks_toBlocks _ _ (length_eq_of_mod h)]

theorem cbcEncryptBytes_cbcDecryptBytes (b : BlockCipher) (iv : Block) {s : List UInt8}
    (h : s.length % blockSize = 0) : cbcEncryptBytes b iv (cbcDecryptBytes b iv s) = s := by
  have hn := length_cbcDecrypt b iv (toBlocks (s.length / blockSize) s)
  rw [length_toBlocks_div s] at hn
  rw [cbcEncryptBytes, length_cbcDecryptBytes b iv h, cbcDecryptBytes, toBlocks_fromBlocks_of_length hn,
    cbcEncrypt_cbcDecrypt, fromBlocks_toBlocks _ _ (length_eq_of_mod h)]

theorem cryptBlocks_cbcEncrypt (b : BlockCipher) (iv : Block) {s : List UInt8}
    (h : s.length % blockSize = 0) : cryptBlocks (cbcEncrypt b iv) s = .ok (cbcEncryptBytes b iv s) :=
  if_pos h

theorem cryptBlocks_cbcDecrypt (b : BlockCipher) (iv : Block) {s : List UInt8}
    (h : s.length % blockSize = 0) : cryptBlocks (cbcDecrypt b iv) s = .ok (cbcDecryptBytes b iv s) :=
  if_pos h

theorem newCBCEncrypter_block (b : BlockCipher) (iv : Block) :
    newCBCEncrypter b iv.bytes = .ok (cbcEncrypt b iv) := by
  simp [newCBCEncrypter, iv.length_bytes]

theorem newCBCDecrypter_of_length (b : BlockCipher) {iv : List UInt8} (h : iv.length = blockSize) :
    newCBCDecrypter b iv = .ok (cbcDecrypt b ⟨iv, h⟩) := dif_pos h

end Enigma.Crypto
