import Enigma.Crypto.Bytes

/-! `XorKeys`: the loop copies the first key into a zeroed buffer and xors the others into it,
which is the plain fold of the bytewise xor over all keys. -/
namespace Enigma.Crypto

/-- Go's `copy(dst, src)`: the first `min(len dst, len src)` bytes of `dst` become those of
`src`. -/
def copy (dst src : List UInt8) : List UInt8 := src.take dst.length ++ dst.drop src.length

/-- The error `XorKeys` returns for a key of the wrong length. -/
def xorKeysError (maxlen : Nat) : String :=
  s!"invalid passcodes: argument passcodes are too short, should be min {maxlen} byte long"

/-- The `for counter, key := range keys` loop of `XorKeys` over the remaining keys. The inner
`buffeXored[i] ^= key[i]` loop runs over `maxlen` bytes, the length of both slices. -/
def xorKeysLoop (maxlen : Nat) : Nat → List (List UInt8) → List UInt8 → Except String (List UInt8)
  | _, [], buffeXored => .ok buffeXored
  | counter, key :: keys, buffeXored =>
    if key.length ≠ maxlen then .error (xorKeysError maxlen)
    else
      xorKeysLoop maxlen (counter + 1) keys
        (if counter = 0 then copy buffeXored key else xorBytes buffeXored key)

/-- `XorKeys(keys, maxlen)`. -/
def xorKeys (keys : List (List UInt8)) (maxlen : Nat) : Except String (List UInt8) :=
  xorKeysLoop maxlen 0 keys (List.replicate maxlen 0)

/-- The `n`-byte bytewise xor of all keys. -/
def xorAll (n : Nat) (keys : List (List UInt8)) : List UInt8 :=
  keys.foldl xorBytes (List.replicate n 0)

theorem copy_of_length {dst src : List UInt8} (h : src.length = dst.length) : copy dst src = src := by
  simp [copy, ← h]

theorem zero_xorBytes {k : List UInt8} {n : Nat} (h : k.length = n) :
    xorBytes (List.replicate n 0) k = k := by
  subst h
  induction k with
  | nil => rfl
  | cons x k ih => simpa [xorBytes, List.replicate_succ] using ih

theorem xorBytes_right_comm :
    ∀ a b c : List UInt8, xorBytes (xorBytes a b) c = xorBytes (xorBytes a c) b
  | [], _, _ => rfl
  | _ :: _, [], _ => by simp [xorBytes]
  | _ :: _, _ :: _, [] => by simp [xorBytes]
  | x :: a, y :: b, z :: c => by
    simp only [xorBytes, List.zipWith_cons_cons, List.cons.injEq]
    exact ⟨by rw [byte_xor_assoc, byte_xor_comm y, ← byte_xor_assoc], xorBytes_right_comm a b c⟩

theorem length_foldl_xorBytes {n : Nat} :
    ∀ {keys : List (List UInt8)} {buf : List UInt8}, buf.length = n →
      (∀ k ∈ keys, k.length = n) → (keys.foldl xorBytes buf).length = n
  | [], _, hb, _ => hb
  | k :: keys, buf, hb, hk => by
    rw [List.foldl_cons]
    exact length_foldl_xorBytes (by simp [hb, hk k (List.mem_cons_self _ _)])
      fun k' h => hk k' (List.mem_cons_of_mem _ h)

/-- After the first key the loop is the fold of the bytewise xor, or the length error. -/
theorem xorKeysLoop_succ (n c : Nat) (keys : List (List UInt8)) (buf : List UInt8) :
    xorKeysLoop n (c + 1) keys buf =
      if ∀ k ∈ keys, k.length = n then .ok (keys.foldl xorBytes buf) else .error (xorKeysError n) := by
  induction keys generalizing c buf with
  | nil => simp [xorKeysLoop]
  | cons k keys ih =>
    by_cases hk : k.length = n
    · simp [xorKeysLoop, hk, ih]
    · simp [xorKeysLoop, hk]

theorem xorKeys_eq (keys : List (List UInt8)) (n : Nat) :
    xorKeys keys n =
      if ∀ k ∈ keys, k.length = n then .ok (xorAll n keys) else .error (xorKeysError n) := by
  cases keys with
  | nil => rfl
  | cons k keys =>
    by_cases hk : k.length = n
    · simp [xorKeys, xorKeysLoop, hk, xorKeysLoop_succ, xorAll, copy_of_length,
        zero_xorBytes hk]
    · simp [xorKeys, xorKeysLoop, hk]

/-- `XorKeys` fails exactly when some key is not `n` bytes long, and otherwise returns the
`n`-byte xor of all keys. So the order of the keys does not matter, and neither does a key of
`n` bytes given twice. -/
theorem xorKeys_spec (keys : List (List UInt8)) (n : Nat) :
    ((∃ e, xorKeys keys n = .error e) ↔ ∃ k ∈ keys, k.length ≠ n) ∧
      ((∀ k ∈ keys, k.length = n) →
        xorKeys keys n = .ok (xorAll n keys) ∧ (xorAll n keys).length = n) ∧
      (∀ keys', keys.Perm keys' → xorKeys keys' n = xorKeys keys n) ∧
      (∀ k, k.length = n → xorKeys (k :: k :: keys) n = xorKeys keys n) := by
  refine ⟨?_, fun h => ⟨by rw [xorKeys_eq, if_pos h], length_foldl_xorBytes (by simp) h⟩,
    fun keys' hp => ?_, fun k hk => ?_⟩
  · rw [xorKeys_eq]; split <;> simp_all
  · have hall : (∀ k ∈ keys', k.length = n) ↔ ∀ k ∈ keys, k.length = n :=
      forall_congr' fun k => imp_congr_left hp.mem_iff.symm
    have hx : xorAll n keys' = xorAll n keys :=
      (hp.foldl_eq' (fun _ _ _ _ z => xorBytes_right_comm z _ _) _).symm
    rw [xorKeys_eq, xorKeys_eq, hx]; exact if_congr hall rfl rfl
  · rw [xorKeys_eq, xorKeys_eq]
    simp [hk, xorAll, xorBytes_xorBytes_cancel]

/-- A key of another length given twice turns a successful call into an error. -/
theorem xorKeys_empty_key_twice :
    xorKeys [] 1 = .ok [0] ∧ xorKeys [[], []] 1 = .error (xorKeysError 1) := ⟨rfl, rfl⟩

/-- A key xored in first or last gives the same fold. -/
theorem foldl_xorBytes_shift (a b : List UInt8) (keys : List (List UInt8)) :
    keys.foldl xorBytes (xorBytes a b) = xorBytes (keys.foldl xorBytes a) b := by
  induction keys generalizing a with
  | nil => rfl
  | cons k keys ih => simp only [List.foldl_cons, xorBytes_right_comm a b k, ih]

/-- Folding the same keys in twice cancels them. -/
theorem foldl_xorBytes_twice {n : Nat} :
    ∀ {keys : List (List UInt8)} {a : List UInt8}, a.length = n → (∀ k ∈ keys, k.length = n) →
      keys.foldl xorBytes (keys.foldl xorBytes a) = a
  | [], _, _, _ => rfl
  | k :: keys, a, ha, hk => by
    have hk₀ := hk k (List.mem_cons_self _ _)
    rw [List.foldl_cons, List.foldl_cons, ← foldl_xorBytes_shift,
      xorBytes_xorBytes_cancel (by omega)]
    exact foldl_xorBytes_twice ha fun k' h => hk k' (List.mem_cons_of_mem _ h)

/-- Split-key recovery: the key `XorKeys` combines, xored with all the shares but one, gives that
share back. -/
theorem xorKeys_recover {k K : List UInt8} {keys : List (List UInt8)} {n : Nat}
    (h : xorKeys (k :: keys) n = .ok K) : xorKeys (K :: keys) n = .ok k := by
  rw [xorKeys_eq] at h
  split at h
  · rename_i hall
    cases h
    have hk := hall k (List.mem_cons_self _ _)
    have hkeys : ∀ k' ∈ keys, k'.length = n := fun k' h => hall k' (List.mem_cons_of_mem _ h)
    have hK : (keys.foldl xorBytes k).length = n := length_foldl_xorBytes hk hkeys
    rw [xorKeys_eq, if_pos (List.forall_mem_cons.mpr ⟨by simpa [xorAll, zero_xorBytes hk] using hK,
      hkeys⟩)]
    simp only [xorAll, List.foldl_cons, zero_xorBytes hk,
      zero_xorBytes (show (keys.foldl xorBytes k).length = n from hK), foldl_xorBytes_twice hk hkeys]
  · cases h

theorem xorKeys_recover_two_shares :
    xorKeys [[1], [2]] 1 = .ok [3] ∧ xorKeys [[3], [2]] 1 = .ok [1] :=
  ⟨rfl, xorKeys_recover rfl⟩

end Enigma.Crypto
