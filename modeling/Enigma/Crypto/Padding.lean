import Enigma.Crypto.Bytes

/-! PKCS#5 padding as `crypto.go` writes it. Unpadding trusts the final byte: it only checks
that the byte does not exceed the blob's length. -/
namespace Enigma.Crypto

/-- `PKCS5Padding(src, blockSize)`. Its one caller passes `aes.BlockSize`; Go panics on a zero
block size, which no caller passes. -/
def pkcs5Padding (src : List UInt8) (blockSize : Nat) : List UInt8 :=
  let padding := blockSize - src.length % blockSize
  src ++ List.replicate padding (UInt8.ofNat padding)

/-- `PKCS5UnPadding(src)`. -/
def pkcs5UnPadding (src : List UInt8) : Except Fault (List UInt8) := do
  let length := src.length
  if length ≤ 0 then
    throw (.err s!"invalid byte blob lenght: expecting > 0 having {length}")
  let unpadding := (← index src (length - 1)).toNat
  let delta : Int := length - unpadding
  if delta < 0 then
    throw (.err s!"invalid padding delta lenght: expecting >= 0 having {delta}")
  slice src 0 delta.toNat

theorem length_pkcs5Padding (src : List UInt8) (b : Nat) :
    (pkcs5Padding src b).length = src.length + (b - src.length % b) := by
  simp [pkcs5Padding]

/-- With a positive block size the padded length is the next multiple of the block size. -/
theorem length_pkcs5Padding_of_pos (src : List UInt8) {b : Nat} (hb : 0 < b) :
    (pkcs5Padding src b).length = b * (src.length / b + 1) := by
  have := Nat.div_add_mod src.length b
  have := Nat.mod_lt src.length hb
  rw [length_pkcs5Padding, Nat.mul_succ]
  omega

theorem getLastD_pkcs5Padding (src : List UInt8) {b : Nat} (hb : 0 < b) :
    (pkcs5Padding src b).getLastD 0 = UInt8.ofNat (b - src.length % b) := by
  have : 0 < b - src.length % b := by have := Nat.mod_lt src.length hb; omega
  obtain ⟨k, hk⟩ : ∃ k, b - src.length % b = k + 1 := ⟨_, (Nat.succ_pred_eq_of_pos this).symm⟩
  simp [pkcs5Padding, hk, List.replicate_succ', List.getLastD_eq_getLast?]

private theorem index_concat (s : List UInt8) (x : UInt8) : index (s ++ [x]) s.length = .ok x := by
  rw [index_of_lt (by simp)]; simp

theorem pkcs5UnPadding_ok_iff {src out : List UInt8} :
    pkcs5UnPadding src = .ok out ↔
      src ≠ [] ∧ (src.getLastD 0).toNat ≤ src.length ∧
        out = src.take (src.length - (src.getLastD 0).toNat) := by
  rcases List.eq_nil_or_concat src with rfl | ⟨s, x, rfl⟩
  · simp [pkcs5UnPadding]
  have h0 : ¬ s.length + 1 ≤ 0 := by omega
  simp only [List.concat_eq_append, pkcs5UnPadding, List.length_append, List.length_singleton,
    Nat.add_sub_cancel, index_concat, h0, if_false, except_pure, except_ok_bind]
  by_cases hx : x.toNat ≤ s.length + 1
  · have hd : ¬ ((s.length + 1 : Nat) - x.toNat : Int) < 0 := by omega
    have hs : slice (s ++ [x]) 0 ((s.length + 1 : Nat) - x.toNat : Int).toNat =
        .ok ((s ++ [x]).take (s.length + 1 - x.toNat)) := by
      rw [slice_of_le (Nat.zero_le _) (by simp), List.drop_zero]; congr 2; omega
    simp only [hd, hs, if_false, Except.ok.injEq, List.getLastD_concat, List.length_append,
      List.length_singleton, ne_eq, List.append_eq_nil, List.cons_ne_nil, and_false,
      not_false_eq_true, hx, true_and]
    exact eq_comm
  · have hd : ((s.length + 1 : Nat) - x.toNat : Int) < 0 := by omega
    simp only [hd, if_true, except_throw, except_error_bind, reduceCtorEq, false_iff,
      List.getLastD_concat, List.length_append, List.length_singleton, hx, false_and, and_false,
      not_false_eq_true]

/-- Unpadding never panics: it returns a prefix of its input or an error. -/
theorem pkcs5UnPadding_ne_panic (src : List UInt8) (msg : String) :
    pkcs5UnPadding src ≠ .error (.panic msg) := by
  rcases List.eq_nil_or_concat src with rfl | ⟨s, x, rfl⟩
  · simp [pkcs5UnPadding]
  have h0 : ¬ s.length + 1 ≤ 0 := by omega
  simp only [List.concat_eq_append, pkcs5UnPadding, List.length_append, List.length_singleton,
    Nat.add_sub_cancel, index_concat, h0, if_false, except_pure, except_ok_bind]
  split
  · simp only [except_throw, except_error_bind, ne_eq, Except.error.injEq, reduceCtorEq,
      not_false_eq_true]
  · rw [slice_of_le (Nat.zero_le _) (by simp)]; simp

theorem pkcs5UnPadding_pkcs5Padding (src : List UInt8) {b : Nat} (hb : 0 < b) (hb' : b < 256) :
    pkcs5UnPadding (pkcs5Padding src b) = .ok src := by
  have hm := Nat.mod_lt src.length hb
  have hp : b - src.length % b < UInt8.size := show _ < 256 by omega
  rw [pkcs5UnPadding_ok_iff, getLastD_pkcs5Padding src hb, UInt8.toNat_ofNat_of_lt hp,
    length_pkcs5Padding, Nat.add_sub_cancel]
  refine ⟨fun h => ?_, by omega, by simp [pkcs5Padding]⟩
  have := congrArg List.length h
  rw [length_pkcs5Padding] at this
  simp at this
  omega

/-- For a block size of 1 to 255 the padding is the next multiple of the block size, the appended
bytes all hold their own count, and unpadding undoes it. -/
theorem pkcs5Padding_spec (src : List UInt8) {b : Nat} (hb : 1 ≤ b) (hb' : b ≤ 255) :
    (pkcs5Padding src b).length = b * (src.length / b + 1) ∧
      0 < (pkcs5Padding src b).length ∧ b ∣ (pkcs5Padding src b).length ∧
      src.length < (pkcs5Padding src b).length ∧
      (∃ pad, pkcs5Padding src b = src ++ pad ∧
        ∀ x ∈ pad, x.toNat = (pkcs5Padding src b).length - src.length) ∧
      pkcs5UnPadding (pkcs5Padding src b) = .ok src := by
  have hl := length_pkcs5Padding_of_pos src hb
  have hd := Nat.div_add_mod src.length b
  have hm := Nat.mod_lt src.length hb
  refine ⟨hl, hl ▸ Nat.mul_pos hb (Nat.succ_pos _), ⟨_, hl⟩, by rw [hl, Nat.mul_succ]; omega,
    ⟨_, rfl, fun x hx => ?_⟩, pkcs5UnPadding_pkcs5Padding src hb (by omega)⟩
  rw [List.eq_of_mem_replicate hx, length_pkcs5Padding, Nat.add_sub_cancel_left,
    UInt8.toNat_ofNat_of_lt (show _ < 256 by omega)]

theorem pkcs5Padding_spec_three_bytes :
    1 ≤ 16 ∧ 16 ≤ 255 ∧
      ((pkcs5Padding [1, 2, 3] 16).length = 16 * ([1, 2, 3].length / 16 + 1) ∧
        0 < (pkcs5Padding [1, 2, 3] 16).length ∧ 16 ∣ (pkcs5Padding [1, 2, 3] 16).length ∧
        [1, 2, 3].length < (pkcs5Padding [1, 2, 3] 16).length ∧
        (∃ pad, pkcs5Padding [1, 2, 3] 16 = [1, 2, 3] ++ pad ∧
          ∀ x ∈ pad, x.toNat = (pkcs5Padding [1, 2, 3] 16).length - [1, 2, 3].length) ∧
        pkcs5UnPadding (pkcs5Padding [1, 2, 3] 16) = .ok [1, 2, 3]) :=
  ⟨by decide, by decide, pkcs5Padding_spec [1, 2, 3] (by decide) (by decide)⟩

end Enigma.Crypto
