import Mathlib.Data.List.Basic

/-! Go byte slices as the crypto package uses them: bounds-checked slicing, returned errors
and runtime panics, and the bytewise xor of `crypto/cipher`. -/
namespace Enigma.Crypto

/-- How a Go call ends when it does not produce its results: with an `error` it returns, or in
a runtime panic. -/
inductive Fault where
  | err (msg : String)
  | panic (msg : String)
  deriving DecidableEq, Repr

/-- `s[lo:hi]`. Every slice sliced in the package was made by `make` or by an earlier `s[lo:]`,
so its capacity is its length. -/
def slice (s : List UInt8) (lo hi : Nat) : Except Fault (List UInt8) :=
  if lo ≤ hi ∧ hi ≤ s.length then .ok ((s.take hi).drop lo)
  else .error (.panic "runtime error: slice bounds out of range")

/-- `s[i]`. -/
def index (s : List UInt8) (i : Nat) : Except Fault UInt8 :=
  if h : i < s.length then .ok s[i] else .error (.panic "runtime error: index out of range")

/-- `xorBytes(dst, a, b)` of `crypto/cipher`: the bytewise xor over the shorter length. -/
def xorBytes (a b : List UInt8) : List UInt8 := List.zipWith (· ^^^ ·) a b

/-! ### Running `Except` code -/

section
variable {ε α β : Type}

@[simp] theorem except_throw (e : ε) : (throw e : Except ε α) = .error e := rfl

@[simp] theorem except_ok_bind (a : α) (f : α → Except ε β) : (Except.ok a >>= f) = f a := rfl

@[simp] theorem except_error_bind (e : ε) (f : α → Except ε β) :
    (Except.error e >>= f) = .error e := rfl

@[simp] theorem except_pure (a : α) : (pure a : Except ε α) = .ok a := rfl

@[simp] theorem except_mapError_ok {ε' : Type} (f : ε → ε') (a : α) :
    Except.mapError f (.ok a : Except ε α) = .ok a := rfl

/-- A bind that succeeds ran both of its parts successfully. -/
theorem except_bind_eq_ok {x : Except ε α} {f : α → Except ε β} {b : β} (h : x >>= f = .ok b) :
    ∃ a, x = .ok a ∧ f a = .ok b := by
  cases x with
  | error e => cases h
  | ok a => exact ⟨a, rfl, h⟩

/-- A bind fails in its first part, or in its second after the first succeeded. -/
theorem except_bind_eq_error {x : Except ε α} {f : α → Except ε β} {e : ε}
    (h : x >>= f = .error e) : x = .error e ∨ ∃ a, x = .ok a ∧ f a = .error e := by
  cases x with
  | error e' => exact .inl (by cases h; rfl)
  | ok a => exact .inr ⟨a, rfl, h⟩

/-- A loop that returns on its first error: every result comes from some element. -/
theorem mapM_ok_mem {f : α → Except ε β} :
    ∀ {l : List α} {l' : List β}, l.mapM f = .ok l' → ∀ b ∈ l', ∃ a ∈ l, f a = .ok b
  | [], _, h => by cases h; simp
  | a :: l, l', h => by
    rw [List.mapM_cons] at h
    obtain ⟨b, ha, h⟩ := except_bind_eq_ok h
    obtain ⟨bs, hl, h⟩ := except_bind_eq_ok h
    cases h
    intro x hx
    rcases List.mem_cons.mp hx with rfl | hx
    · exact ⟨a, List.mem_cons_self _ _, ha⟩
    · obtain ⟨a', ha', hfa⟩ := mapM_ok_mem hl x hx
      exact ⟨a', List.mem_cons_of_mem _ ha', hfa⟩

/-- A loop whose body returns every element unchanged returns the list. -/
theorem mapM_eq_ok_self {f : α → Except ε α} :
    ∀ {l : List α}, (∀ a ∈ l, f a = .ok a) → l.mapM f = .ok l
  | [], _ => rfl
  | a :: l, h => by
    rw [List.mapM_cons, h a (List.mem_cons_self _ _), except_ok_bind,
      mapM_eq_ok_self fun b hb => h b (List.mem_cons_of_mem _ hb)]
    rfl

/-- A loop whose body succeeds on every element succeeds. -/
theorem exists_mapM_eq_ok {f : α → Except ε β} :
    ∀ {l : List α}, (∀ a ∈ l, ∃ b, f a = .ok b) → ∃ l', l.mapM f = .ok l'
  | [], _ => ⟨[], rfl⟩
  | a :: l, h => by
    obtain ⟨b, hb⟩ := h a (List.mem_cons_self _ _)
    obtain ⟨l', hl⟩ := exists_mapM_eq_ok fun x hx => h x (List.mem_cons_of_mem _ hx)
    exact ⟨b :: l', by rw [List.mapM_cons, hb, except_ok_bind, hl]; rfl⟩

/-- A loop that returns on its first error fails when one element fails. -/
theorem mapM_error_of_mem {f : α → Except ε β} {a : α} {e : ε} (hf : f a = .error e) :
    ∀ {l : List α}, a ∈ l → ∃ e', l.mapM f = .error e'
  | b :: l, hm => by
    rw [List.mapM_cons]
    cases hb : f b with
    | error e' => exact ⟨e', rfl⟩
    | ok c =>
      rcases List.mem_cons.mp hm with rfl | hm
      · rw [hf] at hb; cases hb
      · obtain ⟨e', he⟩ := mapM_error_of_mem hf hm
        exact ⟨e', by rw [except_ok_bind, he]; rfl⟩

end

theorem slice_of_le {s : List UInt8} {lo hi : Nat} (h : lo ≤ hi) (hs : hi ≤ s.length) :
    slice s lo hi = .ok ((s.take hi).drop lo) := if_pos ⟨h, hs⟩

theorem slice_of_lt {s : List UInt8} {lo hi : Nat} (h : s.length < hi) :
    slice s lo hi = .error (.panic "runtime error: slice bounds out of range") :=
  if_neg (by omega)

theorem slice_of_lt_lo {s : List UInt8} {lo hi : Nat} (h : hi < lo) :
    slice s lo hi = .error (.panic "runtime error: slice bounds out of range") :=
  if_neg (by omega)

theorem index_of_lt {s : List UInt8} {i : Nat} (h : i < s.length) : index s i = .ok s[i] :=
  dif_pos h

/-! ### Bytes under xor -/

theorem byte_xor_assoc (a b c : UInt8) : a ^^^ b ^^^ c = a ^^^ (b ^^^ c) :=
  UInt8.eq_of_toBitVec_eq (BitVec.xor_assoc _ _ _)

theorem byte_xor_comm (a b : UInt8) : a ^^^ b = b ^^^ a :=
  UInt8.eq_of_toBitVec_eq (BitVec.xor_comm _ _)

@[simp] theorem byte_xor_self (a : UInt8) : a ^^^ a = 0 :=
  UInt8.eq_of_toBitVec_eq BitVec.xor_self

@[simp] theorem byte_zero_xor (a : UInt8) : 0 ^^^ a = a :=
  UInt8.eq_of_toBitVec_eq BitVec.zero_xor

@[simp] theorem byte_xor_xor_cancel (a b : UInt8) : a ^^^ b ^^^ b = a := by
  rw [byte_xor_assoc, byte_xor_self]
  exact UInt8.eq_of_toBitVec_eq BitVec.xor_zero

@[simp] theorem byte_ofNat_toNat (a : UInt8) : UInt8.ofNat a.toNat = a :=
  UInt8.toNat.inj (UInt8.toNat_ofNat_of_lt a.toNat_lt_size)

@[simp] theorem length_xorBytes (a b : List UInt8) :
    (xorBytes a b).length = min a.length b.length := List.length_zipWith _ _ _

theorem xorBytes_xorBytes_cancel :
    ∀ {a b : List UInt8}, a.length ≤ b.length → xorBytes (xorBytes a b) b = a
  | [], _, _ => rfl
  | _ :: _, [], h => by simp at h
  | x :: a, y :: b, h => by
    simp only [xorBytes, List.zipWith_cons_cons, byte_xor_xor_cancel, List.cons.injEq, true_and]
    exact xorBytes_xorBytes_cancel (by simpa using h)

end Enigma.Crypto
