import Mathlib.Data.List.Nodup

/-! A MongoDB collection as the ishtm database drives it, and the double-checked claim (DCLP)
of `GetInDelivery` and `GetEmails` as a call that runs one atomic database operation per step.
A document counts as claimable while its flag is unset; a claim sets the flag. -/
namespace Enigma.Ishtm

/-- The fields the DCLP reads of a document: the key its claim selects on (`id`, `_id`), the
flag it checks and sets (`removable`, `sended`), and the `$set` that sets the flag. -/
structure Claimable (D : Type) where
  key : D → String
  flag : D → Bool
  setFlag : D → D
  key_setFlag : ∀ d, key (setFlag d) = key d
  flag_setFlag : ∀ d, flag (setFlag d) = true

variable {D : Type} (C : Claimable D)

/-! ### The collection operations, each atomic -/

/-- `Upsert({key: key d}, {$set: d})` as one atomic step: the first document with the key
becomes `d`, or `d` is inserted when there is none. MongoDB runs the query and the insert of an
upsert separately, so two upserts of one new key can both miss and the unique index then rejects
the second with a duplicate-key error; that race is not modelled. -/
def upsert : List D → D → List D
  | [], d => [d]
  | x :: xs, d => if C.key x = C.key d then d :: xs else x :: upsert xs d

/-- `Find({key: k, flag: false}).Apply({$set: {flag: true}}, ReturnNew: false)`: the first
document with the key and the flag unset gets the flag and is returned as it was before. -/
def claim : List D → String → Option (D × List D)
  | [], _ => none
  | x :: xs, k =>
    if C.key x = k ∧ C.flag x = false then some (x, C.setFlag x :: xs)
    else (claim xs k).map fun r => (r.1, x :: r.2)

/-- How many documents with the key can still be claimed. -/
def unclaimed (k : String) (coll : List D) : Nat :=
  coll.countP fun d => C.key d = k ∧ C.flag d = false

theorem unclaimed_upsert (k : String) (coll : List D) (d : D) :
    unclaimed C k (upsert C coll d) ≤
      unclaimed C k coll + if C.key d = k ∧ C.flag d = false then 1 else 0 := by
  induction coll with
  | nil => simp only [upsert, unclaimed, List.countP_singleton, decide_eq_true_eq]; split <;> simp_all
  | cons x xs ih =>
    simp only [upsert]
    split
    · simp only [unclaimed, List.countP_cons] at *
      split <;> split <;> simp_all
    · simp only [unclaimed, List.countP_cons] at *
      omega

theorem unclaimed_filter (k : String) (p : D → Bool) (coll : List D) :
    unclaimed C k (coll.filter p) ≤ unclaimed C k coll := by
  simp only [unclaimed, List.countP_filter]
  exact List.countP_mono_left fun _ _ h => by simp_all

theorem unclaimed_eraseP (k : String) (p : D → Bool) (coll : List D) :
    unclaimed C k (coll.eraseP p) ≤ unclaimed C k coll :=
  (List.eraseP_sublist coll).countP_le _

/-- A claim flags one document in place, one with the key and the flag unset, and returns it
as it was. -/
theorem claim_spec {coll coll' : List D} {k : String} {d : D} (h : claim C coll k = some (d, coll')) :
    C.key d = k ∧ C.flag d = false ∧
      ∃ pre post, coll = pre ++ d :: post ∧ coll' = pre ++ C.setFlag d :: post := by
  induction coll generalizing coll' with
  | nil => cases h
  | cons x xs ih =>
    simp only [claim] at h
    split at h
    · rename_i hx
      cases h
      exact ⟨hx.1, hx.2, [], xs, rfl, rfl⟩
    · obtain ⟨r, hc, he⟩ := Option.map_eq_some'.mp h
      obtain ⟨rfl, rfl⟩ := Prod.mk.inj he
      obtain ⟨hk, hf, pre, post, hxs, hr⟩ := ih hc
      exact ⟨hk, hf, x :: pre, post, by rw [hxs]; rfl, by rw [hr]; rfl⟩

/-- A claim takes one claimable document of its key out of the collection. -/
theorem claim_some {coll coll' : List D} {k : String} {d : D} (h : claim C coll k = some (d, coll')) :
    C.key d = k ∧ C.flag d = false ∧ ∀ k', unclaimed C k' coll' +
      (if C.key d = k' then 1 else 0) = unclaimed C k' coll := by
  obtain ⟨hk, hf, pre, post, rfl, rfl⟩ := claim_spec C h
  refine ⟨hk, hf, fun k' => ?_⟩
  simp only [unclaimed, List.countP_append, List.countP_cons, C.key_setFlag, C.flag_setFlag, hf]
  split <;> simp_all [Nat.add_assoc]

/-! ### Reading a document by its key -/

/-- `Find({key: k}).One`: the first document with the key. -/
def byKey (coll : List D) (k : String) : Option D := coll.find? fun x => C.key x == k

/-- An upsert is read back under its key and changes no other key's first document. -/
theorem byKey_upsert (coll : List D) (d : D) (k : String) :
    byKey C (upsert C coll d) k = if C.key d = k then some d else byKey C coll k := by
  induction coll with
  | nil => by_cases hk : C.key d = k <;> simp [byKey, upsert, List.find?_cons, hk]
  | cons x xs ih =>
    simp only [byKey, upsert] at ih ⊢
    split
    · by_cases hk : C.key d = k <;> simp_all [List.find?_cons]
    · rename_i hxd
      by_cases hx : C.key x = k
      · have hd : C.key d ≠ k := fun h => hxd (hx.trans h.symm)
        simp [List.find?_cons, hx, hd]
      · simp [List.find?_cons, hx, ih]

/-- `Remove` of the first document with one key leaves the first document of any other key. -/
theorem byKey_eraseP_ne (coll : List D) {k k' : String} (hk : k' ≠ k) :
    byKey C (coll.eraseP fun x => C.key x == k) k' = byKey C coll k' := by
  induction coll with
  | nil => rfl
  | cons x xs ih =>
    simp only [byKey] at ih ⊢
    by_cases hx : C.key x = k
    · simp [List.eraseP_cons, List.find?_cons, hx, Ne.symm hk]
    · by_cases hx' : C.key x = k' <;> simp [List.eraseP_cons, List.find?_cons, hx, hx', ih, hk]

/-! ### The unique index -/

/-- The unique index on the key: `EnsureMongodbIndexes` puts one on the `id` of the jobs, and
the `_id` of the emails is unique by itself. -/
def Unique (coll : List D) : Prop := (coll.map C.key).Nodup

/-- Under the index no document follows the first one of its key. -/
theorem byKey_eq_none_of_unique {x : D} {xs : List D} (h : Unique C (x :: xs)) :
    byKey C xs (C.key x) = none := by
  simp only [Unique, List.map_cons, List.nodup_cons, List.mem_map] at h
  simp only [byKey, List.find?_eq_none, beq_iff_eq]
  exact fun y hy hyx => h.1 ⟨y, hy, hyx⟩

/-- Under the index, `Remove` of the document with a key leaves none with that key. -/
theorem byKey_eraseP_of_unique {coll : List D} (h : Unique C coll) (k : String) :
    byKey C (coll.eraseP fun x => C.key x == k) k = none := by
  induction coll with
  | nil => rfl
  | cons x xs ih =>
    by_cases hx : C.key x = k
    · subst hx
      simpa [List.eraseP_cons] using byKey_eq_none_of_unique C h
    · simp only [Unique, List.map_cons, List.nodup_cons] at h
      simpa [byKey, List.eraseP_cons, List.find?_cons, hx] using ih h.2

/-- Under the index, `RemoveAll` keeps the document of a key exactly when it is kept. -/
theorem byKey_filter_of_unique {coll : List D} (h : Unique C coll) (p : D → Bool) (k : String) :
    byKey C (coll.filter p) k = (byKey C coll k).filter p := by
  induction coll with
  | nil => rfl
  | cons x xs ih =>
    have hn := byKey_eq_none_of_unique C h
    simp only [Unique, List.map_cons, List.nodup_cons] at h
    simp only [byKey] at ih hn ⊢
    by_cases hx : C.key x = k
    · subst hx
      by_cases hp : p x
      · simp [List.filter_cons, List.find?_cons, hp, Option.filter]
      · simp [List.filter_cons, List.find?_cons, hp, Option.filter, ih h.2, hn]
    · by_cases hp : p x <;> simp [List.filter_cons, List.find?_cons, hp, hx, ih h.2]

/-- Under the index, a claim reads back as the document it returned with the flag set, and
leaves every other key as it was. -/
theorem byKey_claim {coll coll' : List D} (h : Unique C coll) {k : String} {d : D}
    (hc : claim C coll k = some (d, coll')) :
    byKey C coll k = some d ∧
      ∀ k', byKey C coll' k' = if k' = k then some (C.setFlag d) else byKey C coll k' := by
  obtain ⟨hk, -, pre, post, rfl, rfl⟩ := claim_spec C hc
  have hpre : pre.find? (fun x => C.key x == k) = none := by
    have := (List.nodup_append.mp (show (pre.map C.key ++ (d :: post).map C.key).Nodup by
      rw [← List.map_append]; exact h)).2.2
    simp only [List.find?_eq_none, beq_iff_eq]
    intro y hy hyk
    exact this (List.mem_map_of_mem _ hy) (by simp [hyk, hk])
  refine ⟨by simp [byKey, hpre, hk], fun k' => ?_⟩
  by_cases h' : k' = k
  · subst h'
    simp [byKey, hpre, C.key_setFlag, hk]
  · have hk' : C.key d ≠ k' := fun e => h' (e.symm.trans hk)
    simp [byKey, h', C.key_setFlag, hk']

end Enigma.Ishtm
