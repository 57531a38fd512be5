import Mathlib.Algebra.Order.BigOperators.Group.List
import Mathlib.Algebra.Order.Ring.Nat
import Enigma.Ishtm.Collection

/-! The double-checked claim (DCLP) of `GetInDelivery` and `GetEmails` as a call that runs one
atomic database operation per step, and a store that interleaves any number of such calls with
the writes to its collection. The run invariant bounds what the calls hold by what was ever
claimable. -/
namespace Enigma.Ishtm

variable {D : Type} (C : Claimable D)

/-- The text of `mgo.ErrNotFound`, the one error the `Find` of a DCLP tolerates. -/
def errNotFound : String := "not found"

/-- Where a DCLP call stands between two database operations. -/
inductive Call (D : Type) where
  /-- `Find(selector).Limit(limit).All` is next. -/
  | find (selector : D → Bool) (limit : Nat)
  /-- The loop over the documents found: those still to claim, those claimed. -/
  | claiming (pending locked : List D)
  /-- The call has returned. -/
  | done (result : Except String (List D))

/-- The next step of a call, `fault` the error the driver returns for its operation. A failed
`Apply` only skips its document. -/
def Call.step (fault : Option String) (coll : List D) : Call D → Call D × List D
  | .find selector limit =>
    match fault with
    | none => (.claiming ((coll.filter selector).take limit) [], coll)
    | some e => (if e = errNotFound then .claiming [] [] else .done (.error e), coll)
  | .claiming [] locked => (.done (.ok locked), coll)
  | .claiming (sel :: pending) locked =>
    match fault with
    | some _ => (.claiming pending locked, coll)
    | none =>
      match claim C coll (C.key sel) with
      | some (confirmed, coll') => (.claiming pending (locked ++ [confirmed]), coll')
      | none => (.claiming pending locked, coll)
  | .done r => (.done r, coll)

/-- The documents a call has claimed so far, or returned once it is done. -/
def Call.locked : Call D → List D
  | .claiming _ locked => locked
  | .done (.ok r) => r
  | _ => []

/-- The documents a call has returned. -/
def Call.returned : Call D → List D
  | .done (.ok r) => r
  | _ => []

theorem Call.returned_sublist (c : Call D) : c.returned.Sublist c.locked := by
  rcases c with _ | _ | ⟨_ | _⟩ <;> simp [Call.returned, Call.locked]

/-- How many documents with the key a list holds. -/
def keyed (k : String) (l : List D) : Nat := l.countP fun d => C.key d = k

/-- What one step of a call can do: leave its documents and the collection as they are, or
claim one document, which it appends to the ones it holds. -/
theorem Call.step_cases (fault : Option String) (coll : List D) (c : Call D) :
    ((c.step C fault coll).1.locked = c.locked ∧ (c.step C fault coll).2 = coll) ∨
      ∃ k d, claim C coll k = some (d, (c.step C fault coll).2) ∧
        (c.step C fault coll).1.locked = c.locked ++ [d] := by
  match c, fault with
  | .find _ _, none => exact .inl ⟨rfl, rfl⟩
  | .find _ _, some e => by_cases he : e = errNotFound <;> simp [Call.step, Call.locked, he]
  | .claiming [] _, _ => exact .inl ⟨rfl, rfl⟩
  | .claiming (_ :: _) _, some _ => exact .inl ⟨rfl, rfl⟩
  | .claiming (sel :: _) _, none =>
    simp only [Call.step]
    split
    · exact .inr ⟨_, _, ‹_›, rfl⟩
    · exact .inl ⟨rfl, rfl⟩
  | .done _, _ => exact .inl ⟨rfl, rfl⟩

/-- A step keeps a call's documents plus the claimable ones of the collection: a claim moves one
document from the collection to the call. -/
theorem Call.keyed_step (fault : Option String) (coll : List D) (c : Call D) (k : String) :
    keyed C k (c.step C fault coll).1.locked + unclaimed C k (c.step C fault coll).2 =
      keyed C k c.locked + unclaimed C k coll := by
  obtain ⟨hl, hc⟩ | ⟨_, d, hc, hl⟩ := c.step_cases C fault coll
  · rw [hl, hc]
  · have hu := (claim_some C hc).2.2 k
    simp only [hl, keyed, List.countP_append, List.countP_singleton, decide_eq_true_eq] at hu ⊢
    omega

/-- A call only ever holds documents whose flag was unset when it claimed them. -/
theorem Call.locked_step {fault : Option String} {coll : List D} {c : Call D}
    (h : ∀ d ∈ c.locked, C.flag d = false) :
    ∀ d ∈ (c.step C fault coll).1.locked, C.flag d = false := by
  obtain ⟨hl, -⟩ | ⟨_, d, hc, hl⟩ := c.step_cases C fault coll
  · rwa [hl]
  · simp only [hl, List.mem_append, List.mem_singleton]
    rintro d' (hd | rfl)
    exacts [h d' hd, (claim_some C hc).2.1]

/-! ### A collection and the calls running on it -/

/-- A write to the collection: `Upsert`, `Remove` of the first match, `RemoveAll`. -/
inductive Write (D : Type) where
  | upsert (d : D)
  | remove (selector : D → Bool)
  | removeAll (selector : D → Bool)

def Write.apply : Write D → List D → List D
  | .upsert d, coll => Ishtm.upsert C coll d
  | .remove selector, coll => coll.eraseP selector
  | .removeAll selector, coll => coll.filter fun d => !selector d

/-- The write leaves a claimable document under the key: an upsert with the flag unset. -/
def Write.rearms (k : String) : Write D → Bool
  | .upsert d => C.key d = k ∧ C.flag d = false
  | _ => false

theorem Write.unclaimed_apply (w : Write D) (k : String) (coll : List D) :
    unclaimed C k (w.apply C coll) ≤ unclaimed C k coll + if w.rearms C k then 1 else 0 := by
  cases w with
  | upsert d => simpa [Write.rearms] using unclaimed_upsert C k coll d
  | remove p => exact (unclaimed_eraseP C k p coll).trans (Nat.le_add_right _ _)
  | removeAll p => exact (unclaimed_filter C k _ coll).trans (Nat.le_add_right _ _)

/-- A collection and the DCLP calls made on it, in the order they started. -/
structure Store (D : Type) where
  coll : List D
  calls : List (Call D)

/-- One atomic event on a store. -/
inductive Event (D : Type) where
  /-- A call starts with its `Find` selector and limit. -/
  | call (selector : D → Bool) (limit : Nat)
  /-- The `i`-th call runs its next step, whose operation fails with `fault` if given. -/
  | step (i : Nat) (fault : Option String)
  | write (w : Write D)

def Store.step (s : Store D) : Event D → Store D
  | .call selector limit => { s with calls := s.calls ++ [.find selector limit] }
  | .step i fault =>
    match s.calls[i]? with
    | some c => { coll := (c.step C fault s.coll).2, calls := s.calls.set i (c.step C fault s.coll).1 }
    | none => s
  | .write w => { s with coll := w.apply C s.coll }

def Store.run (s : Store D) (events : List (Event D)) : Store D :=
  events.foldl (Store.step C) s

@[simp] theorem Store.run_nil (s : Store D) : s.run C [] = s := rfl

@[simp] theorem Store.run_cons (s : Store D) (e : Event D) (es : List (Event D)) :
    s.run C (e :: es) = (s.step C e).run C es := rfl

def Event.rearms (k : String) : Event D → Bool
  | .write w => w.rearms C k
  | _ => false

/-- How many documents with the key the calls hold. -/
def Store.held (k : String) (s : Store D) : Nat := (s.calls.map fun c => keyed C k c.locked).sum

/-- How many documents with the key the calls have returned. -/
def Store.returned (k : String) (s : Store D) : Nat :=
  (s.calls.map fun c => keyed C k c.returned).sum

theorem sum_map_set {α : Type} (f : α → Nat) :
    ∀ (l : List α) (i : Nat) (c x : α), l[i]? = some c →
      ((l.set i x).map f).sum + f c = (l.map f).sum + f x
  | [], _, _, _, h => by simp at h
  | _ :: _, 0, _, _, h => by simp only [List.getElem?_cons_zero, Option.some.injEq] at h; subst h; simp; omega
  | _ :: l, i + 1, c, x, h => by
    have := sum_map_set f l i c x (by simpa using h)
    simp only [List.set_cons_succ, List.map_cons, List.sum_cons]
    omega

theorem Store.held_step (s : Store D) (e : Event D) (k : String) :
    (s.step C e).held C k + unclaimed C k (s.step C e).coll ≤
      s.held C k + unclaimed C k s.coll + if e.rearms C k then 1 else 0 := by
  cases e with
  | call selector limit =>
    simp only [Store.step, Store.held, List.map_append, List.sum_append]
    simp [Call.locked, keyed, Event.rearms]
  | step i fault =>
    simp only [Store.step]
    split
    · rename_i c hc
      have hs := sum_map_set (fun c => keyed C k c.locked) s.calls i c (c.step C fault s.coll).1 hc
      have := c.keyed_step C fault s.coll k
      simp only [Store.held, Event.rearms] at hs ⊢
      omega
    · simp [Event.rearms]
  | write w =>
    have := w.unclaimed_apply C k s.coll
    simp only [Store.step, Store.held, Event.rearms]
    omega

/-- Over any interleaving, what the calls hold plus what is still claimable never exceeds what
was claimable at the start plus what the writes made claimable. -/
theorem Store.held_run (s : Store D) (es : List (Event D)) (k : String) :
    (s.run C es).held C k + unclaimed C k (s.run C es).coll ≤
      s.held C k + unclaimed C k s.coll + es.countP (Event.rearms C k) := by
  induction es generalizing s with
  | nil => simp
  | cons e es ih =>
    have := ih (s.step C e)
    have := s.held_step C e k
    simp only [Store.run_cons, List.countP_cons]
    omega

theorem Store.returned_le_held (s : Store D) (k : String) : s.returned C k ≤ s.held C k :=
  List.sum_le_sum fun c _ => c.returned_sublist.countP_le _

/-- Calls started on a collection return at most as many documents with a key as were claimable
at the start or made claimable by the writes. -/
theorem Store.returned_run (coll : List D) (es : List (Event D)) (k : String) :
    (Store.run C ⟨coll, []⟩ es).returned C k ≤
      unclaimed C k coll + es.countP (Event.rearms C k) := by
  have := Store.held_run C ⟨coll, []⟩ es k
  have := (Store.run C ⟨coll, []⟩ es).returned_le_held C k
  simp only [Store.held, List.map_nil, List.sum_nil] at *
  omega

/-- Every document a call holds had its flag unset when the call claimed it. -/
def Store.Unflagged (s : Store D) : Prop := ∀ c ∈ s.calls, ∀ d ∈ c.locked, C.flag d = false

theorem Store.unflagged_step {s : Store D} (h : s.Unflagged C) (e : Event D) :
    (s.step C e).Unflagged C := by
  cases e with
  | call selector limit =>
    simp only [Store.Unflagged, Store.step, List.mem_append, List.mem_singleton]
    rintro c (hc | rfl)
    exacts [h c hc, by simp [Call.locked]]
  | step i fault =>
    simp only [Store.step]
    split
    · rename_i c hc
      intro c' hc'
      rcases List.mem_or_eq_of_mem_set hc' with hc' | rfl
      · exact h c' hc'
      · exact Call.locked_step C (h c (List.getElem?_mem hc))
    · exact h
  | write w => exact h

theorem Store.unflagged_run {s : Store D} (h : s.Unflagged C) (es : List (Event D)) :
    (s.run C es).Unflagged C := by
  induction es generalizing s with
  | nil => exact h
  | cons e es ih => exact ih (s.unflagged_step C h e)

end Enigma.Ishtm
