import Enigma.Ishtm.Dclp

/-! Progress and size of the DCLP calls. A call is done after `limit + 2` steps of its own,
whatever the other calls and the writes do in between and whichever operations fail, and it
returns at most `limit` documents. -/
namespace Enigma.Ishtm

variable {D : Type} (C : Claimable D)

/-- How many steps of its own a call takes at most before it is done: the `Find`, one `Apply`
per document found, and the return. -/
def Call.fuel : Call D → Nat
  | .find _ limit => limit + 2
  | .claiming pending _ => pending.length + 1
  | .done _ => 0

/-- The most documents a call can still return: those it holds and those left to claim. -/
def Call.room : Call D → Nat
  | .find _ limit => limit
  | .claiming pending locked => pending.length + locked.length
  | .done (.ok r) => r.length
  | .done (.error _) => 0

theorem Call.fuel_eq_zero {c : Call D} : c.fuel = 0 ↔ ∃ r, c = .done r := by
  cases c <;> simp [Call.fuel]

/-- Each step of a call that is not done lowers its fuel, and no step makes room for more
documents: the `Find` keeps at most `limit`, a claim only moves a document from those left to
those held. -/
theorem Call.fuel_room_step (fault : Option String) (coll : List D) (c : Call D) :
    (c.step C fault coll).1.fuel ≤ c.fuel - 1 ∧ (c.step C fault coll).1.room ≤ c.room := by
  match c, fault with
  | .find _ _, none => simp [Call.step, Call.fuel, Call.room]
  | .find _ _, some e =>
    by_cases he : e = errNotFound <;> simp [Call.step, Call.fuel, Call.room, he]
  | .claiming [] _, _ => simp [Call.step, Call.fuel, Call.room]
  | .claiming (_ :: _) _, some _ => simp [Call.step, Call.fuel, Call.room]
  | .claiming (sel :: _) _, none =>
    simp only [Call.step]
    split <;> simp [Call.fuel, Call.room]
    omega
  | .done _, _ => simp [Call.step, Call.fuel]

theorem Call.length_returned_le (c : Call D) : c.returned.length ≤ c.room := by
  rcases c with _ | _ | ⟨_ | _⟩ <;> simp [Call.returned, Call.room]

/-! ### One call among the others -/

/-- The event is a step of the `i`-th call. -/
def Event.steps (i : Nat) : Event D → Bool
  | .step j _ => j = i
  | _ => false

/-- An event that is no step of the `i`-th call leaves that call where it is. -/
theorem Store.getElem?_step_of_not_steps (s : Store D) {e : Event D} {i : Nat}
    (he : e.steps i = false) (hi : i < s.calls.length) : (s.step C e).calls[i]? = s.calls[i]? := by
  cases e with
  | call selector limit => exact List.getElem?_append_left hi
  | step j fault =>
    have hj : j ≠ i := by simpa [Event.steps] using he
    simp only [Store.step]
    split
    · exact List.getElem?_set_ne hj
    · rfl
  | write w => rfl

theorem Store.getElem?_step_self (s : Store D) {i : Nat} {c : Call D} (fault : Option String)
    (hc : s.calls[i]? = some c) :
    (s.step C (.step i fault)).calls[i]? = some (c.step C fault s.coll).1 := by
  simp only [Store.step, hc]
  rw [List.getElem?_set_self (List.getElem?_eq_some_iff.mp hc).1]

/-- Over any run, the `i`-th call loses one unit of fuel per step of its own, and no other event
touches it. -/
theorem Store.fuel_run (s : Store D) (es : List (Event D)) {i : Nat} {c : Call D}
    (hc : s.calls[i]? = some c) :
    ∃ c', (s.run C es).calls[i]? = some c' ∧ c'.fuel ≤ c.fuel - es.countP (Event.steps i) := by
  induction es generalizing s c with
  | nil => exact ⟨c, hc, by simp⟩
  | cons e es ih =>
    rw [Store.run_cons, List.countP_cons]
    cases hs : e.steps i
    · obtain ⟨c', h, hf⟩ := ih (s.step C e)
        ((s.getElem?_step_of_not_steps C hs (List.getElem?_eq_some_iff.mp hc).1).trans hc)
      exact ⟨c', h, by simpa using hf⟩
    · cases e with
      | step j fault =>
        obtain rfl : j = i := by simpa [Event.steps] using hs
        obtain ⟨c', h, hf⟩ := ih (s.step C (.step j fault)) (s.getElem?_step_self C fault hc)
        have := (c.fuel_room_step C fault s.coll).1
        exact ⟨c', h, by simp only [if_true]; omega⟩
      | _ => simp [Event.steps] at hs

/-- Whatever the other calls and the writes do, and whichever operations fail, the `i`-th call
has returned once it has taken `c.fuel` steps of its own. -/
theorem Store.done_run (s : Store D) (es : List (Event D)) {i : Nat} {c : Call D}
    (hc : s.calls[i]? = some c) (h : c.fuel ≤ es.countP (Event.steps i)) :
    ∃ r, (s.run C es).calls[i]? = some (.done r) := by
  obtain ⟨c', h', hf⟩ := s.fuel_run C es hc
  obtain ⟨r, rfl⟩ := Call.fuel_eq_zero.mp (show c'.fuel = 0 by omega)
  exact ⟨r, h'⟩

/-! ### How much a call returns -/

/-- The limit a call event asks its `Find` for; other events ask for none. -/
def Event.limit : Event D → Nat
  | .call _ limit => limit
  | _ => 0

/-- No call of the store has room for more than `L` documents. -/
def Store.Bounded (L : Nat) (s : Store D) : Prop := ∀ c ∈ s.calls, c.room ≤ L

theorem Store.bounded_step {L : Nat} {s : Store D} (h : s.Bounded L) {e : Event D}
    (he : e.limit ≤ L) : (s.step C e).Bounded L := by
  cases e with
  | call selector limit =>
    simp only [Store.Bounded, Store.step, List.mem_append, List.mem_singleton]
    rintro c (hc | rfl)
    exacts [h c hc, he]
  | step i fault =>
    simp only [Store.step]
    split
    · rename_i c hc
      intro c' hc'
      rcases List.mem_or_eq_of_mem_set hc' with hc' | rfl
      · exact h c' hc'
      · exact (c.fuel_room_step C fault s.coll).2.trans (h c (List.getElem?_mem hc))
    · exact h
  | write w => exact h

/-- If every call started in a run asks for at most `L` documents, every call returns at most
`L`. -/
theorem Store.length_returned_run {L : Nat} {s : Store D} (h : s.Bounded L) (es : List (Event D))
    (hes : ∀ e ∈ es, e.limit ≤ L) : ∀ c ∈ (s.run C es).calls, c.returned.length ≤ L := by
  induction es generalizing s with
  | nil => exact fun c hc => c.length_returned_le.trans (h c hc)
  | cons e es ih =>
    exact ih (s.bounded_step C h (hes e (List.mem_cons_self _ _)))
      fun e' he' => hes e' (List.mem_cons_of_mem _ he')

end Enigma.Ishtm
