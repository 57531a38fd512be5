import Enigma.Ishtm.Progress

/-! The ishtm database (`lib/ishtm/db/database.go`): the methods on the jobs and emails
collections as atomic events, and the system that interleaves them with any number of
`GetInDelivery` and `GetEmails` calls. A `time.Time` is the integer number of milliseconds since
the epoch that bson stores and compares: the driver truncates every `time.Time` it encodes to
whole milliseconds, in the documents and in the query values alike. -/
namespace Enigma.Ishtm

/-- Modelled from the spec: `will.Will` is declared outside src/; this keeps the fields that
the queries of `database.go` read and write (`id`, `ttd`, `removable`). -/
structure Will where
  id : String
  ttd : Int
  removable : Bool
  deriving DecidableEq, Repr

/-- Modelled from the spec: `ct.Email` is declared outside src/; this keeps the fields that
the queries of `database.go` read and write (`_id`, `sended`, `deliverydate`). -/
structure Email where
  objectID : String
  sended : Bool
  deliveryDate : Int
  deriving DecidableEq, Repr

def maxWillQuerySize : Nat := 1000

def maxEmailQuerySize : Nat := 1000

/-- `2 * 24 * time.Hour`, in milliseconds. -/
def mailRemovingSafety : Int := 2 * 24 * 3600 * 1000

/-- The second check of `GetInDelivery`: `{id: sel.ID, removable: false}`, then
`$set: {removable: true}`. -/
def willClaim : Claimable Will where
  key := Will.id
  flag := Will.removable
  setFlag w := { w with removable := true }
  key_setFlag _ := rfl
  flag_setFlag _ := rfl

@[simp] theorem willClaim_key (w : Will) : willClaim.key w = w.id := rfl

/-- The second check of `GetEmails`: `{_id: sel.ObjectID, sended: false}`, then
`$set: {sended: true}`. -/
def emailClaim : Claimable Email where
  key := Email.objectID
  flag := Email.sended
  setFlag e := { e with sended := true }
  key_setFlag _ := rfl
  flag_setFlag _ := rfl

/-! ### The methods of `Mongodb` -/

/-- `SetWill(will)`: `Upsert({id: will.ID}, {$set: will})`, one atomic step (see `upsert`). -/
def setWill (will : Will) : Event Will := .write (.upsert will)

def removeWill (id : String) : Event Will := .write (.remove fun w => w.id == id)

/-- `GetWill(id)`: `Find({id: id}).One`, the first will with the id or `mgo.ErrNotFound`. -/
def getWill (jobs : List Will) (id : String) : Except String Will :=
  match jobs.find? (fun w => w.id == id) with
  | some w => .ok w
  | none => .error errNotFound

/-- A call starts with `Find({ttd: {$lt: actual}, removable: false}).Limit(maxWillQuerySize)`,
`actual` in milliseconds as bson sends it. -/
def getInDelivery (actual : Int) : Event Will :=
  .call (fun w => decide (w.ttd < actual) && !w.removable) maxWillQuerySize

def removeExausted : Event Will := .write (.removeAll fun w => w.removable)

def setEmail (email : Email) : Event Email := .write (.upsert email)

/-- A call starts with `Find({sended: false}).Limit(maxEmailQuerySize)`. -/
def getEmails : Event Email := .call (fun e => !e.sended) maxEmailQuerySize

/-- `RemoveAll({sended: {$eq: true}, deliverydate: {$lt: actual - mailRemovingSafety}})`; the
safety being whole milliseconds, truncating `actual` first gives the same bound. -/
def removeSendedEmails (actual : Int) : Event Email :=
  .write (.removeAll fun e => e.sended && decide (e.deliveryDate < actual - mailRemovingSafety))

/-! ### The system -/

/-- The two collections, each with the DCLP calls in flight on it. -/
structure Mongodb where
  jobs : Store Will
  emails : Store Email

/-- One atomic event, on the jobs or on the emails collection. -/
inductive Action where
  | jobs (e : Event Will)
  | emails (e : Event Email)

def Mongodb.step (db : Mongodb) : Action → Mongodb
  | .jobs e => { db with jobs := db.jobs.step willClaim e }
  | .emails e => { db with emails := db.emails.step emailClaim e }

def Mongodb.run (db : Mongodb) (trace : List Action) : Mongodb := trace.foldl Mongodb.step db

def Action.jobs? : Action → Option (Event Will)
  | .jobs e => some e
  | .emails _ => none

def Action.emails? : Action → Option (Event Email)
  | .jobs _ => none
  | .emails e => some e

/-- The two collections are independent: each evolves by the events of its own. -/
theorem Mongodb.run_stores (db : Mongodb) (trace : List Action) :
    (db.run trace).jobs = db.jobs.run willClaim (trace.filterMap Action.jobs?) ∧
      (db.run trace).emails = db.emails.run emailClaim (trace.filterMap Action.emails?) := by
  induction trace generalizing db with
  | nil => exact ⟨rfl, rfl⟩
  | cons a trace ih =>
    cases a <;> exact ih _

/-- The system with the given collections and no call in flight. -/
def Mongodb.init (jobs : List Will) (emails : List Email) : Mongodb := ⟨⟨jobs, []⟩, ⟨emails, []⟩⟩

/-- Over any interleaving, the `GetInDelivery` calls together return the will `id` at most once
for each time it was claimable: at the start, or after an upsert with `removable = false`; and
likewise the `GetEmails` calls for the email `id` and `sended = false`. -/
theorem claims_le_rearms (jobs : List Will) (emails : List Email) (trace : List Action)
    (id : String) :
    ((Mongodb.init jobs emails).run trace).jobs.returned willClaim id ≤
        unclaimed willClaim id jobs + (trace.filterMap Action.jobs?).countP (Event.rearms willClaim id) ∧
      ((Mongodb.init jobs emails).run trace).emails.returned emailClaim id ≤
        unclaimed emailClaim id emails +
          (trace.filterMap Action.emails?).countP (Event.rearms emailClaim id) := by
  obtain ⟨hj, he⟩ := Mongodb.run_stores (Mongodb.init jobs emails) trace
  rw [hj, he]
  exact ⟨Store.returned_run willClaim jobs _ id, Store.returned_run emailClaim emails _ id⟩

/-- What the second check does establish: every will `GetInDelivery` returns had
`removable = false` when it was claimed. -/
theorem getInDelivery_returns_unremovable (jobs : List Will) (emails : List Email)
    (trace : List Action) :
    ∀ c ∈ ((Mongodb.init jobs emails).run trace).jobs.calls, ∀ w ∈ c.returned,
      w.removable = false := by
  intro c hc w hw
  rw [(Mongodb.run_stores _ trace).1] at hc
  exact Store.unflagged_run willClaim (fun _ h => (List.not_mem_nil _ h).elim) _ c hc w
    (c.returned_sublist.subset hw)

theorem getInDelivery_returns_unremovable_due :
    Call.done (.ok [⟨"a", 5, false⟩]) ∈ ((Mongodb.init [⟨"a", 5, false⟩] []).run
        [.jobs (getInDelivery 10), .jobs (.step 0 none), .jobs (.step 0 none),
          .jobs (.step 0 none)]).jobs.calls ∧
      (⟨"a", 5, false⟩ : Will) ∈ (Call.done (.ok [⟨"a", 5, false⟩]) : Call Will).returned ∧
      (⟨"a", 5, false⟩ : Will).removable = false :=
  have hc : Call.done (.ok [⟨"a", 5, false⟩]) ∈ ((Mongodb.init [⟨"a", 5, false⟩] []).run
      [.jobs (getInDelivery 10), .jobs (.step 0 none), .jobs (.step 0 none),
        .jobs (.step 0 none)]).jobs.calls :=
    show _ ∈ [(Call.done (.ok [⟨"a", 5, false⟩]) : Call Will)] from List.mem_singleton_self _
  have hw : (⟨"a", 5, false⟩ : Will) ∈ (Call.done (.ok [⟨"a", 5, false⟩]) : Call Will).returned :=
    List.mem_singleton_self _
  ⟨hc, hw, getInDelivery_returns_unremovable _ [] _ _ hc _ hw⟩

/-- An owner's check-in between the `Find` of `GetInDelivery` at 10 ms and its claim moves the
will's `ttd` from 5 ms to 20 ms, and the call still returns it: the claim re-checks `removable`,
not `ttd`. -/
theorem getInDelivery_returns_checked_in :
    (((Mongodb.init [⟨"w", 5, false⟩] []).run
      [.jobs (getInDelivery 10), .jobs (.step 0 none), .jobs (setWill ⟨"w", 20, false⟩),
        .jobs (.step 0 none), .jobs (.step 0 none)]).jobs.calls.map Call.returned) =
      [[⟨"w", 20, false⟩]] := by
  rfl

/-! ### The jobs collection as a map keyed by id -/

/-- The wills by id, as `GetWill` reads them. -/
def wills (jobs : List Will) (id : String) : Option Will := (getWill jobs id).toOption

theorem wills_eq_byKey (jobs : List Will) : wills jobs = byKey willClaim jobs := by
  funext id
  cases h : jobs.find? (fun w => w.id == id) <;>
    simp [wills, getWill, byKey, h, Except.toOption]

/-- Read through `GetWill`, the jobs collection under its unique index is a map from id to will,
and every event of the methods is a map operation on it: `SetWill` sets the id, `RemoveWill` erases
it, `RemoveExausted` erases the removable wills, starting a `GetInDelivery` changes nothing, and a
step of a call changes nothing or marks one will that was not removable as removable. -/
theorem getWill_refines_map (s : Store Will) (hu : Unique willClaim s.coll) :
    (∀ w, wills (s.step willClaim (setWill w)).coll =
      Function.update (wills s.coll) w.id (some w)) ∧
    (∀ id, wills (s.step willClaim (removeWill id)).coll =
      Function.update (wills s.coll) id none) ∧
    wills (s.step willClaim removeExausted).coll =
      (fun id => (wills s.coll id).filter fun w => !w.removable) ∧
    (∀ actual, wills (s.step willClaim (getInDelivery actual)).coll = wills s.coll) ∧
    ∀ i fault, wills (s.step willClaim (.step i fault)).coll = wills s.coll ∨
      ∃ id w, wills s.coll id = some w ∧ w.removable = false ∧
        wills (s.step willClaim (.step i fault)).coll =
          Function.update (wills s.coll) id (some { w with removable := true }) := by
  simp only [wills_eq_byKey]
  refine ⟨fun w => funext fun id => ?_, fun id => funext fun id' => ?_,
    funext fun id => byKey_filter_of_unique willClaim hu _ id, fun _ => rfl, fun i fault => ?_⟩
  · have := byKey_upsert willClaim s.coll w id
    by_cases h : id = w.id
    · subst h; simpa using this
    · simpa [Function.update_noteq h, Ne.symm h] using this
  · by_cases h : id' = id
    · subst h; simpa using byKey_eraseP_of_unique willClaim hu id'
    · simpa [Function.update_noteq h] using byKey_eraseP_ne willClaim s.coll h
  · simp only [Store.step]
    split
    · rename_i c _
      obtain ⟨-, hc⟩ | ⟨k, d, hc, -⟩ := c.step_cases willClaim fault s.coll
      · exact .inl (by rw [hc])
      · obtain ⟨hd, hk⟩ := byKey_claim willClaim hu hc
        refine .inr ⟨k, d, hd, (claim_spec willClaim hc).2.1, funext fun k' => ?_⟩
        rw [hk k']
        by_cases h : k' = k
        · subst h; simp; rfl
        · simp [h]
    · exact .inl rfl

/-- Two wills, and a `GetInDelivery` call whose `Find` has returned the first. -/
def twoWillsOneFound : Store Will :=
  ⟨[⟨"a", 5, false⟩, ⟨"b", 7, false⟩], [.claiming [⟨"a", 5, false⟩] []]⟩

theorem getWill_refines_map_two_wills :
    Unique willClaim twoWillsOneFound.coll ∧
      ((∀ w, wills (twoWillsOneFound.step willClaim (setWill w)).coll =
        Function.update (wills twoWillsOneFound.coll) w.id (some w)) ∧
      (∀ id, wills (twoWillsOneFound.step willClaim (removeWill id)).coll =
        Function.update (wills twoWillsOneFound.coll) id none) ∧
      wills (twoWillsOneFound.step willClaim removeExausted).coll =
        (fun id => (wills twoWillsOneFound.coll id).filter fun w => !w.removable) ∧
      (∀ actual, wills (twoWillsOneFound.step willClaim (getInDelivery actual)).coll =
        wills twoWillsOneFound.coll) ∧
      ∀ i fault, wills (twoWillsOneFound.step willClaim (.step i fault)).coll =
          wills twoWillsOneFound.coll ∨
        ∃ id w, wills twoWillsOneFound.coll id = some w ∧ w.removable = false ∧
          wills (twoWillsOneFound.step willClaim (.step i fault)).coll =
            Function.update (wills twoWillsOneFound.coll) id (some { w with removable := true })) :=
  have hu : Unique willClaim twoWillsOneFound.coll := by simp [Unique, twoWillsOneFound]
  ⟨hu, getWill_refines_map _ hu⟩

/-! ### Whole runs of the system -/

/-- Over any interleaving, a call started with a limit returns at most that many documents: no
`GetInDelivery` returns more than `maxWillQuerySize` wills and no `GetEmails` more than
`maxEmailQuerySize` emails, whatever the writes and the faults. -/
theorem getInDelivery_getEmails_limit (jobs : List Will) (emails : List Email)
    (trace : List Action)
    (hj : ∀ e ∈ trace.filterMap Action.jobs?, e.limit ≤ maxWillQuerySize)
    (he : ∀ e ∈ trace.filterMap Action.emails?, e.limit ≤ maxEmailQuerySize) :
    (∀ c ∈ ((Mongodb.init jobs emails).run trace).jobs.calls,
        c.returned.length ≤ maxWillQuerySize) ∧
      ∀ c ∈ ((Mongodb.init jobs emails).run trace).emails.calls,
        c.returned.length ≤ maxEmailQuerySize := by
  obtain ⟨hrj, hre⟩ := Mongodb.run_stores (Mongodb.init jobs emails) trace
  rw [hrj, hre]
  exact ⟨Store.length_returned_run willClaim (fun _ h => (List.not_mem_nil _ h).elim) _ hj,
    Store.length_returned_run emailClaim (fun _ h => (List.not_mem_nil _ h).elim) _ he⟩

theorem getInDelivery_getEmails_limit_both :
    (∀ e ∈ [Action.jobs (getInDelivery 10), .emails getEmails, .jobs (.step 0 none)].filterMap
        Action.jobs?, e.limit ≤ maxWillQuerySize) ∧
      (∀ e ∈ [Action.jobs (getInDelivery 10), .emails getEmails, .jobs (.step 0 none)].filterMap
        Action.emails?, e.limit ≤ maxEmailQuerySize) ∧
      ((∀ c ∈ ((Mongodb.init [⟨"a", 5, false⟩] [⟨"m", false, 0⟩]).run
          [.jobs (getInDelivery 10), .emails getEmails, .jobs (.step 0 none)]).jobs.calls,
          c.returned.length ≤ maxWillQuerySize) ∧
        ∀ c ∈ ((Mongodb.init [⟨"a", 5, false⟩] [⟨"m", false, 0⟩]).run
          [.jobs (getInDelivery 10), .emails getEmails, .jobs (.step 0 none)]).emails.calls,
          c.returned.length ≤ maxEmailQuerySize) :=
  have hj : ∀ e ∈ [Action.jobs (getInDelivery 10), .emails getEmails, .jobs (.step 0 none)].filterMap
      Action.jobs?, e.limit ≤ maxWillQuerySize := by
    simp [Action.jobs?, getInDelivery, Event.limit]
  have he : ∀ e ∈ [Action.jobs (getInDelivery 10), .emails getEmails, .jobs (.step 0 none)].filterMap
      Action.emails?, e.limit ≤ maxEmailQuerySize := by
    simp [Action.emails?, getEmails, Event.limit]
  ⟨hj, he, getInDelivery_getEmails_limit _ _ _ hj he⟩

/-- A call in flight on either collection has returned once it has taken `fuel` steps of its own,
whatever the other calls, the writes and the faults do: a fresh `GetInDelivery` or `GetEmails`
after at most `1002`. -/
theorem Mongodb.calls_return_within_fuel (db : Mongodb) (trace : List Action) (i : Nat) :
    (∀ c, db.jobs.calls[i]? = some c →
      c.fuel ≤ (trace.filterMap Action.jobs?).countP (Event.steps i) →
      ∃ r, (db.run trace).jobs.calls[i]? = some (.done r)) ∧
    ∀ c, db.emails.calls[i]? = some c →
      c.fuel ≤ (trace.filterMap Action.emails?).countP (Event.steps i) →
      ∃ r, (db.run trace).emails.calls[i]? = some (.done r) := by
  obtain ⟨hrj, hre⟩ := Mongodb.run_stores db trace
  rw [hrj, hre]
  exact ⟨fun c hc h => db.jobs.done_run willClaim _ hc h,
    fun c hc h => db.emails.done_run emailClaim _ hc h⟩

/-- A `GetInDelivery` just started on two wills is done after `1002` steps of its own. -/
theorem Mongodb.calls_return_within_fuel_getInDelivery :
    ((Mongodb.init [⟨"a", 5, false⟩, ⟨"b", 7, false⟩] []).step
        (.jobs (getInDelivery 10))).jobs.calls[0]? =
        some (.find (fun w => decide (w.ttd < 10) && !w.removable) maxWillQuerySize) ∧
      (Call.find (fun w : Will => decide (w.ttd < 10) && !w.removable) maxWillQuerySize).fuel ≤
        ((List.replicate 1002 (Action.jobs (.step 0 none))).filterMap Action.jobs?).countP
          (Event.steps 0) ∧
      ∃ r, (((Mongodb.init [⟨"a", 5, false⟩, ⟨"b", 7, false⟩] []).step
        (.jobs (getInDelivery 10))).run
          (List.replicate 1002 (.jobs (.step 0 none)))).jobs.calls[0]? = some (.done r) :=
  have hc : ((Mongodb.init [⟨"a", 5, false⟩, ⟨"b", 7, false⟩] []).step
      (.jobs (getInDelivery 10))).jobs.calls[0]? =
      some (.find (fun w => decide (w.ttd < 10) && !w.removable) maxWillQuerySize) := rfl
  have hf : (Call.find (fun w : Will => decide (w.ttd < 10) && !w.removable)
      maxWillQuerySize).fuel ≤ ((List.replicate 1002 (Action.jobs (.step 0 none))).filterMap
        Action.jobs?).countP (Event.steps 0) := by
    rw [List.filterMap_replicate_of_some
        (show Action.jobs? (.jobs (.step 0 none)) = some (.step 0 none) from rfl),
      List.countP_replicate]
    decide
  ⟨hc, hf, (Mongodb.calls_return_within_fuel _ _ 0).1 _ hc hf⟩

end Enigma.Ishtm
