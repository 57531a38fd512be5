import Mathlib.Data.List.Nodup
import Mathlib.Logic.Function.Basic

/-! The in-memory mock of the authentication database (`dbmock.Mockdb`), and the two finite
maps it stands for. Sessions are stored under `hex.EncodeToString` of their token, which is
injective, so the mock keys them by the raw token. -/
namespace Enigma.Database

/-! ### `encoding/hex` -/

/-- `hextable` of `encoding/hex`. -/
def hextable : List Char := "0123456789abcdef".toList

/-- `hex.EncodeToString(src)`: `hextable[v>>4]` then `hextable[v&0x0f]` for each byte. The
default of `getD` is never used, both indices being below 16. -/
def encodeToString (src : List UInt8) : String :=
  ⟨src.flatMap fun v => [hextable.getD (v >>> 4).toNat ' ', hextable.getD (v &&& 0x0f).toNat ' ']⟩

theorem nibble_hi (v : UInt8) : (v >>> 4).toNat = v.toNat / 16 := by
  show (v.toBitVec >>> (4 : Nat)).toNat = v.toBitVec.toNat / 16
  rw [BitVec.toNat_ushiftRight]
  exact Nat.shiftRight_eq_div_pow _ 4

theorem nibble_lo (v : UInt8) : (v &&& 0x0f).toNat = v.toNat % 16 := by
  rw [UInt8.and_toNat]
  exact Nat.and_pow_two_sub_one_eq_mod _ 4

theorem hexDigit_inj {a b : Nat} (ha : a < 16) (hb : b < 16)
    (h : hextable.getD a ' ' = hextable.getD b ' ') : a = b := by
  have hn : hextable.Nodup := by decide
  have hl : hextable.length = 16 := rfl
  rw [List.getD_eq_getElem?_getD, List.getD_eq_getElem?_getD, List.getElem?_eq_getElem (hl ▸ ha),
    List.getElem?_eq_getElem (hl ▸ hb)] at h
  exact (hn.getElem_inj_iff).mp h

/-- Two bytes with the same two hex digits are equal. -/
theorem byte_eq_of_digits {v w : UInt8}
    (hhi : hextable.getD (v >>> 4).toNat ' ' = hextable.getD (w >>> 4).toNat ' ')
    (hlo : hextable.getD (v &&& 0x0f).toNat ' ' = hextable.getD (w &&& 0x0f).toNat ' ') :
    v = w := by
  have hv : v.toNat < 256 := v.toNat_lt_size
  have hw : w.toNat < 256 := w.toNat_lt_size
  rw [nibble_hi, nibble_hi] at hhi
  rw [nibble_lo, nibble_lo] at hlo
  have h1 := hexDigit_inj (by omega) (by omega) hhi
  have h2 := hexDigit_inj (Nat.mod_lt _ (by decide)) (Nat.mod_lt _ (by decide)) hlo
  exact UInt8.toNat.inj (by omega)

theorem encodeToString_injective : Function.Injective encodeToString := by
  intro a b h
  have h' := congrArg String.data h
  simp only [encodeToString] at h'
  clear h
  induction a generalizing b with
  | nil => cases b <;> simp_all
  | cons v a ih =>
    cases b with
    | nil => simp at h'
    | cons w b =>
      simp only [List.flatMap_cons, List.cons_append, List.nil_append, List.cons.injEq] at h'
      obtain ⟨hhi, hlo, hrest⟩ := h'
      rw [byte_eq_of_digits hhi hlo, ih hrest]

/-! ### `Mockdb` -/

/-- `ty.User`, of which the mock reads the `Username`. -/
structure User where
  username : String
  deriving DecidableEq, Repr

/-- `ty.Session`, of which the mock reads the `Token`. -/
structure Session where
  token : List UInt8
  deriving DecidableEq, Repr

/-- `Mockdb`: the two in-memory Go maps. -/
structure Mockdb where
  userStorage : String → Option User
  sessionStorage : String → Option Session

/-- `NewMockDb(args)`: both maps empty. -/
def newMockDb : Mockdb := ⟨fun _ => none, fun _ => none⟩

namespace Mockdb

def getUser (d : Mockdb) (username : String) : Except String User :=
  match d.userStorage username with
  | none => .error ("unable to find the required " ++ username ++ " user")
  | some user => .ok user

def setUser (d : Mockdb) (user : User) : Except String Unit × Mockdb :=
  match d.userStorage user.username with
  | some _ => (.error ("user " ++ user.username ++ " already exist in the db"), d)
  | none => (.ok (), { d with userStorage := Function.update d.userStorage user.username user })

def removeUser (d : Mockdb) (username : String) : Except String Unit × Mockdb :=
  match d.userStorage username with
  | none => (.error ("unable to find required " ++ username ++ " user"), d)
  | some _ => (.ok (), { d with userStorage := Function.update d.userStorage username none })

def getSession (d : Mockdb) (token : List UInt8) : Except String Session :=
  let h := encodeToString token
  match d.sessionStorage h with
  | none => .error ("unable to find the required " ++ h ++ " session")
  | some session => .ok session

def setSession (d : Mockdb) (s : Session) : Except String Unit × Mockdb :=
  let h := encodeToString s.token
  (.ok (), { d with sessionStorage := Function.update d.sessionStorage h s })

def removeSession (d : Mockdb) (token : List UInt8) : Except String Unit × Mockdb :=
  let h := encodeToString token
  match d.sessionStorage h with
  | none => (.error ("unable to find required " ++ h ++ " session"), d)
  | some _ => (.ok (), { d with sessionStorage := Function.update d.sessionStorage h none })

def removeAllSessions (d : Mockdb) : Except String Unit × Mockdb :=
  (.ok (), { d with sessionStorage := fun _ => none })

end Mockdb

/-- A call on the database interface the mock implements. -/
inductive Op where
  | getUser (username : String)
  | setUser (user : User)
  | removeUser (username : String)
  | getSession (token : List UInt8)
  | setSession (s : Session)
  | removeSession (token : List UInt8)
  | removeAllSessions

/-- What a call returns besides its error. -/
inductive Reply where
  | user (u : User)
  | session (s : Session)
  | done
  deriving DecidableEq, Repr

/-- One call on the mock: its result and the mock after it. -/
def Mockdb.apply (d : Mockdb) : Op → Except String Reply × Mockdb
  | .getUser u => ((d.getUser u).map .user, d)
  | .setUser u => ((d.setUser u).1.map fun _ => .done, (d.setUser u).2)
  | .removeUser u => ((d.removeUser u).1.map fun _ => .done, (d.removeUser u).2)
  | .getSession t => ((d.getSession t).map .session, d)
  | .setSession s => ((d.setSession s).1.map fun _ => .done, (d.setSession s).2)
  | .removeSession t => ((d.removeSession t).1.map fun _ => .done, (d.removeSession t).2)
  | .removeAllSessions => (d.removeAllSessions.1.map fun _ => .done, d.removeAllSessions.2)

/-- A sequence of calls: the results in order and the final mock. -/
def Mockdb.run (d : Mockdb) : List Op → List (Except String Reply) × Mockdb
  | [] => ([], d)
  | op :: ops => ((d.apply op).1 :: ((d.apply op).2.run ops).1, ((d.apply op).2.run ops).2)

/-! ### The abstract store -/

/-- What the mock stands for: users by username and sessions by raw token. -/
structure AuthStore where
  users : String → Option User
  sessions : List UInt8 → Option Session

def AuthStore.empty : AuthStore := ⟨fun _ => none, fun _ => none⟩

/-- One call on the maps: the reply, `none` for a failure, and the maps after it. Users are
inserted only when absent and removed only when present; sessions are upserted, removed when
present and cleared. A failing call leaves both maps as they were. -/
def AuthStore.apply (a : AuthStore) : Op → Option Reply × AuthStore
  | .getUser u => ((a.users u).map .user, a)
  | .setUser u =>
    match a.users u.username with
    | some _ => (none, a)
    | none => (some .done, { a with users := Function.update a.users u.username u })
  | .removeUser u =>
    match a.users u with
    | none => (none, a)
    | some _ => (some .done, { a with users := Function.update a.users u none })
  | .getSession t => ((a.sessions t).map .session, a)
  | .setSession s => (some .done, { a with sessions := Function.update a.sessions s.token s })
  | .removeSession t =>
    match a.sessions t with
    | none => (none, a)
    | some _ => (some .done, { a with sessions := Function.update a.sessions t none })
  | .removeAllSessions => (some .done, { a with sessions := fun _ => none })

def AuthStore.run (a : AuthStore) : List Op → List (Option Reply) × AuthStore
  | [] => ([], a)
  | op :: ops => ((a.apply op).1 :: ((a.apply op).2.run ops).1, ((a.apply op).2.run ops).2)

/-- The maps a mock holds: sessions are looked up under the hex of their token. -/
def Mockdb.abs (d : Mockdb) : AuthStore :=
  ⟨d.userStorage, fun t => d.sessionStorage (encodeToString t)⟩

theorem abs_update_session (d : Mockdb) (t : List UInt8) (v : Option Session) :
    (fun t' => Function.update d.sessionStorage (encodeToString t) v (encodeToString t')) =
      Function.update (fun t' => d.sessionStorage (encodeToString t')) t v := by
  funext t'
  by_cases h : t' = t
  · subst h; simp
  · simp [Function.update_noteq h, Function.update_noteq (encodeToString_injective.ne h)]

/-- One call on the mock refines the same call on the maps: same reply or failure, and the
mock afterwards holds the maps afterwards. -/
theorem apply_abs (d : Mockdb) (op : Op) :
    (d.apply op).1.toOption = (d.abs.apply op).1 ∧ (d.apply op).2.abs = (d.abs.apply op).2 := by
  cases op with
  | getUser u =>
    simp only [Mockdb.apply, Mockdb.getUser, AuthStore.apply, Mockdb.abs]
    cases d.userStorage u <;> simp [Except.map, Except.toOption]
  | setUser u =>
    simp only [Mockdb.apply, Mockdb.setUser, AuthStore.apply, Mockdb.abs]
    cases d.userStorage u.username <;> simp [Except.map, Except.toOption]
  | removeUser u =>
    simp only [Mockdb.apply, Mockdb.removeUser, AuthStore.apply, Mockdb.abs]
    cases d.userStorage u <;> simp [Except.map, Except.toOption]
  | getSession t =>
    simp only [Mockdb.apply, Mockdb.getSession, AuthStore.apply, Mockdb.abs]
    cases d.sessionStorage (encodeToString t) <;> simp [Except.map, Except.toOption]
  | setSession s =>
    simp [Mockdb.apply, Mockdb.setSession, AuthStore.apply, Mockdb.abs, Except.map,
      Except.toOption, abs_update_session]
  | removeSession t =>
    simp only [Mockdb.apply, Mockdb.removeSession, AuthStore.apply, Mockdb.abs]
    cases d.sessionStorage (encodeToString t) <;>
      simp [Except.map, Except.toOption, abs_update_session]
  | removeAllSessions => simp [Mockdb.apply, Mockdb.removeAllSessions, AuthStore.apply,
      Mockdb.abs, Except.map, Except.toOption]

/-- A failing call leaves the mock unchanged. -/
theorem apply_error (d : Mockdb) (op : Op) {e : String} (h : (d.apply op).1 = .error e) :
    (d.apply op).2 = d := by
  cases op with
  | getUser u => rfl
  | getSession t => rfl
  | setUser u =>
    simp only [Mockdb.apply, Mockdb.setUser] at h ⊢
    cases hu : d.userStorage u.username <;> simp [hu, Except.map] at h ⊢
  | removeUser u =>
    simp only [Mockdb.apply, Mockdb.removeUser] at h ⊢
    cases hu : d.userStorage u <;> simp [hu, Except.map] at h ⊢
  | setSession s => simp [Mockdb.apply, Mockdb.setSession, Except.map] at h
  | removeSession t =>
    simp only [Mockdb.apply, Mockdb.removeSession] at h ⊢
    cases hu : d.sessionStorage (encodeToString t) <;> simp [hu, Except.map] at h ⊢
  | removeAllSessions => simp [Mockdb.apply, Mockdb.removeAllSessions, Except.map] at h

/-- A failing call leaves the maps as they were. -/
theorem AuthStore.apply_none (a : AuthStore) (op : Op) (h : (a.apply op).1 = none) :
    (a.apply op).2 = a := by
  cases op with
  | setUser u => simp only [AuthStore.apply] at h ⊢; split at h <;> simp_all
  | removeUser u => simp only [AuthStore.apply] at h ⊢; split at h <;> simp_all
  | removeSession t => simp only [AuthStore.apply] at h ⊢; split at h <;> simp_all
  | setSession s => simp [AuthStore.apply] at h
  | removeAllSessions => simp [AuthStore.apply] at h
  | getUser u => rfl
  | getSession t => rfl

theorem run_abs (d : Mockdb) (ops : List Op) :
    (d.run ops).1.map Except.toOption = (d.abs.run ops).1 ∧ (d.run ops).2.abs = (d.abs.run ops).2 := by
  induction ops generalizing d with
  | nil => exact ⟨rfl, rfl⟩
  | cons op ops ih =>
    obtain ⟨h1, h2⟩ := apply_abs d op
    obtain ⟨ih1, ih2⟩ := ih (d.apply op).2
    simp only [Mockdb.run, AuthStore.run, List.map_cons, h1, ih1, ← h2, ih2, and_self]

theorem newMockDb_abs : newMockDb.abs = AuthStore.empty := rfl

end Enigma.Database
