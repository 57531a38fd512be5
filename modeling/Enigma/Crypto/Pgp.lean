import Enigma.Crypto.Bytes

/-! The keyring helpers of `crypto.go`: `GetKeyByEmail`, and `unlockKeyRing` with
`ReadArmoredKeyRing`. The `openpgp` parser and `PrivateKey.Decrypt` are parameters. -/
namespace Enigma.Crypto

/-- `packet.UserId`, of which `GetKeyByEmail` reads the `Email`. -/
structure UserId where
  email : String
  deriving DecidableEq, Repr

/-- `openpgp.Identity`, of which `GetKeyByEmail` reads the `UserId`. -/
structure Identity where
  userId : UserId
  deriving DecidableEq, Repr

/-- `packet.PrivateKey`: whether it is still `Encrypted`, and the `encryptedData` that
`PrivateKey.Decrypt` opens with the passphrase, standing also for the IV, the S2K parameters and
the cipher it reads with it. -/
structure PrivateKey where
  encrypted : Bool
  encryptedData : List UInt8
  deriving DecidableEq, Repr

/-- `openpgp.Subkey`. -/
structure Subkey where
  privateKey : Option PrivateKey
  deriving DecidableEq, Repr

/-- `openpgp.Entity`. `Identities` is a Go map, given by its entries. -/
structure Entity where
  privateKey : Option PrivateKey
  identities : List (String × Identity)
  subkeys : List Subkey
  deriving DecidableEq, Repr

/-! ### `GetKeyByEmail` -/

/-- `GetKeyByEmail(keyring, email)`. `range e` is the order in which `range entity.Identities`
visits the map, which Go leaves unspecified. -/
def getKeyByEmail (range : Entity → List (String × Identity)) :
    List Entity → String → Option Entity
  | [], _ => none
  | entity :: keyring, email =>
    if (range entity).any fun (_, ident) => ident.userId.email == email then some entity
    else getKeyByEmail range keyring email

/-- Whether some identity of the entity carries the email. -/
def hasEmail (email : String) (entity : Entity) : Bool :=
  entity.identities.any fun (_, ident) => ident.userId.email == email

theorem hasEmail_iff (email : String) (entity : Entity) :
    hasEmail email entity = true ↔ ∃ p ∈ entity.identities, p.2.userId.email = email := by
  simp [hasEmail]

/-- Any visiting order finds the same entities. -/
theorem getKeyByEmail_eq_find? {range : Entity → List (String × Identity)}
    (hrange : ∀ e, (range e).Perm e.identities) (keyring : List Entity) (email : String) :
    getKeyByEmail range keyring email = keyring.find? (hasEmail email) := by
  induction keyring with
  | nil => rfl
  | cons e keyring ih =>
    have hany : ((range e).any fun (_, ident) => ident.userId.email == email) =
        hasEmail email e := by
      rw [hasEmail, Bool.eq_iff_iff]
      simp only [List.any_eq_true]
      exact exists_congr fun _ => and_congr_left' (hrange e).mem_iff
    simp only [getKeyByEmail, hany, List.find?_cons, ih]
    cases hasEmail email e <;> rfl

/-- `GetKeyByEmail` returns the first entity of the keyring with an identity of that email, and
nothing when no entity has one, whatever order Go visits each `Identities` map in. -/
theorem getKeyByEmail_spec {range : Entity → List (String × Identity)}
    (hrange : ∀ e, (range e).Perm e.identities) (keyring : List Entity) (email : String) :
    (∀ e, getKeyByEmail range keyring email = some e ↔
      hasEmail email e ∧ ∃ before after, keyring = before ++ e :: after ∧
        ∀ e' ∈ before, hasEmail email e' = false) ∧
      (getKeyByEmail range keyring email = none ↔ ∀ e ∈ keyring, hasEmail email e = false) ∧
      (∀ range' : Entity → List (String × Identity), (∀ e, (range' e).Perm e.identities) →
        getKeyByEmail range' keyring email = getKeyByEmail range keyring email) := by
  rw [getKeyByEmail_eq_find? hrange]
  refine ⟨fun e => ?_, by simp, fun range' h' => getKeyByEmail_eq_find? h' keyring email⟩
  simp only [List.find?_eq_some, Bool.not_eq_true']

/-- Two entities share an email: the lookup returns the first. -/
theorem getKeyByEmail_spec_shared_email :
    (∀ e : Entity, e.identities.Perm e.identities) ∧
      getKeyByEmail Entity.identities
        [⟨none, [("a", ⟨⟨"a@b"⟩⟩)], []⟩, ⟨none, [("b", ⟨⟨"a@b"⟩⟩)], []⟩] "a@b" =
        some ⟨none, [("a", ⟨⟨"a@b"⟩⟩)], []⟩ :=
  ⟨fun _ => List.Perm.refl _,
    ((getKeyByEmail_spec (fun _ => List.Perm.refl _) _ "a@b").1 _).mpr
      ⟨rfl, [], _, rfl, fun _ h => (List.not_mem_nil _ h).elim⟩⟩

/-! ### `unlockKeyRing` and `ReadArmoredKeyRing` -/

section
variable (decrypt : PrivateKey → List UInt8 → Except String PrivateKey)

/-- The guarded `PrivateKey.Decrypt` that `unlockKeyRing` applies to the primary key and to each
subkey: a key that is present and `Encrypted` is decrypted, any other is left alone. -/
def unlockKey (passphrase : List UInt8) : Option PrivateKey → Except String (Option PrivateKey)
  | some k => if k.encrypted then some <$> decrypt k passphrase else .ok (some k)
  | none => .ok none

/-- The body of the subkey loop of `unlockKeyRing`. -/
def unlockSubkey (passphrase : List UInt8) (subkey : Subkey) : Except String Subkey := do
  let k ← unlockKey decrypt passphrase subkey.privateKey
  pure { subkey with privateKey := k }

/-- `unlockKeyRing(entity, passphrase)`: the primary key, then the subkeys in order, returning
on the first error. -/
def unlockKeyRing (entity : Entity) (passphrase : List UInt8) : Except String Entity := do
  let privateKey ← unlockKey decrypt passphrase entity.privateKey
  let subkeys ← entity.subkeys.mapM (unlockSubkey decrypt passphrase)
  pure { entity with privateKey := privateKey, subkeys := subkeys }

/-- `ReadArmoredKeyRing(kr, passphrase)`; `parseKeyRing` is `openpgp.ReadArmoredKeyRing`
and `none` is a nil passphrase. -/
def readArmoredKeyRing (parseKeyRing : List UInt8 → Except String (List Entity))
    (kr : List UInt8) (passphrase : Option (List UInt8)) : Except String (List Entity) := do
  let kring ← parseKeyRing kr
  match passphrase with
  | some p => kring.mapM fun entity => unlockKeyRing decrypt entity p
  | none => pure kring

/-- No key of the entity is left `Encrypted`. -/
def Unlocked (entity : Entity) : Prop :=
  (∀ k, entity.privateKey = some k → k.encrypted = false) ∧
    ∀ sk ∈ entity.subkeys, ∀ k, sk.privateKey = some k → k.encrypted = false

/-- An `Encrypted` key of the entity, primary or subkey, the ones `unlockKeyRing` decrypts. -/
def EncryptedKey (entity : Entity) (k : PrivateKey) : Prop :=
  k.encrypted = true ∧ (entity.privateKey = some k ∨ ∃ sk ∈ entity.subkeys, sk.privateKey = some k)

variable {decrypt}

theorem unlockKey_ok (hdec : ∀ k p k', decrypt k p = .ok k' → k'.encrypted = false)
    {p : List UInt8} {key key' : Option PrivateKey} (h : unlockKey decrypt p key = .ok key') :
    ∀ k, key' = some k → k.encrypted = false := by
  intro k hk
  subst hk
  match key, h with
  | none, h => cases h
  | some k₀, h =>
    by_cases hE : k₀.encrypted
    · simp only [unlockKey, hE, if_true] at h
      cases hd : decrypt k₀ p with
      | error e => rw [hd] at h; cases h
      | ok k₁ => rw [hd] at h; cases h; exact hdec _ _ _ hd
    · simp only [unlockKey, hE] at h
      cases h; simpa using hE

theorem unlockKey_error {p : List UInt8} {k : PrivateKey} (henc : k.encrypted = true) {e : String}
    (hd : decrypt k p = .error e) : unlockKey decrypt p (some k) = .error e := by
  simp [unlockKey, henc, hd]

theorem unlockKeyRing_ok (hdec : ∀ k p k', decrypt k p = .ok k' → k'.encrypted = false)
    {p : List UInt8} {e e' : Entity} (h : unlockKeyRing decrypt e p = .ok e') : Unlocked e' := by
  obtain ⟨key, hk, h⟩ := except_bind_eq_ok h
  obtain ⟨subkeys, hs, h⟩ := except_bind_eq_ok h
  cases h
  refine ⟨unlockKey_ok hdec hk, fun sk hsk k hk' => ?_⟩
  obtain ⟨sk₀, -, hsk₀⟩ := mapM_ok_mem hs sk hsk
  obtain ⟨key₀, hu, hsk₀⟩ := except_bind_eq_ok hsk₀
  cases hsk₀
  exact unlockKey_ok hdec hu k hk'

theorem unlockKeyRing_error {p : List UInt8} {e : Entity} {k : PrivateKey} (hk : EncryptedKey e k)
    {err : String} (hd : decrypt k p = .error err) : ∃ err', unlockKeyRing decrypt e p = .error err' := by
  obtain ⟨henc, hprim | ⟨sk, hsk, hskk⟩⟩ := hk
  · exact ⟨err, by simp [unlockKeyRing, hprim, unlockKey_error henc hd]⟩
  · simp only [unlockKeyRing]
    cases hk : unlockKey decrypt p e.privateKey with
    | error err' => exact ⟨err', rfl⟩
    | ok key =>
      have hf : unlockSubkey decrypt p sk = .error err := by
        simp only [unlockSubkey, hskk, unlockKey_error henc hd]; rfl
      obtain ⟨err', he⟩ := mapM_error_of_mem hf hsk
      exact ⟨err', by rw [except_ok_bind, he]; rfl⟩

/-- A key that `Decrypt` can open, or one that needs no opening, unlocks. -/
theorem unlockKey_ok_of_decrypt {p : List UInt8} {key : Option PrivateKey}
    (h : ∀ k, key = some k → k.encrypted = true → ∃ k', decrypt k p = .ok k') :
    ∃ key', unlockKey decrypt p key = .ok key' := by
  match key with
  | none => exact ⟨none, rfl⟩
  | some k =>
    by_cases hE : k.encrypted
    · obtain ⟨k', hk'⟩ := h k rfl hE
      exact ⟨some k', by simp only [unlockKey, hE, if_true, hk']; rfl⟩
    · exact ⟨some k, by simp [unlockKey, hE]⟩

/-- An entity unlocks when `Decrypt` opens each of its encrypted keys. -/
theorem unlockKeyRing_ok_of_decrypt {p : List UInt8} {e : Entity}
    (h : ∀ k, EncryptedKey e k → ∃ k', decrypt k p = .ok k') :
    ∃ e', unlockKeyRing decrypt e p = .ok e' := by
  obtain ⟨key, hk⟩ := unlockKey_ok_of_decrypt fun k hk hE => h k ⟨hE, .inl hk⟩
  obtain ⟨subkeys, hs⟩ := exists_mapM_eq_ok (f := unlockSubkey decrypt p) (l := e.subkeys)
    fun sk hsk => by
      obtain ⟨key', hk'⟩ := unlockKey_ok_of_decrypt fun k hk hE => h k ⟨hE, .inr ⟨sk, hsk, hk⟩⟩
      exact ⟨_, by simp only [unlockSubkey, hk', except_ok_bind]; rfl⟩
  exact ⟨_, by simp only [unlockKeyRing, hk, hs, except_ok_bind]; rfl⟩

/-- A key that is not `Encrypted`, or no key, comes back as it is, and `Decrypt` is not called. -/
theorem unlockKey_of_not_encrypted {p : List UInt8} {key : Option PrivateKey}
    (h : ∀ k, key = some k → k.encrypted = false) : unlockKey decrypt p key = .ok key := by
  match key with
  | none => rfl
  | some k => simp [unlockKey, h k rfl]

theorem unlockKeyRing_of_unlocked {e : Entity} (h : Unlocked e) (p : List UInt8) :
    unlockKeyRing decrypt e p = .ok e := by
  have hs : e.subkeys.mapM (unlockSubkey decrypt p) = .ok e.subkeys :=
    mapM_eq_ok_self fun sk hsk => by
      simp [unlockSubkey, unlockKey_of_not_encrypted (h.2 sk hsk)]
  simp only [unlockKeyRing, unlockKey_of_not_encrypted h.1, except_ok_bind, hs]
  rfl

/-- Unlocking leaves an entity without `Encrypted` keys as it is, whatever `Decrypt` and the
passphrase. So when `Decrypt` clears the flag, unlocking again what unlocking returned changes
nothing, and `ReadArmoredKeyRing` returns a keyring without encrypted keys as it was parsed. -/
theorem unlockKeyRing_idempotent (parseKeyRing : List UInt8 → Except String (List Entity))
    (kr : List UInt8) :
    (∀ e p, Unlocked e → unlockKeyRing decrypt e p = .ok e) ∧
      ((∀ k p k', decrypt k p = .ok k' → k'.encrypted = false) →
        ∀ e e' p p', unlockKeyRing decrypt e p = .ok e' → unlockKeyRing decrypt e' p' = .ok e') ∧
      ∀ kring, parseKeyRing kr = .ok kring → (∀ e ∈ kring, Unlocked e) →
        ∀ p, readArmoredKeyRing decrypt parseKeyRing kr (some p) = .ok kring := by
  refine ⟨fun e p h => unlockKeyRing_of_unlocked h p,
    fun hdec e e' p p' h => unlockKeyRing_of_unlocked (unlockKeyRing_ok hdec h) p',
    fun kring hr hu p => ?_⟩
  simp only [readArmoredKeyRing, hr, except_ok_bind]
  exact mapM_eq_ok_self fun e he => unlockKeyRing_of_unlocked (hu e he) p

/-- With a passphrase, a keyring that reads back has no key left `Encrypted` when `Decrypt`
clears the flag whenever it succeeds; one failing `Decrypt` of an encrypted key fails the whole
call, and when `Decrypt` opens every encrypted key the call succeeds. Without a passphrase the
parsed keyring is returned as it is. -/
theorem readArmoredKeyRing_spec (parseKeyRing : List UInt8 → Except String (List Entity))
    (hdec : ∀ k p k', decrypt k p = .ok k' → k'.encrypted = false) (kr : List UInt8) :
    (∀ p list, readArmoredKeyRing decrypt parseKeyRing kr (some p) = .ok list →
        ∀ e ∈ list, Unlocked e) ∧
      (∀ p kring, parseKeyRing kr = .ok kring →
        (∃ e ∈ kring, ∃ k, EncryptedKey e k ∧ ∃ err, decrypt k p = .error err) →
        ∃ err, readArmoredKeyRing decrypt parseKeyRing kr (some p) = .error err) ∧
      (∀ p kring, parseKeyRing kr = .ok kring →
        (∀ e ∈ kring, ∀ k, EncryptedKey e k → ∃ k', decrypt k p = .ok k') →
        ∃ list, readArmoredKeyRing decrypt parseKeyRing kr (some p) = .ok list) ∧
      readArmoredKeyRing decrypt parseKeyRing kr none = parseKeyRing kr := by
  refine ⟨fun p list h => ?_, fun p kring hr ⟨e, he, k, hk, err, hd⟩ => ?_,
    fun p kring hr hall => ?_, ?_⟩
  · obtain ⟨kring, -, h⟩ := except_bind_eq_ok h
    intro e he
    obtain ⟨e₀, -, he₀⟩ := mapM_ok_mem h e he
    exact unlockKeyRing_ok hdec he₀
  · obtain ⟨err', he'⟩ := unlockKeyRing_error hk hd
    obtain ⟨err'', h⟩ :=
      @mapM_error_of_mem _ _ _ (fun entity => unlockKeyRing decrypt entity p) _ _ he' _ he
    exact ⟨err'', by simp only [readArmoredKeyRing, hr, except_ok_bind]; exact h⟩
  · simp only [readArmoredKeyRing, hr, except_ok_bind]
    exact exists_mapM_eq_ok fun e he => unlockKeyRing_ok_of_decrypt (hall e he)
  · simp only [readArmoredKeyRing]
    cases parseKeyRing kr <;> rfl

end

/-- A `Decrypt` that opens a key whose `encryptedData` is the passphrase, clearing the flag, and
fails on any other. -/
def openWith (k : PrivateKey) (passphrase : List UInt8) : Except String PrivateKey :=
  if k.encryptedData = passphrase then .ok { k with encrypted := false }
  else .error "openpgp: invalid data: private key checksum failure"

/-- An entity whose primary key opens with the passphrase and whose subkey does not: the whole
call fails, and without that subkey it succeeds. -/
theorem readArmoredKeyRing_spec_mixed :
    (∀ k p k', openWith k p = .ok k' → k'.encrypted = false) ∧
      (∃ err, readArmoredKeyRing openWith
        (fun _ => .ok [⟨some ⟨true, [1]⟩, [], [⟨some ⟨true, [2]⟩⟩]⟩]) [] (some [1]) = .error err) ∧
      ∃ list, readArmoredKeyRing openWith (fun _ => .ok [⟨some ⟨true, [1]⟩, [], []⟩]) []
        (some [1]) = .ok list :=
  have hdec : ∀ k p k', openWith k p = .ok k' → k'.encrypted = false := fun k p k' h => by
    unfold openWith at h
    split at h <;> cases h
    rfl
  ⟨hdec,
    (readArmoredKeyRing_spec _ hdec []).2.1 [1] _ rfl ⟨_, List.mem_singleton_self _, ⟨true, [2]⟩,
      ⟨rfl, .inr ⟨_, List.mem_singleton_self _, rfl⟩⟩, _, rfl⟩,
    (readArmoredKeyRing_spec _ hdec []).2.2.1 [1] _ rfl fun e he k ⟨_, hk⟩ => by
      obtain rfl := List.mem_singleton.mp he
      obtain hk | ⟨_, hsk, _⟩ := hk
      · obtain rfl := Option.some.inj hk
        exact ⟨_, rfl⟩
      · cases hsk⟩

end Enigma.Crypto
