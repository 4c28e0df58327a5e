import ArcRelay.Archive.Dispatcher

/-!
# Credentials in the archive queue

A queued row carries the credential it will be delivered with.  `internal/store/crypto.go`
encrypts it when there is a key and marks the result with `enc:`; without a key the value is
stored as it is.  Reading goes by the mark alone, so a plain value that starts like an encrypted
one is taken for one, and its row is held.

A new configuration is written to the rows that point at another URL.  A row that points at the
URL already keeps the credential it has.

* `Carries`: an item has the target and the credential of a configuration.
* `decryptAll_enqueued_iff`: when what is stored is read back.
* `rewriteHeldDelivery_covers`: when a configuration reaches every row.
-/

namespace ArcRelay.Archive

open Interleave Prog Json List

/-! ### The encryption of credentials -/

/-- AES-GCM under one key. -/
structure Aead where
  nonceSize : ℕ
  sealWith : Bytes → String → Bytes
  openWith : Bytes → Bytes → Except String String

/-- An encryptor; without a key, values are stored as they are.  With it comes what it takes
from `encoding/base64`. -/
structure ConfigEncryptor where
  gcm : Option Aead
  encodeToString : Bytes → String
  decodeString : String → Except String Bytes

/-- The mark in front of what is encrypted. -/
def encryptedMark : String := "enc:"

namespace ConfigEncryptor

variable (e : ConfigEncryptor)

/-- `Encrypt`. -/
def encrypt (nonce : Except String Bytes) (plaintext : String) : Except String String :=
  match e.gcm with
  | none => .ok plaintext
  | some gcm =>
    match nonce with
    | .error err => .error ("generating nonce: " ++ err)
    | .ok nonce => .ok (encryptedMark ++ e.encodeToString (nonce ++ gcm.sealWith nonce plaintext))

/-- `Decrypt`. -/
def decrypt (data : String) : Except String String :=
  if ¬encryptedMark.toList <+: data.toList then .ok data
  else
    match e.gcm with
    | none => .error "config is encrypted but no encryption key is configured"
    | some gcm =>
      match e.decodeString (String.ofList (data.toList.drop encryptedMark.length)) with
      | .error err => .error ("decoding encrypted config: " ++ err)
      | .ok ciphertext =>
        if ciphertext.length < gcm.nonceSize then .error "encrypted config too short"
        else
          match gcm.openWith (ciphertext.take gcm.nonceSize) (ciphertext.drop gcm.nonceSize) with
          | .error err => .error ("decrypting config: " ++ err)
          | .ok plaintext => .ok plaintext

/-- What is encoded and sealed can be decoded and opened. -/
structure Lawful : Prop where
  decode_encode : ∀ b, e.decodeString (e.encodeToString b) = .ok b
  open_seal : ∀ gcm ∈ e.gcm, ∀ nonce v, nonce.length = gcm.nonceSize →
    gcm.openWith nonce (gcm.sealWith nonce v) = .ok v

/-- The queue with this encryptor. -/
def outside (nonces : ℕ → Except String Bytes) : Outside where
  urlError _ := none
  encrypt n v := e.encrypt (nonces n) v
  decrypt := e.decrypt

end ConfigEncryptor

/-- The credential of an item, as it is sent. -/
def openedAuth (out : Outside) (stored : String) : Except String String :=
  if stored = "" then .ok "" else out.decrypt stored

variable {e : ConfigEncryptor} {nonces : ℕ → Except String Bytes} {n : ℕ} {v stored : String}

theorem openedAuth_storedAuth (he : e.Lawful)
    (hsize : ∀ gcm ∈ e.gcm, ∀ b, nonces n = .ok b → b.length = gcm.nonceSize)
    (hv : e.gcm = none → ¬encryptedMark.toList <+: v.toList)
    (h : storedAuth (e.outside nonces) n v = .ok stored) :
    openedAuth (e.outside nonces) stored = .ok v := by
  unfold storedAuth at h
  split at h
  · next hempty =>
    cases h
    rw [hempty, openedAuth, if_pos rfl]
  next hne =>
  simp only [ConfigEncryptor.outside, ConfigEncryptor.encrypt] at h
  cases hgcm : e.gcm with
  | none =>
    rw [hgcm] at h
    cases h
    rw [openedAuth, if_neg hne]
    simp only [ConfigEncryptor.outside, ConfigEncryptor.decrypt]
    rw [if_pos (hv hgcm)]
  | some gcm => ?_
  rw [hgcm] at h
  cases hnonce : nonces n with
  | error err =>
    rw [hnonce] at h
    cases h
  | ok nonce => ?_
  rw [hnonce] at h
  cases h
  have hlen : nonce.length = gcm.nonceSize := hsize gcm hgcm nonce hnonce
  have hopen := he.open_seal gcm hgcm nonce v hlen
  -- what follows the mark is the nonce and the sealed value
  have hmark : encryptedMark.toList.length = encryptedMark.length := String.length_toList
  have hne' : encryptedMark ++ e.encodeToString (nonce ++ gcm.sealWith nonce v) ≠ "" := by
    intro h
    have := congrArg String.length h
    simp [encryptedMark] at this
  rw [openedAuth, if_neg hne']
  simp only [ConfigEncryptor.outside, ConfigEncryptor.decrypt, hgcm, String.toList_append]
  rw [if_neg (not_not.mpr (prefix_append _ _)), ← hmark, drop_left,
    String.ofList_toList, he.decode_encode]
  simp only [length_append, take_append, drop_append, ← hlen]
  simp [hopen]

theorem decryptAll_insert {out : Outside} {r : Item} (h : openedAuth out r.authValue = .ok v)
    (before after : List Item) :
    decryptAll out (before ++ r :: after) = (do
      let x ← decryptAll out before
      let y ← decryptAll out after
      pure (x ++ { r with authValue := v } :: y)) := by
  induction before with
  | nil =>
    unfold openedAuth at h
    simp only [nil_append, decryptAll, h]
    rfl
  | cons b before ih =>
    rw [cons_append, decryptAll, decryptAll, ih]
    cases if b.authValue = "" then .ok "" else out.decrypt b.authValue with
    | error err => simp only [bind_bind]
    | ok authValue => simp only [bind_bind, pure_eq_ret, ret_bind, cons_append]

/-- **What is stored is read back** if and only if there is a key or the credential does not start
with the mark: the loop of `DequeueDue` returns a row with the credential that it was enqueued with,
and does not hold it, whatever stands around it. -/
theorem decryptAll_enqueued_iff (he : e.Lawful)
    (hsize : ∀ gcm ∈ e.gcm, ∀ b, nonces n = .ok b → b.length = gcm.nonceSize) (payload : Bytes)
    (cfg : ArchiveConfig) (serverID : String) (now : ℤ) (s : State) (row r : Item)
    (h : (world (e.outside nonces) (.enqueue payload cfg serverID n now) s).queue =
      s.queue ++ [row])
    (hr : r.authValue = row.authValue) :
    (∀ before after, decryptAll (e.outside nonces) (before ++ r :: after) = (do
      let x ← decryptAll (e.outside nonces) before
      let y ← decryptAll (e.outside nonces) after
      pure (x ++ { r with authValue := cfg.authValue } :: y))) ↔
      (e.gcm = none → ¬encryptedMark.toList <+: cfg.authValue.toList) := by
  simp only [world] at h
  split at h
  · simp at h
  next stored hstored =>
  have hrow : r.authValue = stored := by
    have heq := append_cancel_left h
    rw [hr, ← head_eq_of_cons_eq heq]
  constructor
  · -- a marked credential without a key: the row is held, which is a step
    intro hall hgcm hmark
    have hne : cfg.authValue ≠ "" := by
      intro hempty
      rw [hempty] at hmark
      simp [encryptedMark] at hmark
    have hplain : stored = cfg.authValue := by
      simpa [storedAuth, hne, ConfigEncryptor.outside, ConfigEncryptor.encrypt, hgcm] using
        hstored.symm
    have hone := hall [] []
    simp only [nil_append, decryptAll, hrow, hplain, if_neg hne, ConfigEncryptor.outside,
      ConfigEncryptor.decrypt, hmark, not_true_eq_false, if_false, hgcm] at hone
    cases hone
  · intro hv before after
    exact decryptAll_insert (hrow ▸ openedAuth_storedAuth he hsize hv hstored) before after

/-! ### A new configuration -/

/-- The item has the target and the credential of the configuration. -/
def Carries (out : Outside) (cfg : ArchiveConfig) (r : Item) : Prop :=
  r.url = cfg.url ∧ r.authType = cfg.authType ∧ openedAuth out r.authValue = .ok cfg.authValue ∧
    r.apiKeyHeader = cfg.apiKeyHeader

/-- **A configuration reaches every row** iff the rows that point at its URL have it already. -/
theorem rewriteHeldDelivery_covers (out : Outside) (cfg : ArchiveConfig) (nonce : ℕ) (now : ℤ)
    (s : State) (stored : String) (hstored : storedAuth out nonce cfg.authValue = .ok stored)
    (hopen : openedAuth out stored = .ok cfg.authValue) :
    (∀ r ∈ (world out (.rewriteHeldDelivery cfg nonce now) s).queue, Carries out cfg r) ↔
      ∀ r ∈ s.queue, r.url = cfg.url → Carries out cfg r := by
  simp only [world, hstored, rewriteHeldDelivery, forall_mem_map]
  constructor
  · intro h r hr hurl
    have hcarries := h r hr
    rwa [if_neg (not_not.mpr hurl)] at hcarries
  intro h r hr
  split
  · exact ⟨rfl, rfl, hopen, rfl⟩
  · next hurl => exact h r hr (not_not.mp hurl)

/-! ### On concrete values -/

/-- A target with a bearer token. -/
def bearer (url authValue : String) : ArchiveConfig := ⟨url, "bearer", authValue, "X-API-Key"⟩

/-- A queue with one item. -/
def queueOf (out : Outside) (cfg : ArchiveConfig) : State :=
  world out (.enqueue [] cfg "s" 0 0) {}

theorem rewriteHeldDelivery_covers_moved :
    let s := queueOf plainOutside (bearer "a" "t1")
    s.queue.map (·.url) = ["a"] ∧
      ∀ r ∈ (world plainOutside (.rewriteHeldDelivery (bearer "b" "t2") 0 1) s).queue,
        Carries plainOutside (bearer "b" "t2") r :=
  ⟨rfl, (rewriteHeldDelivery_covers plainOutside (bearer "b" "t2") 0 1 _ "t2" rfl rfl).mpr
    (by simp [queueOf, world, storedAuth, enqueue, plainOutside, bearer])⟩

/-- **A rotated credential does not reach the rows that point at its URL.** -/
theorem rotated_credential_kept :
    (world plainOutside (.rewriteHeldDelivery (bearer "a" "t2") 0 1)
      (queueOf plainOutside (bearer "a" "t1"))).queue.map (·.authValue) = ["t1"] := by
  decide +kernel

/-- An encryptor without a key. -/
def keyless : ConfigEncryptor where
  gcm := none
  encodeToString b := String.ofList (b.map fun x => Char.ofNat x.toNat)
  decodeString s := .ok (s.toList.map fun c => c.toNat.toUInt8)

def noNonces : ℕ → Except String Bytes := fun _ => .ok []

theorem lawful_keyless : keyless.Lawful where
  decode_encode b := by
    have hchar : ∀ n < 256, (Char.ofNat n).toNat = n := by decide +kernel
    have hback : ∀ x : UInt8, UInt8.ofNat (Char.ofNat x.toNat).toNat = x := by
      intro x
      rw [hchar x.toNat x.toNat_lt, UInt8.ofNat_toNat]
    simp [keyless, Function.comp_def, hback]
  open_seal := nofun

/-- An encryptor with a key: the sealed value is the text with the nonce behind it. -/
def keyed : ConfigEncryptor :=
  { keyless with
    gcm := some
      { nonceSize := 1
        sealWith := fun nonce v => utf8 v ++ nonce
        openWith := fun nonce c =>
          if nonce <:+ c then
            (String.fromUTF8? ⟨(c.take (c.length - nonce.length)).toArray⟩).elim (.error "") .ok
          else .error "message authentication failed" } }

theorem lawful_keyed : keyed.Lawful where
  decode_encode := lawful_keyless.decode_encode
  open_seal := by
    rintro gcm ⟨⟩ nonce v -
    have hread : String.fromUTF8? ⟨(utf8 v).toArray⟩ = some v := by
      simp only [String.fromUTF8?, utf8]
      exact dif_pos v.isValidUTF8
    simp [hread]

/-- With a key, a credential with the mark comes back too. -/
theorem decryptAll_enqueued_iff_keyed :
    let out := keyed.outside fun _ => .ok [7]
    decryptAll out (queueOf out (bearer "a" "enc:t")).queue =
      pure (queueOf plainOutside (bearer "a" "enc:t")).queue :=
  (decryptAll_enqueued_iff (n := 0) lawful_keyed (by rintro gcm ⟨⟩ b ⟨⟩; rfl) []
    (bearer "a" "enc:t") "s" 0 {} _ _ rfl rfl).mpr nofun [] []

/-- **A plain credential with the mark cannot be read back**, and its row is held. -/
theorem marked_credential_held :
    let out := keyless.outside noNonces
    let run := (dequeueDue out 50).alone (fun _ => { now := 0 }) (queueOf out (bearer "a" "enc:t"))
    run.2 = .ok [] ∧ run.1.queue.map (·.status) = [.hold] := by
  decide +kernel

end ArcRelay.Archive
