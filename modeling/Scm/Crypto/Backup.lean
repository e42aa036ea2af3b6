import Scm.Core.Receive
import Scm.Store.RelayRegistry

/-!
# Identity backups — `core/src/crypto/backup.rs`

A backup is a payload sealed under a passphrase and written as hex. There have been three
layouts of the bytes: nonce and ciphertext under a PBKDF2 key; the same after a salt; and,
today, a format tag, a salt, a nonce and the ciphertext under an Argon2id key. Only the
last one says what it is, and the first byte of an older backup may happen to be the tag.
So `decrypt_backup` tries the three splits of the bytes in turn and lets the AEAD decide.

That is right as long as no wrong split authenticates. With an ideal AEAD, one that opens
only what was sealed, it does not: the nonce and ciphertext of a wrong split are a tail of
the nonce and ciphertext that were written (`not_openTagged_of_written`,
`not_openSalted_of_written`). `decryptBackup_recovers` is the whole of it.

The random salt and nonce are arguments; zeroising is left out.
-/

namespace Scm.Crypto

open List hiding Vector
open Bytes Store Scm.Core

/-! ## The functions -/

/-- The crates `backup.rs` uses, on a passphrase and a salt. -/
structure BackupPrimitives extends Primitives where
  /-- `Argon2id`, which can fail. -/
  argon2id : Bytes → Bytes → Option Key
  /-- `pbkdf2_hmac::<Sha256>`. -/
  pbkdf2 : Bytes → Bytes → Key

/-- `FORMAT_TAG_ARGON2ID`. -/
def formatTagArgon2id : UInt8 := 2

/-- `NONCE_LEN`. -/
def nonceLen : Nat := 24

/-- `TAG_LEN`. -/
def tagLen : Nat := 16

/-- `MIN_DATA_LEN`. -/
def minDataLen : Nat := nonceLen + tagLen

/-- `str::as_bytes`. -/
def textBytes (text : String) : Bytes := text.toUTF8.data.toList

section
variable (P : BackupPrimitives)

/-- `derive_key_argon2id`. -/
def deriveKeyArgon2id (passphrase : String) (salt : Bytes) : Except IronCoreError Key :=
  match P.argon2id (textBytes passphrase) salt with
  | some key => .ok key
  | none => .error .cryptoError

/-- `derive_key_pbkdf2`. -/
def deriveKeyPbkdf2 (passphrase : String) (salt : Bytes) : Key :=
  P.pbkdf2 (textBytes passphrase) salt

/-- `try_decrypt`. -/
def tryDecrypt (key : Key) (nonce ciphertext : Bytes) : Option Bytes :=
  P.aeadDecrypt key nonce [] ciphertext

/-- `encrypt_backup`. -/
def encryptBackup (payload passphrase : String) (customSalt : Option (Vector UInt8 16))
    (randomSalt : Vector UInt8 16) (nonce : Vector UInt8 24) : Except IronCoreError String :=
  let salt := customSalt.getD randomSalt
  match deriveKeyArgon2id P passphrase salt.toList with
  | .error e => .error e
  | .ok key =>
    match P.aeadEncrypt key nonce.toList [] (textBytes payload) with
    | none => .error .cryptoError
    | some ciphertext =>
      .ok (toHex (formatTagArgon2id :: salt.toList ++ nonce.toList ++ ciphertext))

/-- The bytes read as in the current format. -/
def openTagged (passphrase : String) (data : Bytes) : Option Bytes :=
  if data.head? = some formatTagArgon2id ∧ data.length ≥ 1 + 16 + nonceLen + tagLen then
    match deriveKeyArgon2id P passphrase (slice data 1 17) with
    | .ok key => tryDecrypt P key (slice data 17 41) (data.drop 41)
    | .error _ => none
  else none

/-- The bytes read as in the older format. -/
def openSalted (passphrase : String) (data : Bytes) : Option Bytes :=
  if data.length ≥ 16 + nonceLen + tagLen then
    tryDecrypt P (deriveKeyPbkdf2 P passphrase (slice data 0 16)) (slice data 16 40)
      (data.drop 40)
  else none

/-- The bytes read as in the oldest format. -/
def openOldest (passphrase : String) (data : Bytes) : Option Bytes :=
  tryDecrypt P (deriveKeyPbkdf2 P passphrase (P.hash (textBytes passphrase)).toList)
    (slice data 0 nonceLen) (data.drop nonceLen)

/-- `String::from_utf8`, its error mapped. -/
def plaintextText (plaintext : Bytes) : Except IronCoreError String :=
  match String.fromUTF8? ⟨plaintext.toArray⟩ with
  | some text => .ok text
  | none => .error .corruptionDetected

/-- `decrypt_backup`. -/
def decryptBackup (encryptedHex passphrase : String) : Except IronCoreError String :=
  match hexDecode encryptedHex.toList with
  | none => .error .invalidInput
  | some data =>
    if data.length < minDataLen then .error .invalidInput
    else
      match openTagged P passphrase data with
      | some plaintext => plaintextText plaintext
      | none =>
        match openSalted P passphrase data with
        | some plaintext => plaintextText plaintext
        | none =>
          match openOldest P passphrase data with
          | some plaintext => plaintextText plaintext
          | none => .error .corruptionDetected

end

/-! ## The layouts -/

inductive BackupLayout where
  | tagged
  | salted
  | oldest
  deriving DecidableEq, Repr

namespace BackupLayout

/-- What stands before the nonce. -/
def header (salt : Bytes) : BackupLayout → Bytes
  | tagged => formatTagArgon2id :: salt
  | salted => salt
  | oldest => []

/-- The key a passphrase gives. -/
def key (P : BackupPrimitives) (passphrase : String) (salt : Bytes) :
    BackupLayout → Option Key
  | tagged => P.argon2id (textBytes passphrase) salt
  | salted => some (P.pbkdf2 (textBytes passphrase) salt)
  | oldest => some (P.pbkdf2 (textBytes passphrase) (P.hash (textBytes passphrase)).toList)

/-- The bytes authenticate in this layout, to this plaintext. -/
def Opens (P : BackupPrimitives) (passphrase : String) (data plaintext : Bytes)
    (layout : BackupLayout) : Prop :=
  ∃ (salt : Vector UInt8 16) (nonce : Vector UInt8 24) (ciphertext : Bytes) (key : Key),
    data = layout.header salt.toList ++ nonce.toList ++ ciphertext ∧
    layout.key P passphrase salt.toList = some key ∧
    P.aeadDecrypt key nonce.toList [] ciphertext = some plaintext

end BackupLayout

/-- An ideal AEAD, of which the encryptions `made` are the ones that took place: it opens
what they sealed and nothing else. A ciphertext carries its 16-byte tag. And since every
encryption draws its own nonce, what one put out, nonce and ciphertext, is not the tail of
what another put out. -/
structure Primitives.IdealAead (P : Primitives) (made : Key → Bytes → Bytes → Prop) :
    Prop where
  opens_iff : ∀ key nonce ciphertext plaintext,
    P.aeadDecrypt key nonce [] ciphertext = some plaintext ↔
      made key nonce plaintext ∧ P.aeadEncrypt key nonce [] plaintext = some ciphertext
  length : ∀ key nonce plaintext ciphertext,
    P.aeadEncrypt key nonce [] plaintext = some ciphertext →
      ciphertext.length = plaintext.length + tagLen
  fresh : ∀ key nonce plaintext ciphertext key' nonce' plaintext' ciphertext',
    made key nonce plaintext → P.aeadEncrypt key nonce [] plaintext = some ciphertext →
    made key' nonce' plaintext' → P.aeadEncrypt key' nonce' [] plaintext' = some ciphertext' →
    nonce' ++ ciphertext' <:+ nonce ++ ciphertext → nonce' ++ ciphertext' = nonce ++ ciphertext

/-! ## Splits -/

theorem slice_append_drop {data : Bytes} {a b : Nat} (h : a ≤ b) :
    slice data a b ++ data.drop b = data.drop a := by
  have hb : data.drop b = (data.drop a).drop (b - a) := by
    rw [drop_drop, Nat.add_sub_cancel' h]
  rw [slice, hb, take_append_drop]

theorem length_slice {data : Bytes} {a b : Nat} (h : b ≤ data.length) :
    (slice data a b).length = b - a := by
  rw [slice, length_take, length_drop]
  omega

theorem exists_vector_slice (data : Bytes) (a b n : Nat) (h : b ≤ data.length)
    (hn : b - a = n) : ∃ v : Vector UInt8 n, v.toList = slice data a b :=
  ⟨⟨(slice data a b).toArray, by rw [List.size_toArray, length_slice h, hn]⟩, by
    simp [Vector.toList]⟩

section
variable {P : BackupPrimitives} {passphrase : String} {data plaintext : Bytes}

theorem opens_of_openTagged (h : openTagged P passphrase data = some plaintext) :
    BackupLayout.Opens P passphrase data plaintext .tagged := by
  unfold openTagged at h
  split at h
  next hguard =>
    obtain ⟨hhead, hlength⟩ := hguard
    rw [nonceLen, tagLen] at hlength
    obtain ⟨salt, hsalt⟩ := exists_vector_slice data 1 17 16 (by omega) rfl
    obtain ⟨nonce, hnonce⟩ := exists_vector_slice data 17 41 24 (by omega) rfl
    unfold deriveKeyArgon2id at h
    cases hkey : P.argon2id (textBytes passphrase) (slice data 1 17) with
    | none =>
      rw [hkey] at h
      cases h
    | some key =>
      rw [hkey] at h
      refine ⟨salt, nonce, data.drop 41, key, ?_, by rw [hsalt]; exact hkey,
        by rw [hnonce]; exact h⟩
      obtain ⟨rest, rfl⟩ := List.head?_eq_some_iff.mp hhead
      rw [hsalt, hnonce, BackupLayout.header, append_assoc, slice_append_drop (by omega),
        cons_append, slice_append_drop (by omega)]
      rfl
  next => cases h

theorem opens_of_openSalted (h : openSalted P passphrase data = some plaintext) :
    BackupLayout.Opens P passphrase data plaintext .salted := by
  unfold openSalted at h
  split at h
  next hlength =>
    rw [nonceLen, tagLen] at hlength
    obtain ⟨salt, hsalt⟩ := exists_vector_slice data 0 16 16 (by omega) rfl
    obtain ⟨nonce, hnonce⟩ := exists_vector_slice data 16 40 24 (by omega) rfl
    refine ⟨salt, nonce, data.drop 40, _, ?_, by rw [hsalt]; rfl, by rw [hnonce]; exact h⟩
    rw [hsalt, hnonce, BackupLayout.header, append_assoc, slice_append_drop (by omega),
      slice_append_drop (by omega), drop_zero]
  next => cases h

theorem opens_of_openOldest (hlength : minDataLen ≤ data.length)
    (h : openOldest P passphrase data = some plaintext) :
    BackupLayout.Opens P passphrase data plaintext .oldest := by
  rw [minDataLen, nonceLen, tagLen] at hlength
  obtain ⟨nonce, hnonce⟩ := exists_vector_slice data 0 24 24 (by omega) rfl
  refine ⟨.replicate 16 0, nonce, data.drop 24, _, ?_, rfl, by rw [hnonce]; exact h⟩
  rw [hnonce, BackupLayout.header, nil_append, slice_append_drop (by omega), drop_zero]

theorem decryptBackup_error {encryptedHex : String}
    (h : ∀ data, hexDecode encryptedHex.toList = some data →
      ∀ (layout : BackupLayout) plaintext, ¬ layout.Opens P passphrase data plaintext) :
    ∃ e, decryptBackup P encryptedHex passphrase = .error e := by
  unfold decryptBackup
  cases hdecode : hexDecode encryptedHex.toList with
  | none => exact ⟨_, rfl⟩
  | some data =>
    have hnone := h data hdecode
    dsimp only
    split
    next => exact ⟨_, rfl⟩
    next hlength =>
      split
      next plaintext hopen => exact absurd (opens_of_openTagged hopen) (hnone _ _)
      split
      next plaintext hopen => exact absurd (opens_of_openSalted hopen) (hnone _ _)
      split
      next plaintext hopen =>
        exact absurd (opens_of_openOldest (Nat.not_lt.mp hlength) hopen) (hnone _ _)
      next => exact ⟨_, rfl⟩

end

/-! ## Recovery -/

section
variable {P : BackupPrimitives} {made : Key → Bytes → Bytes → Prop}
  {passphrase : String} {header nonce ciphertext plaintext : Bytes} {key : Key}

section
variable (hideal : P.toPrimitives.IdealAead made) (hmade : made key nonce plaintext)
  (hsealed : P.aeadEncrypt key nonce [] plaintext = some ciphertext)
include hideal hmade hsealed

/-- A split that starts further on than the nonce that was written does not authenticate:
it would be a tail of the nonce and ciphertext that were. -/
theorem decrypt_wrong_split {a : Nat} {key' : Key} (ha : header.length < a)
    (hlength : a + 24 ≤ (header ++ (nonce ++ ciphertext)).length) :
    P.aeadDecrypt key' (slice (header ++ (nonce ++ ciphertext)) a (a + 24)) []
      ((header ++ (nonce ++ ciphertext)).drop (a + 24)) = none := by
  refine Option.eq_none_iff_forall_ne_some.mpr fun other hother => ?_
  obtain ⟨hmade', hsealed'⟩ := (hideal.opens_iff _ _ _ _).mp hother
  have hjoin : slice (header ++ (nonce ++ ciphertext)) a (a + 24)
      ++ (header ++ (nonce ++ ciphertext)).drop (a + 24)
        = (nonce ++ ciphertext).drop (a - header.length) := by
    rw [slice_append_drop (by omega), drop_append, drop_eq_nil_of_le (by omega), nil_append]
  have heq := hideal.fresh _ _ _ _ _ _ _ _ hmade hsealed hmade' hsealed'
    (by rw [hjoin]; exact drop_suffix _ _)
  rw [hjoin] at heq
  have hlen := congrArg List.length heq
  rw [length_drop] at hlen
  rw [length_append] at hlength
  omega

/-- A backup of an older layout does not read as one of the current format, whatever its
first byte. -/
theorem not_openTagged_of_written (hheader : header.length < 17) :
    openTagged P passphrase (header ++ (nonce ++ ciphertext)) = none := by
  unfold openTagged
  split
  next hguard =>
    have hlength := hguard.2
    rw [nonceLen, tagLen] at hlength
    split
    next => exact decrypt_wrong_split hideal hmade hsealed hheader (by omega)
    next => rfl
  next => rfl

theorem not_openSalted_of_written (hheader : header.length < 16) :
    openSalted P passphrase (header ++ (nonce ++ ciphertext)) = none := by
  unfold openSalted
  split
  next hlength =>
    rw [nonceLen, tagLen] at hlength
    exact decrypt_wrong_split hideal hmade hsealed hheader (by omega)
  next => rfl

end

variable {salt : Vector UInt8 16} {iv : Vector UInt8 24}

theorem openTagged_of_written (hkey : P.argon2id (textBytes passphrase) salt.toList = some key)
    (hopens : P.aeadDecrypt key iv.toList [] ciphertext = some plaintext)
    (hlength : tagLen ≤ ciphertext.length) :
    openTagged P passphrase (formatTagArgon2id :: salt.toList ++ (iv.toList ++ ciphertext))
      = some plaintext := by
  have hsalt : slice (formatTagArgon2id :: salt.toList ++ (iv.toList ++ ciphertext)) 1 17
      = salt.toList := slice_of_drop rfl (by simp)
  have hdrop : (formatTagArgon2id :: salt.toList ++ (iv.toList ++ ciphertext)).drop 17
      = iv.toList ++ ciphertext := drop_add_of_drop (a := 1) (k := 16) rfl (by simp)
  have hnonce := slice_of_drop (b := 41) hdrop (by simp)
  have hrest := drop_add_of_drop (k := 24) hdrop (by simp)
  rw [tagLen] at hlength
  unfold openTagged deriveKeyArgon2id
  rw [if_pos ⟨rfl, by simp [nonceLen, tagLen]; omega⟩, hsalt, hkey]
  rw [hnonce, hrest]
  exact hopens

theorem openSalted_of_written
    (hopens : P.aeadDecrypt (P.pbkdf2 (textBytes passphrase) salt.toList) iv.toList [] ciphertext
      = some plaintext) (hlength : tagLen ≤ ciphertext.length) :
    openSalted P passphrase (salt.toList ++ (iv.toList ++ ciphertext)) = some plaintext := by
  have hsalt : slice (salt.toList ++ (iv.toList ++ ciphertext)) 0 16 = salt.toList :=
    slice_of_drop rfl (by simp)
  have hdrop : (salt.toList ++ (iv.toList ++ ciphertext)).drop 16 = iv.toList ++ ciphertext :=
    drop_add_of_drop (a := 0) (k := 16) rfl (by simp)
  have hnonce := slice_of_drop (b := 40) hdrop (by simp)
  have hrest := drop_add_of_drop (k := 24) hdrop (by simp)
  rw [tagLen] at hlength
  unfold openSalted deriveKeyPbkdf2
  rw [if_pos (by simp [nonceLen, tagLen]; omega), hsalt, hnonce, hrest]
  exact hopens

theorem openOldest_of_written
    (hopens : P.aeadDecrypt (P.pbkdf2 (textBytes passphrase) (P.hash (textBytes passphrase)).toList)
      iv.toList [] ciphertext = some plaintext) :
    openOldest P passphrase (iv.toList ++ ciphertext) = some plaintext := by
  have hnonce : slice (iv.toList ++ ciphertext) 0 nonceLen = iv.toList :=
    slice_of_drop rfl (by simp [nonceLen])
  have hrest : (iv.toList ++ ciphertext).drop nonceLen = ciphertext :=
    List.drop_left' (by simp [nonceLen])
  unfold openOldest deriveKeyPbkdf2
  rw [hnonce, hrest]
  exact hopens

end

theorem fromUTF8_textBytes (text : String) :
    String.fromUTF8? ⟨(textBytes text).toArray⟩ = some text :=
  dif_pos text.isValidUTF8

theorem plaintextText_textBytes (payload : String) :
    plaintextText (textBytes payload) = .ok payload := by
  unfold plaintextText
  rw [fromUTF8_textBytes]

/-- Every backup is recovered, in whichever layout it was written. -/
theorem decryptBackup_of_written {P : BackupPrimitives} {made : Key → Bytes → Bytes → Prop}
    (hideal : P.toPrimitives.IdealAead made) {passphrase payload encryptedHex : String}
    {layout : BackupLayout} {salt : Vector UInt8 16} {nonce : Vector UInt8 24} {key : Key}
    {ciphertext : Bytes} (hkey : layout.key P passphrase salt.toList = some key)
    (hmade : made key nonce.toList (textBytes payload))
    (hsealed : P.aeadEncrypt key nonce.toList [] (textBytes payload) = some ciphertext)
    (hhex : hexDecode encryptedHex.toList
      = some (layout.header salt.toList ++ (nonce.toList ++ ciphertext))) :
    decryptBackup P encryptedHex passphrase = .ok payload := by
  have hopens := (hideal.opens_iff _ _ _ _).mpr ⟨hmade, hsealed⟩
  have htag : tagLen ≤ ciphertext.length := by
    rw [hideal.length _ _ _ _ hsealed]
    omega
  have hlength :
      ¬ (layout.header salt.toList ++ (nonce.toList ++ ciphertext)).length < minDataLen := by
    simp only [length_append, Vector.length_toList, minDataLen, nonceLen]
    omega
  unfold decryptBackup
  rw [hhex]
  dsimp only
  rw [if_neg hlength]
  cases layout with
  | tagged =>
    rw [BackupLayout.header, openTagged_of_written hkey hopens htag]
    exact plaintextText_textBytes payload
  | salted =>
    cases hkey
    rw [BackupLayout.header, not_openTagged_of_written hideal hmade hsealed (by simp),
      openSalted_of_written hopens htag]
    exact plaintextText_textBytes payload
  | oldest =>
    cases hkey
    rw [BackupLayout.header, not_openTagged_of_written hideal hmade hsealed (by simp),
      not_openSalted_of_written hideal hmade hsealed (by simp), nil_append,
      openOldest_of_written hopens]
    exact plaintextText_textBytes payload

/-- **Backups are recovered.** With an ideal AEAD, for every payload and passphrase:
`decrypt_backup` gives the payload back from what `encrypt_backup` put out, with whatever
salt and nonce; and from every text that is the hex form of bytes written in any of the
layouts, whatever their first byte. Where the bytes authenticate in no layout, or the text
is not hex, it returns an error. -/
theorem decryptBackup_recovers (P : BackupPrimitives) (made : Key → Bytes → Bytes → Prop)
    (hideal : P.toPrimitives.IdealAead made) (payload passphrase : String) :
    (∀ customSalt randomSalt nonce blob,
      (∀ key, P.argon2id (textBytes passphrase) (customSalt.getD randomSalt).toList = some key →
        made key nonce.toList (textBytes payload)) →
      encryptBackup P payload passphrase customSalt randomSalt nonce = .ok blob →
      decryptBackup P blob passphrase = .ok payload) ∧
    (∀ (layout : BackupLayout) (salt : Vector UInt8 16) (nonce : Vector UInt8 24) key ciphertext
      encryptedHex, layout.key P passphrase salt.toList = some key →
      made key nonce.toList (textBytes payload) →
      P.aeadEncrypt key nonce.toList [] (textBytes payload) = some ciphertext →
      hexDecode encryptedHex.toList
        = some (layout.header salt.toList ++ nonce.toList ++ ciphertext) →
      decryptBackup P encryptedHex passphrase = .ok payload) ∧
    ∀ encryptedHex,
      (∀ data, hexDecode encryptedHex.toList = some data →
        ∀ (layout : BackupLayout) plaintext, ¬ layout.Opens P passphrase data plaintext) →
      ∃ e, decryptBackup P encryptedHex passphrase = .error e := by
  refine ⟨fun customSalt randomSalt nonce blob hmade hencrypt => ?_,
    fun layout salt nonce key ciphertext encryptedHex hkey hmade hsealed hhex => ?_,
    fun encryptedHex => decryptBackup_error⟩
  · unfold encryptBackup deriveKeyArgon2id at hencrypt
    dsimp only at hencrypt
    cases hkey : P.argon2id (textBytes passphrase) (customSalt.getD randomSalt).toList with
    | none => simp_all
    | some key =>
      rw [hkey] at hencrypt
      dsimp only at hencrypt
      cases hsealed : P.aeadEncrypt key nonce.toList [] (textBytes payload) with
      | none => simp_all
      | some ciphertext =>
        rw [hsealed] at hencrypt
        cases hencrypt
        have hlayout : BackupLayout.tagged.key P passphrase (customSalt.getD randomSalt).toList
            = some key := hkey
        refine decryptBackup_of_written hideal hlayout (hmade key hkey) hsealed ?_
        rw [hexDecode_toHex, append_assoc]
        rfl
  · grind [decryptBackup_of_written]

/-! ## A small world -/

/-- Keys that show where they come from: the derivation, and the salt. -/
def demoDerived (derivation : UInt8) (salt : Bytes) : Key :=
  arrayAt 32 (derivation :: salt ++ List.replicate 15 0) 0

def demoSeal (key : Key) (plaintext : Bytes) : Bytes := key.toList.take 16 ++ plaintext

def demoSalt (b : UInt8) : Vector UInt8 16 := .replicate 16 b

def demoIv (b : UInt8) : Vector UInt8 24 := .replicate 24 b

/-- One backup of each layout; the two older ones begin with the byte of the format tag. -/
def demoMade : List (Key × Bytes × Bytes) :=
  [(demoDerived 1 (demoSalt 7).toList, (demoIv 8).toList, textBytes "hi"),
    (demoDerived 3 (demoSalt 2).toList, (demoIv 9).toList, textBytes "hi"),
    (demoDerived 3 (List.replicate 32 0), (demoIv 2).toList, textBytes "hi")]

def demoBackup : BackupPrimitives where
  toPrimitives := { RatchetSession.demoPrimitives with
    aeadEncrypt := fun key _ _ plaintext => some (demoSeal key plaintext)
    aeadDecrypt := fun key nonce _ ciphertext =>
      if (key, nonce, ciphertext.drop 16) ∈ demoMade ∧
          demoSeal key (ciphertext.drop 16) = ciphertext then some (ciphertext.drop 16)
      else none }
  argon2id _ salt := some (demoDerived 1 salt)
  pbkdf2 _ salt := demoDerived 3 salt

theorem drop_demoSeal (key : Key) (plaintext : Bytes) :
    (demoSeal key plaintext).drop 16 = plaintext :=
  List.drop_left' (by simp)

theorem demoBackup_ideal :
    demoBackup.toPrimitives.IdealAead fun key nonce plaintext =>
      (key, nonce, plaintext) ∈ demoMade where
  opens_iff key nonce ciphertext plaintext := by
    show (if (key, nonce, ciphertext.drop 16) ∈ demoMade ∧
        demoSeal key (ciphertext.drop 16) = ciphertext then some (ciphertext.drop 16) else none)
      = some plaintext ↔ _ ∧ some (demoSeal key plaintext) = some ciphertext
    constructor
    · grind
    · grind [drop_demoSeal]
  length key nonce plaintext ciphertext h := by
    cases h
    show (demoSeal key plaintext).length = plaintext.length + 16
    simp [demoSeal]
    omega
  fresh key nonce plaintext ciphertext key' nonce' plaintext' ciphertext' hmade hsealed hmade'
      hsealed' hsuffix := by
    cases hsealed
    cases hsealed'
    -- the three outputs have one length
    have hlength : ∀ entry ∈ demoMade, (entry.2.1 ++ demoSeal entry.1 entry.2.2).length = 42 := by
      decide +kernel
    exact hsuffix.eq_of_length ((hlength _ hmade').trans (hlength _ hmade).symm)

theorem decryptBackup_recovers_demo :
    (∃ blob, encryptBackup demoBackup "hi" "pw" (some (demoSalt 7)) (demoSalt 0) (demoIv 8)
      = .ok blob ∧
      decryptBackup demoBackup blob "pw" = .ok "hi") ∧
    decryptBackup demoBackup (toHex ((demoSalt 2).toList ++ (demoIv 9).toList ++
      demoSeal (demoDerived 3 (demoSalt 2).toList) (textBytes "hi"))) "pw" = .ok "hi" ∧
    decryptBackup demoBackup (toHex ((demoIv 2).toList ++
      demoSeal (demoDerived 3 (List.replicate 32 0)) (textBytes "hi"))) "pw" = .ok "hi" ∧
    ∃ e, decryptBackup demoBackup "00" "pw" = .error e := by
  obtain ⟨hnew, hold, herror⟩ :=
    decryptBackup_recovers demoBackup _ demoBackup_ideal "hi" "pw"
  refine ⟨⟨_, rfl, hnew (some (demoSalt 7)) (demoSalt 0) (demoIv 8) _ ?_ rfl⟩, ?_, ?_, ?_⟩
  · intro key hkey
    cases hkey
    exact mem_cons_self
  · exact hold .salted (demoSalt 2) (demoIv 9) _ _ _ rfl
      (mem_cons_of_mem _ mem_cons_self) rfl (hexDecode_toHex _)
  · exact hold .oldest (demoSalt 0) (demoIv 2) _ _ _ rfl
      (mem_cons_of_mem _ (mem_cons_of_mem _ mem_cons_self)) rfl (hexDecode_toHex _)
  · refine herror "00" fun data hdata layout plaintext hopens => ?_
    have hshort : hexDecode "00".toList = some [0] := by decide +kernel
    cases hshort.symm.trans hdata
    -- one byte is no nonce
    obtain ⟨salt, nonce, ciphertext, key, hform, -⟩ := hopens
    have hlength := congrArg List.length hform
    simp only [length_append, Vector.length_toList, length_singleton] at hlength
    omega

end Scm.Crypto
