import Scm.Core.Receive

/-!
# Contacts — `core/src/store/contacts.rs` and `core/src/contacts_bridge.rs`

There are two address books. The core's own is filed under `contact:` and the peer id in the
backend all subsystems share; the mobile bridge has a database of its own, filed under the
peer id. Both overwrite: a peer id has one contact, the last that was added
(`ContactManager.stored_addAll_iff`).

The values are the records that `serde_json` writes and reads back. Backends do not fail.
-/

namespace Scm.Core

open Collections

/-- The `Contact` of `store/contacts.rs`. -/
structure ContactRecord extends Contact where
  peerId : String
  nickname : Option String
  localNickname : Option String
  publicKey : String
  addedAt : UInt64
  lastSeen : Option UInt64
  notes : Option String
  deriving DecidableEq, Repr

/-- `Contact::display_name`. -/
def ContactRecord.displayName (contact : ContactRecord) : String :=
  match contact.localNickname with
  | some localNickname => localNickname
  | none => contact.nickname.getD contact.peerId

/-- The `Contact` of `contacts_bridge.rs`. -/
structure BridgeContact extends ContactRecord where
  verifiedAt : Option UInt64
  isTombstone : Bool
  deriving DecidableEq, Repr

/-- `contact_key`. -/
def contactKey (peerId : String) : String := "contact:" ++ peerId

theorem contactKey_inj {a b : String} : contactKey a = contactKey b ↔ a = b :=
  String.append_right_inj _

/-- The records by storage key, in the order of `scan_prefix`. -/
abbrev ContactManager := AList fun _ : String => ContactRecord

namespace ContactManager

def add (m : ContactManager) (contact : ContactRecord) : ContactManager :=
  m.insert (contactKey contact.peerId) contact

def get (m : ContactManager) (peerId : String) : Option ContactRecord :=
  m.lookup (contactKey peerId)

def list (m : ContactManager) : List ContactRecord :=
  (m.entries.map Sigma.snd).mergeSort fun a b => decide (a.displayName ≤ b.displayName)

/-- Contacts added one after another are all there exactly when no two of them differ under
one peer id. -/
theorem stored_addAll_iff (m : ContactManager) (contacts : List ContactRecord) :
    (∀ contact ∈ contacts, (contacts.foldl add m).get contact.peerId = some contact) ↔
      ∀ a ∈ contacts, ∀ b ∈ contacts, a.peerId = b.peerId → a = b := by
  refine (forall_lookup_foldl_insert_iff (fun c => contactKey c.peerId) contacts m).trans ?_
  simp only [contactKey_inj]

end ContactManager

/-- The bridge's database, by peer id. -/
abbrev BridgeContacts := AList fun _ : String => BridgeContact

namespace BridgeContacts

def add (db : BridgeContacts) (contact : BridgeContact) : BridgeContacts :=
  db.insert contact.peerId contact

def get (db : BridgeContacts) (peerId : String) : Option BridgeContact := db.lookup peerId

theorem stored_addAll_iff (db : BridgeContacts) (contacts : List BridgeContact) :
    (∀ contact ∈ contacts, (contacts.foldl add db).get contact.peerId = some contact) ↔
      ∀ a ∈ contacts, ∀ b ∈ contacts, a.peerId = b.peerId → a = b :=
  forall_lookup_foldl_insert_iff (fun c : BridgeContact => c.peerId) contacts db

end BridgeContacts

end Scm.Core
