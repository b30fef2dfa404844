import Mathlib.Data.Finset.Card
import PersistHotStuff.Source.Types

/-!
# Key store

Signing and verification of votes and certificates. Ed25519 and SHA-256 come
from other crates and are parameters; keys and signatures are their raw bytes.
-/

namespace PersistHotStuff

open Basis

/-- What the code uses of `ed25519_dalek`. -/
class Ed25519 where
  /-- `SigningKey::verifying_key`. -/
  verifyingKey : Bytes → Bytes
  /-- `SigningKey::sign`, of a message. -/
  sign : Bytes → Bytes → Bytes
  /-- `VerifyingKey::verify`, of a message and a signature. -/
  verify : Bytes → Bytes → Bytes → Bool
  /-- Whether `VerifyingKey::from_bytes` accepts 32 given bytes. -/
  isKey : Bytes → Bool

/-- A signature made with a key verifies under its public key. -/
class LawfulEd25519 [Ed25519] : Prop where
  verify_sign : ∀ key message : Bytes,
    Ed25519.verify (Ed25519.verifyingKey key) message (Ed25519.sign key message) = true

/-- What the code uses of `sha2`. -/
class Sha256 where
  digest : Bytes → Bytes

/-- The keys one replica holds: its own signing key and everyone's public keys. -/
structure KeyStore where
  myId : ReplicaId
  mySigningKey : Bytes
  publicKeys : OrdMap ReplicaId Bytes
  deriving DecidableEq

section Votes

variable [Ed25519] [Sha256]

/-- The message that is signed and verified for a vote. -/
def voteMessage (blockHash view epoch : Nat) : Bytes :=
  Sha256.digest (leBytes 8 blockHash ++ leBytes 8 view ++ leBytes 8 epoch)

namespace KeyStore

/-- Sign a vote with this replica's private key. -/
def sign (ks : KeyStore) (blockHash view epoch : Nat) : Signature where
  signer := ks.myId
  bytes := Ed25519.sign ks.mySigningKey (voteMessage blockHash view epoch)

/-- Verify a signature against the public key of the claimed signer. -/
def verify (ks : KeyStore) (sig : Signature) (blockHash view epoch : Nat) : Bool :=
  match ks.publicKeys.get? sig.signer with
  | none => false
  | some vk => Ed25519.verify vk (voteMessage blockHash view epoch) sig.bytes

/-- The signers of a certificate whose signature verifies. -/
def validSigners (ks : KeyStore) (qc : QuorumCert) : Finset ReplicaId :=
  ((qc.signatures.filter fun sig => ks.verify sig qc.blockHash qc.view qc.epoch).map
    Signature.signer).toFinset

/-- Whether a certificate has enough valid, unique signatures. -/
def verifyQc (ks : KeyStore) (qc : QuorumCert) (quorum : Nat) : Bool :=
  quorum ≤ (ks.validSigners qc).card

end KeyStore

end Votes

namespace KeyStore

/-- Register or replace a validator public key; `false` when the bytes are no key. -/
def addPublicKey [Ed25519] (ks : KeyStore) (replicaId : ReplicaId) (publicKeyBytes : Bytes) :
    KeyStore × Bool :=
  if publicKeyBytes.length ≠ 32 then (ks, false)
  else if Ed25519.isKey publicKeyBytes then
    ({ ks with publicKeys := ks.publicKeys.insert replicaId publicKeyBytes }, true)
  else (ks, false)

/-- Remove a validator public key. -/
def removePublicKey (ks : KeyStore) (replicaId : ReplicaId) : KeyStore :=
  { ks with publicKeys := ks.publicKeys.erase replicaId }

/-- The key stores of all replicas, listed in the iteration order of the generated key map. -/
def distributeKeys [Ed25519] (allKeys : List (ReplicaId × Bytes)) : List KeyStore :=
  let publicKeys := OrdMap.ofList (allKeys.map fun k => (k.1, Ed25519.verifyingKey k.2))
  allKeys.map fun k => { myId := k.1, mySigningKey := k.2, publicKeys := publicKeys }

/-- A signer counts when one of the listed signatures of that signer verifies. -/
theorem mem_validSigners [Ed25519] [Sha256] {ks : KeyStore} {qc : QuorumCert} {i : ReplicaId} :
    i ∈ ks.validSigners qc ↔
      ∃ sig ∈ qc.signatures, sig.signer = i ∧
        ks.verify sig qc.blockHash qc.view qc.epoch = true := by
  simp only [validSigners, List.mem_toFinset, List.mem_map, List.mem_filter]
  constructor
  · rintro ⟨sig, ⟨hin, hv⟩, rfl⟩
    exact ⟨sig, hin, rfl, hv⟩
  · rintro ⟨sig, hin, rfl, hv⟩
    exact ⟨sig, ⟨hin, hv⟩, rfl⟩

/-- Verification asks only the registered keys. -/
theorem verify_congr [Ed25519] [Sha256] {ks ks' : KeyStore} (h : ks.publicKeys = ks'.publicKeys)
    (sig : Signature) (blockHash view epoch : Nat) :
    ks.verify sig blockHash view epoch = ks'.verify sig blockHash view epoch := by
  simp only [verify, h]

theorem verifyQc_congr [Ed25519] [Sha256] {ks ks' : KeyStore} (h : ks.publicKeys = ks'.publicKeys)
    (qc : QuorumCert) (quorum : Nat) : ks.verifyQc qc quorum = ks'.verifyQc qc quorum := by
  have hs : ks.validSigners qc = ks'.validSigners qc := by
    simp only [validSigners, verify_congr h]
  rw [verifyQc, verifyQc, hs]

end KeyStore

end PersistHotStuff
