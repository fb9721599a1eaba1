import Mathlib
import QbitPrism.Lib.ByteReader
import QbitPrism.Payout.Types

/-!
# Hashes, signatures and payout scripts

SHA-256 and Ed25519 are parameters: nothing below depends on what they compute, only on
the lengths of what they take and return.
-/
namespace QbitPrism
open Checked ByteReader

/-- The cryptographic functions the pipeline calls. -/
structure Crypto where
  sha256 : List UInt8 → Bytes 32
  ed25519ValidKey : Bytes 32 → Bool
  ed25519Verifies : (publicKey : Bytes 32) → (message : List UInt8) → (signature : Bytes 64) → Bool

def asciiLower (b : UInt8) : UInt8 := if 0x41 ≤ b ∧ b ≤ 0x5a then b + 0x20 else b

/-- `eq_ignore_ascii_case`, which compares the bytes. -/
def eqIgnoreAsciiCase (a b : String) : Prop :=
  (Hex.utf8 a).map asciiLower = (Hex.utf8 b).map asciiLower

instance (a b : String) : Decidable (eqIgnoreAsciiCase a b) :=
  inferInstanceAs (Decidable ((Hex.utf8 a).map asciiLower = (Hex.utf8 b).map asciiLower))

theorem asciiLower_eq {b : UInt8} (h : b.toNat < 128) :
    asciiLower b = UInt8.ofNat (Char.ofNat b.toNat).toLower.toNat := by
  have hall : ∀ n < 128, asciiLower (UInt8.ofNat n) = UInt8.ofNat (Char.ofNat n).toLower.toNat := by decide
  simpa using hall b.toNat h

theorem map_asciiLower_of_decode {s : String} {bytes : List UInt8} (h : Hex.decode s = .ok bytes) :
    (Hex.utf8 s).map asciiLower = Hex.utf8 (Hex.encode bytes) := by
  unfold Hex.decode at h
  split_ifs at h with hodd
  obtain ⟨hascii, hdigits⟩ := Hex.decodePairs_eq_ok (by simpa using hodd) h
  calc (Hex.utf8 s).map asciiLower
      = (Hex.utf8 s).map fun b => UInt8.ofNat (Char.ofNat b.toNat).toLower.toNat :=
        List.map_congr_left fun b hb => asciiLower_eq (hascii b hb)
    _ = ((Hex.utf8 s).map fun b => (Char.ofNat b.toNat).toLower).map fun c => UInt8.ofNat c.toNat := by
        rw [List.map_map]
        rfl
    _ = Hex.utf8 (Hex.encode bytes) := by
        rw [hdigits, List.map_flatMap, Hex.utf8_encode]

theorem eqIgnoreAsciiCase_of_decode {a b : String} {x y : List UInt8} (ha : Hex.decode a = .ok x)
    (hb : Hex.decode b = .ok y) : eqIgnoreAsciiCase a b ↔ x = y := by
  rw [eqIgnoreAsciiCase, map_asciiLower_of_decode ha, map_asciiLower_of_decode hb]
  constructor
  · intro h
    exact Hex.encode_injective (Hex.utf8_injective h)
  · rintro rfl
    rfl

def displayHashHex (hash : Bytes 32) : String := Hex.encode hash.toList.reverse

namespace Crypto
variable (crypto : Crypto)

def sha256Hex (bytes : List UInt8) : String := Hex.encode (crypto.sha256 bytes).toList

def hash256 (bytes : List UInt8) : Bytes 32 := crypto.sha256 (crypto.sha256 bytes).toList

def hash256Pair (left right : Bytes 32) : Bytes 32 := crypto.hash256 (left.toList ++ right.toList)

def taggedHash (tag : String) (payload : List UInt8) : Bytes 32 :=
  let tagHash := (crypto.sha256 (Hex.utf8 tag)).toList
  crypto.sha256 (tagHash ++ (tagHash ++ payload))

/-- One level of a Merkle tree: neighbours are paired, and a last one without a neighbour
is paired with itself. -/
def merklePairs : List (Bytes 32) → List (Bytes 32)
  | [] => []
  | [last] => [crypto.hash256Pair last last]
  | left :: right :: rest => crypto.hash256Pair left right :: merklePairs rest

/-- The levels of a non-empty tree, bottom up, until one hash is left. -/
def merkleLevels : ℕ → Bytes 32 → List (Bytes 32) → Bytes 32
  | _, first, [] => first
  | 0, first, _ :: _ => first
  | rounds + 1, first, second :: rest =>
    merkleLevels rounds (crypto.hash256Pair first second) (crypto.merklePairs rest)

def merkleRoot (first : Bytes 32) (rest : List (Bytes 32)) : Bytes 32 :=
  crypto.merkleLevels rest.length first rest

theorem length_merklePairs (hashes : List (Bytes 32)) :
    (crypto.merklePairs hashes).length ≤ hashes.length := by
  induction hashes using merklePairs.induct with
  | case1 | case2 => simp [merklePairs]
  | case3 left right rest ih =>
    simp only [merklePairs, List.length_cons]
    omega

theorem merkleLevels_enough {rounds : ℕ} (first : Bytes 32) {rest : List (Bytes 32)}
    (h : rest.length ≤ rounds) : crypto.merkleLevels rounds first rest = crypto.merkleRoot first rest := by
  suffices key : ∀ m n (first : Bytes 32) (rest : List (Bytes 32)), rest.length ≤ m → rest.length ≤ n →
      crypto.merkleLevels m first rest = crypto.merkleLevels n first rest from
    key rounds rest.length first rest h le_rfl
  intro m
  induction m with
  | zero =>
    intro n first rest hm _
    rw [List.length_eq_zero_iff.mp (Nat.le_zero.mp hm), merkleLevels, merkleLevels]
  | succ m ih =>
    intro n first rest hm hn
    cases rest with
    | nil => rw [merkleLevels, merkleLevels]
    | cons second rest =>
      rw [List.length_cons] at hm hn
      obtain ⟨n, rfl⟩ : ∃ k, n = k + 1 := ⟨n - 1, by omega⟩
      have hpairs := crypto.length_merklePairs rest
      exact ih n _ _ (by omega) (by omega)

def verifyEd25519Message (publicKeyHex : String) (message : List UInt8) (signatureHex : String) :
    Except BuilderError Unit := do
  let publicKeyBytes ← (Hex.decode publicKeyHex).mapError .hex
  let publicKey ← okOr (Bytes.ofList? 32 publicKeyBytes)
    (.invalidPublicKeyLength publicKeyBytes.length)
  require (crypto.ed25519ValidKey publicKey) .signatureVerificationFailed
  let signatureBytes ← (Hex.decode signatureHex).mapError .hex
  let signature ← okOr (Bytes.ofList? 64 signatureBytes)
    (.invalidSignatureLength signatureBytes.length)
  require (crypto.ed25519Verifies publicKey message signature) .signatureVerificationFailed

end Crypto

/-- `OP_2` and a push of the 32-byte program. -/
def p2mrScriptPubkey (program : Bytes 32) : Bytes 34 :=
  ⟨0x52 :: 32 :: program.toList, by rw [List.length_cons, List.length_cons, program.toList_length]⟩

theorem p2mrScriptPubkey_injective : Function.Injective p2mrScriptPubkey := by
  intro a b h
  have hlist := congrArg List.Vector.toList h
  exact List.Vector.toList_injective (List.cons.inj (List.cons.inj hlist).2).2

/-- A hash that is always zero and signatures that always verify, for concrete runs. -/
def constantCrypto : Crypto where
  sha256 _ := List.Vector.replicate 32 0
  ed25519ValidKey _ := true
  ed25519Verifies _ _ _ := true

end QbitPrism
