import RoutineChain.Spec.Encode

/-!
# Hashing and signing (`rc-crypto`)

`blake3`, `ed25519-dalek` and `hex` are parameters: a `Crypto` value names one choice
of them, and every result says what it needs of it.
-/

namespace RoutineChain

/-- The third-party functions behind `rc-crypto`, and the `hex` crate. -/
structure Crypto where
  /-- `blake3::hash`; hashing in chunks is hashing their concatenation. -/
  hash : List UInt8 → Hash
  /-- Ed25519 signature of data under a private key. -/
  sign : List UInt8 → BitVec 256 → Signature
  /-- Ed25519 verification under a public key; false for an invalid key. -/
  verify : List UInt8 → Signature → Id → Bool
  hexEncode : List UInt8 → String
  hexDecode : String → Option (List UInt8)

/-- A Horner fold: on short inputs that differ it rarely collides. -/
def foldBytes (seed : ℕ) (m : ℕ) (bs : List UInt8) : ℕ :=
  bs.foldl (fun a b => (a * 257 + b.toNat + 1) % m) seed

/-- A concrete choice to run the model with: the private key is the public key, and a
signature is a keyed hash that verification computes again. -/
def Crypto.toy : Crypto where
  hash bs := .ofNat 256 (foldBytes 7 (2 ^ 256) bs)
  sign bs k := .ofNat 512 (foldBytes (k.toNat + 11) (2 ^ 512) bs)
  verify bs s k := s == .ofNat 512 (foldBytes (k.toNat + 11) (2 ^ 512) bs)
  hexEncode _ := ""
  hexDecode _ := none

end RoutineChain
