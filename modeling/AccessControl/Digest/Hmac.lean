import AccessControl.Digest.Sha256

/-! # Keyed hashes

The keyed hash of a message is the hash of the key, masked, before the hash of
the key, masked otherwise, before the message.
-/
namespace AccessControl.Hmac

/-- A key of exactly one block: a long key is hashed first, a short one filled up. -/
def blockKey (key : List UInt8) : List UInt8 :=
  let short := if 64 < key.length then Sha256.hash key else key
  short ++ List.replicate (64 - short.length) 0

/-- The keyed SHA-256 hash of a message, thirty-two octets. -/
def sha256 (key message : List UInt8) : List UInt8 :=
  let k := blockKey key
  Sha256.hash (k.map (· ^^^ 0x5c) ++ Sha256.hash (k.map (· ^^^ 0x36) ++ message))

end AccessControl.Hmac
