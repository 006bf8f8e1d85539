import SpendCheck.Hash.Ripemd160
import SpendCheck.Hash.Sha1
import SpendCheck.Hash.Sha256

namespace SpendCheck.Hash

/-- SHA-256 applied twice. -/
def hash256 (message : Bytes) : Bytes :=
  sha256 (sha256 message)

/-- RIPEMD-160 of SHA-256. -/
def hash160 (message : Bytes) : Bytes :=
  ripemd160 (sha256 message)

/-- HMAC with SHA-256 and a key of at most 64 bytes. -/
def hmacSha256 (key message : Bytes) : Bytes :=
  let block := key ++ List.replicate (64 - key.length) 0
  sha256 (block.map (· ^^^ 0x5c) ++ sha256 (block.map (· ^^^ 0x36) ++ message))

@[simp] theorem length_hash256 (message : Bytes) : (hash256 message).length = 32 := by
  simp [hash256]

@[simp] theorem length_hash160 (message : Bytes) : (hash160 message).length = 20 := by
  simp [hash160]

end SpendCheck.Hash
