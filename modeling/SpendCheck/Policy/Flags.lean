namespace SpendCheck

/-- A rule that a verification may apply on top of the basic ones. -/
inductive Flag where
  /-- A locking script of the pay-to-script-hash form also runs the script that
      the unlocking script pushes last. -/
  | p2sh
  /-- Hash types and public keys must have a defined form. -/
  | strictEnc
  /-- Signatures must be strict DER. -/
  | derSig
  /-- The second half of a signature must not exceed half the group order. -/
  | lowS
  /-- The unused element below a list of signatures must be empty. -/
  | nullDummy
  /-- Unlocking scripts must only push. -/
  | sigPushOnly
deriving DecidableEq, Repr

namespace Flag

/-- The bit of a flag. -/
def mask : Flag → UInt32
  | p2sh => 1
  | strictEnc => 2
  | derSig => 4
  | lowS => 8
  | nullDummy => 16
  | sigPushOnly => 32

/-- The name of a flag in texts. -/
def name : Flag → String
  | p2sh => "P2SH"
  | strictEnc => "STRICTENC"
  | derSig => "DERSIG"
  | lowS => "LOW_S"
  | nullDummy => "NULLDUMMY"
  | sigPushOnly => "SIGPUSHONLY"

/-- All flags, by name. -/
def all : List Flag :=
  [derSig, lowS, nullDummy, p2sh, sigPushOnly, strictEnc]

end Flag

/-- A set of flags as a bit mask. -/
structure Flags where
  bits : UInt32
deriving DecidableEq, Repr

namespace Flags

/-- No flag. -/
def none : Flags := ⟨0⟩

/-- The bits of all flags. -/
def standardMask : UInt32 := 63

/-- Every flag. -/
def standard : Flags := ⟨standardMask⟩

/-- The flags of a verification that names none. -/
def default : Flags := ⟨Flag.p2sh.mask ||| Flag.strictEnc.mask⟩

/-- Reads a mask; a bit that belongs to no flag is refused. -/
def ofBits? (bits : UInt32) : Option Flags :=
  if bits &&& ~~~standardMask = 0 then some ⟨bits⟩ else Option.none

/-- All bits of the mask are set. -/
def contains (flags : Flags) (mask : UInt32) : Bool :=
  flags.bits &&& mask == mask

/-- Some bit of the mask is set. -/
def intersects (flags : Flags) (mask : UInt32) : Bool :=
  flags.bits &&& mask != 0

/-- Sets the bits of a mask, as far as they belong to flags. -/
def insert (flags : Flags) (mask : UInt32) : Flags :=
  ⟨(flags.bits ||| mask) &&& standardMask⟩

/-- Clears the bits of a mask. -/
def erase (flags : Flags) (mask : UInt32) : Flags :=
  ⟨flags.bits &&& ~~~mask⟩

/-- The flag is in the set. -/
def has (flags : Flags) (flag : Flag) : Bool :=
  flags.contains flag.mask

/-- The flags in the set, by name. -/
def toList (flags : Flags) : List Flag :=
  Flag.all.filter fun flag => flags.intersects flag.mask

end Flags

end SpendCheck
