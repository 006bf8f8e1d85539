import SpendCheck.Script.Basic

namespace SpendCheck

/-- The place of an output: the transaction that made it and its position there. -/
structure OutPoint where
  txid : Bytes
  vout : UInt32
  txid_length : txid.length = 32
deriving DecidableEq

/-- The place that an input names when it spends no output. -/
def OutPoint.null : OutPoint := ⟨List.replicate 32 0, 0xffffffff, by simp⟩

/-- An input spends an output with an unlocking script. -/
structure Input where
  previous : OutPoint
  script : Script
  sequence : UInt32
deriving DecidableEq

/-- An output holds a value under a locking script. -/
structure Output where
  value : Int64
  script : Script
deriving DecidableEq

/-- A placeholder for an output that is not signed. -/
def Output.null : Output := ⟨-1, []⟩

/-- A transaction, as far as a signature can commit to it. -/
structure Transaction where
  version : UInt32
  inputs : List Input
  outputs : List Output
  lockTime : UInt32
deriving DecidableEq

end SpendCheck
