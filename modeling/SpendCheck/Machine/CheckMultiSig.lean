import SpendCheck.Machine.CheckSig

namespace SpendCheck

/-- The questions of a scan and whether all signatures found a key, or the broken
    rule that ended it. -/
structure Scan where
  calls : List Call
  verdict : Except ScriptError Bool

/-- Matches signatures with keys in order. Each key is tried once, with the first
    signature that has none yet, and the scan ends as soon as fewer keys than
    signatures are left. -/
def Context.scan (context : Context) (code : Script) : List Bytes → List Bytes → Scan
  | [], _ => ⟨[], .ok true⟩
  | _ :: _, [] => ⟨[], .ok false⟩
  | sig :: sigs, key :: keys =>
    match context.ask code sig key with
    | .error e => ⟨[], .error e⟩
    | .ok call =>
      let pending := if call.valid then sigs else sig :: sigs
      if keys.length < pending.length then ⟨[call], .ok false⟩
      else
        let later := context.scan code pending keys
        ⟨call :: later.calls, later.verdict⟩

/-- The arguments of a multiple signature check, and what is below them. -/
structure MultiSig where
  keys : List Bytes
  sigs : List Bytes
  dummy : Bytes
  base : Stack

/-- Reads a count between zero and a limit, with a reason of its own for a number
    outside. -/
def Number.decodeCount (limit : Nat) (outside : ScriptError) (element : Bytes) :
    Except ScriptError Nat :=
  match Number.decode Number.maxSize element with
  | .error e => .error e
  | .ok count => if count < 0 ∨ limit < count.toNat then .error outside else .ok count.toNat

/-- Takes apart what is below the number of keys: the keys, the number of
    signatures, the signatures, and one element that serves no purpose. -/
def MultiSig.ofStack? (keyCount : Nat) (stack : Stack) : Except ScriptError MultiSig :=
  match stack.drop keyCount with
  | [] => .error .invalidStackOperation
  | element :: below =>
    match Number.decodeCount keyCount .sigCount element with
    | .error e => .error e
    | .ok sigCount =>
      match below.drop sigCount with
      | [] => .error .invalidStackOperation
      | dummy :: base => .ok ⟨stack.take keyCount, below.take sigCount, dummy, base⟩

/-- Removes the pushes of several signatures, one after the other. -/
def Script.deletePushes (sigs : List Bytes) (code : Script) : Script :=
  sigs.foldl (fun code sig => code.deletePush sig) code

/-- Replaces the arguments by whether every signature has a key, once they have
    been taken apart. The element that serves no purpose may have to be empty. -/
def Machine.settleMultiSig (context : Context) (args : MultiSig) (m : Machine) :
    Outcome Machine :=
  let scan := context.scan ((m.scriptCode context).deletePushes args.sigs) args.sigs args.keys
  let asked := { m with calls := m.calls ++ scan.calls }
  match scan.verdict with
  | .error e => .failed e asked
  | .ok success =>
    if context.flags.has .nullDummy && !args.dummy.isEmpty then
      .failed .sigNullDummy { asked with stack := args.dummy :: args.base }
    else .done { asked with stack := Number.ofBool success :: args.base }

/-- Replaces counted keys and counted signatures by whether the checker accepts
    the signatures for keys in the same order. Every key counts as an operation. -/
def Machine.checkMultiSig (context : Context) (m : Machine) : Outcome Machine :=
  match m.stack with
  | [] => .failed .invalidStackOperation m
  | element :: below =>
    match Number.decodeCount maxKeys .pubkeyCount element with
    | .error e => .failed e m
    | .ok keyCount =>
      (m.countOperations keyCount).andThen fun m =>
        match MultiSig.ofStack? keyCount below with
        | .error e => .failed e m
        | .ok args => m.settleMultiSig context args

end SpendCheck
