import SpendCheck.Machine.Basic
import SpendCheck.Script.Deletion
import SpendCheck.Signature.Encoding

namespace SpendCheck

/-- Asks the checker, unless the encoding of the signature or of the key breaks a
    rule. The signature is looked at first. -/
def Context.ask (context : Context) (code : Script) (sig pubkey : Bytes) :
    Except ScriptError Call :=
  match checkSignatureEncoding context.flags sig with
  | .error e => .error e
  | .ok () =>
    match checkKeyEncoding context.flags pubkey with
    | .error e => .error e
    | .ok () => .ok ⟨sig, pubkey, code, context.checker sig pubkey code⟩

/-- The checker is asked exactly when both encodings are in order. -/
theorem Context.ask_eq_ok_iff {context : Context} {code : Script} {sig pubkey : Bytes}
    {call : Call} :
    context.ask code sig pubkey = .ok call ↔
      checkSignatureEncoding context.flags sig = .ok () ∧
        checkKeyEncoding context.flags pubkey = .ok () ∧
        call = ⟨sig, pubkey, code, context.checker sig pubkey code⟩ := by
  unfold Context.ask
  cases hsig : checkSignatureEncoding context.flags sig with
  | error e => simp
  | ok _ =>
    cases hkey : checkKeyEncoding context.flags pubkey with
    | error e => simp
    | ok _ => simp [eq_comm]

/-- Replaces a signature and a key above it by whether the checker accepts them.
    The script code contains no push of the signature. -/
def Machine.checkSig (context : Context) (m : Machine) : Outcome Machine :=
  match m.stack with
  | pubkey :: sig :: rest =>
    match context.ask ((m.scriptCode context).deletePush sig) sig pubkey with
    | .error e => .failed e m
    | .ok call =>
      .done { m with stack := Number.ofBool call.valid :: rest, calls := m.calls ++ [call] }
  | _ => .failed .invalidStackOperation m

end SpendCheck
