namespace SpendCheck

/-- Why an evaluation stopped. The first failure met is the one reported. -/
inductive ScriptError where
  | ok
  | unknown
  | evalFalse
  | opReturn
  | scriptSize
  | pushSize
  | opCount
  | stackSize
  | sigCount
  | pubkeyCount
  | verify
  | equalVerify
  | checkMultiSigVerify
  | checkSigVerify
  | numEqualVerify
  | badOpcode
  | disabledOpcode
  | invalidStackOperation
  | invalidAltstackOperation
  | unbalancedConditional
  | sigHashType
  | sigDer
  | sigPushOnly
  | sigHighS
  | sigNullDummy
  | pubkeyType
  | cleanStack
deriving DecidableEq, Repr

namespace ScriptError

/-- Every reason, in the order of the report table. The first one stands for no
    failure and the last one for a policy that no evaluation applies. -/
def all : List ScriptError :=
  [ok, unknown, evalFalse, opReturn, scriptSize, pushSize, opCount, stackSize, sigCount,
    pubkeyCount, verify, equalVerify, checkMultiSigVerify, checkSigVerify, numEqualVerify,
    badOpcode, disabledOpcode, invalidStackOperation, invalidAltstackOperation,
    unbalancedConditional, sigHashType, sigDer, sigPushOnly, sigHighS, sigNullDummy, pubkeyType,
    cleanStack]

/-- The upper-case identifier. -/
def name : ScriptError → String
  | ok => "OK"
  | unknown => "UNKNOWN_ERROR"
  | evalFalse => "EVAL_FALSE"
  | opReturn => "OP_RETURN"
  | scriptSize => "SCRIPT_SIZE"
  | pushSize => "PUSH_SIZE"
  | opCount => "OP_COUNT"
  | stackSize => "STACK_SIZE"
  | sigCount => "SIG_COUNT"
  | pubkeyCount => "PUBKEY_COUNT"
  | verify => "VERIFY"
  | equalVerify => "EQUALVERIFY"
  | checkMultiSigVerify => "CHECKMULTISIGVERIFY"
  | checkSigVerify => "CHECKSIGVERIFY"
  | numEqualVerify => "NUMEQUALVERIFY"
  | badOpcode => "BAD_OPCODE"
  | disabledOpcode => "DISABLED_OPCODE"
  | invalidStackOperation => "INVALID_STACK_OPERATION"
  | invalidAltstackOperation => "INVALID_ALTSTACK_OPERATION"
  | unbalancedConditional => "UNBALANCED_CONDITIONAL"
  | sigHashType => "SIG_HASHTYPE"
  | sigDer => "SIG_DER"
  | sigPushOnly => "SIG_PUSHONLY"
  | sigHighS => "SIG_HIGH_S"
  | sigNullDummy => "SIG_NULLDUMMY"
  | pubkeyType => "PUBKEYTYPE"
  | cleanStack => "CLEANSTACK"

/-- The sentence shown to a user. -/
def message : ScriptError → String
  | ok => "No error"
  | unknown => "unknown error"
  | evalFalse =>
    "Script evaluated without error but finished with a false/empty top stack element"
  | opReturn => "OP_RETURN was encountered"
  | scriptSize => "Script is too big"
  | pushSize => "Push value size limit exceeded"
  | opCount => "Operation limit exceeded"
  | stackSize => "Stack size limit exceeded"
  | sigCount => "Signature count negative or greater than pubkey count"
  | pubkeyCount => "Pubkey count negative or limit exceeded"
  | verify => "Script failed an OP_VERIFY operation"
  | equalVerify => "Script failed an OP_EQUALVERIFY operation"
  | checkMultiSigVerify => "Script failed an OP_CHECKMULTISIGVERIFY operation"
  | checkSigVerify => "Script failed an OP_CHECKSIGVERIFY operation"
  | numEqualVerify => "Script failed an OP_NUMEQUALVERIFY operation"
  | badOpcode => "Opcode missing or not understood"
  | disabledOpcode => "Attempted to use a disabled opcode"
  | invalidStackOperation => "Operation not valid with the current stack size"
  | invalidAltstackOperation => "Operation not valid with the current altstack size"
  | unbalancedConditional => "Invalid OP_IF construction"
  | sigHashType => "Signature hash type missing or not understood"
  | sigDer => "Non-canonical DER signature"
  | sigPushOnly => "Only non-push operators allowed in signatures"
  | sigHighS => "Non-canonical signature: S value is unnecessarily high"
  | sigNullDummy => "Dummy CHECKMULTISIG argument must be zero"
  | pubkeyType => "Public key is neither compressed or uncompressed"
  | cleanStack => "Extra items left on stack after execution"

end ScriptError

end SpendCheck
