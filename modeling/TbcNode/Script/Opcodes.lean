import Mathlib.Data.List.Basic

/-! # Script bytes, opcodes, flags and errors

A script and a stack element are byte strings, and an opcode is its byte, as the interpreter
compares opcodes by value; the constants are those of `opcodes.h`, `script_flags.h` and
`script_error.h`.
-/

namespace TbcNode.Script

/-- `valtype`: a stack element. -/
abbrev valtype := List UInt8

/-- A serialized script. -/
abbrev CScript := List UInt8

/-! ## Opcodes (`opcodes.h`) -/

def OP_0 : UInt8 := 0x00
def OP_FALSE : UInt8 := OP_0
def OP_PUSHDATA1 : UInt8 := 0x4c
def OP_PUSHDATA2 : UInt8 := 0x4d
def OP_PUSHDATA4 : UInt8 := 0x4e
def OP_1NEGATE : UInt8 := 0x4f
def OP_RESERVED : UInt8 := 0x50
def OP_1 : UInt8 := 0x51
def OP_TRUE : UInt8 := OP_1
def OP_16 : UInt8 := 0x60
def OP_NOP : UInt8 := 0x61
def OP_VER : UInt8 := 0x62
def OP_IF : UInt8 := 0x63
def OP_NOTIF : UInt8 := 0x64
def OP_VERIF : UInt8 := 0x65
def OP_VERNOTIF : UInt8 := 0x66
def OP_ELSE : UInt8 := 0x67
def OP_ENDIF : UInt8 := 0x68
def OP_VERIFY : UInt8 := 0x69
def OP_RETURN : UInt8 := 0x6a
def OP_TOALTSTACK : UInt8 := 0x6b
def OP_FROMALTSTACK : UInt8 := 0x6c
def OP_2DROP : UInt8 := 0x6d
def OP_2DUP : UInt8 := 0x6e
def OP_3DUP : UInt8 := 0x6f
def OP_2OVER : UInt8 := 0x70
def OP_2ROT : UInt8 := 0x71
def OP_2SWAP : UInt8 := 0x72
def OP_IFDUP : UInt8 := 0x73
def OP_DEPTH : UInt8 := 0x74
def OP_DROP : UInt8 := 0x75
def OP_DUP : UInt8 := 0x76
def OP_NIP : UInt8 := 0x77
def OP_OVER : UInt8 := 0x78
def OP_PICK : UInt8 := 0x79
def OP_ROLL : UInt8 := 0x7a
def OP_ROT : UInt8 := 0x7b
def OP_SWAP : UInt8 := 0x7c
def OP_TUCK : UInt8 := 0x7d
def OP_CAT : UInt8 := 0x7e
def OP_SPLIT : UInt8 := 0x7f
def OP_NUM2BIN : UInt8 := 0x80
def OP_BIN2NUM : UInt8 := 0x81
def OP_SIZE : UInt8 := 0x82
def OP_INVERT : UInt8 := 0x83
def OP_AND : UInt8 := 0x84
def OP_OR : UInt8 := 0x85
def OP_XOR : UInt8 := 0x86
def OP_EQUAL : UInt8 := 0x87
def OP_EQUALVERIFY : UInt8 := 0x88
def OP_RESERVED1 : UInt8 := 0x89
def OP_RESERVED2 : UInt8 := 0x8a
def OP_1ADD : UInt8 := 0x8b
def OP_1SUB : UInt8 := 0x8c
def OP_2MUL : UInt8 := 0x8d
def OP_2DIV : UInt8 := 0x8e
def OP_NEGATE : UInt8 := 0x8f
def OP_ABS : UInt8 := 0x90
def OP_NOT : UInt8 := 0x91
def OP_0NOTEQUAL : UInt8 := 0x92
def OP_ADD : UInt8 := 0x93
def OP_SUB : UInt8 := 0x94
def OP_MUL : UInt8 := 0x95
def OP_DIV : UInt8 := 0x96
def OP_MOD : UInt8 := 0x97
def OP_LSHIFT : UInt8 := 0x98
def OP_RSHIFT : UInt8 := 0x99
def OP_BOOLAND : UInt8 := 0x9a
def OP_BOOLOR : UInt8 := 0x9b
def OP_NUMEQUAL : UInt8 := 0x9c
def OP_NUMEQUALVERIFY : UInt8 := 0x9d
def OP_NUMNOTEQUAL : UInt8 := 0x9e
def OP_LESSTHAN : UInt8 := 0x9f
def OP_GREATERTHAN : UInt8 := 0xa0
def OP_LESSTHANOREQUAL : UInt8 := 0xa1
def OP_GREATERTHANOREQUAL : UInt8 := 0xa2
def OP_MIN : UInt8 := 0xa3
def OP_MAX : UInt8 := 0xa4
def OP_WITHIN : UInt8 := 0xa5
def OP_RIPEMD160 : UInt8 := 0xa6
def OP_SHA1 : UInt8 := 0xa7
def OP_SHA256 : UInt8 := 0xa8
def OP_HASH160 : UInt8 := 0xa9
def OP_HASH256 : UInt8 := 0xaa
def OP_CODESEPARATOR : UInt8 := 0xab
def OP_CHECKSIG : UInt8 := 0xac
def OP_CHECKSIGVERIFY : UInt8 := 0xad
def OP_CHECKMULTISIG : UInt8 := 0xae
def OP_CHECKMULTISIGVERIFY : UInt8 := 0xaf
def OP_NOP1 : UInt8 := 0xb0
def OP_CHECKLOCKTIMEVERIFY : UInt8 := 0xb1
def OP_CHECKSEQUENCEVERIFY : UInt8 := 0xb2
def OP_NOP4 : UInt8 := 0xb3
def OP_NOP10 : UInt8 := 0xb9
def OP_PUSH_META : UInt8 := 0xba
def OP_PARTIAL_HASH : UInt8 := 0xbb
def OP_INVALIDOPCODE : UInt8 := 0xff

/-- `IsOpcodeDisabled`: `OP_2MUL` and `OP_2DIV`. -/
def isOpcodeDisabled (opcode : UInt8) : Bool :=
  opcode == OP_2MUL || opcode == OP_2DIV

/-- `IsInvalidBranchingOpcode`: `OP_VERIF` and `OP_VERNOTIF`. -/
def isInvalidBranchingOpcode (opcode : UInt8) : Bool :=
  opcode == OP_VERNOTIF || opcode == OP_VERIF

/-! ## Limits (`script.h`) -/

def MAX_SCRIPT_ELEMENT_SIZE_BEFORE_GENESIS : Nat := 520
def MAX_STACK_ELEMENTS_BEFORE_GENESIS : Nat := 1000

/-! ## Flags (`script_flags.h`) -/

def SCRIPT_VERIFY_P2SH : UInt32 := (1 : UInt32) <<< 0
def SCRIPT_VERIFY_STRICTENC : UInt32 := (1 : UInt32) <<< 1
def SCRIPT_VERIFY_DERSIG : UInt32 := (1 : UInt32) <<< 2
def SCRIPT_VERIFY_LOW_S : UInt32 := (1 : UInt32) <<< 3
def SCRIPT_VERIFY_NULLDUMMY : UInt32 := (1 : UInt32) <<< 4
def SCRIPT_VERIFY_SIGPUSHONLY : UInt32 := (1 : UInt32) <<< 5
def SCRIPT_VERIFY_MINIMALDATA : UInt32 := (1 : UInt32) <<< 6
def SCRIPT_VERIFY_DISCOURAGE_UPGRADABLE_NOPS : UInt32 := (1 : UInt32) <<< 7
def SCRIPT_VERIFY_CLEANSTACK : UInt32 := (1 : UInt32) <<< 8
def SCRIPT_VERIFY_CHECKLOCKTIMEVERIFY : UInt32 := (1 : UInt32) <<< 9
def SCRIPT_VERIFY_CHECKSEQUENCEVERIFY : UInt32 := (1 : UInt32) <<< 10
def SCRIPT_VERIFY_MINIMALIF : UInt32 := (1 : UInt32) <<< 13
def SCRIPT_VERIFY_NULLFAIL : UInt32 := (1 : UInt32) <<< 14
def SCRIPT_VERIFY_COMPRESSED_PUBKEYTYPE : UInt32 := (1 : UInt32) <<< 15
def SCRIPT_ENABLE_SIGHASH_FORKID : UInt32 := (1 : UInt32) <<< 16
def SCRIPT_GENESIS : UInt32 := (1 : UInt32) <<< 18
def SCRIPT_UTXO_AFTER_GENESIS : UInt32 := (1 : UInt32) <<< 19

def hasFlag (flags f : UInt32) : Bool := flags &&& f != 0

/-! ## Errors (`script_error.h`) -/

inductive ScriptError where
  | SCRIPT_ERR_OK
  | SCRIPT_ERR_UNKNOWN_ERROR
  | SCRIPT_ERR_EVAL_FALSE
  | SCRIPT_ERR_OP_RETURN
  | SCRIPT_ERR_SCRIPT_SIZE
  | SCRIPT_ERR_PUSH_SIZE
  | SCRIPT_ERR_OP_COUNT
  | SCRIPT_ERR_STACK_SIZE
  | SCRIPT_ERR_SIG_COUNT
  | SCRIPT_ERR_PUBKEY_COUNT
  | SCRIPT_ERR_INVALID_OPERAND_SIZE
  | SCRIPT_ERR_INVALID_NUMBER_RANGE
  | SCRIPT_ERR_IMPOSSIBLE_ENCODING
  | SCRIPT_ERR_INVALID_SPLIT_RANGE
  | SCRIPT_ERR_SCRIPTNUM_OVERFLOW
  | SCRIPT_ERR_SCRIPTNUM_MINENCODE
  | SCRIPT_ERR_VERIFY
  | SCRIPT_ERR_EQUALVERIFY
  | SCRIPT_ERR_CHECKMULTISIGVERIFY
  | SCRIPT_ERR_CHECKSIGVERIFY
  | SCRIPT_ERR_NUMEQUALVERIFY
  | SCRIPT_ERR_BAD_OPCODE
  | SCRIPT_ERR_DISABLED_OPCODE
  | SCRIPT_ERR_INVALID_STACK_OPERATION
  | SCRIPT_ERR_INVALID_ALTSTACK_OPERATION
  | SCRIPT_ERR_UNBALANCED_CONDITIONAL
  | SCRIPT_ERR_DIV_BY_ZERO
  | SCRIPT_ERR_MOD_BY_ZERO
  | SCRIPT_ERR_NEGATIVE_LOCKTIME
  | SCRIPT_ERR_UNSATISFIED_LOCKTIME
  | SCRIPT_ERR_SIG_HASHTYPE
  | SCRIPT_ERR_SIG_DER
  | SCRIPT_ERR_MINIMALDATA
  | SCRIPT_ERR_SIG_PUSHONLY
  | SCRIPT_ERR_SIG_HIGH_S
  | SCRIPT_ERR_SIG_NULLDUMMY
  | SCRIPT_ERR_PUBKEYTYPE
  | SCRIPT_ERR_CLEANSTACK
  | SCRIPT_ERR_MINIMALIF
  | SCRIPT_ERR_SIG_NULLFAIL
  | SCRIPT_ERR_DISCOURAGE_UPGRADABLE_NOPS
  | SCRIPT_ERR_NONCOMPRESSED_PUBKEY
  | SCRIPT_ERR_ILLEGAL_FORKID
  | SCRIPT_ERR_MUST_USE_FORKID
  | SCRIPT_ERR_BIG_INT
  deriving DecidableEq, Repr

/-- The exceptions the interpreter's `try` block can see, by the `catch` clause that takes them:
`scriptnum_overflow_error`, `scriptnum_minencode_error`, `stack_overflow_error`,
`bsv::big_int_error`, and the standard exceptions caught by `catch(...)`. -/
inductive Exception where
  | scriptnumOverflow
  | scriptnumMinencode
  | stackOverflow
  | bigInt
  | runtimeError
  | invalidArgument
  | outOfRange
  deriving DecidableEq, Repr

/-- The `catch` clauses of `EvalScript`: the error each exception is reported as. -/
def Exception.toScriptError : Exception → ScriptError
  | .scriptnumOverflow => .SCRIPT_ERR_SCRIPTNUM_OVERFLOW
  | .scriptnumMinencode => .SCRIPT_ERR_SCRIPTNUM_MINENCODE
  | .stackOverflow => .SCRIPT_ERR_STACK_SIZE
  | .bigInt => .SCRIPT_ERR_BIG_INT
  | _ => .SCRIPT_ERR_UNKNOWN_ERROR

end TbcNode.Script
