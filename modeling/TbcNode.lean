import TbcNode.Logic.Triple
import TbcNode.Logic.Loop
import TbcNode.Logic.Forest
import TbcNode.Logic.Sequence
import TbcNode.Logic.Codec
import TbcNode.Logic.Limbs
import TbcNode.Logic.Digits
import TbcNode.Logic.CheckedSum
import TbcNode.Encoding.Integers
import TbcNode.Script.Opcodes
import TbcNode.Script.Parse
import TbcNode.Script.FindAndDelete
import TbcNode.Script.ScriptCode
import TbcNode.Script.Num
import TbcNode.Script.LimitedStack
import TbcNode.Script.SigEncoding
import TbcNode.Primitives.Transaction
import TbcNode.Primitives.Serialize
import TbcNode.Primitives.VarInt
import TbcNode.Script.Interpreter.Machine
import TbcNode.Script.Interpreter.Ops
import TbcNode.Script.Interpreter.Eval
import TbcNode.Script.Interpreter.Verify
import TbcNode.Script.Interpreter.Invariant
import TbcNode.Script.Interpreter.Accounting
import TbcNode.Script.Interpreter.Return
import TbcNode.Script.Interpreter.Numeric
import TbcNode.Script.SigOps
import TbcNode.Script.Interpreter.ElementSize
import TbcNode.Script.Interpreter.Runs
import TbcNode.Script.Interpreter.Context
import TbcNode.Script.Interpreter.Conversion
import TbcNode.Encoding.Bits
import TbcNode.Script.Interpreter.Shift
import TbcNode.Chain.BlockIndex
import TbcNode.Chain.ActiveChain
import TbcNode.Coins.Coin
import TbcNode.Coins.View
import TbcNode.Logic.MerkleTree
import TbcNode.Consensus.Merkle
import TbcNode.Consensus.MerkleRoot
import TbcNode.Consensus.MerkleBlock
import TbcNode.Consensus.MerkleBlockMatches
import TbcNode.Crypto.Sha256
import TbcNode.Arith.BaseUint
import TbcNode.Arith.Compact
import TbcNode.Chain.BlockProof
import TbcNode.Consensus.TxCheck
import TbcNode.Consensus.SequenceLocks
import TbcNode.Logic.Worklist
import TbcNode.Mempool.Pool
import TbcNode.Mempool.Trim
import TbcNode.Logic.Runs
import TbcNode.Mempool.Orphans
import TbcNode.Mempool.Collected
import TbcNode.Mempool.DoubleSpend
import TbcNode.Net.BlockEncodings
import TbcNode.Logic.AssocList
import TbcNode.Net.PartialBlock
import TbcNode.Logic.Bump
import TbcNode.Chain.BlockFiles
import TbcNode.Chain.Prune
import TbcNode.Net.Framing
import TbcNode.Logic.Decimal
import TbcNode.Util.MoneyStr
import TbcNode.Util.FixedPoint
import TbcNode.Util.FixedPointSpec
import TbcNode.Rpc.Amount
import TbcNode.Logic.Occupancy
import TbcNode.Logic.Positions
import TbcNode.Net.AddrMan
import TbcNode.Net.AddrManWf
import TbcNode.Net.AddrManOps
import TbcNode.Net.AddrManCheck
import TbcNode.Logic.KeyedFold
import TbcNode.Coins.Cache
import TbcNode.Coins.CacheWf
import TbcNode.Coins.CacheStack
import TbcNode.Coins.CacheRun
import TbcNode.Coins.CacheInputs
import TbcNode.Logic.Writes
import TbcNode.Coins.Undo
import TbcNode.Coins.UndoSpec
import TbcNode.Coins.UndoRoundTrip
import TbcNode.Coins.UndoFile
import TbcNode.Coins.UndoDisk
