import BftCore.Lib.List
import BftCore.Lib.Wp
import BftCore.Lib.Except
import BftCore.Avl.Node
import BftCore.Avl.Entries
import BftCore.Avl.Rotate
import BftCore.Avl.Insert
import BftCore.Avl.Remove
import BftCore.Avl.Tree
import BftCore.Avl.Map
import BftCore.Avl.Heap
import BftCore.Avl.Frame
import BftCore.Avl.Owns
import BftCore.Avl.Refine
import BftCore.Avl.Methods
import BftCore.State.Unit
import BftCore.State.Actions
import BftCore.State.ActionRefine
import BftCore.State.Savepoints
import BftCore.Lib.SavepointStack
import BftCore.State.Abstract
import BftCore.State.Discipline
import BftCore.Avl.Provenance
import BftCore.State.Hash
import BftCore.State.Hasher
import BftCore.State.ActionHash
import BftCore.State.Calls
import BftCore.Lib.Merkle
import BftCore.State.Ledger
import BftCore.State.Hashing
import BftCore.State.UnitProof
import BftCore.State.Snapshot
import BftCore.Txsystem.ETBuffer
import BftCore.Txbuffer.TxBuffer
import BftCore.Txsystem.Generic
import BftCore.Txsystem.Duplicates
import BftCore.Lib.UInt64
import BftCore.Rootchain.Types
import BftCore.Rootchain.SafetyModule
import BftCore.Rootchain.Verify
import BftCore.Rootchain.VoteRegister
import BftCore.Rootchain.TimeoutVotes
import BftCore.Lib.Quorum
import BftCore.Rootchain.Certification
import BftCore.Rootchain.IrReqBuffer
import BftCore.Rootchain.RequestBuffer
import BftCore.Lib.Bytes
import BftCore.Txsystem.Fees
import BftCore.Lib.Forest
import BftCore.Rootchain.BlockTree
import BftCore.Rootchain.BlockTreeInv
import BftCore.Rootchain.BlockTreeCommit
import BftCore.Txsystem.Execute
import BftCore.Txsystem.ExecuteFrame
import BftCore.Txsystem.ExecuteSpec
import BftCore.Txsystem.ExecuteTargets
import BftCore.Txsystem.Tokens
import BftCore.Lib.Tally
import BftCore.Txsystem.Money
import BftCore.Txsystem.MoneyValue
import BftCore.Lib.Crc32
import BftCore.State.Crc32Reader
import BftCore.Predicates.BumpAllocator
import BftCore.Predicates.Encoder
import BftCore.Rootchain.Leader
import BftCore.Rootchain.Pacemaker
import BftCore.Lib.KeyedList
import BftCore.Rootchain.Orchestration
import BftCore.Partition.OwnerIndexer
import BftCore.Keyvaluedb.MemoryDB
import BftCore.Partition.ProofIndexer
