import Maat.Lib.Trie

/-!
# The zero-knowledge guest

The program whose execution is proved: it hashes a block header, walks a trie proof from the
header's receipts root to one receipt, and commits the fields of one `IntentCreated` log of that
receipt. A panic aborts the proof, here `none`. The `rlp` crate and keccak256 are parameters.
-/

namespace Maat.Guest

open Rlp Bytes

/-- The event whose keccak256 is topic 0 of the log. -/
def intentCreatedSignature : List UInt8 :=
  "IntentCreated(bytes32,address,uint256,address,bytes32,uint64,uint64,uint16)".toUTF8.data.toList

/-- Untrusted input from the host. -/
structure ProofInput where
  headerRlp : List UInt8
  receiptProofNodes : List (List UInt8)
  txIndex : UInt64
  logIndex : UInt64
  expectedContract : Fixed 20
  deriving DecidableEq

/-- Public outputs committed to the proof. -/
structure ProofOutput where
  blockHash : Fixed 32
  blockNumber : UInt64
  blockTimestamp : UInt64
  contract : Fixed 20
  intentId : Fixed 32
  sender : Fixed 20
  amount : Fixed 32
  tokenAddress : Fixed 20
  destinationWallet : Fixed 32
  destinationChainId : UInt64
  expiry : UInt64
  slippageBps : UInt16
  deriving DecidableEq

/-! ## Bytes -/

/-- The last eight bytes, padded on the left. -/
def beBytesToU64 (b : List UInt8) : UInt64 :=
  let n := min b.length 8
  let buf := List.replicate (8 - n) 0 ++ b.drop (b.length - n)
  UInt64.ofNat (beNat buf)

/-- Fill a fixed-size array. The lengths must agree. -/
def copyFromSlice (n : Nat) (bs : List UInt8) : Option (Fixed n) :=
  if h : bs.length = n then some ⟨bs, h⟩ else none

/-- The bytes from `start` up to `stop`, which must be there. -/
def slice (bs : List UInt8) (start stop : Nat) : Option (List UInt8) :=
  if start ≤ stop ∧ stop ≤ bs.length then some ((bs.take stop).drop start) else none

def nibblesOf (bytes : List UInt8) : List Nibble :=
  bytes.flatMap fun b => [Fin.ofNat 16 (b.toNat / 16), Fin.ofNat 16 b.toNat]

/-- Flags 2 and 3 mark a leaf, 1 and 3 an odd path. Flags from 4 on read as an even extension. -/
def decodeHexPrefix (encoded : List UInt8) : Option (Bool × List Nibble) := do
  let nibbles := nibblesOf encoded
  let flag ← nibbles[0]?
  let isLeaf := flag == 2 || flag == 3
  let odd := flag == 1 || flag == 3
  let path := if odd then nibbles.drop 1 else nibbles.drop 2
  return (isLeaf, path)

/-! ## The trie walk -/

/-- What the parent node said the next node must be. -/
inductive NodeRef where
  | hash (h : Fixed 32)
  | inline (bytes : List UInt8)
  deriving DecidableEq

section Program

variable (R : Crate) (keccak256 : List UInt8 → Fixed 32)

/-- The data of an item of a list. -/
def field (item : List UInt8) (i : Nat) : Option (List UInt8) := (R.at_ item i).bind R.data

def childRef (item : List UInt8) : Option NodeRef := do
  let bytes ← R.data item
  guard (bytes ≠ [])
  if h : bytes.length = 32 then return .hash ⟨bytes, h⟩ else return .inline bytes

/-- The node is the one its parent asked for. -/
def NodeRef.Matches : NodeRef → List UInt8 → Prop
  | .hash h, nodeBytes => keccak256 nodeBytes = h
  | .inline bytes, nodeBytes => nodeBytes = bytes

instance (expected : NodeRef) (nodeBytes : List UInt8) :
    Decidable (expected.Matches keccak256 nodeBytes) :=
  match expected with
  | .hash h => inferInstanceAs (Decidable (keccak256 nodeBytes = h))
  | .inline bytes => inferInstanceAs (Decidable (nodeBytes = bytes))

/-- How one round of the walk ends: with the value, or with what the next node must be. -/
inductive Visit where
  | found (value : List UInt8)
  | next (expected : NodeRef) (remaining : List Nibble)

/-- The loop body of `verify_trie_proof`. -/
def visit (expected : NodeRef) (remaining : List Nibble) (nodeBytes : List UInt8) :
    Option Visit := do
  guard (expected.Matches keccak256 nodeBytes)
  let itemCount ← R.itemCount nodeBytes
  if itemCount = 17 then
    match remaining with
    | [] => return .found (← field R nodeBytes 16)
    | idx :: remaining => return .next (← childRef R (← R.at_ nodeBytes idx)) remaining
  else if itemCount = 2 then
    let (isLeaf, path) ← decodeHexPrefix (← field R nodeBytes 0)
    guard (path <+: remaining)
    let remaining := remaining.drop path.length
    if isLeaf then
      guard (remaining = [])
      return .found (← field R nodeBytes 1)
    else
      return .next (← childRef R (← R.at_ nodeBytes 1)) remaining
  else none

/-- The loop of `verify_trie_proof`. It returns as soon as a round finds the value, so later nodes
are never read, and panics when the nodes run out first. -/
def walk : NodeRef → List Nibble → List (List UInt8) → Option (List UInt8)
  | _, _, [] => none
  | expected, remaining, nodeBytes :: rest =>
    (visit R keccak256 expected remaining nodeBytes).bind fun
      | .found value => some value
      | .next expected remaining => walk expected remaining rest

def verifyTrieProof (root : Fixed 32) (key : List UInt8) (proofNodes : List (List UInt8)) :
    Option (List UInt8) :=
  walk R keccak256 (.hash root) (nibblesOf key) proofNodes

/-! ## Receipts and logs -/

/-- The logs of a receipt with status 1. A first byte below 0xc0 is the type of a typed receipt. -/
def decodeReceiptLogs (receiptBytes : List UInt8) : Option (List (List UInt8)) := do
  let type ← receiptBytes[0]?
  let body := if type < 0xc0 then receiptBytes.drop 1 else receiptBytes
  let status := beBytesToU64 (← field R body 0)
  guard (status = 1)
  let logsRlp ← R.at_ body 3
  return R.iter logsRlp

/-- The three header fields the guest reads. -/
structure Header where
  receiptsRoot : Fixed 32
  blockNumber : UInt64
  blockTimestamp : UInt64

/-- Section 1 of `main`. -/
def decodeHeader (headerRlp : List UInt8) : Option Header := do
  guard ((← R.itemCount headerRlp) = 16)
  let receiptsRoot ← copyFromSlice 32 (← field R headerRlp 5)
  let blockNumber := beBytesToU64 (← field R headerRlp 8)
  let blockTimestamp := beBytesToU64 (← field R headerRlp 11)
  return ⟨receiptsRoot, blockNumber, blockTimestamp⟩

/-- The fields of the event. -/
structure IntentCreated where
  intentId : Fixed 32
  sender : Fixed 20
  amount : Fixed 32
  tokenAddress : Fixed 20
  destinationWallet : Fixed 32
  destinationChainId : UInt64
  expiry : UInt64
  slippageBps : UInt16
  deriving DecidableEq

/-- Sections 3 and 4 of `main`, on the selected log. -/
def decodeIntentCreated (expectedContract : Fixed 20) (log : List UInt8) :
    Option IntentCreated := do
  let logAddress ← field R log 0
  guard (logAddress = expectedContract.val)
  let topics ← (R.iter (← R.at_ log 1)).mapM R.data
  guard (3 ≤ topics.length)
  guard ((← topics[0]?) = (keccak256 intentCreatedSignature).val)
  let intentId ← copyFromSlice 32 (← topics[1]?)
  let sender ← copyFromSlice 20 (← slice (← topics[2]?) 12 32)
  let data ← field R log 2
  guard (data.length = 192)
  let amount ← copyFromSlice 32 (← slice data 0 32)
  let tokenAddress ← copyFromSlice 20 (← slice data 44 64)
  let destinationWallet ← copyFromSlice 32 (← slice data 64 96)
  let destinationChainId := beBytesToU64 (← slice data 96 128)
  let expiry := beBytesToU64 (← slice data 128 160)
  let slippageBps := (beBytesToU64 (← slice data 160 192)).toUInt16
  return ⟨intentId, sender, amount, tokenAddress, destinationWallet, destinationChainId, expiry,
    slippageBps⟩

def main (input : ProofInput) : Option ProofOutput := do
  let blockHash := keccak256 input.headerRlp
  let header ← decodeHeader R input.headerRlp
  let trieKey := R.encodeU64 input.txIndex
  let receiptBytes ←
    verifyTrieProof R keccak256 header.receiptsRoot trieKey input.receiptProofNodes
  let logs ← decodeReceiptLogs R receiptBytes
  let log ← logs[input.logIndex.toNat]?
  let event ← decodeIntentCreated R keccak256 input.expectedContract log
  guard (event.expiry > header.blockTimestamp)
  return {
    blockHash
    blockNumber := header.blockNumber
    blockTimestamp := header.blockTimestamp
    contract := input.expectedContract
    intentId := event.intentId
    sender := event.sender
    amount := event.amount
    tokenAddress := event.tokenAddress
    destinationWallet := event.destinationWallet
    destinationChainId := event.destinationChainId
    expiry := event.expiry
    slippageBps := event.slippageBps }

end Program

end Maat.Guest
