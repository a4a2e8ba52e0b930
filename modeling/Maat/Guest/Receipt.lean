import Maat.Guest.Main

/-!
# What a receipts trie holds

Receipts and logs as data, with the bytes that stand for them in a block.
-/

namespace Maat.Guest

open Rlp Bytes

/-- What a contract emitted. -/
structure Log where
  address : Fixed 20
  topics : List (Fixed 32)
  data : List UInt8

def Log.toItem (log : Log) : Item :=
  .list [.bytes log.address.val, .list (log.topics.map fun t => .bytes t.val), .bytes log.data]

instance neZero_type : NeZero 0x80 := ⟨by decide⟩

/-- The outcome of a transaction. A legacy receipt has no type. -/
structure Receipt where
  type : Option (Fin 0x80)
  status : UInt64
  cumulativeGasUsed : Nat
  logsBloom : Fixed 256
  logs : List Log

def Receipt.toItem (r : Receipt) : Item :=
  .list [.bytes (minBytes r.status.toNat), .bytes (scalar r.cumulativeGasUsed),
    .bytes r.logsBloom.val, .list (r.logs.map Log.toItem)]

/-- A typed receipt has its type in front. -/
def Receipt.encode (r : Receipt) : List UInt8 :=
  match r.type with
  | none => r.toItem.encode
  | some type => UInt8.ofNat type.val :: r.toItem.encode

/-! ## The event -/

/-- A value of the ABI in its word, padded on the left. -/
def abiWord (bs : List UInt8) : List UInt8 := List.replicate (32 - bs.length) 0 ++ bs

namespace IntentCreated

/-- The two indexed parameters. -/
def indexed (event : IntentCreated) : List (List UInt8) :=
  [event.intentId.val, abiWord event.sender.val]

/-- The other parameters, one word for each. -/
def abiData (event : IntentCreated) : List UInt8 :=
  event.amount.val ++ abiWord event.tokenAddress.val ++ event.destinationWallet.val ++
    abiWord (beBytes 8 event.destinationChainId.toNat) ++ abiWord (beBytes 8 event.expiry.toNat) ++
    abiWord (beBytes 2 event.slippageBps.toNat)

/-- `emit IntentCreated(...)` of `submitIntent`, with the address that emits it. -/
def emit (keccak256 : List UInt8 → Fixed 32) (contract : Fixed 20) (event : IntentCreated) : Log where
  address := contract
  topics := [keccak256 intentCreatedSignature, event.intentId,
    ⟨abiWord event.sender.val, by simp [abiWord, event.sender.property]⟩]
  data := event.abiData

end IntentCreated

/-- The path of a transaction's receipt. -/
def trieKey (txIndex : UInt64) : List Nibble :=
  nibblesOf (Item.bytes (minBytes txIndex.toNat)).encode

end Maat.Guest
