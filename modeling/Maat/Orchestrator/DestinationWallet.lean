import Maat.Lib.Bytes
import Maat.Lib.Hex
import Maat.Lib.Js

/-!
# Destination wallets

`base58CheckEncode` and `decodeDestinationWallet`, which `listener.ts` and `tron_listener.ts` each
define in the same words, and `hexToTronAddress` of `tron_listener.ts`. SHA-256 and the base58 form
of a Solana key are parameters.
-/

namespace Maat.Orchestrator.DestinationWallet

open Bytes Hex Js

def BASE58_ALPHABET : Str :=
  "123456789ABCDEFGHJKLMNPQRSTUVWXYZabcdefghijkmnopqrstuvwxyz".toList

def SOLANA_CHAIN_ID : Nat := 1399811149

/-- The chain id of TRON Nile as the frontend submits it. -/
def TRON_NILE_CHAIN_ID : Nat := 3448148188

section

variable (sha256 : List UInt8 → Fixed 32)

/-- The first four bytes of the second hash. -/
def checksum (buf : List UInt8) : List UInt8 := (sha256 (sha256 buf).val).val.take 4

/-- `while (value > 0n)`: digits go in front of the result. -/
def base58Digits (value : Nat) (result : Str) : Str :=
  if value = 0 then result
  else base58Digits (value / 58) (BASE58_ALPHABET.getD (value % 58) ' ' :: result)
termination_by value
decreasing_by omega

/-- `for (const byte of bytes)`: a `1` for each zero in front. -/
def base58Zeros : List UInt8 → Str → Str
  | [], result => result
  | byte :: bytes, result => if byte = 0 then base58Zeros bytes ('1' :: result) else result

def base58CheckEncode (hex : Str) : Option Str := do
  let buf := fromHex hex
  let bytes := buf ++ checksum sha256 buf
  let value ← bigInt (toHex bytes)
  return base58Zeros bytes (base58Digits value [])

/-- The address of 21 bytes at the front of a `bytes32`. -/
def tronPayload (destinationWallet : Str) : List UInt8 :=
  (fromHex (destinationWallet.drop 2)).take 21

/-- Fails where `new PublicKey(bytes)` throws. -/
def decodeDestinationWallet (toBase58 : List UInt8 → Option Str) (destinationWallet : Str)
    (destinationChainId : Nat) : Option Str :=
  let bytes := fromHex (destinationWallet.drop 2)
  if destinationChainId = SOLANA_CHAIN_ID then toBase58 bytes
  else if destinationChainId = TRON_NILE_CHAIN_ID then
    base58CheckEncode sha256 (toHex (tronPayload destinationWallet))
  else some ("0x".toList ++ toHex (bytes.drop 12))

/-- The address of `41` and 20 bytes, and anything else as it came. -/
def hexToTronAddress (hex : Str) : Str :=
  let h := if "0x".toList <+: hex then hex.drop 2 else hex
  let raw := "0x".toList ++ h
  if h.length ≠ 42 ∨ ¬ "41".toList <+: h then raw else (base58CheckEncode sha256 h).getD raw

end

end Maat.Orchestrator.DestinationWallet
