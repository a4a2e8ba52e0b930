import Maat.Solana.SettleIntent
import Maat.Orchestrator.Sequence

/-!
# From wei to lamports

`weiToLamports` of `orchestrator/settle_intent.js`, the rest of its `runSettlement` after the
signing, and the settlement sequence with a payout behind each success that it is told of.
-/

namespace Maat.Orchestrator

open Solana Settlement

/-- One lamport in wei. -/
def WEI_PER_LAMPORT : Nat := 1000000000

def weiToLamports (wei : Nat) : Nat := wei / WEI_PER_LAMPORT

/-- The `u64` argument of an instruction; encoding it throws where it does not fit. -/
def toU64? (n : Nat) : Option UInt64 := if n < 2 ^ 64 then some (UInt64.ofNat n) else none

/-- What a run of the script finds: the chain, its clocks, and what succeeds on it meanwhile. -/
structure Surroundings where
  bank : Bank
  nowSec : Int
  clock : Int
  /-- before its submission, between that and the second read of the nonce, and until its
  settlement lands -/
  before : List (Int × Instruction)
  between : List (Int × Instruction)
  landing : List (Int × Instruction)
  settleClock : Int

/-- The intent account that was settled, and the chain before and after. -/
structure Delivery where
  intent : Pubkey
  reached : Bank
  landed : Bank

/-- A run of the script that ends with exit code 0, on a Solana destination. -/
def settleScript (cluster : Cluster) (hotWallet destination : Pubkey) (proofAmountWei : Nat)
    (zkProofHash : Fin (2 ^ 256)) (s : Surroundings) : Option Delivery := do
  let SETTLEMENT_AMOUNT ← toU64? (weiToLamports proofAmountWei)
  let settlement ← runSettlement cluster hotWallet destination SETTLEMENT_AMOUNT s.nowSec s.clock
    s.before s.between s.bank
  let reached ← Run.run (Solana.step cluster) settlement.bank s.landing
  let landed ← (receive_settlement cluster s.settleClock settlement.settledIntentPda
    (cluster.address (.cb 421614)) hotWallet destination hotWallet zkProofHash SETTLEMENT_AMOUNT
    reached).toOption
  return ⟨settlement.settledIntentPda, reached, landed⟩

/-- A payout that `runSolanaPayout` reports, now or from an earlier attempt. -/
structure SolanaPayout (cluster : Cluster) (hotWallet destination : Pubkey) (amountWei : Nat) where
  zkProofHash : Fin (2 ^ 256)
  surroundings : Surroundings
  delivery : Delivery
  ran : settleScript cluster hotWallet destination amountWei zkProofHash surroundings =
    some delivery

/-- A reply to the settlement sequence, with the payout where it says that there was one. -/
structure PaidReply (cluster : Cluster) (hotWallet destination : Pubkey) (amountWei : Nat) where
  reply : Reply
  payout : reply.answer = .payout true → SolanaPayout cluster hotWallet destination amountWei

end Maat.Orchestrator
