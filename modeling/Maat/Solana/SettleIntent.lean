import Maat.Lib.Run
import Maat.Solana.Program

/-!
# The settlement script

`orchestrator/settle_intent.js`, as far as it names accounts: it reads the nonce, submits its
intent to the account derived from it, reads the nonce again and settles the account derived from
the nonce before that. Whatever else succeeds on the chain meanwhile is a list of events.
-/

namespace Maat.Solana

open Checks

/-- `submit_intent` with the intent account that the transaction names. -/
def submitIntentTx (cluster : Cluster) (clock : Int) (intentPda hotWallet : Pubkey)
    (amount : UInt64) (destination : Pubkey) (expiry : Int) (bank : Bank) :
    Except ProgramError Bank :=
  (bank.program_state cluster).bind fun state =>
  (require (intentPda = cluster.address (.intent hotWallet state.intent_nonce))
    ProgramError.constraint).bind fun _ =>
  submit_intent cluster clock hotWallet amount destination expiry 50 421614 bank

/-- The account the script submitted its intent to, the one its `receive_settlement` names, and
the chain when it is named. -/
structure Settlement where
  intentPda : Pubkey
  settledIntentPda : Pubkey
  bank : Bank

/-- The script up to the signing of `receive_settlement`, when nothing in it fails. `before` is
what succeeds on the chain between the first read of the nonce and the script's own submission,
`between` what succeeds between that and the second read. -/
def runSettlement (cluster : Cluster) (hotWallet destination : Pubkey) (amount : UInt64)
    (nowSec clock : Int) (before between : List (Int × Instruction)) (bank : Bank) :
    Option Settlement := do
  let state ← (bank.program_state cluster).toOption
  let intentPda := cluster.address (.intent hotWallet state.intent_nonce)
  let bank ← Run.run (step cluster) bank before
  let bank ← (submitIntentTx cluster clock intentPda hotWallet amount destination (nowSec + 3600)
    bank).toOption
  let bank ← Run.run (step cluster) bank between
  let stateAfter ← (bank.program_state cluster).toOption
  -- a negative nonce does not fit the seed
  guard (0 < stateAfter.intent_nonce.toNat)
  let usedNonce := stateAfter.intent_nonce - 1
  return ⟨intentPda, cluster.address (.intent hotWallet usedNonce), bank⟩

end Maat.Solana
