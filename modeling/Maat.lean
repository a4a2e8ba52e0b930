import Maat.Lib.Run
import Maat.Laws.IntentManager.EscapeHatch
import Maat.Lib.Rlp
import Maat.Guest.Main
import Maat.Guest.Receipt
import Maat.Laws.Guest.Binding
import Maat.Laws.IntentManager.Volume
import Maat.Laws.Orchestrator.SolverRouting
import Maat.Laws.Solana.Escrow
import Maat.Laws.Solana.SettleIntent
import Maat.Laws.Solana.Settlement
import Maat.Laws.Orchestrator.ChainTruth
import Maat.Laws.Orchestrator.Collateral
import Maat.Laws.Orchestrator.Deadline
import Maat.Laws.Orchestrator.Overlap
import Maat.Laws.Orchestrator.Slashing
import Maat.Laws.Orchestrator.Dispatch
import Maat.Laws.Orchestrator.Handshake
import Maat.Laws.Orchestrator.TrackRecord
import Maat.Laws.Orchestrator.TronListener
import Maat.Laws.Orchestrator.ConfirmRetry
import Maat.Laws.Orchestrator.Payout
import Maat.Laws.Orchestrator.Isolation
import Maat.Laws.Orchestrator.Routed
import Maat.Laws.Solana.Windows
import Maat.Laws.Orchestrator.Tiers
import Maat.Laws.Orchestrator.SolverKeys
import Maat.Laws.Orchestrator.Redact
import Maat.Laws.Orchestrator.Mutex
import Maat.Laws.Guest.Event
import Maat.Laws.Orchestrator.Delivery
import Maat.Laws.Orchestrator.Reserved
import Maat.Laws.Orchestrator.Mirror
import Maat.Laws.Guest.Embedded
import Maat.Laws.Orchestrator.DestinationWallet
import Maat.Laws.Orchestrator.LedgerFile
import Maat.Laws.Prove.Agreement
import Maat.Laws.Orchestrator.Swap
import Maat.Laws.Orchestrator.OnChain
import Maat.Laws.Orchestrator.Proven
import Maat.Laws.Prove.Tamper
import Maat.Laws.Orchestrator.IntentFiles
import Maat.Laws.Orchestrator.Terms
import Maat.Laws.Orchestrator.RpcRotation
import Maat.Laws.Orchestrator.SettledLedger
