import Maat.Orchestrator.System

/-!
# What a step can do

`resume`, the loops and `step` read back case by case. Every invariant of the system is proved
from these readings.
-/

namespace Maat.Orchestrator

open Js

variable {ι : Type} [DecidableEq ι] {P : Params ι} {w w' : World ι}

/-! ## Loops -/

/-- The loops of the boot flow. -/
def Next.isBoot : Next ι → Bool
  | .bootRecon _ | .bootMid _ | .bootPosted _ => true
  | _ => false

/-- The entries before the first loop of `reconcileArbitrumLedger`. -/
def midEntries (w : World ι) : Next ι → List (ι × ArbitrumLedgerEntry)
  | .bootRecon [] => w.arb.getMidSequenceEntries
  | .bootMid rest => rest
  | _ => []

/-- Where a loop comes to wait. -/
inductive GoesOn (P : Params ι) (w : World ι) : Next ι → Stop ι → Prop where
  | due {passed rest : List (ι × ArbitrumLedgerEntry)} {i : ι} {entry : ArbitrumLedgerEntry}
      {point : Point ι} (hdue : (entry.expiry.any fun expiry => decide (expiry ≤ w.now)) = true)
      (hpoint : dueEntry w i = some point) :
      GoesOn P w (.tick (passed ++ (i, entry) :: rest)) ⟨point, .tick rest, none⟩
  | settling {i : ι} {sig : Str} {rest : List (ι × Str)} {newly : List ι} :
      GoesOn P w (.recon ((i, sig) :: rest) newly)
        ⟨.reconciling i sig, .recon rest newly, none⟩
  | newly {ids : List ι} : GoesOn P w (.recon [] ids) ⟨.newlySettled ids, .stop, none⟩
  | bootSettling {i : ι} {sig : Str} {rest : List (ι × Str)} :
      GoesOn P w (.bootRecon ((i, sig) :: rest)) ⟨.reconciling i sig, .bootRecon rest, none⟩
  | midReceipt {next : Next ι} {i : ι} {entry : ArbitrumLedgerEntry} {hash : Str}
      {rest : List (ι × ArbitrumLedgerEntry)} (hentries : midEntries w next = (i, entry) :: rest)
      (hhash : stageHash entry = some hash) :
      GoesOn P w next ⟨.bootReceipt i entry hash, .bootMid rest, none⟩
  | midRead {next : Next ι} {i : ι} {entry : ArbitrumLedgerEntry}
      {rest : List (ι × ArbitrumLedgerEntry)} (hentries : midEntries w next = (i, entry) :: rest)
      (hhash : stageHash entry = none) :
      GoesOn P w next ⟨.bootRead i entry none, .bootMid rest, none⟩
  | posted {next : Next ι} {i : ι} {rest : List ι} {point : Point ι} (hboot : next.isBoot = true)
      (hpoint : resumeCollateralPostedIntent P w i = some point) :
      GoesOn P w next ⟨point, .bootPosted rest, some w.now⟩

theorem postedLoop_cases {next : Next ι} (hboot : next.isBoot = true) {ids : List ι}
    {stop : Stop ι} (h : postedLoop P w ids = some stop) : GoesOn P w next stop := by
  induction ids with
  | nil => cases h
  | cons i rest ih =>
    unfold postedLoop at h
    split at h
    · next point hpoint =>
      cases h
      exact .posted hboot hpoint
    · exact ih h

theorem midLoop_cases {next : Next ι} (hboot : next.isBoot = true) {stop : Stop ι}
    (h : midLoop P w (midEntries w next) = some stop) : GoesOn P w next stop := by
  cases hentries : midEntries w next with
  | nil =>
    rw [hentries] at h
    exact postedLoop_cases hboot h
  | cons e rest =>
    obtain ⟨i, entry⟩ := e
    rw [hentries] at h
    simp only [midLoop] at h
    split at h
    · next hash hhash =>
      cases h
      exact .midReceipt hentries hhash
    · next hhash =>
      cases h
      exact .midRead hentries hhash

theorem tickLoop_cases {entries : List (ι × ArbitrumLedgerEntry)} {stop : Stop ι}
    (h : tickLoop w entries = some stop) : GoesOn P w (.tick entries) stop := by
  suffices ∀ passed, GoesOn P w (.tick (passed ++ entries)) stop from this []
  induction entries with
  | nil => cases h
  | cons e rest ih =>
    intro passed
    obtain ⟨i, entry⟩ := e
    have later : tickLoop w rest = some stop →
        GoesOn P w (.tick (passed ++ (i, entry) :: rest)) stop := by
      intro h
      have := ih h (passed ++ [(i, entry)])
      rwa [List.append_assoc] at this
    unfold tickLoop at h
    split at h
    · next hdue =>
      split at h
      · next point hpoint =>
        cases h
        exact .due hdue hpoint
      · exact later h
    · exact later h

theorem goOn_cases {next : Next ι} {stop : Stop ι} (h : goOn P w next = some stop) :
    GoesOn P w next stop := by
  cases next with
  | stop => cases h
  | tick rest => exact tickLoop_cases h
  | recon rest newly =>
    unfold goOn reconLoop at h
    cases rest with
    | nil =>
      dsimp only at h
      split at h
      · cases h
      · cases h
        exact .newly
    | cons e rest =>
      cases h
      exact .settling
  | bootRecon rest =>
    cases rest with
    | nil => exact midLoop_cases rfl h
    | cons e rest =>
      cases h
      exact .bootSettling
  | bootMid rest => exact midLoop_cases rfl h
  | bootPosted rest => exact postedLoop_cases rfl h

theorem throws_cases {next : Next ι} {stop : Stop ι} (h : throws P w next = some stop) :
    GoesOn P w next stop := by
  cases next with
  | bootPosted rest => exact postedLoop_cases rfl h
  | _ => cases h

/-! ## Between two awaits -/

/-- `txDone`, case by case. -/
inductive Finishes (P : Params ι) (w : World ι) (next : Next ι) (i : ι) (hash : Option Str) :
    TxKind → Bool → World ι → Option (Stop ι) → Prop where
  | posted {solver : Str} : Finishes P w next i hash (.post solver) true
      (w.setStage i .collateral_posted fun e => { e with
        collateralTxHash := hash, expiry := some (P.expiry i) })
      (some ⟨.verifying i solver 1, next, none⟩)
  | notPosted {solver : Str} {w' : World ι}
      (hw : w' = w.setStage i .collateral_failed fun e => { e with
        collateralTxHash := hash, expiry := some (P.expiry i) }) :
      Finishes P w next i hash (.post solver) false w' (goOn P w' next)
  | confirmed {w' : World ι}
      (hw : w' = w.setStage i .confirmed fun e => { e with
        confirmTxHash := hash, expiry := some (P.expiry i) }) :
      Finishes P w next i hash .confirm true w' (goOn P w' next)
  | confirmsLate : Finishes P w next i hash .confirm false w (goOn P w next)
  | confirmsAgain :
      Finishes P w next i hash .confirm false w (some ⟨.confirmRead i, next, none⟩)
  | slashed {w' : World ι}
      (hw : w' = w.setStage i .slashed fun e => { e with slashTxHash := hash }) :
      Finishes P w next i hash .slash true w' (goOn P w' next)
  | notSlashed : Finishes P w next i hash .slash false w (goOn P w next)

theorem txDone_cases {next : Next ι} {i : ι} {kind : TxKind} {ok : Bool} {hash : Option Str}
    {stop : Option (Stop ι)} (h : txDone P w next i kind ok hash = (w', stop)) :
    Finishes P w next i hash kind ok w' stop := by
  unfold txDone at h
  split at h
  · cases h
    exact .posted
  · cases h
    exact .notPosted rfl
  · cases h
    exact .confirmed rfl
  · split at h
    · cases h
      exact .confirmsLate
    · cases h
      exact .confirmsAgain
  · cases h
    exact .slashed rfl
  · cases h
    exact .notSlashed

/-- The awaits whose rejection is an exception of the flow. -/
def Point.throws : Point ι → Bool
  | .selecting _ | .balance _ _ | .verifying _ _ _ | .confirmRead _ | .checking _ _ => true
  | _ => false

/-- `resume`, one constructor for each way through the code. -/
inductive Resumes (P : Params ι) (w : World ι) (next : Next ι) :
    Point ι → Answer → World ι → Option (Stop ι) → Prop where
  | unrouted {i : ι} : Resumes P w next (.selecting i) (.selected none) (refuse P w i)
      (goOn P (refuse P w i) next)
  | routed {i : ι} {solver : Str} (hstart : w.startable i = true) :
      Resumes P w next (.selecting i) (.selected (some solver)) w
        (some ⟨.balance i solver, next, none⟩)
  | inProgress {i : ι} {solver : Str} :
      Resumes P w next (.selecting i) (.selected (some solver)) w (goOn P w next)
  | gatePasses {i : ι} {solver : Str} {wei : Nat} (hgate : finalGate P w i wei = []) :
      Resumes P w next (.balance i solver) (.balance wei) w
        (some ⟨.signing i (.post solver), next, some w.now⟩)
  | gateRefuses {i : ι} {solver : Str} {wei : Nat} :
      Resumes P w next (.balance i solver) (.balance wei) (refuse P w i)
        (goOn P (refuse P w i) next)
  | signed {i : ι} {kind : TxKind} {hash : Str} (hfresh : w.txs hash = none) :
      Resumes P w next (.signing i kind) (.signed hash)
        (onSigned P (w.sign i kind hash) i hash kind) (some ⟨.outcome i kind hash, next, none⟩)
  | unsigned {i : ι} {kind : TxKind} {w' : World ι} {stop : Option (Stop ι)}
      (hdone : txDone P w next i kind false none = (w', stop)) :
      Resumes P w next (.signing i kind) .error w' stop
  | receipt {i : ι} {kind : TxKind} {hash : Str} {ok : Bool} {w' : World ι}
      {stop : Option (Stop ι)} (hdone : txDone P w next i kind ok (some hash) = (w', stop)) :
      Resumes P w next (.outcome i kind hash) (.receipt ok) w' stop
  | sendThrew {i : ι} {kind : TxKind} {hash : Str} {w' : World ι} {stop : Option (Stop ι)}
      (hdone : txDone P (w.txThrew hash) next i kind false none = (w', stop)) :
      Resumes P w next (.outcome i kind hash) .error w' stop
  | readAgain {i : ι} {solver : Str} {attempt : Nat} {r : OnChainIntent} :
      Resumes P w next (.verifying i solver attempt) (.record r) w
        (some ⟨.verifying i solver (attempt + 1), next, none⟩)
  | mismatch {i : ι} {solver : Str} {attempt : Nat} {r : OnChainIntent} :
      Resumes P w next (.verifying i solver attempt) (.record r) w (goOn P w next)
  | verified {i : ι} {solver : Str} {attempt : Nat} {r : OnChainIntent} :
      Resumes P w next (.verifying i solver attempt) (.record r) (runSolanaPayout w i).1
        (some ⟨(runSolanaPayout w i).2, next, none⟩)
  | paid {i : ι} {c : Nat} : Resumes P w next (.paying i c) (.closed true)
      ((w.removeChild c).markSettled i) (some ⟨.payoutReturned i true, next, none⟩)
  | unpaid {i : ι} {c : Nat} : Resumes P w next (.paying i c) (.closed false)
      (w.removeChild c) (some ⟨.payoutReturned i false, next, none⟩)
  | payoutOk {i : ι} : Resumes P w next (.payoutReturned i true) .ready w
      (some ⟨.confirmRead i, next, none⟩)
  | retries {i : ι} (hnow : w.now < P.expiry i - P.gate.deliveryMarginSec) :
      Resumes P w next (.payoutReturned i false) .ready w
        (some ⟨.retrySleep i, next, some w.now⟩)
  | givesUp {i : ι} : Resumes P w next (.payoutReturned i false) .ready
      (w.setStage i .awaiting_expiry_slash fun e => { e with expiry := some (P.expiry i) })
      (goOn P
        (w.setStage i .awaiting_expiry_slash fun e => { e with expiry := some (P.expiry i) }) next)
  | payoutAgain {i : ι} : Resumes P w next (.retrySleep i) .ready (runSolanaPayout w i).1
      (some ⟨(runSolanaPayout w i).2, next, none⟩)
  | alreadySettled {i : ι} {r : OnChainIntent} (hstatus : r.status = INTENT_STATUS_SETTLED) :
      Resumes P w next (.confirmRead i) (.record r)
        (w.setStage i .confirmed fun e => { e with expiry := some (P.expiry i) })
        (goOn P (w.setStage i .confirmed fun e => { e with expiry := some (P.expiry i) }) next)
  | closedOtherwise {i : ι} {r : OnChainIntent} :
      Resumes P w next (.confirmRead i) (.record r) w (goOn P w next)
  | confirms {i : ι} {r : OnChainIntent} :
      Resumes P w next (.confirmRead i) (.record r) w (some ⟨.signing i .confirm, next, none⟩)
  | payoutLanded {i : ι} {sig : Str} : Resumes P w next (.checking i sig) (.landed true)
      (w.markSettled i) (some ⟨.confirmRead i, next, none⟩)
  | landedNoProof {i : ι} {sig : Str} : Resumes P w next (.checking i sig) (.landed true)
      (w.markSettled i) (goOn P (w.markSettled i) next)
  | slashes {i : ι} {sig : Str} : Resumes P w next (.checking i sig) (.landed false) w
      (some ⟨.signing i .slash, next, none⟩)
  | reconciled {i : ι} {sig : Str} {rest : List (ι × Str)} {newly : List ι}
      (hnext : next = .recon rest newly) :
      Resumes P w next (.reconciling i sig) (.landed true) (w.markSettled i)
        (goOn P (w.markSettled i) (.recon rest (newly ++ [i])))
  | bootReconciled {i : ι} {sig : Str} :
      Resumes P w next (.reconciling i sig) (.landed true) (w.markSettled i)
        (goOn P (w.markSettled i) next)
  | notReconciled {i : ι} {sig : Str} {a : Answer} :
      Resumes P w next (.reconciling i sig) a w (goOn P w next)
  | receiptRead {i : ι} {entry : ArbitrumLedgerEntry} {hash : Str} {ok : Bool} :
      Resumes P w next (.bootReceipt i entry hash) (.receipt ok) w
        (some ⟨.bootRead i entry (some ok), next, none⟩)
  | noReceipt {i : ι} {entry : ArbitrumLedgerEntry} {hash : Str} :
      Resumes P w next (.bootReceipt i entry hash) .error w
        (some ⟨.bootRead i entry none, next, none⟩)
  | resolved {i : ι} {entry : ArbitrumLedgerEntry} {found : Option Bool} {r : OnChainIntent} :
      Resumes P w next (.bootRead i entry found) (.record r) (bootResolve w i entry found r)
        (goOn P (bootResolve w i entry found r) next)
  | threw {point : Point ι} (hpoint : point.throws = true) :
      Resumes P w next point .error w (throws P w next)

theorem resume_cases {next : Next ι} {point : Point ι} {a : Answer} {stop : Option (Stop ι)}
    (h : resume P w next point a = some (w', stop)) : Resumes P w next point a w' stop := by
  unfold resume at h
  split at h
  -- `selecting`
  · cases h
    exact .unrouted
  · split at h
    · next hstart =>
      cases h
      exact .routed hstart
    · cases h
      exact .inProgress
  -- `balance`
  · split at h
    · next hgate =>
      cases h
      exact .gatePasses (List.isEmpty_iff.mp hgate)
    · cases h
      exact .gateRefuses
  -- `signing`
  · split at h
    · next hfresh =>
      cases h
      exact .signed hfresh
    · cases h
  · exact .unsigned (Option.some.inj h)
  -- `outcome`
  · exact .receipt (Option.some.inj h)
  · exact .sendThrew (Option.some.inj h)
  -- `verifying`
  · split at h
    · cases h
      exact .readAgain
    · split at h
      · cases h
        exact .mismatch
      · cases h
        exact .verified
  -- `paying`
  · cases h
    exact .paid
  · cases h
    exact .unpaid
  -- `payoutReturned`
  · cases h
    exact .payoutOk
  · split at h
    · next hnow =>
      cases h
      exact .retries hnow
    · cases h
      exact .givesUp
  -- `retrySleep`
  · cases h
    exact .payoutAgain
  -- `confirmRead`
  · split at h
    · next hstatus =>
      cases h
      exact .alreadySettled hstatus
    · split at h
      · cases h
        exact .closedOtherwise
      · cases h
        exact .confirms
  -- `checking`
  · dsimp only at h
    split at h
    · cases h
      exact .payoutLanded
    · cases h
      exact .landedNoProof
  · cases h
    exact .slashes
  -- `reconciling`
  · dsimp only at h
    split at h
    · cases h
      exact .reconciled rfl
    · cases h
      exact .bootReconciled
  · cases h
    exact .notReconciled
  · cases h
    exact .notReconciled
  -- `bootReceipt` and `bootRead`
  · cases h
    exact .receiptRead
  · cases h
    exact .noReceipt
  · cases h
    exact .resolved
  -- the exceptions
  all_goals cases h
  all_goals exact .threw rfl

/-! ## What the ledger's writers leave alone -/

/-- Nothing but the Arbitrum ledger may differ. -/
structure OnlyArb (w w' : World ι) : Prop where
  now : w'.now = w.now
  settled : w'.settled = w.settled
  hasProof : w'.hasProof = w.hasProof
  txs : w'.txs = w.txs
  payouts : w'.payouts = w.payouts
  children : w'.children = w.children
  nextChild : w'.nextChild = w.nextChild
  contract : w'.contract = w.contract
  attempts : w'.attempts = w.attempts

omit [DecidableEq ι] in
theorem OnlyArb.refl (w : World ι) : OnlyArb w w :=
  ⟨rfl, rfl, rfl, rfl, rfl, rfl, rfl, rfl, rfl⟩

theorem onlyArb_setStage (w : World ι) (i : ι) (stage : ArbitrumStage)
    (patch : ArbitrumLedgerEntry → ArbitrumLedgerEntry) : OnlyArb w (w.setStage i stage patch) :=
  ⟨rfl, rfl, rfl, rfl, rfl, rfl, rfl, rfl, rfl⟩

theorem onlyArb_onSigned (w : World ι) (i : ι) (hash : Str) (kind : TxKind) :
    OnlyArb w (onSigned P w i hash kind) := by
  cases kind with
  | post solver => exact onlyArb_setStage w i _ _
  | confirm => exact onlyArb_setStage w i _ _
  | slash => exact onlyArb_setStage w i _ _

theorem Finishes.onlyArb {next : Next ι} {i : ι} {hash : Option Str} {kind : TxKind} {ok : Bool}
    {stop : Option (Stop ι)} (h : Finishes P w next i hash kind ok w' stop) : OnlyArb w w' := by
  cases h with
  | posted => exact onlyArb_setStage w i _ _
  | notPosted hw => exact hw ▸ onlyArb_setStage w i _ _
  | confirmed hw => exact hw ▸ onlyArb_setStage w i _ _
  | confirmsLate => exact .refl w
  | confirmsAgain => exact .refl w
  | slashed hw => exact hw ▸ onlyArb_setStage w i _ _
  | notSlashed => exact .refl w

theorem onlyArb_bootResolve (w : World ι) (i : ι) (entry : ArbitrumLedgerEntry)
    (found : Option Bool) (r : OnChainIntent) : OnlyArb w (bootResolve w i entry found r) := by
  unfold bootResolve
  split
  · exact onlyArb_setStage w i _ _
  · split
    · exact onlyArb_setStage w i _ _
    · split
      · exact .refl w
      · split
        · split
          · exact onlyArb_setStage w i _ _
          · exact onlyArb_setStage w i _ _
          · exact .refl w
        · exact .refl w

/-! ## The system -/

/-- A flow that comes to wait. -/
def Stop.flow (stop : Stop ι) (origin : Origin) (checkedAt : Int) : Flow ι :=
  ⟨origin, stop.point, stop.next, stop.checkedAt.getD checkedAt⟩

/-- The events that no flow takes part in. -/
inductive Around (P : Params ι) (w : World ι) : Event ι → World ι → Prop where
  | time {t : Int} (ht : w.now ≤ t) : Around P w (.time t) { w with now := t }
  | childSigns {c : Nat} {i : ι} {sig : Str} {go told : Bool}
      (hchild : w.children c = some ⟨i, none, told, true⟩) (hfresh : w.payouts sig = none) :
      Around P w (.childSigns c sig go) { w with
        children := Function.update w.children c (some ⟨i, some sig, go, true⟩)
        payouts := Function.update w.payouts sig (some ⟨i, false, false⟩)
        settled := w.settled.markSettling i sig }
  | childSends {c : Nat} {i : ι} {sig : Str} {attached : Bool}
      (hchild : w.children c = some ⟨i, some sig, true, attached⟩) :
      Around P w (.childSends c) { w with
        payouts := Function.update w.payouts sig
          ((w.payouts sig).map fun p => { p with sent := true }) }
  | lands {i : ι} {sig : Str} {landed : Bool} (hpayout : w.payouts sig = some ⟨i, true, landed⟩) :
      Around P w (.lands sig) { w with
        payouts := Function.update w.payouts sig (some ⟨i, true, true⟩) }
  | included {i : ι} {kind : TxKind} {hash : Str} {timestamp : Int} {threw : Bool}
      {intent : OnChainIntent} (htx : w.txs hash = some ⟨i, kind, .sent, threw⟩)
      (hcall : (kind.action P i).apply (P.expiry i) timestamp (w.contract i).current =
        some intent) :
      Around P w (.included hash timestamp true) { w with
        txs := Function.update w.txs hash (some ⟨i, kind, .success, threw⟩)
        contract := Function.update w.contract i
          ⟨intent, (w.contract i).current :: (w.contract i).past⟩ }
  | reverted {i : ι} {kind : TxKind} {hash : Str} {timestamp : Int} {threw : Bool}
      (htx : w.txs hash = some ⟨i, kind, .sent, threw⟩) :
      Around P w (.included hash timestamp false) { w with
        txs := Function.update w.txs hash (some ⟨i, kind, .reverted, threw⟩) }
  | others {i : ι} {timestamp : Int} {action : ChainAction} {intent : OnChainIntent}
      (hcall : action.apply (P.expiry i) timestamp (w.contract i).current = some intent) :
      Around P w (.others i timestamp action) { w with
        contract := Function.update w.contract i
          ⟨intent, (w.contract i).current :: (w.contract i).past⟩ }
  | proof {i : ι} {present : Bool} : Around P w (.proof i present)
      { w with hasProof := Function.update w.hasProof i present }

/-- `step`, one constructor for each kind of event. -/
inductive Steps (P : Params ι) (bound : Nat) (s : Sys ι) : Event ι → Sys ι → Prop where
  | around {e : Event ι} {w : World ι} (h : Around P s.world e w) :
      Steps P bound s e (s.setWorld w)
  | crash : Steps P bound s .crash s.crash
  | died {k : Nat} : Steps P bound s (.resume k .error) s.crash
  | boot {k : Nat} (hphase : s.phase = .down) (hk : k < bound) :
      Steps P bound s (.boot k) ({ s with phase := .booting }.put k .boot s.world.now
        (goOn P s.world (.bootRecon s.world.settled.getSettlingEntries)))
  | job {k : Nat} {i : ι} (hphase : s.phase = .running) (hfree : s.flows k = none)
      (hk : k < bound) (hnoJob : s.noJob bound = true) (hpasses : jobPasses P s.world i = true) :
      Steps P bound s (.startJob k i)
        (s.put k .job s.world.now (some ⟨.selecting i, .stop, none⟩))
  | tick {k : Nat} (hphase : s.phase = .running) (hfree : s.flows k = none) (hk : k < bound) :
      Steps P bound s (.startTick k) (s.put k .tick s.world.now
        (goOn P s.world (.tick s.world.arb.getAwaitingExpirySlashEntries)))
  | recon {k : Nat} (hphase : s.phase = .running) (hfree : s.flows k = none) (hk : k < bound) :
      Steps P bound s (.startRecon k) (s.put k .recon s.world.now
        (goOn P s.world (.recon s.world.settled.getSettlingEntries [])))
  | resumeNext {k l : Nat} {origin : Origin} {i : ι} {ids : List ι} {next : Next ι}
      {checkedAt : Int} {left stop : Option (Stop ι)}
      (hflow : s.flows k = some ⟨origin, .newlySettled (i :: ids), next, checkedAt⟩)
      (hne : k ≠ l) (hfree : s.flows l = none) (hl : l < bound)
      (hleft : left = if ids.isEmpty then none else some ⟨.newlySettled ids, next, none⟩)
      (hstop : stop = (resumeCollateralPostedIntent P s.world i).map fun point =>
        ⟨point, .stop, some s.world.now⟩) :
      Steps P bound s (.resumeNext k l)
        ((s.put k origin checkedAt left).put l .resume s.world.now stop)
  | resume {k : Nat} {f : Flow ι} {a : Answer} {w : World ι} {stop : Option (Stop ι)}
      (hflow : s.flows k = some f) (htrue : truthful s.world f.point a = true)
      (hresumes : Resumes P s.world f.next f.point a w stop) :
      Steps P bound s (.resume k a) ((s.setWorld w).put k f.origin f.checkedAt stop)

theorem step_cases {bound : Nat} {s s' : Sys ι} {e : Event ι}
    (h : step P bound s e = some s') : Steps P bound s e s' := by
  unfold step at h
  split at h
  · split at h
    · next ht =>
      cases h
      exact .around (.time ht)
    · cases h
  · cases h
    exact .crash
  · split at h
    · next hboot =>
      cases h
      exact .boot hboot.1 hboot.2
    · cases h
  · split at h
    · next hjob =>
      cases h
      exact .job hjob.1 hjob.2.1 hjob.2.2.1 hjob.2.2.2.1 hjob.2.2.2.2
    · cases h
  · split at h
    · next htick =>
      cases h
      exact .tick htick.1 htick.2.1 htick.2.2
    · cases h
  · split at h
    · next hrecon =>
      cases h
      exact .recon hrecon.1 hrecon.2.1 hrecon.2.2
    · cases h
  · split at h
    · next hflow =>
      split at h
      · next hl =>
        cases h
        exact .resumeNext hflow hl.1 hl.2.1 hl.2.2 rfl rfl
      · cases h
    · cases h
  · split at h
    · next f hflow =>
      split at h
      · next htrue =>
        split at h
        · cases h
          exact .died
        · obtain ⟨⟨w, stop⟩, hresume, hs⟩ := Option.map_eq_some_iff.mp h
          cases hs
          exact .resume hflow htrue (resume_cases hresume)
      · cases h
    · cases h
  · split at h
    · next hchild =>
      split at h
      · next hfresh =>
        cases h
        exact .around (.childSigns hchild hfresh)
      · cases h
    · cases h
  · split at h
    · next hchild =>
      cases h
      exact .around (.childSends hchild)
    · cases h
  · split at h
    · next hpayout =>
      cases h
      exact .around (.lands hpayout)
    · cases h
  · split at h
    · next htx =>
      split at h
      · next hok =>
        obtain ⟨intent, hcall, hs⟩ := Option.map_eq_some_iff.mp h
        cases hs
        cases hok
        exact .around (.included htx hcall)
      · next hok =>
        cases h
        rw [Bool.not_eq_true] at hok
        cases hok
        exact .around (.reverted htx)
    · cases h
  · obtain ⟨intent, hcall, hs⟩ := Option.map_eq_some_iff.mp h
    cases hs
    exact .around (.others hcall)
  · cases h
    exact .around .proof

/-! ## Flows -/

section Put

variable {s : Sys ι} {k l : Nat} {origin : Origin} {checkedAt : Int} {stop : Option (Stop ι)}
  {f : Flow ι}

omit [DecidableEq ι] in
@[simp] theorem put_world : (s.put k origin checkedAt stop).world = s.world := rfl

omit [DecidableEq ι] in
/-- A flow after `put` is the one that was put, or was there before. -/
theorem flow_of_put (h : (s.put k origin checkedAt stop).flows l = some f) :
    (l = k ∧ ∃ st, stop = some st ∧ f = st.flow origin checkedAt) ∨
      (l ≠ k ∧ s.flows l = some f) := by
  change Function.update s.flows k _ l = some f at h
  by_cases hl : l = k
  · subst hl
    rw [Function.update_self] at h
    obtain ⟨st, hst, rfl⟩ := Option.map_eq_some_iff.mp h
    exact Or.inl ⟨rfl, st, hst, rfl⟩
  · rw [Function.update_of_ne hl] at h
    exact Or.inr ⟨hl, h⟩

end Put

/-! ## Properties of the world and of each flow by itself -/

/-- The loops that a boot, a poll and a reconciliation begin with. -/
inductive Begins (w : World ι) : Origin → Next ι → Prop where
  | boot : Begins w .boot (.bootRecon w.settled.getSettlingEntries)
  | tick : Begins w .tick (.tick w.arb.getAwaitingExpirySlashEntries)
  | recon : Begins w .recon (.recon w.settled.getSettlingEntries [])

def Each (W : World ι → Prop) (F : World ι → Flow ι → Prop) (s : Sys ι) : Prop :=
  W s.world ∧ ∀ k f, s.flows k = some f → F s.world f

/-- `Each W F` is kept by the steps that meet `ok`: what is to be shown of each of them. -/
structure KeptBy (P : Params ι) (ok : Sys ι → Event ι → Prop) (W : World ι → Prop)
    (F : World ι → Flow ι → Prop) : Prop where
  around : ∀ {s : Sys ι} {e : Event ι} {w : World ι}, ok s e → Each W F s →
    Around P s.world e w → W w ∧ ∀ f, F s.world f → F w f
  crash : ∀ {s : Sys ι}, W s.world → W s.crash.world
  begins : ∀ {w : World ι} {origin : Origin} {next : Next ι} {stop : Stop ι}, W w →
    Begins w origin next → GoesOn P w next stop → F w (stop.flow origin w.now)
  job : ∀ {w : World ι} {i : ι}, W w → jobPasses P w i = true →
    F w ⟨.job, .selecting i, .stop, w.now⟩
  shorter : ∀ {w : World ι} {origin : Origin} {i : ι} {ids : List ι} {next : Next ι}
    {checkedAt : Int}, W w → F w ⟨origin, .newlySettled (i :: ids), next, checkedAt⟩ →
    F w ⟨origin, .newlySettled ids, next, checkedAt⟩
  resumed : ∀ {w : World ι} {origin : Origin} {i : ι} {ids : List ι} {next : Next ι}
    {checkedAt : Int} {point : Point ι}, W w →
    F w ⟨origin, .newlySettled (i :: ids), next, checkedAt⟩ →
    resumeCollateralPostedIntent P w i = some point → F w ⟨.resume, point, .stop, w.now⟩
  resume : ∀ {s : Sys ι} {k : Nat} {f : Flow ι} {a : Answer} {w : World ι}
    {stop : Option (Stop ι)}, ok s (.resume k a) → Each W F s → s.flows k = some f →
    truthful s.world f.point a = true → Resumes P s.world f.next f.point a w stop →
    W w ∧ (∀ g, F s.world g → F w g) ∧
      ∀ st, stop = some st → F w (st.flow f.origin f.checkedAt)

theorem KeptBy.step {ok : Sys ι → Event ι → Prop} {W : World ι → Prop}
    {F : World ι → Flow ι → Prop} (kept : KeptBy P ok W F) {bound : Nat} {s s' : Sys ι}
    {e : Event ι} (hok : ok s e) (hs : Each W F s) (h : Steps P bound s e s') : Each W F s' := by
  obtain ⟨hW, hF⟩ := id hs
  -- a loop begins
  have start : ∀ {s₀ : Sys ι} {k origin next}, s₀.world = s.world → s₀.flows = s.flows →
      Begins s.world origin next →
      Each W F (s₀.put k origin s.world.now (goOn P s.world next)) := by
    intro s₀ k origin next hworld hflows hbegins
    refine ⟨?_, ?_⟩
    · rw [put_world, hworld]
      exact hW
    · intro l f hl
      rw [put_world, hworld]
      rcases flow_of_put hl with ⟨-, st, hst, rfl⟩ | ⟨-, hl⟩
      · exact kept.begins hW hbegins (goOn_cases hst)
      · rw [hflows] at hl
        exact hF l f hl
  cases h with
  | around h =>
    obtain ⟨hW', hkeep⟩ := kept.around hok hs h
    exact ⟨hW', fun k f hf => hkeep f (hF k f hf)⟩
  | crash => exact ⟨kept.crash hW, fun _ _ hf => nomatch hf⟩
  | died => exact ⟨kept.crash hW, fun _ _ hf => nomatch hf⟩
  | boot hphase hk => exact start rfl rfl .boot
  | tick hphase hfree hk => exact start rfl rfl .tick
  | recon hphase hfree hk => exact start rfl rfl .recon
  | job hphase hfree hk hnoJob hpasses =>
    refine ⟨hW, ?_⟩
    intro l f hl
    rcases flow_of_put hl with ⟨-, st, hst, rfl⟩ | ⟨-, hl⟩
    · cases hst
      exact kept.job hW hpasses
    · exact hF l f hl
  | resumeNext hflow hne hfree hl hleft hstop =>
    have hthis := hF _ _ hflow
    refine ⟨hW, ?_⟩
    intro m f hm
    rcases flow_of_put hm with ⟨-, st, hst, rfl⟩ | ⟨-, hm⟩
    · rw [hstop] at hst
      obtain ⟨point, hpoint, rfl⟩ := Option.map_eq_some_iff.mp hst
      exact kept.resumed hW hthis hpoint
    · rcases flow_of_put hm with ⟨-, st, hst, rfl⟩ | ⟨-, hm⟩
      · rw [hleft] at hst
        split at hst
        · cases hst
        · cases hst
          exact kept.shorter hW hthis
      · exact hF m f hm
  | resume hflow htrue hresumes =>
    obtain ⟨hW', hkeep, hstop⟩ := kept.resume hok hs hflow htrue hresumes
    refine ⟨hW', ?_⟩
    intro m f hm
    rcases flow_of_put hm with ⟨-, st, hst, rfl⟩ | ⟨-, hm⟩
    · exact hstop st hst
    · exact hkeep f (hF m f hm)

/-! ## A settlement -/

def sampleParams : Params Nat where
  json _ := ⟨['9'], 100, ZERO_ADDRESS, 1000⟩
  gate := ⟨500, 10, 100⟩
  confirmRetryMaxSecAfterExpiry := 50
  verifyAttempts := 3
  defaultSolver := ['s']

/-- What the contract holds of an intent of 100 while it is pending. -/
def pendingIntent (solver : Str) (collateral : Nat) : OnChainIntent :=
  ⟨['u'], 100, ZERO_ADDRESS, INTENT_STATUS_PENDING, solver, collateral⟩

/-- The first boot, the intent's submission, and its job up to the payout. -/
def sampleOpening : List (Event Nat) :=
  [.boot 0, .others 9 0 (.submitIntent ['u'] ZERO_ADDRESS 100), .proof 9 true, .startJob 0 9,
    .resume 0 (.selected (some ['s'])), .resume 0 (.balance 200), .resume 0 (.signed ['p']),
    .included ['p'] 5 true, .resume 0 (.receipt true),
    .resume 0 (.record (pendingIntent ['s'] 150)), .childSigns 0 ['x'] true, .childSends 0,
    .lands ['x']]

/-- The rest of the job. -/
def sampleClosing : List (Event Nat) :=
  [.resume 0 (.closed true), .resume 0 .ready, .resume 0 (.record (pendingIntent ['s'] 150)),
    .resume 0 (.signed ['c']), .included ['c'] 6 true, .resume 0 (.receipt true)]

end Maat.Orchestrator
