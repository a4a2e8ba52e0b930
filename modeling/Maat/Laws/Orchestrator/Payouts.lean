import Maat.Lib.Run
import Maat.Laws.Orchestrator.Roles

/-!
# At most one payout

A payout is signed only while the one flow that may pay its intent waits for the child that signs
it and the settled ledger has no entry. From then on the entry is there, with that signature, and
no later child is told to go.
-/

namespace Maat.Orchestrator

open Js

variable {ι : Type} [DecidableEq ι] {P : Params ι} {w w' : World ι} {i : ι}

/-! ## What a flow does about payouts -/

/-- Nothing, or a settled entry instead of one that is there. -/
def SettlesOnly (w w' : World ι) : Prop :=
  w'.settled = w.settled ∨
    ∃ i, w.settled.lookup i ≠ none ∧ w'.settled = w.settled.markSettled i

theorem SettlesOnly.ledgerKept (h : SettlesOnly w w') : LedgerKept w w' := by
  rcases h with h | ⟨i, -, h⟩
  · exact .of_eq h
  · exact .markSettled h

theorem SettlesOnly.lookup_none (h : SettlesOnly w w') {j : ι}
    (hj : w.settled.lookup j = none) : w'.settled.lookup j = none := by
  rcases h with h | ⟨i, hi, h⟩
  · rw [h]
    exact hj
  · have hne : j ≠ i := by
      rintro rfl
      exact hi hj
    rw [h, SettledLedger.markSettled, AList.lookup_set_ne hne]
    exact hj

/-- The effect of a step of a flow on children, and on where it waits for one. -/
inductive Effect (w : World ι) : Point ι → World ι → Option (Stop ι) → Prop where
  /-- no child is spawned or closed -/
  | other {point : Point ι} {w' : World ι} {stop : Option (Stop ι)}
      (hchildren : w'.children = w.children) (hnext : w'.nextChild = w.nextChild)
      (hpayouts : w'.payouts = w.payouts)
      (hsettled : w'.settled = w.settled ∨ ∃ i sig, PointKnows w point = w.Recorded i sig ∧
        w'.settled = w.settled.markSettled i)
      (hpoint : ∀ i c, point ≠ .paying i c)
      (hstop : ∀ st i c, stop = some st → st.point ≠ .paying i c) : Effect w point w' stop
  | spawns {point : Point ι} {w' : World ι} {i : ι} {st : Stop ι}
      (hlookup : w.settled.lookup i = none)
      (hchildren : w'.children =
        Function.update w.children w.nextChild (some ⟨i, none, false, true⟩))
      (hnext : w'.nextChild = w.nextChild + 1) (hpayouts : w'.payouts = w.payouts)
      (hsettled : w'.settled = w.settled) (hpoint : ∀ i c, point ≠ .paying i c)
      (hstop : st.point = .paying i w.nextChild) : Effect w point w' (some st)
  | closes {w' : World ι} {i : ι} {c : Nat} (ok : Bool) {st : Stop ι}
      (hchildren : w'.children = Function.update w.children c none)
      (hnext : w'.nextChild = w.nextChild) (hpayouts : w'.payouts = w.payouts)
      (hsettled : w'.settled = if ok then w.settled.markSettled i else w.settled)
      (hclosed : ok = true → truthful w (.paying i c) (.closed true) = true)
      (hstop : st.point = .payoutReturned i ok) : Effect w (.paying i c) w' (some st)

theorem resumeCollateralPosted_not_paying {point : Point ι}
    (h : resumeCollateralPostedIntent P w i = some point) (j : ι) (c : Nat) :
    point ≠ .paying j c := by
  unfold resumeCollateralPostedIntent at h
  repeat' split at h
  all_goals cases h
  all_goals rintro ⟨⟩

theorem goesOn_not_paying {next : Next ι} {stop : Stop ι} (h : GoesOn P w next stop) (j : ι)
    (c : Nat) : stop.point ≠ .paying j c := by
  cases h with
  | due hdue hpoint =>
    unfold dueEntry at hpoint
    repeat' split at hpoint
    all_goals cases hpoint
    all_goals exact nofun
  | posted hboot hpoint => exact resumeCollateralPosted_not_paying hpoint j c
  | _ => exact nofun

theorem goOn_not_paying {next : Next ι} :
    ∀ st j c, goOn P w next = some st → st.point ≠ .paying j c :=
  fun _ j c hst => goesOn_not_paying (goOn_cases hst) j c

/-- A step that is about Arbitrum only. -/
theorem Effect.of_onlyArb {point : Point ι} {stop : Option (Stop ι)} (h : OnlyArb w w')
    (hpoint : ∀ i c, point ≠ .paying i c)
    (hstop : ∀ st i c, stop = some st → st.point ≠ .paying i c) : Effect w point w' stop :=
  .other h.children h.nextChild h.payouts (Or.inl h.settled) hpoint hstop

theorem runSolanaPayout_effect {point : Point ι} (hpoint : ∀ i c, point ≠ .paying i c)
    {next : Next ι} : Effect w point (runSolanaPayout w i).1
      (some ⟨(runSolanaPayout w i).2, next, none⟩) := by
  unfold runSolanaPayout
  dsimp only
  split
  · refine .other rfl rfl rfl (Or.inl rfl) hpoint ?_
    rintro st j c ⟨⟩
    exact nofun
  · refine .other rfl rfl rfl (Or.inl rfl) hpoint ?_
    rintro st j c ⟨⟩
    exact nofun
  · next hlookup => exact .spawns hlookup rfl rfl rfl rfl hpoint rfl

theorem finishes_not_paying {next : Next ι} {kind : TxKind} {ok : Bool} {hash : Option Str}
    {stop : Option (Stop ι)} (h : Finishes P w next i hash kind ok w' stop) :
    ∀ st j c, stop = some st → st.point ≠ .paying j c := by
  cases h with
  | posted =>
    rintro st j c ⟨⟩
    exact nofun
  | confirmsAgain =>
    rintro st j c ⟨⟩
    exact nofun
  | _ => exact goOn_not_paying

theorem resumes_effect {next : Next ι} {point : Point ι} {a : Answer} {stop : Option (Stop ι)}
    (htrue : truthful w point a = true) (h : Resumes P w next point a w' stop) :
    Effect w point w' stop := by
  cases h with
  | unrouted => exact .of_onlyArb (onlyArb_setStage w _ _ _) nofun goOn_not_paying
  | gateRefuses => exact .of_onlyArb (onlyArb_setStage w _ _ _) nofun goOn_not_paying
  | inProgress => exact .of_onlyArb (.refl w) nofun goOn_not_paying
  | mismatch => exact .of_onlyArb (.refl w) nofun goOn_not_paying
  | givesUp => exact .of_onlyArb (onlyArb_setStage w _ _ _) nofun goOn_not_paying
  | alreadySettled hstatus =>
    exact .of_onlyArb (onlyArb_setStage w _ _ _) nofun goOn_not_paying
  | closedOtherwise => exact .of_onlyArb (.refl w) nofun goOn_not_paying
  | resolved => exact .of_onlyArb (onlyArb_bootResolve w _ _ _ _) nofun goOn_not_paying
  | notReconciled => exact .of_onlyArb (.refl w) nofun goOn_not_paying
  | @signed i kind hash hfresh =>
    have h := onlyArb_onSigned (P := P) (w.sign i kind hash) i hash kind
    refine .other h.children h.nextChild h.payouts (Or.inl h.settled) nofun ?_
    rintro st j c ⟨⟩
    exact nofun
  | unsigned hdone =>
    have h := txDone_cases hdone
    exact .of_onlyArb h.onlyArb nofun (finishes_not_paying h)
  | receipt hdone =>
    have h := txDone_cases hdone
    exact .of_onlyArb h.onlyArb nofun (finishes_not_paying h)
  | sendThrew hdone =>
    have h := txDone_cases hdone
    have harb := h.onlyArb
    exact .other harb.children harb.nextChild harb.payouts (Or.inl harb.settled) nofun
      (finishes_not_paying h)
  | verified => exact runSolanaPayout_effect nofun
  | payoutAgain => exact runSolanaPayout_effect nofun
  | paid => exact .closes true rfl rfl rfl rfl (fun _ => htrue) rfl
  | unpaid => exact .closes false rfl rfl rfl rfl nofun rfl
  | payoutLanded =>
    refine .other rfl rfl rfl (Or.inr ⟨_, _, rfl, rfl⟩) nofun ?_
    rintro st j c ⟨⟩
    exact nofun
  | landedNoProof =>
    exact .other rfl rfl rfl (Or.inr ⟨_, _, rfl, rfl⟩) nofun goOn_not_paying
  | reconciled hnext =>
    exact .other rfl rfl rfl (Or.inr ⟨_, _, rfl, rfl⟩) nofun goOn_not_paying
  | bootReconciled =>
    exact .other rfl rfl rfl (Or.inr ⟨_, _, rfl, rfl⟩) nofun goOn_not_paying
  | threw hthrows =>
    refine .of_onlyArb (.refl w) ?_ ?_
    · rintro i c rfl
      cases hthrows
    · exact fun st i c hst => goesOn_not_paying (throws_cases hst) i c
  | _ =>
    refine .of_onlyArb (.refl w) nofun ?_
    rintro st j c ⟨⟩
    exact nofun

/-! ## The invariant -/

/-- Children, the flows that wait for them, signed payouts and the settled ledger. -/
structure Payouts (s : Sys ι) : Prop where
  fresh : ∀ c child, s.world.children c = some child → c < s.world.nextChild
  awaited : ∀ k f i c, s.flows k = some f → f.point = .paying i c →
    ∃ child, s.world.children c = some child ∧ child.intent = i ∧ child.attached = true
  attached : ∀ c child, s.world.children c = some child → child.attached = true →
    ∃ k f, s.flows k = some f ∧ f.point = .paying child.intent c
  unsigned : ∀ c child, s.world.children c = some child → child.attached = true →
    child.sig = none → s.world.settled.lookup child.intent = none
  signed : ∀ c child sig, s.world.children c = some child → child.sig = some sig →
    ∃ p, s.world.payouts sig = some p ∧ p.intent = child.intent
  recorded : ∀ sig p, s.world.payouts sig = some p → s.world.Recorded p.intent sig

section Payouts

variable {s s' : Sys ι} {bound : Nat}

/-- Flows that pay wait for one child. -/
theorem paying_unique (halone : Alone bound s)
    (hrole : ∀ k f, s.flows k = some f → FlowRole s.world f) {k l : Nat} {f g : Flow ι}
    {i j : ι} {c d : Nat} (hf : s.flows k = some f) (hg : s.flows l = some g)
    (hi : f.point = .paying i c) (hj : g.point = .paying j d) : k = l ∧ i = j ∧ c = d := by
  have hmain : ∀ {k : Nat} {f : Flow ι} {i : ι} {c : Nat}, s.flows k = some f →
      f.point = .paying i c → f.origin.main = true := by
    intro k f i c hf hpoint
    have hpart := (hrole k f hf).part
    rw [hpoint] at hpart
    exact main_of_payout hpart
  obtain rfl := halone.main k l f g hf hg (hmain hf hi) (hmain hg hj)
  rw [hf] at hg
  cases hg
  rw [hi] at hj
  cases hj
  exact ⟨rfl, rfl, rfl⟩

/-- Neither before nor after does the flow wait for a child. -/
theorem Payouts.put (h : Payouts s) {k : Nat} {origin : Origin} {checkedAt : Int}
    {stop : Option (Stop ι)}
    (hk : ∀ f i c, s.flows k = some f → f.point ≠ .paying i c)
    (hstop : ∀ st i c, stop = some st → st.point ≠ .paying i c) :
    Payouts (s.put k origin checkedAt stop) := by
  refine ⟨h.fresh, ?_, ?_, h.unsigned, h.signed, h.recorded⟩
  · intro l f i c hf hpoint
    rcases flow_of_put hf with ⟨-, st, hst, rfl⟩ | ⟨-, hf⟩
    · exact absurd hpoint (hstop st i c hst)
    · exact h.awaited l f i c hf hpoint
  · intro c child hchild hattached
    obtain ⟨l, f, hf, hpoint⟩ := h.attached c child hchild hattached
    refine ⟨l, f, ?_, hpoint⟩
    have hne : l ≠ k := by
      rintro rfl
      exact hk f child.intent c hf hpoint
    exact (Function.update_of_ne hne _ _).trans hf

theorem Payouts.setWorld (h : Payouts s) {w : World ι} (hchildren : w.children = s.world.children)
    (hnext : w.nextChild = s.world.nextChild) (hpayouts : w.payouts = s.world.payouts)
    (hsettled : SettlesOnly s.world w) : Payouts (s.setWorld w) := by
  refine ⟨?_, ?_, ?_, ?_, ?_, ?_⟩
  · intro c child hchild
    change w.children c = some child at hchild
    rw [hchildren] at hchild
    exact hnext ▸ h.fresh c child hchild
  · intro k f i c hf hpoint
    obtain ⟨child, hchild⟩ := h.awaited k f i c hf hpoint
    exact ⟨child, hchildren ▸ hchild⟩
  · intro c child hchild
    change w.children c = some child at hchild
    rw [hchildren] at hchild
    exact h.attached c child hchild
  · intro c child hchild hattached hsig
    change w.children c = some child at hchild
    rw [hchildren] at hchild
    exact hsettled.lookup_none (h.unsigned c child hchild hattached hsig)
  · intro c child sig hchild hsig
    change w.children c = some child at hchild
    rw [hchildren] at hchild
    obtain ⟨p, hp⟩ := h.signed c child sig hchild hsig
    exact ⟨p, hpayouts ▸ hp⟩
  · intro sig p hp
    change w.payouts sig = some p at hp
    rw [hpayouts] at hp
    exact hsettled.ledgerKept.recorded (h.recorded sig p hp)

/-- A child is spawned; the flow waits for it. -/
theorem Payouts.spawn (h : Payouts s) {k : Nat} {f : Flow ι} {w : World ι} {st : Stop ι}
    (hf : s.flows k = some f) (hpoint : ∀ i c, f.point ≠ .paying i c)
    (hlookup : s.world.settled.lookup i = none)
    (hchildren : w.children =
      Function.update s.world.children s.world.nextChild (some ⟨i, none, false, true⟩))
    (hnext : w.nextChild = s.world.nextChild + 1) (hpayouts : w.payouts = s.world.payouts)
    (hsettled : w.settled = s.world.settled) (hstop : st.point = .paying i s.world.nextChild) :
    Payouts ((s.setWorld w).put k f.origin f.checkedAt (some st)) := by
  -- a child of the new world is the new one or was there, with another number
  have hold : ∀ c child, w.children c = some child →
      (c = s.world.nextChild ∧ child = ⟨i, none, false, true⟩) ∨
        (c ≠ s.world.nextChild ∧ s.world.children c = some child) := by
    intro c child hchild
    rw [hchildren] at hchild
    by_cases hc : c = s.world.nextChild
    · subst hc
      rw [Function.update_self] at hchild
      cases hchild
      exact Or.inl ⟨rfl, rfl⟩
    · rw [Function.update_of_ne hc] at hchild
      exact Or.inr ⟨hc, hchild⟩
  refine ⟨?_, ?_, ?_, ?_, ?_, ?_⟩
  · intro c child hchild
    show c < w.nextChild
    rw [hnext]
    rcases hold c child hchild with ⟨rfl, -⟩ | ⟨-, hchild⟩
    · exact Nat.lt_succ_self _
    · exact Nat.lt_succ_of_lt (h.fresh c child hchild)
  · intro l g j c hg hj
    show ∃ child, w.children c = some child ∧ _
    rw [hchildren]
    rcases flow_of_put hg with ⟨-, st', hst, rfl⟩ | ⟨-, hg⟩
    · cases hst
      rw [Stop.flow, hstop] at hj
      cases hj
      exact ⟨_, Function.update_self _ _ _, rfl, rfl⟩
    · obtain ⟨child, hchild, hrest⟩ := h.awaited l g j c hg hj
      have hne : c ≠ s.world.nextChild := Nat.ne_of_lt (h.fresh c child hchild)
      exact ⟨child, (Function.update_of_ne hne _ _).trans hchild, hrest⟩
  · intro c child hchild hattached
    rcases hold c child hchild with ⟨rfl, rfl⟩ | ⟨-, hchild⟩
    · exact ⟨k, _, Function.update_self _ _ _, hstop⟩
    · obtain ⟨l, g, hg, hj⟩ := h.attached c child hchild hattached
      have hne : l ≠ k := by
        rintro rfl
        rw [hf] at hg
        cases hg
        exact hpoint _ _ hj
      exact ⟨l, g, (Function.update_of_ne hne _ _).trans hg, hj⟩
  · intro c child hchild hattached hsig
    show w.settled.lookup child.intent = none
    rw [hsettled]
    rcases hold c child hchild with ⟨rfl, rfl⟩ | ⟨-, hchild⟩
    · exact hlookup
    · exact h.unsigned c child hchild hattached hsig
  · intro c child sig hchild hsig
    show ∃ p, w.payouts sig = some p ∧ _
    rw [hpayouts]
    rcases hold c child hchild with ⟨rfl, rfl⟩ | ⟨-, hchild⟩
    · cases hsig
    · exact h.signed c child sig hchild hsig
  · intro sig p hp
    change w.payouts sig = some p at hp
    rw [hpayouts] at hp
    exact (LedgerKept.of_eq hsettled).recorded (h.recorded sig p hp)

/-- The child that the flow waits for has ended. -/
theorem Payouts.close (h : Payouts s) (halone : Alone bound s)
    (hrole : ∀ k f, s.flows k = some f → FlowRole s.world f) {k c : Nat} {f : Flow ι}
    {w : World ι} {ok : Bool} {st : Stop ι} (hf : s.flows k = some f)
    (hpoint : f.point = .paying i c)
    (hchildren : w.children = Function.update s.world.children c none)
    (hnext : w.nextChild = s.world.nextChild) (hpayouts : w.payouts = s.world.payouts)
    (hsettled : SettlesOnly s.world w) (hstop : st.point = .payoutReturned i ok) :
    Payouts ((s.setWorld w).put k f.origin f.checkedAt (some st)) := by
  have hold : ∀ d child, w.children d = some child → d ≠ c ∧ s.world.children d = some child := by
    intro d child hchild
    rw [hchildren] at hchild
    by_cases hd : d = c
    · subst hd
      rw [Function.update_self] at hchild
      cases hchild
    · rw [Function.update_of_ne hd] at hchild
      exact ⟨hd, hchild⟩
  refine ⟨?_, ?_, ?_, ?_, ?_, ?_⟩
  · intro d child hchild
    show d < w.nextChild
    rw [hnext]
    exact h.fresh d child (hold d child hchild).2
  · intro l g j d hg hj
    rcases flow_of_put hg with ⟨-, st', hst, rfl⟩ | ⟨hne, hg⟩
    · cases hst
      rw [Stop.flow, hstop] at hj
      cases hj
    · exact absurd (paying_unique halone hrole hg hf hj hpoint).1 hne
  · intro d child hchild hattached
    obtain ⟨hd, hchild⟩ := hold d child hchild
    obtain ⟨l, g, hg, hj⟩ := h.attached d child hchild hattached
    exact absurd (paying_unique halone hrole hg hf hj hpoint).2.2 hd
  · intro d child hchild hattached hsig
    obtain ⟨-, hchild⟩ := hold d child hchild
    exact hsettled.lookup_none (h.unsigned d child hchild hattached hsig)
  · intro d child sig hchild hsig
    obtain ⟨-, hchild⟩ := hold d child hchild
    show ∃ p, w.payouts sig = some p ∧ _
    rw [hpayouts]
    exact h.signed d child sig hchild hsig
  · intro sig p hp
    change w.payouts sig = some p at hp
    rw [hpayouts] at hp
    exact hsettled.ledgerKept.recorded (h.recorded sig p hp)

theorem Payouts.resume (h : Payouts s) (halone : Alone bound s)
    (hrole : ∀ k f, s.flows k = some f → FlowRole s.world f) {k : Nat} {f : Flow ι}
    {w : World ι} {stop : Option (Stop ι)} (hf : s.flows k = some f) {point : Point ι}
    (hpoint : f.point = point) (heffect : Effect s.world point w stop) :
    Payouts ((s.setWorld w).put k f.origin f.checkedAt stop) := by
  cases heffect with
  | other hchildren hnext hpayouts hsettled hnot hstop =>
    have hsettles : SettlesOnly s.world w := by
      rcases hsettled with hsettled | ⟨i, sig, hknows, hsettled⟩
      · exact Or.inl hsettled
      · have hrecorded := (hrole k f hf).point
        rw [hpoint, hknows] at hrecorded
        obtain ⟨status, hlookup⟩ := hrecorded
        refine Or.inr ⟨i, ?_, hsettled⟩
        rw [hlookup]
        exact nofun
    refine (h.setWorld hchildren hnext hpayouts hsettles).put ?_ hstop
    intro g i c hg
    change s.flows k = some g at hg
    rw [hf] at hg
    cases hg
    exact hpoint ▸ hnot i c
  | spawns hlookup hchildren hnext hpayouts hsettled hnot hstop =>
    exact h.spawn hf (hpoint ▸ hnot) hlookup hchildren hnext hpayouts hsettled hstop
  | @closes _ i c ok _ hchildren hnext hpayouts hsettled hclosed hstop =>
    refine h.close halone hrole hf hpoint hchildren hnext hpayouts ?_ hstop
    cases ok with
    | false => exact Or.inl hsettled
    | true =>
      -- the child that ended well had its payout signed, and that is on record
      obtain ⟨child, hchild, hany⟩ := (Option.any_eq_true _ _).mp (hclosed rfl)
      obtain ⟨sig, hsig, -⟩ := (Option.any_eq_true _ _).mp hany
      obtain ⟨p, hp, hintent⟩ := h.signed c child sig hchild hsig
      obtain ⟨child', hchild', hi, -⟩ := h.awaited k f i c hf hpoint
      rw [hchild] at hchild'
      cases hchild'
      obtain ⟨status, hlookup⟩ := h.recorded sig p hp
      rw [hintent, hi] at hlookup
      refine Or.inr ⟨i, ?_, hsettled⟩
      rw [hlookup]
      exact nofun

/-- A child signs: the intent had no entry, and has one now. -/
theorem Payouts.sign (h : Payouts s) (halone : Alone bound s)
    (hrole : ∀ k f, s.flows k = some f → FlowRole s.world f) {c : Nat} {sig : Str}
    {go told : Bool} (hchild : s.world.children c = some ⟨i, none, told, true⟩)
    (hfresh : s.world.payouts sig = none) :
    Payouts (s.setWorld { s.world with
      children := Function.update s.world.children c (some ⟨i, some sig, go, true⟩)
      payouts := Function.update s.world.payouts sig (some ⟨i, false, false⟩)
      settled := s.world.settled.markSettling i sig }) := by
  have hnone : s.world.settled.lookup i = none := h.unsigned c _ hchild rfl rfl
  have hold : ∀ d child, Function.update s.world.children c (some ⟨i, some sig, go, true⟩) d =
      some child → (d = c ∧ child = ⟨i, some sig, go, true⟩) ∨
        (d ≠ c ∧ s.world.children d = some child) := by
    intro d child hd
    by_cases hdc : d = c
    · subst hdc
      rw [Function.update_self] at hd
      cases hd
      exact Or.inl ⟨rfl, rfl⟩
    · rw [Function.update_of_ne hdc] at hd
      exact Or.inr ⟨hdc, hd⟩
  refine ⟨?_, ?_, ?_, ?_, ?_, ?_⟩
  · intro d child hd
    rcases hold d child hd with ⟨rfl, -⟩ | ⟨-, hd⟩
    · exact h.fresh d _ hchild
    · exact h.fresh d child hd
  · intro k f j d hf hpoint
    obtain ⟨child, hd, hj, hattached⟩ := h.awaited k f j d hf hpoint
    by_cases hdc : d = c
    · subst hdc
      rw [hchild] at hd
      cases hd
      exact ⟨_, Function.update_self _ _ _, hj, rfl⟩
    · exact ⟨child, (Function.update_of_ne hdc _ _).trans hd, hj, hattached⟩
  · intro d child hd hattached
    rcases hold d child hd with ⟨rfl, rfl⟩ | ⟨-, hd⟩
    · obtain ⟨k, f, hf, hpoint⟩ := h.attached d _ hchild rfl
      exact ⟨k, f, hf, hpoint⟩
    · exact h.attached d child hd hattached
  · intro d child hd hattached hsig
    rcases hold d child hd with ⟨rfl, rfl⟩ | ⟨hdc, hd⟩
    · cases hsig
    · have hold := h.unsigned d child hd hattached hsig
      -- a second child of the intent would have a second flow waiting for it
      have hne : child.intent ≠ i := by
        intro hintent
        obtain ⟨k, f, hf, hpoint⟩ := h.attached d child hd hattached
        obtain ⟨l, g, hg, hpoint'⟩ := h.attached c _ hchild rfl
        exact hdc (paying_unique halone hrole hf hg hpoint hpoint').2.2
      exact (AList.lookup_set_ne hne).trans hold
  · intro d child sig' hd hsig'
    rcases hold d child hd with ⟨rfl, rfl⟩ | ⟨-, hd⟩
    · cases hsig'
      exact ⟨_, Function.update_self _ _ _, rfl⟩
    · obtain ⟨p, hp, hintent⟩ := h.signed d child sig' hd hsig'
      have hne : sig' ≠ sig := by
        rintro rfl
        rw [hfresh] at hp
        cases hp
      exact ⟨p, (Function.update_of_ne hne _ _).trans hp, hintent⟩
  · intro sig' p hp
    change Function.update s.world.payouts sig _ sig' = some p at hp
    by_cases hs : sig' = sig
    · subst hs
      rw [Function.update_self] at hp
      cases hp
      exact ⟨.settling, AList.lookup_set _⟩
    · rw [Function.update_of_ne hs] at hp
      obtain ⟨status, hlookup⟩ := h.recorded sig' p hp
      have hne : p.intent ≠ i := by
        intro hintent
        rw [hintent, hnone] at hlookup
        cases hlookup
      exact ⟨status, (AList.lookup_set_ne hne).trans hlookup⟩

/-- A signed payout is sent, or lands. -/
theorem Payouts.update (h : Payouts s) {sig : Str} {p p' : Payout ι}
    (hp : s.world.payouts sig = some p) (hintent : p'.intent = p.intent) :
    Payouts (s.setWorld { s.world with
      payouts := Function.update s.world.payouts sig (some p') }) := by
  refine ⟨h.fresh, h.awaited, h.attached, h.unsigned, ?_, ?_⟩
  · intro c child sig' hchild hsig
    obtain ⟨q, hq, hq'⟩ := h.signed c child sig' hchild hsig
    by_cases hs : sig' = sig
    · subst hs
      rw [hp] at hq
      cases hq
      exact ⟨p', Function.update_self _ _ _, hintent.trans hq'⟩
    · exact ⟨q, (Function.update_of_ne hs _ _).trans hq, hq'⟩
  · intro sig' q hq
    change Function.update s.world.payouts sig _ sig' = some q at hq
    by_cases hs : sig' = sig
    · subst hs
      rw [Function.update_self] at hq
      cases hq
      exact hintent ▸ h.recorded sig' p hp
    · rw [Function.update_of_ne hs] at hq
      exact h.recorded sig' q hq

theorem Payouts.around (h : Payouts s) (halone : Alone bound s)
    (hrole : ∀ k f, s.flows k = some f → FlowRole s.world f) {e : Event ι} {w : World ι}
    (hstep : Around P s.world e w) : Payouts (s.setWorld w) := by
  cases hstep with
  | time ht => exact h.setWorld rfl rfl rfl (Or.inl rfl)
  | childSigns hchild hfresh => exact h.sign halone hrole hchild hfresh
  | childSends hchild =>
    obtain ⟨p, hp, -⟩ := h.signed _ _ _ hchild rfl
    rw [hp, Option.map_some]
    exact h.update hp rfl
  | lands hpayout => exact h.update hpayout rfl
  | included htx hcall => exact h.setWorld rfl rfl rfl (Or.inl rfl)
  | reverted htx => exact h.setWorld rfl rfl rfl (Or.inl rfl)
  | others hcall => exact h.setWorld rfl rfl rfl (Or.inl rfl)
  | proof => exact h.setWorld rfl rfl rfl (Or.inl rfl)

/-- The ledger is kept by what happens around the flows: a child signs for a new entry. -/
theorem Payouts.ledgerKept (h : Payouts s) {e : Event ι} {w : World ι}
    (hstep : Around P s.world e w) : LedgerKept s.world w := by
  cases hstep with
  | @childSigns c i sig go told hchild hfresh =>
    intro j entry hj
    have hne : j ≠ i := by
      rintro rfl
      rw [h.unsigned c _ hchild rfl rfl] at hj
      cases hj
    exact ⟨entry.status, (AList.lookup_set_ne hne).trans hj, id⟩
  | _ => exact .of_eq rfl

/-- The children go on without the flows. -/
theorem Payouts.crash (h : Payouts s) : Payouts s.crash := by
  have hold : ∀ c child, s.crash.world.children c = some child → child.attached = false ∧
      ∃ child₀, s.world.children c = some child₀ ∧ child.intent = child₀.intent ∧
        child.sig = child₀.sig := by
    intro c child hchild
    obtain ⟨child₀, hchild₀, rfl⟩ := Option.map_eq_some_iff.mp hchild
    exact ⟨rfl, child₀, hchild₀, rfl, rfl⟩
  refine ⟨?_, ?_, ?_, ?_, ?_, h.recorded⟩
  · intro c child hchild
    obtain ⟨-, child₀, hchild₀, -⟩ := hold c child hchild
    exact h.fresh c child₀ hchild₀
  · intro k f i c hf
    cases hf
  · intro c child hchild hattached
    rw [(hold c child hchild).1] at hattached
    cases hattached
  · intro c child hchild hattached
    rw [(hold c child hchild).1] at hattached
    cases hattached
  · intro c child sig hchild hsig
    obtain ⟨-, child₀, hchild₀, hintent, hsig₀⟩ := hold c child hchild
    rw [hintent]
    exact h.signed c child₀ sig hchild₀ (hsig₀ ▸ hsig)

/-! ## Runs -/

/-- The flows keep to their roles, one at most may pay, and payouts are on record. -/
structure Orderly (bound : Nat) (s : Sys ι) : Prop where
  roles : ∀ k f, s.flows k = some f → FlowRole s.world f
  alone : Alone bound s
  payouts : Payouts s

theorem Orderly.step (h : Orderly bound s) {e : Event ι} (hstep : Steps P bound s e s') :
    Orderly bound s' := by
  have hroles : Each (fun _ => True) FlowRole s' :=
    role_kept.step (fun _ hw => h.payouts.ledgerKept hw) ⟨trivial, h.roles⟩ hstep
  refine ⟨hroles.2, alone_step h.alone h.roles hstep, ?_⟩
  have free : ∀ {k : Nat}, s.flows k = none → ∀ f i c, s.flows k = some f →
      f.point ≠ .paying i c := by
    intro k hfree f i c hf
    rw [hfree] at hf
    cases hf
  cases hstep with
  | around hw => exact h.payouts.around h.alone h.roles hw
  | crash => exact h.payouts.crash
  | died => exact h.payouts.crash
  | boot hphase hk =>
    have hbooting : Payouts { s with phase := .booting } :=
      ⟨h.payouts.fresh, h.payouts.awaited, h.payouts.attached, h.payouts.unsigned,
        h.payouts.signed, h.payouts.recorded⟩
    exact hbooting.put (free (h.alone.no_flows_of_down hphase _)) goOn_not_paying
  | job hphase hfree hk hnoJob hpasses =>
    refine h.payouts.put (free hfree) ?_
    rintro st i c ⟨⟩
    exact nofun
  | tick hphase hfree hk => exact h.payouts.put (free hfree) goOn_not_paying
  | recon hphase hfree hk => exact h.payouts.put (free hfree) goOn_not_paying
  | @resumeNext k l origin i ids next checkedAt left stop hflow hne hfree hl hleft hstop =>
    have hpopped : Payouts (s.put k origin checkedAt left) := by
      refine h.payouts.put ?_ ?_
      · intro f j c hf
        rw [hflow] at hf
        cases hf
        exact nofun
      · rw [hleft]
        intro st j c hst
        split at hst
        · cases hst
        · cases hst
          exact nofun
    refine hpopped.put ?_ ?_
    · intro f j c hf
      rcases flow_of_put hf with ⟨rfl, -⟩ | ⟨-, hf⟩
      · exact absurd rfl hne
      · exact free hfree f j c hf
    · rw [hstop]
      intro st j c hst
      obtain ⟨point, hpoint, rfl⟩ := Option.map_eq_some_iff.mp hst
      exact resumeCollateralPosted_not_paying hpoint j c
  | resume hflow htrue hresumes =>
    exact h.payouts.resume h.alone h.roles hflow rfl (resumes_effect htrue hresumes)

theorem initial_orderly (now : Int) : Orderly bound (Sys.initial (ι := ι) now) := by
  refine ⟨?_, .of_no_flows fun _ => rfl, ⟨?_, ?_, ?_, ?_, ?_, ?_⟩⟩
  · intro k f hf
    cases hf
  · intro c child hchild
    cases hchild
  · intro k f i c hf
    cases hf
  · intro c child hchild
    cases hchild
  · intro c child hchild
    cases hchild
  · intro c child sig hchild
    cases hchild
  · intro sig p hp
    cases hp

theorem run_orderly {now : Int} {es : List (Event ι)}
    (h : Run.run (step P bound) (Sys.initial now) es = some s) : Orderly bound s :=
  Run.run_keeps (fun _ _ _ hs h => hs.step (step_cases h)) h (initial_orderly now)

/-- No step takes an entry out of the settled ledger, or back. -/
theorem Orderly.ledgerKept (h : Orderly bound s) {e : Event ι} (hstep : Steps P bound s e s') :
    LedgerKept s.world s'.world := by
  cases hstep with
  | around hw => exact h.payouts.ledgerKept hw
  | resume hflow htrue hresumes => exact hresumes.ledgerKept
  | _ => exact .of_eq rfl

end Payouts

/-- Whatever crashes and restarts, however often a payout is retried and whichever children live
on: two payouts of an intent that were sent are the same, and once one was sent the settled
ledger has an entry for it, that stays. -/
theorem at_most_one_payout (P : Params ι) (bound : Nat) (now : Int) (es : List (Event ι))
    (s : Sys ι) (hrun : Run.run (step P bound) (Sys.initial now) es = some s) :
    (∀ sig sig' p p', s.world.payouts sig = some p → s.world.payouts sig' = some p' →
      p.sent = true → p'.sent = true → p.intent = p'.intent → sig = sig') ∧
    (∀ sig p, s.world.payouts sig = some p → p.sent = true →
      s.world.settled.lookup p.intent = some ⟨.settling, some sig⟩ ∨
        s.world.settled.lookup p.intent = some ⟨.settled, some sig⟩) ∧
    ∀ es' s', Run.run (step P bound) s es' = some s' → ∀ i entry,
      s.world.settled.lookup i = some entry → ∃ status,
        s'.world.settled.lookup i = some ⟨status, entry.solanaSig⟩ ∧
          (entry.status = .settled → status = .settled) := by
  have horderly : Orderly bound s := run_orderly hrun
  refine ⟨?_, ?_, ?_⟩
  · intro sig sig' p p' hp hp' _ _ hintent
    obtain ⟨status, hlookup⟩ := horderly.payouts.recorded sig p hp
    obtain ⟨status', hlookup'⟩ := horderly.payouts.recorded sig' p' hp'
    rw [hintent, hlookup'] at hlookup
    cases hlookup
    rfl
  · intro sig p hp _
    obtain ⟨status, hlookup⟩ := horderly.payouts.recorded sig p hp
    cases status with
    | settling => exact Or.inl hlookup
    | settled => exact Or.inr hlookup
  · intro es' s' hrun'
    refine Run.run_relates (I := Orderly bound) (R := fun s s' => LedgerKept s.world s'.world)
      (fun _ => .of_eq rfl) (fun _ _ _ => .trans) ?_ hrun' horderly
    intro s e s' h hstep
    exact ⟨h.step (step_cases hstep), h.ledgerKept (step_cases hstep)⟩

/-- The payout of a settlement is the only one, also after a crash and a new boot. -/
theorem at_most_one_payout_sample :
    ∃ s, Run.run (step sampleParams 2) (Sys.initial 0)
        (sampleOpening ++ [.crash, .boot 1]) = some s ∧
      s.world.payouts ['x'] = some ⟨9, true, true⟩ ∧
      ∀ sig p, s.world.payouts sig = some p → p.sent = true → p.intent = 9 → ['x'] = sig := by
  have hsome : ((Run.run (step sampleParams 2) (Sys.initial 0)
      (sampleOpening ++ [.crash, .boot 1])).any fun s =>
        s.world.payouts ['x'] == some ⟨9, true, true⟩) = true := by
    decide
  obtain ⟨s, hrun, hs⟩ := (Option.any_eq_true _ _).mp hsome
  have hpayout := eq_of_beq hs
  refine ⟨s, hrun, hpayout, ?_⟩
  intro sig p hp hsent hintent
  exact (at_most_one_payout sampleParams 2 0 _ s hrun).1 _ sig _ p hpayout hp rfl hsent
    hintent.symm

end Maat.Orchestrator
