import Maat.Laws.Orchestrator.SolverStats

/-!
# One more success

What a further settled intent does to the tier a complete record earns. Both rates rise with it,
so a promotion stays and no record that was large enough to be demoted is demoted anew. What is
left is the success that makes the sample large enough: a record that was too small to be demoted
on, and whose rate is still low, is demoted with it (`success_worsens_iff`).
-/

namespace Maat.Orchestrator

open Js

/-- The success rate of a record with these counts. -/
def rate (settled slashed : Nat) : ℚ := double ((settled : ℚ) / ((settled + slashed : Nat) : ℚ))

/-- A solver with these counts is promoted. -/
def promoted (config : TierConfig) (settled slashed : Nat) : Prop :=
  0 < settled + slashed ∧ config.promotes (settled + slashed) (rate settled slashed)

/-- The record is too small to be demoted on. -/
def TooFew (config : TierConfig) (resolved : Nat) : Prop :=
  resolved = 0 ∨ (resolved : ℚ) < config.demoteMinResolved

section

variable {config : TierConfig} {settled slashed : Nat}

theorem promoted_iff : promoted config settled slashed ↔
    0 < settled + slashed ∧ config.promoteMinResolved ≤ ((settled + slashed : Nat) : ℚ) ∧
      config.promoteMinSuccess ≤ rate settled slashed := by
  simp only [promoted, TierConfig.promotes, Bool.and_eq_true, decide_eq_true_eq]

theorem demoted_iff : demoted config settled slashed ↔
    0 < settled + slashed ∧ config.demoteMinResolved ≤ ((settled + slashed : Nat) : ℚ) ∧
      rate settled slashed < config.demoteMaxSuccess := by
  simp only [demoted, rate, TierConfig.demotes, Bool.and_eq_true, decide_eq_true_eq]

theorem rate_succ (h : 0 < settled + slashed) :
    rate settled slashed ≤ rate (settled + 1) slashed := by
  apply double_mono
  have hpos : (0 : ℚ) < (settled + slashed : Nat) := by exact_mod_cast h
  have hpos' : (0 : ℚ) < (settled + 1 + slashed : Nat) := by positivity
  rw [div_le_div_iff₀ hpos hpos']
  push_cast
  have hslashed : (0 : ℚ) ≤ slashed := Nat.cast_nonneg _
  linarith

theorem promoted_succ (h : promoted config settled slashed) :
    promoted config (settled + 1) slashed := by
  obtain ⟨hpos, hcount, hrate⟩ := promoted_iff.mp h
  refine promoted_iff.mpr ⟨by omega, hcount.trans ?_, hrate.trans (rate_succ hpos)⟩
  exact_mod_cast (by omega : settled + slashed ≤ settled + 1 + slashed)

/-- A record that a further success leaves demoted was demoted, or too small. -/
theorem demoted_of_succ (h : demoted config (settled + 1) slashed)
    (hmany : ¬TooFew config (settled + slashed)) : demoted config settled slashed := by
  obtain ⟨-, -, hrate⟩ := demoted_iff.mp h
  rw [TooFew, not_or, not_lt] at hmany
  have hpos : 0 < settled + slashed := Nat.pos_of_ne_zero hmany.1
  exact demoted_iff.mpr ⟨hpos, hmany.2, (rate_succ hpos).trans_lt hrate⟩

theorem not_tooFew (h : demoted config settled slashed) : ¬TooFew config (settled + slashed) := by
  obtain ⟨hpos, hcount, -⟩ := demoted_iff.mp h
  rw [TooFew, not_or, not_lt]
  exact ⟨by omega, hcount⟩

theorem not_promoted (ordered : config.demoteMaxSuccess ≤ config.promoteMinSuccess)
    (h : demoted config settled slashed) : ¬promoted config settled slashed := by
  intro hp
  have hlow := (demoted_iff.mp h).2.2
  have hhigh := (promoted_iff.mp hp).2.2
  exact absurd (hlow.trans_le (ordered.trans hhigh)) (lt_irrefl _)

end

/-- The tier of a complete record, by its counts. -/
theorem computeTier_counts (onboarding : Tier) (config : TierConfig) (acc : Accumulator) :
    (promoted config acc.settled acc.slashed →
        (computeTier onboarding acc.toRecord config true).toInt = max 1 (onboarding.toInt - 1)) ∧
      (¬promoted config acc.settled acc.slashed → demoted config acc.settled acc.slashed →
        (computeTier onboarding acc.toRecord config true).toInt = min 3 (onboarding.toInt + 1)) ∧
      (¬promoted config acc.settled acc.slashed → ¬demoted config acc.settled acc.slashed →
        (computeTier onboarding acc.toRecord config true).toInt = onboarding.toInt) := by
  have hbounds := toInt_bounds onboarding
  unfold computeTier promoted demoted rate Accumulator.toRecord
  by_cases hzero : acc.settled + acc.slashed = 0
  · simp only [hzero, if_true]
    exact ⟨fun h => absurd h.1 (by omega), fun _ h => absurd h.1 (by omega), fun _ _ => trivial⟩
  · have hpos : 0 < acc.settled + acc.slashed := Nat.pos_of_ne_zero hzero
    simp only [hzero, if_false, Bool.true_and, hpos, true_and]
    refine ⟨fun h => ?_, fun h h' => ?_, fun h h' => ?_⟩
    · rw [if_pos h, toInt_clamp]
      omega
    · rw [if_neg h, if_pos h', toInt_clamp]
      omega
    · rw [if_neg h, if_neg h', toInt_clamp]
      omega

/-- A further settled intent never makes the tier worse, but where it makes a record large enough
to be demoted on that was too small before: then an onboarding tier of 1 or 2 gets one worse. -/
theorem success_worsens_iff (onboarding : Tier) {config : TierConfig}
    (ordered : config.demoteMaxSuccess ≤ config.promoteMinSuccess) (acc : Accumulator) :
    (computeTier onboarding acc.toRecord config true).toInt <
        (computeTier onboarding (acc.add false INTENT_STATUS_SETTLED).toRecord config true).toInt ↔
      onboarding ≠ .T3 ∧ TooFew config (acc.settled + acc.slashed) ∧
        demoted config (acc.settled + 1) acc.slashed := by
  have hbounds := toInt_bounds onboarding
  have hT3 : onboarding ≠ .T3 ↔ onboarding.toInt < 3 := by cases onboarding <;> decide
  obtain ⟨hup, hdown, hstay⟩ := computeTier_counts onboarding config acc
  obtain ⟨hup', hdown', hstay'⟩ :=
    computeTier_counts onboarding config (acc.add false INTENT_STATUS_SETTLED)
  change promoted config (acc.settled + 1) acc.slashed → _ at hup'
  change ¬promoted config (acc.settled + 1) acc.slashed →
    demoted config (acc.settled + 1) acc.slashed → _ at hdown'
  change ¬promoted config (acc.settled + 1) acc.slashed →
    ¬demoted config (acc.settled + 1) acc.slashed → _ at hstay'
  rw [hT3]
  by_cases hpromoted : promoted config acc.settled acc.slashed
  · -- promoted before and after
    have hafter := promoted_succ hpromoted
    rw [hup hpromoted, hup' hafter]
    exact iff_of_false (lt_irrefl _) fun h => not_promoted ordered h.2.2 hafter
  by_cases hdemoted : demoted config acc.settled acc.slashed
  · -- demoted before, which is as bad as it gets
    rw [hdown hpromoted hdemoted]
    refine iff_of_false ?_ fun h => not_tooFew hdemoted h.2.1
    by_cases hp : promoted config (acc.settled + 1) acc.slashed
    · rw [hup' hp]
      omega
    by_cases hd : demoted config (acc.settled + 1) acc.slashed
    · rw [hdown' hp hd]
      omega
    · rw [hstay' hp hd]
      omega
  · rw [hstay hpromoted hdemoted]
    by_cases hd : demoted config (acc.settled + 1) acc.slashed
    · -- demoted by the success itself
      rw [hdown' (not_promoted ordered hd) hd]
      have hfew : TooFew config (acc.settled + acc.slashed) := by
        by_contra hmany
        exact hdemoted (demoted_of_succ hd hmany)
      constructor
      · intro h
        exact ⟨by omega, hfew, hd⟩
      · intro h
        omega
    · refine iff_of_false ?_ fun h => hd h.2.2
      by_cases hp : promoted config (acc.settled + 1) acc.slashed
      · rw [hup' hp]
        omega
      · rw [hstay' hp hd]
        exact lt_irrefl _

/-- One settled, one slashed: too small a record for the default configuration. -/
def oneEach : Accumulator := ⟨1, 1, 0, 0, 0⟩

theorem success_worsens_sample :
    (computeTier .T2 oneEach.toRecord sampleConfig true).toInt <
        (computeTier .T2 (oneEach.add false INTENT_STATUS_SETTLED).toRecord sampleConfig
          true).toInt ↔
      Tier.T2 ≠ .T3 ∧ TooFew sampleConfig 2 ∧ demoted sampleConfig 2 1 :=
  success_worsens_iff .T2 (by decide +kernel) oneEach

/-- The second success demotes a solver of the second tier. -/
theorem second_success_demotes :
    sampleConfig.demoteMaxSuccess ≤ sampleConfig.promoteMinSuccess ∧
      computeTier .T2 oneEach.toRecord sampleConfig true = .T2 ∧
      computeTier .T2 (oneEach.add false INTENT_STATUS_SETTLED).toRecord sampleConfig true = .T3 := by
  decide +kernel

end Maat.Orchestrator
