import Devnet.Coin.Basic
import Devnet.Fault.Basic
import Devnet.Text.Blank

namespace Devnet.Inflation

def moduleName : String := "inflation"

/-- Issuance in period `x` is `a * (1 - r) ^ x + c`, scaled by the bonding ratio. -/
structure Schedule where
  a : Decimal
  r : Decimal
  c : Decimal
  bondingTarget : Decimal
  maxVariance : Decimal
  deriving DecidableEq, Repr

namespace Schedule

def ofHundredths (n : Int) : Decimal := ⟨n * tenTo 16⟩

def standard : Schedule := ⟨.ofInt 300000000, ofHundredths 50, .ofInt 9375000, ofHundredths 66, .zero⟩

def validate (s : Schedule) : Except InflationViolation Unit := do
  if s.a.isNegative then throw (.negativeInitial s.a)
  if s.r.isNegative || Decimal.one.lt s.r then throw (.reduction s.r)
  if s.c.isNegative then throw (.negativeLongTerm s.c)
  if !s.bondingTarget.isPositive || Decimal.one.lt s.bondingTarget then throw (.bondingTarget s.bondingTarget)
  if s.maxVariance.isNegative then throw (.negativeVariance s.maxVariance)

def codec : Codec Schedule :=
  .record "ExponentialCalculation"
    (.cons "a" .decimal <| .cons "r" .decimal <| .cons "c" .decimal <| .cons "bonding_target" .decimal <|
      .cons "max_variance" .decimal .nil)
    (fun s => (s.a, s.r, s.c, s.bondingTarget, s.maxVariance, ()))
    fun (a, r, c, bondingTarget, maxVariance, ()) => ⟨a, r, c, bondingTarget, maxVariance⟩

end Schedule

structure Distribution where
  stakingRewards : Decimal
  communityPool : Decimal
  deriving DecidableEq, Repr

namespace Distribution

def ofBillionths (n : Int) : Decimal := ⟨n * tenTo 9⟩

def standard : Distribution := ⟨ofBillionths 533333334, ofBillionths 466666666⟩

def validate (d : Distribution) : Except InflationViolation Unit := do
  if d.stakingRewards.isNegative || d.communityPool.isNegative then throw .negativeShare
  let total := d.stakingRewards.add d.communityPool
  if total ≠ .one then throw (.wrongTotal total)

def codec : Codec Distribution :=
  .record "InflationDistribution" (.cons "staking_rewards" .decimal <| .cons "community_pool" .decimal .nil)
    (fun d => (d.stakingRewards, d.communityPool, ()))
    fun (stakingRewards, communityPool, ()) => ⟨stakingRewards, communityPool⟩

end Distribution

structure Params where
  mintDenom : String
  schedule : Schedule
  distribution : Distribution
  enabled : Bool
  deriving DecidableEq, Repr

namespace Params

def standard : Params := ⟨"aevmos", .standard, .standard, true⟩

def validate (params : Params) : Except Fault Unit := do
  (Denom.validate params.mintDenom).mapError .coin
  params.schedule.validate.mapError .ofInflation
  params.distribution.validate.mapError .ofInflation

def codec : Codec Params :=
  .record "Params"
    (.cons "mint_denom" .string <| .cons "exponential_calculation" Schedule.codec <|
      .cons "inflation_distribution" Distribution.codec <| .cons "enable_inflation" .bool .nil)
    (fun p => (p.mintDenom, p.schedule, p.distribution, p.enabled, ()))
    fun (mintDenom, schedule, distribution, enabled, ()) => ⟨mintDenom, schedule, distribution, enabled⟩

end Params

structure Section where
  params : Params
  period : UInt64
  epochIdentifier : String
  epochsPerPeriod : Int64
  skippedEpochs : UInt64
  deriving DecidableEq, Repr

namespace Section

def make (params : Params) : Section := ⟨params, 0, "day", 365, 0⟩

def standard : Section := make .standard

def disabled : Section := make { Params.standard with enabled := false }

def validate (s : Section) : Except Fault Unit := do
  if Text.isBlank s.epochIdentifier then throw (.ofInflation .blankEpoch)
  if s.epochsPerPeriod ≤ 0 then throw (.ofInflation (.noEpochs s.epochsPerPeriod))
  s.params.validate

def codec : Codec Section :=
  .record "GenesisState"
    (.cons "params" Params.codec <| .cons "period" .uint64Text <| .cons "epoch_identifier" .string <|
      .cons "epochs_per_period" .int64Text <| .cons "skipped_epochs" .uint64Text .nil)
    (fun s => (s.params, s.period, s.epochIdentifier, s.epochsPerPeriod, s.skippedEpochs, ()))
    fun (params, period, epochIdentifier, epochsPerPeriod, skippedEpochs, ()) =>
      ⟨params, period, epochIdentifier, epochsPerPeriod, skippedEpochs⟩

end Section
end Devnet.Inflation
