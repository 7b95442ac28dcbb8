import Stablecoin.Ledger.History
import Stablecoin.Ledger.Queries
import Stablecoin.Parameters.Document
import Stablecoin.Summary.Ledger
import Stablecoin.Proofs.Arithmetic
import Stablecoin.Proofs.StateChanges
import Stablecoin.Proofs.Totals
import Stablecoin.Proofs.Consistency
import Stablecoin.Proofs.ActiveTroves
import Stablecoin.Proofs.Commit
import Stablecoin.Proofs.Borrowing
import Stablecoin.Proofs.Liquidation
import Stablecoin.Proofs.PoolChanges
import Stablecoin.Proofs.Redemption
import Stablecoin.Proofs.Runs
import Stablecoin.Proofs.Deposits
import Stablecoin.Proofs.Collateral
import Stablecoin.Proofs.TokenMoves
import Stablecoin.Proofs.Backing
import Stablecoin.Proofs.TroveChanges
import Stablecoin.Proofs.ActivePool
import Stablecoin.Proofs.DefaultPool
import Stablecoin.Proofs.Rankings
import Stablecoin.Proofs.RankChanges
import Stablecoin.Proofs.EntireTroves
import Stablecoin.Proofs.RankFollowing
import Stablecoin.Proofs.Atomicity
import Stablecoin.Proofs.RankOrder
import Stablecoin.Proofs.PoolRuns
import Stablecoin.Proofs.DepositSolvency
import Stablecoin.Proofs.GainSolvency
import Stablecoin.Proofs.Verification
import Stablecoin.Proofs.Reserves
import Stablecoin.Proofs.Failures
import Stablecoin.Proofs.PoolFailures
import Stablecoin.Proofs.PlanFailures
import Stablecoin.Proofs.ModeGates
import Stablecoin.Proofs.Collateralization
import Stablecoin.Proofs.TroveRecords
import Stablecoin.Proofs.Stakes
import Stablecoin.Proofs.RankAgreement
import Stablecoin.Proofs.Strain
import Stablecoin.Proofs.Isolation
import Stablecoin.Proofs.Reports
import Stablecoin.Proofs.HexTexts
import Stablecoin.Proofs.ByteForms
import Stablecoin.Proofs.Overruns
import Stablecoin.Proofs.Splits
import Stablecoin.Proofs.Seizures
import Stablecoin.Proofs.LiquidationTerms
import Stablecoin.Proofs.LiquidationBalance
import Stablecoin.Proofs.RedemptionAccount
import Stablecoin.Proofs.SystemTotals
import Stablecoin.Proofs.RankWalks
import Stablecoin.Proofs.RankedRatios
import Stablecoin.Proofs.RedemptionOrder
import Stablecoin.Proofs.PoolPrecision
import Stablecoin.Proofs.Powers
import Stablecoin.Proofs.RateDecay
import Stablecoin.Proofs.DepositCourse
import Stablecoin.Proofs.EarlyClaims
import Stablecoin.Proofs.FreshDeposits
import Stablecoin.Proofs.PowerAccuracy
import Stablecoin.Proofs.FeeCaps
import Stablecoin.Proofs.DecayClock
import Stablecoin.Proofs.IndependentOpenings
import Stablecoin.Proofs.TakenShares
import Stablecoin.Proofs.HintedPlaces
import Stablecoin.Proofs.TokenCalls
import Stablecoin.Proofs.DecimalTexts
import Stablecoin.Proofs.AddressTexts
import Stablecoin.Proofs.JsonDocuments
import Stablecoin.Proofs.ParameterFiles
import Stablecoin.Proofs.Rehearsals
import Stablecoin.Proofs.Spreading
import Stablecoin.Proofs.Candidates
