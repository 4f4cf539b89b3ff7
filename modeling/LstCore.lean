import LstCore.Lib.Act
import LstCore.Lib.Alike
import LstCore.Lib.Cursor
import LstCore.Lib.Except
import LstCore.Lib.Keymap
import LstCore.Lib.Leader
import LstCore.Lib.Machine
import LstCore.Lib.Paging
import LstCore.Lib.ProRata
import LstCore.Lib.Run
import LstCore.Lib.Spacing
import LstCore.Lib.Vault
import LstCore.Lib.Waterfall
import LstCore.Lib.Word
import LstCore.Main.ActiveStake
import LstCore.Main.Advancing
import LstCore.Main.Authority
import LstCore.Main.Batches
import LstCore.Main.CacheFree
import LstCore.Main.ClaimLedger
import LstCore.Main.ClaimOrder
import LstCore.Main.Claiming
import LstCore.Main.ClaimsShown
import LstCore.Main.ClosingPrice
import LstCore.Main.Compounding
import LstCore.Main.Coverage
import LstCore.Main.Deposits
import LstCore.Main.Drift
import LstCore.Main.DueTasks
import LstCore.Main.EntryLimit
import LstCore.Main.ExactFee
import LstCore.Main.Exits
import LstCore.Main.FeeCeiling
import LstCore.Main.FeeOrder
import LstCore.Main.Freshness
import LstCore.Main.Harvest
import LstCore.Main.Headroom
import LstCore.Main.Inflation
import LstCore.Main.Liabilities
import LstCore.Main.LifeCycle
import LstCore.Main.Maturing
import LstCore.Main.NoDilution
import LstCore.Main.Overdraw
import LstCore.Main.PagedSync
import LstCore.Main.Pausing
import LstCore.Main.Placement
import LstCore.Main.Planning
import LstCore.Main.PriceNeutral
import LstCore.Main.Privacy
import LstCore.Main.RateFalls
import LstCore.Main.Rebalancing
import LstCore.Main.Refreshing
import LstCore.Main.Reruns
import LstCore.Main.Revival
import LstCore.Main.RidingAlong
import LstCore.Main.SeedLock
import LstCore.Main.Settling
import LstCore.Main.SlotAlerts
import LstCore.Main.Slots
import LstCore.Main.Solvency
import LstCore.Main.SolvencyCheck
import LstCore.Main.Splitting
import LstCore.Main.SupplyCeiling
import LstCore.Main.SweepCoverage
import LstCore.Main.SweepReport
import LstCore.Main.TaskOrder
import LstCore.Main.Totals
import LstCore.Main.ValidatorSet
import LstCore.Main.Waiting
import LstCore.Main.WakeUps
import LstCore.Main.WindowPages
import LstCore.Proof.Accept
import LstCore.Proof.Apart
import LstCore.Proof.Assets
import LstCore.Proof.Blocks
import LstCore.Proof.Cache
import LstCore.Proof.Capacity
import LstCore.Proof.Changes
import LstCore.Proof.Closing
import LstCore.Proof.Compounding
import LstCore.Proof.Config
import LstCore.Proof.Drawing
import LstCore.Proof.Effect
import LstCore.Proof.Frame
import LstCore.Proof.InStep
import LstCore.Proof.Marking
import LstCore.Proof.Math
import LstCore.Proof.Mature
import LstCore.Proof.Mirror
import LstCore.Proof.Money
import LstCore.Proof.Passage
import LstCore.Proof.Passes
import LstCore.Proof.Paying
import LstCore.Proof.Plan
import LstCore.Proof.Posts
import LstCore.Proof.Pricing
import LstCore.Proof.Prompt
import LstCore.Proof.Queries
import LstCore.Proof.Recorded
import LstCore.Proof.Refine
import LstCore.Proof.Returns
import LstCore.Proof.Roster
import LstCore.Proof.Rounds
import LstCore.Proof.Sets
import LstCore.Proof.Slots
import LstCore.Proof.Solvent
import LstCore.Proof.Staking
import LstCore.Proof.Supply
import LstCore.Proof.Tasks
import LstCore.Proof.Upkeep
import LstCore.Proof.Weights
import LstCore.Proof.World
import LstCore.Queue.Claims
import LstCore.Queue.Ledger
import LstCore.Queue.Life
import LstCore.Queue.Model
import LstCore.Queue.Payments
import LstCore.Queue.Settling
import LstCore.Queue.Shape
import LstCore.Queue.Slots
import LstCore.Queue.Times
import LstCore.Spec.Alone
import LstCore.Spec.Batches
import LstCore.Spec.Blocks
import LstCore.Spec.Browser
import LstCore.Spec.Chain
import LstCore.Spec.Checks
import LstCore.Spec.Contract
import LstCore.Spec.Keeper
import LstCore.Spec.Manager
import LstCore.Spec.Math
import LstCore.Spec.Passes
import LstCore.Spec.Queries
import LstCore.Spec.Queue
import LstCore.Spec.Refresh
import LstCore.Spec.Staking
import LstCore.Spec.State
import LstCore.Spec.Types
import LstCore.Spec.Upkeep
import LstCore.Spec.User
import LstCore.Spec.Validators
import LstCore.Spec.Windows
