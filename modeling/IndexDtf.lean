import IndexDtf.Lib.Fallible
import IndexDtf.Lib.Transition
import IndexDtf.Lib.Accounts
import IndexDtf.Lib.FixedPoint
import IndexDtf.Lib.Accrual
import IndexDtf.Lib.TruncatedSeries
import IndexDtf.Lib.CompoundRate
import IndexDtf.Shared.Basic
import IndexDtf.Shared.Decimal
import IndexDtf.Shared.DecimalPow
import IndexDtf.Shared.DecimalExp
import IndexDtf.Shared.DecimalReal
import IndexDtf.Folio.Account
import IndexDtf.Folio.PokeTotal
import IndexDtf.Folio.AnnualFee
import IndexDtf.Lib.IndexShare
import IndexDtf.Rewards.Account
import IndexDtf.Rewards.AccountSpec
import IndexDtf.Rewards.Pool
import IndexDtf.Rewards.Ledger
import IndexDtf.Governance.Realm
import IndexDtf.Governance.StakeRewards
import IndexDtf.Lib.SlotArray
import IndexDtf.Folio.Basket
import IndexDtf.Folio.BasketSpec
import IndexDtf.Token.Program
import IndexDtf.Token.Simple
import IndexDtf.Folio.Rebalance
import IndexDtf.Folio.Auction
import IndexDtf.Folio.RebalanceSpec
import IndexDtf.Folio.RebalanceBatches
import IndexDtf.Admin.Accounts
import IndexDtf.Folio.FeeRecipients
import IndexDtf.Folio.World
import IndexDtf.Folio.Instructions.User
import IndexDtf.Folio.Instructions.Crank
import IndexDtf.Folio.Instructions.Owner
import IndexDtf.Folio.Instructions.Auction
import IndexDtf.Folio.Program
import IndexDtf.Lib.Apportion
import IndexDtf.Folio.FeeSpec
import IndexDtf.Folio.FolioStep
import IndexDtf.Lib.Vault
import IndexDtf.Folio.Custody
import IndexDtf.Folio.Solvency
import IndexDtf.Folio.Distribution
import IndexDtf.Folio.RecipientUpdates
import IndexDtf.Folio.Cranking
import IndexDtf.Folio.TotalSupply
import IndexDtf.Folio.FeeTiming
import IndexDtf.Folio.PokeGrowth
import IndexDtf.Folio.PokePath
import IndexDtf.Folio.Redemption
import IndexDtf.Lib.ProRata
import IndexDtf.Folio.ShareValue
import IndexDtf.Folio.RoundTrip
import IndexDtf.Folio.AuctionStep
import IndexDtf.Folio.AuctionLife
import IndexDtf.Folio.Trading
import IndexDtf.Folio.Ownership
import IndexDtf.Folio.PriceCurve
import IndexDtf.Folio.Migration
import IndexDtf.Folio.BidLimits
import IndexDtf.Folio.BidRounding
import IndexDtf.Folio.PriceFall
import IndexDtf.Folio.PriceDecay
import IndexDtf.Folio.OpeningPrices
import IndexDtf.Folio.FeeParts
import IndexDtf.Rewards.Decimals
import IndexDtf.Lib.Decay
import IndexDtf.Rewards.Emission
import IndexDtf.Rewards.Registration
import IndexDtf.Admin.FeeConfigs
import IndexDtf.Lib.SlotMap
import IndexDtf.Folio.PokeErrors
import IndexDtf.Folio.BasketMaps
import IndexDtf.Folio.BasketRuns
import IndexDtf.Folio.StaleSlots
import IndexDtf.Admin.Registrar
import IndexDtf.Folio.MintAcceptance
import IndexDtf.Lib.Loop
import IndexDtf.Shared.DecimalLoops
import IndexDtf.Shared.DecimalAccuracy
import IndexDtf.Lib.Store
import IndexDtf.Governance.Config
import IndexDtf.Governance.Records
import IndexDtf.Governance.Proposal
import IndexDtf.Governance.Dao
import IndexDtf.Governance.Instructions.Records
import IndexDtf.Governance.Instructions.Config
import IndexDtf.Governance.Instructions.Proposals
import IndexDtf.Governance.Program
import IndexDtf.Governance.ProposalSpec
import IndexDtf.Governance.Effects
import IndexDtf.Governance.Links
import IndexDtf.Governance.Counts
import IndexDtf.Governance.Tally
import IndexDtf.Governance.Signatories
import IndexDtf.Governance.Resolution
import IndexDtf.Governance.Transactions
import IndexDtf.Governance.Stages
import IndexDtf.Governance.Changes
import IndexDtf.Governance.Invocations
import IndexDtf.Governance.Runs
import IndexDtf.Governance.Execution
import IndexDtf.Governance.Stakes
import IndexDtf.Governance.SelfGovernance
import IndexDtf.Governance.RequiredSignatories
import IndexDtf.Governance.Backing
import IndexDtf.Governance.Tipping
