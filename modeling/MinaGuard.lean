import MinaGuard.Foundations.TransitionSystem
import MinaGuard.Foundations.ChainCommitment
import MinaGuard.Foundations.MapCommitment
import MinaGuard.Foundations.Check
import MinaGuard.Foundations.InsertionMap
import MinaGuard.Foundations.AtomicPrograms
import MinaGuard.Foundations.StableSort
import MinaGuard.Foundations.Utf8
import MinaGuard.Foundations.Pages
import MinaGuard.Foundations.Footprints
import MinaGuard.Foundations.Tiles
import MinaGuard.Foundations.Keyset
import MinaGuard.Foundations.Heap
import MinaGuard.Foundations.Splitting
import MinaGuard.Foundations.Tasks
import MinaGuard.Foundations.TiedPages
import MinaGuard.Foundations.KeyedRows
import MinaGuard.Foundations.ForkedHistory
import MinaGuard.Contract.Field
import MinaGuard.Contract.Data
import MinaGuard.Contract.OwnerList
import MinaGuard.Contract.OwnerListSpec
import MinaGuard.Contract.Circuit
import MinaGuard.Contract.Validation
import MinaGuard.Contract.Methods
import MinaGuard.Contract.Ledger
import MinaGuard.Contract.Inclusion
import MinaGuard.Contract.MethodSpec
import MinaGuard.Contract.Effects
import MinaGuard.Contract.HonestProver
import MinaGuard.Vault.State
import MinaGuard.Vault.Commitments
import MinaGuard.Vault.Invariant
import MinaGuard.Vault.Refinement
import MinaGuard.Vault.Simulation
import MinaGuard.Vault.Runs
import MinaGuard.Vault.History
import MinaGuard.Vault.Counters
import MinaGuard.Vault.Ballots
import MinaGuard.Vault.Published
import MinaGuard.Vault.OwnerLog
import MinaGuard.Vault.Blocks
import MinaGuard.Indexer.Payload
import MinaGuard.Indexer.Json
import MinaGuard.Indexer.Memo
import MinaGuard.Indexer.Archive
import MinaGuard.Indexer.Delivery
import MinaGuard.Indexer.Database
import MinaGuard.Indexer.Apply
import MinaGuard.Indexer.ApplySpec
import MinaGuard.Indexer.Refusals
import MinaGuard.Indexer.Sync
import MinaGuard.Indexer.SyncSpec
import MinaGuard.Indexer.Ingest
import MinaGuard.Indexer.ProposalRecord
import MinaGuard.Indexer.Submissions
import MinaGuard.Indexer.MemoSpec
import MinaGuard.Indexer.ProposalRoutes
import MinaGuard.Indexer.ProposalRoutesSpec
import MinaGuard.Indexer.Reorg
import MinaGuard.Indexer.ContractRows
import MinaGuard.Indexer.RowFootprints
import MinaGuard.Indexer.FirstScans
import MinaGuard.Indexer.SubmissionLimiter
import MinaGuard.Indexer.TxStatusCache
import MinaGuard.Clients.EventRebuild
import MinaGuard.Clients.RebuildMaps
import MinaGuard.Clients.RebuildOwners
import MinaGuard.Clients.OwnerFlow
import MinaGuard.Clients.ContractListing
import MinaGuard.Clients.EventPages
import MinaGuard.Clients.JsValue
import MinaGuard.Indexer.BlockRanges
import MinaGuard.Clients.Preflight
import MinaGuard.Clients.PreflightSpec
import MinaGuard.Clients.Bundle
import MinaGuard.Clients.Checkpoint
import MinaGuard.Clients.CheckpointSpec
import MinaGuard.Clients.ChildConfig
import MinaGuard.Clients.ChildConfigSpec
import MinaGuard.Clients.StoreCache
import MinaGuard.Clients.StoreCacheSpec
import MinaGuard.Clients.Proposals
import MinaGuard.Clients.Summary
import MinaGuard.Clients.Amounts
import MinaGuard.Clients.Recipients
import MinaGuard.Clients.ReceiverRows
import MinaGuard.Clients.AccountFees
import MinaGuard.Clients.VaultSecurity
import MinaGuard.Instance.Tables
import MinaGuard.Instance.Book
import MinaGuard.Instance.Keys
import MinaGuard.Properties.Quorum
import MinaGuard.Properties.Governance
import MinaGuard.Properties.Approvals
import MinaGuard.Properties.Replay
import MinaGuard.Properties.Execution
import MinaGuard.Properties.DeadProposals
import MinaGuard.Properties.Hierarchy
import MinaGuard.Properties.Creation
import MinaGuard.Properties.Funds
import MinaGuard.Properties.Recovery
import MinaGuard.Properties.Rebuild
import MinaGuard.Properties.Ingestion
import MinaGuard.Properties.Owners
import MinaGuard.Properties.Incremental
import MinaGuard.Properties.Reservation
import MinaGuard.Properties.Status
import MinaGuard.Properties.Submissions
import MinaGuard.Properties.StoreCache
import MinaGuard.Properties.Summary
import MinaGuard.Properties.Preflight
import MinaGuard.Properties.AccountFees
import MinaGuard.Properties.Memo
import MinaGuard.Properties.Listing
import MinaGuard.Properties.EventDecoding
import MinaGuard.Properties.Reorg
import MinaGuard.Properties.FirstScans
import MinaGuard.Properties.Checkpoint
import MinaGuard.Properties.BlockRanges
import MinaGuard.Properties.SubmissionLimiter
import MinaGuard.Properties.TxStatusCache
import MinaGuard.Properties.Amounts
import MinaGuard.Properties.VaultSecurity
import MinaGuard.Properties.ContractListing
import MinaGuard.Properties.EventPages
import MinaGuard.Foundations.LastWords
import MinaGuard.Vault.OwnerWords
import MinaGuard.Indexer.OwnerRoutes
import MinaGuard.Indexer.Fingerprints
import MinaGuard.Indexer.Snapshots
import MinaGuard.Indexer.OwnerRows
import MinaGuard.Indexer.OwnerSyncs
import MinaGuard.Properties.OwnerMirror
import MinaGuard.Properties.Forks
import MinaGuard.Indexer.Views
import MinaGuard.Indexer.TableKeys
import MinaGuard.Indexer.ViewSpec
import MinaGuard.Indexer.ViewApply
import MinaGuard.Indexer.EventIndex
import MinaGuard.Indexer.Deletions
import MinaGuard.Indexer.IndexSteps
import MinaGuard.Indexer.IndexRuns
import MinaGuard.Indexer.IndexCore
import MinaGuard.Indexer.Forks
import MinaGuard.Indexer.Orphans
import MinaGuard.Indexer.ForkedIndex
import MinaGuard.Instance.Archive
