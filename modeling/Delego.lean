import Delego.Saga.Rollback
import Delego.Payments.Decisions
import Delego.Disputes.Lifecycle
import Delego.Disbursement.Quorum
import Delego.Disbursement.Broadcast
import Delego.Subscriptions.PaidThrough
import Delego.Inventory.Engine
import Delego.Inventory.Reservation
import Delego.Policies.Limits
import Delego.DualControl.Expiry
import Delego.FundingLock.Exclusion
import Delego.Workflow.Replay
import Delego.Purchase.BuyerRefund
import Delego.Outbox.Exclusive
import Delego.Webhooks.ReplayGuard
import Delego.Checkout.Once
import Delego.Payouts.Once
import Delego.SessionKeys.Revocation
import Delego.Wallet.Cursors
import Delego.Wallet.Limited
import Delego.Multisig.Execution
import Delego.Recovery.Lock
import Delego.SocialRecovery.Once
import Delego.SigningSession.Once
import Delego.CoSigning.Once
import Delego.DeadLetters.Replays
import Delego.GasTank.Budgets
import Delego.Permissions.KillSwitch
import Delego.Batching.Conservation
import Delego.AuditLog.Honest
import Delego.Encryption.Index
import Delego.CacheAside.Invalidation
import Delego.TaggedCache.Reachable
import Delego.Sessions.Invalidated
import Delego.RedisLock.Ownership
import Delego.AccountRecovery.Lifecycle
import Delego.MultiCurrency.Balance
import Delego.CartSync.Histories
import Delego.RateLimit.SlidingWindow
import Delego.Tokens.Families
import Delego.Passkeys.Redeemed
import Delego.Streams.Once
import Delego.Scheduler.Once
import Delego.Ingestion.Resumed
import Delego.Polling.Skipped
import Delego.RateLimit.TokenBucket
import Delego.Subscriptions.BillingCycle
import Delego.Oracle.Payload
import Delego.Inventory.Allocation
import Delego.Checkout.CartPartition
import Delego.MerchantSettlement.Identifiers
import Delego.Disputes.AutoMediation
import Delego.Checkout.Fingerprint
import Delego.Purchase.Accounting
import Delego.Encryption.Context
import Delego.Audit.Merkle
import Delego.Purchase.LeaseBudget
import Delego.Wallet.Windows
import Delego.Wallet.SignedQuotes
import Delego.Streams.Replay
import Delego.Reconciliation.Similarity
import Delego.Templates.Inheritance
