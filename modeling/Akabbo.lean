import Akabbo.StatementProgram
import Akabbo.ReadCommitted
import Akabbo.RowTable
import Akabbo.TenantLinks
import Akabbo.Access
import Akabbo.PledgeStatus
import Akabbo.LedgerState
import Akabbo.LedgerWrites
import Akabbo.LedgerStatements
import Akabbo.PledgeBook
import Akabbo.LedgerEffects
import Akabbo.LedgerSpecs
import Akabbo.LedgerRuns
import Akabbo.PledgeInterleavings
import Akabbo.LedgerReads
import Akabbo.LedgerTotals
import Akabbo.PaymentReplay
import Akabbo.ProgramLogic
import Akabbo.CreditPool
import Akabbo.PlanCatalog
import Akabbo.BillingState
import Akabbo.Entitlement
import Akabbo.BillingWrites
import Akabbo.BillingRuns
import Akabbo.AuditTrail
import Akabbo.ProgramParts
import Akabbo.WeakestPreconditions
import Akabbo.StoppedCalls
import Akabbo.TwoConnections
import Akabbo.AsyncRoutines
import Akabbo.CompletedCalls
import Akabbo.CallRuns
import Akabbo.EventWrites
import Akabbo.PublicNotices
import Akabbo.ServiceCalls
import Akabbo.ServiceSteps
import Akabbo.EventSteps
import Akabbo.Provenance
import Akabbo.SmsCampaigns
import Akabbo.ToolExecutor
import Akabbo.Confirmations
import Akabbo.CaptureRouting
import Akabbo.ServiceEffects
import Akabbo.ExecutorFrame
import Akabbo.ExecutorSteps
import Akabbo.CaptureSteps
import Akabbo.CaptureStaging
import Akabbo.ContributionSteps
import Akabbo.TenantClosure
import Akabbo.ConfirmationRaces
import Akabbo.ConfirmationOutcomes
import Akabbo.GiftSteps
import Akabbo.RepeatedGifts
import Akabbo.TeamCalls
import Akabbo.AssistantMutations
import Akabbo.EventOwners
import Akabbo.TeamSeats
import Akabbo.EarmarkedMoney
import Akabbo.PaidCampaigns
import Akabbo.AssistantTurns
import Akabbo.StagedTurns
import Akabbo.AgentSessions
import Akabbo.CreditScopes
import Akabbo.ConversationTurns
import Akabbo.TurnCredits
import Akabbo.TurnSettlements
import Akabbo.StagedMutations
import Akabbo.StagedReports
import Akabbo.ViewerCalls
import Akabbo.SmsDeliveries
import Akabbo.ConfirmedAsShown
import Akabbo.WorkClaims
import Akabbo.OutboxDrain
import Akabbo.OutboxBacklog
import Akabbo.ClosedEvents
import Akabbo.PairedRuns
import Akabbo.PublicPage
import Akabbo.Reports
import Akabbo.ViewerReads
import Akabbo.CommitOrder
import Akabbo.SettingsRaces
import Akabbo.InvitationRaces
import Akabbo.RosterRaces
import Akabbo.DoublePayments
import Akabbo.EventCeiling
import Akabbo.PublicLinks
import Akabbo.SharedCache
import Akabbo.PublicCache
import Akabbo.LapsedGrants
import Akabbo.BigintCasts
import Akabbo.CaughtErrors
import Akabbo.FirstClaim
import Akabbo.Extraction
import Akabbo.ExtractionDeliveries
import Akabbo.DirectGifts
import Akabbo.MergedPeople
import Akabbo.OtpChallenges
import Akabbo.OtpCooldowns
import Akabbo.OtpAttempts
import Akabbo.RelyGuarantee
import Akabbo.SignupTrials
import Akabbo.ContributorStandings
import Akabbo.PaymentCallbacks
import Akabbo.RegularExpressions
import Akabbo.TextPatterns
import Akabbo.Binary64
import Akabbo.Amounts
import Akabbo.ExactAmounts
import Akabbo.Tier1Parser
import Akabbo.MoneyTokens
import Akabbo.SpokenClauses
import Akabbo.RecordedUtterances
import Akabbo.MatchedAmounts
import Akabbo.JoinedUtterances
import Akabbo.AskedNames
import Akabbo.ExtractionContracts
import Akabbo.ScannedRows
import Akabbo.SpokenWords
import Akabbo.KindRows
import Akabbo.IndependentRows
import Akabbo.BudgetGaps
import Akabbo.ContributorLists
import Akabbo.ContributorPages
import Akabbo.MatchingContributors
import Akabbo.SortedPages
import Akabbo.PagedContributors
import Akabbo.FormUrlencoded
import Akabbo.ReportLinks
import Akabbo.CommaSeparated
import Akabbo.ContributorExports
import Akabbo.TracedTurns
import Akabbo.RedirectedReports
import Akabbo.ReminderCampaigns
import Akabbo.BudgetLineRaces
import Akabbo.ReserveRaces
import Akabbo.InvoiceDeliveries
import Akabbo.PaidEntitlements
import Akabbo.LearnedGuidance
import Akabbo.PromptGuidance
import Akabbo.AbortedTransactions
import Akabbo.SwallowedDuplicates
import Akabbo.MemberTargets
import Akabbo.PublicRateLimits
import Akabbo.BulkResults
import Akabbo.SpelledCategories
import Akabbo.IngestedObservations
import Akabbo.RedactedTraces
import Akabbo.VerifiedSessions
import Akabbo.SessionTokens
import Akabbo.Noninterference
import Akabbo.TenantViews
import Akabbo.ConfinedLedger
import Akabbo.ConfinedServices
import Akabbo.TenantIsolation
import Akabbo.EventReads
import Akabbo.StuckPaymentAlerts
