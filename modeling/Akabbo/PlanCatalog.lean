import Mathlib.Tactic

/-!
# The plan catalog

The single configured table of plans: their prices, limits, bundled credits and feature
flags. The `plan` table of the database is kept equal to it.
-/
namespace Akabbo.PlanCatalog

inductive PlanCode
  | free | starter | standard | premium | organizerPro | business | smsTopUp100 | smsTopUp300
  deriving DecidableEq, Repr

def PlanCode.name : PlanCode → String
  | .free => "FREE"
  | .starter => "STARTER"
  | .standard => "STANDARD"
  | .premium => "PREMIUM"
  | .organizerPro => "ORGANIZER_PRO"
  | .business => "BUSINESS"
  | .smsTopUp100 => "SMS_TOP_UP_100"
  | .smsTopUp300 => "SMS_TOP_UP_300"

def PlanCode.all : List PlanCode :=
  [.free, .starter, .standard, .premium, .organizerPro, .business, .smsTopUp100, .smsTopUp300]

inductive PlanScope
  | event | account
  deriving DecidableEq, Repr

/-- `maxContributors = none` is unlimited. -/
structure PlanConfig where
  code : PlanCode
  name : String
  scope : PlanScope
  priceMinor : ℕ
  currency : String
  maxContributors : Option ℕ
  includedSmsCredits : ℕ
  includedAiCredits : ℕ
  features : List String
  isSubscription : Bool
  deriving DecidableEq, Repr

def planCatalog : PlanCode → PlanConfig
  | .free =>
      { code := .free
        name := "Free Trial"
        scope := .event
        priceMinor := 0
        currency := "UGX"
        maxContributors := some 15
        includedSmsCredits := 10
        includedAiCredits := 15
        features := ["basic_analytics"]
        isSubscription := false }
  | .starter =>
      { code := .starter
        name := "Starter Pack"
        scope := .event
        priceMinor := 10000
        currency := "UGX"
        maxContributors := some 100
        includedSmsCredits := 100
        includedAiCredits := 500
        features := ["unwatermarked_reports", "seats_3"]
        isSubscription := false }
  | .standard =>
      { code := .standard
        name := "Standard Pack"
        scope := .event
        priceMinor := 30000
        currency := "UGX"
        maxContributors := some 300
        includedSmsCredits := 300
        includedAiCredits := 1500
        features := ["unwatermarked_reports", "seats_10", "custom_branding"]
        isSubscription := false }
  | .premium =>
      { code := .premium
        name := "Premium Pack"
        scope := .event
        priceMinor := 60000
        currency := "UGX"
        maxContributors := some 1000
        includedSmsCredits := 600
        includedAiCredits := 5000
        features := ["unwatermarked_reports", "unlimited_seats", "custom_branding",
          "priority_support"]
        isSubscription := false }
  | .organizerPro =>
      { code := .organizerPro
        name := "Organizer Pro Subscription"
        scope := .account
        priceMinor := 30000
        currency := "UGX"
        maxContributors := some 500
        includedSmsCredits := 300
        includedAiCredits := 3000
        features := ["unwatermarked_reports", "seats_5"]
        isSubscription := true }
  | .business =>
      { code := .business
        name := "Business Subscription"
        scope := .account
        priceMinor := 120000
        currency := "UGX"
        maxContributors := none
        includedSmsCredits := 1000
        includedAiCredits := 10000
        features := ["unwatermarked_reports", "unlimited_seats", "custom_branding",
          "dedicated_account_manager"]
        isSubscription := true }
  | .smsTopUp100 =>
      { code := .smsTopUp100
        name := "SMS Top-Up — 100 messages"
        scope := .event
        priceMinor := 6000
        currency := "UGX"
        maxContributors := none
        includedSmsCredits := 100
        includedAiCredits := 0
        features := []
        isSubscription := false }
  | .smsTopUp300 =>
      { code := .smsTopUp300
        name := "SMS Top-Up — 300 messages"
        scope := .event
        priceMinor := 16000
        currency := "UGX"
        maxContributors := none
        includedSmsCredits := 300
        includedAiCredits := 0
        features := []
        isSubscription := false }

/-- `plan.findUnique` by code. -/
def findPlan (code : String) : Option PlanConfig :=
  (PlanCode.all.find? fun c => c.name == code).map planCatalog

theorem planCatalog_code (c : PlanCode) : (planCatalog c).code = c := by
  cases c <;> rfl

/-- `/^seats_\d+$/`, with the number it spells. -/
def seatsFeature? (feature : String) : Option ℕ :=
  match feature.toList with
  | 's' :: 'e' :: 'a' :: 't' :: 's' :: '_' :: digits =>
      if digits ≠ [] ∧ digits.all Char.isDigit then
        some (digits.foldl (fun n d => 10 * n + (d.toNat - '0'.toNat)) 0)
      else none
  | _ => none

/-- The team-seat allowance of a plan's features; `none` is no cap. -/
def seatsFromFeatures (features : List String) : Option ℕ :=
  if features.contains "unlimited_seats" then none
  else match features.findSome? seatsFeature? with
    | some seats => some seats
    | none => some 1

example : seatsFromFeatures (planCatalog .standard).features = some 10 ∧
    seatsFromFeatures (planCatalog .smsTopUp100).features = some 1 := by decide

end Akabbo.PlanCatalog
