import Akabbo.EventWrites
import Akabbo.ProgramParts

/-!
# SMS campaigns

Queueing a campaign and sending it, over any rows that hold the event tables. The credit
services and the provider are programs of their own: the services here call them in the
midst of their statements.
-/
namespace Akabbo.SmsCampaigns
open Access PledgeStatus RowTable StatementProgram ProgramParts LedgerState LedgerWrites EventWrites
open StatementProgram.Program (query refuse runIf)

structure Recipient where
  personId : ℕ
  displayName : String
  phone : String
  deriving DecidableEq, Repr

structure SendResult where
  campaignId : ℕ
  queued : ℕ
  skipped : ℕ
  deriving DecidableEq, Repr

/-- The order of names that the database is set to. -/
structure Collation where
  le : String → String → Bool
  total : ∀ a b, le a b = true ∨ le b a = true
  trans : ∀ {a b c}, le a b = true → le b c = true → le a c = true

def Collation.codePoints : Collation where
  le a b := decide (a ≤ b)
  total a b := by simpa using String.le_total a b
  trans hab hbc := by simpa using String.le_trans (of_decide_eq_true hab) (of_decide_eq_true hbc)

section resolution
variable (collation : Collation)

/-- `ORDER BY p.display_name ASC`. -/
def byName (rows : List Person) : List Person :=
  rows.insertionSort fun a b => collation.le a.displayName b.displayName

def recipients (rows : List Person) : List Recipient :=
  (byName collation rows).filterMap fun p => p.phone.map fun phone => ⟨p.id, p.displayName, phone⟩

def liveOf (eventId personId : ℕ) (p : Pledge) : Bool :=
  p.eventId == eventId && p.personId == personId && p.status != .cancelled

/-- Everyone of the event with a phone who still owes. -/
def unpaidWithPhone (db : LedgerDb) (eventId : ℕ) : List Recipient :=
  recipients collation <| db.persons.rows.filter fun q => q.eventId == eventId &&
    decide (sumWhere db.fulfillments.rows
        (fun f => f.eventId == eventId && db.pledges.rows.any fun p =>
          p.id == f.pledgeId && liveOf eventId q.id p) Fulfillment.value <
      sumWhere db.pledges.rows (liveOf eventId q.id) Pledge.committedValue)

def allWithPhone (db : LedgerDb) (eventId : ℕ) : List Recipient :=
  recipients collation <| db.persons.rows.filter fun q => q.eventId == eventId

def specificWithPhone (db : LedgerDb) (eventId : ℕ) (personIds : List ℕ) : List Recipient :=
  recipients collation <| db.persons.rows.filter fun q => q.eventId == eventId && decide (q.id ∈ personIds)

/-- No selection is everyone who still owes. -/
def selected (db : LedgerDb) (eventId : ℕ) (personIds : List ℕ) : List Recipient :=
  if personIds = [] then unpaidWithPhone collation db eventId
  else specificWithPhone collation db eventId personIds

/-- Who would be reminded; the caller may read what was sent. -/
def previewRecipients (ctx : OperationContext) (personIds : List ℕ) :
    LedgerProgram (List Recipient) := do
  refuse (assertPermission ctx.event.role .smsRead)
  query fun db => selected collation db ctx.event.eventId personIds

end resolution

/-- What a replacement text becomes around one match: `$$`, `$&`, and the text on either
side of the match. -/
def expand (before matched after : List Char) : List Char → List Char
  | '$' :: '$' :: rest => '$' :: expand before matched after rest
  | '$' :: '&' :: rest => matched ++ expand before matched after rest
  | '$' :: '\x60' :: rest => before ++ expand before matched after rest
  | '$' :: '\'' :: rest => after ++ expand before matched after rest
  | c :: rest => c :: expand before matched after rest
  | [] => []

def placeholder : List Char := ['\x7b', 'n', 'a', 'm', 'e', '\x7d']

/-- `template.replace(/\x7bname\x7d/gi, name)`, from the characters still to read and those
already passed. -/
def replaceFrom (name : List Char) : ℕ → List Char → List Char → List Char
  | 0, _, rest => rest
  | _ + 1, _, [] => []
  | n + 1, passed, c :: rest =>
      if ((c :: rest).take 6).map Char.toLower = placeholder then
        expand passed ((c :: rest).take 6) ((c :: rest).drop 6) name ++
          replaceFrom name n (passed ++ (c :: rest).take 6) ((c :: rest).drop 6)
      else c :: replaceFrom name n (passed ++ [c]) rest

def personalise (template name : String) : String :=
  String.ofList (replaceFrom name.toList (template.toList.length + 1) [] template.toList)

def insertCampaign (campaign : SmsCampaign) : LedgerProgram Unit :=
  change [.smsCampaign campaign.id]
    (fun db => if db.smsCampaigns.has campaign.id then some (.uniqueViolation "sms_campaign")
      else none)
    fun db => { db with smsCampaigns := db.smsCampaigns.insertNew campaign }

def updateCampaign (eventId id : ℕ) (f : SmsCampaign → SmsCampaign) (hf : ∀ c, (f c).id = c.id) :
    LedgerProgram Unit :=
  change [.smsCampaign id]
    (fun db => if db.smsCampaigns.rows.any fun c => c.eventId == eventId && c.id == id then none
      else some (.recordNotFound "sms_campaign"))
    fun db => { db with
      smsCampaigns := db.smsCampaigns.update (fun c => c.eventId == eventId && c.id == id) f hf }

def insertMessage (m : SmsMessage) : LedgerProgram Unit :=
  change [.smsMessage m.id]
    (fun db =>
      if db.smsMessages.has m.id then some (.uniqueViolation "sms_message")
      else if m.personId.any fun p => !db.persons.has p then some (.foreignKeyViolation "sms_message")
      else none)
    fun db => { db with smsMessages := db.smsMessages.insertNew m }

def updateMessage (eventId id : ℕ) (f : SmsMessage → SmsMessage) (hf : ∀ m, (f m).id = m.id) :
    LedgerProgram Unit :=
  change [.smsMessage id]
    (fun db => if db.smsMessages.rows.any fun m => m.eventId == eventId && m.id == id then none
      else some (.recordNotFound "sms_message"))
    fun db => { db with
      smsMessages := db.smsMessages.update (fun m => m.eventId == eventId && m.id == id) f hf }

/-- The billing calls for one credit at a time; they run on a connection of their own. -/
structure Credits (κ σ : Type) where
  reserve : (eventId : ℕ) → (reserveKey : String) → Program κ σ Refusal Bool
  commit : (eventId : ℕ) → (reserveKey : String) → Program κ σ Refusal Unit
  refund : (eventId : ℕ) → (reserveKey : String) → Program κ σ Refusal Unit

/-- What the world supplies to a campaign: its id, the ids of its messages, and the order of names. -/
structure CampaignDraw where
  campaignId : ℕ
  messageId : ℕ → ℕ
  collation : Collation

def reserveKey (messageId : ℕ) : String := s!"sms:{messageId}"

def queuedMessage (eventId campaignId id : ℕ) (body : String) (r : Recipient) : SmsMessage :=
  { id
    eventId
    campaignId
    personId := some r.personId
    toPhone := r.phone
    body := personalise body r.displayName
    status := .queued
    segments := 1
    providerMessageId := none
    reserveKey := reserveKey id
    error := none
    sentAt := none }

inductive SmsDeliveryStatus
  | queued | sent | delivered | failed
  deriving DecidableEq, Repr

structure SmsSendResult where
  providerMessageId : String
  status : SmsDeliveryStatus
  segments : ℕ
  error : Option String := none
  deriving DecidableEq, Repr

structure SmsSendRequest where
  toPhone : String
  body : String
  idempotencyKey : ℕ
  deriving DecidableEq, Repr

section services
variable {κ σ : Type} (tables : Part σ LedgerDb) (lock : RowLock → κ) (credits : Credits κ σ)

/-- One credit and one message a recipient, until a credit is refused. -/
def queueAll (eventId : ℕ) (body : String) (draw : CampaignDraw) :
    ℕ → List Recipient → Program κ σ Refusal ℕ
  | queued, [] => pure queued
  | queued, r :: rest => do
      let id := draw.messageId queued
      let ok ← credits.reserve eventId (reserveKey id)
      if ok then do
        tables.run lock (insertMessage (queuedMessage eventId draw.campaignId id body r))
        queueAll eventId body draw (queued + 1) rest
      else pure queued

def campaignRow (campaignId eventId : ℕ) : OutboxRow :=
  ⟨s!"sms-campaign:{campaignId}", eventId, "sms.campaign", [("campaignId", .id campaignId)]⟩

def dispatch (ctx : OperationContext) (kind : SmsCampaignKind) (body : String)
    (resolve : LedgerDb → List Recipient) (draw : CampaignDraw) :
    Program κ σ Refusal SendResult := do
  refuse (assertPermission ctx.event.role .smsSend)
  refuse (assertEventWritable ctx.event.status)
  let eventId := ctx.event.eventId
  let found ← query fun s => resolve (tables.get s)
  tables.run lock (insertCampaign
    ⟨draw.campaignId, eventId, kind, body, .queued, 0, some ctx.actor.userId⟩)
  let queued ← queueAll tables lock credits eventId body draw 0 found
  tables.run lock (updateCampaign eventId draw.campaignId
    (fun c => { c with
      recipientCount := queued, status := if queued > 0 then .sending else .failed }) fun _ => rfl)
  runIf (queued > 0) (tables.run lock (enqueue (campaignRow draw.campaignId eventId)))
  return ⟨draw.campaignId, queued, found.length - queued⟩

def sendReminders (ctx : OperationContext) (body : String) (personIds : List ℕ)
    (draw : CampaignDraw) : Program κ σ Refusal SendResult :=
  dispatch tables lock credits ctx .reminder body
    (fun db => selected draw.collation db ctx.event.eventId personIds) draw

def sendAnnouncement (ctx : OperationContext) (body : String) (personIds : List ℕ)
    (draw : CampaignDraw) : Program κ σ Refusal SendResult :=
  dispatch tables lock credits ctx .announcement body
    (fun db => if personIds = [] then allWithPhone draw.collation db ctx.event.eventId
      else specificWithPhone draw.collation db ctx.event.eventId personIds) draw

/-- The messages of a campaign that wait to be sent. -/
def queuedOf (db : LedgerDb) (eventId campaignId : ℕ) : List SmsMessage :=
  db.smsMessages.rows.filter fun m =>
    m.eventId == eventId && m.campaignId == campaignId && m.status == .queued

def toRequest (m : SmsMessage) : SmsSendRequest := ⟨m.toPhone, m.body, m.id⟩

def markSent (res : SmsSendResult) (now : ℕ) (m : SmsMessage) : SmsMessage :=
  { m with
    status := .sent
    segments := res.segments
    providerMessageId := if res.providerMessageId = "" then none else some res.providerMessageId
    sentAt := some now }

def markFailed (res : Option SmsSendResult) (m : SmsMessage) : SmsMessage :=
  { m with
    status := .failed
    error := some ((res.bind SmsSendResult.error).getD "provider rejected") }

/-- A result that is there and did not fail. -/
def accepted (res : Option SmsSendResult) : Option SmsSendResult :=
  res.filter fun r => r.status != .failed

/-- Each message with its answer: sent and its credit spent, or failed and its credit back. -/
def settleAll (eventId now : ℕ) (results : List SmsSendResult) :
    ℕ → ℕ → ℕ → List SmsMessage → Program κ σ Refusal (ℕ × ℕ)
  | _, sent, failed, [] => pure (sent, failed)
  | i, sent, failed, m :: rest =>
      match accepted results[i]? with
      | some res => do
          tables.run lock (updateMessage eventId m.id (markSent res now) fun _ => rfl)
          credits.commit eventId m.reserveKey
          settleAll eventId now results (i + 1) (sent + 1) failed rest
      | none => do
          tables.run lock (updateMessage eventId m.id (markFailed results[i]?) fun _ => rfl)
          credits.refund eventId m.reserveKey
          settleAll eventId now results (i + 1) sent (failed + 1) rest

def campaignStatus (sent failed : ℕ) : SmsCampaignStatus :=
  if failed = 0 then .sent else if sent = 0 then .failed else .partiallySent

/-- Read what waits, hand it to the provider, and record its answers in a transaction. -/
def processCampaign (sendBulk : List SmsSendRequest → Program κ σ Refusal (List SmsSendResult))
    (eventId campaignId now : ℕ) : Program κ σ Refusal Unit := do
  let pending ← query fun s => queuedOf (tables.get s) eventId campaignId
  if pending.isEmpty then pure ()
  else do
    let results ← sendBulk (pending.map toRequest)
    let (sent, failed) ← settleAll tables lock credits eventId now results 0 0 0 pending
    tables.run lock (updateCampaign eventId campaignId
      (fun c => { c with status := campaignStatus sent failed }) fun _ => rfl)

end services
end Akabbo.SmsCampaigns
