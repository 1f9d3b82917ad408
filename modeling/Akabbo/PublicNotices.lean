import Akabbo.EventWrites

/-!
# Announcements and ways to contribute

What the organisers tell the public. Publishing, archiving and every change of a way to
contribute count up the revision of the public page.
-/
namespace Akabbo.PublicNotices
open Access RowTable StatementProgram LedgerState LedgerWrites EventWrites
open StatementProgram.Program (query modifyChecked refuse orThrow)

def AnnouncementStatus.name : AnnouncementStatus → String
  | .draft => "DRAFT"
  | .published => "PUBLISHED"
  | .archived => "ARCHIVED"

def bumpRevision (eventId : ℕ) : LedgerProgram Event :=
  updateEventRow eventId (fun e => { e with publicRevision := e.publicRevision + 1 }) fun _ => rfl

def findAnnouncement (db : LedgerDb) (eventId id : ℕ) : Option EventAnnouncement :=
  db.announcements.find? fun a => a.eventId == eventId && a.id == id

def createAnnouncement (ctx : OperationContext) (body : String) (source : ProvenanceSource)
    (draw : EventDraw) : LedgerProgram EventAnnouncement := do
  refuse (assertPermission ctx.event.role .announcementWrite)
  let a : EventAnnouncement := ⟨draw.rowId, ctx.event.eventId, body, .draft, none⟩
  change [.announcement a.id]
    (fun db => if db.announcements.has a.id then some (.uniqueViolation "event_announcement")
      else none)
    fun db => { db with announcements := db.announcements.insertNew a }
  writeAudit ctx "announcement:create" "event_announcement" a.id source none
    (some [("body", .text body)])
  return a

/-- The time of publishing stays when an announcement is archived. -/
def transitioned (status : AnnouncementStatus) (now : ℕ) (a : EventAnnouncement) :
    EventAnnouncement :=
  { a with status, publishedAt := if status = .published then some now else a.publishedAt }

/-- Any status may follow any other. -/
def transition (ctx : OperationContext) (id : ℕ) (status : AnnouncementStatus) (action : String)
    (now : ℕ) : LedgerProgram EventAnnouncement := do
  refuse (assertPermission ctx.event.role .announcementWrite)
  let found ← query fun db => findAnnouncement db ctx.event.eventId id
  let current ← orThrow found (.notFound "Announcement not found in this event")
  let a ← modifyChecked (fun _ => [.announcement id])
    (fun db => match findAnnouncement db ctx.event.eventId id with
      | some a => .ok (transitioned status now a)
      | none => .error (.recordNotFound "event_announcement"))
    fun db => { db with
      announcements := db.announcements.update
        (fun a => a.eventId == ctx.event.eventId && a.id == id) (transitioned status now)
        fun _ => rfl }
  let _ ← bumpRevision ctx.event.eventId
  writeAudit ctx action "event_announcement" id .humanTyped
    (some [("status", .text (AnnouncementStatus.name current.status))])
    (some [("status", .text (AnnouncementStatus.name status))])
  return a

def publish (ctx : OperationContext) (id now : ℕ) : LedgerProgram EventAnnouncement :=
  transition ctx id .published "announcement:publish" now

def archive (ctx : OperationContext) (id now : ℕ) : LedgerProgram EventAnnouncement :=
  transition ctx id .archived "announcement:archive" now

structure PaymentInstructionInput where
  method : PaymentMethod
  label : String
  details : String
  displayOrder : Option ℤ := none
  isPublic : Option Bool := none
  deriving DecidableEq, Repr

structure PaymentInstructionUpdate where
  method : Option PaymentMethod := none
  label : Option String := none
  details : Option String := none
  displayOrder : Option ℤ := none
  isPublic : Option Bool := none
  deriving DecidableEq, Repr

def findInstruction (db : LedgerDb) (eventId id : ℕ) : Option PaymentInstruction :=
  db.paymentInstructions.find? fun i => i.eventId == eventId && i.id == id

def createInstruction (ctx : OperationContext) (input : PaymentInstructionInput)
    (draw : EventDraw) : LedgerProgram PaymentInstruction := do
  refuse (assertPermission ctx.event.role .paymentInstructionWrite)
  let row : PaymentInstruction :=
    { id := draw.rowId
      eventId := ctx.event.eventId
      method := input.method
      label := input.label
      details := input.details
      displayOrder := input.displayOrder.getD 0
      isPublic := input.isPublic.getD true
      createdAt := draw.now }
  change [.paymentInstruction row.id]
    (fun db => if db.paymentInstructions.has row.id then
      some (.uniqueViolation "payment_instruction") else none)
    fun db => { db with paymentInstructions := db.paymentInstructions.insertNew row }
  let _ ← bumpRevision ctx.event.eventId
  writeAudit ctx "payment_instruction:create" "payment_instruction" row.id .humanTyped none
    (some [("method", .text row.method.name), ("label", .text row.label)])
  return row

def PaymentInstructionUpdate.apply (input : PaymentInstructionUpdate) (i : PaymentInstruction) :
    PaymentInstruction :=
  { i with
    method := input.method.getD i.method
    label := input.label.getD i.label
    details := input.details.getD i.details
    displayOrder := input.displayOrder.getD i.displayOrder
    isPublic := input.isPublic.getD i.isPublic }

def updateInstruction (ctx : OperationContext) (id : ℕ) (input : PaymentInstructionUpdate) :
    LedgerProgram PaymentInstruction := do
  refuse (assertPermission ctx.event.role .paymentInstructionWrite)
  let found ← query fun db => findInstruction db ctx.event.eventId id
  let _ ← orThrow found (.notFound "Payment instruction not found in this event")
  let row ← modifyChecked (fun _ => [.paymentInstruction id])
    (fun db => match findInstruction db ctx.event.eventId id with
      | some i => .ok (input.apply i)
      | none => .error (.recordNotFound "payment_instruction"))
    fun db => { db with
      paymentInstructions := db.paymentInstructions.update
        (fun i => i.eventId == ctx.event.eventId && i.id == id) input.apply fun _ => rfl }
  let _ ← bumpRevision ctx.event.eventId
  writeAudit ctx "payment_instruction:update" "payment_instruction" id .humanTyped none
    (some [("method", .text row.method.name), ("label", .text row.label),
      ("isPublic", .flag row.isPublic)])
  return row

def removeInstruction (ctx : OperationContext) (id : ℕ) : LedgerProgram ℕ := do
  refuse (assertPermission ctx.event.role .paymentInstructionWrite)
  let found ← query fun db => findInstruction db ctx.event.eventId id
  let _ ← orThrow found (.notFound "Payment instruction not found in this event")
  change [.paymentInstruction id]
    (fun db => if (findInstruction db ctx.event.eventId id).isNone then
      some (.recordNotFound "payment_instruction") else none)
    fun db => { db with
      paymentInstructions := db.paymentInstructions.delete fun i =>
        i.eventId == ctx.event.eventId && i.id == id }
  let _ ← bumpRevision ctx.event.eventId
  writeAudit ctx "payment_instruction:delete" "payment_instruction" id .humanTyped
    (some [("id", .id id)]) none
  return id

end Akabbo.PublicNotices
