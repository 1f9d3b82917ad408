import Akabbo.CaptureStaging
import Akabbo.PublicNotices
import Akabbo.SmsCampaigns
import Akabbo.TeamCalls

/-!
# The assistant's mutations

Each resolves the names of a request, asking back where they fit nothing or too much. Money,
members and reminders then wait for a human; groups, contacts and announcements do not, and
neither does the new role of a member.
-/
namespace Akabbo.AssistantMutations
open Access PledgeStatus RowTable StatementProgram LedgerState LedgerWrites EventWrites
open ToolExecutor Confirmations CaptureRouting CaptureStaging PublicNotices TeamCalls
open StatementProgram.Program (query refuse orThrow)

/-- What the texts of a request are read with; an id is read from its text. -/
structure AssistantRules extends CaptureRules where
  names : NameRules
  texts : TextRules
  upperCase : String → String
  parseId : String → Option ℕ

section mutations
variable (ctx : OperationContext) (rules : AssistantRules)

/-- The row that waits for a human, with no confidence of the model's own. -/
def stage (action : StoredAction) (prompt : String) (draw : EventDraw) :
    LedgerProgram StageResult := do
  let pending ← create ctx action none prompt draw.rowId
  return .staged pending.id prompt

def ambiguous (candidates : List PersonCandidate) : StageResult :=
  .clarification "Which person do you mean?" (candidates.map PersonCandidate.displayName)

/-- The one person of this name, or the question back. -/
def withPerson (name : String) (f : ℕ → String → LedgerProgram StageResult) :
    LedgerProgram StageResult := do
  let person ← resolvePerson rules.names ctx.event.eventId name
  match person with
  | .ambiguous candidates => return ambiguous candidates
  | .none => return clarify s!"I don't know anyone called {name}."
  | .resolved personId displayName => f personId displayName

/-- What is done with the one row that is found, or the question back. -/
def withOnly {ρ : Type} (find : LedgerDb → List ρ) (missing : StageResult)
    (several : List ρ → StageResult) (f : ρ → LedgerProgram StageResult) :
    LedgerProgram StageResult := do
  let rows ← query find
  match rows with
  | [row] => f row
  | [] => return missing
  | rows => return several rows

def withBudgetItem (name : String) (f : ℕ → String → LedgerProgram StageResult) :
    LedgerProgram StageResult :=
  withOnly (fun db => db.budgetItems.rows.filter fun b =>
      b.eventId == ctx.event.eventId &&
        rules.names.lower b.name == rules.names.lower (rules.names.trim name))
    (clarify s!"There's no budget item called \"{name}\".")
    (fun rows =>
      .clarification s!"More than one budget item matches \"{name}\"." (rows.map BudgetItem.name))
    fun item => f item.id item.name

def withGroup (name : String) (f : ℕ → String → LedgerProgram StageResult) :
    LedgerProgram StageResult :=
  withOnly (fun db => db.groups.rows.filter fun g =>
      g.eventId == ctx.event.eventId &&
        rules.names.lower g.name == rules.names.lower (rules.names.trim name))
    (clarify s!"There's no group called \"{name}\" yet.")
    (fun _ => clarify s!"More than one group matches \"{name}\".")
    fun group => f group.id group.name

def addBudgetItem (name amount : String) (draw : EventDraw) : LedgerProgram StageResult := do
  refuse (assertPermission ctx.event.role .budgetWrite)
  match rules.parseAmountToMinorUnits amount with
  | none => return clarify "Which item, and what amount?"
  | some value =>
    if rules.texts.trim name = "" then return clarify "Which item, and what amount?"
    else
      stage ctx (.createBudgetItem (rules.texts.trim name) (moneyToString value) none)
        s!"Add budget item \"{rules.texts.trim name}\" at {formatMoney value}?" draw

def updateBudgetItem (name amount : String) (draw : EventDraw) : LedgerProgram StageResult := do
  refuse (assertPermission ctx.event.role .budgetWrite)
  match rules.parseAmountToMinorUnits amount with
  | none => return clarify "What should the new amount be?"
  | some value =>
    withBudgetItem ctx rules name fun itemId found =>
      stage ctx (.updateBudgetItem itemId found (moneyToString value))
        s!"Change \"{found}\" to {formatMoney value}?" draw

def removeBudgetItem (name : String) (draw : EventDraw) : LedgerProgram StageResult := do
  refuse (assertPermission ctx.event.role .budgetWrite)
  withBudgetItem ctx rules name fun itemId found =>
    stage ctx (.removeBudgetItem itemId found) s!"Remove budget item \"{found}\"?" draw

/-- What of a payment is earmarked for no line. -/
def unallocated (db : LedgerDb) (f : Fulfillment) : ℤ :=
  (f.value : ℤ) - sumWhere db.allocations.rows
    (fun a => a.eventId == f.eventId && a.fulfillmentId == f.id) Allocation.value

/-- The payments on a person's live pledges, newest first. -/
def paymentsOf (db : LedgerDb) (eventId personId : ℕ) : List Fulfillment :=
  (db.fulfillments.rows.filter fun f => f.eventId == eventId &&
    (livePledges db eventId personId).any fun p => p.id == f.pledgeId).insertionSort
      fun a b => b.occurredAt ≤ a.occurredAt

/-- The newest payment with something left to earmark. -/
def unallocatedFulfillment (db : LedgerDb) (eventId personId : ℕ) : Option (ℕ × ℤ) :=
  ((paymentsOf db eventId personId).find? fun f => decide (unallocated db f > 0)).map fun f =>
    (f.id, unallocated db f)

def allocateToBudget (personName budgetItemName amount : String) (draw : EventDraw) :
    LedgerProgram StageResult := do
  refuse (assertPermission ctx.event.role .budgetWrite)
  match rules.parseAmountToMinorUnits amount with
  | none => return clarify "How much should be allocated?"
  | some value =>
    withBudgetItem ctx rules budgetItemName fun itemId itemName =>
      withPerson ctx rules personName fun personId displayName => do
        let fulfillment ← query fun db => unallocatedFulfillment db ctx.event.eventId personId
        match fulfillment with
        | none => return clarify s!"{displayName} has no unallocated payment to earmark."
        | some (fulfillmentId, left) =>
          if value > left then
            return clarify (s!"{displayName} only has {formatAmount (toString left)} unallocated — " ++
              s!"not enough to cover {formatMoney value}.")
          else
            stage ctx
              (.allocateToBudget fulfillmentId itemId itemName displayName (moneyToString value))
              s!"Allocate {formatMoney value} from {displayName}'s payment to \"{itemName}\"?" draw

def correctPledge (personName amount : String) (draw : EventDraw) : LedgerProgram StageResult := do
  refuse (assertPermission ctx.event.role .fulfillmentCorrect)
  match rules.parseAmountToMinorUnits amount with
  | none => return clarify "What is the corrected pledge amount?"
  | some value =>
    withPerson ctx rules personName fun personId displayName => do
      let pledge ← resolvePledgeForPerson ctx.event.eventId personId
      match pledge with
      | .resolved pledgeId =>
        stage ctx (.correctPledge pledgeId displayName (moneyToString value))
          s!"Correct {displayName}'s pledge to {formatMoney value}?" draw
      | _ => return clarify s!"I can't find a single pledge for {displayName} to correct."

def correctPayment (personName amount : String) (draw : EventDraw) :
    LedgerProgram StageResult := do
  refuse (assertPermission ctx.event.role .fulfillmentCorrect)
  match rules.parseAmountToMinorUnits amount with
  | none => return clarify "What is the corrected payment amount?"
  | some value =>
    withPerson ctx rules personName fun personId displayName => do
      let latest ← query fun db => (paymentsOf db ctx.event.eventId personId).head?
      match latest with
      | none => return clarify s!"I can't find a recorded payment from {displayName}."
      | some f =>
        stage ctx (.correctPayment f.id displayName (moneyToString value))
          s!"Correct {displayName}'s latest payment to {formatMoney value}?" draw

def mergePeople (sourceName targetName : String) (draw : EventDraw) :
    LedgerProgram StageResult := do
  refuse (assertPermission ctx.event.role .personMerge)
  withPerson ctx rules sourceName fun sourceId source =>
    withPerson ctx rules targetName fun targetId target =>
      if sourceId = targetId then return clarify "Those are the same record already."
      else
        stage ctx (.mergePeople sourceId targetId source target)
          (s!"Merge {source} into {target}? All their pledges and payments move across; " ++
            "this cannot be undone automatically.") draw

/-- What a role can do, in plain words. -/
def roleSummary : EventRole → String
  | .coOwner => "co-organize the event with full control, including inviting others"
  | .finance => "record and correct payments"
  | .viewer => "view the event progress but not make changes"
  | _ => "help run the event — add people, record payments, and send reminders"

/-- A text that is not empty once trimmed. -/
def trimmed (text : Option String) : Option String :=
  (text.map rules.texts.trim).filter fun t => t != ""

def inviteMember (name role phone : Option String) (draw : EventDraw) :
    LedgerProgram StageResult := do
  refuse (assertPermission ctx.event.role .memberManage)
  let who := (trimmed rules name).getD "this person"
  match mapRole (rules.texts.trim (rules.texts.lowerCase (role.getD ""))) with
  | none => return clarify (s!"What should {who} be able to do? Reply with one:\n" ++
      "• Help run the event — add people, record payments, and send reminders\n" ++
      "• Handle the money — record and correct payments only\n" ++
      "• Co-organize — full control, including inviting others\n" ++
      "• Just view progress — see the event but not change anything")
  | some role =>
    if draw.seat.allowed then
      stage ctx (.inviteMember role (trimmed rules name) (trimmed rules phone))
        (s!"Invite {who} so they can {roleSummary role}? " ++
          "I'll create a join link they open to enter their phone and verify a code.") draw
    else return clarify (draw.seat.message.getD "Your plan has no free team seats.")

def groupKinds : List GroupKind :=
  [.familySide, .family, .friends, .workmates, .church, .school, .village, .committee, .diaspora,
    .clan, .other]

/-- A kind by its name in capitals; any other word counts as `OTHER`. -/
def groupKindNamed (kind : Option String) : GroupKind :=
  (kind.bind fun word => groupKinds.find? fun k => k.name == rules.upperCase word).getD .other

def createGroup (name : String) (kind : Option String) (draw : EventDraw) :
    LedgerProgram StageResult :=
  if rules.texts.trim name = "" then return clarify "What should the group be called?"
  else do
    let group ← EventWrites.createGroup ctx (rules.texts.trim name) (groupKindNamed rules kind) draw
    return .done s!"Created group \"{group.name}\"."

def updateContact (personName phone : String) (confirmSharedPhone : Bool) :
    LedgerProgram StageResult :=
  if rules.texts.trim phone = "" then return clarify "What is the phone number?"
  else withPerson ctx rules personName fun personId displayName => do
    let _ ← EventWrites.updateContact ctx personId (rules.texts.trim phone) confirmSharedPhone
    return .done (s!"Saved {rules.texts.trim phone} for {displayName} — they can now receive " ++
      "SMS reminders.")

def assignToGroup (personName groupName : String) : LedgerProgram StageResult :=
  withPerson ctx rules personName fun personId displayName =>
    withGroup ctx rules groupName fun groupId group => do
      let _ ← assignPerson ctx personId groupId none
      return .done s!"Added {displayName} to \"{group}\"."

def draftAnnouncement (body : String) (draw : EventDraw) : LedgerProgram StageResult :=
  if rules.texts.trim body = "" then return clarify "What should the announcement say?"
  else do
    let _ ← createAnnouncement ctx (rules.texts.trim body) .aiFromChat draw
    return .done ("Drafted the announcement — review it, then say \"publish\" to make it " ++
      "public.")

/-- A text that is no id is refused by the database, after the permission. -/
def publishDrafted (announcementId : String) (draw : EventDraw) :
    LedgerProgram EventAnnouncement := do
  refuse (assertPermission ctx.event.role .announcementWrite)
  let id ← orThrow (rules.parseId announcementId) (.internal "invalid input syntax for type uuid")
  publish ctx id draw.now

/-- What a preview comes to: nobody, no credit, or a row that waits. -/
def stageReminders (body : String) (recipientCount : ℕ) (smsBalance : ℤ) (draw : EventDraw) :
    LedgerProgram StageResult :=
  let affordable := min (recipientCount : ℤ) smsBalance
  if recipientCount = 0 then
    return .done "Everyone with a phone has paid — no one to remind."
  else if affordable = 0 then
    return clarify (s!"{recipientCount} contributor(s) are outstanding, but you have 0 SMS " ++
      "credits. Top up to send reminders.")
  else
    let note := if affordable < recipientCount then
      s!" (only {affordable} affordable with your {smsBalance} credits)" else ""
    stage ctx (.sendSmsReminders (rules.texts.trim body))
      (s!"Send a reminder to {recipientCount} outstanding contributor(s){note}? " ++
        "This uses SMS credits.") draw

end mutations
end Akabbo.AssistantMutations
