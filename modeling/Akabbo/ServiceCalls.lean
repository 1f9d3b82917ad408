import Akabbo.EventWrites

/-!
# The typed calls

Every write of the event, team, contributor, ledger, budget and file services, as one type
of calls.
-/
namespace Akabbo.ServiceCalls
open Access LedgerState LedgerWrites EventWrites

inductive ServiceCall
  | ledger (call : LedgerCall)
  | createEvent (input : CreateEventInput)
  | updateEvent (input : UpdateEventInput)
  | setEventStatus (status : EventStatus)
  | updateSettings (input : UpdatePublicSettingsInput)
  | rotateAccessToken
  | clearAccessToken
  | addMember (userId : ℕ) (role : EventRole)
  | updateRole (userId : ℕ) (role : EventRole)
  | createInvitation (input : CreateInvitationInput)
  | acceptInvitation (token : String)
  | revokeInvitation (invitationId : ℕ)
  | updateContact (personId : ℕ) (phone : String) (confirmSharedPhone : Bool)
  | linkPersonToUser (personId userId : ℕ)
  | createGroup (name : String) (kind : GroupKind)
  | assignPerson (personId groupId : ℕ) (role : Option String)
  | addItem (input : BudgetItemInput)
  | updateItem (itemId : ℕ) (input : UpdateItemInput)
  | removeItem (itemId : ℕ)
  | allocate (fulfillmentId budgetItemId value : ℕ)
  | upload (maxBytes : ℕ) (input : UploadFileInput)
  | submitForExtraction (fileId : ℕ) (kind : ExtractionKind)
  deriving DecidableEq, Repr

/-- What the world supplies to one call. -/
structure ServiceDraw where
  ledger : LedgerState.Draw
  event : EventDraw
  deriving DecidableEq, Repr

/-- A call on no event of the caller's uses the actor of `ctx` only. -/
def ServiceCall.program (call : ServiceCall) (ctx : OperationContext) (draw : ServiceDraw) :
    LedgerProgram Unit :=
  match call with
  | .ledger call => discard (call.program ctx draw.ledger)
  | .createEvent input => discard (EventWrites.createEvent ctx.actor input draw.event)
  | .updateEvent input => discard (EventWrites.updateEvent ctx input)
  | .setEventStatus status => discard (EventWrites.setEventStatus ctx status)
  | .updateSettings input => discard (EventWrites.updateSettings ctx input)
  | .rotateAccessToken => discard (EventWrites.rotateAccessToken ctx draw.event)
  | .clearAccessToken => discard (EventWrites.clearAccessToken ctx)
  | .addMember userId role => discard (EventWrites.addMember ctx userId role)
  | .updateRole userId role => discard (EventWrites.updateRole ctx userId role)
  | .createInvitation input => discard (EventWrites.createInvitation ctx input draw.event)
  | .acceptInvitation token =>
      discard (EventWrites.acceptInvitation ctx.actor token draw.event.now)
  | .revokeInvitation invitationId => EventWrites.revokeInvitation ctx invitationId
  | .updateContact personId phone confirmSharedPhone =>
      discard (EventWrites.updateContact ctx personId phone confirmSharedPhone)
  | .linkPersonToUser personId userId => discard (EventWrites.linkPersonToUser ctx personId userId)
  | .createGroup name kind => discard (EventWrites.createGroup ctx name kind draw.event)
  | .assignPerson personId groupId role =>
      discard (EventWrites.assignPerson ctx personId groupId role)
  | .addItem input => discard (EventWrites.addItem ctx input draw.event)
  | .updateItem itemId input => discard (EventWrites.updateItem ctx itemId input)
  | .removeItem itemId => discard (EventWrites.removeItem ctx itemId)
  | .allocate fulfillmentId budgetItemId value =>
      discard (EventWrites.allocate ctx fulfillmentId budgetItemId value draw.event)
  | .upload maxBytes input => discard (EventWrites.upload ctx maxBytes input draw.event)
  | .submitForExtraction fileId kind =>
      discard (EventWrites.submitForExtraction ctx fileId kind draw.event)

/-- The rows after calls of one caller, one after another. -/
def served (ctx : OperationContext) (calls : List (ServiceCall × ServiceDraw)) (db : LedgerDb) :
    LedgerDb :=
  calls.foldl (fun db call =>
    (StatementProgram.Program.run (call.1.program ctx call.2) db).2) db

end Akabbo.ServiceCalls
