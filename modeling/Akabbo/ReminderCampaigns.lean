import Mathlib
import Akabbo.PaidCampaigns

/-!
# Reminders that are paid one by one

A preview says how many reminders the credits are enough for, and the campaign queues a message a
credit, until the recipients or the credits are used up.
-/
namespace Akabbo.ReminderCampaigns
open Access RowTable StatementProgram ProgramParts LedgerState LedgerWrites EventWrites SmsCampaigns
open BillingState BillingWrites BillingRuns TwoConnections PaidCampaigns
open Entitlement hiding smsBalance
open StatementProgram.Program

structure ReminderPreview where
  recipientCount : ℕ
  estimatedCredits : ℕ
  smsBalance : ℤ
  affordable : ℤ
  deriving DecidableEq, Repr

def previewReminders (collation : Collation) (ctx : OperationContext) (personIds : List ℕ)
    (draw : BillingState.Draw) : RowsProgram ReminderPreview := do
  let recipients ← onLedger (previewRecipients collation ctx personIds)
  let smsBalance ← onOwn .billing do
    let ent ← resolve (scopeOf ctx.event.eventId) draw
    return ent.balance .sms
  return { recipientCount := recipients.length
           estimatedCredits := recipients.length
           smsBalance
           affordable := min recipients.length smsBalance }

theorem pairwise_recipients (collation : Collation) (rows : List Person) :
    (recipients collation rows).Pairwise fun a b =>
      collation.le a.displayName b.displayName = true := by
  have hsorted : (byName collation rows).Pairwise fun a b =>
      collation.le a.displayName b.displayName = true := by
    have : Std.Total fun a b : Person => collation.le a.displayName b.displayName = true :=
      ⟨fun a b => collation.total a.displayName b.displayName⟩
    have : IsTrans Person fun a b => collation.le a.displayName b.displayName = true :=
      ⟨fun _ _ _ hab hbc => collation.trans hab hbc⟩
    exact List.pairwise_insertionSort _ _
  refine hsorted.filterMap _ fun a b hab r hr r' hr' => ?_
  obtain ⟨_, -, rfl⟩ := Option.map_eq_some_iff.mp hr
  obtain ⟨_, -, rfl⟩ := Option.map_eq_some_iff.mp hr'
  exact hab

theorem pairwise_selected (collation : Collation) (db : LedgerDb) (e : ℕ) (ids : List ℕ) :
    (selected collation db e ids).Pairwise fun a b =>
      collation.le a.displayName b.displayName = true := by
  unfold selected
  split_ifs <;> exact pairwise_recipients collation _

theorem mem_selected {collation : Collation} {db : LedgerDb} {e : ℕ} {ids : List ℕ} {r : Recipient}
    (h : r ∈ selected collation db e ids) : db.persons.has r.personId = true := by
  have hrecipient {rows : List Person} (hrows : ∀ q ∈ rows, q ∈ db.persons)
      (h : r ∈ recipients collation rows) : db.persons.has r.personId = true := by
    obtain ⟨q, hq, hr⟩ := List.mem_filterMap.mp h
    obtain ⟨_, -, rfl⟩ := Option.map_eq_some_iff.mp hr
    exact Table.has_iff.mpr ⟨q, hrows q ((List.mem_insertionSort _).mp hq), rfl⟩
  unfold selected at h
  split_ifs at h
  · exact hrecipient (fun q hq => List.mem_of_mem_filter hq) h
  · exact hrecipient (fun q hq => List.mem_of_mem_filter hq) h

/-- The messages to these recipients, with the ids that are drawn from this one on. -/
def messagesFrom (eventId : ℕ) (body : String) (campaign : CampaignDraw) :
    ℕ → List Recipient → List SmsMessage
  | _, [] => []
  | k, r :: rest =>
    queuedMessage eventId campaign.campaignId (campaign.messageId k) body r ::
      messagesFrom eventId body campaign (k + 1) rest

theorem reserveKey_eq (messageId : ℕ) : reserveKey messageId = "sms:" ++ messageId.repr := rfl

theorem reserveKey_injective {i j : ℕ} (h : reserveKey i = reserveKey j) : i = j :=
  Nat.repr_injective ((String.append_right_inj _).mp h)

/-- No id that is drawn from this one on has been drawn before. -/
structure Unused (s : Rows) (campaign : CampaignDraw) (k : ℕ) : Prop where
  messages : ∀ i ≥ k, s.working.smsMessages.has (campaign.messageId i) = false
  keys : ∀ i ≥ k, (s.apart.creditLedger .sms).has (reserveKey (campaign.messageId i)) = false
  apart : ∀ i j, campaign.messageId i = campaign.messageId j → i = j

section queueing
variable {draw : BillingState.Draw} {campaign : CampaignDraw} {e k : ℕ} {c v : Rows}
  {body : String}

/-- The rows with one credit reserved for a message, and the message. -/
def paid (v : Rows) (e : ℕ) (key : String) (m : SmsMessage) : Rows :=
  { v with
    working := { v.working with smsMessages := v.working.smsMessages.insertNew m }
    apart := v.apart.insertCredit .sms (reserveRow v.apart (scopeOf e) 1 key) }

theorem exec_reserve (key : String) : exec ((credits draw).reserve e key) c v =
    if smsBalance v e < 1 then .ok (false, v, v)
    else
      let u := { v with apart := v.apart.insertCredit .sms (reserveRow v.apart (scopeOf e) 1 key) }
      .ok (true, u, u) := by
  have hreserve := exec_reserveFrom .sms (scopeOf e) 1 key draw v.apart v.apart
  rw [Nat.cast_one] at hreserve
  change exec (_ <$> onOwn _ (BillingWrites.reserve (scopeOf e) 1 key draw)) c v = _
  rw [map_eq_pure_bind, exec_bind]
  unfold smsBalance
  split_ifs with hbroke
  · rw [if_pos hbroke] at hreserve
    rw [exec_onOwn RowsLock.billing (commitFree_reserve e key draw) hreserve]
    rfl
  · rw [if_neg hbroke] at hreserve
    rw [exec_onOwn RowsLock.billing (commitFree_reserve e key draw) hreserve]
    rfl

/-- A write on the open transaction that no violation refuses. -/
theorem exec_openChange (locks : List RowLock) {violation : LedgerDb → Option Refusal}
    (w : LedgerDb → LedgerDb) (h : violation v.working = none) :
    exec (openPart.run RowsLock.ledger (EventWrites.change locks violation w) : RowsProgram Unit)
      c v = .ok ((), c, { v with working := w v.working }) := by
  have hcommits : CommitFree (EventWrites.change locks violation w) :=
    commitFree_of_writes (R := fun _ _ => True)
      (writes_accept (fun _ => trivial) _ fun _ _ => trivial)
  have hchange : exec (EventWrites.change locks violation w) v.working v.working =
      .ok ((), v.working, w v.working) := by
    rw [EventWrites.change, exec_modifyChecked, h]
    rfl
  exact exec_partRun openPart RowsLock.ledger hcommits hchange

theorem exec_insertMessage {m : SmsMessage} (hnew : v.working.smsMessages.has m.id = false)
    (hperson : ∀ p, m.personId = some p → v.working.persons.has p = true) :
    exec (openPart.run RowsLock.ledger (insertMessage m) : RowsProgram Unit) c v = .ok ((), c,
      { v with
        working := { v.working with smsMessages := v.working.smsMessages.insertNew m } }) := by
  have hpersons : (m.personId.any fun p => !v.working.persons.has p) = false := by
    cases hid : m.personId with
    | none => rfl
    | some p => simp [hperson p hid]
  refine exec_openChange _ _ ?_
  simp only [hnew, hpersons, Bool.false_eq_true, if_false]

theorem smsBalance_paid {key : String} {m : SmsMessage}
    (hkey : (v.apart.creditLedger .sms).has key = false) :
    smsBalance (paid v e key m) e = smsBalance v e - 1 := by
  have howner : resolvedAccount (v.apart.insertCredit .sms (reserveRow v.apart (scopeOf e) 1 key))
      (scopeOf e) = resolvedAccount v.apart (scopeOf e) := by
    unfold resolvedAccount
    rw [owner_congr (v.apart.insertCredit_events _ _) (v.apart.insertCredit_accounts _ _)]
  unfold smsBalance scopeBalance creditBalance paid
  dsimp only
  rw [howner, v.apart.movements_insertCredit .sms .sms _ hkey, if_pos rfl, CreditPool.pooled_append,
    if_pos (by simp [reserveRow, creditRow, CreditPool.counts_event, scopeOf])]
  simp [reserveRow, creditRow]
  ring

theorem Unused.paid (h : Unused v campaign k) {m : SmsMessage} (hm : m.id = campaign.messageId k) :
    Unused (paid v e (reserveKey (campaign.messageId k)) m) campaign (k + 1) := by
  have hapart {i : ℕ} (hi : i ≥ k + 1) : campaign.messageId k ≠ campaign.messageId i := by
    intro hids
    have := h.apart k i hids
    omega
  refine ⟨fun i hi => ?_, fun i hi => ?_, h.apart⟩
  · change (v.working.smsMessages.insertNew m).has (campaign.messageId i) = false
    rw [Table.has_insertNew, h.messages i (by omega), Bool.false_or, hm]
    exact decide_eq_false (hapart hi)
  · change ((v.apart.insertCredit _ _).creditLedger .sms).has _ = false
    rw [BillingDb.insertCredit_creditLedger_self, Table.has_insertNew, h.keys i (by omega),
      Bool.false_or]
    exact decide_eq_false fun hkeys => hapart hi (reserveKey_injective hkeys)

/-- As many messages as there are recipients or credits, whichever is fewer. -/
theorem exec_queueAll (rs : List Recipient) (hunused : Unused v campaign k)
    (hpersons : ∀ r ∈ rs, v.working.persons.has r.personId = true) :
    ∃ c' table billing,
      exec (queueAll openPart RowsLock.ledger (credits draw) e body campaign k rs) c v =
        .ok (k + min rs.length (smsBalance v e).toNat, c',
          { v with working := { v.working with smsMessages := table }, apart := billing }) ∧
      table.rows = v.working.smsMessages.rows ++
        messagesFrom e body campaign k (rs.take (min rs.length (smsBalance v e).toNat)) ∧
      scopeBalance billing .sms (scopeOf e) =
        smsBalance v e - min rs.length (smsBalance v e).toNat := by
  induction rs generalizing k c v with
  | nil =>
    exact ⟨c, v.working.smsMessages, v.apart, rfl, by simp [messagesFrom], by simp [smsBalance]⟩
  | cons r rest ih =>
    by_cases hbroke : smsBalance v e < 1
    · have hnone : min (r :: rest).length (smsBalance v e).toNat = 0 := by
        rw [Int.toNat_of_nonpos (by omega), Nat.min_zero]
      rw [hnone]
      refine ⟨v, v.working.smsMessages, v.apart, ?_, by simp [messagesFrom], by simp [smsBalance]⟩
      change exec ((credits draw).reserve e _ >>= _) c v = _
      rw [exec_bind, exec_reserve, if_pos hbroke]
      rfl
    · let m := queuedMessage e campaign.campaignId (campaign.messageId k) body r
      let u := paid v e (reserveKey (campaign.messageId k)) m
      have hmore : min (r :: rest).length (smsBalance v e).toNat =
          min rest.length (smsBalance u e).toNat + 1 := by
        rw [smsBalance_paid (hunused.keys k le_rfl), List.length_cons]
        omega
      obtain ⟨c', table, billing, hexec, hrows, hbalance⟩ := ih (k := k + 1)
        (c := { v with apart := u.apart }) (v := u) (hunused.paid rfl)
        fun r' hr' => hpersons r' (List.mem_cons_of_mem r hr')
      refine ⟨c', table, billing, ?_, ?_, ?_⟩
      · change exec ((credits draw).reserve e _ >>= _) c v = _
        rw [exec_bind, exec_reserve, if_neg hbroke]
        change exec (_ >>= _) _ _ = _
        rw [exec_bind, exec_insertMessage (hunused.messages k le_rfl)
          (fun p hp => Option.some.inj hp ▸ hpersons r List.mem_cons_self), hmore, ← add_assoc,
          add_right_comm]
        exact hexec
      · rw [hrows, hmore, List.take_succ_cons, messagesFrom]
        change (v.working.smsMessages.insertNew m).rows ++ _ = _
        rw [Table.insertNew_rows (hunused.messages k le_rfl), List.append_assoc]
        rfl
      · rw [hbalance, hmore, smsBalance_paid (hunused.keys k le_rfl)]
        push_cast
        ring

end queueing

/-- A campaign whose ids have not been drawn before. -/
structure Fresh (v : Rows) (campaign : CampaignDraw) (eventId : ℕ) : Prop where
  row : v.working.smsCampaigns.has campaign.campaignId = false
  outbox : v.working.outbox.has (campaignRow campaign.campaignId eventId).idempotencyKey = false
  ids : Unused v campaign 0

section campaign
variable {ctx : OperationContext} {personIds : List ℕ} {body : String} {campaign : CampaignDraw}
  {draw : BillingState.Draw} {c v s : Rows}

/-- How many of the recipients the credits are enough for. -/
def affordedBy (v : Rows) (eventId : ℕ) (rs : List Recipient) : ℕ :=
  min rs.length (smsBalance v eventId).toNat

theorem cast_affordedBy {e : ℕ} (h : 0 ≤ smsBalance v e) (rs : List Recipient) :
    (affordedBy v e rs : ℤ) = min (rs.length : ℤ) (smsBalance v e) := by
  rw [affordedBy, Nat.cast_min, Int.toNat_of_nonneg h]

theorem exec_updateCampaign {e id : ℕ} {f : SmsCampaign → SmsCampaign}
    {hf : ∀ row, (f row).id = row.id}
    (h : ∃ row ∈ v.working.smsCampaigns, row.eventId = e ∧ row.id = id) :
    ∃ table,
      exec (openPart.run RowsLock.ledger (updateCampaign e id f hf) : RowsProgram Unit) c v =
        .ok ((), c, { v with working := { v.working with smsCampaigns := table } }) := by
  obtain ⟨row, hrow, rfl, rfl⟩ := h
  refine ⟨_, exec_openChange _ _ (if_pos (List.any_eq_true.mpr ⟨row, hrow, ?_⟩))⟩
  simp

theorem exec_enqueueCampaign {e id : ℕ} {b : Bool}
    (h : v.working.outbox.has (campaignRow id e).idempotencyKey = false) :
    ∃ table, exec (runIf b (openPart.run RowsLock.ledger (enqueue (campaignRow id e))) :
        RowsProgram Unit) c v =
      .ok ((), c, { v with working := { v.working with outbox := table } }) := by
  cases b with
  | false => exact ⟨v.working.outbox, rfl⟩
  | true =>
    refine ⟨_, exec_openChange _ _ ?_⟩
    exact if_neg (by rw [h]; exact Bool.false_ne_true)

theorem exec_sendReminders (hmay : can ctx.event.role .smsSend = true)
    (hopen : isWritable ctx.event.status = true) (hfresh : Fresh v campaign ctx.event.eventId) :
    let rs := selected campaign.collation v.working ctx.event.eventId personIds
    let n := affordedBy v ctx.event.eventId rs
    ∃ c' tables billing,
      exec (SmsCampaigns.sendReminders openPart RowsLock.ledger (credits draw) ctx body personIds
          campaign) c v =
        .ok (⟨campaign.campaignId, n, rs.length - n⟩, c',
          { v with working := tables, apart := billing }) ∧
      tables.smsMessages.rows = v.working.smsMessages.rows ++
        messagesFrom ctx.event.eventId body campaign 0 (rs.take n) ∧
      scopeBalance billing .sms (scopeOf ctx.event.eventId) =
        smsBalance v ctx.event.eventId - n := by
  intro rs n
  let row : SmsCampaign :=
    ⟨campaign.campaignId, ctx.event.eventId, .reminder, body, .queued, 0, some ctx.actor.userId⟩
  let u : Rows := { v with
    working := { v.working with smsCampaigns := v.working.smsCampaigns.insertNew row } }
  have hinsert : exec (openPart.run RowsLock.ledger (insertCampaign row) : RowsProgram Unit) c v =
      .ok ((), c, u) := by
    refine exec_openChange _ _ ?_
    exact if_neg (by rw [hfresh.row]; exact Bool.false_ne_true)
  obtain ⟨c', messages, billing, hqueue, hrows, hbalance⟩ :=
    @exec_queueAll draw campaign ctx.event.eventId 0 c u body rs
      ⟨hfresh.ids.messages, hfresh.ids.keys, hfresh.ids.apart⟩ fun r hr => mem_selected hr
  obtain ⟨campaigns, hupdate⟩ := exec_updateCampaign (c := c')
    (v := { u with working := { u.working with smsMessages := messages }, apart := billing })
    (f := fun row => { row with
      recipientCount := 0 + n, status := if 0 + n > 0 then .sending else .failed })
    ⟨row, (Table.mem_insertNew hfresh.row).mpr (.inr rfl), rfl, rfl⟩
  obtain ⟨outbox, henqueue⟩ := exec_enqueueCampaign (c := c')
    (v := { u with
      working := { u.working with smsMessages := messages, smsCampaigns := campaigns }
      apart := billing }) (b := 0 + n > 0) hfresh.outbox
  refine ⟨c', { u.working with smsMessages := messages, smsCampaigns := campaigns, outbox },
    billing, ?_, hrows, hbalance⟩
  refine exec_refuse_bind.mpr ⟨if_pos hmay, exec_refuse_bind.mpr ⟨if_pos hopen, ?_⟩⟩
  rw [exec_query_bind]
  refine exec_bind_eq_ok.mpr ⟨(), c, u, hinsert, ?_⟩
  refine exec_bind_eq_ok.mpr ⟨_, _, _, hqueue, ?_⟩
  refine exec_bind_eq_ok.mpr ⟨_, _, _, hupdate, ?_⟩
  refine exec_bind_eq_ok.mpr ⟨_, _, _, henqueue, ?_⟩
  change Except.ok (SendResult.mk _ (0 + n) (rs.length - (0 + n)), _, _) = _
  rw [Nat.zero_add]

theorem run_previewReminders (collation : Collation) (hread : can ctx.event.role .smsRead = true) :
    let rs := selected collation s.stored ctx.event.eventId personIds
    run (previewReminders collation ctx personIds draw) s =
      (.ok ⟨rs.length, rs.length, smsBalance s ctx.event.eventId,
        min rs.length (smsBalance s ctx.event.eventId)⟩, s.begun) := by
  intro rs
  have hmay : assertPermission ctx.event.role .smsRead = none := if_pos hread
  have hfound : exec (onLedger (previewRecipients collation ctx personIds)) s s =
      .ok (rs, s.begun, s.begun) := by
    unfold previewRecipients
    rw [hmay]
    rfl
  have hbalance : exec (onOwn RowsLock.billing (do
        let ent ← resolve (scopeOf ctx.event.eventId) draw
        return ent.balance .sms) : RowsProgram ℤ) s.begun s.begun =
      .ok (smsBalance s ctx.event.eventId, s.begun, s.begun) := by
    refine exec_onOwn RowsLock.billing (b := s.begun.apart) ?_ ?_
    · exact commitFree_of_writes (R := fun _ _ => True)
        (writes_bind (writes_resolve _ _) fun _ => trivial)
    · refine exec_bind_eq_ok.mpr ⟨_, _, _, exec_resolve _ _ _ _, ?_⟩
      rw [entitlement_balance]
      rfl
  have hexec : exec (previewReminders collation ctx personIds draw) s s = .ok (_, s.begun, s.begun) :=
    exec_bind_eq_ok.mpr ⟨_, _, _, hfound, exec_bind_eq_ok.mpr ⟨_, _, _, hbalance, rfl⟩⟩
  unfold run
  rw [hexec]

theorem run_sendReminders (hmay : can ctx.event.role .smsSend = true)
    (hopen : isWritable ctx.event.status = true)
    (hfresh : Fresh s.begun campaign ctx.event.eventId) :
    let rs := selected campaign.collation s.stored ctx.event.eventId personIds
    let n := affordedBy s ctx.event.eventId rs
    ∃ s', run (sendReminders ctx body personIds campaign draw) s =
        (.ok ⟨campaign.campaignId, n, rs.length - n⟩, s') ∧
      s'.stored.smsMessages.rows = s.stored.smsMessages.rows ++
        messagesFrom ctx.event.eventId body campaign 0 (rs.take n) ∧
      smsBalance s' ctx.event.eventId = smsBalance s ctx.event.eventId - n := by
  intro rs n
  obtain ⟨c', tables, billing, hexec, hrows, hbalance⟩ :=
    @exec_sendReminders ctx personIds body campaign draw s s.begun hmay hopen hfresh
  have htransaction : exec (sendReminders ctx body personIds campaign draw) s s =
      .ok (⟨campaign.campaignId, n, rs.length - n⟩,
        ⟨tables, tables, billing⟩, ⟨tables, tables, billing⟩) :=
    exec_modify_bind .. |>.trans <| exec_bind_eq_ok.mpr ⟨_, _, _, hexec, rfl⟩
  refine ⟨⟨tables, tables, billing⟩, ?_, hrows, hbalance⟩
  unfold run
  rw [htransaction]

/-- The preview's number is the number of messages that the campaign then queues, to the first
recipients in name order and for a credit each. -/
def AsPreviewed (ctx : OperationContext) (body : String) (personIds : List ℕ)
    (campaign : CampaignDraw) (draw draw' : BillingState.Draw) (s : Rows) : Prop :=
  let rs := selected campaign.collation s.stored ctx.event.eventId personIds
  ∃ (n : ℕ) (preview : ReminderPreview) (s₁ s₂ : Rows),
    (n : ℤ) = max 0 (min (rs.length : ℤ) (smsBalance s ctx.event.eventId)) ∧
    run (previewReminders campaign.collation ctx personIds draw) s = (.ok preview, s₁) ∧
    run (sendReminders ctx body personIds campaign draw') s₁ =
      (.ok ⟨campaign.campaignId, n, rs.length - n⟩, s₂) ∧
    (rs.Pairwise fun a b => campaign.collation.le a.displayName b.displayName = true) ∧
    s₂.stored.smsMessages.rows = s.stored.smsMessages.rows ++
      messagesFrom ctx.event.eventId body campaign 0 (rs.take n) ∧
    smsBalance s₂ ctx.event.eventId = smsBalance s ctx.event.eventId - n ∧
    preview.affordable = n

theorem smsRead_of_smsSend {role : EventRole} (h : can role .smsSend = true) :
    can role .smsRead = true := by
  revert h
  cases role <;> decide

/-- The preview is right about the campaign exactly where the balance is not below zero. -/
theorem campaign_as_previewed_iff (hmay : can ctx.event.role .smsSend = true)
    (hopen : isWritable ctx.event.status = true)
    (hfresh : Fresh s.begun campaign ctx.event.eventId) (draw' : BillingState.Draw) :
    AsPreviewed ctx body personIds campaign draw draw' s ↔ 0 ≤ smsBalance s ctx.event.eventId := by
  have hpreview := @run_previewReminders ctx personIds draw s campaign.collation
    (smsRead_of_smsSend hmay)
  constructor
  · rintro ⟨n, preview, s₁, s₂, hn, hrun, -, -, -, -, haffordable⟩
    rw [hpreview] at hrun
    cases hrun
    have hleast := min_le_right ((selected campaign.collation s.stored ctx.event.eventId
      personIds).length : ℤ) (smsBalance s ctx.event.eventId)
    exact (Int.natCast_nonneg n).trans (haffordable.symm.trans_le hleast)
  · intro hbalance
    obtain ⟨s₂, hsend, hrows, hlowered⟩ :=
      @run_sendReminders ctx personIds body campaign draw' s.begun hmay hopen hfresh
    have hn := cast_affordedBy hbalance (selected campaign.collation s.stored ctx.event.eventId
      personIds)
    refine ⟨_, _, s.begun, s₂, ?_, hpreview, hsend, pairwise_selected _ _ _ _, hrows, hlowered,
      hn.symm⟩
    exact hn.trans (max_eq_right (le_min (Int.natCast_nonneg _) hbalance)).symm

end campaign

def host : OperationContext := ⟨⟨1, true⟩, ⟨7, .owner, .active⟩⟩

/-- Carol and Amina each owe a pledge, and the event has this many credits. -/
def owing (amount : ℤ) : Rows :=
  let person (id : ℕ) (name phone : String) : Person :=
    ⟨id, 7, name, some phone, none, .humanTyped, none, id⟩
  let pledge (id personId : ℕ) : Pledge :=
    ⟨id, 7, personId, .cash, 500, .pledged, none, none, none, none, none, false, .humanTyped, none,
      id⟩
  let db : LedgerDb := { LedgerDb.empty with
    persons := (LedgerDb.empty.persons.insertNew (person 3 "Carol" "+256703")).insertNew
      (person 4 "Amina" "+256704")
    pledges := (LedgerDb.empty.pledges.insertNew (pledge 10 3)).insertNew (pledge 11 4) }
  { stored := db
    working := db
    apart := BillingDb.empty.insertCredit .sms
      { eventId := some 7, accountId := none, amount, kind := .grant, idempotencyKey := "g"
        reference := none } }

def reminded : CampaignDraw := ⟨61, fun n => 70 + n, .codePoints⟩

def billed : BillingState.Draw := ⟨0, 0, 0, 0, "", 20, 0⟩

theorem fresh_owing (amount : ℤ) : Fresh (owing amount).begun reminded 7 := by
  refine ⟨rfl, rfl, fun i _ => rfl, fun i _ => ?_, fun i j h => ?_⟩
  · have hkey : "g" ≠ reserveKey (70 + i) := by
      intro h
      have hfirst := congrArg (fun t => t.toList.head?) h
      rw [reserveKey_eq, String.toList_append] at hfirst
      cases hfirst
    change ((BillingDb.empty.creditLedger .sms).insertNew _).has _ = false
    rw [Table.has_insertNew]
    exact decide_eq_false hkey
  · exact Nat.add_left_cancel h

/-- One credit: the preview counts one, and Amina gets her message. -/
theorem campaign_as_previewed_owing :
    AsPreviewed host "Dear \x7bname\x7d" [] reminded billed billed (owing 1) ↔
      0 ≤ smsBalance (owing 1) 7 :=
  campaign_as_previewed_iff rfl rfl (fresh_owing 1) billed

/-- Overdrawn by one credit, the preview finds that −1 reminders are affordable. -/
theorem overdrawn_preview :
    ¬ AsPreviewed host "Dear \x7bname\x7d" [] reminded billed billed (owing (-1)) := by
  rintro ⟨n, preview, s₁, s₂, -, hrun, -, -, -, -, haffordable⟩
  have hpreview : (run (previewReminders reminded.collation host [] billed) (owing (-1))).1 =
      .ok ⟨2, 2, -1, -1⟩ := by decide +kernel
  rw [hrun] at hpreview
  cases hpreview
  have hnegative : (-1 : ℤ) = n := haffordable
  omega

end Akabbo.ReminderCampaigns
