import Akabbo.RunChecks
import Akabbo.SmsCampaigns

/-!
# Deliveries of a campaign that overlap

The outbox may deliver a campaign more than once, and a delivery may stop anywhere. The
provider's inbox is part of the rows here: what reaches it stays there, whatever becomes of
the delivery that sent it.
-/
namespace Akabbo.SmsDeliveries
open Access RowTable StatementProgram ReadCommitted ProgramParts LedgerState EventWrites SmsCampaigns
open RunChecks
open StatementProgram.Program (modify refuse commitNow)

structure Handed where
  ledger : LedgerDb
  /-- Which delivery handed over which message. -/
  inbox : List (ℕ × ℕ)

def ledgerPart : Part Handed LedgerDb where
  get := Handed.ledger
  put db s := { s with ledger := db }
  get_put _ _ := rfl
  put_get _ := rfl
  put_put _ _ _ := rfl

abbrev DeliveryProgram := Program RowLock Handed Refusal

/-- What the world does to one delivery: the time, the provider's answer or its failure to
give one, and what the credit services refuse. -/
structure Delivery where
  now : ℕ
  answer : Except Refusal (List SmsSendResult)
  settles : String → Option Refusal

/-- The provider takes the whole batch at once, then answers. -/
def sendBulk (t : ℕ) (answer : Except Refusal (List SmsSendResult))
    (requests : List SmsSendRequest) : DeliveryProgram (List SmsSendResult) := do
  modify (fun _ => []) fun s =>
    { s with inbox := s.inbox ++ requests.map fun r => (t, r.idempotencyKey) }
  commitNow
  match answer with
  | .ok results => pure results
  | .error e => .throw e

def Delivery.credits (d : Delivery) : Credits RowLock Handed where
  reserve _ _ := pure false
  commit _ key := refuse (d.settles key)
  refund _ key := refuse (d.settles key)

def Delivery.program (eventId campaignId t : ℕ) (d : Delivery) : DeliveryProgram Unit :=
  processCampaign ledgerPart id d.credits (sendBulk t d.answer) eventId campaignId d.now

abbrev DeliverySystem := System RowLock Handed Refusal Unit

def system (db : LedgerDb) (eventId campaignId : ℕ) (deliveries : List Delivery) :
    DeliverySystem :=
  System.begin ⟨db, []⟩ (deliveries.mapIdx fun t d => d.program eventId campaignId t)

/-- No message has reached the provider twice. -/
def HandedOnce (sys : DeliverySystem) : Prop := (sys.committed.inbox.map Prod.snd).Nodup

def Waits (e : ℕ) (db : LedgerDb) (i : ℕ) : Prop :=
  ∃ m ∈ db.smsMessages, m.eventId = e ∧ m.id = i ∧ m.status = .queued

/-- Nothing is handed over, these messages no longer wait, and no other begins to. -/
def Settles (e : ℕ) (ids : List ℕ) (_ : Option Unit) (_ : List (Reading Handed))
    (f : Handed → Handed) : Prop :=
  ∀ s, (f s).inbox = s.inbox ∧ ∀ i, Waits e (f s).ledger i → i ∉ ids ∧ Waits e s.ledger i

/-- The first commit of a delivery hands over what it found waiting; what is left settles
just that. -/
def HandsOver (e c t : ℕ) (rs : List (Reading Handed)) (f : Handed → Handed)
    (rest : DeliveryProgram Unit) : Prop :=
  ∃ found : List SmsMessage,
    (∃ reading ∈ rs, ∀ s : Handed, reading.Current s → queuedOf s.ledger e c = found) ∧
    (∀ s, (f s).ledger = s.ledger ∧ (f s).inbox = s.inbox ++ found.map fun m => (t, m.id)) ∧
    EveryCommit (fun _ => True) (Settles e (found.map SmsMessage.id)) rest false [] id

theorem waits_update {e i j : ℕ} {db : LedgerDb} {mark : SmsMessage → SmsMessage}
    {hid : ∀ m, (mark m).id = m.id} (hmark : ∀ m, (mark m).status ≠ .queued)
    (h : Waits e
      { db with smsMessages := (db.smsMessages.update (fun m => m.eventId == e && m.id == j) mark hid) }
      i) : i ≠ j ∧ Waits e db i := by
  obtain ⟨m, hm, hme, rfl, hq⟩ := h
  change m ∈ db.smsMessages.update _ mark hid at hm
  obtain ⟨m₀, hm₀, rfl⟩ := Table.mem_update.mp hm
  by_cases hsel : (m₀.eventId == e && m₀.id == j) = true
  · rw [if_pos hsel] at hq
    exact absurd hq (hmark m₀)
  · rw [if_neg hsel] at hme hq ⊢
    refine ⟨fun hj => hsel ?_, m₀, hm₀, hme, rfl, hq⟩
    simp [hme, hj]

theorem mem_queuedOf {db : LedgerDb} {e c : ℕ} {m : SmsMessage} (h : m ∈ queuedOf db e c) :
    Waits e db m.id := by
  simp only [queuedOf, List.mem_filter, Bool.and_eq_true, beq_iff_eq] at h
  exact ⟨m, h.1, h.2.1.1, rfl, h.2.2⟩

theorem nodup_queuedOf (db : LedgerDb) (e c : ℕ) :
    ((queuedOf db e c).map SmsMessage.id).Nodup :=
  db.smsMessages.nodup.sublist (List.filter_sublist.map _)

section settling
variable {e : ℕ} {P : Option Unit → List (Reading Handed) → (Handed → Handed) → Prop}

theorem everyCommit_markMessage {ids : List ℕ} {j : ℕ} {mark : SmsMessage → SmsMessage}
    {hid : ∀ m, (mark m).id = m.id} (hmark : ∀ m, (mark m).status ≠ .queued)
    {k : Unit → DeliveryProgram Unit} {d : Bool} {rs : List (Reading Handed)} {f : Handed → Handed}
    (hf : Settles e ids none [] f)
    (hk : ∀ rs' f', Settles e (ids ++ [j]) none [] f' →
      EveryCommit (fun _ => True) P (k ()) true rs' f') :
    EveryCommit (fun _ => True) P (ledgerPart.run id (updateMessage e j mark hid) >>= k) d rs f := by
  refine everyCommit_run_checked_bind ledgerPart id fun s _ a _ => hk _ _ fun s' => ?_
  obtain ⟨hinbox, hwaits⟩ := hf s'
  refine ⟨hinbox, fun i hi => ?_⟩
  obtain ⟨hij, hi⟩ := waits_update hmark hi
  obtain ⟨hids, hi⟩ := hwaits i hi
  refine ⟨fun hmem => ?_, hi⟩
  rcases List.mem_append.mp hmem with hmem | hmem
  · exact hids hmem
  · exact hij (List.mem_singleton.mp hmem)

theorem everyCommit_settleAll (d : Delivery) (results : List SmsSendResult)
    (found : List SmsMessage) {k : ℕ × ℕ → DeliveryProgram Unit} {I : List ℕ} {b : Bool}
    {rs : List (Reading Handed)} {f : Handed → Handed} (i sent failed : ℕ)
    (hf : Settles e I none [] f)
    (hk : ∀ r b' rs' f', Settles e (I ++ found.map SmsMessage.id) none [] f' →
      EveryCommit (fun _ => True) P (k r) b' rs' f') :
    EveryCommit (fun _ => True) P
      (settleAll ledgerPart id d.credits e d.now results i sent failed found >>= k) b rs f := by
  induction found generalizing I b rs f i sent failed with
  | nil => exact hk _ _ _ _ (by simpa using hf)
  | cons m rest ih =>
    have hrest (i' sent' failed' : ℕ) (rs' : List (Reading Handed)) (f' : Handed → Handed)
        (hf' : Settles e (I ++ [m.id]) none [] f') :
        EveryCommit (fun _ => True) P (settleAll ledgerPart id d.credits e d.now results i' sent'
          failed' rest >>= k) true rs' f' := by
      refine ih i' sent' failed' hf' fun r b' rs'' f'' hf'' => hk r b' rs'' f'' ?_
      simpa using hf''
    rw [settleAll]
    cases accepted results[i]? with
    | some res =>
      simp only [bind_assoc]
      refine everyCommit_markMessage ?_ hf fun rs' f' hf' =>
        everyCommit_refuse_bind (hrest _ _ _ rs' f' hf')
      exact fun _ => by simp [markSent]
    | none =>
      simp only [bind_assoc]
      refine everyCommit_markMessage ?_ hf fun rs' f' hf' =>
        everyCommit_refuse_bind (hrest _ _ _ rs' f' hf')
      exact fun _ => by simp [markFailed]

theorem firstCommit_program (e c t : ℕ) (d : Delivery) :
    FirstCommit (HandsOver e c t) (d.program e c t) false [] id := by
  unfold Delivery.program processCampaign
  intro s
  dsimp only [Function.comp_def]
  generalize hfound : queuedOf (ledgerPart.get (id s)) e c = found
  change FirstCommit (HandsOver e c t) (if found.isEmpty = true then _ else _) _ _ _
  split_ifs
  · rfl
  · intro s'
    refine ⟨found, ⟨_, .tail _ (.head _), fun s'' hs'' => hs''⟩, fun s'' => ⟨rfl, ?_⟩, ?_⟩
    · simp [toRequest, Function.comp_def]
    · cases d.answer with
      | error err => trivial
      | ok results =>
        refine everyCommit_settleAll d results found 0 0 0 (I := []) ?_ ?_
        · exact fun s => ⟨rfl, fun i hi => ⟨by simp, hi⟩⟩
        · intro r b' rs' f' hf'
          obtain ⟨sent, failed⟩ := r
          dsimp only
          rw [← bind_pure (ledgerPart.run id (updateCampaign e c _ _))]
          exact everyCommit_run_checked_bind ledgerPart id fun s _ a _ => hf'

end settling

/-- A delivery that has handed messages over is not stopped, and no delivery hands over
while another that has done so is still open, or what it has read is out of date. -/
structure Careful (sys : DeliverySystem) (m : Move) : Prop where
  finishes : ∀ (t : ℕ) x i, sys.slots[t]? = some (.running x) → (t, i) ∈ sys.committed.inbox →
    m ≠ .cutOff t ∧ ∀ e, m = .advance t → x.rest ≠ .throw e
  alone : ∀ (t : ℕ) x r, Applied sys m t x r →
    (x.pending sys.committed).inbox ≠ sys.committed.inbox →
    x.Current sys.committed ∧
      ∀ (u : ℕ) y i, sys.slots[u]? = some (.running y) → (u, i) ∉ sys.committed.inbox

structure Kept (e c : ℕ) (sys : DeliverySystem) : Prop where
  once : HandedOnce sys
  settled : ∀ t i, (t, i) ∈ sys.committed.inbox →
    (∃ x, sys.slots[t]? = some (.running x)) ∨ ¬ Waits e sys.committed.ledger i
  running : ∀ (t : ℕ) x, sys.slots[t]? = some (.running x) →
    ((∀ i, (t, i) ∉ sys.committed.inbox) ∧ x.Opens (HandsOver e c t)) ∨
    ∃ ids, (∀ i, (t, i) ∈ sys.committed.inbox → i ∈ ids) ∧
      x.Keeps (fun _ => True) (Settles e ids)

section step
variable {e c : ℕ} {sys : DeliverySystem} {m : Move}

/-- What a move does to the messages: it hands none over and makes none wait, or it hands
over all that wait, to a provider that nobody else is busy with. -/
inductive Effect (e c : ℕ) (sys : DeliverySystem) (m : Move) : Prop
  | quiet (inbox : (sys.step m).committed.inbox = sys.committed.inbox)
      (waits : ∀ i, Waits e (sys.step m).committed.ledger i → Waits e sys.committed.ledger i)
  | hands (t : ℕ) (x : Session RowLock Handed Refusal Unit) (k : DeliveryProgram Unit)
      (move : m = .advance t) (slot : sys.slots[t]? = some (.running x))
      (next : (x.advance (sys.heldByOthers t) sys.committed).2 = .running (.begin k))
      (ledger : (sys.step m).committed.ledger = sys.committed.ledger)
      (inbox : (sys.step m).committed.inbox =
        sys.committed.inbox ++ (queuedOf sys.committed.ledger e c).map fun m => (t, m.id))
      (alone : ∀ (u : ℕ) y i, sys.slots[u]? = some (.running y) → (u, i) ∉ sys.committed.inbox)
      (rest : EveryCommit (fun _ => True)
        (Settles e ((queuedOf sys.committed.ledger e c).map SmsMessage.id)) k false [] id)

theorem step_effect (h : Kept e c sys) (hm : Careful sys m) : Effect e c sys m := by
  rcases step_applies sys m with ⟨hsame, -⟩ | ⟨t, x, r, happ, hcommitted, -⟩
  · exact .quiet (by rw [hsame]) (by rw [hsame]; exact fun _ hi => hi)
  · rcases h.running t x happ.slot with ⟨-, hopens⟩ | ⟨ids, -, hkeeps⟩
    · rcases opens_applies hopens happ.applies with hid | ⟨k, hrest, found, hread, hf, hk⟩
      · rw [hid] at hcommitted
        exact .quiet (by rw [hcommitted]; rfl) (by rw [hcommitted]; exact fun _ hi => hi)
      · obtain ⟨hledger, hinbox⟩ := hf sys.committed
        by_cases hnone : found = []
        · refine .quiet (by rw [hcommitted, hinbox, hnone]; simp) ?_
          rw [hcommitted, hledger]
          exact fun _ hi => hi
        · obtain ⟨hcur, halone⟩ := hm.alone t x r happ (by
            rw [hinbox]
            simpa using hnone)
          obtain ⟨reading, hmem, hfound⟩ := hread
          have hqueued := hfound sys.committed (hcur reading hmem)
          have hnext : (x.advance (sys.heldByOthers t) sys.committed).2 = .running (.begin k) := by
            cases happ.applies with
            | returns hr => rw [hrest] at hr; cases hr
            | commits hr hd => simp [Session.advance, hrest, hd]
          rw [← hqueued] at hk hinbox
          exact .hands t x k happ.move happ.slot hnext (by rw [hcommitted, hledger])
            (by rw [hcommitted, hinbox]) halone hk
    · have hsettles := keeps_applies hkeeps happ.applies sys.committed
      rw [← hcommitted] at hsettles
      exact .quiet hsettles.1 fun i hi => (hsettles.2 i hi).2

/-- A message that was handed over is in hand or settled after every move. -/
theorem settled_step (h : Kept e c sys) (hm : Careful sys m)
    (hwaits : ∀ i, Waits e (sys.step m).committed.ledger i → Waits e sys.committed.ledger i)
    {t i : ℕ} (hin : (t, i) ∈ sys.committed.inbox) :
    (∃ x, (sys.step m).slots[t]? = some (.running x)) ∨
      ¬ Waits e (sys.step m).committed.ledger i := by
  rcases h.settled t i hin with ⟨x, hx⟩ | hdone
  · obtain ⟨hcut, hthrow⟩ := hm.finishes t x i hx hin
    rcases step_slot m hx with hrun | hcutoff | ⟨hadv, ⟨err, herr⟩ | ⟨r, hr, hcommitted⟩⟩
    · exact .inl hrun
    · exact absurd hcutoff hcut
    · exact absurd herr (hthrow err hadv)
    · -- the delivery that settles now
      rcases h.running t x hx with ⟨hnone, -⟩ | ⟨ids, hids, hkeeps⟩
      · exact absurd hin (hnone i)
      · refine .inr fun hi => ?_
        rw [hcommitted] at hi
        exact ((keeps_return hkeeps hr sys.committed).2 i hi).1 (hids i hin)
  · exact .inr fun hi => hdone (hwaits i hi)

theorem kept_step (h : Kept e c sys) (hm : Careful sys m) : Kept e c (sys.step m) := by
  cases step_effect h hm with
  | quiet hinbox hwaits =>
    refine ⟨?_, fun t i hin => ?_, ?_⟩
    · unfold HandedOnce
      rw [hinbox]
      exact h.once
    · rw [hinbox] at hin
      exact settled_step h hm hwaits hin
    · rw [hinbox]
      refine step_running m h.running fun t x x' _ hx hadv => ?_
      rcases hx with ⟨hnone, hopens⟩ | ⟨ids, hids, hkeeps⟩
      · rcases opens_advance hopens hadv with hopens' | ⟨k, -, -, rfl, found, -, -, hk⟩
        · exact .inl ⟨hnone, hopens'⟩
        · exact .inr ⟨_, fun i hin => absurd hin (hnone i), hk⟩
      · exact .inr ⟨ids, hids, keeps_advance hkeeps trivial hadv⟩
  | hands t x k hmove hslot hnext hledger hinbox halone hk =>
    have hrunning : (sys.step m).slots[t]? = some (.running (.begin k)) := by
      have ht := (List.getElem?_eq_some_iff.mp hslot).1
      rw [hmove]
      simp only [System.step, hslot]
      rw [List.getElem?_set_self ht, hnext]
    refine ⟨?_, fun u i hin => ?_, fun u y hy => ?_⟩
    · unfold HandedOnce
      rw [hinbox, List.map_append, List.map_map]
      refine List.Nodup.append h.once (nodup_queuedOf sys.committed.ledger e c) fun i hold hnew => ?_
      obtain ⟨⟨u, i⟩, hentry, rfl⟩ := List.mem_map.mp hold
      obtain ⟨m', hm', hid⟩ := List.mem_map.mp hnew
      rcases h.settled u i hentry with ⟨y, hy⟩ | hdone
      · exact halone u y i hy hentry
      · have hwaits := mem_queuedOf hm'
        simp only [Function.comp_apply] at hid
        rw [hid] at hwaits
        exact hdone hwaits
    · rw [hinbox] at hin
      rcases List.mem_append.mp hin with hold | hnew
      · exact settled_step h hm (by rw [hledger]; exact fun _ hi => hi) hold
      · obtain ⟨m', -, heq⟩ := List.mem_map.mp hnew
        obtain rfl : t = u := congrArg Prod.fst heq
        exact .inl ⟨_, hrunning⟩
    · by_cases hut : u = t
      · -- the delivery that has just handed over
        subst hut
        obtain rfl : Session.begin k = y := by simpa [hrunning] using hy
        refine .inr ⟨_, fun i hin => ?_, hk⟩
        rw [hinbox] at hin
        rcases List.mem_append.mp hin with hold | hnew
        · exact absurd hold (halone u x i hslot)
        · obtain ⟨m', hm', heq⟩ := List.mem_map.mp hnew
          exact List.mem_map.mpr ⟨m', hm', congrArg Prod.snd heq⟩
      · rcases running_step hy with ⟨-, hold⟩ | ⟨z, hadv, -, -⟩
        · have hnone (i : ℕ) : (u, i) ∉ (sys.step m).committed.inbox := by
            intro hin
            rw [hinbox] at hin
            rcases List.mem_append.mp hin with hin | hin
            · exact halone u y i hold hin
            · obtain ⟨m', -, heq⟩ := List.mem_map.mp hin
              exact hut (congrArg Prod.fst heq).symm
          rcases h.running u y hold with ⟨-, hopens⟩ | ⟨ids, -, hkeeps⟩
          · exact .inl ⟨hnone, hopens⟩
          · exact .inr ⟨ids, fun i hin => absurd hin (hnone i), hkeeps⟩
        · rw [hmove] at hadv
          exact absurd (Move.advance.inj hadv).symm hut

end step

theorem kept_begin (db : LedgerDb) (e c : ℕ) (deliveries : List Delivery) :
    Kept e c (system db e c deliveries) where
  once := List.nodup_nil
  settled t i hin := absurd hin List.not_mem_nil
  running t x hx := by
    obtain ⟨p, hp, rfl⟩ := running_begin hx
    simp only [List.getElem?_mapIdx, Option.map_eq_some_iff] at hp
    obtain ⟨d, -, rfl⟩ := hp
    exact .inl ⟨fun i => List.not_mem_nil, opens_begin (firstCommit_program e c t d)⟩

/-- However deliveries of a campaign overlap and whatever the provider answers, no message
reaches it twice, as long as each delivery hands over what still waits, with no other between
its own hand-over and the commit of the results, and is not stopped between the two itself. -/
theorem careful_deliveries_hand_over_once (db : LedgerDb) (e c : ℕ) (deliveries : List Delivery)
    (moves : List Move)
    (hcond : ∀ before m after, moves = before ++ m :: after →
      Careful ((system db e c deliveries).run before) m) :
    HandedOnce ((system db e c deliveries).run moves) :=
  (run_invariant (I := Kept e c) (C := Careful) (fun _ _ h hm => kept_step h hm)
    (kept_begin db e c deliveries) moves hcond).once

def waitingMessage : SmsMessage :=
  { id := 5
    eventId := 7
    campaignId := 4
    personId := none
    toPhone := "+256700000001"
    body := "Please remember your pledge."
    status := .queued
    segments := 1
    providerMessageId := none
    reserveKey := "sms:5"
    error := none
    sentAt := none }

def waitingDb : LedgerDb :=
  { LedgerDb.empty with
    smsCampaigns := LedgerDb.empty.smsCampaigns.insertNew
      ⟨4, 7, .reminder, "Please remember your pledge.", .sending, 1, some 1⟩
    smsMessages := LedgerDb.empty.smsMessages.insertNew waitingMessage }

def acceptedAll : Delivery := ⟨10, .ok [⟨"", .sent, 1, none⟩], fun _ => none⟩

/-- The open deliveries that have handed messages over. -/
def busy (sys : DeliverySystem) : List ℕ :=
  (sys.committed.inbox.map Prod.fst).filter fun t => (mover sys (.advance t)).isSome

def failing (x : Session RowLock Handed Refusal Unit) : Bool :=
  match x.rest with
  | .throw _ => true
  | _ => false

/-- One of them is cut off by the move, or fails at it. -/
def stopping (sys : DeliverySystem) (m : Move) : Bool :=
  (busy sys).any fun t => m = .cutOff t || m = .advance t && (mover sys m).any failing

/-- What the mover has pending hands messages over. -/
def handing (sys : DeliverySystem) (m : Move) : Bool :=
  (mover sys m).any fun x => (x.pending sys.committed).inbox ≠ sys.committed.inbox

theorem careful_of_checks {sys : DeliverySystem} {m : Move} (hstops : stopping sys m = false)
    (hhands : handing sys m = true → busy sys = [] ∧ MoverCurrent sys m) : Careful sys m := by
  have hbusy {t i : ℕ} {x : Session RowLock Handed Refusal Unit}
      (hx : sys.slots[t]? = some (.running x)) (hin : (t, i) ∈ sys.committed.inbox) :
      t ∈ busy sys := by
    refine List.mem_filter.mpr ⟨List.mem_map.mpr ⟨(t, i), hin, rfl⟩, ?_⟩
    rw [mover_of_running hx, Option.isSome_some]
  constructor
  · intro t x i hx hin
    have hgoes := List.any_eq_false.mp hstops t (hbusy hx hin)
    refine ⟨fun hcut => hgoes (by simp [hcut]), fun e hm he => hgoes ?_⟩
    subst hm
    simp [mover_of_running hx, failing, he]
  · intro t x r happ hnew
    have hmover := mover_of_applied happ
    obtain ⟨hnone, hcurrent⟩ := hhands (by simp [handing, hmover, hnew])
    unfold MoverCurrent at hcurrent
    rw [hmover] at hcurrent
    refine ⟨current_of_all hcurrent, fun u y i hy hin => ?_⟩
    have hmem := hbusy hy hin
    rw [hnone] at hmem
    exact absurd hmem List.not_mem_nil

/-- Two deliveries find the message waiting. One of them is stopped before it hands anything over;
the third comes when the other is done. -/
def stoppedInTime : List Move :=
  [.advance 0, .advance 1, .advance 0, .cutOff 1] ++ List.replicate 4 (.advance 0) ++
    List.replicate 2 (.advance 2)

set_option maxRecDepth 8000 in
theorem careful_deliveries_hand_over_once_stoppedInTime :
    HandedOnce ((system waitingDb 7 4 [acceptedAll, acceptedAll, acceptedAll]).run stoppedInTime) := by
  refine careful_deliveries_hand_over_once waitingDb 7 4 [acceptedAll, acceptedAll, acceptedAll]
    stoppedInTime fun before m after hmoves => ?_
  have hchecks : ∀ k < stoppedInTime.length,
      stopping ((system waitingDb 7 4 [acceptedAll, acceptedAll, acceptedAll]).run
        (stoppedInTime.take k)) (stoppedInTime.getD k (.cutOff 0)) = false ∧
      (handing ((system waitingDb 7 4 [acceptedAll, acceptedAll, acceptedAll]).run
        (stoppedInTime.take k)) (stoppedInTime.getD k (.cutOff 0)) = true →
        busy ((system waitingDb 7 4 [acceptedAll, acceptedAll, acceptedAll]).run
          (stoppedInTime.take k)) = [] ∧ k = 4) := by decide
  refine at_each (P := fun before m => Careful ((system waitingDb 7 4
    [acceptedAll, acceptedAll, acceptedAll]).run before) m) (fun k hk => ?_) hmoves
  refine careful_of_checks (hchecks k hk).1 fun hhands => ?_
  obtain ⟨hnone, rfl⟩ := (hchecks k hk).2 hhands
  refine ⟨hnone, ?_⟩
  repeat refine And.intro rfl ?_
  trivial

/-- The first delivery is stopped once the provider has its message, and the campaign is
delivered again. -/
def redelivery : List Move :=
  [.advance 0, .advance 0, .advance 0, .cutOff 0] ++ List.replicate 6 (.advance 1)

theorem redelivery_hands_over_twice :
    ¬ (∀ (db : LedgerDb) (e c : ℕ) (deliveries : List Delivery) (moves : List Move),
      HandedOnce ((system db e c deliveries).run moves)) ∧
    ((system waitingDb 7 4 [acceptedAll, acceptedAll]).run redelivery).committed.inbox =
      [(0, 5), (1, 5)] := by
  have hinbox : ((system waitingDb 7 4 [acceptedAll, acceptedAll]).run redelivery).committed.inbox =
      [(0, 5), (1, 5)] := by decide
  refine ⟨fun h => ?_, hinbox⟩
  have honce := h waitingDb 7 4 [acceptedAll, acceptedAll] redelivery
  unfold HandedOnce at honce
  rw [hinbox] at honce
  revert honce
  decide

end Akabbo.SmsDeliveries
