import Akabbo.JsonValues
import Akabbo.SmsCampaigns
import Akabbo.TextPatterns

/-!
# The results of a bulk send

The provider lists the messages it took and those it rejected by their indices, in a body that may be
anything, and the results are read by position.
-/
namespace Akabbo.BulkResults
open StatementProgram LedgerState ProgramParts SmsCampaigns JsonValues JsonValues.JsonValue

structure UgSmsConfig where
  baseUrl : String
  apiKey : String
  senderId : String
  deriving DecidableEq, Repr

/-- What is posted: each number with its text. -/
structure BulkRequest where
  url : String
  apiKey : String
  messages : List (String × String)
  senderId : String
  reference : Option ℕ
  deriving DecidableEq, Repr

/-- The answer to a request; a body that is no JSON is none. -/
structure Response where
  ok : Bool
  status : ℕ
  body : Option JsonValue

structure BulkResult where
  providerMessageId : String
  status : SmsDeliveryStatus
  segments : JsonValue
  error : Option JsonValue

/-- `phone.replace(/^\+?256/, '0')`. -/
def toLocal (phone : String) : String :=
  let digits := if phone.toList.head? = some '+' then phone.toList.tail else phone.toList
  if "256".toList <+: digits then String.ofList ('0' :: digits.drop 3) else phone

def failed (error : JsonValue) : BulkResult := ⟨"", .failed, .number 1, some error⟩

def sent (entry : JsonValue) : BulkResult :=
  ⟨"", .sent, orElse (entry.field "number_of_messages") (.number 1), none⟩

def rejected (entry : JsonValue) : BulkResult :=
  failed (orElse (entry.field "error") (.string "rejected by provider"))

section provider
variable (numberText : ℚ → String)

/-- Where the result of an entry is written. -/
def indexText (entry : JsonValue) : Except Thrown String := do
  keyText numberText (← entry.get "index")

/-- `HTTP <status> <message>`, without the blank at its end. -/
def reason (status : ℕ) (message : Option JsonValue) : Except Thrown String := do
  let text ← toText numberText (orElse message (.string ""))
  return String.ofList (TextPatterns.trim s!"HTTP {status} {text}".toList)

def entriesOf (data : JsonValue) (name : String) : Except Thrown (List JsonValue) := do
  iterated (orElse (← data.get name) (.array []))

/-- `!res.ok || !body.data`: the data of a response that has some. -/
def readData (res : Response) (body : JsonValue) : Except Thrown (Option JsonValue) :=
  if res.ok then (body.get "data").map (Option.filter truthy) else .ok none

/-- A request that fails as a whole fails each message; else the lists are written over results that
have failed. -/
def readResults (requests : List SmsSendRequest) (res : Response) :
    Except Thrown (Sparse BulkResult) := do
  let body := res.body.getD (.object [])
  let data ← readData res body
  match data with
  | none => do
    let error ← reason numberText res.status (← body.get "message")
    return requests.map fun _ => some (failed (.string error))
  | some data => do
    let oks ← entriesOf data "successful_messages"
    let results ← assignAll (indexText numberText) sent oks
      (requests.map fun _ => some (failed (.string "not returned by provider")))
    let bads ← entriesOf data "failed_messages"
    assignAll (indexText numberText) rejected bads results

def sendBulk (config : UgSmsConfig) (fetch : BulkRequest → Except Thrown Response)
    (requests : List SmsSendRequest) : Except Thrown (Sparse BulkResult) :=
  if requests = [] then return []
  else do
    let res ← fetch
      { url := s!"{config.baseUrl}/sms/send/bulk"
        apiKey := config.apiKey
        messages := requests.map fun r => (toLocal r.toPhone, r.body)
        senderId := config.senderId
        reference := requests.head?.map SmsSendRequest.idempotencyKey }
    readResults numberText requests res

def dataOf (res : Response) : Option JsonValue :=
  ((res.body.getD (.object [])).field "data").filter truthy

/-- The entries of a list that name the message at this position. -/
def listed (res : Response) (name : String) (i : ℕ) : List JsonValue :=
  ((dataOf res).elim [] fun data => (entriesOf data name).toOption.getD []).filter
    (writes (indexText numberText) i)

/-- The last rejection of a message, or else the last success. -/
def resultFor (res : Response) (i : ℕ) : BulkResult :=
  if res.ok ∧ (dataOf res).isSome then
    ((listed numberText res "failed_messages" i).getLast?.map rejected).getD
      (((listed numberText res "successful_messages" i).getLast?.map sent).getD
        (failed (.string "not returned by provider")))
  else failed (.string ((reason numberText res.status
    ((res.body.getD (.object [])).field "message")).toOption.getD ""))

/-- Listed among the successes, and not among the failures. -/
def OnlySuccessful (res : Response) (i : ℕ) : Prop :=
  listed numberText res "successful_messages" i ≠ [] ∧
    listed numberText res "failed_messages" i = []

/-- The result of each message is at its position, and is what the response says of it; there is no
other result where no other position is listed; and a campaign settles each message by its own. -/
structure InOrder (requests : List SmsSendRequest) (res : Response) (results : Sparse BulkResult) :
    Prop where
  own : ∀ i < requests.length, results[i]? = some (some (resultFor numberText res i))
  one : (∀ name ∈ ["successful_messages", "failed_messages"], ∀ i,
    listed numberText res name i ≠ [] → i < requests.length) → results.length = requests.length
  sent : res.ok = true → ∀ i, OnlySuccessful numberText res i →
    (resultFor numberText res i).status = .sent
  settled : ∀ {κ σ : Type} (tables : Part σ LedgerDb) (lock : RowLock → κ) (credits : Credits κ σ)
    (eventId now : ℕ) (pending : List SmsMessage) (read : Option BulkResult → SmsSendResult),
    requests = pending.map toRequest →
      settleAll tables lock credits eventId now (results.map read) 0 0 0 pending =
        settleAll tables lock credits eventId now
          ((List.range pending.length).map fun i => read (some (resultFor numberText res i)))
          0 0 0 pending

end provider

theorem bind_ok {α β : Type} {x : Except Thrown α} {f : α → Except Thrown β} {b : β}
    (h : (x >>= f) = .ok b) : ∃ a, x = .ok a ∧ f a = .ok b := by
  cases x with
  | error e => cases h
  | ok a => exact ⟨a, rfl, h⟩

theorem get_ok {value : JsonValue} {name : String} {found : Option JsonValue}
    (h : value.get name = .ok found) : found = value.field name := by
  unfold JsonValue.get at h
  cases value <;> cases h <;> rfl

/-- Only the positions of the messages are read. -/
theorem settleAll_congr {κ σ : Type} {tables : Part σ LedgerDb} {lock : RowLock → κ}
    {credits : Credits κ σ} {eventId now : ℕ} {results results' : List SmsSendResult}
    {i sent failed : ℕ} {pending : List SmsMessage}
    (h : ∀ j < pending.length, results[i + j]? = results'[i + j]?) :
    settleAll tables lock credits eventId now results i sent failed pending =
      settleAll tables lock credits eventId now results' i sent failed pending := by
  induction pending generalizing i sent failed with
  | nil => rfl
  | cons m pending ih =>
    have hhere := h 0 (by simp)
    rw [Nat.add_zero] at hhere
    have hrest : ∀ j < pending.length, results[i + 1 + j]? = results'[i + 1 + j]? := by
      intro j hj
      have hnext := h (j + 1) (by simpa using hj)
      rwa [show i + (j + 1) = i + 1 + j by omega] at hnext
    simp only [settleAll, hhere]
    cases accepted results'[i]? with
    | some res => simp only [ih hrest]
    | none => simp only [ih hrest]

section returned
variable {numberText : ℚ → String} {requests : List SmsSendRequest} {res : Response}
  {results : Sparse BulkResult}

theorem sent_of_onlySuccessful (hok : res.ok = true) {i : ℕ}
    (h : OnlySuccessful numberText res i) : (resultFor numberText res i).status = .sent := by
  obtain ⟨hlisted, hnone⟩ := h
  have hdata : (dataOf res).isSome := by
    unfold listed at hlisted
    cases hdata : dataOf res with
    | none => simp [hdata] at hlisted
    | some data => rfl
  unfold resultFor
  rw [if_pos ⟨hok, hdata⟩, hnone, List.getLast?_eq_some_getLast hlisted]
  rfl

theorem inOrder_of_own
    (hown : ∀ i < requests.length, results[i]? = some (some (resultFor numberText res i)))
    (hone : (∀ name ∈ ["successful_messages", "failed_messages"], ∀ i,
      listed numberText res name i ≠ [] → i < requests.length) →
        results.length = requests.length) : InOrder numberText requests res results where
  own := hown
  one := hone
  sent hok _ h := sent_of_onlySuccessful hok h
  settled tables lock credits eventId now pending read hrequests := by
    refine settleAll_congr fun j hj => ?_
    have hlength : requests.length = pending.length := by rw [hrequests, List.length_map]
    rw [Nat.zero_add, List.getElem?_map, hown j (by omega), List.getElem?_map,
      List.getElem?_range hj]
    rfl

theorem listed_eq {data : JsonValue} {name : String} {entries : List JsonValue} {i : ℕ}
    (hdata : dataOf res = some data) (h : entriesOf data name = .ok entries) :
    listed numberText res name i = entries.filter (writes (indexText numberText) i) := by
  unfold listed
  rw [hdata, Option.elim_some, h]
  rfl

/-- The two lists of a response that has data. -/
theorem inOrder_of_lists (hok : res.ok = true) {data : JsonValue} {oks bads : List JsonValue}
    (hdata : dataOf res = some data) (hoks : entriesOf data "successful_messages" = .ok oks)
    (hbads : entriesOf data "failed_messages" = .ok bads) {middle : Sparse BulkResult}
    (hmiddle : assignAll (indexText numberText) sent oks
      (requests.map fun _ => some (failed (.string "not returned by provider"))) = .ok middle)
    (hresults : assignAll (indexText numberText) rejected bads middle = .ok results) :
    InOrder numberText requests res results := by
  refine inOrder_of_own (fun i hi => ?_) fun hin => ?_
  · obtain ⟨hlength, hplace⟩ := getElem?_assignAll hmiddle (i := i) (by simpa using hi)
    rw [List.length_map] at hlength
    obtain ⟨-, hplace'⟩ := getElem?_assignAll hresults (i := i) (by omega)
    rw [hplace', hplace, List.getElem?_map, List.getElem?_eq_getElem hi, ← listed_eq hdata hbads,
      ← listed_eq hdata hoks]
    unfold resultFor
    rw [if_pos ⟨hok, by rw [hdata]; rfl⟩]
    cases (listed numberText res "failed_messages" i).getLast? with
    | some bad => rfl
    | none => cases (listed numberText res "successful_messages" i).getLast? <;> rfl
  · have hsame : middle.length = requests.length := by
      refine (length_assignAll hmiddle fun entry hentry i hwrites => ?_).trans (List.length_map _)
      rw [List.length_map]
      refine hin "successful_messages" (by simp) i ?_
      rw [listed_eq hdata hoks]
      exact List.ne_nil_of_mem (List.mem_filter.mpr ⟨hentry, hwrites⟩)
    refine (length_assignAll hresults fun entry hentry i hwrites => ?_).trans hsame
    rw [hsame]
    refine hin "failed_messages" (by simp) i ?_
    rw [listed_eq hdata hbads]
    exact List.ne_nil_of_mem (List.mem_filter.mpr ⟨hentry, hwrites⟩)

/-- A request that failed as a whole. -/
theorem inOrder_of_failed (hdata : ¬ (res.ok = true ∧ (dataOf res).isSome)) {error : String}
    (herror : reason numberText res.status ((res.body.getD (.object [])).field "message") =
      .ok error) :
    InOrder numberText requests res
      (requests.map fun _ => some (failed (.string error))) := by
  refine inOrder_of_own (fun i hi => ?_) fun _ => List.length_map _
  rw [List.getElem?_map, List.getElem?_eq_getElem hi]
  unfold resultFor
  rw [if_neg hdata, herror]
  rfl

theorem inOrder_readResults (h : readResults numberText requests res = .ok results) :
    InOrder numberText requests res results := by
  obtain ⟨found, hfound, h⟩ := bind_ok h
  have hdata : found = if res.ok then dataOf res else none := by
    unfold readData at hfound
    split_ifs at hfound with hok
    · cases hget : (res.body.getD (.object [])).get "data" with
      | error e =>
        rw [hget] at hfound
        cases hfound
      | ok value =>
        rw [hget] at hfound
        rw [← Except.ok.inj hfound, get_ok hget, if_pos hok]
        rfl
    · rw [← Except.ok.inj hfound, if_neg hok]
  cases found with
  | none =>
    obtain ⟨message, hmessage, h⟩ := bind_ok h
    obtain ⟨error, herror, h⟩ := bind_ok h
    obtain rfl := Except.ok.inj h
    rw [get_ok hmessage] at herror
    refine inOrder_of_failed (fun hboth => ?_) herror
    rw [if_pos hboth.1] at hdata
    rw [← hdata] at hboth
    exact Bool.false_ne_true hboth.2
  | some data =>
    split_ifs at hdata with hok
    obtain ⟨oks, hoks, h⟩ := bind_ok h
    obtain ⟨middle, hmiddle, h⟩ := bind_ok h
    obtain ⟨bads, hbads, h⟩ := bind_ok h
    exact inOrder_of_lists hok hdata.symm hoks hbads hmiddle h

/-- What is returned is in the order of the requests, whatever the response is. -/
theorem results_in_order (numberText : ℚ → String) (config : UgSmsConfig)
    (fetch : BulkRequest → Except Thrown Response) (requests : List SmsSendRequest)
    (results : Sparse BulkResult) (h : sendBulk numberText config fetch requests = .ok results) :
    (requests = [] ∧ results = []) ∨ ∃ posted res, fetch posted = .ok res ∧
      InOrder numberText requests res results := by
  unfold sendBulk at h
  split_ifs at h with hempty
  · exact .inl ⟨hempty, (Except.ok.inj h).symm⟩
  · obtain ⟨res, hres, h⟩ := bind_ok h
    exact .inr ⟨_, res, hres, inOrder_readResults h⟩

end returned

/-- Whole numbers as they print. -/
def printed (x : ℚ) : String :=
  if x.den = 1 then String.ofList (Nat.toDigits 10 x.num.toNat) else "0.5"

def reminder : SmsSendRequest := ⟨"+256701000001", "Please pay", 30⟩

def listing (name : String) (index : ℕ) : JsonValue :=
  .object [("data", .object [(name, .array [.object [("index", .number index)]])])]

def gateway : UgSmsConfig := ⟨"https://ugsms.com/api/v2", "key", "AKABBO"⟩

def entry (index : ℚ) (fields : List (String × JsonValue)) : JsonValue :=
  .object (("index", .number index) :: fields)

/-- The first message is listed twice, the second not at all, and the third among both. -/
def mixed : Response :=
  ⟨true, 200, some <| .object [("data", .object [
    ("successful_messages", .array [entry 0 [], entry 0 [("number_of_messages", .number 2)],
      entry 2 []]),
    ("failed_messages", .array [entry 2 [("error", .string "blocked")]])])]⟩

def threeReminders : List SmsSendRequest :=
  [reminder, ⟨"+256701000002", "Please pay", 31⟩, ⟨"+256701000003", "Please pay", 32⟩]

def mixedResults : Sparse BulkResult :=
  [some (sent (entry 0 [("number_of_messages", .number 2)])),
    some (failed (.string "not returned by provider")), some (failed (.string "blocked"))]

set_option maxRecDepth 8000 in
theorem results_in_order_mixed :
    (threeReminders = [] ∧ mixedResults = []) ∨
      ∃ posted res, (fun _ : BulkRequest => (.ok mixed : Except Thrown Response)) posted = .ok res ∧
        InOrder printed threeReminders res mixedResults :=
  results_in_order printed gateway (fun _ => .ok mixed) threeReminders mixedResults rfl

/-- The provider takes a message beyond the one that was sent. -/
def beyond : Response := ⟨true, 200, some (listing "successful_messages" 5)⟩

/-- An answer with an error status that lists the message as a success. -/
def refused : Response := ⟨false, 500, some (listing "successful_messages" 0)⟩

set_option maxRecDepth 8000 in
/-- One makes six results of one request, the other a failure of a success. -/
theorem beyond_and_refused :
    (sendBulk printed gateway (fun _ => .ok beyond) [reminder]).toOption.map List.length = some 6 ∧
    (sendBulk printed gateway (fun _ => .ok refused) [reminder]).toOption.map
      (List.map (Option.map BulkResult.status)) = some [some .failed] ∧
    OnlySuccessful printed refused 0 := by
  refine ⟨by decide, by decide, List.ne_nil_of_length_pos ?_, List.eq_nil_of_length_eq_zero ?_⟩
  · decide
  · decide

end Akabbo.BulkResults
