import OfflineSync.Server
import Mathlib.Data.List.TakeWhile

/-!
# Crates that keep what they are given

An instance of `Crates` that can be run: a request is the URL it is made with and the batch in it,
and a response is what the handler returns or the status of a refusal. The path and the query are
read from the URL.
-/

namespace OfflineSync

/-- The address of the demo. -/
def localhost : String :=
  "http://localhost:4000"

inductive PlainRequest
  | postJson (url : String) (events : List ItemAppend)
  /-- A `POST` without a body. -/
  | post (url : String)
  | get (url : String)

inductive PlainResponse
  | ok (reply : Reply)
  | refused (status : ℕ)

/-! ### Reading a URL -/

namespace PlainRequest

def method : PlainRequest → Method
  | .postJson _ _ | .post _ => .post
  | .get _ => .get

def url : PlainRequest → List Char
  | .postJson url _ | .post url | .get url => url.toList

/-- The path at the server. -/
def path (req : PlainRequest) : List Char :=
  (req.url.takeWhile (· ≠ '?')).drop localhost.length

/-- What follows the question mark. -/
def query (req : PlainRequest) : List Char :=
  (req.url.dropWhile (· ≠ '?')).drop 1

/-- The number in a part of a query with the given name. -/
def field (name : String) (part : List Char) : Option ℕ :=
  let digits := part.drop name.length
  let n := Nat.ofDigitChars 10 digits 0
  if part = name.toList ++ digits ∧ digits ≠ [] ∧ digits.all Char.isDigit = true ∧ InU64 n then
    some n
  else
    none

/-- Read a query that has a limit. -/
def readQuery (query : List Char) : Option AfterQuery :=
  match query.splitOn '&' with
  | [limit] => (field "limit=" limit).map fun limit => ⟨none, some limit⟩
  | [limit, after] =>
    (field "limit=" limit).bind fun limit =>
      (field "after=" after).map fun after => ⟨some after, some limit⟩
  | _ => none

/-- The route of a request. -/
def route (table : List Route) (req : PlainRequest) : Option Route :=
  table.find? fun r => r.method = req.method ∧ r.path.toList = req.path

/-- A part of a query: a name and a number. -/
def part (name : String) (n : ℕ) : List Char :=
  name.toList ++ Nat.toDigits 10 n

private theorem field_part {name : String} {n : ℕ} (h : InU64 n) :
    field name (part name n) = some n := by
  have hdigits : ∀ c ∈ Nat.toDigits 10 n, c.isDigit = true := fun c hc =>
    Nat.isDigit_of_mem_toDigits (by decide) (by decide) hc
  have hdrop : (part name n).drop name.length = Nat.toDigits 10 n :=
    List.drop_left' String.length_toList
  rw [field, hdrop, Nat.ofDigitChars_ten_toDigits]
  exact if_pos ⟨rfl, Nat.toDigits_ne_nil, List.all_eq_true.mpr hdigits, h⟩

private theorem notMem_part {name : String} (hname : '&' ∉ name.toList) (n : ℕ) :
    '&' ∉ part name n := by
  intro hmem
  rcases List.mem_append.mp hmem with hmem | hmem
  · exact hname hmem
  · have hdigit := Nat.isDigit_of_mem_toDigits (by decide) (by decide) hmem
    cases hdigit

/-- The parts of a query of `afterQuery`. -/
def parts (limit : ℕ) (after : Option ℕ) : List (List Char) :=
  part "limit=" limit :: (after.map (part "after=")).toList

private theorem splitOn_afterQuery (limit : ℕ) (after : Option ℕ) :
    (afterQuery limit after).toList.splitOn '&' = parts limit after := by
  have hprint : (afterQuery limit after).toList = ['&'].intercalate (parts limit after) := by
    cases after with
    | none => simp [afterQuery, parts, part]
    | some o => simp [afterQuery, parts, part]
  rw [hprint]
  refine List.splitOn_intercalate '&' (fun p hp => ?_) (List.cons_ne_nil _ _)
  rcases List.mem_cons.mp hp with rfl | hp
  · exact notMem_part (by decide) limit
  · obtain ⟨o, -, rfl⟩ := Option.map_eq_some_iff.mp (Option.mem_toList.mp hp)
    exact notMem_part (by decide) o

/-- The numbers in a query are read as they were written. -/
private theorem readQuery_afterQuery {limit : ℕ} {after : Option ℕ} (hlimit : InU64 limit)
    (hafter : ∀ o ∈ after, InU64 o) :
    readQuery (afterQuery limit after).toList = some ⟨after, some limit⟩ := by
  rw [readQuery, splitOn_afterQuery]
  cases after with
  | none =>
    simp only [parts, Option.map_none, Option.toList_none, field_part hlimit, Option.map_some]
  | some o =>
    simp only [parts, Option.map_some, Option.toList_some, field_part hlimit,
      field_part (hafter o rfl), Option.bind_some]

section Url

variable {path : String} (hpath : '?' ∉ path.toList)

include hpath in
private theorem ne_question_of_mem {c : Char} (hc : c ∈ (localhost ++ path).toList) :
    decide (c ≠ '?') = true := by
  rw [String.toList_append, List.mem_append] at hc
  refine decide_eq_true ?_
  rintro rfl
  rcases hc with hc | hc
  · exact absurd hc (by decide)
  · exact hpath hc

include hpath in
private theorem path_postJson (events : List ItemAppend) :
    (postJson (localhost ++ path) events).path = path.toList := by
  have htake : (localhost ++ path).toList.takeWhile (· ≠ '?') = (localhost ++ path).toList :=
    List.takeWhile_eq_self_iff.mpr fun _ => ne_question_of_mem hpath
  rw [PlainRequest.path, url, htake, String.toList_append]
  exact List.drop_left' String.length_toList

private theorem url_get (path query : String) : (get (localhost ++ path ++ "?" ++ query)).url
    = (localhost ++ path).toList ++ '?' :: query.toList := by
  simp only [url, String.toList_append, List.append_assoc]
  rfl

include hpath in
private theorem path_get (query : String) :
    (get (localhost ++ path ++ "?" ++ query)).path = path.toList := by
  rw [PlainRequest.path, url_get,
    List.takeWhile_append_of_pos fun _ => ne_question_of_mem hpath,
    List.takeWhile_cons_of_neg (by decide), List.append_nil, String.toList_append]
  exact List.drop_left' String.length_toList

include hpath in
private theorem query_get (query : String) :
    (get (localhost ++ path ++ "?" ++ query)).query = query.toList := by
  rw [PlainRequest.query, url_get,
    List.dropWhile_append_of_pos fun _ => ne_question_of_mem hpath,
    List.dropWhile_cons_of_neg (by decide)]
  rfl

end Url

/-- A route of the server is found by its method and path. -/
private theorem route_routes {req : PlainRequest} {r : Route} (hr : r ∈ routes)
    (hmethod : req.method = r.method) (hpath : req.path = r.path.toList) :
    route routes req = some r := by
  have hfound : ∀ r ∈ routes, routes.find? (fun r' => r'.method = r.method ∧
      r'.path.toList = r.path.toList) = some r := by decide
  rw [route, hmethod, hpath]
  exact hfound r hr

private theorem notMem_path {r : Route} (hr : r ∈ routes) : '?' ∉ r.path.toList := by
  have hplain : ∀ r ∈ routes, '?' ∉ r.path.toList := by decide
  exact hplain r hr

/-- The handler of a request, or the refusal of one that has none. -/
def router (table : List Route) (req : PlainRequest) : Except PlainResponse Endpoint :=
  match route table req with
  | some r => .ok r.handler
  | none =>
    .error (.refused (if table.any fun r => r.path.toList = req.path then 405 else 404))

private theorem router_routes {req : PlainRequest} {r : Route} (hr : r ∈ routes)
    (hmethod : r.method = req.method) (hpath : req.path = r.path.toList) :
    router routes req = .ok r.handler := by
  rw [router, route_routes hr hmethod.symm hpath]

/-- The batch of a request. -/
def json : PlainRequest → Except PlainResponse (List ItemAppend)
  | .postJson _ events =>
    if ∀ ev ∈ events, ev.InRange then .ok events else .error (.refused 422)
  | .post _ | .get _ => .error (.refused 415)

private theorem inRange_of_json {req : PlainRequest} {events : List ItemAppend}
    (h : json req = .ok events) : ∀ ev ∈ events, ev.InRange := by
  cases req with
  | postJson url events' =>
    simp only [json] at h
    split_ifs at h with hevents
    exact Except.ok.inj h ▸ hevents
  | post | get => cases h

/-- The extracted query of a request. -/
def extractQuery (req : PlainRequest) : Except PlainResponse AfterQuery :=
  match readQuery req.query with
  | some q => .ok q
  | none => .error (.refused 400)

end PlainRequest

namespace PlainResponse

def status : PlainResponse → ℕ
  | .ok _ => 200
  | .refused status => status

def errorForStatus (resp : PlainResponse) : Except String PlainResponse :=
  if 400 ≤ resp.status ∧ resp.status < 600 then
    .error ("HTTP status error " ++ toString resp.status)
  else
    .ok resp

def descriptors : PlainResponse → Except String (List ItemDescriptor)
  | .ok (.descriptors ds) => .ok ds
  | _ => .error "error decoding response body"

def page : PlainResponse → Except String (EventsPage ItemEvent ItemId)
  | .ok (.page page) => .ok page
  | _ => .error "error decoding response body"

end PlainResponse

/-- Crates that keep what they are given. -/
def plainCrates : Crates where
  Request := PlainRequest
  Response := PlainResponse
  uuid := .hyphenated
  baseUrl := localhost
  postJson := .postJson
  get := .get
  router := PlainRequest.router
  router_postJson _ hr hmethod events :=
    PlainRequest.router_routes hr hmethod
      (PlainRequest.path_postJson (PlainRequest.notMem_path hr) events)
  router_get _ hr hmethod _ _ _ _ :=
    PlainRequest.router_routes hr hmethod (PlainRequest.path_get (PlainRequest.notMem_path hr) _)
  status := PlainResponse.status
  json := PlainRequest.json
  fits _ := true
  json_postJson _ _ hevents _ := if_pos hevents
  json_oversized _ _ hfits := Bool.noConfusion hfits
  json_inRange _ _ := PlainRequest.inRange_of_json
  query := PlainRequest.extractQuery
  query_get _ hr _ _ hlimit hafter := by
    rw [PlainRequest.extractQuery, PlainRequest.query_get (PlainRequest.notMem_path hr),
      PlainRequest.readQuery_afterQuery hlimit hafter]
  respond _ := .ok
  status_respond _ _ := rfl
  errorForStatus := PlainResponse.errorForStatus
  errorForStatus_ok _ h := if_neg (by rw [h]; decide)
  errorForStatus_error _ h h' := ⟨_, if_pos ⟨h, h'⟩⟩
  readDescriptors := PlainResponse.descriptors
  readDescriptors_respond _ _ _ _ := rfl
  readPage := PlainResponse.page
  readPage_respond _ _ _ := rfl

end OfflineSync
