import EdgeAllocator.Message
import EdgeAllocator.Request
import EdgeAllocator.Target

/-! The other half of `handleClient`: the endpoint that a request is for, and the answer
that is sent. -/
namespace EdgeAllocator.Dispatch

open Foundation Assembly
open Request (Wanted JsonLibrary)

inductive Endpoint where
  | health
  | status
  | configuration
  | applyConfiguration
  | devices
  | edgeNodes
  | tasks
  | activeTasks
  | taskLifecycle (taskId : List UInt8)
  | allocations
  | metrics
  | activities
  | alerts
  | resourceHistory
  deriving DecidableEq

def get : List UInt8 := ascii "GET"
def put : List UInt8 := ascii "PUT"
def tasksPrefix : List UInt8 := ascii "/api/tasks/"

section Route

variable (method path : List UInt8)

def exactly (expectedMethod expectedPath : List UInt8) (endpoint : Endpoint) : Option Endpoint :=
  if method = expectedMethod ∧ path = expectedPath then some endpoint else none

def lifecycle : Option Endpoint :=
  if method = get ∧ tasksPrefix <+: path ∧ 11 < path.length then
    some (.taskLifecycle (path.drop 11))
  else none

def comparisons : List (Option Endpoint) :=
  [exactly method path get (ascii "/api/health") .health,
    exactly method path get (ascii "/api/status") .status,
    exactly method path get (ascii "/api/configuration") .configuration,
    exactly method path put (ascii "/api/configuration") .applyConfiguration,
    exactly method path get (ascii "/api/devices") .devices,
    exactly method path get (ascii "/api/edge-nodes") .edgeNodes,
    exactly method path get (ascii "/api/tasks") .tasks,
    exactly method path get (ascii "/api/tasks/active") .activeTasks,
    lifecycle method path,
    exactly method path get (ascii "/api/allocations") .allocations,
    exactly method path get (ascii "/api/metrics") .metrics,
    exactly method path get (ascii "/api/activities") .activities,
    exactly method path get (ascii "/api/alerts") .alerts,
    exactly method path get (ascii "/api/resource-history") .resourceHistory]

def route : Option Endpoint := (comparisons method path).findSome? id

end Route

def Endpoint.address : Endpoint → List UInt8 × List UInt8
  | .health => (get, ascii "/api/health")
  | .status => (get, ascii "/api/status")
  | .configuration => (get, ascii "/api/configuration")
  | .applyConfiguration => (put, ascii "/api/configuration")
  | .devices => (get, ascii "/api/devices")
  | .edgeNodes => (get, ascii "/api/edge-nodes")
  | .tasks => (get, ascii "/api/tasks")
  | .activeTasks => (get, ascii "/api/tasks/active")
  | .taskLifecycle taskId => (get, tasksPrefix ++ taskId)
  | .allocations => (get, ascii "/api/allocations")
  | .metrics => (get, ascii "/api/metrics")
  | .activities => (get, ascii "/api/activities")
  | .alerts => (get, ascii "/api/alerts")
  | .resourceHistory => (get, ascii "/api/resource-history")

/-- A task id that the path can tell from the other endpoints. -/
def Endpoint.Addressable : Endpoint → Prop
  | .taskLifecycle taskId => taskId ≠ [] ∧ taskId ≠ ascii "active"
  | _ => True

theorem exactly_some {method path expectedMethod expectedPath : List UInt8}
    {endpoint found : Endpoint}
    (h : exactly method path expectedMethod expectedPath endpoint = some found) :
    found = endpoint ∧ (method, path) = (expectedMethod, expectedPath) := by
  obtain ⟨⟨rfl, rfl⟩, heq⟩ := Option.ite_none_right_eq_some.mp h
  exact ⟨(Option.some_inj.mp heq).symm, rfl⟩

theorem route_taskLifecycle {taskId : List UInt8} (hnonempty : taskId ≠ [])
    (hactive : taskId ≠ ascii "active") :
    route get (tasksPrefix ++ taskId) = some (.taskLifecycle taskId) := by
  have hother {method text : List UInt8} {endpoint : Endpoint} (h : ¬ tasksPrefix <+: text) :
      exactly get (tasksPrefix ++ taskId) method text endpoint = none :=
    if_neg fun (hsame : _ ∧ tasksPrefix ++ taskId = text) =>
      h (hsame.2 ▸ List.prefix_append tasksPrefix taskId)
  have hnotActive : exactly get (tasksPrefix ++ taskId) get (ascii "/api/tasks/active")
      .activeTasks = none :=
    if_neg fun hsame => hactive (List.append_cancel_left (hsame.2 : tasksPrefix ++ _ = tasksPrefix ++ _))
  have hlifecycle : lifecycle get (tasksPrefix ++ taskId) = some (.taskLifecycle taskId) := by
    have hlength : 11 < (tasksPrefix ++ taskId).length := by
      rw [List.length_append]
      exact Nat.lt_add_of_pos_right (List.length_pos_iff.mpr hnonempty)
    exact if_pos ⟨rfl, List.prefix_append _ _, hlength⟩
  unfold route comparisons
  rw [hother (by decide), hother (by decide), hother (by decide), hother (by decide),
    hother (by decide), hother (by decide), hother (by decide), hnotActive, hlifecycle]
  rfl

theorem address_of_comparison {method path : List UInt8} {endpoint : Endpoint}
    (h : some endpoint ∈ comparisons method path) : (method, path) = endpoint.address ∧
      ∀ taskId, endpoint = .taskLifecycle taskId → taskId ≠ [] := by
  have hexactly {expectedMethod expectedPath : List UInt8} {expected : Endpoint}
      (hfound : some endpoint = exactly method path expectedMethod expectedPath expected)
      (haddress : expected.address = (expectedMethod, expectedPath))
      (hother : ∀ taskId, expected ≠ .taskLifecycle taskId) :
      (method, path) = endpoint.address ∧
        ∀ taskId, endpoint = .taskLifecycle taskId → taskId ≠ [] := by
    obtain ⟨rfl, hsame⟩ := exactly_some hfound.symm
    exact ⟨hsame.trans haddress.symm, fun taskId heq => absurd heq (hother taskId)⟩
  simp only [comparisons, List.mem_cons, List.not_mem_nil, or_false] at h
  obtain h | h | h | h | h | h | h | h | h | h | h | h | h | h := h
  case inr.inr.inr.inr.inr.inr.inr.inr.inl =>
    obtain ⟨⟨rfl, ⟨taskId, rfl⟩, hlength⟩, heq⟩ := Option.ite_none_right_eq_some.mp h.symm
    rw [List.drop_left' (by decide), Option.some_inj] at heq
    subst heq
    refine ⟨rfl, fun taskId' heq => ?_⟩
    cases heq
    rintro rfl
    exact absurd hlength (by decide)
  all_goals exact hexactly h rfl (by rintro _ ⟨⟩)

theorem route_eq_some_iff {method path : List UInt8} {endpoint : Endpoint} :
    route method path = some endpoint ↔
      endpoint.Addressable ∧ (method, path) = endpoint.address := by
  constructor
  · intro h
    obtain ⟨entry, hentry, rfl⟩ := List.exists_of_findSome?_eq_some h
    obtain ⟨haddress, hnonempty⟩ := address_of_comparison hentry
    refine ⟨?_, haddress⟩
    cases endpoint with
    | taskLifecycle taskId =>
        refine ⟨hnonempty taskId rfl, ?_⟩
        rintro rfl
        obtain ⟨rfl, rfl⟩ := Prod.ext_iff.mp haddress
        exact absurd h (by decide)
    | _ => trivial
  · rintro ⟨haddressable, haddress⟩
    obtain ⟨rfl, rfl⟩ := Prod.ext_iff.mp haddress
    cases endpoint with
    | taskLifecycle taskId => exact route_taskLifecycle haddressable.1 haddressable.2
    | _ => decide +kernel

def statusText : Nat → List UInt8
  | 200 => ascii "OK"
  | 204 => ascii "No Content"
  | 400 => ascii "Bad Request"
  | 404 => ascii "Not Found"
  | 500 => ascii "Internal Server Error"
  | _ => ascii "Response"

def makeResponse (statusCode : Nat) (statusText contentType body : List UInt8) : List UInt8 :=
  ascii "HTTP/1.1 " ++ digits statusCode ++ ascii " " ++ statusText ++ ascii "\r\n" ++
    ascii "Content-Type: " ++ contentType ++ ascii "\r\n" ++
    ascii "Content-Length: " ++ digits body.length ++ ascii "\r\n" ++
    ascii "Access-Control-Allow-Origin: *\r\n" ++
    ascii "Access-Control-Allow-Methods: GET, PUT, OPTIONS\r\n" ++
    ascii "Access-Control-Allow-Headers: Content-Type\r\n" ++
    ascii "Connection: close\r\n\r\n" ++ body

def makeJsonResponse (statusCode : Nat) (serialized : List UInt8) : List UInt8 :=
  makeResponse statusCode (statusText statusCode) (ascii "application/json; charset=utf-8")
    serialized

def commonFields : List HeaderField :=
  [headerField (ascii "Access-Control-Allow-Origin") (ascii "*"),
    headerField (ascii "Access-Control-Allow-Methods") (ascii "GET, PUT, OPTIONS"),
    headerField (ascii "Access-Control-Allow-Headers") (ascii "Content-Type"),
    headerField (ascii "Connection") (ascii "close")]

def response (statusCode : Nat) (contentType body : List UInt8) : Message where
  method := ascii "HTTP/1.1"
  target := digits statusCode
  rest := statusText statusCode
  fields := headerField (ascii "Content-Type") contentType ::
    headerField (ascii "Content-Length") (digits body.length) :: commonFields
  body := body

theorem makeResponse_eq (statusCode : Nat) (contentType body : List UInt8) :
    makeResponse statusCode (statusText statusCode) contentType body =
      (response statusCode contentType body).bytes := by
  have hversion : ascii "HTTP/1.1 " = ascii "HTTP/1.1" ++ [32] := by decide +kernel
  have hblank : ascii " " = [32] := by decide +kernel
  have hbreak : ascii "\r\n" = [cr, lf] := by decide +kernel
  have htype : ascii "Content-Type: " = ascii "Content-Type" ++ [58, 32] := by decide +kernel
  have hlength : ascii "Content-Length: " = ascii "Content-Length" ++ [58, 32] := by
    decide +kernel
  have horigin : ascii "Access-Control-Allow-Origin: *\r\n" =
      ascii "Access-Control-Allow-Origin" ++ 58 :: 32 :: ascii "*" ++ [cr, lf] := by
    decide +kernel
  have hmethods : ascii "Access-Control-Allow-Methods: GET, PUT, OPTIONS\r\n" =
      ascii "Access-Control-Allow-Methods" ++ 58 :: 32 :: ascii "GET, PUT, OPTIONS" ++
        [cr, lf] := by
    decide +kernel
  have hheaders : ascii "Access-Control-Allow-Headers: Content-Type\r\n" =
      ascii "Access-Control-Allow-Headers" ++ 58 :: 32 :: ascii "Content-Type" ++ [cr, lf] := by
    decide +kernel
  have hconnection : ascii "Connection: close\r\n\r\n" =
      ascii "Connection" ++ 58 :: 32 :: ascii "close" ++ terminator := by decide +kernel
  unfold makeResponse
  rw [hversion, hblank, hbreak, htype, hlength, horigin, hmethods, hheaders, hconnection]
  simp only [Message.bytes, Message.header, Message.startLine, response, commonFields, headerBlock,
    headerField, List.map_cons, List.map_nil, HeaderField.line, List.append_assoc,
    List.cons_append, List.nil_append]

theorem commonFields_sound : ∀ field ∈ commonFields, field.Sound := by
  have hcommon : ∀ field ∈ commonFields,
      Token field.name ∧ cr ∉ field.value ∧ lf ∉ field.value := by decide +kernel
  exact fun field hfield => ⟨(hcommon field hfield).1, (hcommon field hfield).2⟩

theorem digits_word (n : Nat) : Message.Word (digits n) := by
  refine ⟨?_, fun c hc => ?_⟩
  · rw [digits, ascii, Ne, List.map_eq_nil_iff, Nat.toList_repr]
    exact Nat.toDigits_ne_nil
  · obtain ⟨char, hchar, rfl⟩ := List.mem_map.mp hc
    rw [Nat.toList_repr] at hchar
    have hdigit := Nat.isDigit_of_mem_toDigits (by decide) (by decide) hchar
    rw [charOf_toUInt8 hdigit]
    exact not_isSpace_of_isDigit hdigit

theorem statusText_clean (statusCode : Nat) :
    cr ∉ statusText statusCode ∧ lf ∉ statusText statusCode := by
  unfold statusText
  split <;> decide +kernel

theorem headerField_sound {name value : List UInt8} (hname : Token name)
    (hvalue : cr ∉ value ∧ lf ∉ value) : (headerField name value).Sound := by
  refine ⟨hname, ?_, ?_⟩
  · rw [headerField, List.mem_cons, not_or]
    exact ⟨by decide, hvalue.1⟩
  · rw [headerField, List.mem_cons, not_or]
    exact ⟨by decide, hvalue.2⟩

theorem response_sound {statusCode : Nat} {contentType body : List UInt8}
    (hcontentType : cr ∉ contentType ∧ lf ∉ contentType) (hbody : body.length < sizeLimit) :
    (response statusCode contentType body).Sound where
  method := ⟨List.cons_ne_nil _ _, show ∀ c ∈ ascii "HTTP/1.1", _ by decide +kernel⟩
  target := digits_word statusCode
  rest := statusText_clean statusCode
  fields := by
    have hdigits {c : UInt8} (hc : isSpace (charOf c) = true) : c ∉ digits body.length :=
      (digits_word body.length).not_mem hc
    have htype : Token (ascii "Content-Type") := by decide +kernel
    have hlength : Token (ascii "Content-Length") := by decide +kernel
    exact List.forall_mem_cons.mpr ⟨headerField_sound htype hcontentType,
      List.forall_mem_cons.mpr ⟨headerField_sound hlength ⟨hdigits (by decide), hdigits (by decide)⟩,
        commonFields_sound⟩⟩
  length := hbody
  lengthField := by
    have hcommon : commonFields.filter HeaderField.isLength = [] := by decide +kernel
    have hother : ¬(ascii "Content-Type" = ascii "Content-Length" ∨
        ascii "Content-Type" = ascii "content-length") := by
      decide +kernel
    have htype : (headerField (ascii "Content-Type") contentType).isLength = false :=
      decide_eq_false hother
    have hlength : (headerField (ascii "Content-Length") (digits body.length)).isLength = true :=
      decide_eq_true (Or.inl rfl)
    refine Or.inl ?_
    rw [response, List.filter_cons_of_neg (by simp [htype]), List.filter_cons_of_pos hlength,
      hcommon, List.map_cons, List.map_nil, headerField, trim_spaced_digits]

/-- What the handler needs of the JSON library; `dump` throws on what is not UTF-8. -/
structure Library (Json : Type) extends JsonLibrary Json where
  bool : Bool → Json
  text : List UInt8 → Json
  object : List (String × Json) → Json
  dump : Json → Except (List UInt8) (List UInt8)

/-- What the handler needs of `LiveRuntime`: the answers to its queries, and
`applyConfiguration`. -/
structure Runtime (σ Json : Type) where
  query : σ → Endpoint → Json
  apply : σ → Wanted → σ × Except String Unit

inductive Outcome where
  /-- The connection is closed without an answer. -/
  | closed
  | sent (response : List UInt8)
  /-- An exception has left the handler. -/
  | terminated
  deriving DecidableEq

section Handler

variable {σ Json : Type} (library : Library Json) (runtime : Runtime σ Json)

def errorJson (error : List UInt8) : Json := library.object [("error", library.text error)]

def answer (s : σ) (body : List UInt8) : Option Endpoint → σ × Except (List UInt8) (Nat × Json)
  | some .health =>
      (s, .ok (200, library.object [("ok", library.bool true),
        ("backend", library.text (ascii "cpp"))]))
  | some .applyConfiguration =>
      match Request.extract library.toJsonLibrary body with
      | .error what => (s, .error what)
      | .ok wanted =>
          match runtime.apply s wanted with
          | (s, .error error) => (s, .ok (400, library.object
              [("success", library.bool false), ("error", library.text (ascii error))]))
          | (s, .ok ()) => (s, .ok (200, library.object
              [("success", library.bool true), ("configuration", runtime.query s .configuration)]))
  | some (.taskLifecycle taskId) =>
      let response := runtime.query s (.taskLifecycle taskId)
      (s, (library.valueBool response "found" false).map fun found =>
        (if found then 200 else 404, response))
  | some endpoint => (s, .ok (200, runtime.query s endpoint))
  | none => (s, .ok (404, errorJson library (ascii "Endpoint not found")))

def handleException (what : List UInt8) : Outcome :=
  match library.dump (errorJson library what) with
  | .ok serialized => .sent (makeJsonResponse 400 serialized)
  | .error _ => .terminated

def respond : σ × Except (List UInt8) (Nat × Json) → σ × Outcome
  | (s, .error what) => (s, handleException library what)
  | (s, .ok (status, response)) =>
      match library.dump response with
      | .error what => (s, handleException library what)
      | .ok serialized => (s, .sent (makeJsonResponse status serialized))

def handleRequest (s : σ) (request : Assembly.Request) : σ × Outcome :=
  if request.method = ascii "OPTIONS" then
    (s, .sent (makeResponse 204 (statusText 204) (ascii "text/plain") []))
  else
    respond library (answer library runtime s request.body
      (route request.method (Target.pathOf request.target)))

def handleClient (s : σ) (chunks : List (List UInt8)) : σ × Outcome :=
  match Assembly.handleClient chunks with
  | .closed => (s, .closed)
  | .malformed => (s, .sent
      (makeResponse 400 (statusText 400) (ascii "text/plain") (ascii "Malformed HTTP request")))
  | .request request => handleRequest library runtime s request

end Handler

/-- The target is the address of the endpoint: its path, escaped as much as one likes, and
a query or none. -/
def Targets (endpoint : Endpoint) (target : List UInt8) : Prop :=
  ∃ text query, target = text ++ query ∧ PercentEncodes endpoint.address.2 text ∧
    Target.questionMark ∉ text ∧ ∀ c ∈ query.head?, c = Target.questionMark

theorem Targets.pathOf_eq {endpoint : Endpoint} {target : List UInt8}
    (h : Targets endpoint target) : Target.pathOf target = endpoint.address.2 := by
  obtain ⟨text, query, rfl, hencodes, hplain, hasked⟩ := h
  have htext : ∀ c ∈ text, decide (c ≠ Target.questionMark) = true := by
    intro c hc
    have hne : c ≠ Target.questionMark := fun heq => hplain (heq ▸ hc)
    exact decide_eq_true hne
  have hquery : query.takeWhile (· ≠ Target.questionMark) = [] := by
    cases query with
    | nil => rfl
    | cons c query => rw [hasked c rfl, List.takeWhile_cons_of_neg (by simp)]
  rw [Target.pathOf_eq, List.takeWhile_append_of_pos htext, hquery, List.append_nil,
    percentDecode_of_encodes hencodes]

section Serve

variable {σ Json : Type} {library : Library Json} {runtime : Runtime σ Json} {m : Message}

theorem handleClient_of_message (h : m.Sound) (hlimit : m.header.length + 4 ≤ readLimit)
    (hbody : m.body.length ≤ readLimit) (extra : List UInt8)
    (cut : Segmentation bufferSize (m.bytes ++ extra)) (s : σ) :
    handleClient library runtime s cut.chunks =
      handleRequest library runtime s ⟨m.method, m.target, m.body⟩ := by
  rw [handleClient, h.received hlimit hbody extra cut]

theorem not_options (endpoint : Endpoint) : endpoint.address.1 ≠ ascii "OPTIONS" := by
  have hget : get ≠ ascii "OPTIONS" := by decide +kernel
  have hput : put ≠ ascii "OPTIONS" := by decide +kernel
  cases endpoint with
  | applyConfiguration => exact hput
  | _ => exact hget

/-- However a request is cut, it reaches the endpoint that it addresses, with the body that
the client has written; and a request that addresses none is answered so. -/
theorem handleClient_routes (h : m.Sound) (hlimit : m.header.length + 4 ≤ readLimit)
    (hbody : m.body.length ≤ readLimit) (extra : List UInt8)
    (cut : Segmentation bufferSize (m.bytes ++ extra)) (s : σ) :
    (∀ endpoint : Endpoint, endpoint.Addressable → m.method = endpoint.address.1 →
      Targets endpoint m.target → handleClient library runtime s cut.chunks =
        respond library (answer library runtime s m.body (some endpoint))) ∧
      (m.method ≠ ascii "OPTIONS" →
        (∀ endpoint : Endpoint, endpoint.Addressable →
          (m.method, Target.pathOf m.target) ≠ endpoint.address) →
        handleClient library runtime s cut.chunks =
          respond library (s, .ok (404, errorJson library (ascii "Endpoint not found")))) := by
  rw [handleClient_of_message h hlimit hbody extra cut]
  constructor
  · intro endpoint haddressable hmethod htargets
    have hroute : route m.method (Target.pathOf m.target) = some endpoint :=
      route_eq_some_iff.mpr ⟨haddressable, Prod.ext hmethod htargets.pathOf_eq⟩
    rw [handleRequest, if_neg (hmethod ▸ not_options endpoint), hroute]
  · intro hoptions hnone
    have hroute : route m.method (Target.pathOf m.target) = none := by
      rw [Option.eq_none_iff_forall_ne_some]
      intro endpoint hsome
      obtain ⟨haddressable, haddress⟩ := route_eq_some_iff.mp hsome
      exact hnone endpoint haddressable haddress
    rw [handleRequest, if_neg hoptions, hroute]
    rfl

def textLibrary : Library (List UInt8) where
  parse body := .ok body
  valueBool json key fallback :=
    .ok ((find (ascii ("\"" ++ key ++ "\":true")) json).isSome || fallback)
  valueString _ _ fallback := .ok fallback
  dumps _ := true
  bool value := ascii (if value then "true" else "false")
  text value := ascii "\"" ++ value ++ ascii "\""
  object fields := ascii "\x7b" ++ (fields.map fun (key, value) =>
    ascii ("\"" ++ key ++ "\":") ++ value).flatten ++ ascii "\x7d"
  dump json := .ok json

def oneTask : Runtime Unit (List UInt8) where
  query _ endpoint := textLibrary.object
    [("found", textLibrary.bool (endpoint = .taskLifecycle (ascii "T000001")))]
  apply s _ := (s, .ok ())

def getLifecycle : Message where
  method := get
  target := ascii "/api/tasks/T00000%31?t=5"
  rest := ascii "HTTP/1.1"
  fields := [headerField (ascii "Host") (ascii "localhost:8080")]
  body := []

theorem getLifecycle_sound : getLifecycle.Sound where
  method := ⟨by decide +kernel, by decide +kernel⟩
  target := ⟨by decide +kernel, by decide +kernel⟩
  rest := by decide +kernel
  fields := by
    simp only [getLifecycle, List.forall_mem_singleton]
    exact ⟨by decide +kernel, by decide +kernel⟩
  length := by decide
  lengthField := Or.inr ⟨rfl, by decide +kernel⟩

def getLifecycleCut : Segmentation bufferSize (getLifecycle.bytes ++ []) where
  chunks := [getLifecycle.bytes.take 20, getLifecycle.bytes.drop 20]
  joined := by decide +kernel
  sized := by decide +kernel

theorem handleClient_routes_lifecycle :
    (∀ endpoint : Endpoint, endpoint.Addressable → getLifecycle.method = endpoint.address.1 →
      Targets endpoint getLifecycle.target →
        handleClient textLibrary oneTask () getLifecycleCut.chunks =
          respond textLibrary (answer textLibrary oneTask () getLifecycle.body (some endpoint))) ∧
      (getLifecycle.method ≠ ascii "OPTIONS" →
        (∀ endpoint : Endpoint, endpoint.Addressable →
          (getLifecycle.method, Target.pathOf getLifecycle.target) ≠ endpoint.address) →
        handleClient textLibrary oneTask () getLifecycleCut.chunks =
          respond textLibrary
            ((), .ok (404, errorJson textLibrary (ascii "Endpoint not found")))) :=
  handleClient_routes getLifecycle_sound (by decide +kernel) (by decide) [] getLifecycleCut ()

/-- A response of the server, whose header tells where its body ends. -/
def Framed (r : List UInt8) : Prop :=
  ∃ statusCode ∈ [200, 204, 400, 404], ∃ headerEnd, find terminator r = some headerEnd ∧
    requestParts (r.take headerEnd) = (ascii "HTTP/1.1", digits statusCode) ∧
    contentLength (r.take headerEnd) = (r.drop (headerEnd + 4)).length

theorem framed_makeResponse {statusCode : Nat} {contentType body : List UInt8}
    (hcode : statusCode ∈ [200, 204, 400, 404]) (hcontentType : cr ∉ contentType ∧ lf ∉ contentType)
    (hsize : (makeResponse statusCode (statusText statusCode) contentType body).length <
      sizeLimit) :
    Framed (makeResponse statusCode (statusText statusCode) contentType body) := by
  rw [makeResponse_eq] at hsize ⊢
  have hbody : body.length < sizeLimit := by
    refine lt_of_le_of_lt ?_ hsize
    rw [Message.bytes, List.length_append]
    exact Nat.le_add_left _ _
  have hsound : (response statusCode contentType body).Sound := response_sound hcontentType hbody
  have hfind := hsound.find_terminator []
  rw [List.append_nil] at hfind
  have hheader : (response statusCode contentType body).bytes.take
      (response statusCode contentType body).header.length =
        (response statusCode contentType body).header := by
    rw [Message.bytes, List.append_assoc, List.take_left]
  have hrest : (response statusCode contentType body).bytes.drop
      ((response statusCode contentType body).header.length + 4) = body := by
    rw [Message.bytes, List.append_assoc, ← List.drop_drop, List.drop_left]
    rfl
  refine ⟨statusCode, hcode, _, hfind, ?_, ?_⟩
  · rw [hheader]
    exact hsound.requestParts_eq
  · rw [hheader, hrest]
    exact hsound.contentLength_eq

theorem framed_makeJsonResponse {statusCode : Nat} {serialized : List UInt8}
    (hcode : statusCode ∈ [200, 204, 400, 404])
    (hsize : (makeJsonResponse statusCode serialized).length < sizeLimit) :
    Framed (makeJsonResponse statusCode serialized) :=
  framed_makeResponse hcode (by decide +kernel) hsize

theorem framed_handleException {what r : List UInt8}
    (h : handleException library what = .sent r) (hsize : r.length < sizeLimit) : Framed r := by
  unfold handleException at h
  split at h
  · cases h
    exact framed_makeJsonResponse (by decide) hsize
  · cases h

theorem framed_respond {s : σ} {result : Except (List UInt8) (Nat × Json)}
    (hcode : ∀ statusCode response, result = .ok (statusCode, response) →
      statusCode ∈ [200, 204, 400, 404]) {r : List UInt8}
    (h : (respond library (s, result)).2 = .sent r) (hsize : r.length < sizeLimit) :
    Framed r := by
  cases result with
  | error what => exact framed_handleException h hsize
  | ok reply =>
      obtain ⟨statusCode, response⟩ := reply
      unfold respond at h
      dsimp only at h
      split at h
      · exact framed_handleException h hsize
      · cases h
        exact framed_makeJsonResponse (hcode _ _ rfl) hsize

theorem respond_fst (library : Library Json) (result : σ × Except (List UInt8) (Nat × Json)) :
    (respond library result).1 = result.1 := by
  obtain ⟨s, _ | ⟨statusCode, response⟩⟩ := result
  · rfl
  · unfold respond
    dsimp only
    split <;> rfl

theorem answer_code {s : σ} {body : List UInt8} {found : Option Endpoint} {statusCode : Nat}
    {response : Json} (h : (answer library runtime s body found).2 = .ok (statusCode, response)) :
    statusCode ∈ [200, 204, 400, 404] := by
  cases found with
  | none =>
      cases h
      decide
  | some endpoint =>
      cases endpoint with
      | applyConfiguration =>
          simp only [answer] at h
          split at h
          · cases h
          · split at h <;> cases h <;> decide
      | taskLifecycle taskId =>
          simp only [answer] at h
          cases hfound :
              library.valueBool (runtime.query s (.taskLifecycle taskId)) "found" false with
          | error what =>
              rw [hfound] at h
              cases h
          | ok found =>
              rw [hfound] at h
              cases h
              cases found <;> decide
      | _ =>
          cases h
          decide

theorem answer_fst {s : σ} {body : List UInt8} (found : Option Endpoint) :
    (answer library runtime s body found).1 = s ∨ found = some .applyConfiguration ∧
      ∃ wanted, Request.extract library.toJsonLibrary body = .ok wanted ∧
        (answer library runtime s body found).1 = (runtime.apply s wanted).1 := by
  cases found with
  | none => exact Or.inl rfl
  | some endpoint =>
      cases endpoint with
      | applyConfiguration =>
          cases hwanted : Request.extract library.toJsonLibrary body with
          | error what =>
              refine Or.inl ?_
              simp only [answer, hwanted]
          | ok wanted =>
              refine Or.inr ⟨rfl, wanted, rfl, ?_⟩
              simp only [answer, hwanted]
              split <;> rename_i happly <;> rw [happly]
      | _ => exact Or.inl rfl

/-- Whatever arrives on a connection, what is sent is one response whose header tells where
its body ends; and only a configuration that is put reaches the runtime. -/
theorem handleClient_sends (s : σ) (chunks : List (List UInt8)) :
    (∀ r, (handleClient library runtime s chunks).2 = .sent r → r.length < sizeLimit → Framed r) ∧
      ((handleClient library runtime s chunks).1 = s ∨
        ∃ request wanted, Assembly.handleClient chunks = .request request ∧
          (request.method, Target.pathOf request.target) = Endpoint.applyConfiguration.address ∧
          Request.extract library.toJsonLibrary request.body = .ok wanted ∧
          (handleClient library runtime s chunks).1 = (runtime.apply s wanted).1) := by
  unfold handleClient
  cases hreceived : Assembly.handleClient chunks with
  | closed => exact ⟨fun r h _ => (by cases h), Or.inl rfl⟩
  | malformed =>
      refine ⟨fun r h hsize => ?_, Or.inl rfl⟩
      cases h
      exact framed_makeResponse (by decide) (by decide +kernel) hsize
  | request request =>
      dsimp only
      unfold handleRequest
      split_ifs with hoptions
      · refine ⟨fun r h hsize => ?_, Or.inl rfl⟩
        cases h
        exact framed_makeResponse (by decide) (by decide +kernel) hsize
      · refine ⟨fun r h hsize => framed_respond (fun _ _ => answer_code) h hsize, ?_⟩
        rw [respond_fst]
        obtain hsame | ⟨hfound, wanted, hwanted, happly⟩ :=
          answer_fst (route request.method (Target.pathOf request.target))
        · exact Or.inl hsame
        · exact Or.inr ⟨request, wanted, rfl, (route_eq_some_iff.mp hfound).2, hwanted, happly⟩

end Serve

end EdgeAllocator.Dispatch
