import Liboffs.Library.ByteOrder
import Liboffs.Library.Runs

/-!
# Requests without a key

A client proves that it has the API key with a header for every HTTP request, or with one frame on
a socket, after which the connection and the contexts of its handlers are marked.  Over HTTP a
chain of middlewares stands before all routes, but a streamed put starts before the chain is run.

What a handler does after it was let through is a parameter.
-/

namespace Liboffs.ClientApi

open Library.ByteOrder Library.Runs List Option

/-! ## What is done for a client -/

/-- What may be sent to a client without the key. -/
inductive Answer where
  | error (status : Nat) (text : String)
  | preflight
  | health
  | updateStatus

/-- What changes the node. -/
inductive Operation where
  | beginPut (temporary recycled : Bool)
  | writeStream (chunk : Bytes)
  | finalizeStream
  | changeBlocks
  | changeClaims
  | stageConfig
  | changePeers
deriving DecidableEq

/-- What is done for a client. -/
inductive Action where
  | answer (answer : Answer)
  | content (bytes : Bytes)
  | operate (operation : Operation)

/-- What may be done for a client without the key. -/
def Action.innocuous : Action → Bool
  | .answer _ => true
  | _ => false

/-- The settings that all transports share. -/
structure ApiConfig where
  apiKeyHash : Option Bytes
  configLocalBindingNoAuth : Bool
  localBinding : Bool
  bcryptCheck : Bytes → Bytes → Bool

/-! ## Frames on a socket -/

/-- The types of frames, `CLIENT_API_*`. -/
inductive FrameType where
  | getRequest | loadRequest | putRequest | putData | putEnd
  | repMarkPermanent | repDeleteEphemeral | repPin | repUnpin
  | ephemeralList | gc | auth | blockPut | blockGet | blockDelete
  | cacheResize | configShow | configSet | configReload
  | peerInfo | peerList | peerConnect
  | friendAdd | friendRemove | friendList
  | bootstrapAdd | bootstrapRemove | bootstrapList
  | health | updateStatus | unknown
deriving DecidableEq

/--
A frame; the key is what `client_api_auth_request_decode` gives, if it
succeeds.
-/
structure Frame where
  type : FrameType
  apiKey : Option Bytes
  content : Bytes

/-- The marks of a connection and of the contexts of its handlers. -/
structure SocketMarks where
  connection : Bool
  blockCtx : Bool
  configCtx : Bool
  peerCtx : Bool

open SocketMarks

def SocketMarks.all (value : Bool) : SocketMarks :=
  ⟨value, value, value, value⟩

/-- The marks of a connection that was just accepted. -/
def SocketMarks.created (config : ApiConfig) : SocketMarks :=
  .all config.apiKeyHash.isNone

/-- The bytes before the first zero. -/
def cString (bytes : Bytes) : Bytes :=
  bytes.takeWhile (· ≠ 0)

/-- `CLIENT_API_STATUS_UNAUTHORIZED` and `CLIENT_API_STATUS_BAD_REQUEST`. -/
def statusUnauthorized : Nat := 5

@[inherit_doc statusUnauthorized]
def statusBadRequest : Nat := 1

/-- An error frame. -/
def sendError (status : Nat) (text : String) : List Action :=
  [.answer (.error status text)]

/-- `_unix_handle_auth` and `_ws_handle_auth`. -/
def handleAuth (config : ApiConfig) (marks : SocketMarks) (frame : Frame) :
    SocketMarks × List Action :=
  match config.apiKeyHash, frame.apiKey with
  | none, _ => (.all true, [])
  | some _, none => (marks, sendError statusUnauthorized "Invalid auth request")
  | some hash, some key =>
    if config.bcryptCheck (cString key) hash then
      (.all true, [])
    else
      (marks, sendError statusUnauthorized "Authentication failed")

inductive SocketKind where
  | unix
  | webSocket
deriving DecidableEq

/-- The mark that the handler of a frame looks at, if there is a handler. -/
def SocketMarks.for (marks : SocketMarks) (kind : SocketKind) : FrameType → Option Bool
  | .getRequest | .loadRequest | .putRequest | .putData | .putEnd
  | .repMarkPermanent | .repDeleteEphemeral | .repPin | .repUnpin
  | .ephemeralList | .gc => some marks.connection
  | .blockPut | .blockGet | .blockDelete | .cacheResize => some marks.blockCtx
  | .configShow | .configSet | .configReload =>
    match kind with
    | .unix => some marks.configCtx
    | .webSocket => none
  | .peerInfo | .peerList | .peerConnect =>
    match kind with
    | .unix => some marks.peerCtx
    | .webSocket => none
  | .friendAdd | .friendRemove | .friendList
  | .bootstrapAdd | .bootstrapRemove | .bootstrapList => some marks.peerCtx
  | .auth | .health | .updateStatus | .unknown => none

/-- `_unix_dispatch_frame` and `_ws_dispatch_frame`, with what the handlers do. -/
def dispatchFrame (config : ApiConfig) (kind : SocketKind) (work : FrameType → Bytes → List Action)
    (marks : SocketMarks) (frame : Frame) : SocketMarks × List Action :=
  match frame.type, kind with
  | .auth, _ => handleAuth config marks frame
  | .health, _ => (marks, [.answer .health])
  | .updateStatus, .unix => (marks, [.answer .updateStatus])
  | type, _ =>
    match marks.for kind type with
    | some true => (marks, work type frame.content)
    | some false => (marks, sendError statusUnauthorized "Authentication required")
    | none => (marks, sendError statusBadRequest "Unknown message type")

/-! ## HTTP -/

/-- The methods that the server tells apart. -/
inductive Method where
  | get | put | post | delete | options | other
deriving DecidableEq

/-- A request with complete headers; the headers are those that are read. -/
structure HttpRequest where
  method : Method
  path : Option Bytes
  authorization : Option Bytes
  contentType : Option Bytes
  type : Option Bytes
  fileName : Option Bytes
  streamLength : Option Bytes
  recycler : Option Bytes
  temporary : Option Bytes
  tupleSize : Option Bytes
  recycleEphemeral : Option Bytes
  isAuthenticated : Bool

/-- `http_route_t`; only the route of puts has a handler for headers. -/
structure HttpRoute where
  method : Method
  pattern : Bytes → Bool
  handler : HttpRequest → List Action
  headersCompleteHandler : Bool

/-- The middlewares that the registrations of routes add. -/
inductive Middleware where
  | draining | cors | auth | health
deriving DecidableEq

/-- The server and the limits and texts that its routes use. -/
structure HttpServer where
  earlier : List Middleware
  later : List Middleware
  routes : List HttpRoute
  maxTupleSize : UInt64
  healthPath : Bytes → Bool
  atol : Bytes → Int64
  parseRecyclerHeader : Bytes → Nat

/-- The middlewares, with those that `off_routes_register` adds. -/
def HttpServer.middlewares (server : HttpServer) (config : ApiConfig) : List Middleware :=
  server.earlier ++ [.draining, .cors] ++
    (if config.apiKeyHash.isSome then [.auth] else []) ++ server.later

/-- `"Bearer "`. -/
def bearer : Bytes := [66, 101, 97, 114, 101, 114, 32]

/-- `_auth_handler`: the marked request, or an answer that ends the chain. -/
def authHandler (config : ApiConfig) (request : HttpRequest) : Except Answer HttpRequest :=
  if config.configLocalBindingNoAuth ∧ config.localBinding then
    .ok { request with isAuthenticated := true }
  else
    match request.authorization with
    | none => .error (.error 401 "Authentication require")
    | some header =>
      if ¬ bearer <+: header then
        .error (.error 401 "Invalid authentication scheme")
      else if header.drop 7 = [] then
        .error (.error 401 "Empty token")
      else if config.apiKeyHash.any (config.bcryptCheck (header.drop 7)) then
        .ok { request with isAuthenticated := true }
      else
        .error (.error 403 "Invalid API key")

/-- One middleware; a server may be draining when the request comes. -/
def Middleware.handle (config : ApiConfig) (server : HttpServer)
    (draining : Bool) (request : HttpRequest) : Middleware → Except Answer HttpRequest
  | .draining =>
    if draining then
      .error (.error 503 "Server is shutting dow")
    else
      .ok request
  | .cors => if request.method = .options then .error .preflight else .ok request
  | .auth => authHandler config request
  | .health =>
    if request.method = .get ∧ request.path.any server.healthPath then
      .error .health
    else
      .ok request

/-- Whether a route is for a method and a path. -/
def HttpRoute.matches (method : Method) (path : Bytes) (route : HttpRoute) : Bool :=
  route.method == method && route.pattern path

/-- `http_server_match_route`. -/
def httpServerMatchRoute (server : HttpServer) (method : Method)
    (path : Bytes) : Option HttpRoute :=
  server.routes.find? (HttpRoute.matches method path)

/-- `http_server_dispatch`. -/
def httpServerDispatch (config : ApiConfig) (server : HttpServer)
    (draining : Bool) (request : HttpRequest) : List Action :=
  match (server.middlewares config).foldlM
      (fun request middleware =>
        middleware.handle config server draining request) request with
  | .error answer => [.answer answer]
  | .ok request =>
    match request.path with
    | none => [.answer (.error 400 "")]
    | some path =>
      match httpServerMatchRoute server request.method path with
      | some route => route.handler request
      | none => [.answer (.error 404 "")]

/-- `isprint`. -/
def isPrintable (byte : UInt8) : Bool :=
  32 ≤ byte && byte < 127

/-- `validate_content_type`; the special characters are printable. -/
def validateContentType (text : Bytes) : Bool :=
  text ≠ [] && text.length ≤ 256 && text.all isPrintable

/-- `validate_file_name`. -/
def validateFileName (text : Bytes) : Bool :=
  text ≠ [] && text.length ≤ 1024 && ¬ [46, 46] <:+: text && 47 ∉ text && text.all isPrintable

/-- `writeable_off_stream_estimate_required_bytes`. -/
def estimateRequiredBytes (streamLength tupleSize descriptorPad : UInt64) : UInt64 :=
  let dataBlocks := (streamLength + 128000 - 1) / 128000
  if descriptorPad = 0 ∨ tupleSize = 0 ∨ dataBlocks = 0 then
    0
  else
    let tupleMetadata := dataBlocks * tupleSize * descriptorPad
    let chunkDataSize := 128000 / descriptorPad * descriptorPad - descriptorPad
    let descriptorBlocks := (tupleMetadata + chunkDataSize - 1) / chunkDataSize
    (dataBlocks * tupleSize + descriptorBlocks) * 128000

/-- What `block_cache_can_fit` reads. -/
structure CacheRoom where
  currentBytes : UInt64
  maxCapacityBytes : UInt64

/-- `block_cache_can_fit`. -/
def blockCacheCanFit (room : CacheRoom) (required : UInt64) : Bool :=
  room.maxCapacityBytes = 0 || room.currentBytes + required ≤ room.maxCapacityBytes

/-- What is kept of a put while its body is streamed. -/
structure PutStream where
  streamLength : UInt64
  bytesReceived : UInt64
  streamExceeded : Bool
  temporary : Bool
  recycled : Bool

/-- `"multipart/form-data"`. -/
def multipartFormData : Bytes :=
  [109, 117, 108, 116, 105, 112, 97, 114, 116, 47, 102, 111, 114, 109, 45, 100, 97, 116, 97]

/-- The modes `"commit"` and `"propagate"` of `recycle-ephemeral`. -/
def recycleModes : List Bytes :=
  [[99, 111, 109, 109, 105, 116], [112, 114, 111, 112, 97, 103, 97, 116, 101]]

/-- The tuple size of a put: that of the header, or 3. -/
def HttpRequest.tupleSizeOf (server : HttpServer) (request : HttpRequest) : UInt64 :=
  match request.tupleSize.map server.atol with
  | some parsed => if 0 < parsed then parsed.toUInt64 else 3
  | none => 3

/-- `_off_put_headers_complete`: none without streaming, an error if refused, else the put. -/
def offPutHeadersComplete (server : HttpServer) (room : CacheRoom)
    (request : HttpRequest) : Option (Except (Nat × String) PutStream) :=
  if request.contentType.any (multipartFormData.isPrefixOf ·) then
    none
  else
    match request.type, request.fileName, request.streamLength with
    | some type, some fileName, some lengthText =>
      let streamLength := (server.atol lengthText).toUInt64
      let tupleSize := request.tupleSizeOf server
      let recycled := request.recycler.any fun text => server.parseRecyclerHeader text ≠ 0
      if ¬ validateContentType type then
        some (.error (400, "Invalid content type"))
      else if ¬ validateFileName fileName then
        some (.error (400, "Invalid file name"))
      else if streamLength = 0 ∨ 64 * 1024 * 1024 < streamLength then
        some (.error (400, "Invalid stream length"))
      else if server.maxTupleSize ≠ 0 ∧ server.maxTupleSize < tupleSize then
        some (.error (400, "tuple-size exceeds configured max_tuple_size"))
      else if ¬ blockCacheCanFit room
          (estimateRequiredBytes streamLength tupleSize 32) then
        some (.error (500, "cache full: configure larger max_capacity_bytes"))
      else if request.recycleEphemeral.any (recycleModes.contains ·) ∧
          ¬ recycled then
        some (.error (400, "recycle-ephemeral requires a recycler"))
      else
        some (.ok
          { streamLength := streamLength
            bytesReceived := 0
            streamExceeded := false
            temporary := request.temporary = some [116, 114, 117, 101]
            recycled := recycled })
    | _, _, _ => some (.error (400, "Missing required headers: type, file-name, stream-length"))

/-- What an HTTP connection is in the middle of. -/
inductive HttpPhase where
  | idle
  | buffering (request : HttpRequest)
  | refused
  | streaming (put : PutStream)

/-- What the headers of a request start before the chain is run. -/
def earlyPut (server : HttpServer) (room : CacheRoom)
    (request : HttpRequest) : Option (Except (Nat × String) PutStream) :=
  if request.method = .put then
    request.path.bind fun path =>
      (httpServerMatchRoute server .put path).bind fun route =>
        if route.headersCompleteHandler then
          offPutHeadersComplete server room request
        else
          none
  else
    none

/-- `_on_headers_complete`. -/
def onHeadersComplete (server : HttpServer) (room : CacheRoom)
    (request : HttpRequest) : HttpPhase × List Action :=
  match earlyPut server room request with
  | none => (.buffering request, [])
  | some (.error refusal) => (.refused, [.answer (.error refusal.1 refusal.2)])
  | some (.ok put) => (.streaming put, [.operate (.beginPut put.temporary put.recycled)])

/-- `_on_body`, with `_put_on_request_data` for a body that is streamed. -/
def onBody (chunk : Bytes) : HttpPhase → HttpPhase × List Action
  | .streaming put =>
    let received := put.bytesReceived + chunk.length.toUInt64
    if put.streamExceeded then
      (.streaming put, [])
    else if put.streamLength < received then
      (.streaming { put with bytesReceived := received, streamExceeded := true }, [])
    else
      (.streaming { put with bytesReceived := received }, [.operate (.writeStream chunk)])
  | phase => (phase, [])

/-- `_on_message_complete`, with `_put_on_request_close`. -/
def onMessageComplete (config : ApiConfig) (server : HttpServer)
    (draining : Bool) : HttpPhase → HttpPhase × List Action
  | .idle => (.idle, [])
  | .refused => (.idle, [])
  | .streaming _ => (.idle, [.operate .finalizeStream])
  | .buffering request => (.idle, httpServerDispatch config server draining request)

/-! ## All transports -/

/-- What the parser of HTTP calls. -/
inductive HttpEvent where
  | headersComplete (request : HttpRequest) (room : CacheRoom)
  | body (chunk : Bytes)
  | messageComplete (draining : Bool)

/-- What a client does, on any of its connections. -/
inductive ClientEvent where
  | httpAccepted (connection : Nat)
  | http (connection : Nat) (event : HttpEvent)
  | socketAccepted (kind : SocketKind) (connection : Nat)
  | frame (kind : SocketKind) (connection : Nat) (given : Frame)

/-- The program that serves the clients. -/
structure Api where
  config : ApiConfig
  server : HttpServer
  work : SocketKind → FrameType → Bytes → List Action

/-- The connections, and what was done for the clients. -/
structure ApiState where
  http : Nat → HttpPhase
  sockets : SocketKind × Nat → SocketMarks
  actions : List Action

/-- Connections on which nothing was sent yet. -/
def ApiState.start (api : Api) : ApiState where
  http _ := .idle
  sockets _ := .created api.config
  actions := []

/-- What an event does to an HTTP connection. -/
def httpStep (api : Api) (phase : HttpPhase) : HttpEvent → HttpPhase × List Action
  | .headersComplete request room =>
    onHeadersComplete api.server room { request with isAuthenticated := false }
  | .body chunk => onBody chunk phase
  | .messageComplete draining => onMessageComplete api.config api.server draining phase

/-- One event. -/
def apiStep (api : Api) (state : ApiState) : ClientEvent → Option ApiState
  | .httpAccepted connection =>
    some { state with http := Function.update state.http connection .idle }
  | .http connection event =>
    let after := httpStep api (state.http connection) event
    some
      { state with
        http := Function.update state.http connection after.1
        actions := state.actions ++ after.2 }
  | .socketAccepted kind connection =>
    some
      { state with
        sockets := Function.update state.sockets (kind, connection) (.created api.config) }
  | .frame kind connection given =>
    let after := dispatchFrame api.config kind (api.work kind)
      (state.sockets (kind, connection)) given
    some
      { state with
        sockets := Function.update state.sockets (kind, connection) after.1
        actions := state.actions ++ after.2 }

/-! ## Clients without the key -/

def ClientEvent.carries (key : Bytes) : ClientEvent → Bool
  | .http _ (.headersComplete request _) => request.authorization == some (bearer ++ key)
  | .frame _ _ given => given.apiKey.map cString == some key
  | _ => false

def ClientEvent.startsPut (server : HttpServer) : ClientEvent → Bool
  | .http _ (.headersComplete request room) =>
    match earlyPut server room { request with isAuthenticated := false } with
    | some (.ok _) => true
    | _ => false
  | _ => false

/-- Nothing was done that needs the key. -/
def ApiState.Untouched (state : ApiState) : Prop :=
  ∀ action ∈ state.actions, action.innocuous = true

/-- A phase that clients without the key bring a connection to. -/
def HttpPhase.Keyless (key : Bytes) : HttpPhase → Prop
  | .buffering request => request.authorization ≠ some (bearer ++ key)
  | .streaming _ => False
  | _ => True

section
variable {api : Api} {key hash : Bytes} (configured : api.config.apiKeyHash = some hash)
  (exemption : api.config.configLocalBindingNoAuth = false)
  (ideal : ∀ token, api.config.bcryptCheck token hash = true → token = key)

include configured exemption ideal in
/-- The authentication stops every request without the key. -/
theorem authHandler_error (keyless : request.authorization ≠ some (bearer ++ key)) :
    ∃ answer, authHandler api.config request = .error answer := by
  rw [authHandler, if_neg (by simp [exemption])]
  cases given : request.authorization with
  | none => exact ⟨_, rfl⟩
  | some header =>
    simp only
    split
    · exact ⟨_, rfl⟩
    · rename_i scheme
      rw [not_not] at scheme
      rcases scheme with ⟨token, rfl⟩
      rw [show (bearer ++ token).drop 7 = token from rfl, configured]
      split
      · exact ⟨_, rfl⟩
      · split
        · rename_i accepted
          rw [given, ideal token accepted] at keyless
          exact absurd rfl keyless
        · exact ⟨_, rfl⟩

include configured exemption ideal in
/-- A chain with the authentication in it stops every request without the key. -/
theorem foldlM_middlewares (draining : Bool) {chain : List Middleware} (guarded : .auth ∈ chain)
    (keyless : request.authorization ≠ some (bearer ++ key)) :
    ∃ answer, chain.foldlM (fun request middleware =>
        middleware.handle api.config api.server draining request) request = .error answer := by
  induction chain generalizing request with
  | nil => cases guarded
  | cons middleware rest ih =>
    rw [foldlM_cons]
    cases handled : middleware.handle api.config api.server draining request with
    | error answer => exact ⟨answer, rfl⟩
    | ok passed =>
      have later : .auth ∈ rest := by
        rcases mem_cons.mp guarded with rfl | later
        · rcases authHandler_error configured exemption ideal keyless with ⟨answer, refused⟩
          rw [Middleware.handle, refused] at handled
          cases handled
        · exact later
      apply ih later
      have same : passed.authorization = request.authorization := by
        cases middleware <;>
        · simp only [Middleware.handle, authHandler] at handled
          grind
      rw [same]
      exact keyless

include configured exemption ideal in
theorem httpStep_keyless {phase : HttpPhase} (before : phase.Keyless key) {connection : Nat}
    {event : HttpEvent} (keyless : (ClientEvent.http connection event).carries key = false)
    (waits : (ClientEvent.http connection event).startsPut api.server = false) :
    (httpStep api phase event).1.Keyless key ∧
      ∀ action ∈ (httpStep api phase event).2, action.innocuous = true := by
  cases event with
  | headersComplete request room =>
    have without : request.authorization ≠ some (bearer ++ key) := by
      simpa [ClientEvent.carries] using keyless
    simp only [ClientEvent.startsPut] at waits
    simp only [httpStep, onHeadersComplete]
    cases early : earlyPut api.server room { request with isAuthenticated := false } with
    | none => exact ⟨without, by simp⟩
    | some started =>
      cases started with
      | error refusal => exact ⟨trivial, by simp [Action.innocuous]⟩
      | ok put => simp [early] at waits
  | body chunk =>
    cases phase with
    | streaming put => cases before
    | idle | refused | buffering => exact ⟨before, by simp [httpStep, onBody]⟩
  | messageComplete draining =>
    cases phase with
    | streaming put => cases before
    | idle | refused => exact ⟨trivial, by simp [httpStep, onMessageComplete]⟩
    | buffering request =>
      have guarded : .auth ∈ api.server.middlewares api.config := by
        simp [HttpServer.middlewares, configured]
      rcases foldlM_middlewares configured exemption ideal draining guarded before with
        ⟨answer, stops⟩
      refine ⟨trivial, ?_⟩
      simp only [httpStep, onMessageComplete, httpServerDispatch, stops]
      simp [Action.innocuous]

/-- No handler of a connection without marks is let through. -/
theorem SocketMarks.for_all_false : (SocketMarks.all false).for kind type ≠ some true := by
  cases type <;> cases kind <;> simp [SocketMarks.for, SocketMarks.all]

include configured ideal in
theorem dispatchFrame_keyless (kind : SocketKind) (keyless : frame.apiKey.map cString ≠ some key) :
    (dispatchFrame api.config kind (api.work kind) (.all false) frame).1 = .all false ∧
      ∀ action ∈ (dispatchFrame api.config kind (api.work kind) (.all false) frame).2,
        action.innocuous = true := by
  unfold dispatchFrame
  split
  · rw [handleAuth, configured]
    cases given : frame.apiKey with
    | none => exact ⟨rfl, by simp [sendError, Action.innocuous]⟩
    | some bytes =>
      simp only
      split
      · rename_i accepted
        rw [given, map_some, ideal _ accepted] at keyless
        exact absurd rfl keyless
      · exact ⟨rfl, by simp [sendError, Action.innocuous]⟩
  · exact ⟨rfl, by simp [Action.innocuous]⟩
  · exact ⟨rfl, by simp [Action.innocuous]⟩
  · split
    · rename_i marked
      exact absurd marked for_all_false
    · exact ⟨rfl, by simp [sendError, Action.innocuous]⟩
    · exact ⟨rfl, by simp [sendError, Action.innocuous]⟩

/-- What clients without the key leave. -/
structure ApiState.Unmarked (key : Bytes) (state : ApiState) : Prop where
  http : ∀ connection, (state.http connection).Keyless key
  sockets : ∀ socket, state.sockets socket = .all false
  untouched : state.Untouched

include configured exemption ideal in
theorem ApiState.Unmarked.step {state next : ApiState} {event : ClientEvent}
    (before : state.Unmarked key) (keyless : event.carries key = false)
    (waits : event.startsPut api.server = false) (stepped : apiStep api state event = some next) :
    next.Unmarked key := by
  cases event with
  | httpAccepted connection =>
    cases stepped
    refine { before with http := ?_ }
    intro other
    by_cases same : other = connection
    · simp [same, HttpPhase.Keyless]
    · simpa [same] using before.http other
  | http connection event =>
    cases stepped
    have done := httpStep_keyless configured exemption ideal (before.http connection) keyless waits
    refine ⟨?_, before.sockets, ?_⟩
    · intro other
      by_cases same : other = connection
      · simpa [same] using done.1
      · simpa [same] using before.http other
    · intro action member
      exact (mem_append.mp member).elim (before.untouched action) (done.2 action)
  | socketAccepted kind connection =>
    cases stepped
    refine { before with sockets := ?_ }
    intro other
    by_cases same : other = (kind, connection)
    · simp [same, created, configured]
    · simp [same, before.sockets]
  | frame kind connection given =>
    cases stepped
    have without : given.apiKey.map cString ≠ some key := by
      simpa [ClientEvent.carries] using keyless
    have done := dispatchFrame_keyless configured ideal kind without
    refine ⟨before.http, ?_, ?_⟩
    · intro other
      by_cases same : other = (kind, connection)
      · simp [same, done.1, before.sockets]
      · simp [same, before.sockets]
    · intro action member
      rw [before.sockets] at member
      exact (mem_append.mp member).elim (before.untouched action) (done.2 action)

end

/--
With a key and no exemption for the loopback, nothing that needs the key is done in a run without
the key and without streamed puts.
-/
theorem nothing_is_done_without_key (api : Api) (key hash : Bytes)
    (configured : api.config.apiKeyHash = some hash)
    (exemption : api.config.configLocalBindingNoAuth = false)
    (ideal : ∀ token, api.config.bcryptCheck token hash = true → token = key)
    (events : List ClientEvent) (keyless : ∀ event ∈ events, event.carries key = false)
    (waits : ∀ event ∈ events, event.startsPut api.server = false) :
    Throughout (apiStep api) ApiState.Untouched (.start api) events := by
  have initial : (ApiState.start api).Unmarked key := by
    refine ⟨fun _ => trivial, fun _ => ?_, forall_mem_nil _⟩
    simp [ApiState.start, created, configured]
  generalize ApiState.start api = state at initial ⊢
  induction events generalizing state with
  | nil => exact initial.untouched
  | cons event rest ih =>
    refine ⟨initial.untouched, ?_⟩
    intro next stepped
    apply ih
    · exact fun other member => keyless other (mem_cons_of_mem _ member)
    · exact fun other member => waits other (mem_cons_of_mem _ member)
    · exact initial.step configured exemption ideal (keyless event mem_cons_self)
        (waits event mem_cons_self) stepped

/-- `atol` of a text without blanks and sign: the number of its leading digits. -/
def leadingNumber (text : Bytes) : Int64 :=
  (text.takeWhile fun byte => 48 ≤ byte ∧ byte ≤ 57).foldl
    (fun value digit => value * 10 + (digit.toNat - 48).toInt64) 0

/-- A server whose only key is `7`, with the route of streamed puts. -/
def smallApi : Api where
  config := ⟨some [1], false, true, fun token _ => token == [7]⟩
  server :=
    { earlier := [.health]
      later := []
      routes := [⟨.put, fun _ => true, fun _ => [.operate .changeBlocks], true⟩]
      maxTupleSize := 0
      healthPath := fun _ => false
      atol := leadingNumber
      parseRecyclerHeader := fun _ => 0 }
  work _ _ _ := [.operate .changeBlocks]

/-- A request for a put of three bytes without an `Authorization` header. -/
def plainPut : HttpRequest where
  method := .put
  path := some [47]
  authorization := none
  contentType := none
  type := some [116]
  fileName := some [102]
  streamLength := some [51]
  recycler := none
  temporary := none
  tupleSize := none
  recycleEphemeral := none
  isAuthenticated := false

theorem wrong_key_is_refused :
    Throughout (apiStep smallApi) ApiState.Untouched (.start smallApi)
      [.frame .unix 0 ⟨.auth, some [6], []⟩, .frame .unix 0 ⟨.blockPut, none, [1]⟩,
        .http 0 (.headersComplete { plainPut with contentType := some multipartFormData } ⟨0, 0⟩),
        .http 0 (.messageComplete false)] := by
  apply nothing_is_done_without_key smallApi [7] [1] rfl rfl
  · intro token accepted
    exact beq_iff_eq.mp accepted
  · decide +kernel
  · decide +kernel

/-- What was done to the node. -/
def ApiState.operations (state : ApiState) : List Operation :=
  state.actions.filterMap fun
    | .operate operation => some operation
    | _ => none

/-- A put without a key is streamed, and its body is stored. -/
theorem body_is_stored_without_key : let events : List ClientEvent :=
      [.http 0 (.headersComplete plainPut ⟨0, 0⟩), .http 0 (.body [1, 2, 3]),
        .http 0 (.messageComplete false)]
    (∀ event ∈ events, event.carries [7] = false) ∧
      (events.foldlM (apiStep smallApi) (.start smallApi)).map ApiState.operations =
        some [.beginPut false false, .writeStream [1, 2, 3], .finalizeStream] := by
  constructor
  · decide +kernel
  · decide +kernel

end Liboffs.ClientApi
