import Liboffs.OffStreams.DescriptorProgress
import Liboffs.OffStreams.ReaderEvents

/-!
# The pipeline of a get

A client asks for a file over a WebSocket or a Unix socket, with the same code; only the streams
of the latter may ask the network.  A readable descriptor sends the tuples of the file, and a
readable OFF stream renders their bytes.  The subscribers share one context, which the last
reference to it frees.

A URL of a directory is resolved first; the connection keeps one such URL.  The frames do not name
the get that they belong to; the model notes it beside them.  A subscriber that uses a freed
context leaves the defined behaviour of the program.
-/

namespace Liboffs.ClientApi

open BlockCache Library Library.ByteOrder OffStreams

/-- `off_url_t`. -/
structure OffUrl where
  serverAddress : String
  contentType : String
  streamLength : Nat
  fileHash : Option Hash
  descriptorHash : Option Hash
  fileName : String

/-- The status codes of an error frame. -/
inductive ApiStatus where
  | badRequest
  | notFound
  | internalError
  | unauthorized
deriving DecidableEq

inductive GetFrame where
  | responseStart (contentType : String) (contentLength : Nat)
      (range : Option (Nat × Nat))
  | data (bytes : Bytes)
  | getEnd
  | error (status : ApiStatus) (message : String)
deriving DecidableEq

/-- The frames that end an answer. -/
def GetFrame.isTerminal : GetFrame → Bool
  | .getEnd => true
  | .error _ _ => true
  | _ => false

/-- `client_api_get_request_t`. -/
structure GetRequest where
  oriString : String
  range : Option (Nat × Nat)
deriving DecidableEq

/--
`ws_get_pipeline_t` and `unix_get_pipeline_t` with everything that is on its way, what was
handled, and the frames that were sent.
-/
structure GetPipeline where
  references : Nat
  freed : Nat
  reading : Reading
  readerFinds : List Hash
  readerEvents : List (StreamEvent Bytes)
  readerHandled : List (StreamEvent Bytes)
  descriptor : ReadableDescriptor
  pushes : Nat
  descriptorGets : List Bytes
  descriptorFinds : List Bytes
  descriptorEvents : List (StreamEvent (List Bytes))
  descriptorHandled : List (StreamEvent (List Bytes))
  sent : List GetFrame
  corrupted : Bool

/-- A buffer of the length of a hash. -/
def hashOfKey (key : Bytes) : Option Hash :=
  if size : key.length = 32 then some ⟨key, size⟩ else none

/-- The tuple that the descriptor has filled with the hashes; it is full. -/
def tupleOfKeys (keys : List Bytes) : Option Tuple :=
  (keys.mapM hashOfKey).map fun hashes => hashes.foldl tuplePush (tupleCreate keys.length)

/-- `stream_deactivate` on the OFF stream, without an error. -/
def readerDeactivate (stream : ReadableOffStream) : ReadableOffStream :=
  if stream.isDeactivated then
    stream
  else
    { stream with isDeactivated := true }.send [.notify (.error ""), .notify .close]

namespace GetPipeline

/-- The program leaves its defined behaviour. -/
def corrupt (get : GetPipeline) : GetPipeline :=
  { get with corrupted := true }

/-- A subscriber that uses the context, which must not be freed. -/
def guarded (get next : GetPipeline) : GetPipeline :=
  if get.freed = 0 then next else get.corrupt

/-- Send a frame. -/
def reply (get : GetPipeline) (frame : GetFrame) : GetPipeline :=
  { get with sent := get.sent ++ [frame] }

/-- Drop a reference; the last one frees the context. -/
def dropReference (get : GetPipeline) : GetPipeline :=
  { get with
    references := get.references - 1
    freed := if get.references - 1 = 0 then get.freed + 1 else get.freed }

/-- The OFF stream has gone on. -/
def updateReading (get : GetPipeline) (reading : Reading) : GetPipeline :=
  let effects := reading.stream.sent.drop get.reading.stream.sent.length
  { get with
    reading := reading
    readerFinds := get.readerFinds ++ readerFindsOf effects
    readerEvents := get.readerEvents ++ readerEventsOf effects }

/-- The descriptor has gone on. -/
def updateDescriptor (get : GetPipeline) (descriptor : ReadableDescriptor) : GetPipeline :=
  let effects := descriptor.sent.drop get.descriptor.sent.length
  { get with
    descriptor := descriptor
    descriptorGets := get.descriptorGets ++ requestedHashes effects
    descriptorFinds := get.descriptorFinds ++ descriptorFindsOf effects
    descriptorEvents := get.descriptorEvents ++ tupleEvents effects }

/-- `stream_deactivate` on the OFF stream of the pipeline. -/
def deactivateReader (get : GetPipeline) : GetPipeline :=
  get.updateReading { get.reading with stream := readerDeactivate get.reading.stream }

/-- `stream_deactivate` on the descriptor of the pipeline. -/
def deactivateDescriptor (get : GetPipeline) : GetPipeline :=
  get.updateDescriptor (descriptorReaderDeactivate get.descriptor "")

/-- `_ws_get_on_tuple`: the tuple is sent to the OFF stream. -/
def onTuple (get : GetPipeline) (keys : List Bytes) : GetPipeline :=
  match tupleOfKeys keys with
  | none => get.corrupt
  | some tuple =>
    { get with
      reading := { get.reading with remaining := get.reading.remaining ++ [tuple] } }

/-- `_ws_get_on_rs_close`. -/
def onReaderClose (get : GetPipeline) : GetPipeline :=
  (get.reply .getEnd).dropReference

/-- `_ws_get_on_rs_error`. -/
def onReaderError (get : GetPipeline) : GetPipeline :=
  (get.reply (.error .internalError "Stream error")).deactivateReader

/-- `_ws_get_on_desc_error`. -/
def onDescriptorError (get : GetPipeline) : GetPipeline :=
  let answered := get.reply (.error .notFound "Not found")
  answered.deactivateReader.deactivateDescriptor

/-- The subscribers of the OFF stream; there is none to the other events. -/
def onReaderEvent (get : GetPipeline) : StreamEvent Bytes → GetPipeline
  | .data bytes => get.guarded (get.reply (.data bytes))
  | .close => get.guarded get.onReaderClose
  | .error _ => get.guarded get.onReaderError
  | .readable => get
  | .finished => get
  | .complete => get
  | .loadTuple _ _ => get

/-- The subscribers of the descriptor. -/
def onDescriptorEvent (get : GetPipeline) : StreamEvent (List Bytes) → GetPipeline
  | .data keys => get.guarded (get.onTuple keys)
  | .close => get.guarded get.dropReference
  | .error _ => get.guarded get.onDescriptorError
  | .readable => get
  | .finished => get
  | .complete => get
  | .loadTuple _ _ => get

/-- The descriptor handles a message. -/
def descriptorReceive (get : GetPipeline) (message : DescriptorReaderMessage) : GetPipeline :=
  match readableDescriptorDispatch get.descriptor message with
  | none => get.corrupt
  | some descriptor => get.updateDescriptor descriptor

end GetPipeline

/-- What happens to a pipeline. -/
inductive PipelineStep where
  | push
  | descriptorReply (position : Nat)
  | descriptorFind (position : Nat) (found : Bool) (block : Option Bytes)
  | descriptorEvent
  | read (label : ReadStep)
  | readerFind (position : Nat) (found : Bool) (block : Option Block)
  | readerEvent

/-- The store, for a buffer that is taken as a hash. -/
def keyStore (store : Hash → Option Bytes) (key : Bytes) : Option Bytes :=
  (hashOfKey key).bind store

/-- One step of a pipeline, with what others put in the tuple cache. -/
def pipelineStep (store : Hash → Option Bytes) (cached : List (Tuple × Bytes)) (get : GetPipeline) :
    PipelineStep → Option GetPipeline
  | .push =>
    if get.pushes = 0 then
      none
    else
      some ({ get with pushes := get.pushes - 1 }.descriptorReceive .push)
  | .descriptorReply position =>
    match get.descriptorGets[position]? with
    | none => none
    | some hash =>
      some ({ get with
          descriptorGets := get.descriptorGets.eraseIdx position
        }.descriptorReceive (.cacheGetResult hash (keyStore store hash)))
  | .descriptorFind position found block =>
    match get.descriptorFinds[position]? with
    | none => none
    | some hash =>
      some ({ get with
          descriptorFinds := get.descriptorFinds.eraseIdx position
        }.descriptorReceive (.findBlockResult hash found block))
  | .descriptorEvent =>
    match get.descriptorEvents with
    | [] => none
    | event :: rest =>
      some ({ get with
          descriptorEvents := rest
          descriptorHandled := get.descriptorHandled ++ [event]
        }.onDescriptorEvent event)
  | .read label => (readStep store cached get.reading label).map get.updateReading
  | .readerFind position found block =>
    match get.readerFinds[position]? with
    | none => none
    | some hash =>
      match get.reading.receive (.findBlockResult hash found block) with
      | none => some get.corrupt
      | some reading =>
        some ({ get with
            readerFinds := get.readerFinds.eraseIdx position
          }.updateReading reading)
  | .readerEvent =>
    match get.readerEvents with
    | [] => none
    | event :: rest =>
      some ({ get with
          readerEvents := rest
          readerHandled := get.readerHandled ++ [event]
        }.onReaderEvent event)

/--
The part of a connection that serves gets; pipelines and frames have the number of their request.
-/
structure GetConnection where
  hasTupleCache : Bool
  hasNetwork : Bool
  isAuthenticated : Bool
  resolveUrl : Option OffUrl
  resolvePath : Option String
  resolving : List Nat
  requests : List (Option GetRequest)
  pipelines : List (Nat × GetPipeline)
  frames : List (Nat × GetFrame)

/-- A connection on which nothing was asked for. -/
def GetConnection.fresh (hasTupleCache hasNetwork isAuthenticated : Bool) : GetConnection where
  hasTupleCache := hasTupleCache
  hasNetwork := hasNetwork
  isAuthenticated := isAuthenticated
  resolveUrl := none
  resolvePath := none
  resolving := []
  requests := []
  pipelines := []
  frames := []

def isDirectory (url : OffUrl) : Bool :=
  "offsystem/directory".toList <:+: url.contentType.toList

/-- The frame that announces a file. -/
def startFrame (finalByte : Nat) : GetFrame :=
  .responseStart "application/octet-stream" finalByte none

def startPipeline (conn : GetConnection) (ori : DescriptorOri)
    (references : Nat) : GetPipeline where
  references := references
  freed := 0
  reading := .start (readableOffStreamCreateEx ori.toOri conn.hasTupleCache
    conn.hasNetwork false) []
  readerFinds := []
  readerEvents := []
  readerHandled := []
  descriptor := readableDescriptorCreate ori 32 conn.hasNetwork
  pushes := 1
  descriptorGets := []
  descriptorFinds := []
  descriptorEvents := []
  descriptorHandled := []
  sent := [startFrame ori.finalByte]
  corrupted := false

/-- The file that a URL names, as a get reads it. -/
def getOri (url : OffUrl) : DescriptorOri where
  blockType := .standard
  fileOffset := 0
  finalByte := url.streamLength
  tupleSize := 3
  descriptorOffset := 0
  descriptorHash := url.descriptorHash.map Hash.bytes

namespace GetConnection

/-- Send a frame that answers a request. -/
def send (conn : GetConnection) (number : Nat) (frame : GetFrame) : GetConnection :=
  { conn with frames := conn.frames ++ [(number, frame)] }

/-- Announce a file and start a pipeline for it. -/
def serve (conn : GetConnection) (number : Nat) (ori : DescriptorOri)
    (references : Nat) : GetConnection :=
  { conn.send number (startFrame ori.finalByte) with
    pipelines := conn.pipelines ++ [(number, startPipeline conn ori references)] }

/-- `_ws_handle_get` and `_unix_handle_get`; the range of a request is not looked at. -/
def handleGet (offUrlParse : String → Option OffUrl) (conn : GetConnection)
    (frame : Option GetRequest) : GetConnection :=
  let number := conn.requests.length
  let asked := { conn with requests := conn.requests ++ [frame] }
  if ¬ conn.isAuthenticated then
    asked.send number (.error .unauthorized "Authentication required")
  else
    match frame with
    | none => asked.send number (.error .badRequest "Invalid GET request")
    | some request =>
      match offUrlParse request.oriString with
      | none => asked.send number (.error .badRequest "Invalid OFF URL")
      | some url =>
        if isDirectory url then
          { asked with
            resolveUrl := some url
            resolvePath := some url.fileName
            resolving := conn.resolving ++ [number] }
        else
          asked.serve number (getOri url) 2

/-- The URL that was resolved is forgotten. -/
def clearResolve (conn : GetConnection) : GetConnection :=
  { conn with resolveUrl := none, resolvePath := none }

/-- `_ws_handle_ofd_resolve_result` and `_unix_handle_ofd_resolve_result`. -/
def handleOfdResolveResult (conn : GetConnection) (number : Nat) :
    Option (Option DescriptorOri) → GetConnection
  | none => (conn.send number (.error .notFound "Directory resolution failed")).clearResolve
  | some none => (conn.send number (.error .notFound "Directory entry not found")).clearResolve
  | some (some ori) => (conn.serve number ori 1).clearResolve

/-- A pipeline of the connection has gone on; its new frames are sent. -/
def updatePipeline (conn : GetConnection) (index number : Nat)
    (get next : GetPipeline) : GetConnection :=
  { conn with
    pipelines := conn.pipelines.set index (number, next)
    frames := conn.frames ++ (next.sent.drop get.sent.length).map (Prod.mk number) }

end GetConnection

/-- What happens to a connection. -/
inductive GetStep where
  | request (frame : Option GetRequest)
  | resolved (position : Nat) (result : Option (Option DescriptorOri))
  | pipeline (index : Nat) (label : PipelineStep)

section
variable (offUrlParse : String → Option OffUrl)
variable (store : Hash → Option Bytes) (cached : List (Tuple × Bytes))

/-- One step of a connection; none follows what is undefined. -/
def getStep (conn : GetConnection) : GetStep → Option GetConnection
  | .request frame => some (conn.handleGet offUrlParse frame)
  | .resolved position result =>
    match conn.resolving[position]? with
    | none => none
    | some number =>
      some ({ conn with
          resolving := conn.resolving.eraseIdx position
        }.handleOfdResolveResult number result)
  | .pipeline index label =>
    match conn.pipelines[index]? with
    | none => none
    | some (number, get) =>
      if get.corrupted then
        none
      else
        (pipelineStep store cached get label).map (conn.updatePipeline index number get)

end

/-- The bytes that a request asks for; both ends of a range are included. -/
def requestedBytes (file : Bytes) : Option (Nat × Nat) → Bytes
  | none => file
  | some (first, last) => (file.take (last + 1)).drop first

/-- The frames that answer a request. -/
def framesOf (frames : List (Nat × GetFrame)) (number : Nat) : List GetFrame :=
  (frames.filter (·.1 = number)).map Prod.snd

/-- The announcement, data that begin the bytes asked for, and at most one final frame. -/
structure Answers (wanted : Bytes) (frames : List GetFrame)
    (start : GetFrame) (pieces : List Bytes) (ends : List GetFrame) : Prop where
  shape : frames = start :: pieces.map .data ++ ends
  front : pieces.flatten <+: wanted
  single : ends = [] ∨
    ends = [.getEnd] ∧ pieces.flatten = wanted ∨
    (∃ status message, ends = [.error status message]) ∧ pieces.flatten ≠ wanted

/-- A context is freed once, after both streams have closed. -/
structure FreedAtEnd (get : GetPipeline) : Prop where
  intact : get.corrupted = false
  freed : get.freed =
    if .close ∈ get.readerHandled ∧ .close ∈ get.descriptorHandled then 1
    else 0

/-- A connection whose gets deliver what was asked; frames of different requests do not overlap. -/
structure Delivers (offUrlParse : String → Option OffUrl)
    (fileOf : OffUrl → Bytes) (conn : GetConnection) : Prop where
  answered : ∀ number request url,
    conn.requests[number]? = some (some request) → offUrlParse request.oriString = some url →
    ∃ finalByte pieces ends,
      Answers (requestedBytes (fileOf url) request.range)
        (framesOf conn.frames number) (startFrame finalByte) pieces ends
  apart : conn.frames.Pairwise fun earlier later => earlier.1 ≤ later.1
  freed : ∀ number get, (number, get) ∈ conn.pipelines → FreedAtEnd get

/-- Nothing is on its way. -/
def ConnectionRests (offUrlParse : String → Option OffUrl)
    (store : Hash → Option Bytes) (cached : List (Tuple × Bytes)) (conn : GetConnection) : Prop :=
  conn.resolving = [] ∧ ∀ index label,
      getStep offUrlParse store cached conn (.pipeline index label) = none

/-- Every request has got its last frame, and every context is freed. -/
structure Finished (conn : GetConnection) : Prop where
  ended : ∀ number < conn.requests.length,
    ∃ frame ∈ framesOf conn.frames number, frame.isTerminal = true
  released : ∀ number get, (number, get) ∈ conn.pipelines → get.freed = 1

end Liboffs.ClientApi
