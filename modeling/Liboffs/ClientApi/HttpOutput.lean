import Liboffs.Library.ByteOrder
import Liboffs.Library.Runs

/-!
# The output of an HTTP connection

Writes, writable events and a close at a plain connection, whose socket takes
some of the bytes, refuses them for now, or fails.  A connection carries its
history: the bytes that the socket has taken, those that were written before
the close was requested, and whether the request has closed the socket.
-/

namespace Liboffs.ClientApi

open Library.ByteOrder Library.Runs List

/-- What `platform_socket_send` answers. -/
inductive SendResult where
  | sent (count : Nat) | again | failed

/-- The messages with the answers of the socket. -/
inductive HttpMessage where
  | write (data : Bytes) (result : SendResult)
  | writable (result : SendResult)
  | close

/-- The output side of `http_connection_t`, with its history. -/
structure HttpConnection where
  hasSocket : Bool := true
  writeBuffer : Bytes := []
  writePending : Bool := false
  isClosing : Bool := false
  sent : Bytes := []
  written : Bytes := []
  closeRequested : Bool := false
  closedByRequest : Bool := false

/-- `_connection_close_fd`. -/
def connectionCloseFd (connection : HttpConnection) : HttpConnection :=
  { connection with hasSocket := false, isClosing := true }

/-- The end of a requested close. -/
def finishClose (connection : HttpConnection) : HttpConnection :=
  connectionCloseFd { connection with
    closedByRequest := connection.closedByRequest || connection.hasSocket }

/-- The handling of `HTTP_CONNECTION_WRITE`. -/
def handleWrite (connection : HttpConnection) (data : Bytes) (result : SendResult) :
    HttpConnection :=
  if !connection.hasSocket then connection
  else if connection.writeBuffer ≠ [] then
    { connection with writeBuffer := connection.writeBuffer ++ data }
  else
    match result with
    | .again => { connection with writeBuffer := data, writePending := true }
    | .failed | .sent 0 => connectionCloseFd connection
    | .sent count =>
      if count < data.length then
        { connection with
          sent := connection.sent ++ data.take count, writeBuffer := data.drop count
          writePending := true }
      else { connection with sent := connection.sent ++ data }

/-- The handling of `HTTP_CONNECTION_WRITABLE`. -/
def handleWritable (connection : HttpConnection) (result : SendResult) : HttpConnection :=
  if !connection.hasSocket then connection
  else if connection.writeBuffer = [] then { connection with writePending := false }
  else
    match result with
    | .again => connection
    | .failed | .sent 0 =>
      connectionCloseFd { connection with writeBuffer := [], writePending := false }
    | .sent count =>
      if connection.writeBuffer.length ≤ count then
        let flushed := { connection with
          sent := connection.sent ++ connection.writeBuffer, writeBuffer := []
          writePending := false }
        if connection.isClosing then finishClose flushed else flushed
      else
        { connection with
          sent := connection.sent ++ connection.writeBuffer.take count
          writeBuffer := connection.writeBuffer.drop count }

/-- The handling of `HTTP_CONNECTION_CLOSE`, which is deferred while a write is pending. -/
def handleClose (connection : HttpConnection) : HttpConnection :=
  if connection.writePending then { connection with isClosing := true }
  else finishClose connection

/-- The history of the requests. -/
def HttpConnection.record (connection : HttpConnection) : HttpMessage → HttpConnection
  | .write data _ =>
    if connection.closeRequested then connection
    else { connection with written := connection.written ++ data }
  | .writable _ => connection
  | .close => { connection with closeRequested := true }

/-- `http_connection_dispatch`, which discards every message after `is_closing` is set. -/
def httpConnectionDispatch (connection : HttpConnection) (message : HttpMessage) : HttpConnection :=
  let recorded := connection.record message
  if connection.isClosing then recorded
  else
    match message with
    | .write data result => handleWrite recorded data result
    | .writable result => handleWritable recorded result
    | .close => handleClose recorded

/-- One message after the other. -/
def sendStep (connection : HttpConnection) (message : HttpMessage) : Option HttpConnection :=
  some (httpConnectionDispatch connection message)

/-- What was sent is what was written first, a requested close comes when all is sent, and until
then a writable event sends more. -/
structure Delivered (connection : HttpConnection) : Prop where
  inOrder : connection.sent <+: connection.written
  complete : connection.closedByRequest = true → connection.sent = connection.written
  flushes : connection.closeRequested = true → connection.writeBuffer ≠ [] → ∀ count,
    connection.sent.length <
      (httpConnectionDispatch connection (.writable (.sent (count + 1)))).sent.length

/-- A close comes when nothing is left to be sent. -/
def CloseAfterOutput (connection : HttpConnection) : HttpMessage → Prop
  | .close => connection.writeBuffer = []
  | _ => True

/-- A requested close leaves nothing to be sent. -/
def Emptied (connection : HttpConnection) : Prop :=
  connection.closeRequested = true → connection.writeBuffer = []

/-- A connection that takes messages. -/
def openConnection (sent unsent : Bytes) (pending : Bool) : HttpConnection :=
  { writeBuffer := unsent, writePending := pending, sent := sent, written := sent ++ unsent }

/-- Where a connection is: it takes messages, has deferred a close, or has lost its socket. -/
inductive OutputPhase : HttpConnection → Prop where
  | active (sent unsent : Bytes) (pending : Bool) (waiting : unsent ≠ [] → pending = true) :
    OutputPhase (openConnection sent unsent pending)
  | deferred (sent unsent : Bytes) (pending : Bool) :
    OutputPhase
      { openConnection sent unsent pending with isClosing := true, closeRequested := true }
  | ended (sent lost : Bytes) (pending requested closed : Bool)
    (finished : closed = true → lost = [] ∧ requested = true) :
    OutputPhase
      { hasSocket := false, writePending := pending, isClosing := true, sent := sent
        written := sent ++ lost, closeRequested := requested, closedByRequest := closed }

/-- A deferred close sends nothing more. -/
theorem OutputPhase.delivered_iff (phase : OutputPhase connection) :
    Delivered connection ↔ Emptied connection := by
  cases phase with
  | active => exact iff_of_true ⟨prefix_append _ _, nofun, nofun⟩ nofun
  | deferred =>
    constructor
    · intro delivered _
      by_contra unsent
      exact Nat.lt_irrefl _ (delivered.flushes rfl unsent 0)
    · intro empty
      exact ⟨prefix_append _ _, nofun, fun _ unsent => absurd (empty rfl) unsent⟩
  | ended sent lost pending requested closed finished =>
    refine iff_of_true ⟨prefix_append _ _, ?_, fun _ unsent => absurd rfl unsent⟩ fun _ => rfl
    intro closed
    simp [finished closed]

section
variable (sent : Bytes) {unsent : Bytes} (waiting : unsent ≠ [] → pending = true)
  (result : SendResult)
include waiting

/-- The answer of the socket decides how much of a write is kept. -/
theorem outputPhase_write (data : Bytes) :
    let next := httpConnectionDispatch (openConnection sent unsent pending) (.write data result)
    OutputPhase next ∧ Emptied next := by
  cases unsent with
  | cons first rest =>
    have appended := OutputPhase.active sent (first :: rest ++ data) pending fun _ => waiting nofun
    rw [openConnection, ← append_assoc] at appended
    exact ⟨appended, nofun⟩
  | nil =>
    simp only [httpConnectionDispatch, HttpConnection.record, handleWrite, openConnection,
      append_nil]
    cases result with
    | again => exact ⟨.active sent data true fun _ => rfl, nofun⟩
    | failed => exact ⟨.ended sent data pending false false nofun, nofun⟩
    | sent count =>
      cases count with
      | zero => exact ⟨.ended sent data pending false false nofun, nofun⟩
      | succ count =>
        by_cases part : count + 1 < data.length
        · have rest := OutputPhase.active (sent ++ data.take (count + 1)) (data.drop (count + 1))
            true fun _ => rfl
          rw [openConnection, append_assoc, take_append_drop] at rest
          simpa [part, Emptied] using rest
        · have all := OutputPhase.active (sent ++ data) [] pending nofun
          rw [openConnection, append_nil] at all
          simpa [part, Emptied] using all

theorem outputPhase_writable :
    let next := httpConnectionDispatch (openConnection sent unsent pending) (.writable result)
    OutputPhase next ∧ Emptied next := by
  cases unsent with
  | nil => exact ⟨.active sent [] false nofun, nofun⟩
  | cons first rest =>
    simp only [httpConnectionDispatch, HttpConnection.record, handleWritable, openConnection]
    cases result with
    | again => exact ⟨.active sent (first :: rest) pending waiting, nofun⟩
    | failed => exact ⟨.ended sent (first :: rest) false false false nofun, nofun⟩
    | sent count =>
      cases count with
      | zero => exact ⟨.ended sent (first :: rest) false false false nofun, nofun⟩
      | succ count =>
        by_cases all : (first :: rest).length ≤ count + 1
        · have flushed := OutputPhase.active (sent ++ first :: rest) [] false nofun
          rw [openConnection, append_nil] at flushed
          simpa [Nat.le_of_succ_le_succ all, Emptied] using flushed
        · have left := OutputPhase.active (sent ++ (first :: rest).take (count + 1))
            ((first :: rest).drop (count + 1)) pending fun _ => waiting nofun
          rw [openConnection, append_assoc, take_append_drop] at left
          simpa [mt Nat.succ_le_succ all, Emptied] using left

end

/-- A message leads to another phase, and only a close can leave something to be sent. -/
theorem OutputPhase.dispatch (phase : OutputPhase connection) (message : HttpMessage) :
    let next := httpConnectionDispatch connection message
    OutputPhase next ∧
      (Emptied connection → (Emptied next ↔ CloseAfterOutput connection message)) := by
  cases phase with
  | active sent unsent pending waiting =>
    cases message with
    | write data result =>
      obtain ⟨next, emptied⟩ := outputPhase_write sent waiting result data
      exact ⟨next, fun _ => iff_of_true emptied trivial⟩
    | writable result =>
      obtain ⟨next, emptied⟩ := outputPhase_writable sent waiting result
      exact ⟨next, fun _ => iff_of_true emptied trivial⟩
    | close =>
      cases pending with
      | true =>
        exact ⟨.deferred sent unsent true, fun _ => ⟨fun empty => empty rfl, fun empty _ => empty⟩⟩
      | false =>
        cases unsent with
        | nil =>
          exact ⟨.ended sent [] false true true fun _ => ⟨rfl, rfl⟩,
            fun _ => iff_of_true (fun _ => rfl) rfl⟩
        | cons first rest => exact absurd (waiting nofun) (by decide)
  | deferred sent unsent pending =>
    refine ⟨by cases message <;> exact .deferred sent unsent pending, fun emptied => ?_⟩
    cases message with
    | write | writable => exact iff_of_true emptied trivial
    | close => exact iff_of_true emptied (emptied rfl)
  | ended sent lost pending requested closed finished =>
    refine ⟨?_, fun _ => ?_⟩
    · cases message with
      | write data result =>
        cases requested with
        | true => exact .ended sent lost pending true closed finished
        | false =>
          have more := OutputPhase.ended sent (lost ++ data) pending false closed fun ended =>
            absurd (finished ended).2 (by decide)
          rw [← append_assoc] at more
          exact more
      | writable result => exact .ended sent lost pending requested closed finished
      | close => exact .ended sent lost pending true closed fun ended => ⟨(finished ended).1, rfl⟩
    · cases requested <;> cases message <;> exact iff_of_true (fun _ => rfl) (by trivial)

/-- **Output is delivered exactly if a close comes when nothing is left to be sent.** -/
theorem output_is_delivered_iff (messages : List HttpMessage) :
    Throughout sendStep Delivered {} messages ↔ EachStep sendStep CloseAfterOutput {} messages := by
  have initial : OutputPhase {} := .active [] [] false nofun
  refine throughout_iff_eachStep ?_ ?_ messages initial (initial.delivered_iff.mpr nofun)
  · rintro connection message _ phase ⟨⟩
    exact (phase.dispatch message).1
  · rintro connection message _ phase delivered ⟨⟩
    rw [(phase.dispatch message).1.delivered_iff]
    exact (phase.dispatch message).2 (phase.delivered_iff.mp delivered)

theorem deferred_close_loses_output :
    ¬Throughout sendStep Delivered {} [.write [1, 2] (.sent 1), .close] := by
  intro delivered
  exact absurd (((delivered.2 _ rfl).2 _ rfl).flushes rfl nofun 0) (by decide)

end Liboffs.ClientApi
