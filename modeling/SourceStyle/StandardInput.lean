import SourceStyle.FileTree

/-!
Reading standard input in the background. The reader reports once when the first bytes arrive and
once when it is done; the foreground waits briefly for the first report and longer for the second.
-/

namespace SourceStyle.StandardInput

/-- The result of one read: data, where empty data is the end of input; a read to be tried again;
a failed read; a read that does not return; or the end of the reader itself. -/
inductive ReadEvent where
  | data (bytes : List UInt8)
  | interrupted
  | failed (cause : SystemFault)
  | stall
  | death
deriving DecidableEq, Repr

/-- What the reader reports: that input has begun, or the whole text or why there is none. -/
inductive Report where
  | received
  | finished (text : Except Failure String)

/-- The reports of a reader, and whether it then keeps the foreground waiting. -/
structure Reader where
  reports : List Report := []
  waiting : Bool := false

def Reader.cons (report : Report) (reader : Reader) : Reader :=
  { reader with reports := report :: reader.reports }

/-- The reports at the end of input: the whole text, if there is any. -/
def atEnd (buffer : List UInt8) : Reader :=
  if buffer.isEmpty then {} else { reports := [.finished (.ok (Text.decodeLossy buffer))] }

def readFrom (buffer : List UInt8) : List ReadEvent → Reader
  | [] => atEnd buffer
  | .data bytes :: rest =>
    if bytes.isEmpty then atEnd buffer
    else if buffer.isEmpty then .cons .received (readFrom bytes rest)
    else readFrom (buffer ++ bytes) rest
  | .interrupted :: rest => readFrom buffer rest
  | .failed cause :: _ => { reports := [.finished (.error (.standardStream cause))] }
  | .stall :: _ => { waiting := true }
  | .death :: _ => {}

def afterReceived (reader : Reader) : List Report → Except Failure (Option String)
  | .finished text :: _ => text.map some
  | .received :: _ => .error (.custom "standard input reader stopped unexpectedly")
  | [] =>
    if reader.waiting then .error .inputTimeout
    else .error (.custom "standard input reader stopped unexpectedly")

/-- What the foreground makes of a reader's reports: the text to handle, if input came. -/
def await (reader : Reader) : Except Failure (Option String) :=
  match reader.reports with
  | [] => .ok none
  | .finished text :: _ => text.map some
  | .received :: rest => afterReceived reader rest

/-- The result of a handler on all of standard input, or nothing if no input came. -/
def session {α : Type} (handler : String → FileTree.Action Failure α) (events : List ReadEvent) :
    FileTree.Action Failure (Option α) :=
  match await (readFrom [] events) with
  | .error failure => throw failure
  | .ok none => pure none
  | .ok (some text) => some <$> handler text

end SourceStyle.StandardInput
