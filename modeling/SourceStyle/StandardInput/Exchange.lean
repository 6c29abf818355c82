import SourceStyle.StandardInput

/-!
The reader and the foreground as two parties that run side by side. They share a channel of limited
room, and each takes its next step whenever it can. The foreground gives up waiting only for a read
that does not return; how long anything takes is not part of this.
-/

namespace SourceStyle.StandardInput

/-- The number of messages that the channel has room for. -/
def capacity : Nat := 2

/-- A message to the foreground: that input has begun, or what came of it. -/
inductive Message (α : Type) where
  | received
  | finished (result : Except Failure α)

/-- What the reader is at: reading, with what it has read before and what its reads will come to;
about to send its last message; or gone. -/
inductive ReaderState (α : Type) where
  | reading (buffer : List UInt8) (events : List ReadEvent)
  | concluding (result : Except Failure α)
  | gone

/-- What the foreground is at: waiting for input to begin, waiting for what comes of it, or done. -/
inductive ForegroundState (α : Type) where
  | probing
  | waiting
  | done (result : Except Failure (Option α))

/-- Both parties, the messages on their way between them, oldest first, and the files that a handler
works on. `handled` are the texts that the handler was called with and `sent` is the number of
messages so far. -/
structure Exchange (α : Type) where
  reader : ReaderState α
  foreground : ForegroundState α := .probing
  channel : List (Message α) := []
  files : FileTree
  handled : List String := []
  sent : Nat := 0

def endsHere : List ReadEvent → Bool
  | [] => true
  | .data bytes :: _ => bytes.isEmpty
  | _ => false

/-- How an action ended, beside the files that it left. -/
def ended {α : Type} : EStateM.Result Failure FileTree α → Except Failure α × FileTree
  | .ok value after => (.ok value, after)
  | .error failure after => (.error failure, after)

/-- What the foreground reports when the reader is gone without a result. -/
def readerStopped : Failure :=
  .custom "standard input reader stopped unexpectedly"

namespace ReaderState
variable {α : Type}

/-- The next thing the reader does is to send a message. -/
def Sends : ReaderState α → Prop
  | reading [] (.data bytes :: _) => bytes ≠ []
  | concluding _ => True
  | _ => False

/-- The reader waits for a read that does not return. -/
def Stalls : ReaderState α → Prop
  | reading _ (.stall :: _) => True
  | _ => False

end ReaderState

namespace Exchange
variable {α : Type}

/-- The exchange before either party has done anything. -/
def start (events : List ReadEvent) (files : FileTree) : Exchange α where
  reader := .reading [] events
  files

/-- The exchange with one more message on its way, sent as the reader becomes what is given. -/
def send (now : Exchange α) (message : Message α) (reader : ReaderState α) : Exchange α :=
  { now with reader, channel := now.channel ++ [message], sent := now.sent + 1 }

inductive Step (handler : String → FileTree.Action Failure α) : Exchange α → Exchange α → Prop
  /-- The first bytes are announced; a full channel makes the reader wait. -/
  | begin {now : Exchange α} {bytes : List UInt8} {rest : List ReadEvent}
      (reads : now.reader = .reading [] (.data bytes :: rest)) (some : bytes ≠ [])
      (room : now.channel.length < capacity) :
      Step handler now (now.send .received (.reading bytes rest))
  | append {now : Exchange α} {buffer bytes : List UInt8} {rest : List ReadEvent}
      (reads : now.reader = .reading buffer (.data bytes :: rest)) (begun : buffer ≠ [])
      (some : bytes ≠ []) :
      Step handler now { now with reader := .reading (buffer ++ bytes) rest }
  | retry {now : Exchange α} {buffer : List UInt8} {rest : List ReadEvent}
      (reads : now.reader = .reading buffer (.interrupted :: rest)) :
      Step handler now { now with reader := .reading buffer rest }
  | fail {now : Exchange α} {buffer : List UInt8} {cause : SystemFault} {rest : List ReadEvent}
      (reads : now.reader = .reading buffer (.failed cause :: rest)) :
      Step handler now { now with reader := .concluding (.error (.standardStream cause)) }
  /-- At the end of input the handler is called on all of it. -/
  | handle {now : Exchange α} {buffer : List UInt8} {events : List ReadEvent}
      (reads : now.reader = .reading buffer events) (ends : endsHere events = true)
      (begun : buffer ≠ []) :
      Step handler now
        { now with
          reader := .concluding (ended (handler (Text.decodeLossy buffer) now.files)).1
          files := (ended (handler (Text.decodeLossy buffer) now.files)).2
          handled := now.handled ++ [Text.decodeLossy buffer] }
  | leave {now : Exchange α} {events : List ReadEvent}
      (reads : now.reader = .reading [] events) (ends : endsHere events = true) :
      Step handler now { now with reader := .gone }
  | die {now : Exchange α} {buffer : List UInt8} {rest : List ReadEvent}
      (reads : now.reader = .reading buffer (.death :: rest)) :
      Step handler now { now with reader := .gone }
  /-- The last message is sent; a full channel makes the reader wait. -/
  | conclude {now : Exchange α} {result : Except Failure α}
      (reads : now.reader = .concluding result) (room : now.channel.length < capacity) :
      Step handler now (now.send (.finished result) .gone)
  | notice {now : Exchange α} {rest : List (Message α)} (waits : now.foreground = .probing)
      (next : now.channel = .received :: rest) :
      Step handler now { now with foreground := .waiting, channel := rest }
  | receive {now : Exchange α} {result : Except Failure α} {rest : List (Message α)}
      (waits : now.foreground = .probing ∨ now.foreground = .waiting)
      (next : now.channel = .finished result :: rest) :
      Step handler now { now with foreground := .done (result.map some), channel := rest }
  /-- Input is announced once only. -/
  | confuse {now : Exchange α} {rest : List (Message α)} (waits : now.foreground = .waiting)
      (next : now.channel = .received :: rest) :
      Step handler now { now with foreground := .done (.error readerStopped), channel := rest }
  /-- Without input the foreground gives up soon. -/
  | desist {now : Exchange α} (waits : now.foreground = .probing) (next : now.channel = [])
      (silent : now.reader = .gone ∨ now.reader.Stalls) :
      Step handler now { now with foreground := .done (.ok none) }
  | disconnect {now : Exchange α} (waits : now.foreground = .waiting) (next : now.channel = [])
      (silent : now.reader = .gone) :
      Step handler now { now with foreground := .done (.error readerStopped) }
  | timeOut {now : Exchange α} (waits : now.foreground = .waiting) (next : now.channel = [])
      (silent : now.reader.Stalls) :
      Step handler now { now with foreground := .done (.error .inputTimeout) }

end Exchange
end SourceStyle.StandardInput
