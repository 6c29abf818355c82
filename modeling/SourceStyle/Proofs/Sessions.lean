import Mathlib.Logic.Relation
import SourceStyle.StandardInput.Exchange

/-!
What a session comes to depends on the data that was read and on what ended it, not on how the data
arrived nor on which party was faster. The reader sends two messages at most, so it never waits for
room in the channel.
-/

namespace SourceStyle.StandardInput

/-! ### What was read -/

/-- Whether reading goes on after a read: it brought data, or is to be tried again. -/
def ReadEvent.goesOn : ReadEvent → Bool
  | .data bytes => !bytes.isEmpty
  | .interrupted => true
  | _ => false

def ReadEvent.bytes : ReadEvent → List UInt8
  | .data bytes => bytes
  | _ => []

/-- What ends reading: the end of input, a failed read, a read that does not return, or the end of
the reader itself. -/
inductive Ending where
  | input
  | failed (cause : SystemFault)
  | stalled
  | died
deriving DecidableEq

/-- What a read that ends reading stands for. Empty data is the end of input. -/
def ReadEvent.ending : ReadEvent → Ending
  | .failed cause => .failed cause
  | .stall => .stalled
  | .death => .died
  | _ => .input

/-- All data that came before reading ended. -/
def gathered (events : List ReadEvent) : List UInt8 :=
  (events.takeWhile ReadEvent.goesOn).flatMap ReadEvent.bytes

/-- What ended reading. After the last read comes the end of input. -/
def endingOf (events : List ReadEvent) : Ending :=
  ((events.dropWhile ReadEvent.goesOn).head?.map ReadEvent.ending).getD .input

/-- What a session has to come to: the handler's result on all of the data, or why the handler was
not called. -/
def outcome {α : Type} (handler : String → FileTree.Action Failure α) (data : List UInt8) :
    Ending → FileTree.Action Failure (Option α)
  | .input => if data = [] then pure none else some <$> handler (Text.decodeLossy data)
  | .failed cause => throw (.standardStream cause)
  | .stalled => if data = [] then pure none else throw .inputTimeout
  | .died => if data = [] then pure none else throw readerStopped

def calls (data : List UInt8) (ending : Ending) : List String :=
  if ending = .input ∧ data ≠ [] then [Text.decodeLossy data] else []

section
variable {bytes more : List UInt8} {event : ReadEvent} {events : List ReadEvent}

@[simp] theorem gathered_nil : gathered [] = [] := rfl

theorem gathered_of_goesOn (h : event.goesOn = true) :
    gathered (event :: events) = event.bytes ++ gathered events := by
  rw [gathered, List.takeWhile_cons_of_pos h, List.flatMap_cons, ← gathered]

theorem endingOf_of_goesOn (h : event.goesOn = true) :
    endingOf (event :: events) = endingOf events := by
  rw [endingOf, List.dropWhile_cons_of_pos h, ← endingOf]

theorem gathered_of_not_goesOn (h : event.goesOn = false) : gathered (event :: events) = [] := by
  rw [gathered, List.takeWhile_cons_of_neg (by simp [h]), List.flatMap_nil]

theorem endingOf_of_not_goesOn (h : event.goesOn = false) :
    endingOf (event :: events) = event.ending := by
  rw [endingOf, List.dropWhile_cons_of_neg (by simp [h])]
  rfl

theorem goesOn_data (h : bytes ≠ []) : (ReadEvent.data bytes).goesOn = true := by
  simpa [ReadEvent.goesOn] using h

@[simp] theorem gathered_interrupted : gathered (.interrupted :: events) = gathered events :=
  gathered_of_goesOn rfl

@[simp] theorem endingOf_interrupted : endingOf (.interrupted :: events) = endingOf events :=
  endingOf_of_goesOn rfl

theorem gathered_data (h : bytes ≠ []) :
    gathered (.data bytes :: events) = bytes ++ gathered events :=
  gathered_of_goesOn (goesOn_data h)

theorem gathered_data_ne_nil (h : bytes ≠ []) : gathered (.data bytes :: events) ≠ [] := by
  rw [gathered_data h]
  exact List.append_ne_nil_of_left_ne_nil h _

theorem endingOf_data (h : bytes ≠ []) : endingOf (.data bytes :: events) = endingOf events :=
  endingOf_of_goesOn (goesOn_data h)

theorem gathered_of_endsHere (h : endsHere events = true) :
    gathered events = [] ∧ endingOf events = .input := by
  unfold endsHere at h
  split at h
  · exact ⟨rfl, rfl⟩
  · rw [List.isEmpty_iff.1 h]
    exact ⟨rfl, rfl⟩
  · cases h

/-- The same bytes with the same end are the same behind any reads. -/
theorem gathered_append_congr {first second : List ReadEvent}
    (hg : gathered first = gathered second) (he : endingOf first = endingOf second)
    (front : List ReadEvent) :
    gathered (front ++ first) = gathered (front ++ second) ∧
      endingOf (front ++ first) = endingOf (front ++ second) := by
  induction front with
  | nil => exact ⟨hg, he⟩
  | cons event front ih =>
      rw [List.cons_append, List.cons_append]
      cases h : event.goesOn with
      | true => simp only [gathered_of_goesOn h, endingOf_of_goesOn h, ih, and_self]
      | false => simp only [gathered_of_not_goesOn h, endingOf_of_not_goesOn h, and_self]

/-- Only the bytes are seen, not where one read ended and the next one began. -/
theorem gathered_split (hb : bytes ≠ []) (hm : more ≠ []) (events : List ReadEvent) :
    gathered (.data (bytes ++ more) :: events) = gathered (.data bytes :: .data more :: events) ∧
      endingOf (.data (bytes ++ more) :: events) =
        endingOf (.data bytes :: .data more :: events) := by
  have ha : bytes ++ more ≠ [] := List.append_ne_nil_of_left_ne_nil hb more
  simp only [gathered_data ha, gathered_data hb, gathered_data hm, endingOf_data ha,
    endingOf_data hb, endingOf_data hm, List.append_assoc, and_self]

end

/-! ### The session as it runs -/

section
variable {α : Type} {buffer : List UInt8} {events : List ReadEvent}

def atEnding (data : List UInt8) : Ending → Reader
  | .input => atEnd data
  | .failed cause => { reports := [.finished (.error (.standardStream cause))] }
  | .stalled => { waiting := true }
  | .died => {}

theorem readFrom_of_ne_nil (hb : buffer ≠ []) :
    readFrom buffer events = atEnding (buffer ++ gathered events) (endingOf events) := by
  induction events generalizing buffer with
  | nil => rw [readFrom, gathered_nil, List.append_nil]; rfl
  | cons event rest ih =>
      cases event with
      | data bytes =>
          by_cases hd : bytes = []
          · rw [hd, gathered_of_not_goesOn rfl, List.append_nil]
            rfl
          · rw [readFrom, if_neg (by simpa using hd), if_neg (by simpa using hb), gathered_data hd,
              endingOf_data hd, ← List.append_assoc]
            exact ih (List.append_ne_nil_of_left_ne_nil hb bytes)
      | interrupted =>
          rw [gathered_interrupted, endingOf_interrupted, ← ih hb]
          rfl
      | failed cause => rfl
      | stall => rfl
      | death => rfl

theorem readFrom_nil :
    readFrom [] events =
      if gathered events = [] then atEnding [] (endingOf events)
      else .cons .received (atEnding (gathered events) (endingOf events)) := by
  induction events with
  | nil => rfl
  | cons event rest ih =>
      cases event with
      | data bytes =>
          by_cases hd : bytes = []
          · rw [hd, gathered_of_not_goesOn rfl, if_pos rfl]
            rfl
          · rw [readFrom, if_neg (by simpa using hd), if_neg (gathered_data_ne_nil hd),
              gathered_data hd, endingOf_data hd, ← readFrom_of_ne_nil hd]
            rfl
      | interrupted =>
          rw [gathered_interrupted, endingOf_interrupted, ← ih]
          rfl
      | failed cause => rfl
      | stall => rfl
      | death => rfl

/-- What a session comes to is settled by the data and by what ended it. -/
theorem session_eq_outcome (handler : String → FileTree.Action Failure α)
    (events : List ReadEvent) :
    session handler events = outcome handler (gathered events) (endingOf events) := by
  rw [session, readFrom_nil]
  generalize gathered events = data
  by_cases hd : data = []
  · rw [if_pos hd, hd]
    cases endingOf events <;> rfl
  · rw [if_neg hd, await, Reader.cons]
    cases endingOf events with
    | input => simp [atEnding, atEnd, hd, afterReceived, outcome, Except.map]
    | failed cause => rfl
    | stalled => simp [atEnding, hd, afterReceived, outcome]
    | died => simp [atEnding, hd, afterReceived, outcome, readerStopped]

end

end SourceStyle.StandardInput
