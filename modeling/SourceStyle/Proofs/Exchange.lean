import SourceStyle.Proofs.Sessions

/-!
Every run of the reader and the foreground comes to what the session comes to. What lies ahead of
an exchange does not change with its steps, there is a step until the foreground is done, and the
steps come to an end.
-/

namespace SourceStyle.StandardInput

open Exchange

/-- What lies ahead of an exchange: what the foreground will report, the files then, the texts that
the handler will have been called with, and the number of messages. -/
structure Prospect (α : Type) where
  result : Except Failure (Option α)
  files : FileTree
  handled : List String
  sent : Nat

variable {α : Type}

/-- What the foreground makes of the messages to come once input has begun. `stalls` says that the
reader does not leave after them. -/
def conclusionOfInput (stalls : Bool) : List (Message α) → Except Failure (Option α)
  | [] => if stalls then .error .inputTimeout else .error readerStopped
  | .received :: _ => .error readerStopped
  | .finished result :: _ => result.map some

/-- What the foreground makes of the messages to come. -/
def ForegroundState.conclusion (stalls : Bool) :
    ForegroundState α → List (Message α) → Except Failure (Option α)
  | .done result, _ => result
  | .waiting, messages => conclusionOfInput stalls messages
  | .probing, [] => .ok none
  | .probing, .received :: rest => conclusionOfInput stalls rest
  | .probing, .finished result :: _ => result.map some

def Message.isReceived : Message α → Bool
  | .received => true
  | .finished _ => false

/-- The steps that are left at most: one for each read, the end of input and the last message. -/
def ReaderState.weight : ReaderState α → Nat
  | .reading _ events => events.length + 2
  | .concluding _ => 1
  | .gone => 0

def ForegroundState.weight : ForegroundState α → Nat
  | .probing => 2
  | .waiting => 1
  | .done _ => 0

/-- What the reader has yet to do: the messages it sends, whether it stalls after them, the files
after it and the texts that it hands on. -/
structure Remainder (α : Type) where
  messages : List (Message α) := []
  stalls : Bool := false
  files : FileTree
  handled : List String := []

/-- What the reader has yet to do when reading ends with the given data. -/
def Remainder.atEnding (handler : String → FileTree.Action Failure α) (files : FileTree)
    (data : List UInt8) : Ending → Remainder α
  | .input =>
    if data = [] then { files }
    else
      { messages := [.finished (ended (handler (Text.decodeLossy data) files)).1]
        files := (ended (handler (Text.decodeLossy data) files)).2
        handled := [Text.decodeLossy data] }
  | .failed cause => { messages := [.finished (.error (.standardStream cause))], files }
  | .stalled => { stalls := true, files }
  | .died => { files }

def ReaderState.remainder (handler : String → FileTree.Action Failure α) (files : FileTree) :
    ReaderState α → Remainder α
  | .gone => { files }
  | .concluding result => { messages := [.finished result], files }
  | .reading buffer events =>
    let last := Remainder.atEnding handler files (buffer ++ gathered events) (endingOf events)
    if buffer = [] ∧ gathered events ≠ [] then { last with messages := .received :: last.messages }
    else last

section
variable {handler : String → FileTree.Action Failure α} {files : FileTree}
  {buffer : List UInt8} {events : List ReadEvent} {reader : ReaderState α}

/-- Once input is announced, the reader sends at most its last message. -/
theorem remainder_of_ne_nil (hb : buffer ≠ []) :
    (ReaderState.reading buffer events).remainder handler files =
      .atEnding handler files (buffer ++ gathered events) (endingOf events) :=
  if_neg fun h => hb h.1

theorem remainder_of_gathered_eq_nil (hg : gathered events = []) :
    (ReaderState.reading buffer events).remainder handler files =
      .atEnding handler files buffer (endingOf events) := by
  rw [ReaderState.remainder, hg, List.append_nil]
  exact if_neg fun h => h.2 rfl

theorem remainder_of_gathered_ne_nil (hg : gathered events ≠ []) :
    (ReaderState.reading [] events).remainder handler files =
      let last := Remainder.atEnding handler files (gathered events) (endingOf events)
      { last with messages := .received :: last.messages } :=
  if_pos ⟨rfl, hg⟩

/-- A reader that waits for a read sends nothing more and stays. -/
theorem ReaderState.Stalls.remainder_eq (h : reader.Stalls) :
    reader.remainder handler files = { stalls := true, files } := by
  match reader, h with
  | .reading buffer (.stall :: rest), _ => exact remainder_of_gathered_eq_nil rfl

theorem ReaderState.Sends.one_le_length_messages (h : reader.Sends) :
    1 ≤ (reader.remainder handler files).messages.length := by
  match reader, h with
  | .concluding result, _ => exact Nat.le_refl 1
  | .reading [] (.data bytes :: rest), h =>
      rw [remainder_of_gathered_ne_nil (gathered_data_ne_nil h)]
      exact Nat.le_add_left 1 _

theorem ended_map_some (action : FileTree.Action Failure α) (files : FileTree) :
    ended ((some <$> action) files) =
      ((ended (action files)).1.map some, (ended (action files)).2) := by
  change ended (EStateM.map some action files) = _
  rw [EStateM.map]
  cases action files <;> rfl

theorem not_stalls_of_endsHere (h : endsHere events = true) :
    ¬(ReaderState.reading buffer events : ReaderState α).Stalls := by
  match events, h with
  | [], _ => exact id
  | .data bytes :: rest, _ => exact id

end

namespace Exchange

def prospect (handler : String → FileTree.Action Failure α) (now : Exchange α) : Prospect α :=
  let remainder := now.reader.remainder handler now.files
  { result := now.foreground.conclusion remainder.stalls (now.channel ++ remainder.messages)
    files := remainder.files
    handled := now.handled ++ remainder.handled
    sent := now.sent + remainder.messages.length }

variable {handler : String → FileTree.Action Failure α} {now next : Exchange α}

theorem prospect_of_remainder_eq {reader : ReaderState α}
    (h : reader.remainder handler now.files = now.reader.remainder handler now.files) :
    { now with reader }.prospect handler = now.prospect handler := by
  rw [prospect, prospect, h]

/-- A message that is sent was still to come before. -/
theorem prospect_send {message : Message α} {reader : ReaderState α}
    (h : now.reader.remainder handler now.files =
      { reader.remainder handler now.files with
        messages := message :: (reader.remainder handler now.files).messages }) :
    (now.send message reader).prospect handler = now.prospect handler := by
  simp only [prospect, send, h, List.append_assoc, List.cons_append, List.nil_append,
    List.length_cons, Nat.add_assoc, Nat.add_comm 1]

/-- No step changes what lies ahead. -/
theorem Step.prospect_eq (h : Step handler now next) :
    next.prospect handler = now.prospect handler := by
  -- the reader passes on what it was to pass on, and the foreground comes to what it was to come to
  cases h with
  | @begin bytes rest reads some room =>
      refine prospect_send ?_
      rw [reads, remainder_of_gathered_ne_nil (gathered_data_ne_nil some),
        remainder_of_ne_nil some, gathered_data some, endingOf_data some]
  | @append buffer bytes rest reads begun some =>
      refine prospect_of_remainder_eq ?_
      rw [reads, remainder_of_ne_nil begun,
        remainder_of_ne_nil (List.append_ne_nil_of_left_ne_nil begun bytes), gathered_data some,
        endingOf_data some, List.append_assoc]
  | retry reads =>
      refine prospect_of_remainder_eq ?_
      rw [reads, ReaderState.remainder, ReaderState.remainder, gathered_interrupted,
        endingOf_interrupted]
  | fail reads =>
      refine prospect_of_remainder_eq ?_
      rw [reads, remainder_of_gathered_eq_nil rfl]
      rfl
  | @handle buffer events reads ends begun =>
      obtain ⟨hg, he⟩ := gathered_of_endsHere ends
      rw [prospect, prospect, reads, remainder_of_gathered_eq_nil hg, he, Remainder.atEnding,
        if_neg begun]
      simp only [ReaderState.remainder, List.append_nil]
  | leave reads ends =>
      obtain ⟨hg, he⟩ := gathered_of_endsHere ends
      refine prospect_of_remainder_eq ?_
      rw [reads, remainder_of_gathered_eq_nil hg, he]
      rfl
  | die reads =>
      refine prospect_of_remainder_eq ?_
      rw [reads, remainder_of_gathered_eq_nil rfl]
      rfl
  | conclude reads room =>
      refine prospect_send ?_
      rw [reads]
      rfl
  | notice waits next =>
      rw [prospect, prospect, waits, next]
      rfl
  | receive waits next =>
      obtain waits | waits := waits <;>
      · rw [prospect, prospect, waits, next]
        rfl
  | confuse waits next =>
      rw [prospect, prospect, waits, next]
      rfl
  | desist waits next silent =>
      obtain silent | silent := silent
      · rw [prospect, prospect, waits, next, silent]
        rfl
      · rw [prospect, prospect, waits, next, silent.remainder_eq]
        rfl
  | disconnect waits next silent =>
      rw [prospect, prospect, waits, next, silent]
      rfl
  | timeOut waits next silent =>
      rw [prospect, prospect, waits, next, silent.remainder_eq]
      rfl

/-! ### The steps come to an end -/

variable (now) in
/-- A bound on the steps that are left. A message costs two of them, to send it and to take it. -/
def weight : Nat :=
  2 * now.reader.weight + now.channel.length + now.foreground.weight

theorem Step.weight_lt (h : Step handler now next) : next.weight < now.weight := by
  cases h with
  | begin reads some room =>
      simp only [weight, send, reads, ReaderState.weight, List.length_append, List.length_cons,
        List.length_nil]
      omega
  | append reads begun some =>
      simp only [weight, reads, ReaderState.weight, List.length_cons]
      omega
  | retry reads =>
      simp only [weight, reads, ReaderState.weight, List.length_cons]
      omega
  | fail reads =>
      simp only [weight, reads, ReaderState.weight]
      omega
  | handle reads ends begun =>
      simp only [weight, reads, ReaderState.weight]
      omega
  | leave reads ends =>
      simp only [weight, reads, ReaderState.weight]
      omega
  | die reads =>
      simp only [weight, reads, ReaderState.weight]
      omega
  | conclude reads room =>
      simp only [weight, send, reads, ReaderState.weight, List.length_append, List.length_cons,
        List.length_nil]
      omega
  | notice waits next =>
      simp only [weight, waits, next, ForegroundState.weight, List.length_cons]
      omega
  | receive waits next =>
      obtain waits | waits := waits <;>
      · simp only [weight, waits, next, ForegroundState.weight, List.length_cons]
        omega
  | confuse waits next =>
      simp only [weight, waits, next, ForegroundState.weight, List.length_cons]
      omega
  | desist waits next silent =>
      simp only [weight, waits, ForegroundState.weight]
      omega
  | disconnect waits next silent =>
      simp only [weight, waits, ForegroundState.weight]
      omega
  | timeOut waits next silent =>
      simp only [weight, waits, ForegroundState.weight]
      omega

/-- No run goes on for ever. -/
theorem wellFounded_step (handler : String → FileTree.Action Failure α) :
    WellFounded fun next now : Exchange α => Step handler now next :=
  Subrelation.wf Step.weight_lt (measure weight).wf

/-! ### There is a step until the foreground is done -/

/-- With an empty channel the reader has a next step, or waits for good. -/
theorem exists_reader_step (handler : String → FileTree.Action Failure α) {now : Exchange α}
    (he : now.channel = []) :
    (∃ next, Step handler now next) ∨ now.reader = .gone ∨ now.reader.Stalls := by
  have room : now.channel.length < capacity := by
    rw [he]
    exact Nat.two_pos
  cases hr : now.reader with
  | gone => exact .inr (.inl rfl)
  | concluding result => exact .inl ⟨_, .conclude hr room⟩
  | reading buffer events =>
      by_cases ends : endsHere events = true
      · by_cases hb : buffer = []
        · exact .inl ⟨_, .leave (hb ▸ hr) ends⟩
        · exact .inl ⟨_, .handle hr ends hb⟩
      · match events, ends with
        | [], ends => exact absurd rfl ends
        | .data bytes :: rest, ends =>
            have hd : bytes ≠ [] := by simpa [endsHere] using ends
            by_cases hb : buffer = []
            · exact .inl ⟨_, .begin (hb ▸ hr) hd room⟩
            · exact .inl ⟨_, .append hr hb hd⟩
        | .interrupted :: rest, _ => exact .inl ⟨_, .retry hr⟩
        | .failed cause :: rest, _ => exact .inl ⟨_, .fail hr⟩
        | .stall :: rest, _ => exact .inr (.inr trivial)
        | .death :: rest, _ => exact .inl ⟨_, .die hr⟩

theorem exists_step (handler : String → FileTree.Action Failure α) (now : Exchange α) :
    (∃ result, now.foreground = .done result) ∨ ∃ next, Step handler now next := by
  cases hf : now.foreground with
  | done result => exact .inl ⟨result, rfl⟩
  | probing =>
      right
      cases hc : now.channel with
      | cons message rest =>
          cases message with
          | received => exact ⟨_, .notice hf hc⟩
          | finished result => exact ⟨_, .receive (.inl hf) hc⟩
      | nil =>
          obtain step | silent := exists_reader_step handler hc
          · exact step
          · exact ⟨_, .desist hf hc silent⟩
  | waiting =>
      right
      cases hc : now.channel with
      | cons message rest =>
          cases message with
          | received => exact ⟨_, .confuse hf hc⟩
          | finished result => exact ⟨_, .receive (.inr hf) hc⟩
      | nil =>
          obtain step | gone | stalls := exists_reader_step handler hc
          · exact step
          · exact ⟨_, .disconnect hf hc gone⟩
          · exact ⟨_, .timeOut hf hc stalls⟩

/-! ### What holds all along -/

variable (now) in
/-- The announcements that the foreground has acted on or that are on their way. -/
def announcements : Nat :=
  (match now.foreground with
    | .waiting => 1
    | _ => 0) + now.channel.countP Message.isReceived

/-- What every step keeps. -/
structure Orderly (now : Exchange α) : Prop where
  /-- Input is announced once. -/
  announced : now.announcements ≤ 1
  /-- It is not announced before there is any. -/
  unannounced : ∀ events, now.reader = .reading [] events → now.announcements = 0
  /-- The last message is the last thing that the reader does. -/
  concluded : ∀ result, .finished result ∈ now.channel → now.reader = .gone
  /-- The reader does nothing after the foreground is done. -/
  rests : ∀ result, now.foreground = .done result → now.reader = .gone ∨ now.reader.Stalls
  /-- A message on its way has been sent. -/
  counted : now.channel.length ≤ now.sent

theorem orderly_start (events : List ReadEvent) (files : FileTree) :
    (start events files : Exchange α).Orderly where
  announced := Nat.zero_le 1
  unannounced := fun _ _ => rfl
  concluded := fun _ h => absurd h List.not_mem_nil
  rests := fun _ h => nomatch h
  counted := Nat.le_refl 0

/-- A reader that is neither gone nor stalled may go on to anything but the beginning. -/
theorem Orderly.read (h : now.Orderly) (hg : now.reader ≠ .gone) (hs : ¬now.reader.Stalls)
    {reader : ReaderState α}
    (hr : ∀ events, reader = .reading [] events → ∃ events, now.reader = .reading [] events)
    (files : FileTree) (handled : List String) :
    { now with reader, files, handled }.Orderly where
  announced := h.announced
  unannounced := fun events he => (hr events he).elim h.unannounced
  concluded := fun result hm => absurd (h.concluded result hm) hg
  rests := fun result hd => absurd (h.rests result hd) (not_or.2 ⟨hg, hs⟩)
  counted := h.counted

/-- The foreground may take a message and wait on, or give up on a reader that is at rest. -/
theorem Orderly.take (h : now.Orderly) {message : Message α} {rest : List (Message α)}
    (hc : now.channel = message :: rest) {foreground : ForegroundState α}
    (ha : { now with foreground, channel := rest }.announcements ≤ now.announcements)
    (hd : ∀ result, foreground = .done result → now.reader = .gone ∨ now.reader.Stalls) :
    { now with foreground, channel := rest }.Orderly where
  announced := Nat.le_trans ha h.announced
  unannounced := fun events he => Nat.le_zero.1 (h.unannounced events he ▸ ha)
  concluded := fun result hm => h.concluded result (hc ▸ List.mem_cons_of_mem message hm)
  rests := hd
  counted := by
    have := h.counted
    rw [hc, List.length_cons] at this
    exact Nat.le_trans (Nat.le_succ _) this

theorem Orderly.giveUp (h : now.Orderly) (silent : now.reader = .gone ∨ now.reader.Stalls)
    (result : Except Failure (Option α)) : { now with foreground := .done result }.Orderly where
  announced := by
    refine Nat.le_trans ?_ h.announced
    exact Nat.add_le_add_right (Nat.zero_le _) _
  unannounced := fun events he =>
    Nat.le_zero.1 (h.unannounced events he ▸ Nat.add_le_add_right (Nat.zero_le _) _)
  concluded := h.concluded
  rests := fun _ _ => silent
  counted := h.counted

theorem announcements_send (message : Message α) (reader : ReaderState α) :
    (now.send message reader).announcements =
      now.announcements + if message.isReceived then 1 else 0 := by
  simp only [announcements, send, List.countP_append, List.countP_singleton, Nat.add_assoc]

theorem Orderly.send (h : now.Orderly) (hg : now.reader ≠ .gone) (hs : ¬now.reader.Stalls)
    {message : Message α} {reader : ReaderState α}
    (ha : (now.send message reader).announcements ≤ 1) (hu : ∀ events, reader ≠ .reading [] events)
    (hl : ∀ result, message = .finished result → reader = .gone) :
    (now.send message reader).Orderly where
  announced := ha
  unannounced := fun events he => absurd he (hu events)
  concluded := fun result hm => by
    obtain hm | hm := List.mem_append.1 hm
    · exact absurd (h.concluded result hm) hg
    · exact hl result (List.mem_singleton.1 hm).symm
  rests := fun result hd => absurd (h.rests result hd) (not_or.2 ⟨hg, hs⟩)
  counted := by
    have := h.counted
    simp only [Exchange.send, List.length_append, List.length_cons, List.length_nil]
    omega

theorem Step.orderly (step : Step handler now next) (h : now.Orderly) : next.Orderly := by
  cases step with
  | @begin bytes rest reads some room =>
      refine h.send (by simp [reads]) (by simp [reads, ReaderState.Stalls]) ?_ (by simp [some])
        nofun
      rw [announcements_send, h.unannounced _ reads]
      exact Nat.le_refl 1
  | append reads begun some =>
      exact h.read (by simp [reads]) (by simp [reads, ReaderState.Stalls]) (by simp [begun]) _ _
  | retry reads =>
      refine h.read (by simp [reads]) (by simp [reads, ReaderState.Stalls]) ?_ _ _
      rintro events ⟨⟩
      exact ⟨_, reads⟩
  | fail reads => exact h.read (by simp [reads]) (by simp [reads, ReaderState.Stalls]) (by simp) _ _
  | @handle buffer events reads ends begun =>
      exact h.read (by simp [reads]) (reads ▸ not_stalls_of_endsHere ends) (by simp) _ _
  | leave reads ends =>
      exact h.read (by simp [reads]) (reads ▸ not_stalls_of_endsHere ends) (by simp) _ _
  | die reads => exact h.read (by simp [reads]) (by simp [reads, ReaderState.Stalls]) (by simp) _ _
  | conclude reads room =>
      refine h.send (by simp [reads]) (by simp [reads, ReaderState.Stalls]) ?_ (by simp)
        fun _ _ => rfl
      rw [announcements_send]
      exact h.announced
  | notice waits next =>
      refine h.take next ?_ nofun
      simp [announcements, waits, next, List.countP_cons, Message.isReceived, Nat.add_comm]
  | @receive result rest waits next =>
      refine h.take next ?_ fun _ _ => .inl (h.concluded result (by simp [next]))
      simp [announcements, next, Message.isReceived]
  | confuse waits next =>
      have := h.announced
      simp only [announcements, waits, next, List.countP_cons, Message.isReceived, if_true] at this
      omega
  | desist waits next silent => exact h.giveUp silent _
  | disconnect waits next silent => exact h.giveUp (.inl silent) _
  | timeOut waits next silent => exact h.giveUp (.inr silent) _

/-! ### Whole runs -/

variable {events : List ReadEvent} {files : FileTree}

theorem prospect_eq_of_run (run : Relation.ReflTransGen (Step handler) (start events files) now) :
    now.prospect handler = (start events files).prospect handler := by
  induction run with
  | refl => rfl
  | tail run step ih => rw [step.prospect_eq, ih]

theorem orderly_of_run (run : Relation.ReflTransGen (Step handler) (start events files) now) :
    now.Orderly := by
  induction run with
  | refl => exact orderly_start events files
  | tail run step ih => exact step.orderly ih

/-- What lies ahead at the start is what the session comes to. -/
theorem prospect_start (handler : String → FileTree.Action Failure α) (events : List ReadEvent)
    (files : FileTree) :
    ∃ sent ≤ 2, (start events files).prospect handler =
      { result := (ended (outcome handler (gathered events) (endingOf events) files)).1
        files := (ended (outcome handler (gathered events) (endingOf events) files)).2
        handled := calls (gathered events) (endingOf events)
        sent } := by
  by_cases hg : gathered events = []
  · rw [prospect, start, remainder_of_gathered_eq_nil hg, hg]
    cases endingOf events with
    | input => exact ⟨0, Nat.zero_le 2, rfl⟩
    | failed cause => exact ⟨1, Nat.le_succ 1, rfl⟩
    | stalled => exact ⟨0, Nat.zero_le 2, rfl⟩
    | died => exact ⟨0, Nat.zero_le 2, rfl⟩
  · rw [prospect, start, remainder_of_gathered_ne_nil hg]
    cases endingOf events with
    | input =>
        refine ⟨2, Nat.le_refl 2, ?_⟩
        rw [Remainder.atEnding, if_neg hg, outcome, if_neg hg, ended_map_some, calls,
          if_pos ⟨rfl, hg⟩]
        rfl
    | failed cause => exact ⟨2, Nat.le_refl 2, rfl⟩
    | stalled =>
        refine ⟨1, Nat.le_succ 1, ?_⟩
        rw [Remainder.atEnding, outcome, if_neg hg]
        rfl
    | died =>
        refine ⟨1, Nat.le_succ 1, ?_⟩
        rw [Remainder.atEnding, outcome, if_neg hg]
        rfl

theorem sent_le_two (run : Relation.ReflTransGen (Step handler) (start events files) now) :
    now.sent + (now.reader.remainder handler now.files).messages.length ≤ 2 := by
  obtain ⟨sent, hs, hp⟩ := prospect_start handler events files
  have h : (now.prospect handler).sent = sent := by rw [prospect_eq_of_run run, hp]
  exact Nat.le_trans (Nat.le_of_eq h) hs

theorem room_of_sends (run : Relation.ReflTransGen (Step handler) (start events files) now)
    (hs : now.reader.Sends) : now.channel.length < capacity := by
  have hm : 1 ≤ (now.reader.remainder handler now.files).messages.length :=
    hs.one_le_length_messages
  have hc := (orderly_of_run run).counted
  have hn := sent_le_two run
  unfold capacity
  omega

/-- Once the foreground is done, nothing lies ahead. -/
theorem prospect_of_done (handler : String → FileTree.Action Failure α) {now : Exchange α}
    (h : now.Orderly) {result : Except Failure (Option α)} (hd : now.foreground = .done result) :
    ∃ sent, now.prospect handler =
      { result, files := now.files, handled := now.handled, sent } := by
  obtain gone | stalls := h.rests result hd
  · rw [prospect, hd, gone]
    exact ⟨_, by simp only [ReaderState.remainder, List.append_nil]; rfl⟩
  · rw [prospect, hd, stalls.remainder_eq]
    exact ⟨_, by simp only [List.append_nil]; rfl⟩

/-- Whatever order the two parties take their steps in, they come to the handler's result on all of
the data, or to why it was not called. How the data was cut up, and reads that were tried again,
make no difference, and no message ever waits for room. -/
theorem exchange_settled_by_data (handler : String → FileTree.Action Failure α)
    (events : List ReadEvent) :
    session handler events = outcome handler (gathered events) (endingOf events) ∧
    (∀ front bytes more back, bytes ≠ [] → more ≠ [] →
      events = front ++ .data (bytes ++ more) :: back →
      session handler (front ++ .data bytes :: .data more :: back) = session handler events) ∧
    (∀ front back, events = front ++ back →
      session handler (front ++ .interrupted :: back) = session handler events) ∧
    WellFounded (fun next now : Exchange α => Step handler now next) ∧
    ∀ files now, Relation.ReflTransGen (Step handler) (start events files) now →
      ((∃ result, now.foreground = .done result) ∨ ∃ next, Step handler now next) ∧
      now.sent ≤ 2 ∧ (now.reader.Sends → now.channel.length < capacity) ∧
      ∀ result, now.foreground = .done result →
        ended (session handler events files) = (result, now.files) ∧
        now.handled = calls (gathered events) (endingOf events) := by
  refine ⟨session_eq_outcome handler events, ?_, ?_, wellFounded_step handler, ?_⟩
  · rintro front bytes more back hb hm rfl
    obtain ⟨hg, he⟩ := gathered_split hb hm back
    obtain ⟨hg, he⟩ := gathered_append_congr hg he front
    rw [session_eq_outcome, session_eq_outcome, hg, he]
  · rintro front back rfl
    obtain ⟨hg, he⟩ := gathered_append_congr gathered_interrupted endingOf_interrupted front
    rw [session_eq_outcome, session_eq_outcome, hg, he]
  · intro files now run
    refine ⟨exists_step handler now, Nat.le_trans (Nat.le_add_right _ _) (sent_le_two run),
      room_of_sends run, ?_⟩
    intro result hd
    obtain ⟨sent, -, hs⟩ := prospect_start handler events files
    obtain ⟨last, hl⟩ := prospect_of_done handler (orderly_of_run run) hd
    have h := hl.symm.trans ((prospect_eq_of_run run).trans hs)
    injection h with hr hf hh
    rw [session_eq_outcome, hr, hf]
    exact ⟨rfl, hh⟩

/-- A character that arrives in two reads, with one to be tried again between them. -/
theorem exchange_settled_by_data_split_character :
    ∃ now : Exchange String,
      Relation.ReflTransGen (Step fun text => pure text)
        (start [.data [0xC3], .interrupted, .data [0xA9]] {}) now ∧
      now.foreground = .done (.ok (some "é")) ∧ now.handled = ["é"] ∧
      ended (session (fun text => pure text) [.data [0xC3], .interrupted, .data [0xA9]] {}) =
        (.ok (some "é"), now.files) := by
  have decoded : Text.decodeLossy ([0xC3] ++ [0xA9]) = "é" := by decide +kernel
  have run : Relation.ReflTransGen (Step fun text => pure text)
      (start [.data [0xC3], .interrupted, .data [0xA9]] {})
      { reader := .gone, foreground := .done (.ok (some (Text.decodeLossy ([0xC3] ++ [0xA9])))),
        files := {}, handled := [Text.decodeLossy ([0xC3] ++ [0xA9])], sent := 2 } :=
    .head (.begin rfl (by decide) (by decide)) <| .head (.notice rfl rfl) <| .head (.retry rfl) <|
      .head (.append rfl (by decide) (by decide)) <| .head (.handle rfl rfl (by decide)) <|
        .head (.conclude rfl (by decide)) <|
          .single (@Step.receive _ _ _ (.ok (Text.decodeLossy ([0xC3] ++ [0xA9]))) _ (.inr rfl) rfl)
  rw [decoded] at run
  obtain ⟨-, -, -, hd⟩ := (exchange_settled_by_data _ _).2.2.2.2 _ _ run
  obtain ⟨hs, -⟩ := hd _ rfl
  exact ⟨_, run, rfl, rfl, hs⟩

end Exchange
end SourceStyle.StandardInput
