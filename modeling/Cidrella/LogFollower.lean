import Cidrella.Address
import Cidrella.Lib.ByteLines

/-!
# Following a log

`readLogTail` and `createLogFollower` of `utils/log-reader.js`. A follower keeps one offset. A
read returns the lines that have ended since, at most so many bytes of them, and leaves the
offset behind a newline. A log that moves to a new file is read from that file's start.

The file that was followed is not read again once the log has moved. A follower has returned
what was written, in order and once each, in every history in which the log moves only when
that file's lines have been read (`follower_loses_nothing`), and enough reads catch up with a
file whose lines are shorter than one read (`catches_up`).
-/

set_option autoImplicit false

namespace Cidrella

namespace LogFollower

open ByteLines

abbrev Bytes := List UInt8

/-- `DEFAULT_MAX_READ_BYTES`. -/
def defaultMaxReadBytes : Nat := 10 * 1024 * 1024

/-- `{ lines, newOffset }`. -/
structure Tail where
  lines : List Text
  newOffset : Nat
  deriving DecidableEq, Repr

/-- `lines.filter((l) => l.trim())`. -/
def nonBlank (lines : List Text) : List Text := lines.filter fun l => Address.trim l ≠ []

/-- `readLogTail`, for the file if it is there and can be opened. -/
def readLogTail (content : Option Bytes) (opens : Bool) (offset maxBytes : Nat) : Tail :=
  match content with
  | none => ⟨[], 0⟩
  | some bytes =>
    let offset := if bytes.length < offset then 0 else offset
    if bytes.length = offset ∨ opens = false then ⟨[], offset⟩
    else
      match beforeLastNewline ((bytes.drop offset).take maxBytes) with
      | none => ⟨[], offset⟩
      | some whole => ⟨nonBlank ((Utf8.decode whole).splitOn '\n'), offset + whole.length + 1⟩

/-- A backend's log: the file its `path` names, if it names one, and what is in that file, if it is
there. -/
structure Source where
  path : Option Nat
  content : Option Bytes
  unnamed : path = none → content = none

/-- The variables of a follower. -/
structure Follower where
  file : Option Nat
  offset : Nat
  deriving DecidableEq, Repr

/-- The bytes of the file. -/
def Source.bytes (source : Source) : Bytes := source.content.getD []

/-- `createLogFollower`. -/
def createLogFollower (source : Source) : Follower := ⟨source.path, source.bytes.length⟩

/-- `read()`. -/
def read (source : Source) (opens : Bool) (follower : Follower) : Follower × List Text :=
  let followed := if source.path ≠ follower.file then ⟨source.path, 0⟩ else follower
  if source.path = none then (followed, [])
  else
    let tail := readLogTail source.content opens followed.offset defaultMaxReadBytes
    (⟨followed.file, tail.newOffset⟩, tail.lines)

/-- A log, its follower, and what the follower returned. Of the file it follows and of the earlier
ones, the bytes there were when the follower was created, and for an earlier one its bytes. -/
structure Log where
  source : Source
  follower : Follower
  atCreation : Nat
  closed : List (Nat × Bytes) := []
  returned : List Text := []

/-- What can happen to a log. A log moves to a file that was not there before. -/
inductive Event where
  | append (bytes : Bytes)
  | switch
  | read (opens : Bool)
  deriving DecidableEq

def Source.append (source : Source) (bytes : Bytes) : Source :=
  if named : source.path = none then source
  else ⟨source.path, some (source.bytes ++ bytes), fun none => absurd none named⟩

def Source.moved (source : Source) : Source := ⟨some (source.path.elim 0 (· + 1)), none, nofun⟩

def apply (log : Log) : Event → Log
  | .append bytes => { log with source := log.source.append bytes }
  | .switch =>
    { log with
      source     := log.source.moved
      atCreation := 0
      closed     := log.closed ++ [(log.atCreation, log.source.bytes)] }
  | .read opens =>
    let (follower, lines) := read log.source opens log.follower
    { log with
      follower := follower
      returned := log.returned ++ lines }

/-- A log with a new follower. -/
def start (source : Source) : Log where
  source := source
  follower := createLogFollower source
  atCreation := source.bytes.length

/-- A history of the log. -/
def run (source : Source) (events : List Event) : Log := events.foldl apply (start source)

/-! ## What was written -/

/-- The lines that have ended, as a read returns them. -/
def linesOf (bytes : Bytes) : List Text := nonBlank ((completeLines bytes).map Utf8.decode)

/-- The lines of what was written to a file since the follower was created. -/
def since (file : Nat × Bytes) : List Text := linesOf (file.2.drop file.1)

/-- The lines of a file that have ended since the follower was created. -/
def ended (file : Nat × Bytes) : List Text :=
  (linesOf file.2).drop (linesOf (file.2.take file.1)).length

/-- The files since the follower was created. -/
def Log.files (log : Log) : List (Nat × Bytes) := log.closed ++ [(log.atCreation, log.source.bytes)]

def Log.writtenSince (log : Log) : List Text := log.files.flatMap since

def Log.endedSince (log : Log) : List Text := log.files.flatMap ended

/-- How far the follower is in the file the log is in now. -/
def Log.position (log : Log) : Nat := if log.follower.file = log.source.path
    then log.follower.offset else 0

/-- The follower has read every line of the file that has ended. -/
def Log.CaughtUp (log : Log) : Prop :=
  log.follower.file = log.source.path ∧ 0x0a ∉ log.source.bytes.drop log.follower.offset

/-- No line of the file is left that a read would return. -/
def Log.Drained (log : Log) : Prop := linesOf (log.source.bytes.drop log.position) = []

instance (log : Log) : Decidable log.Drained := inferInstanceAs (Decidable (_ = _))

/-! ## One read -/

section

variable {bytes front : Bytes}

theorem linesOf_append (whole : AtLineStart front) (back : Bytes) :
    linesOf (front ++ back) = linesOf front ++ linesOf back := by
  rw [linesOf, completeLines_append whole, List.map_append, nonBlank, List.filter_append]
  rfl

theorem linesOf_of_not_mem (whole : 0x0a ∉ bytes) : linesOf bytes = [] := by
  rw [linesOf, completeLines_of_not_mem whole]
  rfl

theorem linesOf_newline (front : Bytes) :
    linesOf (front ++ [0x0a]) = nonBlank ((Utf8.decode front).splitOn '\n') := by
  rw [linesOf, completeLines_newline, Utf8.splitOn_decode]

/-- The bytes from one position to another. -/
def segment (bytes : Bytes) (first last : Nat) : Bytes := (bytes.take last).drop first

theorem segment_append {first middle last : Nat} (order : first ≤ middle) (order' : middle ≤ last)
    (inside : last ≤ bytes.length) :
    segment bytes first middle ++ segment bytes middle last = segment bytes first last := by
  have parts : bytes.take last = bytes.take middle ++ (bytes.take last).drop middle := by
    have cut := List.take_append_drop middle (bytes.take last)
    rw [List.take_take, Nat.min_eq_left order'] at cut
    exact cut.symm
  rw [segment, segment, segment]
  conv_rhs => rw [parts]
  rw [List.drop_append_of_le_length]
  rw [List.length_take]
  omega

theorem segment_length (bytes : Bytes) (first : Nat) : segment bytes first bytes.length =
    bytes.drop first := by
  rw [segment, List.take_length]

theorem segment_self (bytes : Bytes) (offset : Nat) : segment bytes offset offset = [] := by
  rw [segment, List.drop_eq_nil_iff, List.length_take]
  exact Nat.min_le_left _ _

/-- **A read returns the lines it passes over**, and stops behind a newline. -/
theorem readLogTail_spec {content : Option Bytes} {opens : Bool} {offset maxBytes : Nat}
    (inside : offset ≤ (content.getD []).length) :
    let tail := readLogTail content opens offset maxBytes
    offset ≤ tail.newOffset ∧ tail.newOffset ≤ (content.getD []).length ∧
      AtLineStart (segment (content.getD []) offset tail.newOffset) ∧
      tail.lines = linesOf (segment (content.getD []) offset tail.newOffset) := by
  cases content with
  | none =>
    obtain rfl : offset = 0 := Nat.le_zero.mp inside
    exact ⟨le_refl _, le_refl _, .inl rfl, rfl⟩
  | some bytes =>
    rw [Option.getD_some] at inside ⊢
    simp only [readLogTail, if_neg (Nat.not_lt.mpr inside)]
    have still : offset ≤ offset ∧ offset ≤ bytes.length ∧
        AtLineStart (segment bytes offset offset) ∧ [] = linesOf (segment bytes offset offset) := by
      rw [segment_self]
      exact ⟨le_refl _, inside, .inl rfl, rfl⟩
    split
    · exact still
    · split
      · exact still
      · rename_i whole found
        obtain ⟨back, parts⟩ := exists_of_beforeLastNewline found
        have passed : segment bytes offset (offset + whole.length + 1) = whole ++ [0x0a] := by
          have more : (bytes.drop offset).take (whole.length + 1) = whole ++ [0x0a] := by
            have front := List.take_prefix maxBytes (bytes.drop offset)
            have cut : whole ++ [0x0a] <+: bytes.drop offset := by
              refine List.IsPrefix.trans ⟨back, ?_⟩ front
              rw [parts, List.append_assoc]
              rfl
            have taken := List.prefix_iff_eq_take.mp cut
            rw [List.length_append, List.length_singleton] at taken
            exact taken.symm
          rw [segment, List.drop_take, Nat.add_assoc, Nat.add_sub_cancel_left, more]
        have reach : offset + whole.length + 1 ≤ bytes.length := by
          have length := congrArg List.length parts
          simp only [List.length_take, List.length_drop, List.length_append,
            List.length_cons] at length
          omega
        rw [passed]
        exact ⟨Nat.le_succ_of_le (Nat.le_add_right _ _), reach, .inr ⟨whole, rfl⟩,
          (linesOf_newline whole).symm⟩

end

/-! ## Histories -/

/-- What holds of every history in which the log moves only from files that were read: the follower
is behind a newline, or where it began, and has returned what was written up to there. -/
structure Following (log : Log) : Prop where
  named : ∀ n ∈ log.follower.file, ∃ m ∈ log.source.path, n ≤ m
  began : log.atCreation ≤ log.position
  inside : log.position ≤ log.source.bytes.length
  whole : AtLineStart (segment log.source.bytes log.atCreation log.position)
  returned : log.returned =
    log.closed.flatMap since ++ linesOf (segment log.source.bytes log.atCreation log.position)

section

variable {log : Log}

theorem following_start (source : Source) : Following (start source) := by
  have place : (start source).position = source.bytes.length := if_pos rfl
  refine ⟨fun n named => ⟨n, named, le_refl n⟩, ?_, ?_, ?_, ?_⟩ <;> rw [place]
  · rfl
  · rfl
  · exact .inl (segment_self _ _)
  · exact (congrArg linesOf (segment_self source.bytes source.bytes.length)).symm

theorem Following.written (held : Following log) :
    log.writtenSince = log.returned ++ linesOf (log.source.bytes.drop log.position) := by
  have cut := segment_append held.began held.inside (le_refl _)
  rw [segment_length, segment_length] at cut
  rw [Log.writtenSince, Log.files, List.flatMap_append, List.flatMap_singleton, held.returned,
    since, ← cut, linesOf_append held.whole, List.append_assoc]

theorem Source.path_append (source : Source) (bytes : Bytes) :
    (source.append bytes).path = source.path := by
  rw [Source.append]
  split <;> rfl

theorem Source.exists_append (source : Source) (bytes : Bytes) :
    ∃ more, (source.append bytes).bytes = source.bytes ++ more := by
  rw [Source.append]
  split
  · exact ⟨[], (List.append_nil _).symm⟩
  · exact ⟨bytes, rfl⟩

theorem segment_of_append {bytes more : Bytes} {first last : Nat} (inside : last ≤ bytes.length) :
    segment (bytes ++ more) first last = segment bytes first last := by
  rw [segment, List.take_append_of_le_length inside, segment]

theorem Following.append (held : Following log) (bytes : Bytes) :
    Following (apply log (.append bytes)) := by
  obtain ⟨more, grown⟩ := log.source.exists_append bytes
  have place : (apply log (.append bytes)).position = log.position := by
    simp only [Log.position, apply, Source.path_append]
  have same := @segment_of_append _ more log.atCreation _ held.inside
  refine ⟨?_, ?_, ?_, ?_, ?_⟩
  · simp only [apply, Source.path_append]
    exact held.named
  · rw [place]
    exact held.began
  · rw [place]
    simp only [apply, grown, List.length_append]
    exact Nat.le_add_right_of_le held.inside
  · rw [place]
    simp only [apply, grown, same]
    exact held.whole
  · rw [place]
    simp only [apply, grown, same]
    exact held.returned

theorem Following.path_moved (held : Following log) :
    log.follower.file ≠ log.source.moved.path := by
  intro same
  obtain ⟨m, named, small⟩ := held.named _ same
  rw [Option.mem_def] at named
  rw [named] at small
  exact absurd small (Nat.not_succ_le_self m)

theorem Following.switch (held : Following log) (drained : log.Drained) :
    Following (apply log .switch) := by
  have place : (apply log .switch).position = 0 := if_neg held.path_moved
  have written := held.written
  rw [drained, List.append_nil] at written
  refine ⟨fun n named => ?_, ?_, ?_, ?_, ?_⟩
  · obtain ⟨m, path, small⟩ := held.named n named
    refine ⟨m + 1, ?_, Nat.le_succ_of_le small⟩
    simp only [apply, Source.moved, Option.mem_def.mp path]
    rfl
  · rw [place]
    exact le_refl 0
  · rw [place]
    exact Nat.zero_le _
  · rw [place]
    exact .inl rfl
  · rw [place]
    have closed : (log.closed ++ [(log.atCreation, log.source.bytes)]).flatMap since =
        log.returned := written
    simp only [apply]
    rw [closed]
    exact (List.append_nil _).symm

theorem read_eq (log : Log) (opens : Bool) :
    let tail := readLogTail log.source.content opens log.position defaultMaxReadBytes
    read log.source opens log.follower =
      if log.source.path = none then (⟨log.source.path, log.position⟩, [])
      else (⟨log.source.path, tail.newOffset⟩, tail.lines) := by
  have followed : (if log.source.path ≠ log.follower.file then ⟨log.source.path, 0⟩
      else log.follower) = (⟨log.source.path, log.position⟩ : Follower) := by
    rw [Log.position]
    by_cases same : log.follower.file = log.source.path
    · rw [if_neg (not_not.mpr same.symm), if_pos same, ← same]
    · rw [if_pos (Ne.symm same), if_neg same]
  simp only [read, followed]

theorem source_read (log : Log) (opens : Bool) : (apply log (.read opens)).source = log.source :=
  rfl

theorem file_read (log : Log) (opens : Bool) : (apply log (.read opens)).follower.file =
    log.source.path := by
  simp only [apply, read_eq]
  split <;> rfl

theorem position_read (log : Log) (opens : Bool) : (apply log (.read opens)).position =
    if log.source.path = none then log.position
    else (readLogTail log.source.content opens log.position defaultMaxReadBytes).newOffset := by
  have current : (apply log (.read opens)).follower.file = (apply log (.read opens)).source.path :=
    file_read log opens
  rw [Log.position, if_pos current]
  simp only [apply, read_eq]
  split <;> rfl

theorem returned_read (log : Log) (opens : Bool) : (apply log (.read opens)).returned =
    if log.source.path = none then log.returned
    else log.returned ++
        (readLogTail log.source.content opens log.position defaultMaxReadBytes).lines := by
  simp only [apply, read_eq]
  split
  · exact List.append_nil _
  · rfl

theorem Following.read (held : Following log) (opens : Bool) :
    Following (apply log (.read opens)) := by
  have followed : ∀ n ∈ (apply log (.read opens)).follower.file, ∃ m ∈ log.source.path, n ≤ m :=
    fun n file => by
    rw [file_read] at file
    exact ⟨n, file, le_refl n⟩
  by_cases unnamed : log.source.path = none
  · -- there is no file, and nothing to read of it
    have place := position_read log opens
    rw [if_pos unnamed] at place
    refine ⟨followed, ?_, ?_, ?_, ?_⟩ <;> rw [place]
    · exact held.began
    · exact held.inside
    · exact held.whole
    · rw [returned_read, if_pos unnamed]
      exact held.returned
  · have spec := @readLogTail_spec log.source.content opens log.position
      defaultMaxReadBytes held.inside
    rw [show log.source.content.getD [] = log.source.bytes from rfl] at spec
    have place := position_read log opens
    have lines := returned_read log opens
    rw [if_neg unnamed] at place lines
    generalize readLogTail log.source.content opens log.position defaultMaxReadBytes =
      t at spec place lines
    obtain ⟨further, inside, whole, passed⟩ := spec
    have joined := segment_append held.began further inside
    refine ⟨followed, ?_, ?_, ?_, ?_⟩ <;> rw [place]
    · exact held.began.trans further
    · exact inside
    · rw [source_read]
      exact joined ▸ held.whole.append whole
    · rw [source_read, lines, held.returned, passed, List.append_assoc, ← linesOf_append held.whole,
        joined]
      rfl

/-- **Every event keeps it**, a move from files that were read. -/
theorem Following.apply (held : Following log) (event : Event) (drained : event = .switch →
    log.Drained) :
    Following (apply log event) := by
  cases event with
  | append bytes => exact held.append bytes
  | switch => exact held.switch (drained rfl)
  | read opens => exact held.read opens

end

theorem run_concat (source : Source) (events : List Event) (event : Event) :
    run source (events ++ [event]) = apply (run source events) event := by
  rw [run, List.foldl_append]
  rfl

/-- The log moves only when the lines of its file have been read. -/
def MovesDrained (source : Source) (events : List Event) : Prop :=
  ∀ n < events.length, events[n]? = some .switch → (run source (events.take n)).Drained

theorem following_run {source : Source} {events : List Event}
    (drained : MovesDrained source events) :
    Following (run source events) := by
  induction events using List.reverseRecOn with
  | nil => exact following_start source
  | append_singleton events event ih =>
    have longer : (events ++ [event]).length = events.length + 1 := by simp
    have earlier : MovesDrained source events := by
      intro n inside switch
      have now := drained n (by omega)
      rw [List.getElem?_append_left inside, List.take_append_of_le_length
        (Nat.le_of_lt inside)] at now
      exact now switch
    rw [run_concat]
    refine (ih earlier).apply event fun switch => ?_
    have now := drained events.length (by omega)
    rw [List.getElem?_concat_length, List.take_left] at now
    exact now (congrArg some switch)

/-! ## Nothing lost, nothing twice -/

/-- The bytes there were when the follower was created end a line, in each file. -/
def LinesWhole (log : Log) : Prop :=
  ∀ file ∈ log.files, file.1 ≤ file.2.length ∧ AtLineStart (file.2.take file.1)

theorem since_eq_ended {file : Nat × Bytes} (whole : AtLineStart (file.2.take file.1)) :
    since file = ended file := by
  have lines := linesOf_append whole (file.2.drop file.1)
  rw [List.take_append_drop] at lines
  rw [ended, lines, List.drop_left]
  rfl

theorem linesWhole_start {source : Source} (whole : AtLineStart source.bytes) :
    LinesWhole (start source) := by
  intro file member
  rw [List.mem_singleton.mp member]
  refine ⟨le_refl _, ?_⟩
  simp only [start, List.take_length]
  exact whole

theorem LinesWhole.apply {log : Log} (held : LinesWhole log) (event : Event) :
    LinesWhole (apply log event) := by
  have now := held (log.atCreation, log.source.bytes) (List.mem_append_right _ List.mem_cons_self)
  cases event with
  | append bytes =>
    intro file member
    rcases List.mem_append.mp member with earlier | current
    · exact held file (List.mem_append_left _ earlier)
    · rw [List.mem_singleton.mp current]
      obtain ⟨more, grown⟩ := log.source.exists_append bytes
      simp only [LogFollower.apply, grown, List.length_append]
      refine ⟨Nat.le_add_right_of_le now.1, ?_⟩
      rw [List.take_append_of_le_length now.1]
      exact now.2
  | switch =>
    intro file member
    rcases List.mem_append.mp member with earlier | current
    · exact held file earlier
    · rw [List.mem_singleton.mp current]
      exact ⟨le_refl 0, .inl rfl⟩
  | read opens => exact held

theorem linesWhole_run {source : Source} (whole : AtLineStart source.bytes) (events : List Event) :
    LinesWhole (run source events) := by
  induction events using List.reverseRecOn with
  | nil => exact linesWhole_start whole
  | append_singleton events event ih =>
    rw [run_concat]
    exact ih.apply event

/-- **A follower has returned what was written, in order and once each**, and all of it once it has
caught up, when the log moves only from files whose lines were read. Created at the end of a
line, it returns whole lines. -/
theorem follower_loses_nothing (source : Source) (events : List Event)
    (drained : MovesDrained source events) :
    (run source events).returned <+: (run source events).writtenSince ∧
      ((run source events).CaughtUp → (run source events).returned =
      (run source events).writtenSince) ∧
      (AtLineStart source.bytes → (run source events).writtenSince =
      (run source events).endedSince) := by
  have held := following_run drained
  refine ⟨?_, fun ⟨current, ended⟩ => ?_, fun whole => ?_⟩
  · exact ⟨_, held.written.symm⟩
  · have place : (run source events).position = (run source events).follower.offset :=
      if_pos current
    rw [held.written, place, linesOf_of_not_mem ended, List.append_nil]
  · exact List.flatMap_congr fun file member => since_eq_ended
      (linesWhole_run whole events file member).2

/-- A file with a line, read before the log moves. -/
def readThenMoved : List Event :=
  [.append [0x61, 0x0a], .read true, .switch, .append [0x62, 0x0a], .read true]

/-- No file yet. -/
def absent : Source := ⟨some 0, none, nofun⟩

theorem follower_loses_nothing_readThenMoved :
    (run absent readThenMoved).returned <+: (run absent readThenMoved).writtenSince ∧
      ((run absent readThenMoved).CaughtUp →
        (run absent readThenMoved).returned = (run absent readThenMoved).writtenSince) ∧
      (AtLineStart absent.bytes →
        (run absent readThenMoved).writtenSince = (run absent readThenMoved).endedSince) :=
  follower_loses_nothing absent readThenMoved (by unfold MovesDrained; decide)

/-- A line that ended just before the log moved is never returned. -/
theorem moved_log_loses_a_line : ¬ ∀ (source : Source) (events : List Event),
    AtLineStart source.bytes → (run source events).CaughtUp → (run source events).returned =
    (run source events).endedSince := fun all =>
  absurd (all absent [.append [0x61, 0x0a], .switch, .read true] (.inl rfl) ⟨rfl, by decide⟩)
    (by decide)

/-! ## Catching up -/

/-- Every line, ended or not, is shorter than one read. -/
def ShortLines (bytes : Bytes) : Prop :=
  ∀ front line back, bytes = front ++ line ++ back → 0x0a ∉ line → line.length < defaultMaxReadBytes

theorem newOffset_gt {bytes : Bytes} {offset : Nat} (short : ShortLines bytes)
    (left : 0x0a ∈ bytes.drop offset) :
    offset < (readLogTail (some bytes) true offset defaultMaxReadBytes).newOffset := by
  have inside : offset < bytes.length := by
    by_contra past
    rw [List.drop_eq_nil_of_le (Nat.not_lt.mp past)] at left
    exact List.not_mem_nil left
  obtain ⟨line, back, parts, whole⟩ := List.eq_append_cons_of_mem left
  have fits : line.length < defaultMaxReadBytes := by
    refine short (bytes.take offset) line (0x0a :: back) ?_ whole
    rw [List.append_assoc, ← parts, List.take_append_drop]
  have seen : 0x0a ∈ (bytes.drop offset).take defaultMaxReadBytes := by
    obtain ⟨more, room⟩ := Nat.exists_eq_add_of_lt fits
    rw [parts, List.take_append, List.mem_append]
    right
    rw [room, show line.length + more + 1 - line.length = more + 1 by omega, List.take_succ_cons]
    exact List.mem_cons_self
  simp only [readLogTail, if_neg (Nat.not_lt.mpr inside.le)]
  rw [if_neg (by simp only [Bool.true_eq_false, or_false]; omega)]
  split
  · rename_i none
    exact absurd seen (beforeLastNewline_eq_none.mp none)
  · exact Nat.lt_succ_of_le (Nat.le_add_right _ _)

/-- **Enough reads catch up** with a file whose lines are shorter than one read. -/
theorem catches_up {log : Log} (held : Following log) (short : ShortLines log.source.bytes) :
    ∃ n, ((fun log => apply log (.read true))^[n] log).CaughtUp := by
  by_cases left : 0x0a ∈ log.source.bytes.drop log.position
  · have there : ∃ bytes, log.source.content = some bytes := by
      cases content : log.source.content with
      | none =>
        have nothing : log.source.bytes = [] := by rw [Source.bytes, content]; rfl
        rw [nothing, List.drop_nil] at left
        exact absurd left List.not_mem_nil
      | some bytes => exact ⟨bytes, rfl⟩
    obtain ⟨bytes, content⟩ := there
    have named : log.source.path ≠ none := fun none => by
      rw [log.source.unnamed none] at content
      cases content
    have same : log.source.bytes = bytes := by rw [Source.bytes, content]; rfl
    have further : log.position < (apply log (.read true)).position := by
      rw [position_read, if_neg named, content]
      exact newOffset_gt (same ▸ short) (same ▸ left)
    have inside := (held.read true).inside
    rw [source_read] at inside
    have fewer : (apply log (.read true)).source.bytes.length - (apply log (.read true)).position <
        log.source.bytes.length - log.position := by
      rw [source_read]
      omega
    obtain ⟨n, caught⟩ := catches_up (held.read true) short
    exact ⟨n + 1, caught⟩
  · refine ⟨1, file_read log true, fun member => left ?_⟩
    have place : (apply log (.read true)).position = (apply log (.read true)).follower.offset :=
      if_pos (file_read log true)
    have further : log.position ≤ (apply log (.read true)).position := by
      rw [position_read]
      split
      · exact le_refl _
      · exact (readLogTail_spec held.inside).1
    rw [place] at further
    exact (List.drop_suffix_drop_left _ further).subset member
termination_by log.source.bytes.length - log.position

theorem run_reads (source : Source) (events : List Event) (n : ℕ) :
    run source (events ++ List.replicate n (.read true)) =
      (fun log => apply log (.read true))^[n] (run source events) := by
  induction n generalizing events with
  | zero => rw [List.replicate_zero, List.append_nil, Function.iterate_zero, id]
  | succ n ih =>
    rw [List.replicate_succ, ← List.singleton_append, ← List.append_assoc, ih, run_concat,
      Function.iterate_succ_apply]

/-- **Whatever the history, enough reads return everything that was written**, when the log moved
only from files whose lines were read and no line is as long as a read. -/
theorem reads_return_everything (source : Source) (events : List Event)
    (drained : MovesDrained source events) (short : ShortLines (run source events).source.bytes) :
    ∃ n, (run source (events ++ List.replicate n (.read true))).CaughtUp ∧
      (run source (events ++ List.replicate n (.read true))).returned =
        (run source (events ++ List.replicate n (.read true))).writtenSince := by
  have held (n : ℕ) : Following ((fun log => apply log (.read true))^[n] (run source events)) := by
    induction n with
    | zero => exact following_run drained
    | succ n ih =>
      rw [Function.iterate_succ_apply']
      exact ih.read true
  obtain ⟨n, caught⟩ := catches_up (following_run drained) short
  refine ⟨n, ?_⟩
  rw [run_reads]
  refine ⟨caught, ?_⟩
  rw [(held n).written, Log.position, if_pos caught.1, linesOf_of_not_mem caught.2, List.append_nil]

/-- A line is read, the log moves, and of two lines that are written a read misses both. -/
def movedThenMissed : List Event :=
  [.append [0x61, 0x0a], .read true, .switch, .append [0x62, 0x0a], .read false, .append
    [0x63, 0x0a]]

theorem reads_return_everything_absent : ∃ n,
    (run absent (movedThenMissed ++ List.replicate n (.read true))).CaughtUp ∧
      (run absent (movedThenMissed ++ List.replicate n (.read true))).returned =
        (run absent (movedThenMissed ++ List.replicate n (.read true))).writtenSince := by
  refine reads_return_everything absent movedThenMissed (by unfold MovesDrained; decide) ?_
  intro front line back parts _
  have length := congrArg List.length parts
  rw [List.length_append, List.length_append] at length
  have all : (run absent movedThenMissed).source.bytes.length = 4 := rfl
  rw [defaultMaxReadBytes]
  omega

end LogFollower

end Cidrella
