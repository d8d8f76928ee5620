import VoxPopuli.Lib.EditLine
import VoxPopuli.Lib.Runs
import VoxPopuli.Telnet.Completion
import VoxPopuli.Telnet.RawInput
import VoxPopuli.Telnet.Session

/-! # The line editor of a friendly session

`processInput` keeps the line, the cursor, the lines entered so far and the place among them
which was recalled last. The constructor leaves that place as it is, so until a first line has
been entered the keys which recall one go by whatever was there.
-/

namespace VoxPopuli

namespace QString

/-- `insert`; behind the end the text is filled up with spaces. -/
def insert (s : QString) (i : Int) (t : QString) : QString :=
  if i < 0 then s
  else s.take i.toNat ++ List.replicate (i.toNat - s.length) (' ' : QChar) ++ t ++ s.drop i.toNat

/-- `remove(pos, 1)`; a negative position counts from the end. -/
def removeAt (s : QString) (pos : Int) : QString :=
  let pos := if pos < 0 then pos + s.length else pos
  if 0 ≤ pos ∧ pos < s.length then s.eraseIdx pos.toNat else s

end QString

/-- What a step of a session meets: the models, and whether the last completion was less than
    a second ago. -/
structure Circumstances (Node : Type) extends Models Node where
  networkHelp : HelpTree Node
  eventHelp : HelpTree Node
  network_help : networkHelp.toJSonTree = network
  event_help : eventHelp.toJSonTree = eventModel
  completing : Bool
  fuel : Nat

/-- `TelnetSocket::model` with its help. -/
def Circumstances.helpModel {Node : Type} (env : Circumstances Node) :
    TelnetMode → Option (HelpTree Node)
  | .basic => none
  | .network => some env.networkHelp
  | .eventsProcessor => some env.eventHelp
  | .application => none

namespace TelnetSession

/-! ## The line and the cursor -/

def moveTelnetCursor (s : TelnetSession) (toLeft : Bool) : TelnetSession :=
  if toLeft then s.telnetWrite "\x1B[C" else s.telnetWrite "\x1B[D"

/-- `moveCursor(bool)`: `toLeft` moves to the right. -/
def moveCursor (s : TelnetSession) (toLeft : Bool) : Bool × TelnetSession :=
  if toLeft then
    if s.currentLine.length ≤ s.linePos then (false, s)
    else (true, { s with linePos := s.linePos + 1 }.moveTelnetCursor toLeft)
  else
    if s.linePos ≤ 0 then (false, s)
    else (true, { s with linePos := s.linePos - 1 }.moveTelnetCursor toLeft)

/-- `for(i = 0; i < deltaPos; i++) if(!moveCursor(left)) return`. -/
def moveTimes (toLeft : Bool) : Nat → TelnetSession → TelnetSession
  | 0, s => s
  | deltaPos + 1, s =>
      match s.moveCursor toLeft with
      | (false, s) => s
      | (true, s) => moveTimes toLeft deltaPos s

/-- `moveCursor(int)`. -/
def moveCursorBy (s : TelnetSession) (deltaPos : Int) : TelnetSession :=
  moveTimes (0 < deltaPos) deltaPos.natAbs s

/-- A turn of `while(moveCursor(toLeft)){}`. -/
def moveTurn (toLeft : Bool) (s : TelnetSession) : TelnetSession ⊕ TelnetSession :=
  match s.moveCursor toLeft with
  | (true, s) => .inl s
  | (false, s) => .inr s

/-- `while(moveCursor(toLeft)){}` with as many turns as there can be. -/
def moveWhile (s : TelnetSession) (toLeft : Bool) : TelnetSession :=
  (While.run (moveTurn toLeft) (s.currentLine.length + s.linePos.natAbs + 1) s).getD s

def eraseLine (s : TelnetSession) (resetInternal : Bool) : TelnetSession :=
  let s := s.telnetWrite (("\r" : QString) ++ spaces s.currentLine.length ++ ("  \r>" : QString))
  if resetInternal then { s with linePos := 0, currentLine := [] } else s

/-- `for(i = _currentLine.length(); i > _linePos; i--) moveTelnetCursor(false)`. -/
def backToCursor (s : TelnetSession) : TelnetSession :=
  (List.replicate (s.currentLine.length - s.linePos).toNat ("\x1B[D" : QString)).foldl telnetWrite s

def cliWrite (s : TelnetSession) (output : QString) : TelnetSession :=
  if s.linePos = s.currentLine.length then
    let s := { s with
      currentLine := s.currentLine ++ output, linePos := s.linePos + output.length }
    s.telnetWrite output
  else
    let s := { s with currentLine := s.currentLine.insert s.linePos output }
    let s := s.telnetWrite (s.currentLine.mid s.linePos)
    { s with linePos := s.linePos + output.length }.backToCursor

end TelnetSession

/-- A session with its `_cmdHistory` and `_histPos`. -/
structure EditingSession extends TelnetSession where
  cmdHistory : QStringList
  histPos : Int

namespace EditingSession

open TelnetSocket

/-- The constructor, which gives `_histPos` no value. -/
def constructed (serverInfo : QString) (histPos : Int) : EditingSession :=
  { (({ friendly := true } : TelnetSession).setFriendlyCLI false).send serverInfo true with
    cmdHistory := [], histPos := histPos }

/-- What stops a session: `at` outside the history, or a command. -/
inductive Stop where
  | historyRange
  | fault (f : Fault)
  | endless
  deriving DecidableEq

/-- A change of the line and the cursor. -/
def edit (s : EditingSession) (f : TelnetSession → TelnetSession) : EditingSession :=
  { s with toTelnetSession := f s.toTelnetSession }

/-- `_cmdHistory.at(i)`. -/
def historyAt (s : EditingSession) (i : Int) : Except Stop QString :=
  if i < 0 then throw .historyRange
  else
    match s.cmdHistory[i.toNat]? with
    | some entry => pure entry
    | none => throw .historyRange

variable {Node : Type}

def received (env : Circumstances Node) (s : EditingSession) (cmd : QString) :
    Except Stop EditingSession :=
  match s.toTelnetSession.cmdReceived env.toModels env.fuel cmd with
  | none => throw .endless
  | some (.error f) => throw (.fault f)
  | some (.ok t) => pure (s.edit fun _ => t)

/-- What the line editor takes a chunk for. -/
inductive Key where
  | cursorLeft
  | cursorRight
  | home
  | toEnd
  | up
  | down
  | enter
  | backspace
  | delete
  | tab
  | text (msg : QString)
  | ignored
  deriving DecidableEq

def escape : QChar := 0x1B

/-- The comparisons of `processInput`, one after the other. -/
def keyOf (utf8 : Utf8) (input : List Byte) : Key :=
  let msg := TelnetSocket.text utf8 input
  if input = StdString.ofString "\x1B[D" then .cursorLeft
  else if input = StdString.ofString "\x1B[C" then .cursorRight
  else if input = StdString.ofString "\x1B[H" then .home
  else if input = StdString.ofString "\x1B[F" then .toEnd
  else if input = StdString.ofString "\x1B[A" then .up
  else if input = StdString.ofString "\x1B[B" then .down
  else if msg.head? = some ('\r' : QChar) then .enter
  else if input = StdString.ofString "\x7F" ∨ input = StdString.ofString "\x08" then .backspace
  else if input = StdString.ofString "\x1B[3~" then .delete
  else if input = StdString.ofString "\t" then .tab
  else
    -- behind the end of an empty text there is a NUL
    let first := msg.head?.getD 0
    if first ≠ escape ∧ first ≠ '\n' ∧ first ≠ 0 ∧ first ≠ '\t' ∧ first ≠ '\x08' then .text msg
    else .ignored

/-- `processInput` in a friendly session. -/
def press (env : Circumstances Node) (s : EditingSession) : Key → Except Stop EditingSession
  | .cursorLeft => pure (s.edit fun t => (t.moveCursor false).2)
  | .cursorRight => pure (s.edit fun t => (t.moveCursor true).2)
  | .home => pure (s.edit fun t => t.moveWhile false)
  | .toEnd => pure (s.edit fun t => t.moveWhile true)
  | .up =>
      if s.histPos ≤ 0 then pure s
      else do
        let s := s.edit fun t => t.eraseLine true
        let s := { s with histPos := s.histPos - 1 }
        let entry ← s.historyAt s.histPos
        pure (s.edit fun t => t.cliWrite entry)
  | .down =>
      if s.cmdHistory.length ≤ s.histPos then pure s
      else
        let s := s.edit fun t => t.eraseLine true
        let s := { s with histPos := s.histPos + 1 }
        if s.histPos < s.cmdHistory.length then do
          let entry ← s.historyAt s.histPos
          pure (s.edit fun t => t.cliWrite entry)
        else pure s
  | .enter =>
      let s := s.edit fun t => t.telnetWrite "\n"
      if s.currentLine.isEmpty then pure s
      else do
        let s := { s with cmdHistory := s.cmdHistory ++ [s.currentLine] }
        let s := { s with histPos := s.cmdHistory.length }
        let s ← s.received env s.currentLine
        pure { s with linePos := 0, currentLine := [] }
  | .backspace =>
      if s.linePos ≤ 0 then pure s
      else
        let s := { s with linePos := s.linePos - 1 }
        let s := { s with currentLine := s.currentLine.removeAt s.linePos }
        pure (s.edit fun t => t.updateCLI)
  | .delete =>
      if s.currentLine.length ≤ s.linePos then pure s
      else
        let s := { s with currentLine := s.currentLine.removeAt s.linePos }
        pure (s.edit fun t => t.updateCLI)
  | .tab =>
      match autoComplete (env.helpModel s.mode) (s.currentLine.left s.linePos) 0 env.completing with
      | .error f => throw (.fault f)
      | .ok c =>
          let s := s.edit fun t => c.sent.foldl (fun t str => t.send str false) t
          let s := s.edit fun t => t.cliWrite c.text
          pure (s.edit fun t => t.moveCursorBy c.cursorPos)
  | .text msg => pure (s.edit fun t => t.cliWrite msg)
  | .ignored => pure s

/-- `processInput`. -/
def processInput (utf8 : Utf8) (env : Circumstances Node) (s : EditingSession)
    (input : List Byte) : Except Stop EditingSession :=
  if input.isEmpty then pure s
  else if !s.friendly then
    match TelnetSocket.processInput utf8 s.currentLine input with
    | (none, currentLine) => pure { s with currentLine := currentLine }
    | (some cmd, currentLine) => do
        let s ← { s with currentLine := cmd }.received env cmd
        pure { s with currentLine := currentLine }
  else s.press env (keyOf utf8 input)

/-- What happens to a session. -/
inductive Event (Node : Type) where
  | data (input : List Byte) (env : Circumstances Node)
  /-- A model tells something, or answers later. -/
  | send (str : QString) (release : Bool)
  /-- The timer of the lock. -/
  | releaseInput

/-- `telnetEvent` and the slots: input which comes while the session is locked is dropped. -/
def step (utf8 : Utf8) (s : EditingSession) : Event Node → Except Stop EditingSession
  | .data input env => if s.locked then pure s else s.processInput utf8 env input
  | .send str release => pure (s.edit fun t => t.send str release)
  | .releaseInput => pure (s.edit fun t => t.releaseInput)

end EditingSession

/-! ## What is left alone -/

namespace TelnetSession

/-- What the line editor does to a session: it writes, and it changes the line. -/
structure Edited (s s' : TelnetSession) : Prop where
  mode : s'.mode = s.mode
  friendly : s'.friendly = s.friendly
  locked : s'.locked = s.locked

/-- What is sent to a session leaves the line and the cursor alone. -/
structure SameLine (s s' : TelnetSession) : Prop where
  currentLine : s'.currentLine = s.currentLine
  linePos : s'.linePos = s.linePos

theorem Edited.refl (s : TelnetSession) : Edited s s := ⟨rfl, rfl, rfl⟩

theorem Edited.trans {s s' s'' : TelnetSession} (h : Edited s s') (h' : Edited s' s'') :
    Edited s s'' :=
  ⟨h'.mode.trans h.mode, h'.friendly.trans h.friendly, h'.locked.trans h.locked⟩

theorem SameLine.refl (s : TelnetSession) : SameLine s s := ⟨rfl, rfl⟩

theorem SameLine.trans {s s' s'' : TelnetSession} (h : SameLine s s') (h' : SameLine s' s'') :
    SameLine s s'' :=
  ⟨h'.currentLine.trans h.currentLine, h'.linePos.trans h.linePos⟩

theorem foldl_telnetWrite (texts : QStringList) (s : TelnetSession) :
    texts.foldl telnetWrite s = { s with written := s.written ++ texts.map Output.text } := by
  induction texts generalizing s with
  | nil => simp
  | cons data rest ih => simp [ih, telnetWrite]

/-- The texts which `updateCLI` writes. -/
def refreshed (s : TelnetSession) : QStringList :=
  [("\r" : QString) ++ spaces s.currentLine.length ++ ("  \r>" : QString), s.currentLine] ++
    List.replicate (s.currentLine.length - s.linePos).toNat ("\x1B[D" : QString)

theorem updateCLI_eq (s : TelnetSession) :
    s.updateCLI = { s with written := s.written ++ s.refreshed.map Output.text } := by
  rw [updateCLI, foldl_telnetWrite]
  simp [telnetWrite, refreshed]

theorem backToCursor_eq (s : TelnetSession) :
    s.backToCursor = { s with
      written := s.written ++
        List.replicate (s.currentLine.length - s.linePos).toNat (.text ("\x1B[D" : QString)) } := by
  rw [backToCursor, foldl_telnetWrite, List.map_replicate]

theorem sameLine_releaseInput (s : TelnetSession) : SameLine s s.releaseInput := by
  rw [releaseInput]
  split
  · exact .refl s
  · split <;> exact ⟨rfl, rfl⟩

theorem sameLine_send (s : TelnetSession) (str : QString) (release : Bool) :
    SameLine s (s.send str release) := by
  unfold send
  split
  · split
    · exact sameLine_releaseInput s
    · exact .refl s
  · dsimp only
    generalize erased : (if s.friendly = true then _ else s : TelnetSession) = t
    have same : SameLine s t := by
      rw [← erased]
      split <;> exact ⟨rfl, rfl⟩
    have told : SameLine s (t.telnetWrite (str ++ ("\n" : QString))) :=
      ⟨same.currentLine, same.linePos⟩
    split
    · split
      · rw [updateCLI_eq]
        exact ⟨same.currentLine, same.linePos⟩
      · exact told
    · split
      · exact told.trans (sameLine_releaseInput _)
      · exact told

/-- The answers to a command are only sent. -/
theorem sameLine_perform (effects : List TelnetSocket.Effect) (s : TelnetSession) :
    SameLine s (effects.foldl perform s) := by
  induction effects generalizing s with
  | nil => exact .refl s
  | cons e rest ih =>
      have first : SameLine s (s.perform e) := by
        cases e with
        | send str release => exact sameLine_send s str release
        | releaseInput => exact sameLine_releaseInput s
      exact first.trans (ih (s.perform e))

theorem sameLine_dispatch {Node : Type} {m : Models Node} {fuel : Nat} {s s' : TelnetSession}
    {cmd : QString} (returned : dispatch m fuel s cmd = some (.ok s')) : SameLine s s' := by
  obtain ⟨result, -, done⟩ := Option.map_eq_some_iff.mp returned
  cases result with
  | error fault => cases done
  | ok effects =>
      cases done
      exact sameLine_perform _ s

theorem sameLine_switchMode (s : TelnetSession) (m : TelnetMode) : SameLine s (s.switchMode m) := by
  have sent := sameLine_send { s with mode := m } (modeName m) false
  have given := sameLine_releaseInput (send { s with mode := m } (modeName m) false)
  exact ⟨given.currentLine.trans sent.currentLine, given.linePos.trans sent.linePos⟩

theorem sameLine_setVerbose (s : TelnetSession) (verbose : Bool) :
    SameLine s (s.setVerbose verbose) := by
  rw [setVerbose]
  split
  · exact .refl s
  · have sent := sameLine_send { s with verbose := verbose }
      (if verbose then "#v: Verbose ON" else "#-v: Verbose OFF") false
    have given := sent.trans (sameLine_releaseInput _)
    exact ⟨given.currentLine, given.linePos⟩

theorem sameLine_setFriendlyCLI (s : TelnetSession) (friendly : Bool) :
    SameLine s (s.setFriendlyCLI friendly) := by
  rw [setFriendlyCLI]
  split
  · exact .refl s
  · have given := sameLine_releaseInput
      { s with written := s.written ++ [.negotiate friendly], friendly := friendly }
    exact ⟨given.currentLine, given.linePos⟩

/-- A command may change the session, but not the line it stands in. -/
theorem sameLine_cmdReceived {Node : Type} {m : Models Node} {fuel : Nat} {s s' : TelnetSession}
    {cmd : QString} (returned : cmdReceived m fuel s cmd = some (.ok s')) : SameLine s s' := by
  have locked : SameLine s s.lockInput := ⟨rfl, rfl⟩
  have switched := fun mode => locked.trans (sameLine_switchMode s.lockInput mode)
  have verbose := fun v => locked.trans (sameLine_setVerbose s.lockInput v)
  have friendly := fun f => locked.trans (sameLine_setFriendlyCLI s.lockInput f)
  -- A command is either the next one of the list or a later one.
  have next : ∀ {c : Prop} [Decidable c] {t : TelnetSession} {later : Option (Except Fault TelnetSession)},
      SameLine s t → (later = some (.ok s') → SameLine s s') →
        (if c then some (pure t) else later) = some (.ok s') → SameLine s s' := by
    intro c _ t later same rest returned
    split at returned
    · cases returned
      exact same
    · exact rest returned
  rw [cmdReceived] at returned
  revert returned
  refine next (switched _) (next (switched _) (next (switched _) (next (switched _) ?_)))
  refine next (verbose _) (next (verbose _) (next (friendly _) (next (friendly _) ?_)))
  exact next locked (next locked fun returned => locked.trans (sameLine_dispatch returned))

/-! ## The line with its cursor -/

open EditLine

/-- The session shows a line with its cursor. -/
structure Views (s : TelnetSession) (z : Zipper QChar) : Prop where
  line : s.currentLine = z.contents
  cursor : s.linePos = z.cursor

variable {s s' : TelnetSession} {z : Zipper QChar}

theorem Views.inside (h : s.Views z) : 0 ≤ s.linePos ∧ s.linePos ≤ s.currentLine.length := by
  have bound := z.cursor_le
  rw [h.line, h.cursor]
  omega

theorem Views.of_sameLine (h : s.Views z) (same : SameLine s s') : s'.Views z :=
  ⟨same.currentLine.trans h.line, same.linePos.trans h.cursor⟩

/-- A cursor is the only one at its place. -/
theorem Views.unique {z' : Zipper QChar} (h : s.Views z) (h' : s.Views z') : z = z' := by
  have same : (z.cursor : Int) = z'.cursor := h.cursor.symm.trans h'.cursor
  exact Zipper.ext (h.line.symm.trans h'.line) (by omega)

/-- There is no place to move to. -/
def AtEnd (s : TelnetSession) (toLeft : Bool) : Prop :=
  if toLeft then s.currentLine.length ≤ s.linePos else s.linePos ≤ 0

/-- The place next to the cursor. -/
def nextPos (s : TelnetSession) (toLeft : Bool) : Int :=
  if toLeft then s.linePos + 1 else s.linePos - 1

/-- What a terminal is told for a move. -/
def arrow (toLeft : Bool) : QString := if toLeft then "\x1B[C" else "\x1B[D"

theorem moveCursor_of_atEnd {toLeft : Bool} (stop : s.AtEnd toLeft) :
    s.moveCursor toLeft = (false, s) := by
  cases toLeft <;> exact if_pos stop

theorem moveCursor_of_not_atEnd {toLeft : Bool} (free : ¬ s.AtEnd toLeft) :
    s.moveCursor toLeft = (true, { s with
      linePos := s.nextPos toLeft, written := s.written ++ [.text (arrow toLeft)] }) := by
  cases toLeft <;> exact if_neg free

theorem edited_moveCursor (s : TelnetSession) (toLeft : Bool) :
    Edited s (s.moveCursor toLeft).2 := by
  by_cases stop : s.AtEnd toLeft
  · rw [moveCursor_of_atEnd stop]
    exact .refl s
  · rw [moveCursor_of_not_atEnd stop]
    exact ⟨rfl, rfl, rfl⟩

/-- One place in a direction, as far as there is one. -/
def stepped (toLeft : Bool) (z : Zipper QChar) : Zipper QChar :=
  if toLeft then z.right else z.left

@[simp] theorem stepped_true : stepped true = Zipper.right := rfl

@[simp] theorem stepped_false : stepped false = Zipper.left := rfl

theorem contents_stepped (toLeft : Bool) (z : Zipper QChar) :
    (stepped toLeft z).contents = z.contents := by
  cases toLeft with
  | true => exact z.contents_right
  | false => exact z.contents_left

theorem Views.stepped_of_atEnd (h : s.Views z) {toLeft : Bool} (stop : s.AtEnd toLeft) :
    stepped toLeft z = z := by
  have length : s.currentLine.length = z.contents.length := congrArg _ h.line
  have cursor := h.cursor
  have bound := z.cursor_le
  refine Zipper.ext (contents_stepped toLeft z) ?_
  cases toLeft with
  | true =>
      have last : (s.currentLine.length : Int) ≤ s.linePos := stop
      have right : (stepped true z).cursor = min (z.cursor + 1) z.contents.length :=
        z.cursor_right
      omega
  | false =>
      have first : s.linePos ≤ 0 := stop
      have left : (stepped false z).cursor = z.cursor - 1 := z.cursor_left
      omega

theorem Views.nextPos (h : s.Views z) {toLeft : Bool} (free : ¬ s.AtEnd toLeft) :
    s.nextPos toLeft = (stepped toLeft z).cursor := by
  have length : s.currentLine.length = z.contents.length := congrArg _ h.line
  have cursor := h.cursor
  cases toLeft with
  | true =>
      have last : ¬ (s.currentLine.length : Int) ≤ s.linePos := free
      have right : (stepped true z).cursor = min (z.cursor + 1) z.contents.length :=
        z.cursor_right
      have next : s.nextPos true = s.linePos + 1 := rfl
      omega
  | false =>
      have first : ¬ s.linePos ≤ 0 := free
      have left : (stepped false z).cursor = z.cursor - 1 := z.cursor_left
      have next : s.nextPos false = s.linePos - 1 := rfl
      omega

theorem Views.moveCursor (h : s.Views z) (toLeft : Bool) :
    (s.moveCursor toLeft).2.Views (stepped toLeft z) := by
  by_cases stop : s.AtEnd toLeft
  · rw [moveCursor_of_atEnd stop, h.stepped_of_atEnd stop]
    exact h
  · rw [moveCursor_of_not_atEnd stop]
    exact ⟨h.line.trans (contents_stepped toLeft z).symm, h.nextPos stop⟩

/-- What a move of the cursor keeps is kept by any number of them. -/
theorem moveTimes_keeps {P : TelnetSession → Prop} {toLeft : Bool}
    (keeps : ∀ s, P s → P (s.moveCursor toLeft).2) (n : Nat) (start : P s) :
    P (moveTimes toLeft n s) := by
  induction n generalizing s with
  | zero => exact start
  | succ n ih =>
      have kept := keeps s start
      by_cases stop : s.AtEnd toLeft
      · rwa [moveTimes, moveCursor_of_atEnd stop]
      · rw [moveCursor_of_not_atEnd stop] at kept
        rw [moveTimes, moveCursor_of_not_atEnd stop]
        exact ih kept

theorem Views.moveTimes (h : s.Views z) (toLeft : Bool) (n : Nat) :
    (moveTimes toLeft n s).Views ((stepped toLeft)^[n] z) := by
  induction n generalizing s z with
  | zero => exact h
  | succ n ih =>
      have views := h.moveCursor toLeft
      by_cases stop : s.AtEnd toLeft
      · have stays := h.stepped_of_atEnd stop
        rw [TelnetSession.moveTimes, moveCursor_of_atEnd stop, Function.iterate_fixed stays]
        exact h
      · rw [moveCursor_of_not_atEnd stop] at views
        rw [TelnetSession.moveTimes, moveCursor_of_not_atEnd stop, Function.iterate_succ_apply]
        exact ih views

/-- The loop over `moveCursor` keeps what a turn of it keeps, and ends where there is no
    further one. -/
theorem moveWhile_ends {P : TelnetSession → Prop} {toLeft : Bool}
    (keeps : ∀ s, P s → P (s.moveCursor toLeft).2) (start : P s) :
    P (s.moveWhile toLeft) ∧ (s.moveWhile toLeft).AtEnd toLeft := by
  have loop : ∃ r, While.run (moveTurn toLeft)
      (s.currentLine.length + s.linePos.natAbs + 1) s = some r ∧ P r ∧ r.AtEnd toLeft := by
    refine While.run_total (I := P)
      (fun s => if toLeft then (s.currentLine.length - s.linePos).toNat else s.linePos.toNat)
      ?_ ?_ start ?_
    · intro s r inside leaves
      by_cases stop : s.AtEnd toLeft
      · rw [moveTurn, moveCursor_of_atEnd stop] at leaves
        cases leaves
        exact ⟨inside, stop⟩
      · rw [moveTurn, moveCursor_of_not_atEnd stop] at leaves
        cases leaves
    · intro s s' inside goesOn
      have kept := keeps s inside
      by_cases stop : s.AtEnd toLeft
      · rw [moveTurn, moveCursor_of_atEnd stop] at goesOn
        cases goesOn
      · rw [moveCursor_of_not_atEnd stop] at kept
        rw [moveTurn, moveCursor_of_not_atEnd stop] at goesOn
        cases goesOn
        refine ⟨kept, ?_⟩
        cases toLeft with
        | true =>
            have free : ¬ (s.currentLine.length : Int) ≤ s.linePos := stop
            simp only [if_true, TelnetSession.nextPos]
            omega
        | false =>
            have free : ¬ s.linePos ≤ 0 := stop
            simp only [Bool.false_eq_true, if_false, TelnetSession.nextPos]
            omega
    · split <;> omega
  obtain ⟨r, ran, post⟩ := loop
  rw [moveWhile, ran]
  exact post

/-- `home` and `end`. -/
theorem Views.moveWhile (h : s.Views z) (toLeft : Bool) :
    (s.moveWhile toLeft).Views (if toLeft then z.toEnd else z.home) := by
  have start : ∃ z', s.Views z' ∧ z'.contents = z.contents := ⟨z, h, rfl⟩
  have keeps : ∀ t : TelnetSession, (∃ z', t.Views z' ∧ z'.contents = z.contents) →
      ∃ z', (t.moveCursor toLeft).2.Views z' ∧ z'.contents = z.contents := by
    rintro t ⟨z', views, same⟩
    exact ⟨stepped toLeft z', views.moveCursor toLeft, (contents_stepped toLeft z').trans same⟩
  obtain ⟨⟨z', views, same⟩, stop⟩ :=
    moveWhile_ends (P := fun t => ∃ z', t.Views z' ∧ z'.contents = z.contents) keeps start
  have length : (s.moveWhile toLeft).currentLine.length = z'.contents.length :=
    congrArg _ views.line
  have cursor := views.cursor
  have bound := z'.cursor_le
  cases toLeft with
  | true =>
      have last : ((s.moveWhile true).currentLine.length : Int) ≤ (s.moveWhile true).linePos := stop
      have there : z' = z.toEnd := by
        refine Zipper.ext (same.trans z.contents_toEnd.symm) ?_
        rw [Zipper.cursor_toEnd, ← same]
        omega
      exact there ▸ views
  | false =>
      have first : (s.moveWhile false).linePos ≤ 0 := stop
      have there : z' = z.home := by
        refine Zipper.ext same ?_
        rw [Zipper.cursor_home]
        omega
      exact there ▸ views

theorem Views.moveCursorBy (h : s.Views z) (deltaPos : Int) :
    (s.moveCursorBy deltaPos).Views (z.move deltaPos) := by
  have moved := h.moveTimes (0 < deltaPos) deltaPos.natAbs
  rw [TelnetSession.moveCursorBy, Zipper.move]
  by_cases right : 0 < deltaPos
  · simpa [right] using moved
  · simpa [right] using moved

theorem Views.updateCLI (h : s.Views z) : s.updateCLI.Views z := by
  rw [updateCLI_eq]
  exact ⟨h.line, h.cursor⟩

theorem views_eraseLine (s : TelnetSession) : (s.eraseLine true).Views {} := ⟨rfl, rfl⟩

theorem insert_of_views (h : s.Views z) (output : QString) :
    s.currentLine.insert s.linePos output = (z.insert output).contents := by
  have inside : z.cursor - z.contents.length = 0 := Nat.sub_eq_zero_of_le z.cursor_le
  rw [h.line, h.cursor, QString.insert, if_neg (by omega), Zipper.contents_insert]
  simp [inside]

/-- Both branches of `cliWrite` come to an insertion. -/
theorem Views.cliWrite (h : s.Views z) (output : QString) :
    (s.cliWrite output).Views (z.insert output) := by
  have whole := insert_of_views h output
  have cursor : s.linePos + output.length = (z.insert output).cursor := by
    rw [h.cursor, Zipper.cursor_insert]
    omega
  rw [TelnetSession.cliWrite]
  split
  · rename_i last
    refine ⟨Eq.trans ?_ whole, cursor⟩
    rw [last, QString.insert, if_neg (by omega)]
    simp [telnetWrite]
  · rw [backToCursor_eq]
    exact ⟨whole, cursor⟩

theorem Views.remove (h : s.Views z) {n : Nat} (inside : n < z.contents.length) :
    s.currentLine.removeAt n = z.contents.eraseIdx n := by
  have positive : ¬ (n : Int) < 0 := by omega
  have low : (n : Int) < z.contents.length := by omega
  simp only [QString.removeAt, h.line, positive, if_false, low, and_true, Int.toNat_natCast]
  exact if_pos (by omega)

theorem Views.backspace (h : s.Views z) (inside : ¬ s.linePos ≤ 0) :
    Views { s with linePos := s.linePos - 1, currentLine := s.currentLine.removeAt (s.linePos - 1) }
      z.backspace := by
  have cursor := h.cursor
  have bound := z.cursor_le
  have place : s.linePos - 1 = ((z.cursor - 1 : Nat) : Int) := by omega
  refine ⟨?_, ?_⟩
  · show s.currentLine.removeAt (s.linePos - 1) = _
    rw [place, h.remove (by omega), Zipper.contents_backspace _ (by omega)]
  · show s.linePos - 1 = _
    rw [Zipper.cursor_backspace]
    exact place

theorem Views.delete (h : s.Views z) (inside : ¬ (s.currentLine.length : Int) ≤ s.linePos) :
    Views { s with currentLine := s.currentLine.removeAt s.linePos } z.delete := by
  have cursor := h.cursor
  have length : s.currentLine.length = z.contents.length := congrArg _ h.line
  refine ⟨?_, cursor⟩
  show s.currentLine.removeAt s.linePos = _
  rw [cursor, h.remove (by omega), Zipper.contents_delete]

/-! The editor changes nothing but the line. -/

theorem edited_moveWhile (s : TelnetSession) (toLeft : Bool) : Edited s (s.moveWhile toLeft) :=
  (moveWhile_ends (P := Edited s) (fun t edited => edited.trans (edited_moveCursor t toLeft))
    (.refl s)).1

theorem edited_moveCursorBy (s : TelnetSession) (deltaPos : Int) :
    Edited s (s.moveCursorBy deltaPos) :=
  moveTimes_keeps (P := Edited s) (fun t edited => edited.trans (edited_moveCursor t _)) _ (.refl s)

theorem edited_updateCLI (s : TelnetSession) : Edited s s.updateCLI := by
  rw [updateCLI_eq]
  exact ⟨rfl, rfl, rfl⟩

theorem Edited.redrawn {t : TelnetSession} (edited : Edited s t) : Edited s t.updateCLI :=
  edited.trans (edited_updateCLI t)

theorem edited_cliWrite (s : TelnetSession) (output : QString) : Edited s (s.cliWrite output) := by
  rw [cliWrite]
  split
  · exact ⟨rfl, rfl, rfl⟩
  · rw [backToCursor_eq]
    exact ⟨rfl, rfl, rfl⟩

theorem edited_eraseLine (s : TelnetSession) (resetInternal : Bool) :
    Edited s (s.eraseLine resetInternal) := by
  cases resetInternal <;> exact ⟨rfl, rfl, rfl⟩

/-- What is told while the input is not locked. -/
theorem edited_send (unlocked : s.locked = false) (str : QString) (release : Bool) :
    Edited s (s.send str release) := by
  unfold send
  split
  · split
    · rw [releaseInput, unlocked]
      exact .refl s
    · exact .refl s
  · dsimp only
    generalize erased : (if s.friendly = true then _ else s : TelnetSession) = t
    have same : Edited s t := by
      rw [← erased]
      split <;> exact ⟨rfl, rfl, rfl⟩
    have told : Edited s (t.telnetWrite (str ++ ("\n" : QString))) :=
      ⟨same.mode, same.friendly, same.locked⟩
    split
    · split
      · have prompted : Edited s ((t.telnetWrite (str ++ ("\n" : QString))).telnetWrite ">") :=
          ⟨told.mode, told.friendly, told.locked⟩
        exact prompted.trans (edited_updateCLI _)
      · exact told
    · rename_i locked
      rw [told.locked, unlocked] at locked
      exact absurd rfl locked

end TelnetSession

namespace EditingSession

open EditLine TelnetSocket

variable {Node : Type}

/-! ## The ideal editor -/

/-- What a key means to an editor; a completion is inserted and the cursor moved from there. -/
def idealPress (env : Circumstances Node) (mode : TelnetMode) (e : Editor QChar) :
    Key → Editor QChar
  | .cursorLeft => e.edit Zipper.left
  | .cursorRight => e.edit Zipper.right
  | .home => e.edit Zipper.home
  | .toEnd => e.edit Zipper.toEnd
  | .up => e.older
  | .down => e.newer
  | .enter => e.submit
  | .backspace => e.edit Zipper.backspace
  | .delete => e.edit Zipper.delete
  | .tab =>
      match autoComplete (env.helpModel mode) e.line.before 0 env.completing with
      | .error _ => e
      | .ok c => e.edit fun z => (z.insert c.text).move c.cursorPos
  | .text msg => e.edit fun z => z.insert msg
  | .ignored => e

/-- A raw session collects a line until it ends. -/
def collect (utf8 : Utf8) (e : Editor QChar) (input : List Byte) : Editor QChar :=
  if (e.line.contents ++ TelnetSocket.text utf8 input).getLast? = some ('\n' : QChar) then
    e.edit fun _ => {}
  else e.edit fun z => z.append (TelnetSocket.text utf8 input)

/-- The editor follows what the session takes from its input. -/
def follow (utf8 : Utf8) (s : EditingSession) (e : Editor QChar) : Event Node → Editor QChar
  | .data input env =>
      if s.locked ∨ input = [] then e
      else if s.friendly then idealPress env s.mode e (keyOf utf8 input)
      else collect utf8 e input
  | .send _ _ => e
  | .releaseInput => e

/-- A session and the ideal editor, which get the same input. -/
structure Execution where
  session : EditingSession
  editor : Editor QChar

def Execution.step (utf8 : Utf8) (x : Execution) (event : Event Node) : Except Stop Execution := do
  let session ← x.session.step utf8 event
  return ⟨session, follow utf8 x.session x.editor event⟩

/-- The line, the cursor and the history are the ones of the editor. -/
structure Shows (s : EditingSession) (e : Editor QChar) : Prop where
  views : s.Views e.line
  history : s.cmdHistory = e.entries
  position : s.cmdHistory ≠ [] → s.histPos = e.position

/-- The place in the history is one, or the key has nothing to recall. -/
def SafeKey (s : EditingSession) : Key → Prop
  | .up => s.histPos ≤ s.cmdHistory.length
  | .down => 0 ≤ s.histPos ∨ (s.histPos = -1 ∧ s.currentLine = [])
  | _ => True

/-- No key recalls a line from a place which is none. -/
def Safe (utf8 : Utf8) (s : EditingSession) : Event Node → Prop
  | .data input _ => s.locked = false → s.friendly = true → s.SafeKey (keyOf utf8 input)
  | _ => True

variable {s s' : EditingSession} {e : Editor QChar} {env : Circumstances Node}

theorem Shows.edit (h : Shows s e) {f : TelnetSession → TelnetSession}
    {g : Zipper QChar → Zipper QChar} (views : (f s.toTelnetSession).Views (g e.line)) :
    Shows (s.edit f) (e.edit g) :=
  ⟨views, h.history, h.position⟩

theorem historyAt_of_some {i : Nat} {entry : QString} (found : s.cmdHistory[i]? = some entry) :
    s.historyAt i = .ok entry := by
  rw [historyAt, if_neg (by omega), Int.toNat_natCast, found]
  rfl

theorem historyAt_of_empty (empty : s.cmdHistory = []) (i : Int) :
    s.historyAt i = .error .historyRange := by
  rw [historyAt, empty]
  split <;> rfl

/-- A line from the history takes the place of the line. -/
theorem views_recalled (t : TelnetSession) (entry : QString) :
    ((t.eraseLine true).cliWrite entry).Views (.ofText entry) :=
  (TelnetSession.views_eraseLine t).cliWrite entry

/-- Without entries there is no place to recall a line from. -/
theorem Shows.position_eq_zero (h : Shows s e) (empty : s.cmdHistory = []) : e.position = 0 := by
  have bound := e.inside
  rw [← h.history, empty] at bound
  exact Nat.le_zero.mp bound

theorem press_up_ends (h : Shows s e) :
    Ends (fun stop => stop ≠ .historyRange ↔ s.SafeKey .up) (s.press env .up) fun s' =>
      Shows s' e.older ↔ s.SafeKey .up := by
  have inside := e.inside
  rw [← h.history] at inside
  by_cases low : s.histPos ≤ 0
  · have first : e.position = 0 := by
      by_cases empty : s.cmdHistory = []
      · exact h.position_eq_zero empty
      · have same := h.position empty
        omega
    have safe : s.SafeKey .up := by
      show s.histPos ≤ s.cmdHistory.length
      omega
    rw [press, if_pos low, Editor.older_of_first first]
    exact iff_of_true h safe
  · rw [press, if_neg low]
    dsimp only
    by_cases empty : s.cmdHistory = []
    · have outside : ¬ s.SafeKey .up := by
        show ¬ s.histPos ≤ s.cmdHistory.length
        rw [empty]
        simpa using low
      rw [historyAt_of_empty (by exact empty)]
      exact iff_of_false (fun other => other rfl) outside
    · have same := h.position empty
      have safe : s.SafeKey .up := by
        show s.histPos ≤ s.cmdHistory.length
        omega
      obtain ⟨i, place⟩ : ∃ i, e.position = i + 1 := ⟨e.position - 1, by omega⟩
      have below : i < s.cmdHistory.length := by omega
      obtain ⟨entry, found⟩ : ∃ entry, s.cmdHistory[i]? = some entry :=
        ⟨_, List.getElem?_eq_getElem below⟩
      obtain ⟨line, entries, position⟩ :=
        Editor.older_of_entry place ((congrArg (·[i]?) h.history).symm.trans found)
      have index : (s.edit fun t => t.eraseLine true).histPos - 1 = i := by
        show s.histPos - 1 = i
        omega
      rw [index, historyAt_of_some (by exact found)]
      refine iff_of_true ⟨?_, h.history.trans entries.symm, fun _ => ?_⟩ safe
      · rw [line]
        exact views_recalled _ _
      · rw [position]
        rfl

theorem press_down_ends (h : Shows s e) :
    Ends (fun stop => stop ≠ .historyRange ↔ s.SafeKey .down) (s.press env .down) fun s' =>
      Shows s' e.newer ↔ s.SafeKey .down := by
  have inside := e.inside
  rw [← h.history] at inside
  have size : s.cmdHistory.length = e.entries.length := congrArg _ h.history
  by_cases high : s.cmdHistory.length ≤ s.histPos
  · have last : e.position = e.entries.length := by
      by_cases empty : s.cmdHistory = []
      · have none : s.cmdHistory.length = 0 := by rw [empty]; rfl
        omega
      · have same := h.position empty
        omega
    have safe : s.SafeKey .down := .inl (by omega)
    rw [press, if_pos high, Editor.newer_of_last last]
    exact iff_of_true h safe
  · rw [press, if_neg high]
    dsimp only
    by_cases empty : s.cmdHistory = []
    · have none : s.cmdHistory.length = 0 := by rw [empty]; rfl
      rw [Editor.newer_of_last (by omega)]
      split
      · rename_i below
        have low : s.histPos + 1 < s.cmdHistory.length := below
        have outside : ¬ s.SafeKey .down := by
          rintro (positive | ⟨minus, -⟩) <;> omega
        rw [historyAt_of_empty (by exact empty)]
        exact iff_of_false (fun other => other rfl) outside
      · rename_i above
        have high : ¬ s.histPos + 1 < s.cmdHistory.length := above
        have minus : s.histPos = -1 := by omega
        have erased : ((s.edit fun t => t.eraseLine true).toTelnetSession).Views {} :=
          TelnetSession.views_eraseLine _
        constructor
        · rintro shows
          have same : e.line = {} := shows.views.unique erased
          exact .inr ⟨minus, by rw [h.views.line, same]; rfl⟩
        · rintro (positive | ⟨-, blank⟩)
          · omega
          · have cleared : e.line = {} := by
              have bounds := h.views.inside
              have cursor := h.views.cursor
              rw [blank] at bounds
              refine Zipper.ext (h.views.line.symm.trans blank) ?_
              show e.line.cursor = 0
              simp only [List.length_nil] at bounds
              omega
            exact ⟨cleared ▸ erased, h.history, fun some => absurd empty some⟩
    · have same := h.position empty
      have safe : s.SafeKey .down := .inl (by omega)
      have index : (s.edit fun t => t.eraseLine true).histPos + 1 =
          ((e.position + 1 : Nat) : Int) := by
        show s.histPos + 1 = _
        omega
      split
      · rename_i below
        have low : s.histPos + 1 < s.cmdHistory.length := below
        have there : e.position + 1 < s.cmdHistory.length := by omega
        obtain ⟨entry, found⟩ : ∃ entry, s.cmdHistory[e.position + 1]? = some entry :=
          ⟨_, List.getElem?_eq_getElem there⟩
        obtain ⟨line, entries, position⟩ :=
          Editor.newer_of_entry ((congrArg (·[e.position + 1]?) h.history).symm.trans found)
        rw [index, historyAt_of_some (by exact found)]
        refine iff_of_true ⟨?_, h.history.trans entries.symm, fun _ => ?_⟩ safe
        · rw [line]
          exact views_recalled _ _
        · rw [position]
          rfl
      · rename_i above
        have high : ¬ s.histPos + 1 < s.cmdHistory.length := above
        obtain ⟨line, entries, position⟩ := Editor.newer_to_last (show e.position + 1 = _ by omega)
        refine iff_of_true ⟨?_, h.history.trans entries.symm, fun _ => ?_⟩ safe
        · rw [line]
          exact TelnetSession.views_eraseLine _
        · rw [position]
          exact index

theorem Shows.left_eq (h : Shows s e) : s.currentLine.left s.linePos = e.line.before := by
  rw [h.views.line, h.views.cursor, QString.left, if_neg (by omega), Int.toNat_natCast,
    Zipper.take_contents]

theorem sameLine_sends (texts : QStringList) (t : TelnetSession) :
    TelnetSession.SameLine t (texts.foldl (fun t str => t.send str false) t) := by
  induction texts generalizing t with
  | nil => exact .refl t
  | cons str rest ih => exact (TelnetSession.sameLine_send t str false).trans (ih _)

theorem press_backspace_ends (h : Shows s e) :
    Ends (fun _ => False) (s.press env .backspace) fun s' =>
      Shows s' (e.edit Zipper.backspace) := by
  have cursor := h.views.cursor
  rw [press]
  split
  · have first : e.line.cursor = 0 := by omega
    have stays : e.line.backspace = e.line := by
      have empty : e.line.before = [] := List.length_eq_zero_iff.mp first
      rw [Zipper.backspace, empty, List.dropLast_nil, ← empty]
    rw [Editor.edit, stays]
    exact h
  · rename_i inside
    exact ends_pure.mpr ⟨(h.views.backspace inside).updateCLI, h.history, h.position⟩

theorem press_delete_ends (h : Shows s e) :
    Ends (fun _ => False) (s.press env .delete) fun s' => Shows s' (e.edit Zipper.delete) := by
  have cursor := h.views.cursor
  have bound := e.line.cursor_le
  have length : s.currentLine.length = e.line.contents.length := congrArg _ h.views.line
  rw [press]
  split
  · have last : e.line.contents.length ≤ e.line.cursor := by omega
    have stays : e.line.delete = e.line := by
      refine Zipper.ext ?_ rfl
      rw [Zipper.contents_delete, List.eraseIdx_of_length_le last]
    rw [Editor.edit, stays]
    exact h
  · rename_i inside
    exact ends_pure.mpr ⟨(h.views.delete inside).updateCLI, h.history, h.position⟩

theorem press_tab_ends (h : Shows s e) :
    Ends (fun stop => stop ≠ .historyRange) (s.press env .tab) fun s' =>
      Shows s' (idealPress env s.mode e .tab) := by
  rw [press, idealPress, h.left_eq]
  cases completed : autoComplete (env.helpModel s.mode) e.line.before 0 env.completing with
  | error f => exact nofun
  | ok c =>
      have told := h.views.of_sameLine (sameLine_sends c.sent s.toTelnetSession)
      exact ends_pure.mpr ⟨(told.cliWrite c.text).moveCursorBy c.cursorPos, h.history, h.position⟩

/-- The command is carried out while its line still stands there. -/
theorem received_ends (h : Shows s e) (cmd : QString) :
    Ends (fun stop => stop ≠ .historyRange) (s.received env cmd) fun s' => Shows s' e := by
  rw [received]
  cases result : s.toTelnetSession.cmdReceived env.toModels env.fuel cmd with
  | none => exact nofun
  | some result' =>
      cases result' with
      | error f => exact nofun
      | ok t =>
          have same := TelnetSession.sameLine_cmdReceived result
          exact ends_pure.mpr ⟨h.views.of_sameLine same, h.history, h.position⟩

theorem press_enter_ends (h : Shows s e) :
    Ends (fun stop => stop ≠ .historyRange) (s.press env .enter) fun s' => Shows s' e.submit := by
  have line : s.currentLine = e.line.contents := h.views.line
  rw [press]
  dsimp only
  split
  · rename_i empty
    have blank : e.line.contents = [] := by
      rw [← line]
      simpa [edit, TelnetSession.telnetWrite] using empty
    rw [Editor.submit, if_pos blank]
    exact ends_pure.mpr ⟨⟨line, h.views.cursor⟩, h.history, h.position⟩
  · rename_i nonempty
    have filled : e.line.contents ≠ [] := by
      rw [← line]
      simpa [edit, TelnetSession.telnetWrite] using nonempty
    -- while the command is carried out, its line is there and in the history
    let entered : Editor QChar :=
      { line := e.line
        entries := e.entries ++ [e.line.contents]
        position := (e.entries ++ [e.line.contents]).length
        inside := le_rfl }
    have history : s.cmdHistory ++ [s.currentLine] = entered.entries := by
      rw [h.history, line]
    have submitted : e.submit = { entered with line := {} } := if_neg filled
    have start : Shows { s.edit (fun t => t.telnetWrite "\n") with
        cmdHistory := s.cmdHistory ++ [s.currentLine]
        histPos := (s.cmdHistory ++ [s.currentLine]).length } entered := by
      refine ⟨⟨line, h.views.cursor⟩, history, fun _ => ?_⟩
      show ((s.cmdHistory ++ [s.currentLine]).length : Int) = entered.entries.length
      rw [history]
    refine Ends.bind (received_ends start s.currentLine) fun s' shows => ?_
    rw [submitted]
    exact ends_pure.mpr ⟨⟨rfl, rfl⟩, shows.history, shows.position⟩

/-- What a key does is what it means to the editor, unless it recalls a line from nowhere. -/
theorem press_ends (h : Shows s e) (key : Key) :
    Ends (fun stop => stop ≠ .historyRange ↔ s.SafeKey key) (s.press env key) fun s' =>
      Shows s' (idealPress env s.mode e key) ↔ s.SafeKey key := by
  -- all but two keys are safe
  have always {post : EditingSession → Prop} {x : Except Stop EditingSession} (safe : s.SafeKey key)
      (ends : Ends (fun stop => stop ≠ .historyRange) x post) :
      Ends (fun stop => stop ≠ .historyRange ↔ s.SafeKey key) x fun s' =>
        post s' ↔ s.SafeKey key :=
    (ends.mono fun s' holds => iff_of_true holds safe).mono_err fun stop other =>
      iff_of_true other safe
  have done {post : EditingSession → Prop} {x : Except Stop EditingSession}
      (ends : Ends (fun _ => False) x post) : Ends (fun stop => stop ≠ .historyRange) x post :=
    ends.mono_err fun _ => False.elim
  cases key with
  | cursorLeft => exact always trivial (ends_pure.mpr (h.edit (h.views.moveCursor false)))
  | cursorRight => exact always trivial (ends_pure.mpr (h.edit (h.views.moveCursor true)))
  | home => exact always trivial (ends_pure.mpr (h.edit (h.views.moveWhile false)))
  | toEnd => exact always trivial (ends_pure.mpr (h.edit (h.views.moveWhile true)))
  | up => exact press_up_ends h
  | down => exact press_down_ends h
  | enter => exact always trivial (press_enter_ends h)
  | backspace => exact always trivial (done (press_backspace_ends h))
  | delete => exact always trivial (done (press_delete_ends h))
  | tab => exact always trivial (press_tab_ends h)
  | text msg =>
      exact always trivial
        (ends_pure.mpr (h.edit (g := fun z => z.insert msg) (h.views.cliWrite msg)))
  | ignored => exact always trivial (ends_pure.mpr h)

/-! ## A raw session -/

/-- The cursor of a raw session stays at the start of its line. -/
def RawAtStart (s : EditingSession) : Prop := s.friendly = false → s.linePos = 0

/-- A chunk for a raw session is collected. -/
theorem collect_ends (h : Shows s e) (raw : s.friendly = false) (start : RawAtStart s)
    (utf8 : Utf8) {input : List Byte} (nonempty : input ≠ []) :
    Ends (fun stop => stop ≠ .historyRange) (s.processInput utf8 env input) fun s' =>
      Shows s' (collect utf8 e input) := by
  have line : s.currentLine = e.line.contents := h.views.line
  have cursor := h.views.cursor
  have first : e.line.cursor = 0 := by
    have zero := start raw
    omega
  rw [processInput, if_neg (by simpa using nonempty), if_pos (by simp [raw]), collect, ← line]
  by_cases last : (s.currentLine ++ TelnetSocket.text utf8 input).getLast? = some ('\n' : QChar)
  · rw [processInput_of_last last (by simpa using nonempty), if_pos last]
    dsimp only
    generalize removeChar (removeChar (s.currentLine ++ TelnetSocket.text utf8 input) '\r') '\n' =
      cmd
    have said : Shows { s with currentLine := cmd } (e.edit fun _ => ⟨[], cmd⟩) :=
      ⟨⟨rfl, start raw⟩, h.history, h.position⟩
    refine Ends.bind (received_ends said cmd) fun s' shows => ?_
    exact ends_pure.mpr ⟨⟨rfl, shows.views.cursor⟩, shows.history, shows.position⟩
  · rw [processInput_of_not_last last, if_neg last]
    refine ends_pure.mpr ⟨⟨?_, cursor⟩, h.history, h.position⟩
    show s.currentLine ++ TelnetSocket.text utf8 input = (e.line.append _).contents
    rw [Zipper.contents_append, line]

theorem keyOf_nil (utf8 : Utf8) : keyOf utf8 [] = .ignored := by
  simp [keyOf, StdString.ofString]

theorem step_ends (h : Shows s e) (start : RawAtStart s) (utf8 : Utf8) (event : Event Node) :
    Ends (fun stop => stop ≠ .historyRange ↔ Safe utf8 s event) (s.step utf8 event) fun s' =>
      Shows s' (follow utf8 s e event) ↔ Safe utf8 s event := by
  cases event with
  | send str release =>
      exact iff_of_true ⟨h.views.of_sameLine (TelnetSession.sameLine_send _ _ _), h.history,
        h.position⟩ trivial
  | releaseInput =>
      exact iff_of_true ⟨h.views.of_sameLine (TelnetSession.sameLine_releaseInput _), h.history,
        h.position⟩ trivial
  | data input env =>
      rw [step, follow]
      cases locked : s.locked with
      | true =>
          have safe : Safe utf8 s (.data input env) := fun unlocked => by simp [locked] at unlocked
          exact iff_of_true (by simpa using h) safe
      | false =>
          by_cases empty : input = []
          · have safe : Safe utf8 s (.data input env) := by
              subst empty
              exact fun _ _ => by
                rw [keyOf_nil]
                trivial
            subst empty
            exact iff_of_true (by simpa using h) safe
          · simp only [Bool.false_eq_true, if_false, empty, or_self]
            cases friendly : s.friendly with
            | true =>
                have same : Safe utf8 s (.data input env) ↔ s.SafeKey (keyOf utf8 input) :=
                  ⟨fun safe => safe locked friendly, fun safe _ _ => safe⟩
                rw [same, processInput, if_neg (by simpa using empty), if_neg (by simp [friendly])]
                exact press_ends h (keyOf utf8 input)
            | false =>
                have safe : Safe utf8 s (.data input env) := fun _ other => by
                  simp [friendly] at other
                refine Ends.mono_err (Ends.mono (collect_ends h friendly start utf8 empty) ?_) ?_
                · exact fun s' shows => iff_of_true shows safe
                · exact fun stop other => iff_of_true other safe

/-! What a step does to the mode of the session. -/

theorem friendly_releaseInput (t : TelnetSession) : t.releaseInput.friendly = t.friendly := by
  rw [TelnetSession.releaseInput]
  split
  · rfl
  · cases friendly : t.friendly <;> simp [friendly, TelnetSession.telnetWrite]

theorem friendly_send (t : TelnetSession) (str : QString) (release : Bool) :
    (t.send str release).friendly = t.friendly := by
  unfold TelnetSession.send
  split
  · split
    · exact friendly_releaseInput t
    · rfl
  · dsimp only
    generalize erased : (if t.friendly = true then _ else t : TelnetSession) = t'
    have same : t'.friendly = t.friendly := by
      rw [← erased]
      split <;> rfl
    split
    · split
      · rw [TelnetSession.updateCLI_eq]
        exact same
      · exact same
    · split
      · exact (friendly_releaseInput _).trans same
      · exact same

theorem RawAtStart.of_same {t : EditingSession} (start : RawAtStart s)
    (friendly : t.friendly = s.friendly) (same : TelnetSession.SameLine s.toTelnetSession
      t.toTelnetSession) : RawAtStart t :=
  fun raw => same.linePos.trans (start (friendly.symm.trans raw))

theorem friendly_sends (texts : QStringList) (t : TelnetSession) :
    (texts.foldl (fun t str => t.send str false) t).friendly = t.friendly := by
  induction texts generalizing t with
  | nil => rfl
  | cons str rest ih => exact (ih _).trans (friendly_send t str false)

/-- The keys which do not start a command. -/
theorem friendly_press {key : Key} (other : key ≠ .enter) :
    Ends (fun _ => True) (s.press env key) fun s' => s'.friendly = s.friendly := by
  have recalled (entry : QString) :
      ((s.toTelnetSession.eraseLine true).cliWrite entry).friendly = s.friendly :=
    (TelnetSession.edited_cliWrite (s.toTelnetSession.eraseLine true) entry).friendly.trans rfl
  cases key with
  | cursorLeft => exact ends_pure.mpr (TelnetSession.edited_moveCursor _ _).friendly
  | cursorRight => exact ends_pure.mpr (TelnetSession.edited_moveCursor _ _).friendly
  | home => exact ends_pure.mpr (TelnetSession.edited_moveWhile _ _).friendly
  | toEnd => exact ends_pure.mpr (TelnetSession.edited_moveWhile _ _).friendly
  | up =>
      rw [press]
      split
      · exact rfl
      · exact Ends.bind (M := fun _ => True) (ends_whenever.mpr fun _ _ => trivial)
          fun entry _ => recalled entry
  | down =>
      rw [press]
      split
      · exact rfl
      · dsimp only
        split
        · exact Ends.bind (M := fun _ => True) (ends_whenever.mpr fun _ _ => trivial)
            fun entry _ => recalled entry
        · exact rfl
  | enter => exact absurd rfl other
  | backspace =>
      rw [press]
      split
      · exact rfl
      · exact ends_pure.mpr ((TelnetSession.edited_updateCLI _).friendly.trans rfl)
  | delete =>
      rw [press]
      split
      · exact rfl
      · exact ends_pure.mpr ((TelnetSession.edited_updateCLI _).friendly.trans rfl)
  | tab =>
      rw [press]
      split
      · exact trivial
      · exact ends_pure.mpr ((TelnetSession.edited_moveCursorBy _ _).friendly.trans
          ((TelnetSession.edited_cliWrite _ _).friendly.trans (friendly_sends _ _)))
  | text msg => exact ends_pure.mpr (TelnetSession.edited_cliWrite _ _).friendly
  | ignored => exact rfl

/-- Only `enter` leaves the friendly mode, and it leaves the cursor at the start. -/
theorem press_rawAtStart (friendly : s.friendly = true) (key : Key) :
    Ends (fun _ => True) (s.press env key) RawAtStart := by
  by_cases enter : key = .enter
  · subst enter
    rw [press]
    dsimp only
    split
    · intro raw
      exact absurd (friendly.symm.trans raw) (by decide)
    · exact Ends.bind (M := fun _ => True) (ends_whenever.mpr fun _ _ => trivial)
        fun s' _ => ends_pure.mpr fun _ => rfl
  · refine (friendly_press enter).mono fun s' same raw => ?_
    exact absurd (friendly.symm.trans (same.symm.trans raw)) (by decide)

theorem step_rawAtStart (start : RawAtStart s) (utf8 : Utf8) (event : Event Node) :
    Ends (fun _ => True) (s.step utf8 event) RawAtStart := by
  cases event with
  | send str release =>
      exact ends_pure.mpr (start.of_same (friendly_send _ _ _) (TelnetSession.sameLine_send _ _ _))
  | releaseInput =>
      exact ends_pure.mpr (start.of_same (friendly_releaseInput _)
        (TelnetSession.sameLine_releaseInput _))
  | data input env =>
      rw [step]
      split
      · exact start
      · rw [processInput]
        split
        · exact start
        · split
          · rename_i raw
            have zero : s.linePos = 0 := start (by simpa using raw)
            split
            · exact ends_pure.mpr fun _ => zero
            · -- the command may end the raw mode, the cursor stays where it is
              refine Ends.bind (M := fun s' => s'.linePos = 0) ?_ fun s' same =>
                ends_pure.mpr fun _ => same
              rw [received]
              split
              · exact trivial
              · exact trivial
              · rename_i t result
                exact ends_pure.mpr ((TelnetSession.sameLine_cmdReceived result).linePos.trans zero)
          · rename_i friendly
            exact press_rawAtStart (by simpa using friendly) _

/-! ## Runs -/

theorem constructed_shows (serverInfo : QString) (histPos : Int) :
    Shows (constructed serverInfo histPos) {} := by
  have set := TelnetSession.sameLine_setFriendlyCLI { friendly := true } false
  have same := set.trans (TelnetSession.sameLine_send _ serverInfo true)
  exact ⟨⟨same.currentLine, same.linePos⟩, rfl, fun some => absurd rfl some⟩

theorem constructed_rawAtStart (serverInfo : QString) (histPos : Int) :
    RawAtStart (constructed serverInfo histPos) :=
  fun _ => (constructed_shows serverInfo histPos).views.cursor

/-- From the state which the constructor leaves, the cursor stays in the line, the history is
    only read where it has an entry, and the line is the one of an ideal editor, if and only if
    no key recalls a line while the place in the history is still what the constructor left. -/
theorem evolves_iff (utf8 : Utf8) (serverInfo : QString) (histPos : Int)
    (events : List (Event Node)) :
    ((∀ x, Runs.Reaches (Execution.step utf8) ⟨constructed serverInfo histPos, {}⟩ events x →
        (0 ≤ x.session.linePos ∧ x.session.linePos ≤ x.session.currentLine.length) ∧
          Shows x.session x.editor) ∧
      ∀ stop, events.foldlM (Execution.step utf8) ⟨constructed serverInfo histPos, {}⟩ =
        .error stop → ¬ stop = .historyRange) ↔
      Runs.Throughout (Execution.step utf8) (fun x event => Safe utf8 x.session event)
        ⟨constructed serverInfo histPos, {}⟩ events := by
  have start := constructed_shows serverInfo histPos
  refine Runs.sound_iff (J := fun x : Execution => RawAtStart x.session) ⟨start.views.inside, start⟩
    (constructed_rawAtStart serverInfo histPos) Runs.throughout_true ?_ ?_ ?_
  · intro x event x' raw _ _ ran
    obtain ⟨s', first, rest⟩ := bind_eq_ok.mp ran
    cases rest
    exact (step_rawAtStart raw utf8 event).of_ok first
  · rintro x event x' raw ⟨-, shows⟩ _ ran
    obtain ⟨s', first, rest⟩ := bind_eq_ok.mp ran
    cases rest
    have same := (step_ends shows raw utf8 event).of_ok first
    exact ⟨fun h => same.mp h.2, fun safe => ⟨(same.mpr safe).views.inside, same.mpr safe⟩⟩
  · rintro x event stop raw ⟨-, shows⟩ _ failed
    have failed' : x.session.step utf8 event = .error stop := by
      cases result : x.session.step utf8 event with
      | ok s' =>
          rw [Execution.step, result] at failed
          cases failed
      | error stop' =>
          rw [Execution.step, result] at failed
          exact congrArg Except.error (Except.error.inj failed)
    exact (step_ends shows raw utf8 event).of_error failed'

/-- A network whose only nodes are the model and the list of remotes. -/
def remotesCircumstances : Circumstances Bool :=
  let tree : HelpTree Bool :=
    { TelnetSession.remotesModels.network with
      variablesNames := fun _ => []
      kind := fun n => if n then .remoteList else .networkModel
      help := fun _ => {}
      made := fun _ => Help.made_new _ }
  { TelnetSession.remotesModels with
    networkHelp := tree
    eventHelp := tree
    network_help := rfl
    event_help := rfl
    completing := false
    fuel := 5 }

/-- With 1 where the constructor leaves no value, the first `up` reads an entry of an empty
    history; with -1, `down` deletes the line. -/
theorem not_evolves_unset :
    [Event.data (StdString.ofString "#friendly\n") remotesCircumstances,
        .data (StdString.ofString "\x1B[A") remotesCircumstances].foldlM (Execution.step latin1)
        ⟨constructed "VoxPopuli" 1, {}⟩ = .error .historyRange ∧
      ∃ x, [Event.data (StdString.ofString "#friendly\n") remotesCircumstances,
          .data (StdString.ofString "a") remotesCircumstances,
          .data (StdString.ofString "\x1B[B") remotesCircumstances].foldlM (Execution.step latin1)
          ⟨constructed "VoxPopuli" (-1), {}⟩ = .ok x ∧
        x.session.currentLine = [] ∧ x.editor.line.contents = "a" :=
  ⟨rfl, _, rfl, rfl, rfl⟩

end EditingSession

end VoxPopuli
