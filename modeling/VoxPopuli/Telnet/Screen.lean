import VoxPopuli.Lib.Cells
import VoxPopuli.Telnet.LineEditor

/-! # What a friendly session shows

The terminal of a client is a row of cells with a cursor. A session which edits a line redraws
it with its own mixture of blanks, texts and cursor moves; each key and each message ends with
the prompt, the line and then blanks, with the cursor in the line. Only `enter` on an empty line
goes to a new row and leaves it without a prompt.
-/

namespace VoxPopuli

open EditLine

/-! ## The terminal -/

/-- Characters which take a cell. -/
def QChar.Printable (c : QChar) : Prop := 0x20 ≤ c.val ∧ ¬ (0x7F ≤ c.val ∧ c.val < 0xA0)

instance (c : QChar) : Decidable c.Printable := inferInstanceAs (Decidable (_ ∧ _))

/-- How much of an escape sequence has been read. -/
inductive Sequence where
  | ground
  | escape
  | bracket
  deriving DecidableEq

structure Terminal extends Cells.Row QChar where
  sequence : Sequence

namespace Terminal

/-- A text and then only blanks. -/
abbrev rowOf (text : QString) : Nat → QChar := Cells.ofList (' ' : QChar) text

/-- The empty row. -/
def empty : Terminal := ⟨⟨rowOf [], 0⟩, .ground⟩

/-- A newline goes to an empty row; `ESC [ C` and `ESC [ D` move the cursor, and the other
    control sequences are left alone. -/
def receive (t : Terminal) (c : QChar) : Terminal :=
  if c = '\n' then empty
  else if c = '\r' then ⟨{ t.toRow with col := 0 }, .ground⟩
  else if c = 0x1B then { t with sequence := .escape }
  else
    match t.sequence with
    | .ground => if c.Printable then ⟨t.toRow.put c, .ground⟩ else t
    | .escape => { t with sequence := if c = '[' then .bracket else .ground }
    | .bracket =>
        if c = 'C' then ⟨{ t.toRow with col := t.col + 1 }, .ground⟩
        else if c = 'D' then ⟨{ t.toRow with col := t.col - 1 }, .ground⟩
        else if 0x40 ≤ c.val ∧ c.val ≤ 0x7E then { t with sequence := .ground }
        else t

def feed (t : Terminal) (text : QString) : Terminal := text.foldl receive t

/-- The text arrives as it was written. -/
def display (t : Terminal) : Output → Terminal
  | .text data => t.feed data
  | .negotiate _ => t

theorem feed_append (t : Terminal) (a b : QString) : t.feed (a ++ b) = (t.feed a).feed b :=
  List.foldl_append

theorem receive_printable (r : Cells.Row QChar) {c : QChar} (printable : c.Printable) :
    receive ⟨r, .ground⟩ c = ⟨r.put c, .ground⟩ := by
  have range : 0x20 ≤ c.val := printable.1
  have newline : c ≠ '\n' := by
    rintro rfl
    exact absurd range (by decide)
  have carriage : c ≠ '\r' := by
    rintro rfl
    exact absurd range (by decide)
  have escape : c ≠ 0x1B := by
    rintro rfl
    exact absurd range (by decide)
  simp [receive, newline, carriage, escape, printable]

/-- A printable text is written into the row. -/
theorem feed_printable (r : Cells.Row QChar) {text : QString}
    (printable : ∀ c ∈ text, c.Printable) :
    feed ⟨r, .ground⟩ text = ⟨r.write text, .ground⟩ := by
  induction text generalizing r with
  | nil => rfl
  | cons c rest ih =>
      have first := receive_printable r (printable c List.mem_cons_self)
      rw [feed, List.foldl_cons, first]
      exact ih (r.put c) fun c member => printable c (List.mem_cons_of_mem _ member)

theorem feed_left (r : Cells.Row QChar) :
    feed ⟨r, .ground⟩ "\x1B[D" = ⟨{ r with col := r.col - 1 }, .ground⟩ := by
  rfl

theorem feed_right (r : Cells.Row QChar) :
    feed ⟨r, .ground⟩ "\x1B[C" = ⟨{ r with col := r.col + 1 }, .ground⟩ := by
  rfl

/-- After a newline nothing of the row is left. -/
theorem feed_newline (t : Terminal) (text : QString) :
    t.feed (text ++ ("\n" : QString)) = empty := by
  rw [feed_append]
  rfl

/-- The row of a prompt with a line, and the cursor in it. -/
def prompt (line : QString) (col : Nat) : Terminal :=
  ⟨⟨rowOf (('>' : QChar) :: line), col⟩, .ground⟩

/-- A text which is written at a place of the line. -/
theorem feed_prompt (a b : QString) {text : QString} (printable : ∀ c ∈ text, c.Printable) :
    (prompt (a ++ b) (1 + a.length)).feed text =
      prompt (a ++ text ++ b.drop text.length) (1 + (a ++ text).length) := by
  have written : Cells.Row.write ⟨rowOf ((('>' : QChar) :: a) ++ b),
      (('>' : QChar) :: a).length⟩ text = _ := Cells.write_ofList _ b text
  rw [prompt, feed_printable _ printable, prompt]
  refine congrArg (Terminal.mk · .ground) ?_
  rw [Nat.add_comm 1, Nat.add_comm 1]
  exact written

theorem feed_lefts (cells : Nat → QChar) (col n : Nat) :
    (List.replicate n ("\x1B[D" : QString)).foldl feed ⟨⟨cells, col⟩, .ground⟩ =
      ⟨⟨cells, col - n⟩, .ground⟩ := by
  induction n generalizing col with
  | zero => rfl
  | succ n ih =>
      rw [List.replicate_succ, List.foldl_cons, feed_left, ih, Nat.sub_sub, Nat.add_comm 1]

/-- The blanks of an erased line cover what stands there, and two cells more. -/
theorem feed_erased {t : Terminal} {old : QString} (cells : t.cells = rowOf old) {n : Nat}
    (enough : old.length ≤ n + 2) :
    t.feed (("\r" : QString) ++ TelnetSession.spaces n ++ ("  \r>" : QString)) = prompt [] 1 := by
  have returned : t.feed "\r" = ⟨⟨rowOf old, 0⟩, .ground⟩ := by
    rw [← cells]
    rfl
  have blanks : (("\r" : QString) ++ TelnetSession.spaces n ++ ("  \r>" : QString)) =
      ("\r" : QString) ++ (List.replicate (n + 2) (' ' : QChar) ++ ("\r>" : QString)) := by
    rw [List.append_assoc, ← List.replicate_append_replicate, List.append_assoc]
    rfl
  have printable : ∀ c ∈ List.replicate (n + 2) (' ' : QChar), c.Printable := by
    intro c member
    rw [List.eq_of_mem_replicate member]
    decide
  rw [blanks, feed_append, returned, feed_append, feed_printable _ printable,
    Cells.write_blanks old enough]
  have drawn : Cells.Row.put ⟨rowOf ([] ++ []), 0⟩ ('>' : QChar) = _ :=
    Cells.put_ofList [] [] ('>' : QChar)
  have written : feed ⟨⟨rowOf [], n + 2⟩, .ground⟩ ("\r>" : QString) =
      ⟨Cells.Row.put ⟨rowOf [], 0⟩ ('>' : QChar), .ground⟩ := rfl
  rw [written]
  exact congrArg (Terminal.mk · .ground) drawn

end Terminal

/-! ## The row of a session -/

namespace TelnetSession

/-- The terminal after everything that has been written. -/
def terminal (s : TelnetSession) : Terminal := s.written.foldl Terminal.display .empty

/-- The row is the prompt, the line and then blanks, the cursor stands in the line, and no
    escape sequence is left open. -/
structure ShowsPrompt (s : TelnetSession) : Prop where
  cells : s.terminal.cells = Terminal.rowOf (('>' : QChar) :: s.currentLine)
  col : (s.terminal.col : Int) = 1 + s.linePos
  sequence : s.terminal.sequence = .ground

/-- The same with the cursor as a place between characters which can be shown. -/
structure Displays (s : TelnetSession) (z : Zipper QChar) : Prop where
  views : s.Views z
  printable : ∀ c ∈ z.contents, c.Printable
  terminal : s.terminal = .prompt z.contents (1 + z.cursor)

variable {s : TelnetSession} {z : Zipper QChar}

theorem terminal_of_written {s' : TelnetSession} (texts : QStringList)
    (written : s'.written = s.written ++ texts.map Output.text) :
    s'.terminal = texts.foldl Terminal.feed s.terminal := by
  rw [terminal, written, List.foldl_append, List.foldl_map]
  rfl

theorem Displays.showsPrompt (h : s.Displays z) : s.ShowsPrompt := by
  constructor
  · rw [h.terminal, h.views.line]
    rfl
  · rw [h.terminal, h.views.cursor]
    simp [Terminal.prompt]
  · rw [h.terminal]
    rfl

theorem ShowsPrompt.displays (h : s.ShowsPrompt) (views : s.Views z)
    (printable : ∀ c ∈ z.contents, c.Printable) : s.Displays z := by
  refine ⟨views, printable, ?_⟩
  obtain ⟨cells, col, sequence⟩ := h
  rw [views.line] at cells
  have place : s.terminal.col = 1 + z.cursor := by
    have cursor := views.cursor
    omega
  rcases whole : s.terminal with ⟨⟨cells', col'⟩, sequence'⟩
  rw [whole] at cells place sequence
  cases cells
  cases place
  cases sequence
  rfl

/-- A line which is drawn anew over a row which was not much longer. -/
theorem displays_updateCLI (views : s.Views z) (printable : ∀ c ∈ z.contents, c.Printable)
    {old : QString} (cells : s.terminal.cells = Terminal.rowOf old)
    (enough : old.length ≤ z.contents.length + 2) : s.updateCLI.Displays z := by
  refine ⟨views.updateCLI, printable, ?_⟩
  have bound := z.cursor_le
  have cursor := views.cursor
  have line : s.currentLine = z.contents := views.line
  have back : (s.currentLine.length - s.linePos).toNat = z.contents.length - z.cursor := by
    rw [line, cursor]
    omega
  have drawn : (Terminal.prompt [] 1).feed z.contents =
      .prompt z.contents (1 + z.contents.length) := by
    simpa using Terminal.feed_prompt [] [] printable
  have redrawn : s.updateCLI.terminal = s.refreshed.foldl Terminal.feed s.terminal :=
    terminal_of_written _ (by rw [updateCLI_eq])
  rw [redrawn, refreshed, back, line, List.foldl_append, List.foldl_cons,
    List.foldl_cons, List.foldl_nil, Terminal.feed_erased cells enough, drawn, Terminal.prompt,
    Terminal.feed_lefts, Terminal.prompt]
  congr 3
  omega

/-! ## What each function of the editor leaves on the screen -/

theorem Displays.eraseLine (h : s.Displays z) : (s.eraseLine true).Displays {} := by
  refine ⟨views_eraseLine s, by simp [Zipper.contents], ?_⟩
  have line : s.currentLine = z.contents := h.views.line
  have cells : s.terminal.cells = Terminal.rowOf (('>' : QChar) :: z.contents) := by
    rw [h.terminal]
    rfl
  have erased : (s.eraseLine true).terminal = s.terminal.feed
      (("\r" : QString) ++ spaces s.currentLine.length ++ ("  \r>" : QString)) :=
    terminal_of_written
      [("\r" : QString) ++ spaces s.currentLine.length ++ ("  \r>" : QString)] rfl
  rw [erased, Terminal.feed_erased cells (by simp [line])]
  rfl

theorem Displays.moveCursor (h : s.Displays z) (toLeft : Bool) :
    (s.moveCursor toLeft).2.Displays (stepped toLeft z) := by
  have views := h.views.moveCursor toLeft
  refine ⟨views, by simpa only [contents_stepped] using h.printable, ?_⟩
  by_cases stop : s.AtEnd toLeft
  · rw [moveCursor_of_atEnd stop, h.views.stepped_of_atEnd stop]
    exact h.terminal
  · have next := h.views.nextPos stop
    have cursor := h.views.cursor
    have moved : (s.moveCursor toLeft).2.terminal = s.terminal.feed (arrow toLeft) := by
      rw [moveCursor_of_not_atEnd stop]
      exact terminal_of_written [arrow toLeft] rfl
    rw [moved, h.terminal, contents_stepped]
    cases toLeft with
    | true =>
        have right : s.nextPos true = s.linePos + 1 := rfl
        have place : 1 + z.cursor + 1 = 1 + (stepped true z).cursor := by omega
        rw [← place]
        exact Terminal.feed_right _
    | false =>
        have left : s.nextPos false = s.linePos - 1 := rfl
        have free : ¬ s.linePos ≤ 0 := stop
        have place : 1 + z.cursor - 1 = 1 + (stepped false z).cursor := by omega
        rw [← place]
        exact Terminal.feed_left _

theorem Displays.moveWhile (h : s.Displays z) (toLeft : Bool) :
    (s.moveWhile toLeft).Displays (if toLeft then z.toEnd else z.home) := by
  have keeps : ∀ t : TelnetSession, (∃ z', t.Displays z') →
      ∃ z', (t.moveCursor toLeft).2.Displays z' :=
    fun t ⟨z', shown⟩ => ⟨_, shown.moveCursor toLeft⟩
  obtain ⟨z', shown⟩ := (moveWhile_ends (P := fun t => ∃ z', t.Displays z') keeps ⟨z, h⟩).1
  exact shown.views.unique (h.views.moveWhile toLeft) ▸ shown

theorem terminal_cliWrite_of_last (last : s.linePos = s.currentLine.length) (output : QString) :
    (s.cliWrite output).terminal = s.terminal.feed output := by
  have written : (s.cliWrite output).written = s.written ++ [output].map Output.text := by
    rw [cliWrite, if_pos last]
    rfl
  exact terminal_of_written _ written

theorem terminal_cliWrite_of_not_last (inside : s.linePos ≠ s.currentLine.length)
    (output : QString) :
    (s.cliWrite output).terminal =
      (List.replicate ((s.currentLine.insert s.linePos output).length -
        (s.linePos + output.length)).toNat ("\x1B[D" : QString)).foldl Terminal.feed
        (s.terminal.feed ((s.currentLine.insert s.linePos output).mid s.linePos)) := by
  have written : (s.cliWrite output).written =
      s.written ++ ((s.currentLine.insert s.linePos output).mid s.linePos ::
        List.replicate ((s.currentLine.insert s.linePos output).length -
          (s.linePos + output.length)).toNat ("\x1B[D" : QString)).map Output.text := by
    rw [cliWrite, if_neg inside, backToCursor_eq]
    simp [telnetWrite]
  exact terminal_of_written _ written

theorem printable_insert (old : ∀ c ∈ z.contents, c.Printable) {output : QString}
    (new : ∀ c ∈ output, c.Printable) : ∀ c ∈ (z.insert output).contents, c.Printable := by
  intro c member
  rcases List.mem_append.mp member with front | behind
  · rcases List.mem_append.mp front with before | inserted
    · exact old c (List.mem_append_left _ before)
    · exact new c inserted
  · exact old c (List.mem_append_right _ behind)

theorem Displays.cliWrite (h : s.Displays z) {output : QString}
    (printable : ∀ c ∈ output, c.Printable) : (s.cliWrite output).Displays (z.insert output) := by
  refine ⟨h.views.cliWrite output, printable_insert h.printable printable, ?_⟩
  have line : s.currentLine = z.contents := h.views.line
  have cursor := h.views.cursor
  have bound := z.cursor_le
  by_cases last : s.linePos = s.currentLine.length
  · have none : z.after = [] := by
      have size : (z.cursor : Int) = z.contents.length := by rw [← cursor, last, line]
      simp only [Zipper.contents, Zipper.cursor, List.length_append] at size
      exact List.length_eq_zero_iff.mp (by omega)
    have drawn := Terminal.feed_prompt z.before [] printable
    rw [terminal_cliWrite_of_last last, h.terminal]
    simpa [Zipper.contents, Zipper.insert, Zipper.cursor, none] using drawn
  · -- what stands behind the cursor is written again, and the cursor goes back over it
    have behind : (s.currentLine.insert s.linePos output).mid s.linePos = output ++ z.after := by
      rw [insert_of_views h.views, cursor, QString.mid, Int.toNat_natCast]
      simp [Zipper.contents, Zipper.insert, Zipper.cursor]
    have both : ∀ c ∈ output ++ z.after, c.Printable := by
      intro c member
      rcases List.mem_append.mp member with new | old
      · exact printable c new
      · exact h.printable c (List.mem_append_right _ old)
    have drawn : (Terminal.prompt z.contents (1 + z.cursor)).feed (output ++ z.after) =
        .prompt (z.insert output).contents (1 + (z.insert output).contents.length) := by
      have written := Terminal.feed_prompt z.before z.after both
      rw [List.drop_eq_nil_of_le (by simp), List.append_nil, ← List.append_assoc] at written
      exact written
    have back : ((s.currentLine.insert s.linePos output).length -
        (s.linePos + output.length)).toNat =
        (z.insert output).contents.length - (z.insert output).cursor := by
      rw [insert_of_views h.views, cursor, Zipper.cursor_insert]
      omega
    have inside := (z.insert output).cursor_le
    rw [terminal_cliWrite_of_not_last last, behind, h.terminal, drawn, back, Terminal.prompt,
      Terminal.feed_lefts, Terminal.prompt]
    congr 3
    omega

/-- A message which is told while a line is edited. -/
theorem send_eq (friendly : s.friendly = true) (unlocked : s.locked = false) {str : QString}
    (nonempty : str ≠ []) (release : Bool) :
    s.send str release = (((s.telnetWrite (("\r" : QString) ++ spaces s.currentLine.length ++
      ("  \r" : QString))).telnetWrite (str ++ ("\n" : QString))).telnetWrite ">").updateCLI := by
  have same : str.isEmpty = false := by simpa using nonempty
  simp [send, same, friendly, unlocked, telnetWrite]

/-- Behind a message there is a row with nothing but the prompt. -/
theorem cells_told (s : TelnetSession) (erase str : QString) :
    (((s.telnetWrite erase).telnetWrite (str ++ ("\n" : QString))).telnetWrite ">").terminal.cells =
      Terminal.rowOf (">" : QString) := by
  rw [terminal_of_written (s := s) [erase, str ++ ("\n" : QString), (">" : QString)]
    (by simp [telnetWrite]), List.foldl_cons, List.foldl_cons, Terminal.feed_newline]
  exact congrArg Cells.Row.cells (Cells.put_ofList [] [] ('>' : QChar))

theorem Displays.send (h : s.Displays z) (friendly : s.friendly = true)
    (unlocked : s.locked = false) (str : QString) (release : Bool) :
    (s.send str release).Displays z := by
  by_cases empty : str = []
  · subst empty
    cases release with
    | true => simpa [TelnetSession.send, releaseInput, unlocked] using h
    | false => exact h
  · rw [send_eq friendly unlocked empty]
    have bound : List.length (">" : QString) ≤ z.contents.length + 2 := by
      show 1 ≤ _
      omega
    exact displays_updateCLI ⟨h.views.line, h.views.cursor⟩ h.printable (cells_told s _ str) bound

end TelnetSession

namespace EditingSession

open TelnetSession TelnetSocket

variable {Node : Type}

/-! ## Keys and messages -/

/-- Printable text, the keys which move or delete, and `enter` on an empty line. -/
def ScreenKey (s : EditingSession) : Key → Prop
  | .text msg => ∀ c ∈ msg, c.Printable
  | .enter => s.currentLine = []
  | .tab => False
  | _ => True

def Listed (utf8 : Utf8) (s : EditingSession) : Event Node → Prop
  | .data input _ => s.ScreenKey (keyOf utf8 input)
  | _ => True

def Enters (utf8 : Utf8) : Event Node → Prop
  | .data input _ => keyOf utf8 input = .enter
  | _ => False

/-- A line of printable text is being edited. -/
structure Editing (s : EditingSession) : Prop where
  friendly : s.friendly = true
  unlocked : s.locked = false
  line : ∃ z, s.Views z ∧ ∀ c ∈ z.contents, c.Printable
  history : ∀ entry ∈ s.cmdHistory, ∀ c ∈ entry, c.Printable

/-- A prompt is displayed, and nothing has been typed behind it. -/
structure Prompted (s : EditingSession) : Prop where
  friendly : s.friendly = true
  unlocked : s.locked = false
  line : s.currentLine = []
  cursor : s.linePos = 0
  prompt : s.ShowsPrompt
  history : ∀ entry ∈ s.cmdHistory, ∀ c ∈ entry, c.Printable

variable {s s' : EditingSession} {env : Circumstances Node} {z z' : Zipper QChar}

/-- The line is edited and drawn. -/
theorem Editing.drawn (h : Editing s) (history : s'.cmdHistory = s.cmdHistory)
    (edited : TelnetSession.Edited s.toTelnetSession s'.toTelnetSession)
    (shown : s'.toTelnetSession.Displays z') : Editing s' ∧ s'.ShowsPrompt :=
  ⟨⟨edited.friendly.trans h.friendly, edited.locked.trans h.unlocked,
    ⟨z', shown.views, shown.printable⟩, history ▸ h.history⟩, shown.showsPrompt⟩

theorem historyAt_printable (h : Editing s) (i : Int) :
    Ends (fun _ => True) (s.historyAt i) fun entry => ∀ c ∈ entry, c.Printable := by
  rw [historyAt]
  split
  · trivial
  · split
    · rename_i entry found
      exact h.history entry (List.mem_of_getElem? found)
    · trivial

/-- An entry of the history takes the place of the line. -/
theorem recalled_ends (h : Editing s) (shown : s.toTelnetSession.Displays z) {t : EditingSession}
    (history : t.cmdHistory = s.cmdHistory)
    (erased : t.toTelnetSession = s.toTelnetSession.eraseLine true) :
    Ends (fun _ => True) (do
      let entry ← t.historyAt t.histPos
      pure (t.edit fun u => u.cliWrite entry)) fun s' => Editing s' ∧ s'.ShowsPrompt := by
  have blank : t.toTelnetSession.Displays {} := erased ▸ shown.eraseLine
  have edited : TelnetSession.Edited s.toTelnetSession t.toTelnetSession :=
    erased ▸ edited_eraseLine _ _
  have editing := (h.drawn history edited blank).1
  refine Ends.bind (historyAt_printable editing t.histPos) fun entry printable => ?_
  exact ends_pure.mpr (editing.drawn rfl (edited_cliWrite _ _) (blank.cliWrite printable))

/-- Every key but `enter` ends with the line on the screen. -/
theorem press_shows (h : Editing s) (prompt : s.ShowsPrompt) {key : Key} (listed : s.ScreenKey key)
    (other : key ≠ .enter) :
    Ends (fun _ => True) (s.press env key) fun s' => Editing s' ∧ s'.ShowsPrompt := by
  obtain ⟨z, views, printable⟩ := h.line
  have shown := prompt.displays views printable
  have cursor := views.cursor
  have length : s.currentLine.length = z.contents.length := congrArg _ views.line
  have row : s.terminal.cells = Terminal.rowOf (('>' : QChar) :: z.contents) := by
    rw [shown.terminal]
    rfl
  cases key with
  | cursorLeft => exact h.drawn rfl (edited_moveCursor _ _) (shown.moveCursor false)
  | cursorRight => exact h.drawn rfl (edited_moveCursor _ _) (shown.moveCursor true)
  | home => exact h.drawn rfl (edited_moveWhile _ _) (shown.moveWhile false)
  | toEnd => exact h.drawn rfl (edited_moveWhile _ _) (shown.moveWhile true)
  | up =>
      rw [press]
      split
      · exact ends_pure.mpr ⟨h, prompt⟩
      · exact recalled_ends h shown rfl rfl
  | down =>
      rw [press]
      split
      · exact ends_pure.mpr ⟨h, prompt⟩
      · dsimp only
        split
        · exact recalled_ends h shown rfl rfl
        · exact ends_pure.mpr
            (h.drawn rfl (edited_eraseLine s.toTelnetSession true) shown.eraseLine)
  | enter => exact absurd rfl other
  | backspace =>
      rw [press]
      split
      · exact ends_pure.mpr ⟨h, prompt⟩
      · rename_i inside
        have size := z.length_backspace (by omega)
        have shorter := displays_updateCLI (views.backspace inside)
          (fun c member => printable c (z.backspace_subset member)) row
          (by rw [List.length_cons]; omega)
        exact ends_pure.mpr (h.drawn rfl (Edited.redrawn ⟨rfl, rfl, rfl⟩) shorter)
  | delete =>
      rw [press]
      split
      · exact ends_pure.mpr ⟨h, prompt⟩
      · rename_i inside
        have size := z.length_delete (by omega)
        have shorter := displays_updateCLI (views.delete inside)
          (fun c member => printable c (z.delete_subset member)) row
          (by rw [List.length_cons]; omega)
        exact ends_pure.mpr (h.drawn rfl (Edited.redrawn ⟨rfl, rfl, rfl⟩) shorter)
  | tab => exact listed.elim
  | text msg => exact h.drawn rfl (edited_cliWrite _ _) (shown.cliWrite listed)
  | ignored => exact ends_pure.mpr ⟨h, prompt⟩

/-- `enter` on an empty line leaves an empty row. -/
theorem press_enter_blank (h : Editing s) (empty : s.currentLine = []) :
    Ends (fun _ => False) (s.press env .enter) fun s' => Editing s' ∧ ¬ s'.ShowsPrompt := by
  have pressed : s.press env .enter = .ok (s.edit fun t => t.telnetWrite "\n") :=
    if_pos (List.isEmpty_iff.mpr empty)
  rw [pressed]
  refine ends_ok.mpr ⟨⟨h.friendly, h.unlocked, ?_, h.history⟩, fun prompt => ?_⟩
  · obtain ⟨z, views, printable⟩ := h.line
    exact ⟨z, ⟨views.line, views.cursor⟩, printable⟩
  · have blank : (s.toTelnetSession.telnetWrite "\n").terminal = .empty := by
      rw [terminal_of_written [("\n" : QString)] rfl]
      exact Terminal.feed_newline s.terminal []
    have first : (' ' : QChar) = '>' := congrFun (blank ▸ prompt.cells) 0
    exact absurd first (by decide)

/-- What happens while a line is edited is drawn, but for `enter` on an empty line. -/
theorem step_shows_iff (h : Editing s) (prompt : s.ShowsPrompt) (utf8 : Utf8) {event : Event Node}
    (listed : Listed utf8 s event) :
    Ends (fun _ => ¬ Enters utf8 event) (s.step utf8 event) fun s' =>
      Editing s' ∧ (s'.ShowsPrompt ↔ ¬ Enters utf8 event) := by
  cases event with
  | send str release =>
      obtain ⟨z, views, printable⟩ := h.line
      have shown := (prompt.displays views printable).send h.friendly h.unlocked str release
      have drawn : Editing (s.edit fun t => t.send str release) ∧
          (s.edit fun t => t.send str release).ShowsPrompt :=
        h.drawn rfl (edited_send h.unlocked str release) shown
      exact ends_pure.mpr ⟨drawn.1, iff_of_true drawn.2 id⟩
  | releaseInput =>
      have same : s.toTelnetSession.releaseInput = s.toTelnetSession := by
        rw [TelnetSession.releaseInput, h.unlocked]
        rfl
      have stays : s.edit (fun t => t.releaseInput) = s := by
        rw [edit, same]
      rw [step, stays]
      exact ends_pure.mpr ⟨h, iff_of_true prompt id⟩
  | data input env =>
      rw [step, h.unlocked, if_neg (by decide), processInput]
      split
      · rename_i empty
        have nothing : keyOf utf8 input = .ignored := by
          rw [List.isEmpty_iff.mp empty, keyOf_nil]
        have other : ¬ Enters utf8 (.data input env) := by
          show ¬ keyOf utf8 input = .enter
          rw [nothing]
          simp
        exact ends_pure.mpr ⟨h, iff_of_true prompt other⟩
      · rw [if_neg (by simp [h.friendly])]
        by_cases enter : keyOf utf8 input = .enter
        · have empty : s.currentLine = [] := by
            have key : s.ScreenKey (keyOf utf8 input) := listed
            rwa [enter] at key
          rw [enter]
          refine ((press_enter_blank h empty).mono ?_).mono_err fun _ => False.elim
          rintro s' ⟨editing, blank⟩
          exact ⟨editing, iff_of_false blank fun other => other enter⟩
        · refine ((press_shows h prompt listed enter).mono ?_).mono_err fun _ _ => enter
          rintro s' ⟨editing, prompt'⟩
          exact ⟨editing, iff_of_true prompt' enter⟩

/-- From a displayed prompt on, the row reads the prompt and the line with the cursor in it after
    every key and every message if and only if `enter` is not pressed on an empty line. -/
theorem shows_prompt_iff (utf8 : Utf8) (start : Prompted s) {events : List (Event Node)}
    (listed : Runs.Throughout (step utf8) (Listed utf8) s events) :
    (∀ s', Runs.Reaches (step utf8) s events s' → s'.ShowsPrompt) ↔
      Runs.Throughout (step utf8) (fun _ event => ¬ Enters utf8 event) s events := by
  have editing : Editing s := by
    refine ⟨start.friendly, start.unlocked, ⟨{}, ⟨start.line, start.cursor⟩, ?_⟩, start.history⟩
    simp [Zipper.contents]
  have sound : ((∀ s', Runs.Reaches (step utf8) s events s' → s'.ShowsPrompt) ∧
      ∀ stop, events.foldlM (step utf8) s = .error stop → ¬ False) ↔
      Runs.Throughout (step utf8) (fun _ event => ¬ Enters utf8 event) s events := by
    refine Runs.sound_iff (J := Editing) start.prompt editing listed ?_ ?_ ?_
    · intro s event s' h prompt here ran
      exact ((step_shows_iff h prompt utf8 here).of_ok ran).1
    · intro s event s' h prompt here ran
      exact ((step_shows_iff h prompt utf8 here).of_ok ran).2
    · intro s event stop h prompt here failed
      exact iff_of_true id ((step_shows_iff h prompt utf8 here).of_error failed)
  simpa using sound

/-- A session with a prompt and one line in its history. -/
def promptedSession : EditingSession where
  mode := .network
  friendly := true
  locked := false
  written := [.text ">"]
  cmdHistory := ["print()"]
  histPos := 1

theorem promptedSession_prompted : Prompted promptedSession where
  friendly := rfl
  unlocked := rfl
  line := rfl
  cursor := rfl
  prompt := ⟨congrArg Cells.Row.cells (Cells.put_ofList [] [] ('>' : QChar)), rfl, rfl⟩
  history := by
    intro entry member
    rw [List.mem_singleton.mp member]
    have all : ("print()" : QString).all (fun c => decide c.Printable) = true := by decide
    exact fun c member => of_decide_eq_true (List.all_eq_true.mp all c member)

/-- A letter, a message, and the line before it. -/
def typed : List (Event Bool) :=
  [.data (StdString.ofString "a") remotesCircumstances, .send "done" false,
    .data (StdString.ofString "\x1B[A") remotesCircumstances]

theorem shows_prompt_typed :
    Runs.Throughout (step latin1) (fun _ event => ¬ Enters latin1 event) promptedSession typed ∧
      ∀ s', Runs.Reaches (step latin1) promptedSession typed s' → s'.ShowsPrompt := by
  have letter : keyOf latin1 (StdString.ofString "a") = .text "a" := by decide
  have up : keyOf latin1 (StdString.ofString "\x1B[A") = .up := by decide
  have calm : Runs.Throughout (step latin1) (fun _ event => ¬ Enters latin1 event) promptedSession
      typed := by
    refine ⟨?_, fun _ _ => ⟨id, fun _ _ => ⟨?_, fun _ _ => trivial⟩⟩⟩
    · show ¬ keyOf latin1 _ = .enter
      rw [letter]
      exact nofun
    · show ¬ keyOf latin1 _ = .enter
      rw [up]
      exact nofun
  have listed : Runs.Throughout (step latin1) (Listed latin1) promptedSession typed := by
    refine ⟨?_, fun _ _ => ⟨trivial, fun _ _ => ⟨?_, fun _ _ => trivial⟩⟩⟩
    · show ScreenKey promptedSession (keyOf latin1 (StdString.ofString "a"))
      have all : ("a" : QString).all (fun c => decide c.Printable) = true := by decide
      rw [letter]
      exact fun c member => of_decide_eq_true (List.all_eq_true.mp all c member)
    · rename_i s' _ _ _
      show ScreenKey s' (keyOf latin1 (StdString.ofString "\x1B[A"))
      rw [up]
      trivial
  exact ⟨calm, (shows_prompt_iff latin1 promptedSession_prompted listed).mpr calm⟩

/-- After `enter` on an empty line the prompt is missing. -/
theorem not_shows_prompt_enter :
    Prompted promptedSession ∧ Listed latin1 promptedSession
        (.data (StdString.ofString "\r") remotesCircumstances) ∧
      ∃ s', step latin1 promptedSession (.data (StdString.ofString "\r") remotesCircumstances) =
        .ok s' ∧ ¬ s'.ShowsPrompt := by
  refine ⟨promptedSession_prompted, rfl, _, rfl, fun prompt => ?_⟩
  have first : (' ' : QChar) = '>' := congrFun prompt.cells 0
  exact absurd first (by decide)

end EditingSession

end VoxPopuli
