import VoxPopuli.Lib.Delimited
import VoxPopuli.QUtf8
import VoxPopuli.Telnet.TelnetSocket

/-! # The input of a raw session

`processInput` as long as the session is raw and its input unlocked: every chunk is
decoded by itself and appended to the current line, which is a command as soon as it
ends with a newline. Only the end of a chunk is looked at.
-/

namespace VoxPopuli

namespace TelnetSocket

def newline : Byte := 0x0A

/-- A decoder with what the session relies on: newlines are bytes and characters alike, and
    so is everything in the ASCII range. -/
structure Utf8 where
  decode : List Byte → QString
  count_newline : ∀ b, (decode b).count ('\n' : QChar) = b.count newline
  last_newline : ∀ b, (decode b).getLast? = some ('\n' : QChar) ↔ b.getLast? = some newline
  ascii : ∀ b, (∀ x ∈ b, x.val < 128) → decode b = b.map widen

/-- The one of the program. -/
def fromUtf8 : Utf8 where
  decode := QString.fromUtf8
  count_newline := QUtf8.count_fromUtf8 (c := newline) (by decide)
  last_newline := QUtf8.getLast?_fromUtf8 (c := newline) (by decide)
  ascii _ := QUtf8.fromUtf8_ascii

/-- The bytes of a chunk which reach its string: all before the first NUL. -/
def visible (input : List Byte) : List Byte := input.takeWhile (· ≠ 0)

/-- `QString(input)`. -/
def text (utf8 : Utf8) (input : List Byte) : QString := utf8.decode (visible input)

/-- The command which is received, if any, and the current line afterwards. -/
def processInput (utf8 : Utf8) (currentLine : QString) (input : List Byte) :
    Option QString × QString :=
  if input.isEmpty then (none, currentLine)
  else
    let currentLine := currentLine ++ text utf8 input
    if currentLine.getLast? = some ('\n' : QChar) then
      (some (removeChar (removeChar currentLine '\r') '\n'), [])
    else (none, currentLine)

/-- The commands received from a sequence of chunks. -/
def commands (utf8 : Utf8) (currentLine : QString) : List (List Byte) → QStringList
  | [] => []
  | input :: rest =>
      let (cmd, currentLine) := processInput utf8 currentLine input
      cmd.toList ++ commands utf8 currentLine rest

/-- The lines of a stream of bytes, without carriage returns. -/
def lines (utf8 : Utf8) (stream : List Byte) : QStringList :=
  (Delimited.blocks newline [] stream).map fun line => removeChar (utf8.decode line) '\r'

/-- The parts in which the chunks bring the lines, the first line starting with `pending`. -/
def lineParts (pending : List (List Byte)) : List (List Byte) → List (List (List Byte))
  | [] => []
  | input :: rest =>
      let front := input.takeWhile (· ≠ newline)
      if front.length < input.length then
        (pending ++ [front]) :: lineParts [input.drop (front.length + 1)] rest
      else lineParts (pending ++ [input]) rest

/-- A newline in the chunk is its only one and the last byte which is seen. -/
def EndsLine (input : List Byte) : Prop :=
  input.count newline = if (visible input).getLast? = some newline then 1 else 0

instance (input : List Byte) : Decidable (EndsLine input) :=
  inferInstanceAs (Decidable (_ = _))

variable (utf8 : Utf8)

theorem text_last (input : List Byte) :
    (text utf8 input).getLast? = some ('\n' : QChar) ↔ (visible input).getLast? = some newline :=
  utf8.last_newline (visible input)

theorem text_count_le (input : List Byte) :
    (text utf8 input).count ('\n' : QChar) ≤ input.count newline := by
  rw [text, utf8.count_newline]
  exact (List.takeWhile_sublist _).count_le newline

variable {utf8}

theorem removeChar_of_not_mem {s : QString} {c : QChar} (absent : c ∉ s) : removeChar s c = s := by
  apply List.filter_eq_self.mpr
  intro x member
  have other : x ≠ c := by
    rintro rfl
    exact absent member
  simpa using other

@[simp] theorem text_nil : text utf8 [] = [] := utf8.ascii [] (by simp)

theorem processInput_of_last {currentLine : QString} {input : List Byte}
    (last : (currentLine ++ text utf8 input).getLast? = some ('\n' : QChar))
    (nonempty : input.isEmpty = false) :
    processInput utf8 currentLine input =
      (some (removeChar (removeChar (currentLine ++ text utf8 input) '\r') '\n'), []) := by
  rw [processInput, if_neg (by simp [nonempty])]
  exact if_pos last

theorem processInput_of_not_last {currentLine : QString} {input : List Byte}
    (last : (currentLine ++ text utf8 input).getLast? ≠ some ('\n' : QChar)) :
    processInput utf8 currentLine input = (none, currentLine ++ text utf8 input) := by
  cases empty : input.isEmpty with
  | true =>
      obtain rfl : input = [] := by simpa using empty
      simp [processInput]
  | false =>
      rw [processInput, if_neg (by simp [empty])]
      exact if_neg last

theorem processInput_open {currentLine : QString} (noLine : ('\n' : QChar) ∉ currentLine)
    {input : List Byte} (noNewline : ('\n' : QChar) ∉ text utf8 input) :
    processInput utf8 currentLine input = (none, currentLine ++ text utf8 input) := by
  apply processInput_of_not_last
  intro last
  rcases List.mem_append.mp (List.mem_of_getLast? last) with old | new
  · exact noLine old
  · exact noNewline new

theorem processInput_ended {currentLine front : QString}
    (noLine : ('\n' : QChar) ∉ currentLine ++ front) {input : List Byte}
    (ended : text utf8 input = front ++ [('\n' : QChar)]) :
    processInput utf8 currentLine input =
      (some (removeChar (currentLine ++ front) '\r'), []) := by
  have nonempty : input.isEmpty = false := by
    cases input with
    | nil => simp at ended
    | cons b input => rfl
  have whole : removeChar (removeChar (currentLine ++ (front ++ [('\n' : QChar)])) '\r') '\n' =
      removeChar (currentLine ++ front) '\r' := by
    have line := removeChar_of_not_mem noLine
    rw [removeChar] at line
    rw [← List.append_assoc, removeChar, removeChar, List.filter_comm, List.filter_append, line]
    simp [removeChar]
  rw [processInput_of_last (by simp [ended]) nonempty, ended, whole]

/-- A chunk which ends its line brings a part without a newline, and behind the newline nothing
    which is seen. -/
theorem EndsLine.cases {input : List Byte} (h : EndsLine input) :
    newline ∉ input ∨ ∃ front hidden, input = front ++ newline :: hidden ∧ newline ∉ front ∧
      newline ∉ hidden ∧ visible input = front ++ [newline] ∧ visible front = front ∧
      visible hidden = [] := by
  rw [EndsLine] at h
  split at h
  · rename_i last
    obtain ⟨front, seen⟩ := List.getLast?_eq_some_iff.mp last
    have split : visible input ++ input.dropWhile (· ≠ 0) = input :=
      List.takeWhile_append_dropWhile
    generalize rest : input.dropWhile (· ≠ 0) = hidden at split
    rw [seen, List.append_assoc, List.singleton_append] at split
    rw [← split, List.count_append, List.count_cons_self] at h
    refine .inr ⟨front, hidden, split.symm, List.count_eq_zero.mp (by omega),
      List.count_eq_zero.mp (by omega), seen, ?_, ?_⟩
    · rw [visible, List.takeWhile_eq_self_iff]
      intro c member
      have inside : c ∈ visible input := by simp [seen, member]
      simpa using List.mem_takeWhile_imp inside
    · have stops := List.head?_dropWhile_not (· ≠ 0) input
      rw [rest] at stops
      cases hidden with
      | nil => rfl
      | cons c hidden =>
          rw [visible, List.takeWhile_cons, if_neg (by simpa using stops)]
  · exact .inl (List.count_eq_zero.mp h)

theorem lineParts_open {pending : List (List Byte)} {input : List Byte} (absent : newline ∉ input)
    (rest : List (List Byte)) :
    lineParts pending (input :: rest) = lineParts (pending ++ [input]) rest := by
  have whole : input.takeWhile (· ≠ newline) = input := by
    rw [List.takeWhile_eq_self_iff]
    intro c member
    have other : c ≠ newline := fun same => absent (same ▸ member)
    simpa using other
  rw [lineParts, whole, if_neg (lt_irrefl _)]

theorem lineParts_ended {pending : List (List Byte)} {front hidden : List Byte}
    (absent : newline ∉ front) (rest : List (List Byte)) :
    lineParts pending ((front ++ newline :: hidden) :: rest) =
      (pending ++ [front]) :: lineParts [hidden] rest := by
  have stops : (front ++ newline :: hidden).takeWhile (· ≠ newline) = front := by
    rw [List.takeWhile_append_of_pos]
    · simp
    · intro c member
      have other : c ≠ newline := fun same => absent (same ▸ member)
      simpa using other
  have before : front.length < (front ++ newline :: hidden).length := by simp
  have behind : (front ++ newline :: hidden).drop (front.length + 1) = hidden := by
    rw [← List.drop_drop, List.drop_left, List.drop_one, List.tail_cons]
  simp only [lineParts, stops, if_pos before, behind]

theorem notMem_text {part : List Byte} (absent : newline ∉ part) :
    ('\n' : QChar) ∉ text utf8 part := by
  have bound := text_count_le utf8 part
  rw [List.count_eq_zero_of_not_mem absent] at bound
  exact List.count_eq_zero.mp (Nat.le_zero.mp bound)

/-- If every chunk ends its line, the session reads the lines part by part. -/
theorem commands_eq_parts {chunks : List (List Byte)} (whole : ∀ input ∈ chunks, EndsLine input)
    {pending : List (List Byte)} (noLine : ∀ part ∈ pending, newline ∉ part) :
    commands fromUtf8 (pending.flatMap (text fromUtf8)) chunks =
      (lineParts pending chunks).map fun parts =>
        removeChar (parts.flatMap (text fromUtf8)) '\r' := by
  induction chunks generalizing pending with
  | nil => rfl
  | cons input rest ih =>
      have others := fun input member => whole input (List.mem_cons_of_mem _ member)
      have line : ('\n' : QChar) ∉ pending.flatMap (text fromUtf8) := by
        intro member
        obtain ⟨part, inside, member⟩ := List.mem_flatMap.mp member
        exact notMem_text (noLine part inside) member
      rcases (whole input List.mem_cons_self).cases with
        absent | ⟨front, hidden, rfl, absent, behind, seen, shown, unseen⟩
      · rw [commands, processInput_open line (notMem_text absent), lineParts_open absent]
        have noLine' : ∀ part ∈ pending ++ [input], newline ∉ part := by
          intro part member
          rcases List.mem_append.mp member with old | new
          · exact noLine part old
          · exact List.mem_singleton.mp new ▸ absent
        have later := ih others noLine'
        rwa [List.flatMap_append, List.flatMap_singleton] at later
      · have read : text fromUtf8 (front ++ newline :: hidden) =
            text fromUtf8 front ++ [('\n' : QChar)] := by
          rw [text, seen, text, shown]
          exact QUtf8.fromUtf8_concat (c := newline) (by decide) front
        have noLine' : ∀ part ∈ [hidden], newline ∉ part :=
          fun part member => List.mem_singleton.mp member ▸ behind
        have later := ih others noLine'
        have nothing : [hidden].flatMap (text fromUtf8) = [] := by
          rw [List.flatMap_singleton, text, unseen]
          exact text_nil
        rw [nothing] at later
        have open' : ('\n' : QChar) ∉ pending.flatMap (text fromUtf8) ++ text fromUtf8 front := by
          simpa using And.intro line (notMem_text absent)
        rw [commands, processInput_ended open' read, lineParts_ended absent, List.map_cons,
          List.flatMap_append, List.flatMap_singleton]
        exact congrArg _ later

/-- If every chunk ends its line, the lines of the stream are what their parts are together. -/
theorem blocks_eq_parts {chunks : List (List Byte)} (whole : ∀ input ∈ chunks, EndsLine input)
    (pending : List (List Byte)) :
    Delimited.blocks newline pending.flatten chunks.flatten =
      (lineParts pending chunks).map List.flatten := by
  induction chunks generalizing pending with
  | nil => rfl
  | cons input rest ih =>
      have others := fun input member => whole input (List.mem_cons_of_mem _ member)
      rw [List.flatten_cons, Delimited.blocks_append]
      rcases (whole input List.mem_cons_self).cases with
        absent | ⟨front, hidden, rfl, absent, behind, -⟩
      · have later := ih others (pending ++ [input])
        rw [List.flatten_append, List.flatten_singleton] at later
        rw [Delimited.blocks_of_not_mem absent, Delimited.remainder_of_not_mem absent,
          lineParts_open absent]
        exact later
      · have later := ih others [hidden]
        rw [List.flatten_singleton] at later
        have block : Delimited.blocks newline pending.flatten (front ++ newline :: hidden) =
            [(pending ++ [front]).flatten] := by
          rw [Delimited.blocks_append, Delimited.blocks_of_not_mem absent,
            Delimited.remainder_of_not_mem absent]
          simp [Delimited.blocks, Delimited.blocks_of_not_mem behind]
        have left : Delimited.remainder newline pending.flatten (front ++ newline :: hidden) =
            hidden := by
          rw [Delimited.remainder_append]
          simp [Delimited.remainder, Delimited.remainder_of_not_mem behind]
        rw [block, left, lineParts_ended absent, List.map_cons, List.singleton_append]
        exact congrArg _ later

/-- At most one command a chunk: the ones whose last visible byte is a newline. -/
theorem length_commands (chunks : List (List Byte)) {currentLine : QString}
    (noLine : currentLine.getLast? ≠ some ('\n' : QChar)) :
    (commands utf8 currentLine chunks).length =
      (chunks.map fun input => if (visible input).getLast? = some newline then 1 else 0).sum := by
  induction chunks generalizing currentLine with
  | nil => rfl
  | cons input rest ih =>
      have nonempty : (visible input).getLast? = some newline → input.isEmpty = false := by
        intro last
        cases input with
        | nil => simp [visible] at last
        | cons b input => rfl
      have joined : (currentLine ++ text utf8 input).getLast? = some ('\n' : QChar) ↔
          (visible input).getLast? = some newline := by
        rw [← text_last utf8]
        cases said : text utf8 input with
        | nil => simpa using noLine
        | cons c s => simp
      rw [commands, List.map_cons, List.sum_cons]
      by_cases last : (visible input).getLast? = some newline
      · rw [processInput_of_last (joined.mpr last) (nonempty last), if_pos last]
        simp only [Option.toList_some, List.singleton_append, List.length_cons]
        rw [ih (by simp)]
        omega
      · have stays : (currentLine ++ text utf8 input).getLast? ≠ some ('\n' : QChar) :=
          fun same => last (joined.mp same)
        rw [processInput_of_not_last stays, if_neg last]
        simp only [Option.toList_none, List.nil_append]
        rw [ih stays]
        omega

theorem ends_le (input : List Byte) :
    (if (visible input).getLast? = some newline then 1 else 0) ≤ input.count newline := by
  split
  · rename_i last
    exact List.count_pos_iff.mpr
      ((List.takeWhile_sublist _).subset (List.mem_of_getLast? last))
  · exact Nat.zero_le _

theorem length_lines (chunks : List (List Byte)) :
    (lines utf8 chunks.flatten).length = (chunks.map fun input => input.count newline).sum := by
  rw [lines, List.length_map, Delimited.length_blocks, List.count_flatten]

/-! ## Text in parts -/

/-- A line arrives whole: it has no NUL, no character of it lies across two of its parts, and no
    part but the first begins with a byte order mark. -/
def ArrivesWhole (parts : List (List Byte)) : Prop :=
  (∀ part ∈ parts, (0 : Byte) ∉ part) ∧ QUtf8.Intact parts

instance (parts : List (List Byte)) : Decidable (ArrivesWhole parts) :=
  inferInstanceAs (Decidable (_ ∧ _))

theorem text_of_noNul {part : List Byte} (ends : (0 : Byte) ∉ part) :
    text fromUtf8 part = QString.fromUtf8 part := by
  have whole : visible part = part := by
    rw [visible, List.takeWhile_eq_self_iff]
    intro c member
    have other : c ≠ 0 := fun same => ends (same ▸ member)
    simpa using other
  rw [text, whole]
  rfl

theorem flatMap_text {parts : List (List Byte)} (ends : ∀ part ∈ parts, (0 : Byte) ∉ part) :
    parts.flatMap (text fromUtf8) = parts.flatMap QString.fromUtf8 := by
  rw [List.flatMap_def, List.flatMap_def]
  exact congrArg _ (List.map_congr_left fun part member => text_of_noNul (ends part member))

theorem zero_notMem_text (part : List Byte) : (0 : QChar) ∉ text fromUtf8 part := by
  have absent : (0 : Byte) ∉ visible part := fun member => by
    simpa using List.mem_takeWhile_imp member
  have none := QUtf8.count_fromUtf8 (c := 0) (by decide) (visible part)
  rw [List.count_eq_zero_of_not_mem absent] at none
  exact List.count_eq_zero.mp none

/-- The parts read one by one give the line exactly if it arrives whole. -/
theorem text_parts_iff (parts : List (List Byte)) :
    removeChar (parts.flatMap (text fromUtf8)) '\r' =
      removeChar (QString.fromUtf8 parts.flatten) '\r' ↔ ArrivesWhole parts := by
  constructor
  · intro same
    have ends : ∀ part ∈ parts, (0 : Byte) ∉ part := by
      intro part inside member
      -- A NUL is a character of the line, and the parts have none.
      have counts := congrArg (List.count (0 : QChar)) same
      rw [removeChar, removeChar, List.count_filter (by decide), List.count_filter (by decide),
        List.count_eq_zero_of_not_mem] at counts
      · have zero := QUtf8.count_fromUtf8 (c := 0) (by decide) parts.flatten
        have positive : 0 < parts.flatten.count (0 : Byte) :=
          List.count_pos_iff.mpr (List.mem_flatten.mpr ⟨part, inside, member⟩)
        rw [← zero] at positive
        exact positive.ne counts
      · intro member
        obtain ⟨part, -, member⟩ := List.mem_flatMap.mp member
        exact zero_notMem_text part member
    rw [flatMap_text ends] at same
    exact ⟨ends, (QUtf8.fromUtf8_flatten_iff (by decide) (by decide) parts).mp same⟩
  · rintro ⟨ends, intact⟩
    rw [flatMap_text ends, QUtf8.fromUtf8_flatten intact]

/-- Fewer commands than lines arrive if a chunk goes on behind a newline. -/
theorem endsLine_of_commands {utf8 : Utf8} {chunks : List (List Byte)}
    (same : commands utf8 [] chunks = lines utf8 chunks.flatten) :
    ∀ input ∈ chunks, EndsLine input := by
  have counts := congrArg List.length same
  rw [length_commands chunks (by simp), length_lines] at counts
  intro input member
  by_contra broken
  exact absurd counts (List.sum_lt_sum _ _ (fun i _ => ends_le i)
    ⟨input, member, lt_of_le_of_ne (ends_le input) (Ne.symm broken)⟩).ne

theorem commands_eq_lines_of_endsLine {chunks : List (List Byte)}
    (whole : ∀ input ∈ chunks, EndsLine input) :
    commands fromUtf8 [] chunks = lines fromUtf8 chunks.flatten ↔
      ∀ parts ∈ lineParts [] chunks, ArrivesWhole parts := by
  have nothing : ∀ part ∈ ([] : List (List Byte)), newline ∉ part := by simp
  have read := commands_eq_parts whole nothing
  have cut := blocks_eq_parts whole []
  rw [List.flatMap_nil] at read
  rw [List.flatten_nil] at cut
  rw [read, lines, cut, List.map_map, List.map_inj_left]
  exact forall₂_congr fun parts _ => text_parts_iff parts

/-- A raw session receives the lines of the stream exactly if no chunk goes on behind a newline
    and every line arrives whole. -/
theorem commands_eq_lines_iff (chunks : List (List Byte)) :
    commands fromUtf8 [] chunks = lines fromUtf8 chunks.flatten ↔
      (∀ input ∈ chunks, EndsLine input) ∧ ∀ parts ∈ lineParts [] chunks, ArrivesWhole parts := by
  constructor
  · intro same
    have whole := endsLine_of_commands same
    exact ⟨whole, (commands_eq_lines_of_endsLine whole).mp same⟩
  · rintro ⟨whole, arrive⟩
    exact (commands_eq_lines_of_endsLine whole).mpr arrive

/-- Two lines in one chunk become one command, and a character which is cut becomes three. -/
theorem commands_coalesced :
    commands fromUtf8 [] [[0x61, 0x0A, 0x62, 0x0A]] ≠
        lines fromUtf8 [[0x61, 0x0A, 0x62, 0x0A]].flatten ∧
      commands fromUtf8 [] [[0xE2, 0x82], [0xAC, 0x0A]] ≠
        lines fromUtf8 [[0xE2, 0x82], [0xAC, 0x0A]].flatten := by
  decide

/-- A line in two chunks, then a line in one. -/
example : commands fromUtf8 [] [[0x23], [0x30, 0x0D, 0x0A], [0x41, 0x0A]] = ["#0", "A"] := by
  decide

theorem mem_lineParts {pending chunks : List (List Byte)} {parts : List (List Byte)}
    {part : List Byte} (member : parts ∈ lineParts pending chunks) (inside : part ∈ parts) :
    part ∈ pending ∨ ∃ input ∈ chunks, part ⊆ input := by
  induction chunks generalizing pending with
  | nil => cases member
  | cons input rest ih =>
      have front : input.takeWhile (· ≠ newline) ⊆ input := List.takeWhile_subset _
      simp only [lineParts] at member
      split at member
      · rcases List.mem_cons.mp member with rfl | later
        · rcases List.mem_append.mp inside with old | new
          · exact .inl old
          · rw [List.mem_singleton.mp new]
            exact .inr ⟨input, List.mem_cons_self, front⟩
        · refine .inr ?_
          rcases ih later with old | ⟨other, known, within⟩
          · rw [List.mem_singleton.mp old]
            exact ⟨input, List.mem_cons_self, List.drop_subset _ input⟩
          · exact ⟨other, List.mem_cons_of_mem input known, within⟩
      · rcases ih member with old | ⟨other, known, within⟩
        · rcases List.mem_append.mp old with old | new
          · exact .inl old
          · rw [List.mem_singleton.mp new]
            exact .inr ⟨input, List.mem_cons_self, List.Subset.refl input⟩
        · exact .inr ⟨other, List.mem_cons_of_mem input known, within⟩

/-- For text in the ASCII range only the chunks which go on behind a newline matter. -/
theorem commands_eq_lines_iff_of_ascii {chunks : List (List Byte)}
    (ascii : ∀ input ∈ chunks, ∀ x ∈ input, x ≠ 0 ∧ x.val < 0x80) :
    commands fromUtf8 [] chunks = lines fromUtf8 chunks.flatten ↔
      ∀ input ∈ chunks, EndsLine input := by
  refine ⟨endsLine_of_commands, fun whole => (commands_eq_lines_of_endsLine whole).mpr ?_⟩
  intro parts member
  have plain : ∀ part ∈ parts, ∀ x ∈ part, x ≠ 0 ∧ x.val < 0x80 := by
    intro part inside x here
    rcases mem_lineParts member inside with old | ⟨input, known, within⟩
    · cases old
    · exact ascii input known x (within here)
  exact ⟨fun part inside here => (plain part inside 0 here).1 rfl,
    QUtf8.intact_of_ascii fun part inside x here => (plain part inside x here).2⟩

theorem widen_eq_newline (x : Byte) : widen x = '\n' ↔ x = newline := by
  simp [widen, newline, Fin.ext_iff, QChar.ofChar]

/-- A decoder which reads every byte as the character of its code. -/
def latin1 : Utf8 where
  decode b := b.map widen
  count_newline b := by
    induction b with
    | nil => rfl
    | cons x b ih => simp [List.count_cons, ih, widen_eq_newline]
  last_newline b := by simp [List.getLast?_map, widen_eq_newline]
  ascii b _ := rfl

end TelnetSocket

end VoxPopuli
