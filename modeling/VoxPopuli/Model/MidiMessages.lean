import VoxPopuli.HexText
import VoxPopuli.Model.EventTrigger

/-! # Which MIDI definitions are handled

A definition `M|port:channel|type|data` should be accepted when its channel, its type and
its data are in range, and then send one message for each channel it selects. The code does
not know the star for all channels, checks no ranges, reads capital hexadecimal letters only
and loses a single data byte.
-/

namespace VoxPopuli

namespace MidiDefinition

/-! ## What a definition says -/

/-- The text of a definition. -/
def text (port channel type data : QString) : QString :=
  ("M" : QString) ++ ('|' : QChar) :: ((port ++ (':' : QChar) :: channel) ++
    ('|' : QChar) :: (type ++ ('|' : QChar) :: data))

/-- A number from 0 to 15, or the star for all of these. -/
def channels? (channel : QString) : Option (List Nat) :=
  if channel = "*" then some (List.range 16)
  else
    match channel.toInt? with
    | none => none
    | some n => if 0 ≤ n ∧ n ≤ 15 then some [n.toNat] else none

/-- A number from 8 to 15, or the name of an event. -/
def code? (type : QString) : Option Nat :=
  match type.toInt? with
  | none => (MidiEvent.midiEventFromName type).map MidiEvent.code
  | some n => if 8 ≤ n ∧ n ≤ 15 then some n.toNat else none

def hexDigit? (c : QChar) : Option Nat :=
  if 48 ≤ c.val ∧ c.val ≤ 57 then some (c.val - 48)
  else if 65 ≤ c.val ∧ c.val ≤ 70 then some (c.val - 55)
  else if 97 ≤ c.val ∧ c.val ≤ 102 then some (c.val - 87)
  else none

/-- Two hexadecimal digits a byte, in capital or small letters. -/
def bytes? : QString → Option (List Byte)
  | [] => some []
  | [_] => none
  | c :: d :: rest => do
      let high ← hexDigit? c
      let low ← hexDigit? d
      let more ← bytes? rest
      some (Fin.ofNat 256 (high * 16 + low) :: more)

/-- The message for one channel when the event is fired with a value. -/
def message (code : Nat) (bytes : List Byte) (value : Byte) (channel : Nat) : HexData :=
  Fin.ofNat 256 (16 * code + channel) :: (if bytes.length = 1 then bytes ++ [value] else bytes)

/-- A channel or a type which is out of range, or data which is not one or two bytes. -/
def OutOfRange (channel type data : QString) : Prop :=
  channels? channel = none ∨ code? type = none ∨ ¬(data.length = 2 ∨ data.length = 4)

instance (channel type data : QString) : Decidable (OutOfRange channel type data) :=
  inferInstanceAs (Decidable (_ ∨ _ ∨ ¬(_ ∨ _)))

/-- What the callback of a definition sends when it is called while all ports are open. -/
def fired (callbacks : Callbacks) (definition : QString) (value : Byte) :
    Except Fault (List (Nat × HexData)) :=
  match callbacks.find? definition with
  | some (some (.midi port channel event d)) => do
      let messages ← EventCb.sendMidi true channel event d value
      pure (messages.map fun m => (port, m))
  | _ => pure []

/-- A definition is handled as it should be. -/
structure Handled (port channel type data : QString) : Prop where
  accepted : ∀ selected code bytes, channels? channel = some selected → code? type = some code →
    bytes? data = some bytes → bytes.length = 1 ∨ bytes.length = 2 →
      ∀ s (callbacks : Callbacks),
        (callbacks.addEvent s false (text port channel type data)).1 = true ∧
          ∀ p value, s.portByName false port = some p → ∃ messages : List HexData,
            fired (callbacks.addEvent s false (text port channel type data)).2
              (text port channel type data) value = .ok (messages.map fun m => (p, m)) ∧
            messages.Perm (selected.map (message code bytes value))
  rejected : OutOfRange channel type data → ∀ s (callbacks : Callbacks),
    (callbacks.addEvent s false (text port channel type data)).1 = false

/-! ## What the code makes of it -/

variable {port channel type data : QString}

theorem length_splitOn {s : QString} {c : QChar} : (s.splitOn c).length = 1 ↔ c ∉ s := by
  constructor
  · intro single member
    obtain ⟨before, after, rfl⟩ := List.append_of_mem member
    rw [List.splitOn_append_cons_self] at single
    have first := List.length_pos_iff.mpr (List.splitOn_ne_nil c before)
    have second := List.length_pos_iff.mpr (List.splitOn_ne_nil c after)
    simp only [List.length_append] at single
    omega
  · intro absent
    simp [List.splitOn_eq_singleton absent]

/-- The parts of a definition: four of them when none of its texts has a bar. -/
theorem splitOn_text :
    (text port channel type data).splitOn ('|' : QChar) = ("M" : QString) ::
      ((port ++ (':' : QChar) :: channel).splitOn ('|' : QChar) ++
        (type.splitOn ('|' : QChar) ++ data.splitOn ('|' : QChar))) := by
  have kind : ('|' : QChar) ∉ ("M" : QString) := by decide
  rw [text, List.splitOn_append_cons_self_of_not_mem kind, List.splitOn_append_cons_self,
    List.splitOn_append_cons_self]

theorem parse?_bar (bar : ('|' : QChar) ∈ channel ++ type ++ data) :
    parse? ((text port channel type data).splitOn ('|' : QChar)) = none := by
  have count : ∀ s : QString, 1 ≤ (s.splitOn ('|' : QChar)).length := fun s =>
    List.length_pos_iff.mpr (List.splitOn_ne_nil _ s)
  have more : ∀ s : QString, ('|' : QChar) ∈ s → (s.splitOn ('|' : QChar)).length ≠ 1 :=
    fun s member single => length_splitOn.mp single member
  have parts : ((text port channel type data).splitOn ('|' : QChar)).length ≠ 4 := by
    have address := count (port ++ (':' : QChar) :: channel)
    have types := count type
    have bytes := count data
    simp only [splitOn_text, List.length_cons, List.length_append]
    simp only [List.mem_append] at bar
    rcases bar with (bar | bar) | bar
    · have split := more (port ++ (':' : QChar) :: channel) (by simp [bar])
      omega
    · have split := more type bar
      omega
    · have split := more data bar
      omega
  unfold parse?
  split
  · rename_i four
    rw [four] at parts
    exact absurd rfl parts
  · rfl

theorem parse?_text (noBar : ('|' : QChar) ∉ port) (noColon : (':' : QChar) ∉ port)
    (noBars : ('|' : QChar) ∉ channel ++ type ++ data) :
    parse? ((text port channel type data).splitOn ('|' : QChar)) = (do
      let n ← channel.toInt?
      let d := HexData.fromHexStr data.toStdString
      if d.length < 1 ∨ d.length > 2 then none
      else do
        let event ← eventOf? type
        some { port := port, channel := toInt8 n, event, data := d }) := by
  simp only [List.mem_append, not_or] at noBars
  obtain ⟨⟨inChannel, inType⟩, inData⟩ := noBars
  have address : ('|' : QChar) ∉ port ++ (':' : QChar) :: channel := by
    simp only [List.mem_append, List.mem_cons, not_or]
    exact ⟨noBar, by decide, inChannel⟩
  have colon : (port ++ (':' : QChar) :: channel).indexOf ':' = port.length :=
    QString.indexOf_append_cons noColon channel
  have star : (port ++ (':' : QChar) :: channel).mid port.length ≠ ("*" : QString) := by
    intro same
    have head := congrArg List.head? same
    simp [QString.mid] at head
    exact absurd head (by decide)
  have channelText : channelOf? (port ++ (':' : QChar) :: channel) = channel.toInt?.map toInt8 := by
    unfold channelOf?
    simp only [colon, QString.mid_length_succ]
    cases channel.toInt? with
    | none => exact if_neg star
    | some n => rfl
  rw [splitOn_text, List.splitOn_eq_singleton address, List.splitOn_eq_singleton inType,
    List.splitOn_eq_singleton inData]
  simp only [List.cons_append, List.nil_append, parse?, channelText, colon, QString.left_length]
  cases channel.toInt? <;> rfl

/-- Which definitions are parsed. -/
theorem parse?_isSome_iff (noBar : ('|' : QChar) ∉ port) (noColon : (':' : QChar) ∉ port) :
    (parse? ((text port channel type data).splitOn ('|' : QChar))).isSome ↔
      ('|' : QChar) ∉ channel ++ type ++ data ∧ channel.toInt?.isSome ∧ (eventOf? type).isSome ∧
        (data.toStdString.length / 2 = 1 ∨ data.toStdString.length / 2 = 2) := by
  by_cases bar : ('|' : QChar) ∈ channel ++ type ++ data
  · refine iff_of_false (by simp [parse?_bar bar]) fun h => h.1 bar
  · rw [parse?_text noBar noColon bar]
    have count : (HexData.fromHexStr data.toStdString).length = data.toStdString.length / 2 :=
      length_hexStrToInt _
    cases number : channel.toInt? with
    | none => simp
    | some n =>
        cases event : eventOf? type with
        | none => simp
        | some e =>
            simp only [Option.bind_eq_bind, Option.bind_some, count, bar, not_false_eq_true,
              Option.isSome_some, true_and]
            split
            · rename_i outside
              simp only [Option.isSome_none, Bool.false_eq_true, false_iff]
              omega
            · rename_i inside
              simp only [Option.isSome_some, true_iff]
              omega

/-- A definition is accepted when it is parsed; its callback is bound to the port of its name. -/
theorem addEvent_text (s : Surroundings) (callbacks : Callbacks) :
    callbacks.addEvent s false (text port channel type data) =
      match parse? ((text port channel type data).splitOn ('|' : QChar)) with
      | none => (false, callbacks.erase (text port channel type data))
      | some m => (true, callbacks.insert (text port channel type data)
          ((s.portByName false m.port).map fun p => .midi p m.channel m.event m.data)) := by
  unfold Callbacks.addEvent updateEventTrigger
  have kind : ((text port channel type data).splitOn ('|' : QChar)).head? = some ("M" : QString) := by
    rw [splitOn_text, List.head?_cons]
  simp only [kind, if_true]
  cases parse? ((text port channel type data).splitOn ('|' : QChar)) with
  | none => rfl
  | some m =>
      simp only [Option.bind_eq_bind, Option.bind_some]
      cases s.portByName false m.port with
      | none => rfl
      | some p => rfl

theorem addEvent_text_fst (s : Surroundings) (callbacks : Callbacks) :
    (callbacks.addEvent s false (text port channel type data)).1 =
      (parse? ((text port channel type data).splitOn ('|' : QChar))).isSome := by
  rw [addEvent_text]
  cases parse? ((text port channel type data).splitOn ('|' : QChar)) with
  | none => rfl
  | some m => rfl

/-! ## Texts which are in range -/

theorem toInt?_of_channels? {selected : List Nat} (range : channels? channel = some selected)
    (star : channel ≠ "*") : ∃ n : Nat, n ≤ 15 ∧ channel.toInt? = some (n : Int) ∧ selected = [n] := by
  unfold channels? at range
  rw [if_neg star] at range
  cases number : channel.toInt? with
  | none => simp [number] at range
  | some n =>
      simp only [number, Option.ite_none_right_eq_some, Option.some.injEq] at range
      obtain ⟨⟨low, high⟩, same⟩ := range
      exact ⟨n.toNat, by omega, by simp [low], same.symm⟩

theorem eventOf?_of_code? {code : Nat} (range : code? type = some code) :
    eventOf? type = some (code : Int) ∧ ('|' : QChar) ∉ type := by
  unfold code? at range
  unfold eventOf?
  cases number : type.toInt? with
  | none =>
      simp only [number, Option.map_eq_some_iff] at range
      obtain ⟨e, named, same⟩ := range
      subst same
      refine ⟨by simp [named], fun bar => ?_⟩
      -- Folding keeps the bar, which no name has.
      have folded : ('|' : QChar) ∈ type.map QChar.foldCase :=
        List.mem_map.mpr ⟨('|' : QChar), bar, by decide⟩
      rw [MidiEvent.midiEventFromName_eq_some named] at folded
      cases e <;> exact absurd folded (by decide)
  | some n =>
      simp only [number, Option.ite_none_right_eq_some, Option.some.injEq] at range
      obtain ⟨⟨low, high⟩, same⟩ := range
      refine ⟨by simp; omega, fun bar => ?_⟩
      have shape := QString.mem_of_toInt? number bar
      exact absurd shape (by decide)

/-- A digit is the same digit as a byte. -/
theorem hexValue?_of_hexDigit? {c : QChar} {n : Nat} (digit : hexDigit? c = some n) :
    c.val ≤ 102 ∧ hexValue? (Fin.ofNat 256 c.val) = some n := by
  unfold hexDigit? at digit
  have small : c.val ≤ 102 := by
    split_ifs at digit
    all_goals omega
  have val : (Fin.ofNat 256 c.val : Byte).val = c.val := Nat.mod_eq_of_lt (by omega)
  refine ⟨small, ?_⟩
  simpa only [hexValue?, val] using digit

theorem denoted?_of_bytes? {bytes : List Byte} (hex : bytes? data = some bytes) :
    (∀ c ∈ data, c.val ≤ 102) ∧ denoted? (data.map fun c => Fin.ofNat 256 c.val) = some bytes := by
  induction data using bytes?.induct generalizing bytes with
  | case1 =>
      cases hex
      exact ⟨by simp, rfl⟩
  | case2 c => simp [bytes?] at hex
  | case3 c d rest ih =>
      simp only [bytes?, Option.bind_eq_bind, Option.bind_eq_some_iff] at hex
      obtain ⟨m, first, n, second, more, later, same⟩ := hex
      obtain ⟨small, high⟩ := hexValue?_of_hexDigit? first
      obtain ⟨small', low⟩ := hexValue?_of_hexDigit? second
      obtain ⟨others, tail⟩ := ih later
      simp only [List.forall_mem_cons]
      refine ⟨⟨small, small', others⟩, ?_⟩
      simp only [List.map_cons, denoted?, high, low, tail, Option.bind_eq_bind, Option.bind_some]
      exact same

/-- Hexadecimal data: two characters a byte, and without small letters the code reads the
    same bytes. -/
theorem bytes?_spec {bytes : List Byte} (hex : bytes? data = some bytes) :
    data.length = 2 * bytes.length ∧ ('|' : QChar) ∉ data ∧ (∀ c ∈ data, c.val < 0x80) ∧
      (HexData.fromHexStr data.toStdString = bytes ↔ ∀ c ∈ data, c.val < 97) := by
  have bar : ('|' : QChar).val = 124 := by decide
  obtain ⟨small, denoted⟩ := denoted?_of_bytes? hex
  have ascii : ∀ c ∈ data, c.val < 0x80 := fun c member => by
    have := small c member
    omega
  refine ⟨?_, fun member => absurd (small _ member) (by omega), ascii, ?_⟩
  · simpa using length_of_denoted? denoted
  · rw [QString.toStdString_of_ascii ascii, HexData.fromHexStr, hexStrToInt_eq_iff denoted,
      List.forall_mem_map]
    refine forall_congr' fun c => forall_congr' fun member => ?_
    have range := small c member
    show ¬(97 ≤ c.val % 256 ∧ c.val % 256 ≤ 122) ↔ c.val < 97
    omega

/-! ## Sending -/

/-- What a callback for one channel sends. -/
theorem sendMidi_single {n code : Nat} (small : n ≤ 15) {bytes : List Byte}
    (short : bytes.length = 1 ∨ bytes.length = 2) (value : Byte) :
    EventCb.sendMidi true (toInt8 n) code bytes value =
      .ok [Fin.ofNat 256 (16 * code + n) :: if bytes.length = 1 then [0, value] else bytes] := by
  have channel : toInt8 n = n := by
    unfold toInt8
    omega
  have status : Byte.ofInt ((n : Int) + 0x10 * (code : Int)) = Fin.ofNat 256 (16 * code + n) := by
    unfold Byte.ofInt
    apply Fin.ext
    simp only [Fin.ofNat]
    omega
  have few : (n : Int) ≤ 16 := by omega
  rcases short with one | two
  · obtain ⟨b, rfl⟩ := List.length_eq_one_iff.mp one
    unfold EventCb.sendMidi
    rw [if_pos one, HexData.plusByte_single, channel]
    simp only [MidiPort.send, MidiPort.sendLoop, few, if_true, HexData.prepend, status, one]
    rfl
  · have other : bytes.length ≠ 1 := by omega
    unfold EventCb.sendMidi
    rw [if_neg other, channel]
    simp only [MidiPort.send, MidiPort.sendLoop, few, if_true, HexData.prepend, status, other,
      if_false]
    rfl

/-- The texts of a definition which the code handles as it should: of the definitions in range
    those for one channel, with two bytes in capitals or the single byte `00`; of those out of
    range the ones which it does not parse. -/
structure Manageable (channel type data : QString) : Prop where
  inRange : ∀ selected code bytes, channels? channel = some selected → code? type = some code →
    bytes? data = some bytes → bytes.length = 1 ∨ bytes.length = 2 →
      channel ≠ "*" ∧ (bytes = [0] ∨ bytes.length = 2 ∧ ∀ c ∈ data, c.val < 97)
  outOfRange : OutOfRange channel type data →
    ('|' : QChar) ∈ channel ++ type ++ data ∨ channel.toInt? = none ∨ eventOf? type = none ∨
      ¬(data.toStdString.length / 2 = 1 ∨ data.toStdString.length / 2 = 2)

/-- In range and for one channel, a definition gets its callback, which sends one message. -/
theorem addEvent_inRange (noBar : ('|' : QChar) ∉ port) (noColon : (':' : QChar) ∉ port)
    {n code : Nat} {bytes : List Byte} (number : channel.toInt? = some (n : Int)) (small : n ≤ 15)
    (range : code? type = some code) (hex : bytes? data = some bytes)
    (short : bytes.length = 1 ∨ bytes.length = 2) (s : Surroundings) (callbacks : Callbacks) :
    (callbacks.addEvent s false (text port channel type data)).1 = true ∧
      ∀ p value, s.portByName false port = some p →
        fired (callbacks.addEvent s false (text port channel type data)).2
          (text port channel type data) value =
            .ok [(p, Fin.ofNat 256 (16 * code + n) ::
              if bytes.length = 1 then [0, value] else HexData.fromHexStr data.toStdString)] := by
  obtain ⟨event, inType⟩ := eventOf?_of_code? range
  obtain ⟨length, inData, ascii, -⟩ := bytes?_spec hex
  have count : (HexData.fromHexStr data.toStdString).length = bytes.length := by
    rw [QString.toStdString_of_ascii ascii, HexData.fromHexStr, length_hexStrToInt,
      List.length_map, length]
    omega
  have inChannel : ('|' : QChar) ∉ channel := fun bar =>
    absurd (QString.mem_of_toInt? number bar) (by decide)
  have noBars : ('|' : QChar) ∉ channel ++ type ++ data := by
    simp only [List.mem_append, not_or]
    exact ⟨⟨inChannel, inType⟩, inData⟩
  have parsed : parse? ((text port channel type data).splitOn ('|' : QChar)) =
      some { port, channel := toInt8 n, event := code,
             data := HexData.fromHexStr data.toStdString } := by
    have fits : ¬((HexData.fromHexStr data.toStdString).length < 1 ∨
        (HexData.fromHexStr data.toStdString).length > 2) := by omega
    simp only [parse?_text noBar noColon noBars, number, event, Option.bind_eq_bind,
      Option.bind_some, if_neg fits]
  rw [addEvent_text, parsed]
  refine ⟨rfl, fun p value found => ?_⟩
  have sent : EventCb.sendMidi true (toInt8 n) code (HexData.fromHexStr data.toStdString) value = _ :=
    sendMidi_single small (count.symm ▸ short) value
  simp only [count] at sent
  simp only [fired, SortedMap.find?_insert_self, found, Option.map_some, sent]
  rfl

/-- The message which the code sends is the right one. -/
theorem message_eq_iff {bytes : List Byte} (hex : bytes? data = some bytes)
    (short : bytes.length = 1 ∨ bytes.length = 2) (n code : Nat) (value : Byte) :
    Fin.ofNat 256 (16 * code + n) ::
        (if bytes.length = 1 then [0, value] else HexData.fromHexStr data.toStdString) =
      message code bytes value n ↔
        bytes = [0] ∨ bytes.length = 2 ∧ ∀ c ∈ data, c.val < 97 := by
  obtain ⟨-, -, -, capitals⟩ := bytes?_spec hex
  unfold message
  rw [List.cons.injEq, eq_self, true_and]
  rcases short with one | two
  · obtain ⟨b, rfl⟩ := List.length_eq_one_iff.mp one
    simp [eq_comm]
  · have other : bytes.length ≠ 1 := by omega
    have notZero : bytes ≠ [0] := by
      intro same
      exact other (by simp [same])
    rw [if_neg other, if_neg other, capitals]
    simp only [two, notZero, false_or, true_and]

/-- A definition is handled as it should be exactly when its texts are manageable. -/
theorem handled_iff (noBar : ('|' : QChar) ∉ port) (noColon : (':' : QChar) ∉ port) :
    Handled port channel type data ↔ Manageable channel type data := by
  have parses : (parse? ((text port channel type data).splitOn ('|' : QChar))).isSome ↔ _ :=
    parse?_isSome_iff noBar noColon
  constructor
  · intro handled
    refine ⟨fun selected code bytes channels range hex short => ?_, fun outside => ?_⟩
    · -- One port and no definitions before are enough to see what is sent.
      let s : Surroundings := ⟨fun _ _ => some 0, fun _ => none⟩
      obtain ⟨added, sent⟩ := handled.accepted selected code bytes channels range hex short s ∅
      rw [addEvent_text_fst, parses] at added
      have star : channel ≠ "*" := by
        intro star
        rw [star] at added
        exact absurd added.2.1 (by decide)
      refine ⟨star, ?_⟩
      obtain ⟨n, small, number, same⟩ := toInt?_of_channels? channels star
      have single := (addEvent_inRange noBar noColon number small range hex short s ∅).2 0 0 rfl
      obtain ⟨messages, expected, perm⟩ := sent 0 0 rfl
      rw [same, List.map_singleton, List.perm_singleton] at perm
      rw [single, perm] at expected
      have equal := (message_eq_iff hex short n code 0).mp
        (congrArg Prod.snd (List.singleton_inj.mp (Except.ok.inj expected)))
      exact equal
    · have refused := handled.rejected outside ⟨fun _ _ => none, fun _ => none⟩ ∅
      rw [addEvent_text_fst, Bool.eq_false_iff, ne_eq, parses] at refused
      by_contra manageable
      rw [not_or, not_or, not_or, not_not] at manageable
      obtain ⟨noBars, number, event, length⟩ := manageable
      exact refused ⟨noBars, Option.isSome_iff_ne_none.mpr number,
        Option.isSome_iff_ne_none.mpr event, length⟩
  · intro manageable
    refine ⟨fun selected code bytes channels range hex short s callbacks => ?_,
      fun outside s callbacks => ?_⟩
    · obtain ⟨star, right⟩ := manageable.inRange selected code bytes channels range hex short
      obtain ⟨n, small, number, same⟩ := toInt?_of_channels? channels star
      obtain ⟨added, single⟩ := addEvent_inRange noBar noColon number small range hex short s callbacks
      refine ⟨added, fun p value found => ⟨[message code bytes value n], ?_, ?_⟩⟩
      · rw [single p value found, (message_eq_iff hex short n code value).mpr right]
        rfl
      · rw [same]
        exact .refl _
    · rw [addEvent_text_fst, Bool.eq_false_iff, ne_eq, parses]
      rintro ⟨noBars, number, event, length⟩
      rcases manageable.outOfRange outside with bar | text | type | bytes
      · exact noBars bar
      · simp [text] at number
      · simp [type] at event
      · exact bytes length

/-- A note on the first channel. -/
theorem handled_note :
    Handled ("Synth" : QString) ("0" : QString) ("NoteOn" : QString) ("3C7F" : QString) := by
  refine (handled_iff (by decide) (by decide)).mpr ⟨fun selected code bytes channels range hex short => ?_, ?_⟩
  · have read : bytes? ("3C7F" : QString) = some [0x3C, 0x7F] := by decide
    rw [read] at hex
    cases hex
    have capitals : ∀ c ∈ ("3C7F" : QString), c.val < 97 := by
      simp [QString.ofString, QChar.ofChar]
    exact ⟨by decide, .inr ⟨rfl, capitals⟩⟩
  · intro outside
    exact absurd outside (by decide)

/-- The star is refused, a single data byte is lost, and channel 16 is accepted. -/
theorem not_handled :
    ¬Handled ("Synth" : QString) ("*" : QString) ("NoteOn" : QString) ("3C7F" : QString) ∧
      ¬Handled ("Synth" : QString) ("0" : QString) ("NoteOn" : QString) ("3C" : QString) ∧
      ¬Handled ("Synth" : QString) ("16" : QString) ("NoteOn" : QString) ("3C7F" : QString) := by
  let s : Surroundings := ⟨fun _ _ => some 0, fun _ => none⟩
  refine ⟨fun handled => ?_, fun handled => ?_, fun handled => ?_⟩
  · have accepted := (handled.accepted _ _ _ rfl rfl rfl (.inr rfl) s ∅).1
    exact absurd accepted (by decide)
  · obtain ⟨messages, sent, perm⟩ := (handled.accepted _ _ _ rfl rfl rfl (.inl rfl) s ∅).2 0 127 rfl
    rw [List.perm_singleton.mp perm] at sent
    exact absurd sent (by decide)
  · have refused := handled.rejected (.inl (by decide)) s ∅
    exact absurd refused (by decide)

end MidiDefinition

end VoxPopuli
