import VoxPopuli.Lib.Scanner
import VoxPopuli.Misc
import VoxPopuli.Telnet.Negotiation
import VoxPopuli.Telnet.Printf

/-! # The telnet stream

`libtelnet` takes what a socket has read apart into data, commands, negotiations and
subnegotiations. It reads a whole buffer with two positions in it, the byte it looks at and
the first byte of the data which it has not passed on. Byte by byte the same is a scanner:
it does not matter how the network has cut the stream, as long as no MCCPv1 marker is cut
off behind its second byte. What the sending half of the library writes is read again as it
was meant.
-/

namespace VoxPopuli

namespace Telnet

/-! ## The state tracker -/

/-- `telnet_state_t`. -/
inductive State where
  | DATA
  | IAC
  | WILL
  | WONT
  | DO
  | DONT
  | SB
  | SB_DATA
  | SB_DATA_IAC
  deriving DecidableEq, Repr

def sb : Byte := 250
def se : Byte := 240

/-- The byte of a negotiation command. -/
def Cmd.byte : Cmd → Byte
  | WILL => 251
  | WONT => 252
  | DO => 253
  | DONT => 254

/-- `TELNET_TELOPT_COMPRESS`. -/
def teloptCompress : Byte := 85

/-- `_buffer_sizes`. -/
def bufferSizes : List Nat := [0, 512, 2048, 8192, 16384]

/-- The size after `size`; the search of `_buffer_byte` in the table. -/
def nextSize (size : Nat) : Option Nat := bufferSizes[bufferSizes.idxOf size + 1]?

theorem nextSize_spec {size : Nat} (member : size ∈ bufferSizes) :
    (size = 16384 ∧ nextSize size = none) ∨
      ∃ next ∈ bufferSizes, nextSize size = some next ∧ size < next ∧ size < 16384 := by
  revert size
  decide

/-- `telnet_t` as far as it receives: `buffer` holds the bytes up to `buffer_pos`. -/
structure Tracker where
  state : State := .DATA
  sbTelopt : Byte := 0
  buffer : List Byte := []
  bufferSize : Nat := 0
  size_mem : bufferSize ∈ bufferSizes := by decide
  fits : buffer.length ≤ bufferSize := by decide

/-- The events of the tracker; what a negotiation or a subnegotiation calls for comes after. -/
inductive Event where
  | data (bytes : List Byte)
  | iac (cmd : Byte)
  | negotiate (cmd : Cmd) (telopt : Byte)
  | subnegotiation (telopt : Byte) (buffer : List Byte)
  /-- `TELNET_EOVERFLOW`. -/
  | overflow
  /-- `TELNET_EPROTOCOL`, with the byte which was not expected. -/
  | protocol (byte : Byte)
  deriving DecidableEq, Repr

namespace Tracker

/-- The byte has been pushed into a buffer of this size. -/
def push (t : Tracker) (byte : Byte) (size : Nat) (size_mem : size ∈ bufferSizes)
    (room : t.buffer.length < size) : Tracker :=
  { t with
    buffer := t.buffer ++ [byte]
    bufferSize := size
    size_mem := size_mem
    fits := by simpa using room }

/-- `_buffer_byte`; `none` when the buffer cannot grow any more. -/
def bufferByte (t : Tracker) (byte : Byte) : Option Tracker :=
  if full : t.buffer.length = t.bufferSize then
    match next : nextSize t.bufferSize with
    | none => none
    | some size => some (t.push byte size (List.mem_of_getElem? next) (by
        obtain ⟨-, none⟩ | ⟨size', -, same, less, -⟩ := nextSize_spec t.size_mem
        · rw [none] at next
          cases next
        · rw [same] at next
          obtain rfl := Option.some.inj next
          omega))
  else some (t.push byte t.bufferSize t.size_mem (lt_of_le_of_ne t.fits full))

theorem bufferByte_eq (t : Tracker) (byte : Byte) :
    (t.bufferByte byte = none ∧ t.buffer.length = 16384) ∨
      ∃ t', t.bufferByte byte = some t' ∧ t.buffer.length < 16384 ∧ t'.state = t.state ∧
        t'.sbTelopt = t.sbTelopt ∧ t'.buffer = t.buffer ++ [byte] := by
  have fits := t.fits
  unfold bufferByte
  by_cases full : t.buffer.length = t.bufferSize
  · rw [dif_pos full]
    obtain ⟨most, none⟩ | ⟨size, -, some, -, less⟩ := nextSize_spec t.size_mem
    · left
      refine ⟨?_, full.trans most⟩
      split
      · rfl
      · rename_i next
        cases none.symm.trans next
    · right
      split
      · rename_i next
        cases some.symm.trans next
      · exact ⟨_, rfl, by omega, rfl, rfl, rfl⟩
  · right
    rw [dif_neg full]
    have most : t.bufferSize ≤ 16384 := by
      have member := t.size_mem
      simp only [bufferSizes, List.mem_cons, List.not_mem_nil, or_false] at member
      omega
    exact ⟨_, rfl, by omega, rfl, rfl, rfl⟩

theorem bufferByte_state (t : Tracker) {byte : Byte} {t' : Tracker}
    (stored : t.bufferByte byte = some t') : t'.state = t.state := by
  obtain ⟨none, -⟩ | ⟨t₁, same, -, state, -⟩ := t.bufferByte_eq byte
  · cases none.symm.trans stored
  · obtain rfl := Option.some.inj (same.symm.trans stored)
    exact state

/-- The IAC case of `_process`. A byte which ends the command is followed by data. -/
def iacCase (t : Tracker) (byte : Byte) : Tracker × List Event :=
  if byte = sb then ({ t with state := .SB }, [])
  else if byte = Cmd.WILL.byte then ({ t with state := .WILL }, [])
  else if byte = Cmd.WONT.byte then ({ t with state := .WONT }, [])
  else if byte = Cmd.DO.byte then ({ t with state := .DO }, [])
  else if byte = Cmd.DONT.byte then ({ t with state := .DONT }, [])
  else if byte = iac then ({ t with state := .DATA }, [.data [byte]])
  else ({ t with state := .DATA }, [.iac byte])

/-- `TELNET_ENVIRON_SEND`, `TELNET_ENVIRON_IS` or `TELNET_ENVIRON_INFO`. -/
def isEnvironCmd (c : Byte) : Bool := c.val = 0 || c.val = 1 || c.val = 2

/-- `TELNET_ENVIRON_VAR` or `TELNET_ENVIRON_USERVAR`. -/
def isEnvironVar (c : Byte) : Bool := c.val = 0 || c.val = 3

def environEsc : Byte := 2

/-- What `_environ_telnet` returns: 1 exactly if it takes the buffer for variables. -/
def environTelnet : List Byte → Bool
  | [] => false
  | [cmd] => isEnvironCmd cmd
  | cmd :: type :: more =>
      isEnvironCmd cmd && isEnvironVar type && (type :: more).getLast? ≠ some environEsc

/-- `TELNET_TELOPT_ENVIRON` and `TELNET_TELOPT_NEW_ENVIRON`. -/
def environTelopts : List Byte := [36, 39]

/-- `_subnegotiate`, with what it returns: 1 is meant for a compression which begins. What it
    makes of the options which it knows depends on the option and the buffer alone, and the
    session ignores it; one byte which `_mssp_telnet` reads behind a full buffer is not used. -/
def subnegotiate (t : Tracker) : List Event × Bool :=
  ([.subnegotiation t.sbTelopt t.buffer],
    t.sbTelopt ∈ environTelopts && environTelnet t.buffer)

end Tracker

/-- The variables of `_process`: the tracker, `start`, and the events so far. -/
structure Cursor where
  tracker : Tracker
  start : Nat := 0
  events : List Event := []

/-- `buffer + start` with size `i - start`. The size is not negative. -/
def slice (buffer : List Byte) (start i : Nat) : Except Fault (List Byte) :=
  if start ≤ i then .ok ((buffer.take i).drop start) else .error .outOfRange

/-- The bytes which have been waiting are passed on. -/
def pass (buffer : List Byte) (start i : Nat) : Except Fault (List Event) :=
  if i ≠ start then return [.data (← slice buffer start i)] else return []

/-- One turn of the loop of `_process`. -/
def turn (buffer : List Byte) (i : Nat) (byte : Byte) (c : Cursor) : Except Fault Cursor :=
  let t := c.tracker
  let negotiated (cmd : Cmd) : Cursor :=
    ⟨{ t with state := .DATA }, i + 1, c.events ++ [.negotiate cmd byte]⟩
  match t.state with
  | .DATA =>
      if byte = iac then do
        let waiting ← pass buffer c.start i
        return ⟨{ t with state := .IAC }, c.start, c.events ++ waiting⟩
      else return c
  | .IAC =>
      let (t', events) := t.iacCase byte
      return ⟨t', if t'.state = .DATA then i + 1 else c.start, c.events ++ events⟩
  | .WILL => return negotiated .WILL
  | .WONT => return negotiated .WONT
  | .DO => return negotiated .DO
  | .DONT => return negotiated .DONT
  | .SB =>
      return { c with
        tracker := { t with state := .SB_DATA, sbTelopt := byte, buffer := [], fits := by simp } }
  | .SB_DATA =>
      if byte = iac then return { c with tracker := { t with state := .SB_DATA_IAC } }
      else if t.sbTelopt = teloptCompress ∧ byte = Cmd.WILL.byte then
        return ⟨{ t with state := .DATA }, i + 2, c.events⟩
      else
        match t.bufferByte byte with
        | some t' => return { c with tracker := t' }
        | none => return ⟨{ t with state := .DATA }, i + 1, c.events ++ [.overflow]⟩
  | .SB_DATA_IAC =>
      if byte = se then
        -- if 1 is returned, `telnet_recv` goes on with the rest of the buffer
        return ⟨{ t with state := .DATA }, i + 1, c.events ++ t.subnegotiate.1⟩
      else if byte = iac then
        match t.bufferByte iac with
        | some t' => return { c with tracker := { t' with state := .SB_DATA } }
        | none => return ⟨{ t with state := .DATA }, i + 1, c.events ++ [.overflow]⟩
      else
        let (events, aborts) := t.subnegotiate
        if aborts then
          -- `telnet_recv` goes on behind this byte, which nobody looks at
          return ⟨{ t with state := .IAC }, i + 1, c.events ++ .protocol byte :: events⟩
        else
          -- the function calls itself with this byte: a loop of one turn, with its own `start`
          let (t', more) := ({ t with state := .IAC } : Tracker).iacCase byte
          return ⟨t', i + 1, c.events ++ (.protocol byte :: events ++ more)⟩

/-- The loop of `_process` from position `i`. -/
def loop (buffer : List Byte) : List Byte → Nat → Cursor → Except Fault Cursor
  | [], _, c => .ok c
  | byte :: rest, i, c => do loop buffer rest (i + 1) (← turn buffer i byte c)

/-- `_process`. -/
def process (t : Tracker) (buffer : List Byte) : Except Fault (Tracker × List Event) := do
  let c ← loop buffer buffer 0 ⟨t, 0, []⟩
  let waiting ← if c.tracker.state = .DATA then pass buffer c.start buffer.length else pure []
  return (c.tracker, c.events ++ waiting)

/-- `readData`, time after time. -/
def recv (t : Tracker) : List (List Byte) → Except Fault (Tracker × List Event)
  | [] => .ok (t, [])
  | chunk :: chunks => do
      let (t₁, events) ← process t chunk
      let (t₂, more) ← recv t₁ chunks
      return (t₂, events ++ more)

/-! ## Byte by byte -/

/-- A reader which passes every byte of the data on by itself. Behind the first two bytes of an
    MCCPv1 marker it drops one more. -/
def reader : Scanner (Tracker × Bool) Byte Event where
  step
    | (t, true), _ => ((t, false), [])
    | (t, false), byte =>
        let negotiated (cmd : Cmd) : (Tracker × Bool) × List Event :=
          (({ t with state := .DATA }, false), [.negotiate cmd byte])
        match t.state with
        | .DATA =>
            if byte = iac then (({ t with state := .IAC }, false), [])
            else ((t, false), [.data [byte]])
        | .IAC => (((t.iacCase byte).1, false), (t.iacCase byte).2)
        | .WILL => negotiated .WILL
        | .WONT => negotiated .WONT
        | .DO => negotiated .DO
        | .DONT => negotiated .DONT
        | .SB =>
            (({ t with state := .SB_DATA, sbTelopt := byte, buffer := [], fits := by simp }, false),
              [])
        | .SB_DATA =>
            if byte = iac then (({ t with state := .SB_DATA_IAC }, false), [])
            else if t.sbTelopt = teloptCompress ∧ byte = Cmd.WILL.byte then
              (({ t with state := .DATA }, true), [])
            else
              match t.bufferByte byte with
              | some t' => ((t', false), [])
              | none => (({ t with state := .DATA }, false), [.overflow])
        | .SB_DATA_IAC =>
            if byte = se then (({ t with state := .DATA }, false), t.subnegotiate.1)
            else if byte = iac then
              match t.bufferByte iac with
              | some t' => (({ t' with state := .SB_DATA }, false), [])
              | none => (({ t with state := .DATA }, false), [.overflow])
            else if t.subnegotiate.2 then
              (({ t with state := .IAC }, false), .protocol byte :: t.subnegotiate.1)
            else
              let (t', events) := ({ t with state := .IAC } : Tracker).iacCase byte
              ((t', false), .protocol byte :: t.subnegotiate.1 ++ events)

/-- A chunk ends, or a command begins, where the reader waits for the last byte of a marker. -/
def Torn : Tracker × Bool → List Byte → Prop
  | s, [] => s.2 = true
  | s, byte :: rest => (s.2 = true ∧ byte = iac) ∨ Torn (reader.step s byte).1 rest

/-- The data of the events, byte by byte. -/
def bytewise (events : List Event) : List Event :=
  events.flatMap fun
    | .data bytes => bytes.map fun b => .data [b]
    | e => [e]

@[simp] theorem bytewise_append (events more : List Event) :
    bytewise (events ++ more) = bytewise events ++ bytewise more :=
  List.flatMap_append

/-- Position `i` of a buffer, read by the function and by the reader. -/
structure At (buffer : List Byte) (i : Nat) (c : Cursor) (s : Tracker × Bool) (out : List Event) :
    Prop where
  tracker : s.1 = c.tracker
  marker : s.2 = true ↔ c.tracker.state = .DATA ∧ c.start = i + 1
  start : c.tracker.state = .DATA → c.start ≤ i + 1
  out : out = bytewise c.events ++
    if c.tracker.state = .DATA then bytewise [.data ((buffer.take i).drop c.start)] else []

theorem pass_eq (buffer : List Byte) {start i : Nat} (le : start ≤ i) :
    ∃ events, pass buffer start i = .ok events ∧
      bytewise events = bytewise [.data ((buffer.take i).drop start)] := by
  unfold pass
  split <;> rename_i h
  · rw [slice, if_pos le]
    exact ⟨_, rfl, rfl⟩
  · obtain rfl := not_ne_iff.mp h
    exact ⟨[], rfl, by simp [bytewise]⟩

theorem pass_torn (buffer : List Byte) (i : Nat) :
    pass buffer (i + 1) i = .error .outOfRange := by
  rw [pass, if_pos (by omega), slice, if_neg (by omega)]
  rfl

theorem turn_torn {buffer : List Byte} {i : Nat} {c : Cursor} {s : Tracker × Bool}
    {out : List Event} (h : At buffer i c s out) (torn : s.2 = true) :
    turn buffer i iac c = .error .outOfRange := by
  obtain ⟨data, start⟩ := h.marker.mp torn
  simp only [turn, data, start, pass_torn]
  rfl

theorem At.busy (buffer : List Byte) (i start : Nat) {t : Tracker} (busy : t.state ≠ .DATA)
    (events : List Event) : At buffer i ⟨t, start, events⟩ (t, false) (bytewise events) :=
  ⟨rfl, by simp [busy], fun data => absurd data busy, by simp [busy]⟩

/-- Data begins at position `i`. -/
theorem At.fresh (buffer : List Byte) (i : Nat) (t : Tracker) (events : List Event) :
    At buffer i ⟨t, i, events⟩ (t, false) (bytewise events) where
  tracker := rfl
  marker := by simp
  start _ := by simp
  out := by
    have none : (buffer.take i).drop i = [] := List.drop_eq_nil_of_le (by simp)
    simp [none, bytewise]

theorem At.cut (buffer : List Byte) (i : Nat) {t : Tracker} (data : t.state = .DATA)
    (events : List Event) : At buffer i ⟨t, i + 1, events⟩ (t, true) (bytewise events) where
  tracker := rfl
  marker := by simp [data]
  start _ := le_rfl
  out := by
    have none : (buffer.take i).drop (i + 1) = [] := List.drop_eq_nil_of_le (by simp)
    simp [none, bytewise]

/-- One more byte of data. -/
theorem At.more {buffer : List Byte} {i : Nat} {c : Cursor} {s : Tracker × Bool}
    {out : List Event} (h : At buffer i c s out) (data : c.tracker.state = .DATA) {byte : Byte}
    (here : buffer[i]? = some byte) :
    At buffer (i + 1) c (c.tracker, false) (out ++ if s.2 then [] else [.data [byte]]) := by
  have last : buffer.take (i + 1) = buffer.take i ++ [byte] := by
    rw [List.take_add_one, here]
    rfl
  have most := h.start data
  refine ⟨rfl, ?_, fun _ => by omega, ?_⟩
  · simp only [Bool.false_eq_true, data, true_and, false_iff]
    omega
  · rw [h.out, if_pos data, if_pos data, last]
    cases marker : s.2 with
    | true =>
        have start := (h.marker.mp marker).2
        have length : (buffer.take i ++ [byte]).length ≤ i + 1 := by simp
        have none : (buffer.take i ++ [byte]).drop c.start = [] := by
          rw [start]
          exact List.drop_eq_nil_of_le length
        have none' : (buffer.take i).drop c.start = [] := by
          rw [start]
          exact List.drop_eq_nil_of_le (by simp)
        simp [none, none']
    | false =>
        have le : c.start ≤ i := by
          have other : ¬ c.start = i + 1 := fun same => by
            rw [h.marker.mpr ⟨data, same⟩] at marker
            cases marker
          omega
        have inside : i < buffer.length := (List.getElem?_eq_some_iff.mp here).1
        rw [List.drop_append_of_le_length (by rw [List.length_take]; omega)]
        simp [bytewise]

theorem bytewise_iacCase (t : Tracker) (byte : Byte) :
    bytewise (t.iacCase byte).2 = (t.iacCase byte).2 := by
  unfold Tracker.iacCase
  split_ifs <;> rfl

theorem At.iacCase (buffer : List Byte) (i start : Nat) (t : Tracker) (byte : Byte)
    (events : List Event) :
    At buffer i
      ⟨(t.iacCase byte).1, if (t.iacCase byte).1.state = .DATA then i else start, events⟩
      ((t.iacCase byte).1, false) (bytewise events) := by
  split <;> rename_i state
  · exact .fresh buffer i _ events
  · exact .busy buffer i start state events

/-- What is put out besides data is passed on at once. -/
theorem At.said {buffer : List Byte} {i start : Nat} {t : Tracker} {s : Tracker × Bool}
    {events more : List Event} (plain : bytewise more = more)
    (h : At buffer i ⟨t, start, events ++ more⟩ s (bytewise (events ++ more))) :
    At buffer i ⟨t, start, events ++ more⟩ s (bytewise events ++ more) := by
  rwa [bytewise_append, plain] at h

/-- Step lemma. -/
theorem turn_spec {buffer : List Byte} {i : Nat} {c : Cursor} {s : Tracker × Bool}
    {out : List Event} (h : At buffer i c s out) {byte : Byte} (here : buffer[i]? = some byte)
    (whole : ¬ (s.2 = true ∧ byte = iac)) :
    ∃ c', turn buffer i byte c = .ok c' ∧
      At buffer (i + 1) c' (reader.step s byte).1 (out ++ (reader.step s byte).2) := by
  obtain ⟨t, marker⟩ := s
  obtain ⟨t', start, events⟩ := c
  obtain rfl : t = t' := h.tracker
  cases marker with
  | true =>
      have data : t.state = .DATA := (h.marker.mp rfl).1
      have other : byte ≠ iac := fun same => whole ⟨rfl, same⟩
      exact ⟨⟨t, start, events⟩, by simp [turn, data, other, pure, Except.pure],
        h.more data here⟩
  | false =>
      by_cases data : t.state = .DATA
      · by_cases command : byte = iac
        · have le : start ≤ i := by
            have most := h.start data
            have other : ¬ start = i + 1 := fun same => by cases h.marker.mpr ⟨data, same⟩
            simp only at most
            omega
          obtain ⟨waiting, passed, same⟩ := pass_eq buffer le
          refine ⟨⟨{ t with state := .IAC }, start, events ++ waiting⟩, ?_, ?_⟩
          · simp only [turn, data, if_pos command, passed]
            rfl
          · have busy := At.busy buffer (i + 1) start (t := { t with state := .IAC }) (by simp)
              (events ++ waiting)
            have out := h.out
            simp only [if_pos data] at out
            simp only [reader, data, if_pos command, List.append_nil]
            rwa [bytewise_append, same, ← out] at busy
        · refine ⟨⟨t, start, events⟩, by simp [turn, data, command, pure, Except.pure], ?_⟩
          have more := h.more data here
          simpa [reader, data, command] using more
      · have out := h.out
        simp only [if_neg data, List.append_nil] at out
        subst out
        cases state : t.state with
        | DATA => exact absurd state data
        | IAC =>
            refine ⟨_, by simp only [turn, state]; rfl, ?_⟩
            simp only [reader, state]
            exact (At.iacCase buffer (i + 1) start t byte _).said (bytewise_iacCase t byte)
        | WILL | WONT | DO | DONT =>
            refine ⟨_, by simp only [turn, state]; rfl, ?_⟩
            simp only [reader, state]
            exact (At.fresh buffer (i + 1) _ _).said rfl
        | SB =>
            refine ⟨_, by simp only [turn, state]; rfl, ?_⟩
            simp only [reader, state, List.append_nil]
            exact .busy buffer (i + 1) start (by simp) events
        | SB_DATA =>
            by_cases command : byte = iac
            · refine ⟨_, by simp only [turn, state, if_pos command]; rfl, ?_⟩
              simp only [reader, state, if_pos command, List.append_nil]
              exact .busy buffer (i + 1) start (by simp) events
            · by_cases begun : t.sbTelopt = teloptCompress ∧ byte = Cmd.WILL.byte
              · refine ⟨_, by simp only [turn, state, if_neg command, if_pos begun]; rfl, ?_⟩
                simp only [reader, state, if_neg command, if_pos begun, List.append_nil]
                exact .cut buffer (i + 1) rfl events
              · simp only [turn, reader, state, if_neg command, if_neg begun]
                cases stored : t.bufferByte byte with
                | none => exact ⟨_, rfl, (At.fresh buffer (i + 1) _ _).said rfl⟩
                | some t' =>
                    rw [List.append_nil]
                    refine ⟨_, rfl, .busy buffer (i + 1) start ?_ events⟩
                    rw [t.bufferByte_state stored, state]
                    nofun
        | SB_DATA_IAC =>
            by_cases last : byte = se
            · refine ⟨_, by simp only [turn, state, if_pos last]; rfl, ?_⟩
              simp only [reader, state, if_pos last]
              exact (At.fresh buffer (i + 1) _ _).said rfl
            · by_cases escaped : byte = iac
              · simp only [turn, reader, state, if_neg last, if_pos escaped]
                cases stored : t.bufferByte iac with
                | none => exact ⟨_, rfl, (At.fresh buffer (i + 1) _ _).said rfl⟩
                | some t' =>
                    rw [List.append_nil]
                    exact ⟨_, rfl, .busy buffer (i + 1) start (by simp) events⟩
              · cases aborts : t.subnegotiate.2 with
                | true =>
                    refine ⟨_, by
                      simp only [turn, state, if_neg last, if_neg escaped, aborts, if_true]
                      rfl, ?_⟩
                    simp only [reader, state, if_neg last, if_neg escaped, aborts, if_true]
                    exact (At.busy buffer (i + 1) _ (by simp) _).said rfl
                | false =>
                    refine ⟨_, by
                      simp only [turn, state, if_neg last, if_neg escaped, aborts,
                        Bool.false_eq_true, if_false]
                      rfl, ?_⟩
                    simp only [reader, state, if_neg last, if_neg escaped, aborts,
                      Bool.false_eq_true, if_false]
                    refine (At.fresh buffer (i + 1) _ _).said ?_
                    rw [bytewise_append, bytewise_iacCase]
                    rfl

/-- Run lemma: the loop reads beyond the buffer or does what the reader does. -/
theorem loop_spec {buffer before rest : List Byte} (split : buffer = before ++ rest)
    {c : Cursor} {s : Tracker × Bool} {out : List Event} (h : At buffer before.length c s out) :
    (Torn s rest ∧ (loop buffer rest before.length c = .error .outOfRange ∨
        ∃ c', loop buffer rest before.length c = .ok c' ∧ c'.tracker.state = .DATA ∧
          c'.start = buffer.length + 1)) ∨
      ¬ Torn s rest ∧ ∃ c', loop buffer rest before.length c = .ok c' ∧
        At buffer buffer.length c' (reader.feed s rest).1 (out ++ (reader.feed s rest).2) := by
  induction rest generalizing before c s out with
  | nil =>
      obtain rfl : buffer = before := by simpa using split
      by_cases torn : s.2 = true
      · exact .inl ⟨torn, .inr ⟨c, rfl, h.marker.mp torn⟩⟩
      · exact .inr ⟨torn, c, rfl, by simpa using h⟩
  | cons byte rest ih =>
      have here : buffer[before.length]? = some byte := by simp [split]
      by_cases cut : s.2 = true ∧ byte = iac
      · obtain ⟨torn, rfl⟩ := cut
        refine .inl ⟨.inl ⟨torn, rfl⟩, .inl ?_⟩
        rw [loop, turn_torn h torn]
        rfl
      · obtain ⟨c', done, next⟩ := turn_spec h here cut
        have ih := ih (show buffer = (before ++ [byte]) ++ rest by simp [split])
          (by simpa using next)
        have same : Torn s (byte :: rest) ↔ Torn (reader.step s byte).1 rest :=
          ⟨fun torn => torn.resolve_left cut, .inr⟩
        have turned : loop buffer (byte :: rest) before.length c =
            loop buffer rest (before ++ [byte]).length c' := by
          rw [loop, done, List.length_append]
          rfl
        rw [turned, same, Scanner.feed_cons, ← List.append_assoc]
        exact ih

theorem feed_marker {s : Tracker × Bool} {bytes : List Byte} (whole : ¬ Torn s bytes) :
    (reader.feed s bytes).1.2 = false := by
  induction bytes generalizing s with
  | nil => exact Bool.not_eq_true _ ▸ whole
  | cons byte rest ih => exact ih fun torn => whole (.inr torn)

/-- A buffer is read like its bytes, unless it ends or a command begins where the last byte of
    an MCCPv1 marker is due: there the data begins behind the end of what is read. -/
theorem process_spec (t : Tracker) (buffer : List Byte) :
    (Torn (t, false) buffer ∧ process t buffer = .error .outOfRange) ∨
      ¬ Torn (t, false) buffer ∧ ∃ events,
        process t buffer = .ok ((reader.feed (t, false) buffer).1.1, events) ∧
        bytewise events = (reader.feed (t, false) buffer).2 ∧
        (reader.feed (t, false) buffer).1.2 = false := by
  have first := At.fresh buffer 0 t []
  obtain ⟨torn, fault | ⟨c', done, data, start⟩⟩ | ⟨whole, c', done, last⟩ :=
    loop_spec (List.nil_append buffer).symm first
  · left
    refine ⟨torn, ?_⟩
    simp only [List.length_nil] at fault
    rw [process, fault]
    rfl
  · left
    refine ⟨torn, ?_⟩
    simp only [List.length_nil] at done
    rw [process, done]
    simp only [bind, Except.bind, if_pos data, start, pass_torn]
  · right
    refine ⟨whole, ?_⟩
    have marker := feed_marker whole
    simp only [List.length_nil] at done
    rw [process, done]
    have out := last.out
    rw [show bytewise [] = [] from rfl, List.nil_append] at out
    by_cases data : c'.tracker.state = .DATA
    · have le : c'.start ≤ buffer.length := by
        have most := last.start data
        have other : ¬ c'.start = buffer.length + 1 := fun same => by
          rw [last.marker.mpr ⟨data, same⟩] at marker
          cases marker
        omega
      obtain ⟨waiting, passed, same⟩ := pass_eq buffer le
      refine ⟨c'.events ++ waiting, ?_, ?_, marker⟩
      · simp only [bind, Except.bind, if_pos data, passed, last.tracker]
        rfl
      · rw [bytewise_append, same, out, if_pos data]
    · refine ⟨c'.events, ?_, ?_, marker⟩
      · simp [bind, Except.bind, pure, Except.pure, data, last.tracker]
      · rw [out, if_neg data, List.append_nil]

/-! ## However the stream is cut -/

/-- No MCCPv1 marker begins in the stream. -/
def Unmarked (t : Tracker) (stream : List Byte) : Prop :=
  reader.Stays (fun s => s.2 = false) (t, false) stream

theorem not_torn {s : Tracker × Bool} {bytes : List Byte}
    (unmarked : reader.Stays (fun s => s.2 = false) s bytes) : ¬ Torn s bytes := by
  induction bytes generalizing s with
  | nil => simp [Torn, show s.2 = false from unmarked]
  | cons byte rest ih =>
      obtain ⟨here, later⟩ := unmarked
      rintro (⟨torn, -⟩ | torn)
      · rw [here] at torn
        cases torn
      · exact ih later torn

theorem recv_unmarked {t : Tracker} {chunks : List (List Byte)}
    (unmarked : Unmarked t chunks.flatten) :
    ∃ events, recv t chunks = .ok ((reader.feed (t, false) chunks.flatten).1.1, events) ∧
      bytewise events = (reader.feed (t, false) chunks.flatten).2 := by
  induction chunks generalizing t with
  | nil => exact ⟨[], rfl, rfl⟩
  | cons chunk chunks ih =>
      rw [List.flatten_cons] at unmarked ⊢
      obtain ⟨first, later⟩ := unmarked.first
      obtain ⟨torn, -⟩ | ⟨-, events, done, out, marker⟩ := process_spec t chunk
      · exact absurd torn (not_torn first)
      · have stands : (reader.feed (t, false) chunk).1 =
            ((reader.feed (t, false) chunk).1.1, false) := Prod.ext rfl marker
        rw [stands] at later
        obtain ⟨more, rest, out'⟩ := ih later
        refine ⟨events ++ more, ?_, ?_⟩
        · rw [recv, done, Scanner.feed_append, stands]
          simp only [bind, Except.bind, rest]
          rfl
        · rw [Scanner.feed_append, bytewise_append, out, out', stands]

/-- What a stream is taken for does not depend on how the network has cut it, exactly when no
    MCCPv1 marker begins in it. -/
theorem recv_iff (t : Tracker) (stream : List Byte) :
    (∀ chunks, chunks.flatten = stream → ∃ events,
      recv t chunks = .ok ((reader.feed (t, false) stream).1.1, events) ∧
        bytewise events = (reader.feed (t, false) stream).2) ↔ Unmarked t stream := by
  constructor
  · intro same
    refine reader.stays_of_parts fun part rest split => ?_
    obtain ⟨torn, fault⟩ | ⟨-, events, -, -, marker⟩ := process_spec t part
    · obtain ⟨events, done, -⟩ := same [part, rest] (by simp [split])
      rw [recv, fault] at done
      cases done
    · exact marker
  · rintro unmarked chunks rfl
    exact recv_unmarked unmarked

/-- The marker of MCCPv1 is IAC SB 85 WILL SE. -/
example : recv {} [[255, 250, 85, 251], [240]] = .error .outOfRange := rfl

/-- Behind an environment which ends with a stray byte, the next one is a command. -/
example : (reader.feed ({}, false) [255, 250, 36, 0, 255, 97, 98]).2 =
    [.protocol 97, .subnegotiation 36 [0], .iac 98] := rfl

/-! ## What the library writes -/

/-- The loop of `telnet_send` with the bytes which have not been sent. -/
def sendRaw (waiting : List Byte) : List Byte → List (List Byte)
  | [] => if waiting = [] then [] else [waiting]
  | c :: rest =>
      if c = iac then (if waiting = [] then [] else [waiting]) ++ [iac, iac] :: sendRaw [] rest
      else sendRaw (waiting ++ [c]) rest

def escaped (c : Byte) : List Byte := if c = iac then [iac, iac] else [c]

theorem flatten_sendRaw (waiting bytes : List Byte) :
    (sendRaw waiting bytes).flatten = waiting ++ bytes.flatMap escaped := by
  have flush : ∀ w : List Byte, (if w = [] then [] else [w]).flatten = w := by
    intro w
    split <;> simp_all
  induction bytes generalizing waiting with
  | nil => simp [sendRaw, flush]
  | cons c rest ih =>
      rw [sendRaw, List.flatMap_cons, escaped]
      split
      · rw [List.flatten_append, flush, List.flatten_cons, ih]
        rfl
      · rw [ih, List.append_assoc]

/-- What is handed to the sending half. -/
inductive Item where
  /-- `telnet_send`. -/
  | raw (bytes : List Byte)
  /-- `telnet_printf` of a text without percent signs. -/
  | text (bytes : List Byte)
  /-- `telnet_iac`. -/
  | command (cmd : Byte)
  /-- `_send_negotiate`. -/
  | negotiate (cmd : Cmd) (telopt : Byte)
  /-- `telnet_subnegotiation`. -/
  | subnegotiation (telopt : Byte) (buffer : List Byte)

namespace Item

/-- The bytes which `_send` is called with. -/
def written : Item → List Byte
  | raw bytes => (sendRaw [] bytes).flatten
  | text bytes => (sendLoop [] bytes).flatten
  | command cmd => [iac, cmd]
  | negotiate cmd telopt => [iac, cmd.byte, telopt]
  | subnegotiation telopt buffer =>
      [iac, sb, telopt] ++ (sendRaw [] buffer).flatten ++ [iac, se]

/-- A line end of the terminal. -/
def lineEnd (c : Byte) : List Byte :=
  if c = 0x0D then [0x0D, 0] else if c = 0x0A then [0x0D, 0x0A] else [c]

/-- What the other side should take it for. -/
def read : Item → List Event
  | raw bytes => bytewise [.data bytes]
  | text bytes => bytewise [.data (bytes.flatMap lineEnd)]
  | command cmd => [.iac cmd]
  | negotiate cmd telopt => [.negotiate cmd telopt]
  | subnegotiation telopt buffer => [.subnegotiation telopt buffer]

/-- A command is not the beginning of something else, and a subnegotiation fits the buffer and
    holds no MCCPv1 marker. -/
def Fits : Item → Prop
  | raw _ | text _ | negotiate .. => True
  | command cmd => cmd ≠ sb ∧ (∀ c : Cmd, cmd ≠ c.byte) ∧ cmd ≠ iac
  | subnegotiation telopt buffer =>
      buffer.length ≤ 16384 ∧ (telopt = teloptCompress → Cmd.WILL.byte ∉ buffer)

end Item

/-- Data comes next. -/
def Idle (s : Tracker × Bool) : Prop := s.1.state = .DATA ∧ s.2 = false

theorem recognises_byte (c : Byte) :
    reader.Recognises Idle (fun s => s.2 = false) (escaped c) [.data [c]] := by
  rintro ⟨t, _⟩ ⟨data, rfl⟩
  have data : t.state = .DATA := data
  unfold escaped
  split <;> rename_i command
  · obtain rfl := command
    simp [Scanner.feed, Scanner.Stays, reader, data, Tracker.iacCase, Idle, iac, sb, Cmd.byte]
  · simp [Scanner.feed, Scanner.Stays, reader, data, command, Idle]

theorem recognises_raw (bytes : List Byte) :
    reader.Recognises Idle (fun s => s.2 = false) (bytes.flatMap escaped)
      (bytewise [.data bytes]) := by
  have all := Scanner.recognises_flatMap (m := reader) (fun _ idle => idle.2)
    fun c (_ : c ∈ bytes) => recognises_byte c
  have same : (bytes.flatMap fun c => [Event.data [c]]) = bytewise [.data bytes] := by
    simp [bytewise, List.map_eq_flatMap]
  rwa [same] at all

theorem special?_getD (c : Byte) :
    (special? c).getD [c] = (Item.lineEnd c).flatMap escaped := by
  unfold special? Item.lineEnd
  by_cases command : c = iac
  · subst command
    decide
  · rw [if_neg command]
    by_cases carriage : c = 0x0D
    · subst carriage
      decide
    · rw [if_neg carriage, if_neg carriage]
      by_cases line : c = 0x0A
      · subst line
        decide
      · rw [if_neg line, if_neg line]
        simp [escaped, command]

theorem translate_eq (text : List Byte) :
    translate text = (text.flatMap Item.lineEnd).flatMap escaped := by
  rw [translate, List.flatMap_assoc]
  exact List.flatMap_congr fun c _ => special?_getD c

/-- A subnegotiation has begun, and this is in the buffer. -/
def Collects (telopt : Byte) (buffer : List Byte) (s : Tracker × Bool) : Prop :=
  s.1.state = .SB_DATA ∧ s.1.sbTelopt = telopt ∧ s.1.buffer = buffer ∧ s.2 = false

theorem collects_byte {telopt : Byte} {buffer : List Byte} {c : Byte}
    (room : buffer.length < 16384) (unmarked : telopt = teloptCompress → c ≠ Cmd.WILL.byte)
    {s : Tracker × Bool} (h : Collects telopt buffer s) :
    Collects telopt (buffer ++ [c]) (reader.feed s (escaped c)).1 ∧
      (reader.feed s (escaped c)).2 = [] ∧
      reader.Stays (fun s => s.2 = false) s (escaped c) := by
  obtain ⟨t, _⟩ := s
  obtain ⟨state, rfl, rfl, rfl⟩ := h
  simp only at state unmarked room
  unfold escaped
  split <;> rename_i command
  · subst command
    obtain ⟨-, full⟩ | ⟨t', stored, -, kept, same, buffer⟩ :=
      ({ t with state := .SB_DATA_IAC } : Tracker).bufferByte_eq iac
    · simp only at full
      omega
    · have other : iac ≠ se := by decide
      simp [Scanner.feed, Scanner.Stays, reader, state, other, stored, Collects, same, buffer]
  · obtain ⟨-, full⟩ | ⟨t', stored, -, kept, same, buffer⟩ := t.bufferByte_eq c
    · omega
    · have other : ¬ (t.sbTelopt = teloptCompress ∧ c = Cmd.WILL.byte) :=
        fun marker => unmarked marker.1 marker.2
      simp [Scanner.feed, Scanner.Stays, reader, state, command, other, stored, Collects, kept,
        same, buffer]

theorem collects_bytes {telopt : Byte} {before bytes : List Byte}
    (fits : (before ++ bytes).length ≤ 16384)
    (unmarked : telopt = teloptCompress → Cmd.WILL.byte ∉ bytes) {s : Tracker × Bool}
    (h : Collects telopt before s) :
    Collects telopt (before ++ bytes) (reader.feed s (bytes.flatMap escaped)).1 ∧
      (reader.feed s (bytes.flatMap escaped)).2 = [] ∧
      reader.Stays (fun s => s.2 = false) s (bytes.flatMap escaped) := by
  induction bytes generalizing before s with
  | nil => exact ⟨by simpa using h, rfl, h.2.2.2⟩
  | cons c rest ih =>
      have room : before.length < 16384 := by
        rw [List.length_append, List.length_cons] at fits
        omega
      obtain ⟨next, quiet, stays⟩ := collects_byte room
        (fun compress same => unmarked compress (same ▸ List.mem_cons_self)) h
      obtain ⟨last, quiet', stays'⟩ := ih (by simpa using fits)
        (fun compress inside => unmarked compress (List.mem_cons_of_mem c inside)) next
      rw [List.flatMap_cons, Scanner.feed_append]
      exact ⟨by simpa using last, by rw [quiet, quiet']; rfl, reader.stays_append stays stays'⟩

theorem collects_end {telopt : Byte} {buffer : List Byte} {s : Tracker × Bool}
    (h : Collects telopt buffer s) :
    Idle (reader.feed s [iac, se]).1 ∧
      (reader.feed s [iac, se]).2 = [.subnegotiation telopt buffer] ∧
      reader.Stays (fun s => s.2 = false) s [iac, se] := by
  obtain ⟨t, _⟩ := s
  obtain ⟨state, rfl, rfl, rfl⟩ := h
  simp only at state
  simp [Scanner.feed, Scanner.Stays, reader, state, Idle, Tracker.subnegotiate]

theorem recognises_item {item : Item} (fits : item.Fits) :
    reader.Recognises Idle (fun s => s.2 = false) item.written item.read := by
  cases item with
  | raw bytes =>
      rw [Item.written, flatten_sendRaw]
      exact recognises_raw bytes
  | text bytes =>
      rw [Item.written, flatten_sendLoop, translate_eq]
      exact recognises_raw _
  | command cmd =>
      rintro ⟨t, _⟩ ⟨data, rfl⟩
      have data : t.state = .DATA := data
      obtain ⟨begins, negotiates, escapes⟩ := fits
      simp [Scanner.feed, Scanner.Stays, reader, data, Tracker.iacCase, Idle, begins, escapes,
        negotiates, Item.written, Item.read]
  | negotiate cmd telopt =>
      rintro ⟨t, _⟩ ⟨data, rfl⟩
      have data : t.state = .DATA := data
      cases cmd <;>
        simp [Scanner.feed, Scanner.Stays, reader, data, Tracker.iacCase, Idle, iac, sb, Cmd.byte,
          Item.written, Item.read]
  | subnegotiation telopt buffer =>
      rintro ⟨t, _⟩ ⟨data, rfl⟩
      have data : t.state = .DATA := data
      obtain ⟨room, unmarked⟩ := fits
      have begun : Collects telopt [] (reader.feed (t, false) [iac, sb, telopt]).1 ∧
          (reader.feed (t, false) [iac, sb, telopt]).2 = [] ∧
          reader.Stays (fun s => s.2 = false) (t, false) [iac, sb, telopt] := by
        simp [Scanner.feed, Scanner.Stays, reader, data, Tracker.iacCase, Collects, sb]
      obtain ⟨collects, quiet, stays⟩ := begun
      obtain ⟨collected, quiet', stays'⟩ :=
        collects_bytes (by simpa using room) unmarked collects
      obtain ⟨idle, out, stays''⟩ := collects_end collected
      rw [Item.written, flatten_sendRaw, List.nil_append, List.append_assoc, Scanner.feed_append,
        Scanner.feed_append, quiet, quiet', out]
      exact ⟨idle, rfl, reader.stays_append stays (reader.stays_append stays' stays'')⟩

theorem recognises_written {items : List Item} (fits : ∀ item ∈ items, item.Fits) :
    reader.Recognises Idle (fun s => s.2 = false) (items.flatMap Item.written)
      (items.flatMap Item.read) :=
  Scanner.recognises_flatMap (fun _ idle => idle.2)
    fun item member => recognises_item (fits item member)

/-- What is written by the sending half, however the network cuts it, the receiving half takes
    for what was meant. -/
theorem recv_written {items : List Item} (fits : ∀ item ∈ items, item.Fits)
    {chunks : List (List Byte)} (sent : chunks.flatten = items.flatMap Item.written) :
    ∃ t events, recv {} chunks = .ok (t, events) ∧ t.state = .DATA ∧
      bytewise events = items.flatMap Item.read := by
  obtain ⟨idle, out, unmarked⟩ := recognises_written fits ({}, false) ⟨rfl, rfl⟩
  rw [← sent] at idle out unmarked
  obtain ⟨events, done, same⟩ := recv_unmarked unmarked
  exact ⟨_, events, done, idle.1, same.trans out⟩

/-- A terminal type with an IAC in it, between a line and a negotiation, cut inside both. -/
theorem recv_written_cut : ∃ t events,
    recv {} [[108, 115, 13], [10, 255, 250, 24, 0, 255], [255, 255], [240, 255, 251], [31]] =
        .ok (t, events) ∧ t.state = .DATA ∧
      bytewise events = [.text [108, 115, 10], .subnegotiation 24 [0, 255],
        .negotiate .WILL 31].flatMap Item.read :=
  recv_written (by simp [Item.Fits, teloptCompress, Cmd.byte]) (by decide)

/-- What is negotiated, in the order in which it arrives. -/
def negotiations (events : List Event) : List (Cmd × Byte) :=
  events.filterMap fun
    | .negotiate cmd telopt => some (cmd, telopt)
    | _ => none

theorem negotiations_append (events more : List Event) :
    negotiations (events ++ more) = negotiations events ++ negotiations more :=
  List.filterMap_append

theorem negotiations_bytewise (events : List Event) :
    negotiations (bytewise events) = negotiations events := by
  induction events with
  | nil => rfl
  | cons e events ih =>
      have one : negotiations (bytewise [e]) = negotiations [e] := by
        cases e <;> simp [negotiations, bytewise]
      rw [← List.singleton_append, bytewise_append, negotiations_append, negotiations_append, one,
        ih]

/-- The commands of an item, as they stand in the queues of a connection. -/
def Item.commands : Item → List (Cmd × Byte)
  | negotiate cmd telopt => [(cmd, telopt)]
  | _ => []

/-- Commands under way arrive as a connection has them in its queues, in order and whatever
    stands between them. -/
theorem recv_negotiations {items : List Item} (fits : ∀ item ∈ items, item.Fits)
    {chunks : List (List Byte)} (sent : chunks.flatten = items.flatMap Item.written) :
    ∃ t events, recv {} chunks = .ok (t, events) ∧
      negotiations events = items.flatMap Item.commands := by
  obtain ⟨-, out, unmarked⟩ := recognises_written fits ({}, false) ⟨rfl, rfl⟩
  rw [← sent] at out unmarked
  obtain ⟨events, done, same⟩ := recv_unmarked unmarked
  refine ⟨_, events, done, ?_⟩
  rw [← negotiations_bytewise, same, out]
  clear fits sent out
  induction items with
  | nil => rfl
  | cons item items ih =>
      have one : negotiations item.read = item.commands := by
        cases item with
        | raw bytes | text bytes => exact negotiations_bytewise [.data _]
        | command | negotiate | subnegotiation => rfl
      rw [List.flatMap_cons, List.flatMap_cons, negotiations_append, one, ih]

end Telnet

end VoxPopuli
