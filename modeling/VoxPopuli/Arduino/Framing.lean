import VoxPopuli.Lib.Delimited
import VoxPopuli.Lib.Ends
import VoxPopuli.XBee.XBeeRemote
import VoxPopuli.Arduino.Main

/-! # From the daemon's messages to the firmware's handlers

The messages of the daemon, their frames on the line and what the firmware makes
of them. The byte which ends a frame is not escaped, so an intensity of 255 ends
the frame it stands in; every other sequence of messages arrives as it was sent.
-/

namespace VoxPopuli

/-- What the daemon tells a remote. -/
inductive Command where
  | led (intensity : Byte)
  | led1 (intensity : Byte)
  | led2 (intensity : Byte)
  | led3 (intensity : Byte)
  | activeMode
  | muteMode
  deriving DecidableEq, Repr

namespace Command

def type : Command → XBEE_MSG_TYPE
  | led _ => .LED_INTENSITY
  | led1 _ => .LED1_INTENSITY
  | led2 _ => .LED2_INTENSITY
  | led3 _ => .LED3_INTENSITY
  | activeMode => .ACTIVE_MODE
  | muteMode => .MUTE_MODE

def data : Command → HexData
  | led v | led1 v | led2 v | led3 v => [v]
  | activeMode | muteMode => []

/-- The message as the daemon builds it. -/
def message (c : Command) : StdString := XBeeRemote.prepareMsg c.type c.data

/-- The intensity which is commanded for an LED. -/
def level? (c : Command) (i : Fin 3) : Option Byte :=
  match c with
  | led v => some v
  | led1 v => if i = 0 then some v else none
  | led2 v => if i = 1 then some v else none
  | led3 v => if i = 2 then some v else none
  | activeMode | muteMode => none

/-- The mode which is commanded: `true` is active. -/
def mode? : Command → Option Bool
  | activeMode => some true
  | muteMode => some false
  | led _ | led1 _ | led2 _ | led3 _ => none

/-- The message without its end marker. -/
def body (c : Command) : List Byte := c.type.code :: c.data

theorem message_eq (c : Command) : c.message = c.body ++ [Firmware.FRAME_END] := rfl

/-- The end marker occurs in a body only as an intensity. -/
theorem mem_body {c : Command} : Firmware.FRAME_END ∈ c.body ↔ (255 : Byte) ∈ c.data := by
  have code : Firmware.FRAME_END ≠ c.type.code := by
    cases c <;> simp [type, XBEE_MSG_TYPE.code, Firmware.FRAME_END]
  simp only [body, List.mem_cons, code, false_or]
  exact Iff.rfl

theorem length_body_le (c : Command) : c.body.length ≤ 2 := by
  cases c <;> simp [body, data]

end Command

namespace Firmware

/-! ## Handling one frame -/

/-- The state after a command has been obeyed. -/
def obey (fw : Firmware) (c : Command) : Firmware :=
  { fw with
    activeMute := c.mode?.getD fw.activeMute
    ledStatus := fun i => (c.level? i).getD (fw.ledStatus i)
    ledOutput := fun i => ((c.level? i).map realValue).getD (fw.ledOutput i) }

/-- The buffer starts with the bytes `p`, and as many have been received. -/
structure Holds (fw : Firmware) (p : List Byte) : Prop where
  count : fw.ibRx = p.length
  bytes : fw.bufferRx.toList.take p.length = p

theorem Holds.empty {fw : Firmware} (h : fw.ibRx = 0) : fw.Holds [] := ⟨h, by simp⟩

theorem Holds.store {fw : Firmware} {p : List Byte} (h : fw.Holds p) (room : fw.ibRx < 20)
    (b : Byte) :
    { fw with bufferRx := fw.bufferRx.set fw.ibRx b, ibRx := fw.ibRx + 1 }.Holds (p ++ [b]) := by
  refine ⟨by simp [h.count], ?_⟩
  have short : p.length < fw.bufferRx.toList.length := by simpa [h.count] using room
  simp only [Vector.toList_set, h.count, List.length_append, List.length_singleton]
  rw [List.take_add_one, List.take_set_of_le le_rfl, h.bytes, List.getElem?_set_self short]
  rfl

theorem Holds.getElem {fw : Firmware} {p : List Byte} (h : fw.Holds p) {i : Nat}
    (bound : i < p.length) (bound' : i < 20) : fw.bufferRx[i] = p[i] := by
  have same := congrArg (·[i]?) h.bytes
  simpa [List.getElem?_take, bound, bound'] using same

@[simp] theorem obey_bufferRx (fw : Firmware) (c : Command) :
    (fw.obey c).bufferRx = fw.bufferRx := rfl

theorem setActiveMode_eq (fw : Firmware) : fw.setActiveMode = fw.obey .activeMode := rfl

theorem setMuteMode_eq (fw : Firmware) : fw.setMuteMode = fw.obey .muteMode := rfl

theorem toggleLED_eq (fw : Firmware) {v : Byte} (other : v ≠ 255) :
    fw.toggleLED v = pure (fw.obey (.led v)) :=
  if_neg other

/-- The three handlers of one LED differ from each other only in their LED and in
    the code of their reply. -/
theorem toggle_eq (fw : Firmware) (reply : Byte) {i : Fin 3} {v : Byte} (other : v ≠ 255)
    {c : Command} (levels : c.level? = fun j => if j = i then some v else none)
    (mode : c.mode? = none) : fw.toggle reply i v = pure (fw.obey c) := by
  have status : (fun j => (c.level? j).getD (fw.ledStatus j)) =
      Function.update fw.ledStatus i v := by
    funext j
    by_cases same : j = i
    · simp [levels, same]
    · simp [levels, same]
  have output : (fun j => ((c.level? j).map realValue).getD (fw.ledOutput j)) =
      Function.update fw.ledOutput i (realValue v) := by
    funext j
    by_cases same : j = i
    · simp [levels, same]
    · simp [levels, same]
  rw [toggle, if_neg other, obey, status, output, mode]
  rfl

theorem toggleLED1_eq (fw : Firmware) {v : Byte} (other : v ≠ 255) :
    fw.toggleLED1 v = pure (fw.obey (.led1 v)) :=
  fw.toggle_eq LED1_CMD other rfl rfl

theorem toggleLED2_eq (fw : Firmware) {v : Byte} (other : v ≠ 255) :
    fw.toggleLED2 v = pure (fw.obey (.led2 v)) :=
  fw.toggle_eq LED2_CMD other rfl rfl

theorem toggleLED3_eq (fw : Firmware) {v : Byte} (other : v ≠ 255) :
    fw.toggleLED3 v = pure (fw.obey (.led3 v)) :=
  fw.toggle_eq LED1_CMD other rfl rfl

/-- A complete frame whose intensity is not 255 is obeyed. -/
theorem processMessage_body {fw : Firmware} {c : Command} {b : Byte} (adc : Fin 1024)
    (h : fw.Holds (c.body ++ [b])) (quiet : (255 : Byte) ∉ c.data) :
    fw.processMessage adc = .ok (fw.obey c) := by
  have type : fw.bufferRx[0] = c.type.code := h.getElem (by simp) (by decide)
  -- Every other test of the chain fails, before and after the command is obeyed.
  cases c with
  | activeMode | muteMode =>
      simp [processMessage, onCommand, type, Command.type, XBEE_MSG_TYPE.code, setActiveMode_eq,
        setMuteMode_eq, ACTIVE_MODE_CMD, MUTE_MODE_CMD, ASK_MODE_CMD, SLEEP_CMD, BATT_STATUS_CMD,
        LED_CMD, LED1_CMD, LED2_CMD, LED3_CMD]
      rfl
  | led v | led1 v | led2 v | led3 v =>
      have payload : fw.bufferRx[1] = v := h.getElem (i := 1) (by simp [Command.body]) (by decide)
      have other : v ≠ 255 := by simpa [Command.data, eq_comm] using quiet
      simp [processMessage, onCommand, type, payload, Command.type, XBEE_MSG_TYPE.code,
        toggleLED_eq fw other, toggleLED1_eq fw other, toggleLED2_eq fw other,
        toggleLED3_eq fw other, ACTIVE_MODE_CMD, MUTE_MODE_CMD, ASK_MODE_CMD, SLEEP_CMD,
        BATT_STATUS_CMD, LED_CMD, LED1_CMD, LED2_CMD, LED3_CMD]
      rfl

/-! ## The receive loop -/

/-- What a call of `processMessage` must look like to carry out a command. -/
structure CarriesOut (c : Command) (call : ProcessCall) : Prop where
  frame : call.before.bufferRx.toList.take call.before.ibRx = c.message
  leds : ∀ i, call.after.ledStatus i = (c.level? i).getD (call.before.ledStatus i)
  output : ∀ i,
    call.after.ledOutput i = ((c.level? i).map realValue).getD (call.before.ledOutput i)
  mode : call.after.activeMute = c.mode?.getD call.before.activeMute

/-- Between two bytes: `p` has been received of the next frame, no reply waits. -/
structure Receiving (fw : Firmware) (p : List Byte) : Prop extends fw.Holds p where
  flushed : fw.ibTx = 0

theorem receiveByte_other {fw : Firmware} {p : List Byte} (h : fw.Receiving p)
    (short : p.length < 20) (adc : Fin 1024) {b : Byte} (other : b ≠ FRAME_END) :
    Ends (fun _ => False) (fw.receiveByte adc b) fun (calls, fw') =>
      calls = [] ∧ fw'.Receiving (p ++ [b]) := by
  have room : fw.ibRx < 20 := h.count ▸ short
  simp only [receiveByte, room, dif_pos, other, if_false]
  exact ⟨rfl, h.store room b, h.flushed⟩

theorem receiveByte_end {fw : Firmware} {c : Command} (h : fw.Receiving c.body)
    (quiet : (255 : Byte) ∉ c.data) (adc : Fin 1024) :
    Ends (fun _ => False) (fw.receiveByte adc FRAME_END) fun (calls, fw') =>
      (∃ call, calls = [call] ∧ CarriesOut c call) ∧ fw'.Receiving [] := by
  have room : fw.ibRx < 20 := by
    have := c.length_body_le
    rw [h.count]
    omega
  have stored := h.store room FRAME_END
  simp only [receiveByte, room, dif_pos, if_true, processMessage_body adc stored quiet]
  refine ⟨⟨_, rfl, ?_, fun _ => rfl, fun _ => rfl, rfl⟩, .empty rfl, h.flushed⟩
  have frame := stored.bytes
  rwa [← stored.count] at frame

/-- Run lemma: as long as a stream cuts into bodies of commands, the calls of
    `processMessage` carry out the commands whose frames have ended. -/
theorem receive_commands {fw : Firmware} {p s t : List Byte} {commands : List Command}
    (h : fw.Receiving p) (adc : Fin 1024)
    (expected : Delimited.blocks FRAME_END p (s ++ t) = commands.map Command.body)
    (complete : Delimited.remainder FRAME_END p (s ++ t) = [])
    (quiet : ∀ c ∈ commands, (255 : Byte) ∉ c.data) :
    Ends (fun _ => False) (fw.receive adc s) fun (calls, fw') =>
      ∃ ended later, commands = ended ++ later ∧ List.Forall₂ CarriesOut ended calls ∧
        fw'.Receiving (Delimited.remainder FRAME_END p s) ∧
        Delimited.blocks FRAME_END (Delimited.remainder FRAME_END p s) t =
          later.map Command.body := by
  induction s generalizing fw p commands with
  | nil => exact ⟨[], commands, rfl, .nil, h, expected⟩
  | cons x s ih =>
      by_cases last : x = FRAME_END
      · subst last
        simp only [List.cons_append, Delimited.blocks, Delimited.remainder, if_true]
          at expected complete
        cases commands with
        | nil => cases expected
        | cons c commands =>
            obtain ⟨rfl, tail⟩ := List.cons.inj expected
            apply (receiveByte_end h (quiet c List.mem_cons_self) adc).bind
            rintro ⟨calls, fw₁⟩ ⟨⟨call, rfl, carried⟩, h₁⟩
            apply (ih h₁ tail complete
              fun c member => quiet c (List.mem_cons_of_mem _ member)).bind
            rintro ⟨more, fw₂⟩ ⟨ended, later, rfl, carriedMore, h₂, rest⟩
            refine ⟨c :: ended, later, rfl, .cons carried carriedMore, ?_, ?_⟩
            · simpa only [Delimited.remainder, if_true] using h₂
            · simpa only [Delimited.remainder, if_true] using rest
      · -- The frame in progress is the start of a body, so the buffer has room.
        have short : p.length < 20 := by
          rw [List.cons_append] at expected complete
          obtain ⟨b, bs, ended⟩ := Delimited.exists_block complete
          rw [ended] at expected
          have start := Delimited.pending_isPrefix ended
          cases commands with
          | nil => cases expected
          | cons c commands =>
              have bound := c.length_body_le
              rw [← (List.cons.inj expected).1] at bound
              have := start.length_le
              omega
        simp only [List.cons_append, Delimited.blocks, Delimited.remainder, last, if_false]
          at expected complete
        apply (receiveByte_other h short adc last).bind
        rintro ⟨calls, fw₁⟩ ⟨rfl, h₁⟩
        apply (ih h₁ expected complete quiet).bind
        rintro ⟨more, fw₂⟩ later
        simpa only [Delimited.remainder, last, if_false, ends_pure, List.nil_append] using later

/-! ## One turn of the main loop -/

theorem txToBuffer_room (fw : Firmware) {p msg : List Byte} (h : fw.Holds p)
    (room : fw.ibTx + msg.length ≤ 20) :
    Ends (fun _ => False) (fw.txToBuffer msg) fun fw' =>
      fw'.Holds p ∧ fw'.ibTx = fw.ibTx + msg.length := by
  induction msg generalizing fw with
  | nil => exact ⟨h, rfl⟩
  | cons b rest ih =>
      have here : fw.ibTx < 20 := by
        simp only [List.length_cons] at room
        omega
      simp only [txToBuffer, here, dif_pos]
      apply (ih { fw with bufferTx := fw.bufferTx.set fw.ibTx b, ibTx := fw.ibTx + 1 }
        ⟨h.count, h.bytes⟩ (by simp only [List.length_cons] at room ⊢; omega)).mono
      rintro fw' ⟨held, count⟩
      refine ⟨held, ?_⟩
      simp only [List.length_cons] at count ⊢
      omega

/-- The messages of five buttons fit in an empty buffer. -/
theorem buttonProcess_receiving {fw : Firmware} {p : List Byte} (h : fw.Receiving p)
    (buttonPin : Fin 5 → Bool) :
    Ends (fun _ => False) (fw.buttonProcess buttonPin) fun fw' => fw'.Holds p := by
  have start : fw.Holds p ∧ fw.ibTx + 3 * (List.finRange 5).length ≤ 20 :=
    ⟨h.toHolds, by simp [h.flushed]⟩
  apply (Ends.foldlM (I := fun rest fw' => fw'.Holds p ∧ fw'.ibTx + 3 * rest.length ≤ 20)
    start ?_).mono
  · rintro fw' ⟨held, -⟩
    exact held
  · rintro i rest fw₁ ⟨held, room⟩
    simp only [List.length_cons] at room
    simp only [buttonStep]
    split
    · apply (txToBuffer_room
        { fw₁ with buttonBuff := Function.update fw₁.buttonBuff i _ }
        ⟨held.count, held.bytes⟩ ?_).mono
      · rintro fw₂ ⟨held₂, count⟩
        simp only [List.length_cons, List.length_nil] at count
        exact ⟨held₂, by omega⟩
      · simp only [List.length_cons, List.length_nil]
        omega
    · exact ⟨held, by omega⟩

theorem loop_commands {fw : Firmware} {p t : List Byte} {commands : List Command}
    (h : fw.Receiving p) (s : Surroundings)
    (expected : Delimited.blocks FRAME_END p (s.available ++ t) = commands.map Command.body)
    (complete : Delimited.remainder FRAME_END p (s.available ++ t) = [])
    (quiet : ∀ c ∈ commands, (255 : Byte) ∉ c.data) :
    Ends (fun _ => False) (fw.loop s) fun (calls, _, fw') =>
      ∃ ended later, commands = ended ++ later ∧ List.Forall₂ CarriesOut ended calls ∧
        fw'.Receiving (Delimited.remainder FRAME_END p s.available) ∧
        Delimited.blocks FRAME_END (Delimited.remainder FRAME_END p s.available) t =
          later.map Command.body := by
  apply (receive_commands h s.adc expected complete quiet).bind
  rintro ⟨calls, fw₁⟩ ⟨ended, later, split, carried, h₁, rest⟩
  have buttons : Ends (fun _ => False)
      (if fw₁.activeMute then fw₁.buttonProcess s.buttonPin else pure fw₁)
      fun fw₂ => fw₂.Holds (Delimited.remainder FRAME_END p s.available) := by
    split
    · exact buttonProcess_receiving h₁ s.buttonPin
    · exact h₁.toHolds
  apply buttons.bind
  intro fw₂ held
  exact ⟨ended, later, split, carried, ⟨⟨held.count, held.bytes⟩, rfl⟩, rest⟩

/-- The bytes which reach the firmware over some turns. -/
def line (turns : List Surroundings) : List Byte := turns.flatMap Surroundings.available

theorem run_commands {fw : Firmware} {p : List Byte} {turns : List Surroundings}
    {commands : List Command} (h : fw.Receiving p)
    (expected : Delimited.blocks FRAME_END p (line turns) = commands.map Command.body)
    (complete : Delimited.remainder FRAME_END p (line turns) = [])
    (quiet : ∀ c ∈ commands, (255 : Byte) ∉ c.data) :
    Ends (fun _ => False) (fw.run turns) fun (calls, _, _) =>
      List.Forall₂ CarriesOut commands calls := by
  induction turns generalizing fw p commands with
  | nil =>
      cases commands with
      | nil => exact .nil
      | cons c commands => cases expected
  | cons s turns ih =>
      rw [line, List.flatMap_cons] at expected complete
      apply (loop_commands h s expected complete quiet).bind
      rintro ⟨calls, sent, fw₁⟩ ⟨ended, later, rfl, carried, h₁, rest⟩
      rw [Delimited.remainder_append] at complete
      apply (ih h₁ rest complete fun c member => quiet c (List.mem_append_right _ member)).bind
      rintro ⟨more, moreSent, fw₂⟩ carriedMore
      exact List.rel_append carried carriedMore

/-! ## Every end marker ends a frame -/

theorem receiveByte_length (fw : Firmware) (adc : Fin 1024) (b : Byte) :
    Ends (fun _ => True) (fw.receiveByte adc b) fun (calls, _) =>
      calls.length = [b].count FRAME_END := by
  simp only [receiveByte]
  split
  · split
    · rename_i last
      subst last
      exact Ends.bind (ends_whenever.mpr fun after _ => trivial) fun after _ => rfl
    · rename_i other
      simp [other]
  · trivial

theorem receive_length (fw : Firmware) (adc : Fin 1024) (s : List Byte) :
    Ends (fun _ => True) (fw.receive adc s) fun (calls, _) =>
      calls.length = s.count FRAME_END := by
  induction s generalizing fw with
  | nil => rfl
  | cons b rest ih =>
      apply (fw.receiveByte_length adc b).bind
      rintro ⟨calls, fw₁⟩ first
      apply (ih fw₁).bind
      rintro ⟨more, fw₂⟩ others
      have split : ([b] ++ rest).count FRAME_END = [b].count FRAME_END + rest.count FRAME_END :=
        List.count_append
      rw [List.singleton_append] at split
      simp only [ends_pure, List.length_append, split]
      omega

theorem run_length (fw : Firmware) (turns : List Surroundings) :
    Ends (fun _ => True) (fw.run turns) fun (calls, _, _) =>
      calls.length = (line turns).count FRAME_END := by
  induction turns generalizing fw with
  | nil => rfl
  | cons s turns ih =>
      have turn : Ends (fun _ => True) (fw.loop s) fun (calls, _, _) =>
          calls.length = s.available.count FRAME_END := by
        apply (fw.receive_length s.adc s.available).bind
        rintro ⟨calls, fw₁⟩ count
        exact Ends.bind (ends_whenever.mpr fun fw₂ _ => trivial) fun fw₂ _ => count
      apply turn.bind
      rintro ⟨calls, sent, fw₁⟩ first
      apply (ih fw₁).bind
      rintro ⟨more, moreSent, fw₂⟩ others
      simp only [ends_pure, List.length_append, line, List.flatMap_cons, List.count_append,
        first, others]

/-- The end markers on the line are those of the messages and the intensities of 255. -/
theorem count_messages (commands : List Command) :
    (commands.flatMap Command.message).count FRAME_END =
      commands.length + (commands.map fun c => c.body.count FRAME_END).sum := by
  induction commands with
  | nil => rfl
  | cons c commands ih =>
      have own : c.message.count FRAME_END = c.body.count FRAME_END + 1 := by
        rw [Command.message_eq, List.count_append]
        rfl
      simp only [List.flatMap_cons, List.count_append, ih, own, List.length_cons, List.map_cons,
        List.sum_cons]
      omega

/-! ## The round trip -/

/-- The firmware calls `processMessage` once for each message, in order, on its
    frame, and every call carries the command out. -/
def Delivers (fw : Firmware) (turns : List Surroundings) (commands : List Command) : Prop :=
  ∃ calls sent fw', fw.run turns = .ok (calls, sent, fw') ∧
    List.Forall₂ CarriesOut commands calls

/-- Messages arrive as they were sent exactly if no intensity is 255, however the
    line cuts them into turns of the main loop. -/
theorem delivers_iff {fw : Firmware} (idle : fw.ibRx = 0) (flushed : fw.ibTx = 0)
    {turns : List Surroundings} {commands : List Command}
    (sent : line turns = commands.flatMap Command.message) :
    fw.Delivers turns commands ↔ ∀ c ∈ commands, (255 : Byte) ∉ c.data := by
  constructor
  · rintro ⟨calls, answer, fw', run, carried⟩ c member loud
    have calls_length := (fw.run_length turns).of_ok run
    simp only [sent, count_messages, ← carried.length_eq] at calls_length
    have none : c.body.count FRAME_END = 0 := by
      have bound := List.single_le_sum (by simp) (c.body.count FRAME_END)
        (List.mem_map_of_mem (f := fun c : Command => c.body.count FRAME_END) member)
      omega
    exact List.count_eq_zero.mp none (Command.mem_body.mpr loud)
  · intro quiet
    have stream : line turns = Delimited.encode FRAME_END (commands.map Command.body) := by
      rw [sent, Delimited.encode, List.flatMap_map]
      rfl
    have free : ∀ b ∈ commands.map Command.body, FRAME_END ∉ b := by
      intro b isBody
      obtain ⟨c, member, rfl⟩ := List.mem_map.mp isBody
      exact fun loud => quiet c member (Command.mem_body.mp loud)
    have delivered := run_commands ⟨.empty idle, flushed⟩ (stream ▸ Delimited.blocks_encode free)
      (stream ▸ Delimited.remainder_encode free) quiet
    obtain ⟨⟨calls, answer, fw'⟩, run, carried⟩ := ends_total.mp delivered
    exact ⟨calls, answer, fw', run, carried⟩

/-- A frame cut in the middle of the turns. -/
theorem delivers_two :
    Delivers {} [{ available := [0x21, 7] }, { available := [0xFF, 0x96, 0xFF] }]
      [.led1 7, .activeMode] :=
  (delivers_iff rfl rfl rfl).mpr (by decide)

/-- An intensity of 255 ends its frame early: `processMessage` is called for the
    payload and once more for the end marker. -/
theorem not_delivers_led_255 :
    ¬Delivers {} [{ available := (Command.led 255).message }] [.led 255] := by
  rintro ⟨calls, answer, fw', run, carried⟩
  have two : calls.length = 2 := (run_length _ _).of_ok run
  have one := carried.length_eq
  rw [two] at one
  exact absurd one (by decide)

end Firmware

end VoxPopuli
