import VoxPopuli.Lib.Ends
import VoxPopuli.Arduino.Main

/-! # What the firmware does with a frame

The tests of `processMessage` exclude each other, so a frame either changes the settings
or asks for an answer. The answer is queued as a whole, and that fails exactly when the
buffer for transmission has no room for it.
-/

namespace VoxPopuli

namespace Firmware

/-! ## The answer to a frame -/

/-- The battery reading as it is sent. -/
def batteryLevel (adc : Fin 1024) : Byte :=
  Fin.ofNat 256 (if adc.val / 1023 * 255 = 255 then 254 else adc.val / 1023 * 255)

/-- An intensity of 255 asks for the status. -/
def answer (x : Byte) (status : List Byte) : List Byte := if x = 255 then status else []

/-- What is queued for a frame which starts with `c` and `x`. -/
def reply (fw : Firmware) (adc : Fin 1024) (c x : Byte) : List Byte :=
  if c = ASK_MODE_CMD then [ASK_MODE_CMD, if fw.activeMute then 1 else 0, FRAME_END]
  else if c = SLEEP_CMD then [0x41, 0x54, 0x53, 0x4D, 4]
  else if c = BATT_STATUS_CMD then [BATT_STATUS_TX, batteryLevel adc, FRAME_END]
  else if c = LED_CMD then
    answer x [LED_CMD, fw.ledStatus 0, fw.ledStatus 1, fw.ledStatus 2, FRAME_END]
  else if c = LED1_CMD then answer x [LED1_CMD, fw.ledStatus 0, FRAME_END]
  else if c = LED2_CMD then answer x [LED2_CMD, fw.ledStatus 1, FRAME_END]
  else if c = LED3_CMD then answer x [LED1_CMD, fw.ledStatus 2, FRAME_END]
  else []

/-- The LEDs which a frame sets. -/
def addressed (c x : Byte) (i : Fin 3) : Prop :=
  (c = LED_CMD ∨ (c = LED1_CMD ∧ i = 0) ∨ (c = LED2_CMD ∧ i = 1) ∨ (c = LED3_CMD ∧ i = 2)) ∧
    x ≠ 255

instance (c x : Byte) (i : Fin 3) : Decidable (addressed c x i) := by
  unfold addressed
  infer_instance

/-- The mode after a frame. -/
def modeAfter (mode : Bool) (c : Byte) : Bool :=
  if c = ACTIVE_MODE_CMD then true else if c = MUTE_MODE_CMD then false else mode

/-- The state after a frame, apart from what is queued. -/
def settings (fw : Firmware) (c x : Byte) : Firmware :=
  { fw with
    activeMute := modeAfter fw.activeMute c
    ledStatus := fun i => if addressed c x i then x else fw.ledStatus i
    ledOutput := fun i => if addressed c x i then realValue x else fw.ledOutput i }

/-! ## One test after the other -/

abbrev Handler := Firmware → Except Fault Firmware

theorem first_lt : 0 < 20 := by decide

theorem second_lt : 1 < 20 := by decide

/-- The tests of `processMessage` in their order. -/
def handlers (adc : Fin 1024) : List (Byte × Handler) :=
  [(ACTIVE_MODE_CMD, fun fw => pure fw.setActiveMode),
    (MUTE_MODE_CMD, fun fw => pure fw.setMuteMode),
    (ASK_MODE_CMD, fun fw =>
      fw.txToBuffer [ASK_MODE_CMD, if fw.activeMute then 1 else 0, FRAME_END]),
    (SLEEP_CMD, setSleepMode),
    (BATT_STATUS_CMD, fun fw => fw.batteryStatus adc),
    (LED_CMD, fun fw => fw.toggleLED (getElem fw.bufferRx 1 second_lt)),
    (LED1_CMD, fun fw => fw.toggleLED1 (getElem fw.bufferRx 1 second_lt)),
    (LED2_CMD, fun fw => fw.toggleLED2 (getElem fw.bufferRx 1 second_lt)),
    (LED3_CMD, fun fw => fw.toggleLED3 (getElem fw.bufferRx 1 second_lt))]

def dispatch (fw : Firmware) (table : List (Byte × Handler)) : Except Fault Firmware :=
  table.foldlM (fun fw e => fw.onCommand e.1 e.2) fw

variable {fw : Firmware}

theorem processMessage_dispatch (adc : Fin 1024) :
    fw.processMessage adc = fw.dispatch (handlers adc) := by
  simp [processMessage, dispatch, handlers]

theorem dispatch_skip {table : List (Byte × Handler)}
    (other : getElem fw.bufferRx 0 first_lt ∉ table.map Prod.fst) : fw.dispatch table = .ok fw := by
  induction table with
  | nil => rfl
  | cons e rest ih =>
      simp only [List.map_cons, List.mem_cons, not_or] at other
      have skip : fw.onCommand e.1 e.2 = .ok fw := if_neg other.1
      rw [dispatch, List.foldlM_cons, skip]
      exact ih other.2

/-- Only the handler of the command runs, as long as it leaves the frame alone. -/
theorem dispatch_take {table : List (Byte × Handler)} {cmd : Byte} {handler : Handler}
    (member : (cmd, handler) ∈ table) (apart : (table.map Prod.fst).Nodup)
    (same : getElem fw.bufferRx 0 first_lt = cmd)
    (keeps : Ends (fun _ => True) (handler fw) fun fw' => fw'.bufferRx = fw.bufferRx) :
    fw.dispatch table = handler fw := by
  induction table with
  | nil => cases member
  | cons e rest ih =>
      simp only [List.map_cons, List.nodup_cons] at apart
      rw [dispatch, List.foldlM_cons]
      rcases List.mem_cons.mp member with rfl | later
      · have take : fw.onCommand cmd handler = handler fw := if_pos same
        rw [take]
        cases handled : handler fw with
        | error fault => rfl
        | ok fw' =>
            have first : fw'.bufferRx[0] = cmd := (keeps.of_ok handled) ▸ same
            exact dispatch_skip (first ▸ apart.1)
      · have other : fw.bufferRx[0] ≠ e.1 := by
          rw [same]
          exact fun first => apart.1 (first ▸ List.mem_map_of_mem later)
        have skip : fw.onCommand e.1 e.2 = .ok fw := if_neg other
        rw [skip]
        exact ih later apart.2

theorem handlers_apart (adc : Fin 1024) : ((handlers adc).map Prod.fst).Nodup := by
  simp only [handlers, List.map_cons, List.map_nil]
  decide

/-- The handler of one LED. -/
theorem toggle_settings (fw : Firmware) {c x : Byte} {i : Fin 3} (reply : Byte)
    (mode : modeAfter fw.activeMute c = fw.activeMute)
    (leds : ∀ j, addressed c x j ↔ j = i ∧ x ≠ 255) :
    fw.toggle reply i x =
      (fw.settings c x).txToBuffer (answer x [reply, fw.ledStatus i, FRAME_END]) := by
  have update : ∀ (f : Fin 3 → Byte) (v : Byte),
      Function.update f i v = fun j => if j = i then v else f j := by
    intro f v
    funext j
    exact Function.update_apply f i v j
  simp only [settings, mode, leds]
  by_cases query : x = 255
  · simp [toggle, answer, query]
  · simp [toggle, answer, query, txToBuffer, update]

/-- Each handler changes the settings and queues the answer. -/
theorem handlers_eq (fw : Firmware) (adc : Fin 1024) : ∀ e ∈ handlers adc,
    e.2 fw = (fw.settings e.1 (getElem fw.bufferRx 1 second_lt)).txToBuffer
      (fw.reply adc e.1 (getElem fw.bufferRx 1 second_lt)) := by
  intro e member
  simp only [handlers, List.mem_cons, List.not_mem_nil, or_false] at member
  rcases member with rfl | rfl | rfl | rfl | rfl | rfl | rfl | rfl | rfl
  · rfl
  · rfl
  · rfl
  · rfl
  · rfl
  · have leds : ∀ j, addressed LED_CMD fw.bufferRx[1] j ↔ fw.bufferRx[1] ≠ 255 := by
      simp [addressed]
    have mode : modeAfter fw.activeMute LED_CMD = fw.activeMute := rfl
    have query : fw.reply adc LED_CMD fw.bufferRx[1] = answer fw.bufferRx[1]
      [LED_CMD, fw.ledStatus 0, fw.ledStatus 1, fw.ledStatus 2, FRAME_END] := rfl
    simp only [toggleLED, settings, mode, leds, query]
    by_cases asked : fw.bufferRx[1] = 255
    · simp [answer, asked]
    · simp [answer, asked, txToBuffer]
  · exact fw.toggle_settings LED1_CMD rfl
      (by simp [addressed, LED_CMD, LED1_CMD, LED2_CMD, LED3_CMD])
  · exact fw.toggle_settings LED2_CMD rfl
      (by simp [addressed, LED_CMD, LED1_CMD, LED2_CMD, LED3_CMD])
  · exact fw.toggle_settings LED1_CMD rfl
      (by simp [addressed, LED_CMD, LED1_CMD, LED2_CMD, LED3_CMD])

theorem txToBuffer_bufferRx (msg : List Byte) :
    Ends (fun _ => True) (fw.txToBuffer msg) fun fw' => fw'.bufferRx = fw.bufferRx := by
  induction msg generalizing fw with
  | nil => rfl
  | cons b rest ih =>
      rw [txToBuffer]
      split
      · exact ih
      · trivial

theorem processMessage_eq (adc : Fin 1024) :
    fw.processMessage adc =
      (fw.settings (getElem fw.bufferRx 0 first_lt) (getElem fw.bufferRx 1 second_lt)).txToBuffer
        (fw.reply adc (getElem fw.bufferRx 0 first_lt) (getElem fw.bufferRx 1 second_lt)) := by
  rw [processMessage_dispatch]
  by_cases listed : fw.bufferRx[0] ∈ (handlers adc).map Prod.fst
  · obtain ⟨⟨cmd, handler⟩, member, same⟩ := List.mem_map.mp listed
    dsimp only at same
    subst same
    have spec : handler fw = _ := handlers_eq fw adc _ member
    have keeps : Ends (fun _ => True) (handler fw) fun fw' => fw'.bufferRx = fw.bufferRx := by
      rw [spec]
      exact txToBuffer_bufferRx _
    rw [dispatch_take member (handlers_apart adc) rfl keeps]
    exact spec
  · rw [dispatch_skip listed]
    simp only [handlers, List.map_cons, List.map_nil, List.mem_cons, List.not_mem_nil, or_false,
      not_or] at listed
    obtain ⟨active, mute, ask, sleep, batt, led, led1, led2, led3⟩ := listed
    have quiet : fw.reply adc fw.bufferRx[0] fw.bufferRx[1] = [] := by
      simp [reply, ask, sleep, batt, led, led1, led2, led3]
    have same : fw.settings fw.bufferRx[0] fw.bufferRx[1] = fw := by
      simp [settings, modeAfter, addressed, active, mute, led, led1, led2, led3]
    rw [quiet, same]
    rfl

end Firmware

end VoxPopuli
