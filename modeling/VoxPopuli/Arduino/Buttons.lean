import VoxPopuli.Arduino.Bounds
import VoxPopuli.XBee.ReceiveRX

/-! # Buttons from the firmware to the model

A scan reports each change with the level before it; in between go the answers to the
frames of the daemon. As long as no frame is a sleep command, whose answer has no end
marker, the model of a remote has seen exactly the changes of the scans, however the
radio cuts what the remote sends.
-/

namespace VoxPopuli

namespace Firmware

variable {fw : Firmware}

/-! ## Answers -/

/-- The message is not one of a button and can be cut out again. -/
structure Neutral (b : List Byte) : Prop where
  filled : b ≠ []
  free : FRAME_END ∉ b
  call : XBeeRemote.buttonCall? b = none

theorem Neutral.of_code {c : Byte} {data : List Byte} (free : FRAME_END ∉ c :: data)
    (other : c.val < 0xB0) : Neutral (c :: data) := by
  refine ⟨List.cons_ne_nil c data, free, ?_⟩
  have apart : ∀ d : Byte, 0xB0 ≤ d.val → c ≠ d := by
    rintro d above rfl
    omega
  simp [XBeeRemote.buttonCall?, XBEE_MSG_TYPE.code, apart]

/-- The bytes are those of messages which are not about buttons. -/
def Answers (bytes : List Byte) : Prop :=
  ∃ bodies, bytes = Delimited.encode FRAME_END bodies ∧ ∀ b ∈ bodies, Neutral b

theorem Answers.none : Answers [] := ⟨[], rfl, by simp⟩

theorem Answers.one {b : List Byte} (h : Neutral b) : Answers (b ++ [FRAME_END]) :=
  ⟨[b], by simp [Delimited.encode], by simpa using h⟩

theorem Answers.append {s t : List Byte} (h : Answers s) (h' : Answers t) : Answers (s ++ t) := by
  obtain ⟨bodies, rfl, neutral⟩ := h
  obtain ⟨bodies', rfl, neutral'⟩ := h'
  refine ⟨bodies ++ bodies', by simp [Delimited.encode], ?_⟩
  intro b member
  exact (List.mem_append.mp member).elim (neutral b) (neutral' b)

theorem batteryLevel_ne (adc : Fin 1024) : batteryLevel adc ≠ 255 := by
  have unit : adc.val / 1023 = 0 ∨ adc.val / 1023 = 1 := by omega
  rcases unit with zero | one
  · simp [batteryLevel, zero]
  · simp [batteryLevel, one]

/-- Only the answer to a sleep command has no end marker. -/
theorem reply_answers (adc : Fin 1024) {c : Byte} (awake : c ≠ SLEEP_CMD) (x : Byte)
    (lit : ∀ i, fw.ledStatus i ≠ 255) : Answers (fw.reply adc c x) := by
  have query : ∀ status, Neutral status → Answers (answer x (status ++ [FRAME_END])) := by
    intro status neutral
    unfold answer
    split
    · exact .one neutral
    · exact .none
  have level : FRAME_END ≠ batteryLevel adc := (batteryLevel_ne adc).symm
  have dark : ∀ i, FRAME_END ≠ fw.ledStatus i := fun i => (lit i).symm
  unfold reply
  split_ifs
  · exact .one (b := [ASK_MODE_CMD, 1]) (.of_code (by decide) (by decide))
  · exact .one (b := [ASK_MODE_CMD, 0]) (.of_code (by decide) (by decide))
  · refine .one (b := [BATT_STATUS_TX, _]) (.of_code ?_ (by decide))
    simpa using ⟨by decide, level⟩
  · refine query [LED_CMD, _, _, _] (.of_code ?_ (by decide))
    simpa [dark] using by decide
  · refine query [LED1_CMD, _] (.of_code ?_ (by decide))
    simpa [dark] using by decide
  · refine query [LED2_CMD, _] (.of_code ?_ (by decide))
    simpa [dark] using by decide
  · refine query [LED1_CMD, _] (.of_code ?_ (by decide))
    simpa [dark] using by decide
  · exact .none

theorem heard_lit (lit : ∀ i, fw.ledStatus i ≠ 255) (frames : List (List Byte)) (i : Fin 3) :
    (fw.heard frames).ledStatus i ≠ 255 := by
  induction frames generalizing fw with
  | nil => exact lit i
  | cons b rest ih =>
      refine @ih (fw.settings (frameCommand b) (framePayload b)) fun j => ?_
      rw [settings]
      dsimp only
      split
      · rename_i set
        exact set.2
      · exact lit j

theorem repliesTo_answers (adc : Fin 1024) {frames : List (List Byte)}
    (awake : ∀ b ∈ frames, frameCommand b ≠ SLEEP_CMD) (lit : ∀ i, fw.ledStatus i ≠ 255) :
    Answers (fw.repliesTo adc frames) := by
  induction frames generalizing fw with
  | nil => exact .none
  | cons b rest ih =>
      obtain ⟨first, others⟩ := List.forall_mem_cons.mp awake
      exact (reply_answers adc first _ lit).append (ih others (heard_lit lit [b]))

theorem receive_answers {p : List Byte} (h : fw.Holds p) (bound : fw.ibTx ≤ 20)
    (lit : ∀ i, fw.ledStatus i ≠ 255) (adc : Fin 1024) {s : List Byte}
    (awake : ∀ b ∈ Delimited.blocks FRAME_END p s, frameCommand b ≠ SLEEP_CMD) :
    Ends (fun _ => True) (fw.receive adc s) fun q =>
      (∃ bytes, q.2.queued = fw.queued ++ bytes ∧ Answers bytes) ∧ ∀ i, q.2.ledStatus i ≠ 255 := by
  have short : p.length ≤ 20 := by
    have taken := congrArg List.length h.bytes
    rw [List.length_take, Vector.length_toList] at taken
    omega
  apply ((receive_ends h bound short adc s).mono_err fun _ _ => trivial).mono
  rintro q ⟨-, received⟩
  refine ⟨⟨_, received.queued, repliesTo_answers adc awake lit⟩, ?_⟩
  rw [received.ledStatus]
  exact heard_lit lit _

/-! ## What the host makes of it -/

/-- What the host calls a button. -/
def button : Fin 5 → XBEE_MSG_TYPE
  | 0 => .BUTTON_LEFT
  | 1 => .BUTTON_UP
  | 2 => .BUTTON_RIGHT
  | 3 => .BUTTON_DOWN
  | 4 => .BUTTON_ACTION

theorem button_injective : Function.Injective button := by
  intro i j same
  fin_cases i <;> fin_cases j <;> first | rfl | cases same

/-- The host takes the bytes for complete messages which make these calls. -/
structure Reports (bytes : List Byte) (calls : List ButtonCall) : Prop where
  complete : Delimited.remainder FRAME_END [] bytes = []
  calls : ((Delimited.blocks FRAME_END [] bytes).filter (· ≠ [])).filterMap
    XBeeRemote.buttonCall? = calls

theorem Reports.append {s t : List Byte} {calls more : List ButtonCall} (h : Reports s calls)
    (h' : Reports t more) : Reports (s ++ t) (calls ++ more) := by
  refine ⟨?_, ?_⟩
  · rw [Delimited.remainder_append, h.complete, h'.complete]
  · rw [Delimited.blocks_append, h.complete, List.filter_append, List.filterMap_append, h.calls,
      h'.calls]

theorem Reports.encode {bodies : List (List Byte)}
    (whole : ∀ b ∈ bodies, b ≠ [] ∧ FRAME_END ∉ b) :
    Reports (Delimited.encode FRAME_END bodies) (bodies.filterMap XBeeRemote.buttonCall?) := by
  refine ⟨Delimited.remainder_encode fun b member => (whole b member).2, ?_⟩
  rw [Delimited.blocks_encode fun b member => (whole b member).2, List.filter_eq_self.mpr]
  intro b member
  simpa using (whole b member).1

theorem Answers.reports {bytes : List Byte} (h : Answers bytes) : Reports bytes [] := by
  obtain ⟨bodies, rfl, neutral⟩ := h
  have silent : bodies.filterMap XBeeRemote.buttonCall? = [] :=
    List.filterMap_eq_nil_iff.mpr fun b member => (neutral b member).call
  exact silent ▸ .encode fun b member => ⟨(neutral b member).filled, (neutral b member).free⟩

theorem buttonCall?_buttonBody (buff : Fin 5 → Bool) (i : Fin 5) :
    XBeeRemote.buttonCall? (buttonBody buff i) = some ⟨button i, buff i⟩ := by
  rw [buttonBody]
  cases buff i <;> fin_cases i <;> rfl

theorem buttonMessages_reports (buff : Fin 5 → Bool) (is : List (Fin 5)) :
    Reports (buttonMessages buff is) (is.map fun i => ⟨button i, buff i⟩) := by
  have calls : (is.map (buttonBody buff)).filterMap XBeeRemote.buttonCall? =
      is.map fun i => ⟨button i, buff i⟩ := by
    rw [List.filterMap_map]
    simp [buttonCall?_buttonBody]
  rw [← calls]
  refine .encode ?_
  intro b member
  obtain ⟨i, -, rfl⟩ := List.mem_map.mp member
  refine ⟨List.cons_ne_nil _ _, ?_⟩
  rw [buttonBody]
  cases buff i <;> fin_cases i <;> decide

/-! ## Scans -/

/-- The calls for a scan. -/
def scanCalls (buff buttonPin : Fin 5 → Bool) : List ButtonCall :=
  (changed buff buttonPin).map fun i => ⟨button i, buff i⟩

theorem mem_changed {buff buttonPin : Fin 5 → Bool} {i : Fin 5} :
    i ∈ changed buff buttonPin ↔ buff i ≠ buttonLevel buttonPin i := by
  rw [changed, List.mem_filter, decide_eq_true_eq]
  exact ⟨fun h => h.2.symm, fun h => ⟨List.mem_finRange i, h.symm⟩⟩

theorem seen_scanCalls (buff buttonPin : Fin 5 → Bool) (i : Fin 5) :
    ButtonCall.seen (scanCalls buff buttonPin) (button i) =
      if buff i ≠ buttonLevel buttonPin i then [buff i] else [] := by
  have nodup : (changed buff buttonPin).Nodup := (List.nodup_finRange 5).filter _
  have own : (changed buff buttonPin).filter (fun j => button j = button i) =
      List.replicate ((changed buff buttonPin).count i) i := by
    rw [← List.filter_eq]
    apply List.filter_congr
    intro j _
    simp [button_injective.eq_iff, eq_comm]
  simp only [ButtonCall.seen, scanCalls, List.filter_map, Function.comp_def, own, nodup.count,
    List.map_map]
  by_cases moved : buff i = buttonLevel buttonPin i
  · rw [if_neg (mt mem_changed.mp (not_not.mpr moved)), if_neg (not_not.mpr moved)]
    rfl
  · rw [if_pos (mem_changed.mpr moved), if_pos moved]
    rfl

/-- A list of calls for some buttons sets these and no others. -/
theorem foldl_calls (buff : Fin 5 → Bool) (is : List (Fin 5)) (down : XBEE_MSG_TYPE → Bool)
    (i : Fin 5) :
    (is.map fun j => (⟨button j, buff j⟩ : ButtonCall)).foldl ButtonCall.after down (button i) =
      if i ∈ is then buff i else down (button i) := by
  induction is generalizing down with
  | nil => rfl
  | cons j rest ih =>
      rw [List.map_cons, List.foldl_cons, ih]
      by_cases same : i = j
      · subst same
        simp [ButtonCall.after]
      · have other : button i ≠ button j := fun h => same (button_injective h)
        simp [ButtonCall.after, same, other]

/-- The model shows a button as down while its level is low. -/
def Mirrored (buff : Fin 5 → Bool) (down : XBEE_MSG_TYPE → Bool) : Prop :=
  ∀ i, down (button i) = !buff i

theorem Mirrored.scan {buff : Fin 5 → Bool} {down : XBEE_MSG_TYPE → Bool} (h : Mirrored buff down)
    (buttonPin : Fin 5 → Bool) :
    Mirrored (buttonLevel buttonPin) ((scanCalls buff buttonPin).foldl ButtonCall.after down) := by
  intro i
  rw [scanCalls, foldl_calls]
  by_cases moved : buff i = buttonLevel buttonPin i
  · rw [if_neg (mt mem_changed.mp (not_not.mpr moved)), h i, moved]
  · rw [if_pos (mem_changed.mpr moved)]
    exact Bool.eq_not_of_ne moved

/-! ## Runs -/

/-- The scans of a run: the levels at the turns whose mode is active when the buttons
    come. -/
def scans (fw : Firmware) : List Surroundings → List (Fin 5 → Bool)
  | [] => []
  | s :: rest =>
      match fw.loop s with
      | .error _ => []
      | .ok (_, _, fw') =>
          if fw'.activeMute then buttonLevel s.buttonPin :: fw'.scans rest else fw'.scans rest

/-- The presses and releases of a button, which starts at level `old`. -/
def presses (old : Bool) (levels : List Bool) : List Bool :=
  ((levels.destutter' (· ≠ ·) old).tail).map (!·)

theorem destutter'_head (level : Bool) (levels : List Bool) :
    ∃ rest, levels.destutter' (· ≠ ·) level = level :: rest := by
  induction levels with
  | nil => exact ⟨[], rfl⟩
  | cons next levels ih =>
      rw [List.destutter'_cons]
      split
      · exact ⟨_, rfl⟩
      · exact ih

theorem presses_cons (old level : Bool) (levels : List Bool) :
    presses old (level :: levels) =
      (if old ≠ level then [old] else []) ++ presses level levels := by
  rw [presses, presses, List.destutter'_cons]
  by_cases moved : old = level
  · simp [moved]
  · obtain ⟨rest, same⟩ := destutter'_head level levels
    rw [if_pos moved, if_pos moved, List.tail_cons, same, List.map_cons, List.tail_cons,
      Bool.eq_not_of_ne moved]
    rfl

/-- Between two turns, with no LED at the value which ends a frame. -/
structure Steady (fw : Firmware) : Prop extends fw.Idle where
  lit : ∀ i, fw.ledStatus i ≠ 255

/-- A turn sends answers and then the changes of its scan. -/
theorem loop_reports (h : fw.Steady) {s : Surroundings} {calls : List ProcessCall}
    {sent : List Byte} {fw' : Firmware} (turn : fw.loop s = .ok (calls, sent, fw'))
    (awake : ∀ b ∈ Delimited.blocks FRAME_END fw.pendingRx s.available,
      frameCommand b ≠ SLEEP_CMD) :
    fw'.Steady ∧ Reports sent
      (if fw'.activeMute then scanCalls fw.buttonBuff s.buttonPin else []) := by
  have turned : fw.Turned s sent fw' := ((loop_ends h.toIdle s).of_ok turn).2
  obtain ⟨more, fw₁, received, leds, rfl⟩ := turned.sent
  obtain ⟨⟨bytes, queue, answers⟩, lit⟩ :=
    (receive_answers h.holds (h.ibTx ▸ Nat.zero_le 20) h.lit s.adc awake).of_ok received
  have empty : fw.queued = [] := by
    rw [queued, h.ibTx, List.take_zero]
  dsimp only at queue lit leds
  rw [empty, List.nil_append] at queue
  refine ⟨⟨turned.idle, leds ▸ lit⟩, ?_⟩
  have scanned : Reports
      (if fw'.activeMute then buttonMessages fw.buttonBuff (changed fw.buttonBuff s.buttonPin) else [])
      (if fw'.activeMute then scanCalls fw.buttonBuff s.buttonPin else []) := by
    split
    · exact buttonMessages_reports _ _
    · exact ⟨rfl, rfl⟩
  rw [queue]
  exact answers.reports.append scanned

theorem run_reports (h : fw.Steady) {turns : List Surroundings} {calls : List ProcessCall}
    {sent : List Byte} {fw' : Firmware} (run : fw.run turns = .ok (calls, sent, fw'))
    (awake : ∀ b ∈ Delimited.blocks FRAME_END fw.pendingRx (line turns),
      frameCommand b ≠ SLEEP_CMD) :
    ∃ calls, Reports sent calls ∧
      (∀ i, ButtonCall.seen calls (button i) =
        presses (fw.buttonBuff i) ((fw.scans turns).map fun levels => levels i)) ∧
      ∀ down, Mirrored fw.buttonBuff down →
        Mirrored fw'.buttonBuff (calls.foldl ButtonCall.after down) := by
  induction turns generalizing fw calls sent with
  | nil =>
      cases run
      exact ⟨[], ⟨rfl, rfl⟩, fun i => rfl, fun down mirrored => mirrored⟩
  | cons s rest ih =>
      obtain ⟨⟨calls₁, sent₁, fw₁⟩, ⟨calls₂, sent₂, fw₂⟩, turn, later, same⟩ := run_cons_ok.mp run
      cases same
      rw [line, List.flatMap_cons, Delimited.blocks_append] at awake
      obtain ⟨first, others⟩ := List.forall_mem_append.mp awake
      have turned := ((loop_ends h.toIdle s).of_ok turn).2
      obtain ⟨steady, reports⟩ := loop_reports h turn first
      rw [← turned.pendingRx] at others
      obtain ⟨more, reports', seen, mirrors⟩ := ih steady later others
      have buff := turned.buttonBuff
      dsimp only at turned later seen mirrors buff steady
      refine ⟨_, reports.append reports', ?_, ?_⟩
      · intro i
        have both : ∀ calls more : List ButtonCall, ButtonCall.seen (calls ++ more) (button i) =
            ButtonCall.seen calls (button i) ++ ButtonCall.seen more (button i) := by
          intro calls more
          rw [ButtonCall.seen, List.filter_append, List.map_append]
          rfl
        rw [both, seen i, scans, turn]
        cases mode : fw₁.activeMute with
        | true =>
            rw [mode, if_pos rfl] at buff
            simp only [mode, if_true, List.map_cons, presses_cons, seen_scanCalls, buff]
        | false =>
            rw [mode] at buff
            simp only [mode, Bool.false_eq_true, if_false, buff]
            rfl
      · intro down mirrored
        rw [List.foldl_append]
        apply mirrors
        rw [buff]
        split
        · exact mirrored.scan s.buttonPin
        · exact mirrored

/-! ## The frames of the daemon -/

/-- No frame on the line is a sleep command. -/
def Awake (turns : List Surroundings) : Prop :=
  ∀ b ∈ Delimited.blocks FRAME_END [] (line turns), frameCommand b ≠ SLEEP_CMD

/-- Everything a remote can be told, apart from the sleep command. -/
inductive Order where
  | command (c : Command)
  | battery
  | askMode

def Order.message : Order → List Byte
  | command c => c.message
  | battery => [BATT_STATUS_CMD, FRAME_END]
  | askMode => [ASK_MODE_CMD, FRAME_END]

/-- The frames of an order; an intensity of 255 ends one of its own. -/
def Order.frames : Order → List (List Byte)
  | command c => if (255 : Byte) ∈ c.data then [[c.type.code], []] else [c.body]
  | battery => [[BATT_STATUS_CMD]]
  | askMode => [[ASK_MODE_CMD]]

theorem Order.message_eq (o : Order) : o.message = Delimited.encode FRAME_END o.frames := by
  cases o with
  | command c =>
      rw [message, frames, Command.message_eq, Command.body]
      cases c with
      | led v | led1 v | led2 v | led3 v =>
          by_cases loud : v = 255
          · subst loud
            rfl
          · rw [if_neg (by simpa [Command.data, eq_comm] using loud)]
            rfl
      | activeMode | muteMode => rfl
  | battery | askMode => rfl

theorem Order.frames_ends (o : Order) {b : List Byte} (member : b ∈ o.frames) :
    FRAME_END ∉ b ∧ frameCommand b ≠ SLEEP_CMD := by
  cases o with
  | command c =>
      rw [frames] at member
      split at member
      · simp only [List.mem_cons, List.not_mem_nil, or_false] at member
        rcases member with rfl | rfl
        · cases c <;>
            simp [FRAME_END, Command.type, XBEE_MSG_TYPE.code, frameCommand, SLEEP_CMD]
        · decide
      · rename_i quiet
        obtain rfl := List.mem_singleton.mp member
        refine ⟨mt Command.mem_body.mp quiet, ?_⟩
        cases c <;> simp [frameCommand, Command.body, Command.type, XBEE_MSG_TYPE.code, SLEEP_CMD]
  | battery | askMode =>
      obtain rfl := List.mem_singleton.mp member
      decide

theorem awake_orders {turns : List Surroundings} (orders : List Order)
    (sent : line turns <+: orders.flatMap Order.message) : Awake turns := by
  obtain ⟨rest, whole⟩ := sent
  have frames : orders.flatMap Order.message =
      Delimited.encode FRAME_END (orders.flatMap Order.frames) := by
    rw [Delimited.encode, List.flatMap_assoc]
    exact List.flatMap_congr fun o _ => o.message_eq
  intro b member
  have inside : b ∈ orders.flatMap Order.frames := by
    have free : ∀ b' ∈ orders.flatMap Order.frames, FRAME_END ∉ b' := by
      intro b' member'
      obtain ⟨o, -, inside'⟩ := List.mem_flatMap.mp member'
      exact (o.frames_ends inside').1
    rw [← Delimited.blocks_encode free, ← frames, ← whole, Delimited.blocks_append]
    exact List.mem_append_left _ member
  obtain ⟨o, -, inside⟩ := List.mem_flatMap.mp inside
  exact (o.frames_ends inside).2

/-! ## Both sides -/

/-- The names under which a remote stores the buttons of the firmware. -/
def buttonName : Fin 5 → QString
  | 0 => "Left"
  | 1 => "Up"
  | 2 => "Right"
  | 3 => "Down"
  | 4 => "Action"

theorem button?_button (i : Fin 5) : ∃ e, Remote.button? (button i) = some (e, buttonName i) := by
  fin_cases i <;> exact ⟨_, rfl⟩

theorem presses_alternate (old : Bool) (levels : List Bool) :
    (presses old levels).IsChain (· ≠ ·) := by
  rw [presses, List.isChain_map]
  exact ((List.isChain_destutter' _ levels old).tail).imp fun a b differ same =>
    differ (Bool.not_inj same)

/-- The model of a remote shows the levels of the last scan and has been told exactly the
    changes of the scans, whatever else the remote was asked and however its bytes were cut.
    The host fails over a message only if a group is incomplete or the patch is locked. -/
theorem buttons_tracked {turns : List Surroundings} {calls : List ProcessCall} {sent : List Byte}
    {fw : Firmware} (awake : Awake turns) (run : ({} : Firmware).run turns = .ok (calls, sent, fw))
    {x : XBeeRemote} {w : World} {r : Nat} (clear : x.rxBuffer = [])
    (up : Remote.Shows w r fun _ => false) {chunks : List StdString} (cut : chunks.flatten = sent) :
    Ends (fun _ => ¬w.Serving) (x.receiveAll w r chunks) fun (seen, _, w') => ∀ i,
      w'.get (.remote r) (buttonName i) =
        some (.string (if fw.buttonBuff i then "up" else "down")) ∧
      ButtonCall.seen seen (button i) =
        presses true ((({} : Firmware).scans turns).map fun levels => levels i) := by
  have steady : ({} : Firmware).Steady := ⟨⟨by decide, rfl⟩, by decide⟩
  obtain ⟨made, reports, seen, mirrors⟩ := run_reports steady run awake
  have received := XBeeRemote.receiveAll_eq x w r chunks (by simp [clear])
  rw [clear, cut] at received
  rw [received]
  have calls := reports.calls
  apply (XBeeRemote.handleMessages_ends up
    ((Delimited.blocks FRAME_END [] sent).filter (· ≠ []))).bind
  rintro ⟨told, w'⟩ ⟨same, shown⟩ i
  dsimp only at same shown
  rw [calls] at same
  subst same
  refine ⟨?_, seen i⟩
  obtain ⟨e, known⟩ := button?_button i
  have mirrored := mirrors (fun _ => false) (fun _ => rfl) i
  rw [shown _ _ _ known, mirrored]
  cases fw.buttonBuff i <;> rfl

/-- The left button is pressed in the turn in which the mode becomes active; the message
    reaches the host in two pieces. -/
theorem buttons_tracked_press :
    let turns : List Surroundings := [{ available := Order.message (.command .activeMode)
                                        buttonPin := fun i => i ≠ 0 }]
    let w : World := { json := fun
      | .remote 0 => Remote.createRemoteJSon
      | _ => [] }
    ∃ calls fw, ({} : Firmware).run turns = .ok (calls, [0xB0, 1, 0xFF, 0xB4, 1, 0xFF], fw) ∧
      Ends (fun _ => ¬w.Serving)
        (({ addr := [] } : XBeeRemote).receiveAll w 0 [[0xB0], [1, 0xFF, 0xB4, 1, 0xFF]])
        fun (seen, _, w') => ∀ i,
          w'.get (.remote 0) (buttonName i) =
            some (.string (if fw.buttonBuff i then "up" else "down")) ∧
          ButtonCall.seen seen (button i) =
            presses true ((({} : Firmware).scans turns).map fun levels => levels i) := by
  refine ⟨_, _, rfl, buttons_tracked (awake_orders [.command .activeMode] ?_) rfl rfl ?_ rfl⟩
  · exact List.prefix_rfl
  · intro b e bName known
    cases b <;> cases known <;> rfl

end Firmware

end VoxPopuli
