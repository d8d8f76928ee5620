import VoxPopuli.Arduino.Framing
import VoxPopuli.Arduino.Replies

/-! # The buffers of the firmware

Both buffers have twenty entries and no index is checked. A turn of the main loop stays
inside exactly when every frame is short enough and the answers and button messages of
the turn fit together; what a turn does when it stays inside is stated along with it.
-/

namespace VoxPopuli

namespace Firmware

variable {fw : Firmware}

/-! ## Queueing -/

/-- What waits for transmission. -/
def queued (fw : Firmware) : List Byte := fw.bufferTx.toList.take fw.ibTx

/-- A message is queued as a whole, or there is no room for it. -/
theorem txToBuffer_ends (fw : Firmware) (msg : List Byte) (bound : fw.ibTx ≤ 20) :
    Ends (fun e => e = .outOfRange ∧ 20 < fw.ibTx + msg.length) (fw.txToBuffer msg) fun fw' =>
      fw.ibTx + msg.length ≤ 20 ∧ fw'.queued = fw.queued ++ msg ∧
        fw' = { fw with bufferTx := fw'.bufferTx, ibTx := fw.ibTx + msg.length } := by
  induction msg generalizing fw with
  | nil => exact ⟨bound, by simp, rfl⟩
  | cons b rest ih =>
      rw [txToBuffer]
      by_cases room : fw.ibTx < 20
      · rw [dif_pos room]
        have tail := ih { fw with bufferTx := fw.bufferTx.set fw.ibTx b, ibTx := fw.ibTx + 1 } room
        refine (tail.mono ?_).mono_err ?_
        · rintro fw' ⟨fits, queue, same⟩
          dsimp only at fits queue same
          have short : fw.ibTx < fw.bufferTx.toList.length := by simpa using room
          have front : queued { fw with bufferTx := fw.bufferTx.set fw.ibTx b, ibTx := fw.ibTx + 1 } =
              fw.queued ++ [b] := by
            simp only [queued, Vector.toList_set]
            rw [List.take_add_one, List.take_set_of_le le_rfl, List.getElem?_set_self short]
            rfl
          refine ⟨?_, ?_, ?_⟩
          · simp only [List.length_cons]
            omega
          · rw [queue, front, List.append_assoc, List.singleton_append]
          · rw [same]
            simp only [List.length_cons]
            congr 1
            omega
        · rintro e ⟨rfl, excess⟩
          refine ⟨rfl, ?_⟩
          simp only [List.length_cons] at excess ⊢
          omega
      · rw [dif_neg room]
        refine ⟨rfl, ?_⟩
        simp only [List.length_cons]
        omega

/-! ## Answers -/

def replyLength (c x : Byte) : Nat :=
  if c = ASK_MODE_CMD then 3
  else if c = SLEEP_CMD then 5
  else if c = BATT_STATUS_CMD then 3
  else if x ≠ 255 then 0
  else if c = LED_CMD then 5
  else if c = LED1_CMD ∨ c = LED2_CMD ∨ c = LED3_CMD then 3
  else 0

theorem length_reply (fw : Firmware) (adc : Fin 1024) (c x : Byte) :
    (fw.reply adc c x).length = replyLength c x := by
  rw [reply, replyLength]
  by_cases query : x = 255
  · simp only [answer, apply_ite List.length, query, List.length_cons, List.length_nil, ite_or,
      ne_eq, not_true_eq_false, if_true, if_false]
  · simp only [answer, apply_ite List.length, query, List.length_cons, List.length_nil, ite_self,
      ne_eq, not_false_eq_true, if_true, if_false]

/-- The length of the answer to a frame, given without its end. -/
def frameReplyLength : List Byte → Nat
  | [] => 0
  | [c] => replyLength c FRAME_END
  | c :: x :: _ => replyLength c x

theorem Holds.reply {b : List Byte} (h : fw.Holds (b ++ [FRAME_END])) :
    replyLength (GetElem.getElem fw.bufferRx 0 first_lt) (GetElem.getElem fw.bufferRx 1 second_lt) =
      frameReplyLength b := by
  match b with
  | [] =>
      have first : fw.bufferRx[0] = FRAME_END := h.getElem (by simp) (by decide)
      rw [first]
      simp [replyLength, frameReplyLength, FRAME_END, ASK_MODE_CMD, SLEEP_CMD, BATT_STATUS_CMD,
        LED_CMD, LED1_CMD, LED2_CMD, LED3_CMD]
  | [c] =>
      have first : fw.bufferRx[0] = c := h.getElem (by simp) (by decide)
      have second : fw.bufferRx[1] = FRAME_END := h.getElem (by simp) (by decide)
      rw [first, second, frameReplyLength]
  | c :: x :: rest =>
      have first : fw.bufferRx[0] = c := h.getElem (by simp) (by decide)
      have second : fw.bufferRx[1] = x := h.getElem (by simp) (by decide)
      rw [first, second, frameReplyLength]

/-- The first byte of a frame, given without its end. -/
def frameCommand (b : List Byte) : Byte := b.headD FRAME_END

theorem Holds.command {b : List Byte} (h : fw.Holds (b ++ [FRAME_END])) :
    GetElem.getElem fw.bufferRx 0 first_lt = frameCommand b := by
  cases b with
  | nil => exact h.getElem (by simp) (by decide)
  | cons c rest => exact h.getElem (by simp) (by decide)

/-- The second byte of a frame, given without its end. -/
def framePayload (b : List Byte) : Byte := b.tail.headD FRAME_END

theorem Holds.payload {c : Byte} {b : List Byte} (h : fw.Holds (c :: b ++ [FRAME_END])) :
    GetElem.getElem fw.bufferRx 1 second_lt = framePayload (c :: b) := by
  cases b with
  | nil => exact h.getElem (by simp) (by decide)
  | cons x rest => exact h.getElem (by simp) (by decide)

/-- An empty frame changes nothing. -/
theorem settings_end (fw : Firmware) (x : Byte) : fw.settings FRAME_END x = fw := by
  have unset : ∀ i, ¬addressed FRAME_END x i := by
    simp [addressed, FRAME_END, LED_CMD, LED1_CMD, LED2_CMD, LED3_CMD]
  have mode : modeAfter fw.activeMute FRAME_END = fw.activeMute := rfl
  simp [settings, mode, unset]

/-- What a frame does depends on its own bytes only. -/
theorem Holds.heard {b : List Byte} (h : fw.Holds (b ++ [FRAME_END])) (adc : Fin 1024) :
    fw.reply adc (GetElem.getElem fw.bufferRx 0 first_lt) (GetElem.getElem fw.bufferRx 1 second_lt) =
        fw.reply adc (frameCommand b) (framePayload b) ∧
      fw.settings (GetElem.getElem fw.bufferRx 0 first_lt) (GetElem.getElem fw.bufferRx 1 second_lt) =
        fw.settings (frameCommand b) (framePayload b) := by
  rw [h.command]
  cases b with
  | nil => exact ⟨rfl, (fw.settings_end _).trans (fw.settings_end _).symm⟩
  | cons c rest => exact ⟨by rw [h.payload], by rw [h.payload]⟩

/-- The mode after some frames. -/
def modeAfterFrames (mode : Bool) (frames : List (List Byte)) : Bool :=
  frames.foldl (fun mode b => modeAfter mode (frameCommand b)) mode

/-! ## The receive loop -/

/-- The bytes `s` after the pending bytes `p` stay inside the buffers, with `t` bytes queued. -/
structure Room (t : Nat) (p s : List Byte) : Prop where
  frames : ∀ b ∈ Delimited.blocks FRAME_END p s, b.length < 20
  pending : (Delimited.remainder FRAME_END p s).length ≤ 20
  replies : t + ((Delimited.blocks FRAME_END p s).map frameReplyLength).sum ≤ 20

theorem Room.pending_le {t : Nat} {p s : List Byte} (h : Room t p s) : p.length ≤ 20 := by
  cases ended : Delimited.blocks FRAME_END p s with
  | nil =>
      have whole := Delimited.encode_blocks_append_remainder (d := FRAME_END) p s
      rw [ended] at whole
      have same := congrArg List.length whole
      have := h.pending
      simp only [Delimited.encode, List.flatMap_nil, List.nil_append, List.length_append] at same
      omega
  | cons b bs =>
      have start := (Delimited.pending_isPrefix ended).length_le
      have := h.frames b (by simp [ended])
      omega

/-- A byte within a frame is kept for later. -/
theorem room_other {t : Nat} {p s : List Byte} {x : Byte} (other : x ≠ FRAME_END) :
    Room t p (x :: s) ↔ Room t (p ++ [x]) s := by
  have blocks : Delimited.blocks FRAME_END p (x :: s) = Delimited.blocks FRAME_END (p ++ [x]) s :=
    if_neg other
  have remainder : Delimited.remainder FRAME_END p (x :: s) =
      Delimited.remainder FRAME_END (p ++ [x]) s := if_neg other
  constructor
  · rintro ⟨frames, pending, replies⟩
    rw [blocks] at frames replies
    rw [remainder] at pending
    exact ⟨frames, pending, replies⟩
  · rintro ⟨frames, pending, replies⟩
    rw [← blocks] at frames replies
    rw [← remainder] at pending
    exact ⟨frames, pending, replies⟩

/-- The end of a frame frees the buffer and takes room for the answer. -/
theorem room_end {t : Nat} {p s : List Byte} :
    Room t p (FRAME_END :: s) ↔ p.length < 20 ∧ Room (t + frameReplyLength p) [] s := by
  have blocks : Delimited.blocks FRAME_END p (FRAME_END :: s) =
      p :: Delimited.blocks FRAME_END [] s := if_pos rfl
  have remainder : Delimited.remainder FRAME_END p (FRAME_END :: s) =
      Delimited.remainder FRAME_END [] s := if_pos rfl
  constructor
  · rintro ⟨frames, pending, replies⟩
    rw [blocks] at frames replies
    rw [remainder] at pending
    rw [List.map_cons, List.sum_cons, ← Nat.add_assoc] at replies
    exact ⟨frames p List.mem_cons_self, fun b member => frames b (List.mem_cons_of_mem p member),
      pending, replies⟩
  · rintro ⟨short, frames, pending, replies⟩
    refine ⟨?_, remainder ▸ pending, ?_⟩
    · rw [blocks]
      exact List.forall_mem_cons.mpr ⟨short, frames⟩
    · rw [blocks, List.map_cons, List.sum_cons, ← Nat.add_assoc]
      exact replies

/-- The settings after some frames. -/
def heard (fw : Firmware) (frames : List (List Byte)) : Firmware :=
  frames.foldl (fun fw b => fw.settings (frameCommand b) (framePayload b)) fw

/-- What is queued for some frames. -/
def repliesTo (fw : Firmware) (adc : Fin 1024) : List (List Byte) → List Byte
  | [] => []
  | b :: rest =>
      fw.reply adc (frameCommand b) (framePayload b) ++ (fw.heard [b]).repliesTo adc rest

theorem repliesTo_append (fw : Firmware) (adc : Fin 1024) (frames more : List (List Byte)) :
    fw.repliesTo adc (frames ++ more) =
      fw.repliesTo adc frames ++ (fw.heard frames).repliesTo adc more := by
  induction frames generalizing fw with
  | nil => rfl
  | cons b rest ih =>
      rw [List.cons_append, repliesTo, ih, repliesTo, List.append_assoc]
      rfl

/-- Frames are answered from the mode and the LEDs alone. -/
theorem heard_congr {fw fw' : Firmware} (leds : fw'.ledStatus = fw.ledStatus)
    (frames : List (List Byte)) : (fw'.heard frames).ledStatus = (fw.heard frames).ledStatus := by
  induction frames generalizing fw fw' with
  | nil => exact leds
  | cons b rest ih => exact ih (by simp [settings, leds])

theorem repliesTo_congr {fw fw' : Firmware} (mode : fw'.activeMute = fw.activeMute)
    (leds : fw'.ledStatus = fw.ledStatus) (adc : Fin 1024) (frames : List (List Byte)) :
    fw'.repliesTo adc frames = fw.repliesTo adc frames := by
  induction frames generalizing fw fw' with
  | nil => rfl
  | cons b rest ih =>
      have first : fw'.reply adc (frameCommand b) (framePayload b) =
          fw.reply adc (frameCommand b) (framePayload b) := by
        simp only [reply, mode, leds]
      rw [repliesTo, repliesTo, first, ih (by simp [heard, settings, mode]) (heard_congr leds [b])]

/-- What receiving leaves of a state. -/
structure Received (fw : Firmware) (adc : Fin 1024) (p s : List Byte) (fw' : Firmware) : Prop where
  holds : fw'.Holds (Delimited.remainder FRAME_END p s)
  queued : fw'.queued = fw.queued ++ fw.repliesTo adc (Delimited.blocks FRAME_END p s)
  ledStatus : fw'.ledStatus = (fw.heard (Delimited.blocks FRAME_END p s)).ledStatus
  ibTx : fw'.ibTx = fw.ibTx + ((Delimited.blocks FRAME_END p s).map frameReplyLength).sum
  activeMute : fw'.activeMute = modeAfterFrames fw.activeMute (Delimited.blocks FRAME_END p s)
  buttonBuff : fw'.buttonBuff = fw.buttonBuff

/-- A frame which has ended is answered, or there is no room for the answer. -/
theorem processMessage_ends {b : List Byte} (h : fw.Holds (b ++ [FRAME_END]))
    (bound : fw.ibTx ≤ 20) (adc : Fin 1024) :
    Ends (fun e => e = .outOfRange ∧ 20 < fw.ibTx + frameReplyLength b) (fw.processMessage adc)
      fun fw' => fw.ibTx + frameReplyLength b ≤ 20 ∧
        fw'.queued = fw.queued ++ fw.reply adc fw.bufferRx[0] fw.bufferRx[1] ∧
        fw' = { fw.settings fw.bufferRx[0] fw.bufferRx[1] with
          bufferTx := fw'.bufferTx, ibTx := fw.ibTx + frameReplyLength b } := by
  rw [processMessage_eq, ← h.reply, ← length_reply fw adc]
  exact txToBuffer_ends (fw.settings fw.bufferRx[0] fw.bufferRx[1]) _ bound

/-- A byte within a frame is stored if there is room for it. -/
theorem receiveByte_other_ends {p : List Byte} {x : Byte} (h : fw.Holds p) (other : x ≠ FRAME_END)
    (adc : Fin 1024) :
    Ends (fun e => e = .outOfRange ∧ 20 ≤ p.length) (fw.receiveByte adc x) fun q =>
      p.length < 20 ∧ q.2.Holds (p ++ [x]) ∧
        q.2 = { fw with bufferRx := q.2.bufferRx, ibRx := q.2.ibRx } := by
  rw [receiveByte, h.count]
  by_cases room : p.length < 20
  · rw [dif_pos room, if_neg other]
    have stored := h.store (h.count ▸ room) x
    simp only [h.count] at stored
    exact ⟨room, stored, rfl⟩
  · rw [dif_neg room]
    exact ⟨rfl, by omega⟩

/-- The end of a frame is stored and the frame answered if there is room for both. -/
theorem receiveByte_end_ends {p : List Byte} (h : fw.Holds p) (bound : fw.ibTx ≤ 20)
    (adc : Fin 1024) :
    Ends (fun e => e = .outOfRange ∧ ¬(p.length < 20 ∧ fw.ibTx + frameReplyLength p ≤ 20))
      (fw.receiveByte adc FRAME_END) fun q =>
        p.length < 20 ∧ fw.ibTx + frameReplyLength p ≤ 20 ∧ q.2.Holds [] ∧
          q.2.ibTx = fw.ibTx + frameReplyLength p ∧
          q.2.activeMute = modeAfter fw.activeMute (frameCommand p) ∧
          q.2.buttonBuff = fw.buttonBuff ∧
          q.2.queued = fw.queued ++ fw.reply adc (frameCommand p) (framePayload p) ∧
          q.2.ledStatus = (fw.settings (frameCommand p) (framePayload p)).ledStatus := by
  rw [receiveByte]
  by_cases room : fw.ibRx < 20
  · rw [dif_pos room, if_pos rfl]
    have stored := h.store room FRAME_END
    obtain ⟨answer, set⟩ := stored.heard adc
    apply ((processMessage_ends stored bound adc).mono_err ?_).bind
    · rintro after ⟨fits, queue, same⟩
      rw [answer] at queue
      rw [set] at same
      refine ⟨h.count ▸ room, fits, .empty rfl, ?_, ?_, ?_, queue, ?_⟩ <;> rw [same] <;> rfl
    · rintro e ⟨rfl, tooMuch⟩
      dsimp only at tooMuch
      exact ⟨rfl, by omega⟩
  · rw [dif_neg room, h.count] at *
    exact ⟨rfl, by omega⟩

theorem receive_ends {p : List Byte} (h : fw.Holds p) (bound : fw.ibTx ≤ 20) (short : p.length ≤ 20)
    (adc : Fin 1024) (s : List Byte) :
    Ends (fun e => e = .outOfRange ∧ ¬Room fw.ibTx p s) (fw.receive adc s) fun q =>
      Room fw.ibTx p s ∧ Received fw adc p s q.2 := by
  induction s generalizing fw p with
  | nil =>
      refine ⟨⟨by simp [Delimited.blocks], short, by simpa [Delimited.blocks] using bound⟩,
        h, ?_, rfl, ?_, rfl, rfl⟩
      · exact (List.append_nil _).symm
      · simp [Delimited.blocks]
  | cons x s ih =>
      rw [receive]
      by_cases last : x = FRAME_END
      · subst last
        have blocks : Delimited.blocks FRAME_END p (FRAME_END :: s) =
            p :: Delimited.blocks FRAME_END [] s := if_pos rfl
        have remainder : Delimited.remainder FRAME_END p (FRAME_END :: s) =
            Delimited.remainder FRAME_END [] s := if_pos rfl
        rw [room_end]
        apply ((receiveByte_end_ends h bound adc).mono_err ?_).bind
        · rintro ⟨calls, fw₁⟩ ⟨inside, fits, empty, count, mode, buttons, queue, leds⟩
          dsimp only at mode queue leds
          have rest := ih empty (count ▸ fits) (Nat.zero_le _)
          rw [count] at rest
          apply (rest.mono_err ?_).bind
          · rintro ⟨later, fw₂⟩ ⟨fits', received⟩
            refine ⟨⟨inside, fits'⟩, ?_, ?_, ?_, ?_, ?_, received.buttonBuff.trans buttons⟩
            · rw [remainder]
              exact received.holds
            · rw [received.queued, queue, blocks, repliesTo, List.append_assoc]
              exact congrArg _ (congrArg _ (repliesTo_congr mode leds adc _))
            · rw [received.ledStatus, blocks]
              exact heard_congr leds _
            · rw [received.ibTx, count, blocks, List.map_cons, List.sum_cons, Nat.add_assoc]
            · rw [received.activeMute, mode, blocks]
              rfl
          · rintro e ⟨rfl, tooMuch⟩
            exact ⟨rfl, fun h' => tooMuch h'.2⟩
        · rintro e ⟨rfl, tooMuch⟩
          refine ⟨rfl, fun h' => tooMuch ⟨h'.1, ?_⟩⟩
          have := h'.2.replies
          omega
      · have blocks : Delimited.blocks FRAME_END p (x :: s) =
            Delimited.blocks FRAME_END (p ++ [x]) s := if_neg last
        have remainder : Delimited.remainder FRAME_END p (x :: s) =
            Delimited.remainder FRAME_END (p ++ [x]) s := if_neg last
        rw [room_other last]
        apply ((receiveByte_other_ends h last adc).mono_err ?_).bind
        · rintro ⟨calls, fw₁⟩ ⟨inside, stored, same⟩
          dsimp only at stored same
          have count : fw₁.ibTx = fw.ibTx := by rw [same]
          have mode : fw₁.activeMute = fw.activeMute := by rw [same]
          have buttons : fw₁.buttonBuff = fw.buttonBuff := by rw [same]
          have queue : fw₁.queued = fw.queued := by rw [same]; rfl
          have leds : fw₁.ledStatus = fw.ledStatus := by rw [same]
          have rest := ih stored (count ▸ bound) (by simpa using inside)
          rw [count] at rest
          apply rest.bind
          rintro ⟨later, fw₂⟩ ⟨fits', received⟩
          refine ⟨fits', ?_, ?_, ?_, ?_, ?_, received.buttonBuff.trans buttons⟩
          · rw [remainder]
            exact received.holds
          · rw [received.queued, queue, blocks, repliesTo_congr mode leds]
          · rw [received.ledStatus, blocks]
            exact heard_congr leds _
          · rw [received.ibTx, count, blocks]
          · rw [received.activeMute, mode, blocks]
        · rintro e ⟨rfl, full⟩
          refine ⟨rfl, fun h' => ?_⟩
          have := h'.pending_le
          simp only [List.length_append, List.length_singleton] at this
          omega

/-! ## The buttons -/

/-- The buttons whose level differs from the last scan. -/
def changed (buff buttonPin : Fin 5 → Bool) : List (Fin 5) :=
  (List.finRange 5).filter fun i => buttonLevel buttonPin i ≠ buff i

theorem label_lt (i : Fin 5) : i.val < 5 := i.isLt

/-- The message of a changed button, without its end. -/
def buttonBody (buff : Fin 5 → Bool) (i : Fin 5) : List Byte :=
  [getElem buttonLabel i (label_lt i), if buff i then 1 else 0]

def buttonMessages (buff : Fin 5 → Bool) (is : List (Fin 5)) : List Byte :=
  Delimited.encode FRAME_END (is.map (buttonBody buff))

theorem buttonMessages_cons (buff : Fin 5 → Bool) (i : Fin 5) (is : List (Fin 5)) :
    buttonMessages buff (i :: is) =
      [getElem buttonLabel i (label_lt i), if buff i then 1 else 0, FRAME_END] ++
        buttonMessages buff is := rfl

/-- Before the buttons `rest` are scanned. -/
structure Scanning (fw : Firmware) (buttonPin : Fin 5 → Bool) (rest : List (Fin 5))
    (fw' : Firmware) : Prop where
  nodup : rest.Nodup
  bound : fw'.ibTx ≤ 20
  count : fw'.ibTx + 3 * (rest.filter fun i => buttonLevel buttonPin i ≠ fw.buttonBuff i).length =
    fw.ibTx + 3 * (changed fw.buttonBuff buttonPin).length
  queue : fw'.queued ++ buttonMessages fw.buttonBuff
      (rest.filter fun i => buttonLevel buttonPin i ≠ fw.buttonBuff i) =
    fw.queued ++ buttonMessages fw.buttonBuff (changed fw.buttonBuff buttonPin)
  same : fw' = { fw with
    bufferTx := fw'.bufferTx
    ibTx := fw'.ibTx
    buttonBuff := fun i => if i ∈ rest then fw.buttonBuff i else buttonLevel buttonPin i }

theorem buttonStep_ends {fw' : Firmware} {buttonPin : Fin 5 → Bool} {i : Fin 5}
    {rest : List (Fin 5)} (h : Scanning fw buttonPin (i :: rest) fw') :
    Ends (fun e => e = .outOfRange ∧ 20 < fw.ibTx + 3 * (changed fw.buttonBuff buttonPin).length)
      (fw'.buttonStep buttonPin i) (Scanning fw buttonPin rest) := by
  obtain ⟨absent, nodup⟩ := List.nodup_cons.mp h.nodup
  have old : fw'.buttonBuff i = fw.buttonBuff i := by
    rw [h.same]
    simp
  have count := h.count
  have queue := h.queue
  rw [buttonStep, old]
  by_cases different : buttonLevel buttonPin i = fw.buttonBuff i
  · rw [if_neg (by simpa using different)]
    rw [List.filter_cons_of_neg (by simpa using different)] at count queue
    refine ⟨nodup, h.bound, count, queue, ?_⟩
    conv_lhs => rw [h.same]
    congr 1
    funext j
    by_cases first : j = i
    · subst first
      simp [absent, different]
    · simp [first]
  · rw [if_pos different]
    rw [List.filter_cons_of_pos (by simpa using different)] at count queue
    rw [List.length_cons] at count
    have message := txToBuffer_ends
      { fw' with buttonBuff := Function.update fw'.buttonBuff i (buttonLevel buttonPin i) }
      [buttonLabel[i], if fw.buttonBuff i then 1 else 0, FRAME_END] h.bound
    apply (message.mono_err ?_).mono
    · rintro fw'' ⟨fits, queued, same⟩
      dsimp only [List.length_cons, List.length_nil] at fits same
      have ibTx : fw''.ibTx = fw'.ibTx + 3 := by rw [same]
      refine ⟨nodup, ibTx ▸ fits, by omega, ?_, ?_⟩
      · rw [queued, List.append_assoc, ← buttonMessages_cons]
        exact queue
      · rw [same]
        conv_lhs => rw [h.same]
        congr 1
        funext j
        by_cases first : j = i
        · subst first
          simp [absent]
        · simp [first]
    · rintro e ⟨rfl, tooMuch⟩
      dsimp only [List.length_cons, List.length_nil] at tooMuch
      exact ⟨rfl, by omega⟩

/-- A scan reports every change, or there is no room for the reports. -/
theorem buttonProcess_ends (fw : Firmware) (bound : fw.ibTx ≤ 20) (buttonPin : Fin 5 → Bool) :
    Ends (fun e => e = .outOfRange ∧ 20 < fw.ibTx + 3 * (changed fw.buttonBuff buttonPin).length)
      (fw.buttonProcess buttonPin) fun fw' =>
        fw.ibTx + 3 * (changed fw.buttonBuff buttonPin).length ≤ 20 ∧
          fw'.queued = fw.queued ++
            buttonMessages fw.buttonBuff (changed fw.buttonBuff buttonPin) ∧
          fw' = { fw with
            bufferTx := fw'.bufferTx
            ibTx := fw.ibTx + 3 * (changed fw.buttonBuff buttonPin).length
            buttonBuff := buttonLevel buttonPin } := by
  have start : Scanning fw buttonPin (List.finRange 5) fw :=
    ⟨List.nodup_finRange 5, bound, rfl, rfl, by simp⟩
  refine (Ends.foldlM (I := Scanning fw buttonPin) start
    fun i rest fw' h => buttonStep_ends h).mono ?_
  intro fw' done
  have count := done.count
  have queue := done.queue
  have same := done.same
  simp only [List.filter_nil, List.length_nil, Nat.mul_zero, Nat.add_zero] at count
  simp only [List.filter_nil, buttonMessages, List.map_nil, Delimited.encode, List.flatMap_nil,
    List.append_nil] at queue
  simp only [List.not_mem_nil, if_false] at same
  refine ⟨count ▸ done.bound, queue, ?_⟩
  rw [← count]
  exact same

/-! ## Turns of the main loop -/

/-- The bytes of the frame in progress. -/
def pendingRx (fw : Firmware) : List Byte := fw.bufferRx.toList.take fw.ibRx

/-- A turn stays inside the buffers: its frames are short, what is left of the next one is
    too, and the answers and button messages fit together. -/
structure Fits (fw : Firmware) (s : Surroundings) : Prop where
  frames : ∀ b ∈ Delimited.blocks FRAME_END fw.pendingRx s.available, b.length < 20
  pending : (Delimited.remainder FRAME_END fw.pendingRx s.available).length ≤ 20
  replies : ((Delimited.blocks FRAME_END fw.pendingRx s.available).map frameReplyLength).sum +
    (if modeAfterFrames fw.activeMute (Delimited.blocks FRAME_END fw.pendingRx s.available) then
      3 * (changed fw.buttonBuff s.buttonPin).length
    else 0) ≤ 20

/-- Between two turns. -/
structure Idle (fw : Firmware) : Prop where
  ibRx : fw.ibRx ≤ 20
  ibTx : fw.ibTx = 0

theorem Idle.holds (h : fw.Idle) : fw.Holds fw.pendingRx := by
  have := h.ibRx
  have length : fw.pendingRx.length = fw.ibRx := by
    rw [pendingRx, List.length_take, Vector.length_toList]
    omega
  exact ⟨length.symm, by rw [length]; rfl⟩

theorem Holds.pendingRx {p : List Byte} (h : fw.Holds p) : fw.pendingRx = p := by
  rw [Firmware.pendingRx, h.count, h.bytes]

/-- What a turn leaves and sends. -/
structure Turned (fw : Firmware) (s : Surroundings) (sent : List Byte) (fw' : Firmware) : Prop where
  idle : fw'.Idle
  pendingRx : fw'.pendingRx = Delimited.remainder FRAME_END fw.pendingRx s.available
  activeMute : fw'.activeMute =
    modeAfterFrames fw.activeMute (Delimited.blocks FRAME_END fw.pendingRx s.available)
  buttonBuff : fw'.buttonBuff =
    if fw'.activeMute then buttonLevel s.buttonPin else fw.buttonBuff
  /-- The answers come first, then the buttons. -/
  sent : ∃ calls fw₁, fw.receive s.adc s.available = .ok (calls, fw₁) ∧
    fw'.ledStatus = fw₁.ledStatus ∧ sent = fw₁.queued ++
      if fw'.activeMute then buttonMessages fw.buttonBuff (changed fw.buttonBuff s.buttonPin) else []

/-- What a turn does, and when it stays inside the buffers. -/
theorem loop_ends (h : fw.Idle) (s : Surroundings) :
    Ends (fun e => e = .outOfRange ∧ ¬fw.Fits s) (fw.loop s) fun r =>
      fw.Fits s ∧ fw.Turned s r.2.1 r.2.2 := by
  have short : fw.pendingRx.length ≤ 20 := h.holds.count ▸ h.ibRx
  have received := receive_ends h.holds (h.ibTx ▸ Nat.zero_le 20) short s.adc s.available
  rw [h.ibTx] at received
  rw [loop]
  cases result : fw.receive s.adc s.available with
  | error e =>
      rw [result] at received
      obtain ⟨rfl, outside⟩ := received
      refine ⟨rfl, fun fits => outside ⟨fits.frames, fits.pending, ?_⟩⟩
      have := fits.replies
      omega
  | ok q =>
      obtain ⟨calls, fw₁⟩ := q
      rw [result] at received
      obtain ⟨room, left⟩ := received
      have idle : fw₁.ibRx ≤ 20 := left.holds.count ▸ room.pending
      have count := left.ibTx
      rw [h.ibTx, Nat.zero_add] at count
      have replies := room.replies
      rw [Nat.zero_add] at replies
      have mode : fw₁.activeMute = modeAfterFrames fw.activeMute _ := left.activeMute
      have scanned : Ends (fun e => e = .outOfRange ∧ ¬fw.Fits s)
          (if fw₁.activeMute then fw₁.buttonProcess s.buttonPin else pure fw₁) fun fw₂ =>
            fw.Fits s ∧ fw.Turned s fw₂.transmitTx.1 fw₂.transmitTx.2 := by
        split
        · rename_i active
          have spec := fw₁.buttonProcess_ends (count ▸ replies) s.buttonPin
          rw [count, left.buttonBuff] at spec
          apply (spec.mono_err ?_).mono
          · rintro fw₂ ⟨fits, queue, same⟩
            have still : fw₂.activeMute = true := by
              rw [same]
              exact active
            have holds : fw₂.transmitTx.2.Holds _ :=
              ⟨by rw [transmitTx, same]; exact left.holds.count,
                by rw [transmitTx, same]; exact left.holds.bytes⟩
            refine ⟨⟨room.frames, room.pending, ?_⟩,
              ⟨⟨by rw [transmitTx, same]; exact idle, rfl⟩, holds.pendingRx, ?_, ?_,
                calls, fw₁, result, ?_, ?_⟩⟩
            · rw [if_pos (mode ▸ active)]
              exact fits
            · rw [← mode, active]
              exact still
            · rw [show fw₂.transmitTx.2.activeMute = true from still, transmitTx, same]
              rfl
            · rw [transmitTx, same]
            · rw [show fw₂.transmitTx.2.activeMute = true from still]
              exact queue
          · rintro e ⟨rfl, tooMuch⟩
            refine ⟨rfl, fun fits => ?_⟩
            have := fits.replies
            rw [if_pos (mode ▸ active)] at this
            omega
        · rename_i mute
          have holds : fw₁.transmitTx.2.Holds _ := ⟨left.holds.count, left.holds.bytes⟩
          have still : fw₁.transmitTx.2.activeMute = false := Bool.eq_false_iff.mpr mute
          refine ⟨⟨room.frames, room.pending, ?_⟩,
            ⟨⟨idle, rfl⟩, holds.pendingRx, mode, ?_, calls, fw₁, result, rfl, ?_⟩⟩
          · rw [if_neg (mode ▸ mute)]
            exact replies
          · rw [still]
            exact left.buttonBuff
          · rw [still]
            exact (List.append_nil _).symm
      exact scanned.bind fun fw₂ turned => turned

/-- No access of a run is outside the buffers. -/
def InBounds (fw : Firmware) (turns : List Surroundings) : Prop :=
  fw.run turns ≠ .error .outOfRange

/-- A run is a turn and a run from what the turn leaves. -/
theorem run_cons_ok {s : Surroundings} {rest : List Surroundings}
    {r : List ProcessCall × List Byte × Firmware} :
    fw.run (s :: rest) = .ok r ↔ ∃ q q', fw.loop s = .ok q ∧ q.2.2.run rest = .ok q' ∧
      r = (q.1 ++ q'.1, q.2.1 ++ q'.2.1, q'.2.2) := by
  rw [run]
  cases turn : fw.loop s with
  | error e => simp [bind, Except.bind]
  | ok q =>
      obtain ⟨calls, sent, fw₁⟩ := q
      constructor
      · intro h
        cases tail : fw₁.run rest with
        | error e => simp [bind, Except.bind, tail] at h
        | ok q' =>
            simp only [bind, Except.bind, tail, pure, Except.pure, Except.ok.injEq] at h
            exact ⟨_, q', rfl, tail, h.symm⟩
      · rintro ⟨q, q', same, tail, rfl⟩
        cases same
        simp only [bind, Except.bind, tail, pure, Except.pure]

/-- A run stays inside the buffers if and only if each of its turns fits the state it
    meets. -/
theorem inBounds_iff (idle : fw.Idle) (turns : List Surroundings) :
    fw.InBounds turns ↔ ∀ before s after, turns = before ++ s :: after →
      ∀ calls sent fw', fw.run before = .ok (calls, sent, fw') → fw'.Fits s := by
  induction turns generalizing fw with
  | nil =>
      refine ⟨fun _ before s after empty => ?_, fun _ outside => by cases outside⟩
      simp at empty
  | cons s rest ih =>
      have turn := loop_ends idle s
      rw [InBounds, run]
      cases result : fw.loop s with
      | error e =>
          rw [result] at turn
          obtain ⟨rfl, outside⟩ := turn
          refine ⟨fun inside => absurd rfl inside, fun fits => absurd ?_ outside⟩
          exact fits [] s rest rfl [] [] fw rfl
      | ok r =>
          obtain ⟨calls, sent, fw₁⟩ := r
          rw [result] at turn
          obtain ⟨fits, turned⟩ := turn
          have later : (do
              let q ← fw₁.run rest
              pure (calls ++ q.1, sent ++ q.2.1, q.2.2) : Except Fault _) ≠
                .error .outOfRange ↔ fw₁.InBounds rest := by
            rw [InBounds]
            cases fw₁.run rest <;> simp [bind, Except.bind, pure, Except.pure]
          refine (later.trans (ih turned.idle)).trans ⟨?_, ?_⟩
          · intro h before s' after cut calls' sent' fw' run
            cases before with
            | nil =>
                obtain ⟨rfl, rfl⟩ := List.cons.inj cut
                cases run
                exact fits
            | cons s₁ before =>
                obtain ⟨rfl, rfl⟩ := List.cons.inj cut
                obtain ⟨q, q', turn, tail, same⟩ := run_cons_ok.mp run
                cases result.symm.trans turn
                cases same
                exact h before s' after rfl _ _ _ tail
          · intro h before s' after cut calls' sent' fw' run
            refine h (s :: before) s' after (congrArg (s :: ·) cut) (calls ++ calls')
              (sent ++ sent') fw' ?_
            exact run_cons_ok.mpr ⟨_, _, result, run, rfl⟩

/-- A button press in active mode. -/
theorem inBounds_press : ({} : Firmware).Idle ∧
    (({} : Firmware).InBounds [⟨[ACTIVE_MODE_CMD, FRAME_END], fun i => i ≠ 0, 0⟩] ↔
      ∀ before s after,
        [⟨[ACTIVE_MODE_CMD, FRAME_END], fun i => i ≠ 0, 0⟩] = before ++ s :: after →
          ∀ calls sent fw', ({} : Firmware).run before = .ok (calls, sent, fw') → fw'.Fits s) :=
  have idle : ({} : Firmware).Idle := ⟨by decide, rfl⟩
  ⟨idle, inBounds_iff idle _⟩

/-- Twenty-one bytes without an end of frame leave the buffer. -/
theorem not_inBounds_endless :
    ¬({} : Firmware).InBounds [⟨List.replicate 21 0, fun _ => true, 0⟩] := by
  intro inside
  apply inside
  rfl

/-- So do seven queries of the mode which arrive in one turn. -/
example : ({} : Firmware).run
    [⟨(List.replicate 7 [ASK_MODE_CMD, FRAME_END]).flatten, fun _ => true, 0⟩] =
      .error .outOfRange := rfl

end Firmware

end VoxPopuli
