import VoxPopuli.Arduino.Buttons
import VoxPopuli.Arduino.Leds

/-! # Queries to the firmware

A message with an intensity of 255 asks for LEDs, another one for the mode. Between the
messages of the buttons a remote answers every query in the order they came, from what was
commanded last. Each answer starts with the code of its query, except for the third LED,
which is reported under the code of the first.
-/

namespace VoxPopuli

/-- What a remote is told or asked about its LEDs and its mode. -/
inductive Instruction where
  | set (l : Led) (v : Byte) (intensity : v ≠ 255)
  /-- The payload ends the frame already; an end marker after it is a frame of its own. -/
  | query (l : Led) (ended : Bool)
  | mode (active : Bool)
  | askMode

namespace Instruction

open Firmware

def message : Instruction → List Byte
  | set l v _ => (l.command v).message
  | query l ended => (l.command 255).body ++ if ended then [FRAME_END] else []
  | mode active => (if active then Command.activeMode else .muteMode).message
  | askMode => [ASK_MODE_CMD, FRAME_END]

def frames : Instruction → List (List Byte)
  | set l v _ => [(l.command v).body]
  | query l ended => [l.type.code] :: if ended then [[]] else []
  | mode active => [(if active then Command.activeMode else .muteMode).body]
  | askMode => [[ASK_MODE_CMD]]

/-! ## What was commanded -/

def level? : Instruction → Fin 3 → Option Byte
  | set l v _, i => (l.command v).level? i
  | _, _ => none

def mode? : Instruction → Option Bool
  | mode active => some active
  | _ => none

/-- The intensity last commanded for an LED; at first it is dark. -/
def lastLevel (before : List Instruction) (i : Fin 3) : Byte :=
  ((before.filterMap fun o => o.level? i).getLast?).getD 0

/-- The mode last commanded; at first a remote is mute. -/
def lastMode (before : List Instruction) : Bool :=
  ((before.filterMap mode?).getLast?).getD false

/-- The answer to an instruction after others, without its end, if a query for some LEDs is
    answered under `code`. -/
def answer (code : Led → Byte) (before : List Instruction) : Instruction → List (List Byte)
  | query l _ => [code l :: ((List.finRange 3).filter l.Covers).map (lastLevel before)]
  | askMode => [[ASK_MODE_CMD, if lastMode before then 1 else 0]]
  | _ => []

/-- The answers to some instructions after others. -/
def answers (code : Led → Byte) (before : List Instruction) :
    List Instruction → List (List Byte)
  | [] => []
  | o :: rest => o.answer code before ++ answers code (before ++ [o]) rest

theorem lastLevel_concat (before : List Instruction) (o : Instruction) (i : Fin 3) :
    lastLevel (before ++ [o]) i = (o.level? i).getD (lastLevel before i) := by
  rw [lastLevel, List.filterMap_append]
  cases level : o.level? i with
  | none => simp [level, lastLevel]
  | some v => simp [level]

theorem lastMode_concat (before : List Instruction) (o : Instruction) :
    lastMode (before ++ [o]) = o.mode?.getD (lastMode before) := by
  rw [lastMode, List.filterMap_append]
  cases mode : o.mode? with
  | none => simp [mode, lastMode]
  | some active => simp [mode]

/-! ## Instructions as frames -/

theorem body_command (l : Led) (v : Byte) : (l.command v).body = [l.type.code, v] := by
  cases l with
  | all => rfl
  | one j => fin_cases j <;> rfl

theorem code_lt (l : Led) : 0x20 ≤ l.type.code.val ∧ l.type.code.val < 0x24 := by
  cases l with
  | all => decide
  | one j => fin_cases j <;> decide

theorem code_ne (l : Led) {c : Byte} (apart : c.val < 0x20 ∨ 0x24 ≤ c.val) : l.type.code ≠ c := by
  rintro rfl
  have := code_lt l
  omega

theorem message_eq (o : Instruction) : o.message = Delimited.encode FRAME_END o.frames := by
  cases o with
  | set l v intensity => simp [message, frames, Delimited.encode, Command.message_eq]
  | query l ended =>
      rw [message, frames, body_command]
      cases ended <;> rfl
  | mode active => simp [message, frames, Delimited.encode, Command.message_eq]
  | askMode => rfl

/-- A frame which is ended by the next end marker and has nothing to do with the battery
    or with sleep. -/
structure Plain (b : List Byte) : Prop where
  free : FRAME_END ∉ b
  awake : frameCommand b ≠ SLEEP_CMD
  battery : frameCommand b ≠ BATT_STATUS_CMD

theorem frames_plain (o : Instruction) {b : List Byte} (member : b ∈ o.frames) : Plain b := by
  have code : ∀ l : Led, FRAME_END ≠ l.type.code := fun l => (code_ne l (by decide)).symm
  cases o with
  | set l v intensity =>
      obtain rfl := List.mem_singleton.mp member
      rw [body_command]
      refine ⟨?_, code_ne l (by decide), code_ne l (by decide)⟩
      simpa [code l] using (show FRAME_END ≠ v from intensity.symm)
  | query l ended =>
      rcases List.mem_cons.mp member with rfl | later
      · exact ⟨by simpa using code l, code_ne l (by decide), code_ne l (by decide)⟩
      · obtain rfl : b = [] := by
          cases ended with
          | false => cases later
          | true => exact List.mem_singleton.mp later
        exact ⟨List.not_mem_nil, by decide, by decide⟩
  | mode active =>
      obtain rfl := List.mem_singleton.mp member
      cases active <;> exact ⟨by decide, by decide, by decide⟩
  | askMode =>
      obtain rfl := List.mem_singleton.mp member
      exact ⟨by decide, by decide, by decide⟩

theorem blocks_messages (instructions : List Instruction) :
    Delimited.blocks FRAME_END [] (instructions.flatMap message) = instructions.flatMap frames := by
  have stream : instructions.flatMap message =
      Delimited.encode FRAME_END (instructions.flatMap frames) := by
    rw [Delimited.encode, List.flatMap_assoc]
    exact List.flatMap_congr fun o _ => o.message_eq
  rw [stream, Delimited.blocks_encode]
  intro b member
  obtain ⟨o, -, inside⟩ := List.mem_flatMap.mp member
  exact (frames_plain o inside).free

/-! ## The answers of the firmware -/

/-- The code under which the firmware reports LEDs. -/
def replyCode : Led → Byte
  | .one 2 => LED1_CMD
  | l => l.type.code

variable {fw : Firmware} {before : List Instruction}

theorem addressed_code (l : Led) (x : Byte) (i : Fin 3) :
    addressed l.type.code x i ↔ l.Covers i ∧ x ≠ 255 := by
  cases l with
  | all => simp [addressed, Led.Covers, Led.type, XBEE_MSG_TYPE.code, LED_CMD]
  | one j =>
      fin_cases j <;> fin_cases i <;>
        simp [addressed, Led.Covers, Led.type, XBEE_MSG_TYPE.code, LED_CMD, LED1_CMD, LED2_CMD,
          LED3_CMD]

theorem settings_code (l : Led) (x : Byte) : (fw.settings l.type.code x).activeMute =
    fw.activeMute := by
  have active : l.type.code ≠ ACTIVE_MODE_CMD := code_ne l (by decide)
  have mute : l.type.code ≠ MUTE_MODE_CMD := code_ne l (by decide)
  simp [settings, modeAfter, active, mute]

theorem reply_code (l : Led) (adc : Fin 1024) (x : Byte) : fw.reply adc l.type.code x =
    Firmware.answer x (replyCode l :: ((List.finRange 3).filter l.Covers).map fw.ledStatus ++
      [FRAME_END]) := by
  cases l with
  | all => rfl
  | one j => fin_cases j <;> rfl

/-- The firmware is where the instructions have taken it. -/
structure Knows (fw : Firmware) (before : List Instruction) : Prop where
  mode : fw.activeMute = lastMode before
  leds : fw.ledStatus = lastLevel before

theorem Knows.heard (h : Knows fw before) (o : Instruction) :
    Knows (fw.heard o.frames) (before ++ [o]) := by
  have level : ∀ i, lastLevel (before ++ [o]) i = (o.level? i).getD (fw.ledStatus i) := by
    intro i
    rw [lastLevel_concat, h.leds]
  have mode : lastMode (before ++ [o]) = o.mode?.getD fw.activeMute := by
    rw [lastMode_concat, h.mode]
  cases o with
  | set l v intensity =>
      have frame : fw.heard (frames (.set l v intensity)) = fw.settings l.type.code v := by
        rw [frames, body_command]
        rfl
      rw [frame]
      refine ⟨(settings_code l v).trans mode.symm, funext fun i => ?_⟩
      rw [level, level?, Led.level?_command]
      by_cases covers : l.Covers i <;> simp [settings, addressed_code, covers, intensity]
  | query l ended =>
      -- The frame between two end markers is empty.
      have frame : fw.heard (frames (.query l ended)) = fw.settings l.type.code 255 := by
        cases ended with
        | false => rfl
        | true => exact Firmware.settings_end _ FRAME_END
      rw [frame]
      refine ⟨(settings_code l 255).trans mode.symm, funext fun i => ?_⟩
      rw [level]
      simp [settings, addressed_code, level?]
  | mode active =>
      refine ⟨?_, funext fun i => ?_⟩
      · rw [mode]
        cases active <;> rfl
      · rw [level]
        cases active <;> rfl
  | askMode => exact ⟨mode.symm, funext fun i => (level i).symm⟩

theorem Knows.repliesTo (h : Knows fw before) (adc : Fin 1024) (o : Instruction) :
    fw.repliesTo adc o.frames = Delimited.encode FRAME_END (o.answer replyCode before) := by
  cases o with
  | set l v intensity =>
      have silent : fw.reply adc l.type.code v = [] :=
        (reply_code l adc v).trans (if_neg intensity)
      rw [frames, body_command]
      simp [Firmware.repliesTo, frameCommand, framePayload, silent, answer, Delimited.encode]
  | query l ended =>
      have told : fw.reply adc l.type.code FRAME_END = replyCode l ::
          ((List.finRange 3).filter l.Covers).map (lastLevel before) ++ [FRAME_END] :=
        h.leds ▸ (reply_code l adc 255).trans (if_pos rfl)
      have silent : ∀ fw : Firmware, fw.reply adc FRAME_END FRAME_END = [] := fun _ => rfl
      cases ended <;>
        simp [frames, Firmware.repliesTo, frameCommand, framePayload, told, silent, answer,
          Delimited.encode]
  | mode active => cases active <;> rfl
  | askMode =>
      have told : fw.reply adc ASK_MODE_CMD FRAME_END =
          [ASK_MODE_CMD, if lastMode before then 1 else 0, FRAME_END] := h.mode ▸ rfl
      simp [frames, Firmware.repliesTo, frameCommand, framePayload, told, answer,
        Delimited.encode]

theorem Knows.answers (h : Knows fw before) (adc : Fin 1024) (instructions : List Instruction) :
    fw.repliesTo adc (instructions.flatMap frames) =
      Delimited.encode FRAME_END (answers replyCode before instructions) := by
  induction instructions generalizing fw before with
  | nil => rfl
  | cons o rest ih =>
      rw [List.flatMap_cons, Firmware.repliesTo_append, h.repliesTo, ih (h.heard o),
        Instruction.answers]
      exact List.flatMap_append.symm

end Instruction

/-! ## Runs -/

namespace Firmware

variable {fw : Firmware}

/-- The messages of a stream which are not those of a button. -/
def replyFrames (bytes : List Byte) : List (List Byte) :=
  (Delimited.blocks FRAME_END [] bytes).filter fun b => XBeeRemote.buttonCall? b = none

/-- Every message of the stream has its end, and these are not those of a button. -/
structure Replied (bytes : List Byte) (bodies : List (List Byte)) : Prop where
  complete : Delimited.remainder FRAME_END [] bytes = []
  frames : replyFrames bytes = bodies

theorem Replied.append {s t : List Byte} {bodies more : List (List Byte)} (h : Replied s bodies)
    (h' : Replied t more) : Replied (s ++ t) (bodies ++ more) := by
  refine ⟨?_, ?_⟩
  · rw [Delimited.remainder_append, h.complete, h'.complete]
  · rw [replyFrames, Delimited.blocks_append, h.complete, List.filter_append, ← h.frames,
      ← h'.frames]
    rfl

theorem Answers.replied {bytes : List Byte} (h : Answers bytes) :
    Replied bytes (Delimited.blocks FRAME_END [] bytes) := by
  obtain ⟨bodies, rfl, neutral⟩ := h
  have free : ∀ b ∈ bodies, FRAME_END ∉ b := fun b member => (neutral b member).free
  refine ⟨Delimited.remainder_encode free, ?_⟩
  rw [replyFrames, Delimited.blocks_encode free, List.filter_eq_self]
  intro b member
  simpa using (neutral b member).call

theorem buttonMessages_replied (buff : Fin 5 → Bool) (is : List (Fin 5)) :
    Replied (buttonMessages buff is) [] := by
  have free : ∀ b ∈ is.map (buttonBody buff), FRAME_END ∉ b := by
    intro b member
    obtain ⟨i, -, rfl⟩ := List.mem_map.mp member
    rw [buttonBody]
    cases buff i <;> fin_cases i <;> decide
  refine ⟨Delimited.remainder_encode free, ?_⟩
  rw [replyFrames, buttonMessages, Delimited.blocks_encode free, List.filter_eq_nil_iff]
  intro b member
  obtain ⟨i, -, rfl⟩ := List.mem_map.mp member
  simp [buttonCall?_buttonBody]

theorem heard_activeMute (frames : List (List Byte)) :
    (fw.heard frames).activeMute = modeAfterFrames fw.activeMute frames := by
  induction frames generalizing fw with
  | nil => rfl
  | cons b rest ih => exact @ih (fw.settings (frameCommand b) (framePayload b))

/-- The battery reading is in no answer but the one about it. -/
theorem repliesTo_adc (adc : Fin 1024) {frames : List (List Byte)}
    (plain : ∀ b ∈ frames, frameCommand b ≠ BATT_STATUS_CMD) :
    fw.repliesTo adc frames = fw.repliesTo 0 frames := by
  induction frames generalizing fw with
  | nil => rfl
  | cons b rest ih =>
      obtain ⟨first, others⟩ := List.forall_mem_cons.mp plain
      rw [repliesTo, repliesTo, ih others]
      simp [reply, first]

/-- A turn answers the frames which end in it, from what it knows of the frames before. -/
theorem loop_replies (h : fw.Steady) {s : Surroundings} {calls : List ProcessCall}
    {sent : List Byte} {fw' : Firmware} (turn : fw.loop s = .ok (calls, sent, fw'))
    {frames : List (List Byte)} (ended : Delimited.blocks FRAME_END fw.pendingRx s.available = frames)
    (plain : ∀ b ∈ frames, Instruction.Plain b) :
    Replied sent (Delimited.blocks FRAME_END [] (fw.repliesTo 0 frames)) ∧
      fw'.Steady ∧ fw'.activeMute = (fw.heard frames).activeMute ∧
      fw'.ledStatus = (fw.heard frames).ledStatus := by
  have awake : ∀ b ∈ frames, frameCommand b ≠ SLEEP_CMD := fun b member => (plain b member).awake
  have turned : fw.Turned s sent fw' := ((loop_ends h.toIdle s).of_ok turn).2
  obtain ⟨more, fw₁, result, leds, rfl⟩ := turned.sent
  have short : fw.pendingRx.length ≤ 20 := h.holds.count ▸ h.ibRx
  have received : Received fw s.adc fw.pendingRx s.available fw₁ :=
    ((receive_ends h.holds (h.ibTx ▸ Nat.zero_le 20) short s.adc s.available).of_ok result).2
  have empty : fw.queued = [] := by
    rw [queued, h.ibTx, List.take_zero]
  have queue := received.queued
  rw [empty, List.nil_append, ended, repliesTo_adc _ fun b member => (plain b member).battery]
    at queue
  have status := leds.trans received.ledStatus
  rw [ended] at status
  have buttons : Replied (if fw'.activeMute then
      buttonMessages fw.buttonBuff (changed fw.buttonBuff s.buttonPin) else []) [] := by
    split
    · exact buttonMessages_replied _ _
    · exact ⟨rfl, rfl⟩
  refine ⟨?_, ⟨turned.idle, ?_⟩, ?_, status⟩
  · rw [queue]
    have whole := (repliesTo_answers 0 awake h.lit).replied.append buttons
    rwa [List.append_nil] at whole
  · rw [status]
    exact heard_lit h.lit frames
  · rw [turned.activeMute, ended, heard_activeMute]

theorem run_replies (h : fw.Steady) {turns : List Surroundings} {calls : List ProcessCall}
    {sent : List Byte} {fw' : Firmware} (run : fw.run turns = .ok (calls, sent, fw'))
    (plain : ∀ b ∈ Delimited.blocks FRAME_END fw.pendingRx (line turns), Instruction.Plain b) :
    Replied sent (Delimited.blocks FRAME_END []
      (fw.repliesTo 0 (Delimited.blocks FRAME_END fw.pendingRx (line turns)))) := by
  induction turns generalizing fw calls sent with
  | nil =>
      cases run
      exact ⟨rfl, rfl⟩
  | cons s rest ih =>
      obtain ⟨⟨calls₁, sent₁, fw₁⟩, ⟨calls₂, sent₂, fw₂⟩, turn, later, same⟩ := run_cons_ok.mp run
      cases same
      have turned := ((loop_ends h.toIdle s).of_ok turn).2
      rw [line, List.flatMap_cons, Delimited.blocks_append, ← turned.pendingRx] at plain ⊢
      obtain ⟨first, others⟩ := List.forall_mem_append.mp plain
      obtain ⟨replied, steady, mode, leds⟩ := loop_replies h turn rfl first
      have awake : ∀ b ∈ Delimited.blocks FRAME_END fw.pendingRx s.available,
          frameCommand b ≠ SLEEP_CMD := fun b member => (first b member).awake
      have whole := (@repliesTo_answers fw 0 _ awake h.lit).replied.complete
      rw [repliesTo_append, Delimited.blocks_append, whole, ← repliesTo_congr mode leds]
      exact replied.append (ih steady later others)

end Firmware

namespace Instruction

open Firmware

/-! ## Which queries are answered -/

variable {before : List Instruction}

theorem replyCode_eq_iff (l : Led) : replyCode l = l.type.code ↔ l ≠ .one 2 := by
  cases l with
  | all => simp [replyCode]
  | one j => fin_cases j <;> simp [replyCode, LED1_CMD, Led.type, XBEE_MSG_TYPE.code]

theorem answer_eq_iff (o : Instruction) :
    o.answer replyCode before = o.answer (fun l => l.type.code) before ↔
      ∀ ended, o ≠ .query (.one 2) ended := by
  cases o with
  | query l ended =>
      simp only [answer, List.cons.injEq, and_true, replyCode_eq_iff]
      simp
  | set l v intensity | mode active | askMode => simp [answer]

theorem length_answer (code : Led → Byte) (o : Instruction) :
    (o.answer code before).length = (o.answer replyCode before).length := by
  cases o <;> rfl

/-- A wrong answer is not made up for by another one: each stands in its own place. -/
theorem answers_eq_iff (instructions : List Instruction) :
    answers replyCode before instructions =
        answers (fun l => l.type.code) before instructions ↔
      ∀ ended, .query (.one 2) ended ∉ instructions := by
  induction instructions generalizing before with
  | nil => simp [answers]
  | cons o rest ih =>
      have split : answers replyCode before (o :: rest) =
            answers (fun l => l.type.code) before (o :: rest) ↔
          o.answer replyCode before = o.answer (fun l => l.type.code) before ∧
            answers replyCode (before ++ [o]) rest =
              answers (fun l => l.type.code) (before ++ [o]) rest :=
        ⟨fun same => List.append_inj same (length_answer _ o).symm,
          fun same => congrArg₂ (· ++ ·) same.1 same.2⟩
      rw [split, answer_eq_iff, ih, ← forall_and]
      exact forall_congr' fun ended => by simp [eq_comm]

theorem lastLevel_ne (before : List Instruction) (i : Fin 3) : lastLevel before i ≠ 255 := by
  induction before using List.reverseRecOn with
  | nil => exact (by decide : (0 : Byte) ≠ 255)
  | append_singleton before o ih =>
      rw [lastLevel_concat]
      cases o with
      | set l v intensity =>
          rw [level?, Led.level?_command]
          split
          · exact intensity
          · exact ih
      | query l ended | mode active | askMode => exact ih

theorem answers_free (before instructions : List Instruction) :
    ∀ b ∈ answers replyCode before instructions, FRAME_END ∉ b := by
  induction instructions generalizing before with
  | nil => exact fun b member => absurd member List.not_mem_nil
  | cons o rest ih =>
      refine List.forall_mem_append.mpr ⟨?_, ih _⟩
      cases o with
      | query l ended =>
          have code : FRAME_END ≠ replyCode l := by
            cases l with
            | all => decide
            | one j => fin_cases j <;> decide
          have level : ∀ i, lastLevel before i ≠ FRAME_END := lastLevel_ne before
          simp [answer, code, level]
      | askMode =>
          rw [answer, List.forall_mem_singleton]
          cases lastMode before <;> decide
      | set l v intensity | mode active => exact fun b member => absurd member List.not_mem_nil

/-- The stream has one message for every query of LEDs or of the mode, in their order: the
    code of the query and what was commanded last. Each has its end, and only messages of
    buttons stand between them. -/
def Answered (instructions : List Instruction) (sent : List Byte) : Prop :=
  Replied sent (answers (fun l => l.type.code) [] instructions)

/-- However the instructions are cut into turns, every query is answered as it should be if
    and only if the third LED is never queried. -/
theorem answered_iff {turns : List Firmware.Surroundings} {instructions : List Instruction}
    (told : line turns = instructions.flatMap message) {calls : List ProcessCall}
    {sent : List Byte} {fw : Firmware}
    (run : ({} : Firmware).run turns = .ok (calls, sent, fw)) :
    Answered instructions sent ↔ ∀ ended, .query (.one 2) ended ∉ instructions := by
  have steady : ({} : Firmware).Steady := ⟨⟨by decide, rfl⟩, by decide⟩
  have knows : Knows {} [] := ⟨rfl, rfl⟩
  have frames : Delimited.blocks FRAME_END ({} : Firmware).pendingRx (line turns) =
      instructions.flatMap frames := by
    rw [told]
    exact blocks_messages instructions
  have plain : ∀ b ∈ instructions.flatMap Instruction.frames, Plain b := by
    intro b member
    obtain ⟨o, -, inside⟩ := List.mem_flatMap.mp member
    exact frames_plain o inside
  have replied := run_replies steady run (frames ▸ plain)
  rw [frames, knows.answers, Delimited.blocks_encode (answers_free [] instructions)] at replied
  rw [← @answers_eq_iff []]
  refine ⟨fun h => replied.frames.symm.trans h.frames, fun same => ?_⟩
  rwa [same] at replied

/-- The third LED is lit and all are queried. -/
theorem answered_all :
    let instructions : List Instruction := [.set (.one 2) 7 (by decide), .query .all true]
    ∃ calls fw, ({} : Firmware).run [⟨[0x23, 7, 0xFF, 0x20, 0xFF, 0xFF], fun _ => true, 0⟩] =
        .ok (calls, [0x20, 0, 0, 7, 0xFF], fw) ∧
      (Answered instructions [0x20, 0, 0, 7, 0xFF] ↔
        ∀ ended, .query (.one 2) ended ∉ instructions) :=
  ⟨_, _, rfl, @answered_iff [⟨[0x23, 7, 0xFF, 0x20, 0xFF, 0xFF], fun _ => true, 0⟩] _ rfl _ _ _ rfl⟩

/-- The status of the third LED is sent as if it were that of the first. -/
theorem not_answered_third :
    ∃ calls fw, ({} : Firmware).run [⟨(query (.one 2) true).message, fun _ => true, 0⟩] =
        .ok (calls, [0x21, 0, 0xFF], fw) ∧ ¬Answered [.query (.one 2) true] [0x21, 0, 0xFF] := by
  refine ⟨_, _, rfl, fun h => ?_⟩
  have wrong := h.frames
  revert wrong
  decide

end Instruction

end VoxPopuli
