import VoxPopuli.Arduino.Queries
import VoxPopuli.XBee.Gateway

/-! # From the models of the remotes to their LEDs

Settings of many remotes wait side by side. A tick of the radio writes the first message of
the first remote which has one; the frame comes out of the serial port in pieces, the radio
brings what it carries to the remote it names, and the firmware reads this in pieces again.
Nothing is mixed up on the way: seen from one remote, whatever is under way amounts to a
message which arrived at once.
-/

namespace VoxPopuli

open XBeeFrame

/-! ## What a firmware has still to read -/

namespace Firmware

variable {fw fw' : Firmware} {levels : Fin 3 → Byte}

theorem foldl_obey_congr (same : fw'.ledStatus = fw.ledStatus) (commands : List Command) :
    (commands.foldl obey fw').ledStatus = (commands.foldl obey fw).ledStatus := by
  induction commands generalizing fw fw' with
  | nil => exact same
  | cons c rest ih => exact ih (by simp only [obey, same])

/-- Frames without an intensity of 255 are obeyed. -/
theorem heard_bodies {commands : List Command} (quiet : ∀ c ∈ commands, (255 : Byte) ∉ c.data) :
    (fw.heard (commands.map Command.body)).ledStatus = (commands.foldl obey fw).ledStatus := by
  induction commands generalizing fw with
  | nil => rfl
  | cons c rest ih =>
      obtain ⟨first, others⟩ := List.forall_mem_cons.mp quiet
      refine (@ih (fw.settings (frameCommand c.body) (framePayload c.body)) others).trans
        (foldl_obey_congr (funext fun i => ?_) rest)
      cases c with
      | activeMode | muteMode => rfl
      | led v | led1 v | led2 v | led3 v =>
          have other : v ≠ 255 := by simpa [Command.data, eq_comm] using first
          fin_cases i <;> simp [settings, addressed, obey, Command.level?, Command.body,
            Command.data, Command.type, XBEE_MSG_TYPE.code, frameCommand, framePayload, other,
            LED_CMD, LED1_CMD, LED2_CMD, LED3_CMD]

/-- When the firmware has read the bytes, its LEDs have these intensities. -/
def Heads (fw : Firmware) (bytes : List Byte) (levels : Fin 3 → Byte) : Prop :=
  ∃ (p : List Byte) (commands : List Command), fw.Receiving p ∧
    Delimited.blocks FRAME_END p bytes = commands.map Command.body ∧
    Delimited.remainder FRAME_END p bytes = [] ∧
    (∀ c ∈ commands, (255 : Byte) ∉ c.data) ∧ levels = (commands.foldl obey fw).ledStatus

theorem Heads.start (h : fw.Receiving []) : fw.Heads [] fw.ledStatus :=
  ⟨[], [], h, rfl, rfl, by simp, rfl⟩

theorem Heads.done (h : fw.Heads [] levels) : fw.ledStatus = levels := by
  obtain ⟨p, commands, -, none, -, -, rfl⟩ := h
  obtain rfl : commands = [] := List.map_eq_nil_iff.mp none.symm
  rfl

/-- Another message is on its way behind the others. -/
theorem Heads.append {bytes : List Byte} (h : fw.Heads bytes levels) {c : Command}
    (quiet : (255 : Byte) ∉ c.data) :
    fw.Heads (bytes ++ c.message) fun i => (c.level? i).getD (levels i) := by
  obtain ⟨p, commands, receiving, blocks, complete, others, rfl⟩ := h
  have free : ∀ b ∈ [c.body], FRAME_END ∉ b := by
    intro b member marked
    rw [List.mem_singleton.mp member] at marked
    exact quiet (Command.mem_body.mp marked)
  have message : c.message = Delimited.encode FRAME_END [c.body] := by
    simp [Delimited.encode, Command.message_eq]
  refine ⟨p, commands ++ [c], receiving, ?_, ?_, ?_, ?_⟩
  · rw [Delimited.blocks_append, blocks, complete, message, Delimited.blocks_encode free,
      List.map_append]
    rfl
  · rw [Delimited.remainder_append, complete, message, Delimited.remainder_encode free]
  · intro c' member
    rcases List.mem_append.mp member with before | single
    · exact others c' before
    · exact List.mem_singleton.mp single ▸ quiet
  · rw [List.foldl_append]
    rfl

/-- A turn reads a part of the bytes, and never too many. -/
theorem Heads.turn {part rest : List Byte} (h : fw.Heads (part ++ rest) levels)
    (buttonPin : Fin 5 → Bool) (adc : Fin 1024) :
    Ends (fun _ => False) (fw.loop ⟨part, buttonPin, adc⟩) fun r => r.2.2.Heads rest levels := by
  obtain ⟨p, commands, receiving, blocks, complete, quiet, rfl⟩ := h
  obtain ⟨⟨calls, sent, fw'⟩, run, ended, later, rfl, -, received, rest_eq⟩ :=
    ends_total.mp (loop_commands receiving ⟨part, buttonPin, adc⟩ blocks complete quiet)
  dsimp only at received rest_eq
  rw [run]
  have short : p.length ≤ 20 := by
    have bytes := congrArg List.length receiving.bytes
    simp only [List.length_take, Vector.length_toList] at bytes
    omega
  have idle : fw.Idle := ⟨receiving.count ▸ short, receiving.flushed⟩
  obtain ⟨more, fw₁, result, leds, -⟩ := ((loop_ends idle ⟨part, buttonPin, adc⟩).of_ok run).2.sent
  have told := ((receive_ends receiving.toHolds (receiving.flushed ▸ Nat.zero_le 20) short adc
    part).of_ok result).2.ledStatus
  have blocks_part : Delimited.blocks FRAME_END p part = ended.map Command.body := by
    rw [Delimited.blocks_append, rest_eq, List.map_append] at blocks
    exact List.append_cancel_right blocks
  rw [blocks_part, heard_bodies fun c member => quiet c (List.mem_append_left _ member)] at told
  refine ⟨_, later, received, rest_eq, ?_, fun c member => quiet c (List.mem_append_right _ member),
    ?_⟩
  · rw [← Delimited.remainder_append]
    exact complete
  · rw [List.foldl_append]
    exact (foldl_obey_congr (leds.trans told) later).symm

end Firmware

/-! ## The daemon, the radio and the remotes -/

/-- The daemon with its serial port, the radio and the remotes. -/
structure Fleet where
  world : World
  /-- What has been written to the serial port and not been read by the radio. -/
  wire : List Byte := []
  radio : Parse := .waitStart
  /-- What has been brought to a remote and not been read by its firmware. -/
  air : Nat → List Byte := fun _ => []
  fw : Nat → Firmware

namespace Fleet

inductive Event where
  /-- LEDs of a remote are set to an intensity which is no query. -/
  | set (i : Nat) (l : Led) (v : Byte) (intensity : v ≠ 255)
  /-- `id` is what `generateFrameID` returns, `port` what `xbee_frame_write` finds. -/
  | tick (id : Option Byte) (port : TxPort)
  /-- The radio reads some bytes. -/
  | radio (n : Nat)
  /-- The firmware of a remote goes through its main loop and finds some bytes. -/
  | turn (i n : Nat) (buttonPin : Fin 5 → Bool) (adc : Fin 1024)

/-- `XBEE_FRAME_TRANSMIT`. -/
def frameTransmit : Byte := 0x10

/-- `sendRemoteTX`, with the bytes which are written. -/
def sendRemoteTX (id : Option Byte) (port : TxPort) (dest : List Byte) (cmd : StdString) :
    Option (List Byte) :=
  match id with
  | none => none
  | some c =>
      (frameWrite port ([frameTransmit, c] ++ dest.take 8 ++ [0xFF, 0xFE, 0, 0]) cmd).toOption

/-- The loop of `standardRunTick`, which ends with the first remote that has a message. -/
def standardRunTick (w : World) : List Nat → Option (Nat × StdString) × World
  | [] => (none, w)
  | i :: rest =>
      match w.tick i with
      | (none, w) => standardRunTick w rest
      | (some msg, w) => (some (i, msg), w)

/-- What a frame carries to the remote with this address. -/
def broughtTo (addr frame : List Byte) : List Byte :=
  if frame.head? = some frameTransmit ∧ (frame.drop 2).take 8 = addr then frame.drop 14 else []

/-- Where the remotes are: the number of their object in the model, and their address. -/
structure Layout where
  model : Nat → Nat
  addr : Nat → List Byte

variable (layout : Layout)

def step (s : Fleet) : Event → Except Fault Fleet
  | .set i l v _ => pure { s with
      world := (Remote.triggerLed s.world (layout.model i) l.event [v]).2 }
  | .tick id port =>
      match standardRunTick s.world (List.range s.world.xbeeRemotes.length) with
      | (none, w) => pure { s with world := w }
      | (some (i, msg), w) => pure { s with
          world := w
          wire := s.wire ++ ((w.xbeeRemotes[i]?.bind fun x =>
            sendRemoteTX id port x.addr msg).getD []) }
  | .radio n =>
      let (radio, frames) := scanner.feed s.radio (s.wire.take n)
      pure { s with
        wire := s.wire.drop n
        radio := radio
        air := fun i => s.air i ++ frames.flatMap (broughtTo (layout.addr i)) }
  | .turn i n buttonPin adc => do
      let (_, _, fw) ← (s.fw i).loop ⟨(s.air i).take n, buttonPin, adc⟩
      pure { s with
        air := Function.update s.air i ((s.air i).drop n)
        fw := Function.update s.fw i fw }

/-- What is under way to a remote. -/
def coming (s : Fleet) (i : Nat) : List Byte :=
  s.air i ++ (scanner.feed s.radio s.wire).2.flatMap (broughtTo (layout.addr i))

/-- There are `n` remotes, whose LEDs are set as carefully as those of a single one. When a
    message waits, there is an ID for its frame and room for the 21 bytes of it. -/
def Careful (n : Nat) (s : Fleet) : Event → Prop
  | .set i l v intensity => i < n ∧ LedState.Careful i ⟨s.world, s.fw i⟩ (.set l v intensity)
  | .tick id port =>
      (∃ i, (s.world.tick i).1 ≠ none) → id ≠ none ∧ port.cts = true ∧ 21 ≤ port.free
  | .radio _ => True
  | .turn i _ _ _ => i < n

end Fleet

/-! ## One remote among others -/

/-- What is known of a remote and of its place on the radio stays the same. -/
structure World.SameRemote (w w' : World) (r i : Nat) : Prop where
  real : w'.isReal r = w.isReal r
  link : w'.remoteLink r = w.remoteLink r
  json : w'.json (.remote r) = w.json (.remote r)
  addrs : w'.xbeeRemotes.map XBeeRemote.addr = w.xbeeRemotes.map XBeeRemote.addr
  entry : w'.xbeeRemotes[i]? = w.xbeeRemotes[i]?

section Remotes

variable {w w' : World} {r r' i j : Nat} {x : XBeeRemote}

theorem Connected.congr (h : Connected w r i x) (same : w.SameRemote w' r i) :
    Connected w' r i x := by
  refine ⟨same.real.trans h.real, ?_, same.entry.trans h.there⟩
  have mac : RemoteList.macOf w' r = RemoteList.macOf w r := by
    simp only [RemoteList.macOf, World.get, same.json]
  have search : ∀ xs : List XBeeRemote,
      (xs.findIdx? fun x => intToHexStr x.addr = RemoteList.macOf w r) =
        (xs.map XBeeRemote.addr).findIdx? fun a => intToHexStr a = RemoteList.macOf w r := by
    intro xs
    rw [List.findIdx?_map]
    rfl
  rw [same.link, mac, search, same.addrs, ← search]
  exact h.link

/-- What the firmware shows counts, not how it has come to it. -/
theorem LedState.Tracks.congr {fw fw' : Firmware} {waiting : Led → Option Byte}
    (h : Tracks r i ⟨w, fw⟩ x waiting) (same : w.SameRemote w' r i) (receiving : fw'.Receiving [])
    (leds : fw'.ledStatus = fw.ledStatus) : Tracks r i ⟨w', fw'⟩ x waiting := by
  refine ⟨h.toConnected.congr same, receiving, h.messages, h.intensities, h.keys, fun k => ?_⟩
  have number := h.numbers k
  simp only [World.get] at number ⊢
  rw [same.json, leds]
  exact number

theorem Connected.safeSendMsg_eq (h : Connected w r i x) (key : StdString) (type : XBEE_MSG_TYPE)
    (data : HexData) : RealRemote.safeSendMsg w r key type data = { w with
      remoteLink := Function.update w.remoteLink r (some i)
      xbeeRemotes := w.xbeeRemotes.modify i fun x => x.safeSendMsg key type data } := by
  have link := h.link
  rw [RealRemote.safeSendMsg, RealRemote.remote]
  cases known : w.remoteLink r with
  | some j =>
      rw [known] at link
      cases link
      rw [Function.update_eq_self_iff.mpr known.symm]
  | none =>
      rw [known, Option.none_or] at link
      rw [link]

/-- A setting goes to one remote. -/
theorem Connected.triggerLed_others (h : Connected w r i x) (l : Led) (v : Byte) (other : r' ≠ r)
    (apart : j ≠ i) : w.SameRemote (Remote.triggerLed w r l.event [v]).2 r' j := by
  have observed : Connected (w.observe (.commanded r l.event [v])) r i x :=
    ⟨h.real, h.link, h.there⟩
  have trigger : Remote.triggerLed w r l.event [v] = Remote.storeLed (RealRemote.safeSendMsg
      (w.observe (.commanded r l.event [v])) r l.key l.type [v]) r l.event [v] := by
    rw [Remote.triggerLed, ← RealRemote.sendLed_eq]
    exact congrArg (fun w => Remote.storeLed w r l.event [v]) (if_pos h.real)
  have deeds := World.Deeds.of_acts
    (Remote.acts_triggerLed (w := w) (World.Scope.drives_single r) l.event [v])
  have json := deeds.json_remote (World.Scope.not_mem_single other)
  rw [trigger, observed.safeSendMsg_eq] at json ⊢
  obtain ⟨stored, same, -⟩ := Remote.storeLed_values (r := r) (w := {
    w.observe (.commanded r l.event [v]) with
    remoteLink := Function.update w.remoteLink r (some i)
    xbeeRemotes := w.xbeeRemotes.modify i fun x => x.safeSendMsg l.key l.type [v] }) l v
  refine ⟨?_, ?_, json, ?_, ?_⟩
  · exact congrFun (congrArg World.isReal same) r'
  · refine (congrFun (congrArg World.remoteLink same) r').trans ?_
    exact Function.update_of_ne other _ _
  · refine (congrArg (fun w => w.xbeeRemotes.map XBeeRemote.addr) same).trans ?_
    apply List.ext_getElem?
    intro m
    simp only [List.getElem?_map, List.getElem?_modify]
    cases w.xbeeRemotes[m]? with
    | none => rfl
    | some y => split <;> rfl
  · refine (congrArg (fun w => w.xbeeRemotes[j]?) same).trans ?_
    exact List.getElem?_modify_ne _ _ (Ne.symm apart)

/-- A remote without a message is passed over. -/
theorem World.tick_none (none : (w.tick i).1 = none) : w.tick i = (.none, w) := by
  unfold World.tick at none ⊢
  cases there : w.xbeeRemotes[i]? with
  | none => rfl
  | some x =>
      rw [there] at none
      dsimp only at none ⊢
      unfold XBeeRemote.tick at none ⊢
      split at none
      · obtain ⟨inside, rfl⟩ := List.getElem?_eq_some_iff.mp there
        simp
      · cases none

/-- How many messages wait. -/
def World.waiting (w : World) : Nat :=
  (w.xbeeRemotes.map fun x => x.safeSendMap.entries.length).sum

theorem World.waiting_eq_zero : w.waiting = 0 ↔ ∀ x ∈ w.xbeeRemotes, x.safeSendMap = ∅ := by
  rw [waiting, List.sum_eq_zero_iff_forall_eq_nat]
  constructor
  · intro none x member
    have entries := none _ (List.mem_map_of_mem member)
    cases map : x.safeSendMap with
    | mk l sorted =>
        rw [map] at entries
        obtain rfl := List.length_eq_zero_iff.mp entries
        rfl
  · intro none m member
    obtain ⟨x, inside, rfl⟩ := List.mem_map.mp member
    rw [none x inside]
    rfl

theorem XBeeRemote.tick_eq_none : x.tick.1 = none ↔ x.safeSendMap = ∅ := by
  rw [XBeeRemote.tick]
  cases map : x.safeSendMap with
  | mk l sorted =>
      cases l with
      | nil => exact iff_of_true rfl rfl
      | cons e rest => exact iff_of_false (Option.some_ne_none _) fun empty => by cases empty

/-- A message which is taken waits no longer. -/
theorem World.tick_waiting {msg : StdString} (ticked : w.tick i = (some msg, w')) :
    w'.waiting + 1 = w.waiting ∧ w'.json = w.json := by
  unfold World.tick at ticked
  split at ticked
  · cases ticked
  · rename_i x there
    obtain ⟨taken, rfl⟩ := Prod.mk.inj ticked
    refine ⟨?_, rfl⟩
    have fewer : x.tick.2.safeSendMap.entries.length + 1 = x.safeSendMap.entries.length := by
      have sorted := x.safeSendMap.sorted
      unfold XBeeRemote.tick at taken ⊢
      split at taken
      · cases taken
      · rename_i key msg' rest entries
        rw [entries] at sorted
        have later : ∀ e ∈ rest, e.1 ≠ key := fun e member =>
          ((List.pairwise_cons.mp sorted).1 e member).ne'
        simp only [entries, SortedMap.erase, Assoc.erase, List.length_cons]
        rw [List.filter_cons_of_neg (by simp), List.filter_eq_self.mpr (by simpa using later)]
    obtain ⟨inside, rfl⟩ := List.getElem?_eq_some_iff.mp there
    have before := congrArg (fun l : List XBeeRemote =>
      (l.map fun x => x.safeSendMap.entries.length).sum) (List.set_getElem_self inside)
    simp only [waiting, List.map_set, List.sum_set, List.length_map, if_pos inside] at before ⊢
    omega

theorem World.tick_addrs {msg : StdString} (ticked : w.tick i = (some msg, w')) :
    w'.xbeeRemotes.map XBeeRemote.addr = w.xbeeRemotes.map XBeeRemote.addr := by
  unfold World.tick at ticked
  split at ticked
  · cases ticked
  · rename_i x there
    obtain ⟨-, rfl⟩ := Prod.mk.inj ticked
    refine map_set_of_eq there ?_
    unfold XBeeRemote.tick
    split <;> rfl

theorem World.tick_others {msg : StdString} (ticked : w.tick i = (some msg, w')) (apart : j ≠ i) :
    w.SameRemote w' r' j := by
  have addrs := World.tick_addrs ticked
  unfold World.tick at ticked
  split at ticked
  · cases ticked
  · obtain ⟨-, rfl⟩ := Prod.mk.inj ticked
    exact ⟨rfl, rfl, rfl, addrs, List.getElem?_set_ne (Ne.symm apart)⟩

end Remotes

/-! ## The message which is taken -/

namespace Firmware

/-- A firmware whose LEDs have these intensities and which waits for a message. -/
def lit (levels : Fin 3 → Byte) : Firmware := { ledStatus := levels }

theorem receiving_lit (levels : Fin 3 → Byte) : (lit levels).Receiving [] := ⟨.empty rfl, rfl⟩

end Firmware

section Message

variable {w w' : World} {r i : Nat} {x : XBeeRemote} {waiting : Led → Option Byte}

/-- A message which leaves a remote sets LEDs, and the rest goes on as if it had arrived. -/
theorem LedState.Tracks.tick_some {levels : Fin 3 → Byte} {msg : StdString}
    (h : Tracks r i ⟨w, .lit levels⟩ x waiting) (ticked : w.tick i = (some msg, w')) :
    ∃ c : Command, msg = c.message ∧ (255 : Byte) ∉ c.data ∧ c.data.length = 1 ∧
      ∃ x' waiting', Tracks r i ⟨w', .lit fun k => (c.level? k).getD (levels k)⟩ x' waiting' := by
  have taken : x.tick.1 = some msg := by
    have first := congrArg Prod.fst ticked
    rwa [World.tick, h.there] at first
  unfold XBeeRemote.tick at taken
  split at taken
  · cases taken
  · rename_i key msg' rest entries
    obtain rfl := Option.some.inj taken
    have head : x.safeSendMap.find? key = some msg' := by simp [SortedMap.find?, entries]
    obtain ⟨l, rfl⟩ := h.keys key (head ▸ Option.some_ne_none msg')
    have message := h.messages l
    rw [head] at message
    obtain ⟨v, found, rfl⟩ := Option.map_eq_some_iff.mp message.symm
    have quiet : (255 : Byte) ∉ (l.command v).data := by
      rw [Led.data_command, List.mem_singleton]
      exact (h.intensities l v found).symm
    obtain ⟨⟨calls, sent, fw'⟩, run, received, leds⟩ := ends_total.mp
      (Firmware.loop_message h.receiving (l.command v) quiet (fun _ => true) 0)
    have arrived := h.tick (fun _ => true) 0
    rw [LedState.step, ticked] at arrived
    dsimp only at arrived run
    rw [run] at arrived
    obtain ⟨x', waiting', tracks⟩ := arrived
    refine ⟨l.command v, rfl, quiet, by rw [Led.data_command]; rfl, x', waiting', ?_⟩
    exact tracks.congr ⟨rfl, rfl, rfl, rfl, rfl⟩ (Firmware.receiving_lit _) leds.symm

end Message

namespace Fleet

variable {w w' : World}

/-- The remotes without a message are passed over. -/
theorem standardRunTick_ends (w : World) (is : List Nat) :
    (standardRunTick w is = (none, w) ∧ ∀ i ∈ is, (w.tick i).1 = none) ∨
      ∃ i ∈ is, ∃ msg w', w.tick i = (some msg, w') ∧
        standardRunTick w is = (some (i, msg), w') := by
  induction is with
  | nil => exact .inl ⟨rfl, by simp⟩
  | cons i rest ih =>
      rw [standardRunTick]
      rcases ticked : w.tick i with ⟨_ | msg, w'⟩
      · have first : (w.tick i).1 = none := congrArg Prod.fst ticked
        obtain rfl : w = w' := congrArg Prod.snd ((World.tick_none first).symm.trans ticked)
        rcases ih with ⟨none, others⟩ | ⟨j, inside, found⟩
        · exact .inl ⟨none, List.forall_mem_cons.mpr ⟨first, others⟩⟩
        · exact .inr ⟨j, List.mem_cons_of_mem i inside, found⟩
      · exact .inr ⟨i, List.mem_cons_self, msg, w', ticked, rfl⟩

/-- What `sendRemoteTX` writes is a frame. -/
theorem sendRemoteTX_room {id : Option Byte} {port : TxPort} {dest : List Byte} {cmd : StdString}
    (eight : dest.length = 8) (short : cmd.length ≤ 128) (unused : id ≠ none)
    (cts : port.cts = true) (room : 18 + cmd.length ≤ port.free) :
    ∃ c : Byte, XBeeFrame.Fits ([frameTransmit, c] ++ dest ++ [0xFF, 0xFE, 0, 0] ++ cmd).length ∧
      sendRemoteTX id port dest cmd =
        some (encode ([frameTransmit, c] ++ dest ++ [0xFF, 0xFE, 0, 0] ++ cmd)) := by
  obtain ⟨c, rfl⟩ := Option.ne_none_iff_exists'.mp unused
  have header : ([frameTransmit, c] ++ dest ++ [0xFF, 0xFE, 0, 0]).length = 14 := by simp [eight]
  have fits : XBeeFrame.Fits ([frameTransmit, c] ++ dest ++ [0xFF, 0xFE, 0, 0] ++ cmd).length := by
    rw [List.length_append, header]
    exact ⟨by omega, by simp only [maxFrameLen]; omega⟩
  obtain ⟨bytes, written⟩ : ∃ bytes,
      frameWrite port ([frameTransmit, c] ++ dest ++ [0xFF, 0xFE, 0, 0]) cmd = .ok bytes := by
    have small : cmd.length % 65536 = cmd.length := Nat.mod_eq_of_lt (by omega)
    simp only [frameWrite, header, small, cts]
    rw [if_neg fun empty => by omega, if_neg fun full => by simp at full; omega]
    exact ⟨_, rfl⟩
  refine ⟨c, fits, ?_⟩
  rw [sendRemoteTX, List.take_of_length_le eight.le, written, frameWrite_fits written fits]
  rfl

/-- A frame reaches the remote it names and no other. -/
theorem broughtTo_frame {dest addr : List Byte} (eight : dest.length = 8) (c : Byte)
    (cmd : StdString) : broughtTo addr ([frameTransmit, c] ++ dest ++ [0xFF, 0xFE, 0, 0] ++ cmd) =
      if dest = addr then cmd else [] := by
  have named : (([frameTransmit, c] ++ dest ++ [0xFF, 0xFE, 0, 0] ++ cmd).drop 2).take 8 =
      dest := by
    simp [eight]
  have carried : ([frameTransmit, c] ++ dest ++ [0xFF, 0xFE, 0, 0] ++ cmd).drop 14 = cmd := by
    rw [List.append_assoc, List.append_assoc]
    simp [List.drop_append, eight]
  rw [broughtTo, named, carried]
  simp

/-- The models of the first `n` remotes differ, and so do their addresses. -/
structure Layout.Proper (layout : Layout) (n : Nat) : Prop where
  models : ∀ i < n, ∀ j < n, layout.model i = layout.model j → i = j
  addresses : ∀ i < n, ∀ j < n, layout.addr i = layout.addr j → i = j
  eight : ∀ i < n, (layout.addr i).length = 8

/-- The `i`-th remote is as if everything under way to it had arrived at once. -/
def Follows (layout : Layout) (s : Fleet) (i : Nat) : Prop :=
  ∃ levels x waiting, (s.fw i).Heads (s.coming layout i) levels ∧
    LedState.Tracks (layout.model i) i ⟨s.world, .lit levels⟩ x waiting

/-- The invariant of a fleet with `n` remotes. -/
structure Tracks (layout : Layout) (n : Nat) (s : Fleet) : Prop where
  size : s.world.xbeeRemotes.length = n
  addresses : ∀ i x, s.world.xbeeRemotes[i]? = some x → x.addr = layout.addr i
  /-- What is on the wire are whole frames. -/
  whole : (scanner.feed s.radio s.wire).1 = .waitStart
  follows : ∀ i < n, Follows layout s i

variable {layout : Layout} {n : Nat} {s : Fleet}

theorem addresses_congr {w w' : World} {addr : Nat → List Byte}
    (same : w'.xbeeRemotes.map XBeeRemote.addr = w.xbeeRemotes.map XBeeRemote.addr)
    (h : ∀ i x, w.xbeeRemotes[i]? = some x → x.addr = addr i) :
    ∀ i x, w'.xbeeRemotes[i]? = some x → x.addr = addr i := by
  intro i x there
  have slot := congrArg (·[i]?) same
  simp only [List.getElem?_map, there, Option.map_some] at slot
  obtain ⟨y, before, addr⟩ := Option.map_eq_some_iff.mp slot.symm
  exact addr ▸ h i y before

theorem Tracks.set (h : Tracks layout n s) (proper : layout.Proper n) {i : Nat} {l : Led} {v : Byte}
    {intensity : v ≠ 255} (careful : s.Careful n (.set i l v intensity)) :
    Tracks layout n { s with
      world := (Remote.triggerLed s.world (layout.model i) l.event [v]).2 } := by
  obtain ⟨inside, careful⟩ := careful
  obtain ⟨levels, x, waiting, heads, tracks⟩ := h.follows i inside
  have addrs := (tracks.toConnected.triggerLed_others l v (Nat.succ_ne_self _)
    (Nat.succ_ne_self i)).addrs
  refine ⟨?_, addresses_congr addrs h.addresses, h.whole, fun j small => ?_⟩
  · have length := congrArg List.length addrs
    rw [List.length_map, List.length_map] at length
    exact length.trans h.size
  · by_cases own : j = i
    · subst own
      exact ⟨levels, _, _, heads, tracks.set l v intensity careful⟩
    · obtain ⟨levels', y, waiting', heads', tracks'⟩ := h.follows j small
      have apart : layout.model j ≠ layout.model i :=
        fun same => own (proper.models j small i inside same)
      refine ⟨levels', y, waiting', heads', ?_⟩
      exact tracks'.congr (tracks.toConnected.triggerLed_others l v apart own)
        (Firmware.receiving_lit _) rfl

/-- More bytes are on their way to a remote. -/
theorem coming_append (layout : Layout) {bytes frame : List Byte}
    (whole : (scanner.feed s.radio s.wire).1 = .waitStart)
    (read : scanner.feed .waitStart bytes = (.waitStart, [frame])) (w : World) (i : Nat) :
    coming layout { s with world := w, wire := s.wire ++ bytes } i =
      s.coming layout i ++ broughtTo (layout.addr i) frame := by
  simp only [coming]
  rw [Scanner.feed_append, whole, read, List.flatMap_append, List.append_assoc]
  simp

/-- A tick which sends the command `c` to the `i`-th remote. -/
structure Sends (layout : Layout) (s : Fleet) (i : Nat) (c : Command) (s' : Fleet) : Prop where
  taken : s.world.tick i = (some c.message, s'.world)
  quiet : (255 : Byte) ∉ c.data
  /-- The rest goes on as if the command had arrived. -/
  follows : ∃ levels x waiting, (s.fw i).Heads (s.coming layout i) levels ∧
    LedState.Tracks (layout.model i) i
      ⟨s'.world, .lit fun k => (c.level? k).getD (levels k)⟩ x waiting
  written : ∃ frame, (encode frame).length = 21 ∧
    scanner.feed .waitStart (encode frame) = (.waitStart, [frame]) ∧
    s' = { s with world := s'.world, wire := s.wire ++ encode frame } ∧
    ∀ j, broughtTo (layout.addr j) frame = if layout.addr i = layout.addr j then c.message else []

/-- What a tick does: nothing waits, or a message is sent. -/
theorem Tracks.tick_cases (h : Tracks layout n s) (proper : layout.Proper n) {id : Option Byte}
    {port : TxPort} (careful : s.Careful n (.tick id port)) :
    (s.world.waiting = 0 ∧ s.step layout (.tick id port) = .ok s) ∨
      ∃ i < n, ∃ c s', Sends layout s i c s' ∧ s.step layout (.tick id port) = .ok s' := by
  rw [step]
  rcases standardRunTick_ends s.world (List.range s.world.xbeeRemotes.length) with
    ⟨none, all⟩ | ⟨i, member, msg, w', ticked, found⟩
  · refine .inl ⟨World.waiting_eq_zero.mpr fun x inside => ?_, by rw [none]; rfl⟩
    obtain ⟨i, small, rfl⟩ := List.mem_iff_getElem.mp inside
    have first := all i (List.mem_range.mpr small)
    rw [World.tick, List.getElem?_eq_getElem small] at first
    exact XBeeRemote.tick_eq_none.mp first
  · have inside : i < n := h.size ▸ List.mem_range.mp member
    obtain ⟨levels, x, waiting, heads, tracks⟩ := h.follows i inside
    obtain ⟨c, rfl, quiet, single, x', waiting', tracks'⟩ := tracks.tick_some ticked
    have addrs := World.tick_addrs ticked
    have there := tracks'.toConnected.there
    dsimp only at there
    have addr : x'.addr = layout.addr i := addresses_congr addrs h.addresses i x' there
    have eight : x'.addr.length = 8 := addr ▸ proper.eight i inside
    have three : c.message.length = 3 := by
      rw [Command.message_eq, List.length_append, Command.body, List.length_cons, single]
      rfl
    obtain ⟨unused, cts, room⟩ := careful ⟨i, by rw [ticked]; exact Option.some_ne_none _⟩
    have space : 18 + (c.message.length : Int) ≤ port.free := by
      rw [three]
      exact room
    obtain ⟨id', fits, written⟩ :=
      sendRemoteTX_room eight (three.trans_le (by decide)) unused cts space
    obtain ⟨waits, read, -⟩ := recognises_encode fits .waitStart rfl
    refine .inr ⟨i, inside, c, { s with
      world := w'
      wire := s.wire ++
        encode ([frameTransmit, id'] ++ x'.addr ++ [0xFF, 0xFE, 0, 0] ++ c.message) },
      ⟨ticked, quiet, ⟨levels, x', waiting', heads, tracks'⟩, _, ?_, Prod.ext waits read, rfl,
        fun j => addr ▸ broughtTo_frame eight id' c.message⟩, ?_⟩
    · simp [encode, be16, eight, three]
    · rw [found]
      simp only [there, Option.bind_some, written, Option.getD_some]
      rfl

theorem Tracks.sends (h : Tracks layout n s) (proper : layout.Proper n) {i : Nat} (inside : i < n)
    {c : Command} {s' : Fleet} (sends : Sends layout s i c s') : Tracks layout n s' := by
  obtain ⟨levels, x, waiting, heads, tracks⟩ := sends.follows
  obtain ⟨frame, -, read, same, brought⟩ := sends.written
  have addrs := World.tick_addrs sends.taken
  have coming := fun j => coming_append layout h.whole read s'.world j
  refine ⟨?_, addresses_congr addrs h.addresses, ?_, fun j small => ?_⟩
  · have length := congrArg List.length addrs
    rw [List.length_map, List.length_map] at length
    exact length.trans h.size
  · rw [same]
    dsimp only
    rw [Scanner.feed_append, h.whole, read]
  · by_cases own : j = i
    · subst own
      refine ⟨_, x, waiting, ?_, tracks⟩
      rw [same, coming, brought, if_pos rfl]
      exact heads.append sends.quiet
    · obtain ⟨levels', y, others, heads', beside⟩ := h.follows j small
      have apart : layout.addr i ≠ layout.addr j :=
        fun equal => own (proper.addresses i inside j small equal).symm
      refine ⟨levels', y, others, ?_, ?_⟩
      · rw [same, coming, brought, if_neg apart, List.append_nil]
        exact heads'
      · exact beside.congr (World.tick_others sends.taken own) (Firmware.receiving_lit _) rfl

theorem Tracks.tick (h : Tracks layout n s) (proper : layout.Proper n) {id : Option Byte}
    {port : TxPort} (careful : s.Careful n (.tick id port)) :
    Ends (fun _ => False) (s.step layout (.tick id port)) (Tracks layout n) := by
  rcases h.tick_cases proper careful with ⟨-, same⟩ | ⟨i, inside, c, s', sends, sent⟩
  · rw [same]
    exact h
  · rw [sent]
    exact h.sends proper inside sends

theorem Tracks.radio (h : Tracks layout n s) (m : Nat) :
    Ends (fun _ => False) (s.step layout (.radio m)) (Tracks layout n) := by
  have cut : scanner.feed s.radio s.wire = _ :=
    (congrArg (scanner.feed s.radio) (List.take_append_drop m s.wire).symm).trans
      (scanner.feed_append s.radio (s.wire.take m) (s.wire.drop m))
  have whole := h.whole
  rw [cut] at whole
  refine ⟨h.size, h.addresses, whole, fun i small => ?_⟩
  obtain ⟨levels, x, waiting, heads, tracks⟩ := h.follows i small
  refine ⟨levels, x, waiting, ?_, tracks⟩
  rw [coming, cut, List.flatMap_append, ← List.append_assoc] at heads
  exact heads

theorem Tracks.turn (h : Tracks layout n s) {i : Nat} (inside : i < n) (m : Nat)
    (buttonPin : Fin 5 → Bool) (adc : Fin 1024) :
    Ends (fun _ => False) (s.step layout (.turn i m buttonPin adc)) (Tracks layout n) := by
  obtain ⟨levels, x, waiting, heads, tracks⟩ := h.follows i inside
  rw [coming, ← List.take_append_drop m (s.air i), List.append_assoc] at heads
  apply (heads.turn buttonPin adc).bind
  rintro ⟨calls, sent, fw'⟩ heads'
  refine ⟨h.size, h.addresses, h.whole, fun j small => ?_⟩
  by_cases own : j = i
  · subst own
    refine ⟨levels, x, waiting, ?_, tracks⟩
    simp only [coming, Function.update_self]
    exact heads'
  · obtain ⟨levels', y, others, heads'', tracks'⟩ := h.follows j small
    refine ⟨levels', y, others, ?_, tracks'⟩
    simp only [coming, Function.update_of_ne own]
    exact heads''

/-- Step lemma: no step fails, and the invariant is kept. -/
theorem Tracks.step (h : Tracks layout n s) (proper : layout.Proper n) {e : Event}
    (careful : s.Careful n e) : Ends (fun _ => False) (s.step layout e) (Tracks layout n) := by
  cases e with
  | set i l v intensity => exact h.set proper careful
  | tick id port => exact h.tick proper careful
  | radio m => exact h.radio m
  | turn i m buttonPin adc => exact h.turn careful m buttonPin adc

/-- The models and the remotes agree on the LEDs, and nothing is under way. -/
structure Synchronous (layout : Layout) (n : Nat) (s : Fleet) : Prop where
  size : s.world.xbeeRemotes.length = n
  addresses : ∀ i x, s.world.xbeeRemotes[i]? = some x → x.addr = layout.addr i
  wire : s.radio = .waitStart ∧ s.wire = []
  air : ∀ i < n, s.air i = []
  remotes : ∀ i < n, LedState.Synchronous (layout.model i) i ⟨s.world, s.fw i⟩

theorem Synchronous.tracks (h : Synchronous layout n s) : Tracks layout n s := by
  obtain ⟨radio, wire⟩ := h.wire
  refine ⟨h.size, h.addresses, by rw [radio, wire]; rfl, fun i inside => ?_⟩
  obtain ⟨x, waiting, tracks⟩ := (h.remotes i inside).tracks
  refine ⟨(s.fw i).ledStatus, x, waiting, ?_, ?_⟩
  · rw [coming, h.air i inside, radio, wire]
    exact .start (h.remotes i inside).receiving
  · exact tracks.congr ⟨rfl, rfl, rfl, rfl, rfl⟩ (Firmware.receiving_lit _) rfl

/-- When nothing waits for a remote and nothing is under way to it, its LEDs are what its
    model says. -/
theorem Tracks.shown (h : Tracks layout n s) {i : Nat} (inside : i < n)
    (empty : ∃ x, s.world.xbeeRemotes[i]? = some x ∧ x.safeSendMap = ∅)
    (arrived : s.coming layout i = []) (k : Fin 3) :
    s.world.get (.remote (layout.model i)) (Led.name k) =
      some (.double ((s.fw i).ledStatus k).val) := by
  obtain ⟨y, there, empty⟩ := empty
  obtain ⟨levels, x, waiting, heads, follows⟩ := h.follows i inside
  rw [arrived] at heads
  cases follows.there.symm.trans there
  have none : ∀ l, waiting l = none := by
    intro l
    have message := follows.messages l
    rw [empty] at message
    exact Option.map_eq_none_iff.mp message.symm
  have number := follows.numbers k
  rw [none, none] at number
  rw [heads.done]
  exact number

theorem Synchronous.run (start : Synchronous layout n s) (proper : layout.Proper n)
    {events : List Event} (careful : Runs.Throughout (step layout) (Careful n) s events) :
    Ends (fun _ => False) (events.foldlM (step layout) s) (Tracks layout n) :=
  careful.ends start.tracks fun _ _ inside condition => inside.step proper condition

/-- However the settings of many remotes, the ticks of the daemon, the reading of the radio
    and the main loops of the remotes follow each other: no firmware fails, and whenever
    nothing waits for a remote and nothing is under way to it, its LEDs are what its model
    says. -/
theorem fleet_leds_converge (proper : layout.Proper n) (start : Synchronous layout n s)
    (events : List Event) (careful : Runs.Throughout (step layout) (Careful n) s events) :
    Ends (fun _ => False) (events.foldlM (step layout) s) fun s' => ∀ i < n,
      (∃ x, s'.world.xbeeRemotes[i]? = some x ∧ x.safeSendMap = ∅) → s'.coming layout i = [] →
      ∀ k, s'.world.get (.remote (layout.model i)) (Led.name k) =
        some (.double ((s'.fw i).ledStatus k).val) :=
  (start.run proper careful).mono fun _ tracks _ inside empty arrived k =>
    tracks.shown inside empty arrived k

/-- Two remotes. -/
def duo : Layout := ⟨id, fun i => [0, 0x13, 0xA2, 0, 0x40, 0, 0, Fin.ofNat 256 i]⟩

/-- Their LEDs are off, in the models and at the remotes. -/
def dark : Fleet where
  world := {
    json := fun _ => [("LED1", .double 0), ("LED2", .double 0), ("LED3", .double 0)]
    remotes := [0, 1]
    isReal := fun _ => true
    remoteLink := fun r => some r
    xbeeRemotes := [{ addr := duo.addr 0 }, { addr := duo.addr 1 }] }
  fw := fun _ => {}

theorem proper_duo : duo.Proper 2 := by
  refine ⟨fun i _ j _ same => same, fun i small j small' same => ?_, fun i _ => rfl⟩
  interval_cases i <;> interval_cases j <;> first | rfl | exact absurd same (by decide)

theorem synchronous_dark : Synchronous duo 2 dark := by
  refine ⟨rfl, fun i x there => ?_, ⟨rfl, rfl⟩, fun i _ => rfl, fun i small => ?_⟩
  · match i with
    | 0 | 1 =>
        cases there
        rfl
    | i + 2 => cases there
  · interval_cases i <;>
      exact ⟨⟨_, ⟨rfl, rfl, rfl⟩, rfl⟩, ⟨.empty rfl, rfl⟩, fun k => by fin_cases k <;> rfl⟩

/-- LEDs of both remotes are set; the frames are read in pieces, and so are the messages. -/
def crossing : List Event :=
  let port : TxPort := { free := 64, used := 0 }
  let awake : Fin 5 → Bool := fun _ => true
  [.set 0 .all 7 (by decide), .set 1 (.one 2) 9 (by decide), .tick (some 1) port,
    .tick (some 2) port, .radio 25, .turn 0 2 awake 0, .radio 17, .turn 1 3 awake 0,
    .turn 0 1 awake 0]

theorem careful_crossing : Runs.Throughout (step duo) (Careful 2) dark crossing := by
  have ready : ∀ id : Byte, some id ≠ none ∧ true = true ∧ (21 : Int) ≤ 64 :=
    fun id => ⟨Option.some_ne_none id, rfl, by decide⟩
  refine ⟨⟨Nat.zero_lt_two, fun x there k msg found => ?_⟩, fun _ _ =>
    ⟨⟨Nat.one_lt_two, trivial⟩, fun _ _ => ⟨fun _ => ready 1, fun _ _ => ⟨fun _ => ready 2,
      fun _ _ => ⟨trivial, fun _ _ => ⟨Nat.zero_lt_two, fun _ _ => ⟨trivial, fun _ _ =>
        ⟨Nat.one_lt_two, fun _ _ => ⟨Nat.zero_lt_two, fun _ _ => trivial⟩⟩⟩⟩⟩⟩⟩⟩⟩
  cases there
  cases found

theorem fleet_leds_converge_crossing :
    Ends (fun _ => False) (crossing.foldlM (step duo) dark) fun s' => ∀ i < 2,
      (∃ x, s'.world.xbeeRemotes[i]? = some x ∧ x.safeSendMap = ∅) → s'.coming duo i = [] →
      ∀ k, s'.world.get (.remote (duo.model i)) (Led.name k) =
        some (.double ((s'.fw i).ledStatus k).val) :=
  fleet_leds_converge proper_duo synchronous_dark crossing careful_crossing

/-- Both messages have arrived. -/
example : Ends (fun _ => False) (crossing.foldlM (step duo) dark) fun s' =>
    s'.coming duo 0 = [] ∧ s'.coming duo 1 = [] ∧ (s'.fw 0).ledStatus 2 = 7 ∧
      (s'.fw 1).ledStatus 2 = 9 :=
  ⟨rfl, rfl, rfl, rfl⟩

/-! ## Coming to rest -/

/-- What ticks leave of a fleet. -/
structure Drained (layout : Layout) (n : Nat) (s s' : Fleet) : Prop where
  tracks : Tracks layout n s'
  empty : s'.world.waiting = 0
  json : s'.world.json = s.world.json
  wire : s'.wire.length ≤ s.wire.length + 21 * s.world.waiting
  coming : ∀ i, (s'.coming layout i).length ≤ (s.coming layout i).length + 3 * s.world.waiting

theorem Sends.coming_le {i : Nat} {c : Command} {s' : Fleet} (h : Tracks layout n s)
    (sends : Sends layout s i c s') (j : Nat) :
    (s'.coming layout j).length ≤ (s.coming layout j).length + 3 := by
  obtain ⟨frame, -, read, same, brought⟩ := sends.written
  have bound := c.length_body_le
  rw [same, coming_append layout h.whole read, List.length_append, brought]
  split
  · rw [Command.message_eq, List.length_append, List.length_singleton]
    omega
  · simp

/-- As many ticks as there are messages send all of them. -/
theorem Tracks.ticks (h : Tracks layout n s) (proper : layout.Proper n) {id : Option Byte}
    {port : TxPort} (ready : id ≠ none ∧ port.cts = true ∧ 21 ≤ port.free) {k : Nat}
    (enough : s.world.waiting ≤ k) :
    Ends (fun _ => False) ((List.replicate k (Event.tick id port)).foldlM (Fleet.step layout) s)
      (Drained layout n s) := by
  induction k generalizing s with
  | zero =>
      exact ⟨h, Nat.le_zero.mp enough, rfl, Nat.le_add_right _ _, fun _ => Nat.le_add_right _ _⟩
  | succ k ih =>
      rw [List.replicate_succ, List.foldlM_cons]
      rcases h.tick_cases proper (fun _ => ready) with
        ⟨none, same⟩ | ⟨i, inside, c, s₁, sends, sent⟩
      · rw [same]
        exact ih h (none ▸ Nat.zero_le k)
      · rw [sent]
        obtain ⟨fewer, json⟩ := World.tick_waiting sends.taken
        obtain ⟨frame, length, -, same, -⟩ := sends.written
        have wire : s₁.wire.length = s.wire.length + 21 := by
          rw [same, List.length_append, length]
        apply (ih (h.sends proper inside sends) (by omega)).mono
        intro s' drained
        refine ⟨drained.tracks, drained.empty, drained.json.trans json, ?_, fun j => ?_⟩
        · have := drained.wire
          omega
        · have := drained.coming j
          have := sends.coming_le h j
          omega

/-- The radio reads everything. -/
theorem Tracks.radio_all (h : Tracks layout n s) {m : Nat} (all : s.wire.length ≤ m) :
    Ends (fun _ => False) (s.step layout (.radio m)) fun s' => Tracks layout n s' ∧
      s'.world = s.world ∧ s'.wire = [] ∧ ∀ i, s'.air i = s.coming layout i := by
  have kept := ends_total.mp (h.radio m)
  obtain ⟨s', read, tracks⟩ := kept
  rw [read]
  obtain rfl := Except.ok.inj read
  refine ⟨tracks, rfl, List.drop_of_length_le all, fun i => ?_⟩
  rw [coming, List.take_of_length_le all]

/-- Every firmware reads what has been brought to it. -/
theorem Tracks.turns (h : Tracks layout n s) {m : Nat} {is : List Nat}
    (inside : ∀ i ∈ is, i < n ∧ (s.air i).length ≤ m) (buttonPin : Fin 5 → Bool) (adc : Fin 1024) :
    Ends (fun _ => False)
      ((is.map fun i => Event.turn i m buttonPin adc).foldlM (Fleet.step layout) s)
      fun s' => Tracks layout n s' ∧ s'.world = s.world ∧ s'.wire = s.wire ∧
        ∀ i, (i ∈ is → s'.air i = []) ∧ (s.air i = [] → s'.air i = []) := by
  induction is generalizing s with
  | nil => exact ⟨h, rfl, rfl, fun i => ⟨fun member => (by cases member), id⟩⟩
  | cons i rest ih =>
      obtain ⟨⟨first, all⟩, others⟩ := List.forall_mem_cons.mp inside
      rw [List.map_cons, List.foldlM_cons]
      obtain ⟨s₁, turned, tracks⟩ := ends_total.mp (h.turn first m buttonPin adc)
      rw [turned]
      obtain ⟨⟨calls, sent, fw'⟩, -, same⟩ := bind_eq_ok.mp turned
      obtain rfl := Except.ok.inj same
      have read : (s.air i).drop m = [] := List.drop_of_length_le all
      have shorter : ∀ j ∈ rest, j < n ∧
          (Function.update s.air i ((s.air i).drop m) j).length ≤ m := by
        intro j member
        refine ⟨(others j member).1, ?_⟩
        by_cases own : j = i
        · subst own
          rw [Function.update_self, read]
          exact Nat.zero_le m
        · rw [Function.update_of_ne own]
          exact (others j member).2
      apply (ih tracks shorter).mono
      rintro s' ⟨tracks', world, wire, empty⟩
      refine ⟨tracks', world, wire, fun j => ⟨fun member => ?_, fun before => ?_⟩⟩
      · rcases List.mem_cons.mp member with rfl | later
        · exact (empty j).2 ((Function.update_self ..).trans read)
        · exact (empty j).1 later
      · refine (empty j).2 ?_
        by_cases own : j = i
        · subst own
          exact (Function.update_self ..).trans read
        · exact (Function.update_of_ne own ..).trans before

/-- Some ticks, after which the radio reads and every remote goes through its main loop. -/
def settling (n k m : Nat) (id : Option Byte) (port : TxPort) (buttonPin : Fin 5 → Bool)
    (adc : Fin 1024) : List Event :=
  List.replicate k (.tick id port) ++
    .radio m :: (List.range n).map fun i => .turn i m buttonPin adc

/-- LEDs of both remotes are set. One message is on its way, the other one waits. -/
def parting : List Event :=
  [.set 0 .all 7 (by decide), .set 1 (.one 2) 9 (by decide),
    .tick (some 1) { free := 64, used := 0 }, .radio 10]

theorem careful_parting : Runs.Throughout (step duo) (Careful 2) dark parting := by
  refine ⟨⟨Nat.zero_lt_two, fun x there k msg found => ?_⟩, fun _ _ => ⟨⟨Nat.one_lt_two, trivial⟩,
    fun _ _ => ⟨fun _ => ⟨Option.some_ne_none 1, rfl, by decide⟩, fun _ _ =>
      ⟨trivial, fun _ _ => trivial⟩⟩⟩⟩
  cases there
  cases found

/-- One message waits, and eleven bytes of the other one are on the wire. -/
example : Ends (fun _ => False) (parting.foldlM (step duo) dark) fun s' =>
    s'.world.waiting = 1 ∧ s'.wire.length = 11 :=
  ⟨rfl, rfl⟩

end Fleet

end VoxPopuli
