import VoxPopuli.Arduino.Bounds
import VoxPopuli.Lib.Runs
import VoxPopuli.Model.NetworkModel

/-! # LEDs from the model to the firmware

The setting of an LED is stored at once and waits for the radio under a key of its own.
The message for all LEDs leaves before those for single ones, whatever the order they
were set in; the LEDs of the remote end up as the model has them unless all were set
while an older message for one of them was still waiting.
-/

namespace VoxPopuli

/-- What is set: all LEDs or one of them. -/
inductive Led where
  | all
  | one (i : Fin 3)
  deriving DecidableEq, Repr

namespace Led

def event : Led → FTriggerEvent
  | all => .led
  | one 0 => .led1
  | one 1 => .led2
  | one 2 => .led3

/-- The key under which the message waits. -/
def key : Led → StdString
  | all => "L"
  | one 0 => "L1"
  | one 1 => "L2"
  | one 2 => "L3"

def type : Led → XBEE_MSG_TYPE
  | all => .LED_INTENSITY
  | one 0 => .LED1_INTENSITY
  | one 1 => .LED2_INTENSITY
  | one 2 => .LED3_INTENSITY

def command (v : Byte) : Led → Command
  | all => .led v
  | one 0 => .led1 v
  | one 1 => .led2 v
  | one 2 => .led3 v

/-- The name under which a remote stores an LED. -/
def name : Fin 3 → QString
  | 0 => "LED1"
  | 1 => "LED2"
  | 2 => "LED3"

/-- The setting reaches an LED. -/
def Covers (l : Led) (i : Fin 3) : Prop := l = all ∨ l = one i

instance (l : Led) (i : Fin 3) : Decidable (l.Covers i) := inferInstanceAs (Decidable (_ ∨ _))

theorem not_covers {i j : Fin 3} (other : i ≠ j) : ¬(one j).Covers i := by
  rintro (all | same)
  · cases all
  · exact other (one.inj same).symm

theorem key_injective : Function.Injective key := by
  intro l l' same
  cases l with
  | all =>
      cases l' with
      | all => rfl
      | one i => fin_cases i <;> exact absurd same (by decide)
  | one i =>
      cases l' with
      | all => fin_cases i <;> exact absurd same (by decide)
      | one i' => fin_cases i <;> fin_cases i' <;> first | rfl | exact absurd same (by decide)

/-- The message for all LEDs is the first to leave. -/
theorem key_all_lt (i : Fin 3) : key all < key (one i) := by
  fin_cases i <;> decide

theorem name_injective : Function.Injective name := by decide

theorem level?_command (l : Led) (v : Byte) (i : Fin 3) :
    (l.command v).level? i = if l.Covers i then some v else none := by
  cases l with
  | all => simp [command, Command.level?, Covers]
  | one j => fin_cases j <;> fin_cases i <;> rfl

theorem data_command (l : Led) (v : Byte) : (l.command v).data = [v] := by
  cases l with
  | all => rfl
  | one j => fin_cases j <;> rfl

theorem message_command (l : Led) (v : Byte) :
    (l.command v).message = XBeeRemote.prepareMsg l.type [v] := by
  cases l with
  | all => rfl
  | one j => fin_cases j <;> rfl

theorem message_injective (l : Led) {v v' : Byte}
    (same : (l.command v).message = (l.command v').message) : v = v' := by
  rw [message_command, message_command] at same
  simpa [XBeeRemote.prepareMsg, HexData.strData] using same

end Led

namespace World

variable {w : World}

/-- A number of a remote is stored, and nothing else of the remote changes. -/
theorem setNumber_remote (r : Nat) (name : QString) (value : ℚ) :
    ∃ json, (w.setNumber (.remote r) name value).2 = { w with json := json } ∧
      ∀ k, (json (.remote r)).value k =
        if k = name then some (.double value) else (w.json (.remote r)).value k := by
  rw [setNumber, assign]
  split
  · rename_i same
    refine ⟨w.json, rfl, fun k => ?_⟩
    split
    · rename_i own
      subst own
      rw [get] at same
      cases stored : (w.json (.remote r)).value k with
      | none =>
          rw [stored] at same
          cases same
      | some v =>
          rw [stored] at same
          cases v with
          | double d =>
              have equal : d = value := by simpa using same
              rw [equal]
          | _ => cases same
    · rfl
  · obtain ⟨json, same, others⟩ := mirror_frame (w.putJson (.remote r) name (.double value))
      (.remote r) (NodeRef.remote r).ancestors
    refine ⟨json, same, fun k => ?_⟩
    rw [others _ (by simp [NodeRef.ancestors])]
    by_cases own : k = name
    · simp [putJson, setJson, own]
    · simp [putJson, setJson, own]

end World

/-! ## Setting an LED -/

/-- A real remote which has or finds its place on the radio. -/
structure Connected (w : World) (r i : Nat) (x : XBeeRemote) : Prop where
  real : w.isReal r = true
  link : (w.remoteLink r).or
    (w.xbeeRemotes.findIdx? fun x => intToHexStr x.addr = RemoteList.macOf w r) = some i
  there : w.xbeeRemotes[i]? = some x

variable {w : World} {r i : Nat} {x : XBeeRemote}

theorem HexData.toInt_singleton (v : Byte) : HexData.toInt [v] = v.val := by
  have small : v.val % 2 ^ 32 = v.val := Nat.mod_eq_of_lt (by omega)
  simpa [HexData.toInt] using small

/-- The message waits at the radio, and the way there is known from now on. -/
theorem Connected.safeSendMsg (h : Connected w r i x) (key : StdString) (type : XBEE_MSG_TYPE)
    (data : HexData) :
    ∃ link xs, RealRemote.safeSendMsg w r key type data =
        { w with remoteLink := link, xbeeRemotes := xs } ∧
      link r = some i ∧ xs[i]? = some (x.safeSendMsg key type data) := by
  have modified : (w.xbeeRemotes.modify i fun x => x.safeSendMsg key type data)[i]? =
      some (x.safeSendMsg key type data) := by
    simp [h.there]
  have link := h.link
  rw [RealRemote.safeSendMsg, RealRemote.remote]
  cases known : w.remoteLink r with
  | some j =>
      rw [known] at link
      cases link
      exact ⟨w.remoteLink, _, rfl, known, modified⟩
  | none =>
      rw [known, Option.none_or] at link
      rw [link]
      exact ⟨_, _, rfl, Function.update_self .., modified⟩

/-- The entry of the radio may change as long as it keeps its address. -/
theorem Connected.replace (h : Connected w r i x) {x' : XBeeRemote} (addr : x'.addr = x.addr) :
    Connected { w with xbeeRemotes := w.xbeeRemotes.set i x' } r i x' := by
  have inside := (List.getElem?_eq_some_iff.mp h.there).1
  have addrs : (w.xbeeRemotes.set i x').map XBeeRemote.addr = w.xbeeRemotes.map XBeeRemote.addr := by
    have old : x.addr = (w.xbeeRemotes.map XBeeRemote.addr).get ⟨i, by simpa using inside⟩ := by
      rw [List.get_eq_getElem, List.getElem_map, (List.getElem?_eq_some_iff.mp h.there).2]
    rw [List.map_set, addr, old, List.get_eq_getElem, List.set_getElem_self]
  refine ⟨h.real, ?_, by simp [inside]⟩
  have search : ∀ xs : List XBeeRemote,
      (xs.findIdx? fun x => intToHexStr x.addr = RemoteList.macOf w r) =
        (xs.map XBeeRemote.addr).findIdx? fun a => intToHexStr a = RemoteList.macOf w r := by
    intro xs
    rw [List.findIdx?_map]
    rfl
  have link := h.link
  rw [search, ← addrs, ← search] at link
  exact link

theorem Remote.storeLed_one (j : Fin 3) (v : Byte) :
    storeLed w r (Led.one j).event [v] = w.setNumber (.remote r) (Led.name j) v.val := by
  rw [← HexData.toInt_singleton]
  fin_cases j <;> rfl

/-- The model has the new value for every LED which is set. -/
theorem Remote.storeLed_values (l : Led) (v : Byte) :
    ∃ json, (storeLed w r l.event [v]).2 = { w with json := json } ∧
      ∀ k, (json (.remote r)).value (Led.name k) =
        if l.Covers k then some (.double v.val) else w.get (.remote r) (Led.name k) := by
  cases l with
  | all =>
      obtain ⟨json₁, same₁, values₁⟩ := w.setNumber_remote r "LED1" (HexData.toInt [v])
      obtain ⟨json₂, same₂, values₂⟩ :=
        World.setNumber_remote (w := { w with json := json₁ }) r "LED2" (HexData.toInt [v])
      obtain ⟨json₃, same₃, values₃⟩ :=
        World.setNumber_remote (w := { w with json := json₂ }) r "LED3" (HexData.toInt [v])
      refine ⟨json₃, ?_, fun k => ?_⟩
      · simp only [Led.event, storeLed, same₁, same₂, same₃]
      · have all : Led.all.Covers k := .inl rfl
        rw [if_pos all, ← HexData.toInt_singleton]
        match k with
        | 0 => rw [values₃, if_neg (by decide), values₂, if_neg (by decide), values₁, if_pos (by decide)]
        | 1 => rw [values₃, if_neg (by decide), values₂, if_pos (by decide)]
        | 2 => rw [values₃, if_pos (by decide)]
  | one j =>
      obtain ⟨json, same, values⟩ := w.setNumber_remote r (Led.name j) v.val
      refine ⟨json, by rw [storeLed_one, same], fun k => ?_⟩
      rw [values]
      by_cases own : k = j
      · have covers : (Led.one j).Covers k := .inr (own ▸ rfl)
        rw [if_pos covers, if_pos (congrArg Led.name own)]
      · rw [if_neg (Led.name_injective.ne own), if_neg (Led.not_covers own)]
        rfl

theorem RealRemote.sendLed_eq (l : Led) (v : Byte) :
    sendLed w r l.event [v] = safeSendMsg w r l.key l.type [v] := by
  cases l with
  | all => rfl
  | one j => fin_cases j <;> rfl

/-- A setting is stored in the model and waits at the radio. -/
theorem Connected.triggerLed (h : Connected w r i x) (l : Led) (v : Byte) :
    Connected (Remote.triggerLed w r l.event [v]).2 r i (x.safeSendMsg l.key l.type [v]) ∧
      ∀ k, (Remote.triggerLed w r l.event [v]).2.get (.remote r) (Led.name k) =
        if l.Covers k then some (.double v.val) else w.get (.remote r) (Led.name k) := by
  have observed : Connected (w.observe (.commanded r l.event [v])) r i x :=
    ⟨h.real, h.link, h.there⟩
  obtain ⟨link, xs, sent, linked, there⟩ := observed.safeSendMsg l.key l.type [v]
  have trigger : Remote.triggerLed w r l.event [v] = Remote.storeLed (RealRemote.safeSendMsg
      (w.observe (.commanded r l.event [v])) r l.key l.type [v]) r l.event [v] := by
    rw [Remote.triggerLed, ← RealRemote.sendLed_eq]
    exact congrArg (fun w => Remote.storeLed w r l.event [v]) (if_pos h.real)
  obtain ⟨json, stored, values⟩ := Remote.storeLed_values (r := r)
    (w := { w.observe (.commanded r l.event [v]) with remoteLink := link, xbeeRemotes := xs }) l v
  rw [trigger, sent, stored]
  refine ⟨⟨h.real, ?_, there⟩, values⟩
  dsimp only
  rw [linked]
  rfl

/-! ## A message at the firmware -/

namespace Firmware

variable {fw : Firmware}

/-- The LEDs after the rest `s` of a message. -/
theorem receive_levels {c : Command} {p : List Byte} (h : fw.Holds p) (bound : fw.ibTx ≤ 20)
    (adc : Fin 1024) {s : List Byte} (body : c.body = p ++ s) (quiet : (255 : Byte) ∉ c.data) :
    Ends (fun _ => True) (fw.receive adc (s ++ [FRAME_END])) fun q =>
      q.2.ledStatus = (fw.obey c).ledStatus := by
  induction s generalizing fw p with
  | nil =>
      rw [List.append_nil] at body
      subst body
      rw [List.nil_append, receive, receiveByte]
      split
      · rename_i room
        rw [if_pos rfl, processMessage_body adc (h.store room FRAME_END) quiet]
        rfl
      · trivial
  | cons b s ih =>
      have other : b ≠ FRAME_END := by
        rintro rfl
        have marked : FRAME_END ∈ c.body := body ▸ List.mem_append_right p List.mem_cons_self
        exact quiet (Command.mem_body.mp marked)
      rw [List.cons_append, receive]
      apply ((receiveByte_other_ends h other adc).mono_err fun _ _ => trivial).bind
      rintro ⟨calls, fw₁⟩ ⟨-, stored, same⟩
      dsimp only at stored same
      have rest := ih stored (by rw [same]; exact bound) (by rw [body, List.append_assoc]; rfl)
      apply rest.bind
      rintro ⟨later, fw₂⟩ levels
      have levels : fw₂.ledStatus = (fw₁.obey c).ledStatus := levels
      have kept : fw₁.ledStatus = fw.ledStatus := by rw [same]
      rw [obey, kept] at levels
      exact levels

/-- A turn in which a message arrives sets the LEDs as it says. -/
theorem loop_message (h : fw.Receiving []) (c : Command) (quiet : (255 : Byte) ∉ c.data)
    (buttonPin : Fin 5 → Bool) (adc : Fin 1024) :
    Ends (fun _ => False) (fw.loop ⟨c.message, buttonPin, adc⟩) fun r =>
      r.2.2.Receiving [] ∧ r.2.2.ledStatus = (fw.obey c).ledStatus := by
  have free : ∀ b ∈ [c.body], FRAME_END ∉ b := by
    intro b member marked
    rw [List.mem_singleton.mp member] at marked
    exact quiet (Command.mem_body.mp marked)
  have stream : c.message ++ [] = Delimited.encode FRAME_END [c.body] := by
    simp [Delimited.encode, Command.message_eq]
  have expected : Delimited.blocks FRAME_END [] (c.message ++ []) = [c].map Command.body :=
    stream ▸ Delimited.blocks_encode free
  have delivered := loop_commands h ⟨c.message, buttonPin, adc⟩ expected
    (stream ▸ Delimited.remainder_encode free) fun c' member => List.mem_singleton.mp member ▸ quiet
  obtain ⟨⟨calls, sent, fw'⟩, run, -, -, -, -, received, -⟩ := ends_total.mp delivered
  rw [List.append_nil] at stream
  have empty : Delimited.remainder FRAME_END [] c.message = [] :=
    stream ▸ Delimited.remainder_encode free
  dsimp only at received
  rw [empty] at received
  have idle : fw.Idle := ⟨h.count ▸ Nat.zero_le 20, h.flushed⟩
  obtain ⟨-, turned⟩ := (loop_ends idle ⟨c.message, buttonPin, adc⟩).of_ok run
  obtain ⟨more, fw₁, result, leds, -⟩ := turned.sent
  have levels := (receive_levels h.toHolds (h.flushed ▸ Nat.zero_le 20) adc (List.nil_append c.body).symm
    quiet).of_ok result
  rw [run]
  exact ⟨received, leds.trans levels⟩

end Firmware

/-! ## Settings and transmissions -/

structure LedState where
  world : World
  fw : Firmware

/-- A setting with an intensity which is no query, or a tick of the radio. -/
inductive LedEvent where
  | set (l : Led) (v : Byte) (intensity : v ≠ 255)
  | tick (buttonPin : Fin 5 → Bool) (adc : Fin 1024)

namespace LedState

/-- A message which is sent arrives in one turn of the firmware. -/
def step (r i : Nat) (s : LedState) : LedEvent → Except Fault LedState
  | .set l v _ => pure { s with world := (Remote.triggerLed s.world r l.event [v]).2 }
  | .tick buttonPin adc =>
      match s.world.tick i with
      | (none, w) => pure { s with world := w }
      | (some msg, w) => do
          let (_, _, fw) ← s.fw.loop ⟨msg, buttonPin, adc⟩
          pure ⟨w, fw⟩

/-- All LEDs are set only when no message with another intensity waits for a single one. -/
def Careful (i : Nat) (s : LedState) : LedEvent → Prop
  | .set .all v _ => ∀ x, s.world.xbeeRemotes[i]? = some x → ∀ k msg,
      x.safeSendMap.find? (Led.one k).key = some msg → msg = ((Led.one k).command v).message
  | _ => True

/-- The model's numbers are what the firmware shows after the messages which wait. -/
structure Tracks (r i : Nat) (s : LedState) (x : XBeeRemote) (waiting : Led → Option Byte) : Prop
    extends Connected s.world r i x where
  receiving : s.fw.Receiving []
  messages : ∀ l, x.safeSendMap.find? l.key = (waiting l).map fun v => (l.command v).message
  intensities : ∀ l v, waiting l = some v → v ≠ 255
  keys : ∀ key, x.safeSendMap.find? key ≠ none → ∃ l : Led, key = l.key
  numbers : ∀ k, s.world.get (.remote r) (Led.name k) = some (.double
    ((waiting (.one k)).getD ((waiting .all).getD (s.fw.ledStatus k))).val)

variable {s s' : LedState} {waiting : Led → Option Byte}

theorem Tracks.set (h : Tracks r i s x waiting) (l : Led) (v : Byte) (intensity : v ≠ 255)
    (careful : Careful i s (.set l v intensity)) :
    Tracks r i { s with world := (Remote.triggerLed s.world r l.event [v]).2 }
      (x.safeSendMsg l.key l.type [v]) (Function.update waiting l (some v)) := by
  obtain ⟨connected, values⟩ := h.toConnected.triggerLed l v
  refine ⟨connected, h.receiving, ?_, ?_, ?_, ?_⟩
  · intro l'
    by_cases own : l' = l
    · subst own
      simp [XBeeRemote.safeSendMsg, Led.message_command]
    · have differ : l'.key ≠ l.key := fun same => own (Led.key_injective same)
      simp [XBeeRemote.safeSendMsg, own, differ, h.messages l']
  · intro l' v' found
    by_cases own : l' = l
    · subst own
      rw [Function.update_self] at found
      exact Option.some.inj found ▸ intensity
    · rw [Function.update_of_ne own] at found
      exact h.intensities l' v' found
  · intro key there
    by_cases own : key = l.key
    · exact ⟨l, own⟩
    · rw [XBeeRemote.safeSendMsg, SortedMap.find?_insert_of_ne _ own] at there
      exact h.keys key there
  · intro k
    rw [values]
    cases l with
    | all =>
        have all : Led.all.Covers k := .inl rfl
        rw [if_pos all, Function.update_of_ne (by simp), Function.update_self]
        -- An older message for this LED says the same.
        cases older : waiting (.one k) with
        | none => rfl
        | some u =>
            have found := h.messages (.one k)
            rw [older] at found
            have same := careful x h.there k _ found
            rw [Option.getD_some, Led.message_injective _ same]
    | one j =>
        by_cases own : k = j
        · subst own
          have covers : (Led.one k).Covers k := .inr rfl
          rw [if_pos covers, Function.update_self]
          rfl
        · have apart := Led.not_covers own
          have other : Led.one k ≠ .one j := fun same => own (Led.one.inj same)
          rw [if_neg apart, Function.update_of_ne other, Function.update_of_ne (by simp)]
          exact h.numbers k

theorem Tracks.tick (h : Tracks r i s x waiting) (buttonPin : Fin 5 → Bool) (adc : Fin 1024) :
    Ends (fun _ => False) (s.step r i (.tick buttonPin adc)) fun s' =>
      ∃ x' waiting', Tracks r i s' x' waiting' := by
  rw [step, World.tick, h.there]
  dsimp only
  rw [XBeeRemote.tick]
  cases entries : x.safeSendMap.entries with
  | nil => exact ⟨x, waiting, h.toConnected.replace rfl, h.receiving, h.messages, h.intensities,
      h.keys, h.numbers⟩
  | cons e rest =>
      obtain ⟨key, msg⟩ := e
      have head : x.safeSendMap.find? key = some msg := by simp [SortedMap.find?, entries]
      obtain ⟨l, rfl⟩ := h.keys key (head ▸ Option.some_ne_none msg)
      have message := h.messages l
      rw [head] at message
      obtain ⟨v, found, rfl⟩ := Option.map_eq_some_iff.mp message.symm
      have intensity := h.intensities l v found
      have quiet : (255 : Byte) ∉ (l.command v).data := by
        rw [Led.data_command, List.mem_singleton]
        exact intensity.symm
      apply (Firmware.loop_message h.receiving (l.command v) quiet buttonPin adc).bind
      rintro ⟨calls, sent, fw'⟩ ⟨received, levels⟩
      refine ⟨{ x with safeSendMap := x.safeSendMap.erase l.key }, Function.update waiting l none,
        h.toConnected.replace rfl, received, ?_, ?_, ?_, ?_⟩
      · intro l'
        by_cases own : l' = l
        · subst own
          simp
        · have differ : l'.key ≠ l.key := fun same => own (Led.key_injective same)
          simp [own, differ, h.messages l']
      · intro l' v' later
        by_cases own : l' = l
        · subst own
          simp at later
        · rw [Function.update_of_ne own] at later
          exact h.intensities l' v' later
      · intro key' there
        by_cases own : key' = l.key
        · exact ⟨l, own⟩
        · dsimp only at there
          rw [SortedMap.find?_erase_of_ne _ own] at there
          exact h.keys key' there
      · intro k
        refine (h.numbers k).trans ?_
        dsimp only at levels ⊢
        rw [levels]
        simp only [Firmware.obey, Led.level?_command]
        cases l with
        | all =>
            have all : Led.all.Covers k := .inl rfl
            rw [if_pos all, found, Function.update_of_ne (by simp), Function.update_self]
            rfl
        | one j =>
            -- Nothing waits for all LEDs, or that message would leave first.
            have none : waiting .all = none := by
              have later := h.messages .all
              rw [SortedMap.find?, entries] at later
              have sorted := x.safeSendMap.sorted
              rw [entries] at sorted
              rw [Assoc.lookup_cons_of_ne (Led.key_all_lt j).ne,
                Assoc.lookup_tail_head sorted (Led.key_all_lt j).le] at later
              exact Option.map_eq_none_iff.mp later.symm
            by_cases own : k = j
            · subst own
              have covers : (Led.one k).Covers k := .inr rfl
              rw [if_pos covers, found, Function.update_self, Function.update_of_ne (by simp), none]
              rfl
            · have apart := Led.not_covers own
              have other : Led.one k ≠ .one j := fun same => own (Led.one.inj same)
              rw [if_neg apart, Function.update_of_ne other, Function.update_of_ne (by simp)]
              rfl

theorem Tracks.step (h : Tracks r i s x waiting) {e : LedEvent} (careful : Careful i s e)
    (first : s.step r i e = .ok s') : ∃ x' waiting', Tracks r i s' x' waiting' := by
  cases e with
  | set l v intensity =>
      cases first
      exact ⟨_, _, h.set l v intensity careful⟩
  | tick buttonPin adc => exact (h.tick buttonPin adc).of_ok first

/-- Model and firmware agree on the LEDs, and nothing is on its way. -/
structure Synchronous (r i : Nat) (s : LedState) : Prop where
  connected : ∃ x, Connected s.world r i x ∧ x.safeSendMap = ∅
  receiving : s.fw.Receiving []
  numbers : ∀ k, s.world.get (.remote r) (Led.name k) = some (.double (s.fw.ledStatus k).val)

theorem Synchronous.tracks (h : Synchronous r i s) : ∃ x waiting, Tracks r i s x waiting := by
  obtain ⟨x, connected, empty⟩ := h.connected
  refine ⟨x, fun _ => none, connected, h.receiving, fun l => ?_, fun _ _ found => (by cases found),
    fun key there => ?_, h.numbers⟩
  · rw [empty]
    rfl
  · rw [empty] at there
    exact absurd rfl there

/-- However settings and ticks follow each other, whenever nothing waits the LEDs of the
    remote are what the model says, if all LEDs are only set while no message with another
    intensity waits for a single one. -/
theorem leds_converge (start : Synchronous r i s) (events : List LedEvent)
    (careful : Runs.Throughout (step r i) (Careful i) s events) :
    ∀ s', Runs.Reaches (step r i) s events s' →
      (∃ x, s'.world.xbeeRemotes[i]? = some x ∧ x.safeSendMap = ∅) →
      ∀ k, s'.world.get (.remote r) (Led.name k) = some (.double (s'.fw.ledStatus k).val) := by
  intro s' reached empty k
  have tracks : ∃ x waiting, Tracks r i s' x waiting :=
    reached.invariant (I := fun s => ∃ x waiting, Tracks r i s x waiting) start.tracks careful
      fun s e s' inside condition first =>
        inside.elim fun x inside => inside.elim fun waiting h => h.step condition first
  obtain ⟨x, waiting, h⟩ := tracks
  obtain ⟨x', there, empty⟩ := empty
  cases h.there.symm.trans there
  have none : ∀ l, waiting l = none := by
    intro l
    have message := h.messages l
    rw [empty] at message
    exact Option.map_eq_none_iff.mp message.symm
  have number := h.numbers k
  rwa [none, none] at number

/-- A real remote whose LEDs are off, in the model and at the firmware. -/
def dark : LedState where
  world := {
    json := fun _ => [("LED1", .double 0), ("LED2", .double 0), ("LED3", .double 0)]
    remotes := [0]
    isReal := fun _ => true
    remoteLink := fun _ => some 0
    xbeeRemotes := [{ addr := [1, 1, 1, 1, 1, 1, 1, 1] }] }
  fw := {}

/-- All LEDs are set and then one of them, and both messages leave in this order. -/
theorem leds_converge_one :
    let events : List LedEvent := [.set .all 7 (by decide), .set (.one 0) 5 (by decide),
      .tick (fun _ => true) 0, .tick (fun _ => true) 0]
    ∀ s', Runs.Reaches (step 0 0) dark events s' →
      (∃ x, s'.world.xbeeRemotes[0]? = some x ∧ x.safeSendMap = ∅) →
      ∀ k, s'.world.get (.remote 0) (Led.name k) = some (.double (s'.fw.ledStatus k).val) :=
  have start : Synchronous 0 0 dark :=
    ⟨⟨_, ⟨rfl, rfl, rfl⟩, rfl⟩, ⟨.empty rfl, rfl⟩, fun k => by fin_cases k <;> rfl⟩
  leds_converge start _ (by
    refine ⟨fun x there k msg found => ?_, fun _ _ => ⟨trivial, fun _ _ => ⟨trivial, fun _ _ =>
      ⟨trivial, fun _ _ => trivial⟩⟩⟩⟩
    cases there
    cases found)

/-- One LED is set and then all of them, but the older message leaves last. -/
theorem not_leds_converge : ∃ s', Runs.Reaches (step 0 0) dark
    [.set (.one 0) 5 (by decide), .set .all 7 (by decide), .tick (fun _ => true) 0,
      .tick (fun _ => true) 0] s' ∧
    (∃ x, s'.world.xbeeRemotes[0]? = some x ∧ x.safeSendMap = ∅) ∧
    s'.world.get (.remote 0) "LED1" = some (.double 7) ∧ s'.fw.ledStatus 0 = 5 := by
  refine ⟨_, .of_run rfl, ⟨_, rfl, ?_⟩, ?_, ?_⟩
  · decide
  · rfl
  · rfl

end LedState

end VoxPopuli
