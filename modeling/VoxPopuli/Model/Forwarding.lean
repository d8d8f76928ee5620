import VoxPopuli.Lib.Delimited
import VoxPopuli.Model.Reachable
import VoxPopuli.Model.Routing

/-! # LED changes sent to the owner of an emulated remote

The owner's address is `ip:port`. It is taken apart twice: for the port its colons are counted,
for the ip a stray semicolon makes the answer empty. A port which is no number reads as 0, and
is sent to as well.
-/

namespace VoxPopuli

open World

variable {w w' : World}

namespace EmulatedRemote

/-- `get("ipPort").toString()`. -/
def ipPort (w : World) (r : Nat) : QString := (w.get (.remote r) "ipPort").toString

/-- The text behind the last colon. -/
def portText (address : QString) : QString := (address.splitOn (':' : QChar)).getLast?.getD []

/-- The ip and the port of an address with one colon and a decimal number behind it. -/
def addressOf? (address : QString) : Option (QString × Nat) :=
  match address.splitOn (':' : QChar) with
  | [ip, port] => (QString.digits? port).map fun n => (ip, n)
  | _ => none

/-- The event name of an LED event. -/
def ledName? : FTriggerEvent → Option QString
  | .led => some "LED"
  | .led1 => some "LED1"
  | .led2 => some "LED2"
  | .led3 => some "LED3"
  | .up | .down | .right | .left | .action => none

/-- What a change of an LED is meant to send. -/
def meantSends (w : World) (r : Nat) (name : QString) (v : HexData) : List Observation :=
  match addressOf? (ipPort w r) with
  | some (ip, port) => [.osc ip port (oscAddress w r) name v.toInt]
  | none => []

/-- The addresses for which the right thing is sent: those without an ip whose port is in the
    range of an `int`, and of the other ones those which lead to no sending at all. -/
def ForwardsRight (address : QString) : Prop :=
  (∃ n : Nat, addressOf? address = some ([], n) ∧ (n : Int) < 2 ^ 31) ∨
    addressOf? address = none ∧
      (address.count (':' : QChar) ≠ 1 ∨ (portText address).toInt? = some (-1))

end EmulatedRemote

/-- A message is sent. -/
def Observation.isSend : Observation → Bool
  | osc _ _ _ _ _ => true
  | _ => false

/-- What is sent between two states. -/
def World.Emits (w w' : World) (l : List Observation) : Prop :=
  ∃ added, w'.log = w.log ++ added ∧ added.filter Observation.isSend = l

/-! ## Addresses -/

namespace EmulatedRemote

theorem addressOf?_eq_some_iff {address ip : QString} {n : Nat} :
    addressOf? address = some (ip, n) ↔
      ∃ port, address = ip ++ (':' : QChar) :: port ∧ (':' : QChar) ∉ ip ∧ (':' : QChar) ∉ port ∧
        QString.digits? port = some n := by
  constructor
  · intro read
    have joined : [(':' : QChar)].intercalate (address.splitOn (':' : QChar)) = address :=
      List.intercalate_splitOn _
    have count := Delimited.length_splitOn (':' : QChar) address
    unfold addressOf? at read
    split at read
    · rename_i ip' port parts
      obtain ⟨m, digits, same⟩ := Option.map_eq_some_iff.mp read
      cases same
      rw [parts, List.intercalate_cons_cons, List.intercalate_singleton] at joined
      rw [parts] at count
      simp only [← joined, List.length_cons, List.length_nil, List.count_append, List.append_assoc,
        List.count_singleton_self] at count
      have colons : List.count (':' : QChar) ip = 0 ∧ List.count (':' : QChar) port = 0 := by omega
      exact ⟨port, by rw [← joined]; simp, List.count_eq_zero.mp colons.1,
        List.count_eq_zero.mp colons.2, digits⟩
    · cases read
  · rintro ⟨port, rfl, left, right, digits⟩
    have parts : (ip ++ (':' : QChar) :: port).splitOn (':' : QChar) = [ip, port] := by
      rw [List.splitOn_append_cons_self_of_not_mem left, List.splitOn_eq_singleton right]
    rw [addressOf?, parts]
    simp [digits]

/-- Where there is no such address, the port is read from a text which is no digits, or not at
    all. -/
theorem forwardPort_eq (w : World) (r : Nat) :
    forwardPort w r =
      if (ipPort w r).count (':' : QChar) ≠ 1 then -1 else (portText (ipPort w r)).toInt := rfl

theorem portText_of_address {address ip : QString} {n : Nat}
    (read : addressOf? address = some (ip, n)) :
    address.count (':' : QChar) = 1 ∧ QString.digits? (portText address) = some n := by
  have count := Delimited.length_splitOn (':' : QChar) address
  unfold addressOf? at read
  split at read
  · rename_i ip' port parts
    obtain ⟨m, digits, same⟩ := Option.map_eq_some_iff.mp read
    cases same
    rw [parts] at count
    simp only [List.length_cons, List.length_nil] at count
    exact ⟨by omega, by simpa [portText, parts] using digits⟩
  · cases read

/-! ## What is sent -/

theorem log_triggerLed (emulated : w.isReal r = false) {e : FTriggerEvent} {name : QString}
    (led : ledName? e = some name) (v : HexData) :
    (Remote.triggerLed w r e v).2.log = w.log ++ .commanded r e v ::
      if forwardPort w r ≠ -1 then
        [.osc [] (forwardPort w r) (oscAddress w r) name v.toInt]
      else [] := by
  have stored : ∀ w₁ : World, (Remote.storeLed w₁ r e v).2.log = w₁.log := by
    intro w₁
    cases e with
    | led => exact (log_assign ..).trans ((log_assign ..).trans (log_assign ..))
    | led1 | led2 | led3 => exact log_assign ..
    | up | down | right | left | action => rfl
  have real : (w.observe (.commanded r e v)).isReal r = false := emulated
  rw [Remote.triggerLed]
  simp only [real, Bool.false_eq_true, if_false, stored]
  have port : forwardPort (w.observe (.commanded r e v)) r = forwardPort w r := rfl
  have address : oscAddress (w.observe (.commanded r e v)) r = oscAddress w r := rfl
  have text : forwardIP (w.observe (.commanded r e v)) r = [] := rfl
  have forwarded : forwardLed (w.observe (.commanded r e v)) r e v =
      if forwardPort w r ≠ -1 then
        (w.observe (.commanded r e v)).observe
          (.osc [] (forwardPort w r) (oscAddress w r) name v.toInt)
      else w.observe (.commanded r e v) := by
    rw [← port, ← address, ← text]
    cases e with
    | led | led1 | led2 | led3 =>
        cases led
        rfl
    | up | down | right | left | action => cases led
  rw [forwarded]
  split
  · simp [observe]
  · rfl

theorem sends_triggerLed_iff (emulated : w.isReal r = false) {e : FTriggerEvent} {name : QString}
    (led : ledName? e = some name) (v : HexData) (l : List Observation) :
    w.Emits (Remote.triggerLed w r e v).2 l ↔
      l = if forwardPort w r ≠ -1 then
        [.osc [] (forwardPort w r) (oscAddress w r) name v.toInt] else [] := by
  have log := log_triggerLed emulated led v
  have filtered : (Observation.commanded r e v ::
      if forwardPort w r ≠ -1 then
        [Observation.osc [] (forwardPort w r) (oscAddress w r) name v.toInt]
      else []).filter Observation.isSend =
        if forwardPort w r ≠ -1 then
          [.osc [] (forwardPort w r) (oscAddress w r) name v.toInt] else [] := by
    rw [List.filter_cons_of_neg (by simp [Observation.isSend])]
    split <;> simp [Observation.isSend]
  constructor
  · rintro ⟨added, same, rfl⟩
    rw [log] at same
    rw [← List.append_cancel_left same, filtered]
  · rintro rfl
    exact ⟨_, log, filtered⟩

/-- An LED change sends what it is meant to exactly for the addresses of which the ip is empty
    or which are not sent to. -/
theorem sends_meant_iff (emulated : w.isReal r = false) {e : FTriggerEvent} {name : QString}
    (led : ledName? e = some name) (v : HexData) :
    w.Emits (Remote.triggerLed w r e v).2 (meantSends w r name v) ↔
      ForwardsRight (ipPort w r) := by
  rw [sends_triggerLed_iff emulated led, forwardPort_eq, meantSends, ForwardsRight]
  generalize ipPort w r = address
  cases read : addressOf? address with
  | some found =>
      obtain ⟨ip, n⟩ := found
      obtain ⟨count, digits⟩ := portText_of_address read
      have number := QString.toInt?_of_digits? digits
      have port : (portText address).toInt = if (n : Int) < 2 ^ 31 then (n : Int) else 0 := by
        rw [QString.toInt, number]
        split <;> rfl
      have natural : (portText address).toInt ≠ -1 := by
        rw [port]
        split <;> omega
      simp only [count, ne_eq, not_true_eq_false, if_false, natural, not_false_eq_true, if_true]
      rw [port]
      simp only [List.cons.injEq, Observation.osc.injEq, and_true, reduceCtorEq, false_and, or_false,
        Option.some.injEq, Prod.mk.injEq]
      constructor
      · rintro ⟨rfl, same⟩
        refine ⟨n, ⟨rfl, rfl⟩, ?_⟩
        by_contra large
        rw [if_neg large] at same
        omega
      · rintro ⟨m, ⟨rfl, rfl⟩, small⟩
        exact ⟨rfl, (if_pos small).symm⟩
  | none =>
      simp only [reduceCtorEq, false_and, exists_false, false_or, true_and]
      by_cases count : address.count (':' : QChar) = 1
      · simp only [count, ne_eq, not_true_eq_false, if_false, false_or]
        have minus : (portText address).toInt = -1 ↔ (portText address).toInt? = some (-1) := by
          rw [QString.toInt]
          cases (portText address).toInt? with
          | none => simp
          | some n => simp
        rw [← minus]
        by_cases same : (portText address).toInt = -1
        · simp [same]
        · simp [same]
      · simp [count]

/-- A button sends nothing: what it leads to are the callbacks of events. -/
theorem sends_button (h : w.WellFormed) (unlocked : w.Unlocked) (r : Nat) (b : Button)
    (pressed : Bool) :
    ∃ w', Remote.setButtonState w r (Remote.message b) pressed = .ok w' ∧ w.Emits w' [] := by
  obtain ⟨w', run, log⟩ := Remote.setButtonState_log h unlocked r b pressed
  refine ⟨w', run, _, log, ?_⟩
  rw [List.filter_eq_nil_iff]
  intro o fired
  obtain ⟨v, -, fired⟩ := List.mem_flatMap.mp fired
  have callback : ∀ name t, o ∈ Event.callbacks v b name t → ¬o.isSend := by
    intro name t called
    obtain ⟨⟨definition, hasCallback⟩, -, called⟩ := List.mem_flatMap.mp called
    cases hasCallback with
    | true => simp_all [Observation.isSend]
    | false => simp at called
  rcases List.mem_cons.mp fired with rfl | called
  · simp [Observation.isSend]
  · rcases List.mem_append.mp called with any | named
    · exact callback _ _ any
    · cases trigger : (w.triggers v b).find? (pressName pressed) with
      | none => simp [trigger] at named
      | some t => exact callback _ _ (by simpa [trigger] using named)

/-- An LED change of an emulated remote sends one message to its owner, or none where its
    address is no ip and port, exactly for the addresses of which the ip is empty or which are
    not sent to; buttons never send. -/
theorem forwards_iff {mutex : MutexState} (reachable : w.Reachable mutex)
    (unlocked : mutex ≠ .held) {r : Nat} (emulated : w.isReal r = false) :
    (∀ e name v, ledName? e = some name →
      ∃ q, Remote.fastTrigger w r e v = .ok q ∧
        (w.Emits q.2 (meantSends w r name v) ↔ ForwardsRight (ipPort w r))) ∧
    ∀ b pressed, ∃ w', Remote.setButtonState w r (Remote.message b) pressed = .ok w' ∧
      w.Emits w' [] := by
  obtain ⟨sound, same⟩ := reachable.sound
  have idle : w.Unlocked := by
    rw [Unlocked, same]
    exact unlocked
  refine ⟨fun e name v led => ⟨Remote.triggerLed w r e v, ?_, sends_meant_iff emulated led v⟩,
    fun b pressed => sends_button sound.wellFormed idle r b pressed⟩
  cases e with
  | led | led1 | led2 | led3 => rfl
  | up | down | right | left | action => cases led

/-- An emulated remote with an owner. -/
def ownedRemote : List Op := [.emulateRemote "E" "/e" "10.0.0.1:9000"]

theorem forwards_iff_owned :
    Ends (fun _ => False) ((initial .free fun _ => none).run ownedRemote) fun w =>
      (∀ e name v, ledName? e = some name →
        ∃ q, Remote.fastTrigger w 0 e v = .ok q ∧
          (w.Emits q.2 (meantSends w 0 name v) ↔ ForwardsRight (ipPort w 0))) ∧
      ∀ b pressed, ∃ w', Remote.setButtonState w 0 (Remote.message b) pressed = .ok w' ∧
        w.Emits w' [] := by
  have run : Ends (fun _ => False) ((initial .free fun _ => none).run ownedRemote)
      fun w => w.isReal 0 = false := by decide +kernel
  obtain ⟨w, run, emulated⟩ := ends_total.mp run
  exact ends_total.mpr ⟨w, run, forwards_iff ⟨_, _, run⟩ (by decide) emulated⟩

/-- Its first LED is sent to the right port of no ip. -/
theorem forwarded_nowhere :
    Ends (fun _ => False) ((initial .free fun _ => none).run ownedRemote) fun w =>
      meantSends w 0 "LED1" [5] = [.osc "10.0.0.1" 9000 "/e" "LED1" 5] ∧
        (Remote.triggerLed w 0 .led1 [5]).2.log =
          w.log ++ [.commanded 0 .led1 [5], .osc "" 9000 "/e" "LED1" 5] := by
  decide +kernel

end EmulatedRemote

end VoxPopuli
