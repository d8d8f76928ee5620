import VoxPopuli.XBee.XBeeRemote

/-! # Safe sends over a failing radio

A tick hands the first waiting message to the radio, and whether the radio takes it
depends on the table of requests and on the serial port. The message has left the map
either way, so a message is lost exactly when a tick which finds one fails.
-/

namespace VoxPopuli

/-- What an attempt to transmit meets. -/
structure Airtime where
  /-- Which entries of `xbee_cmd_request_table` are in use. -/
  requests : Vector Bool 4
  /-- The same after `xbee_cmd_tick` has freed what has timed out. -/
  requestsAfterTick : Vector Bool 4
  clearToSend : Bool
  /-- The room in the transmit buffer of the serial port. -/
  free : Nat

namespace Airtime

/-- The index in the frame ID which `generateFrameID` returns. -/
def generateFrameID (c : Airtime) : Option Nat :=
  match c.requests.toList.idxOf? false with
  | some index => some index
  | none => c.requestsAfterTick.toList.idxOf? false

/-- Whether `xbee_frame_write` succeeds for a header and data of these lengths. -/
def frameWrite (c : Airtime) (headerlen datalen : Nat) : Bool :=
  c.clearToSend && headerlen + datalen + 3 + 1 ≤ c.free

/-- Whether `sendRemoteTX` returns true. The header has the frame type and ID, two
    addresses, the radius and the options. -/
def sendRemoteTX (c : Airtime) (cmd : StdString) : Bool :=
  match c.generateFrameID with
  | none => false
  | some _ => c.frameWrite (1 + 1 + 8 + 2 + 1 + 1) cmd.length

end Airtime

/-- A remote with a record of what has become of its messages. -/
structure SafeSend where
  remote : XBeeRemote
  /-- The message which has been enqueued last under a key. -/
  latest : StdString → Option StdString := fun _ => none
  /-- Whether that message has been handed to the radio by a `sendTX` which returned true. -/
  handed : StdString → Bool := fun _ => false

namespace SafeSend

inductive Call where
  | safeSendMsg (key : StdString) (type : XBEE_MSG_TYPE) (data : HexData)
  | tick (c : Airtime)

def safeSendMsg (s : SafeSend) (key : StdString) (type : XBEE_MSG_TYPE) (data : HexData) :
    SafeSend where
  remote := s.remote.safeSendMsg key type data
  latest := Function.update s.latest key (some (XBeeRemote.prepareMsg type data))
  handed := Function.update s.handed key false

def tick (s : SafeSend) (c : Airtime) : SafeSend :=
  match s.remote.safeSendMap.entries with
  | [] => s
  | (key, msg) :: _ =>
      { s with
        remote := s.remote.tick.2
        handed := Function.update s.handed key (s.handed key || c.sendRemoteTX msg) }

def step (s : SafeSend) : Call → SafeSend
  | .safeSendMsg key type data => s.safeSendMsg key type data
  | .tick c => s.tick c

def run (s : SafeSend) (calls : List Call) : SafeSend := calls.foldl step s

/-- The message enqueued last under a key is waiting, or the radio has got it. -/
def Lossless (s : SafeSend) : Prop :=
  ∀ key msg, s.latest key = some msg →
    s.remote.safeSendMap.find? key = some msg ∨ s.handed key = true

/-- A call does not try to transmit a message in vain. -/
def Succeeds (s : SafeSend) : Call → Prop
  | .safeSendMsg _ _ _ => True
  | .tick c => ∀ msg, s.remote.tick.1 = some msg → c.sendRemoteTX msg = true

/-- What waits under a key is the last message of the key, and has not been handed over. -/
def Waiting (s : SafeSend) : Prop :=
  ∀ key msg, s.remote.safeSendMap.find? key = some msg →
    s.latest key = some msg ∧ s.handed key = false

variable {s : SafeSend}

/-- What a tick does when a message is waiting. -/
theorem tick_first {key msg : StdString} {rest : List (StdString × StdString)}
    (first : s.remote.safeSendMap.entries = (key, msg) :: rest) (c : Airtime) :
    s.remote.safeSendMap.find? key = some msg ∧ s.remote.tick.1 = some msg ∧
      (s.tick c).remote.safeSendMap = s.remote.safeSendMap.erase key ∧
      (s.tick c).latest = s.latest ∧
      (s.tick c).handed = Function.update s.handed key (s.handed key || c.sendRemoteTX msg) := by
  refine ⟨?_, ?_, ?_, ?_, ?_⟩
  · simp [SortedMap.find?, first]
  · simp [XBeeRemote.tick, first]
  · simp [tick, XBeeRemote.tick, first]
  · simp [tick, first]
  · simp [tick, first]

theorem Waiting.step (h : s.Waiting) (call : Call) : (s.step call).Waiting := by
  intro key msg found
  cases call with
  | safeSendMsg key' type data =>
      simp only [SafeSend.step, safeSendMsg, XBeeRemote.safeSendMsg] at found ⊢
      by_cases same : key = key'
      · subst same
        simpa using found
      · rw [SortedMap.find?_insert_of_ne _ same] at found
        simpa [same] using h key msg found
  | tick c =>
      rw [SafeSend.step] at found ⊢
      cases first : s.remote.safeSendMap.entries with
      | nil =>
          simp only [tick, first] at found ⊢
          exact h key msg found
      | cons e rest =>
          obtain ⟨key', msg'⟩ := e
          obtain ⟨-, -, map, latest, handed⟩ := tick_first first c
          rw [map] at found
          rw [latest, handed]
          by_cases same : key = key'
          · subst same
            simp at found
          · rw [SortedMap.find?_erase_of_ne _ same] at found
            simpa [same] using h key msg found

theorem Waiting.run (h : s.Waiting) (calls : List Call) : (s.run calls).Waiting := by
  induction calls generalizing s with
  | nil => exact h
  | cons call calls ih => exact ih (h.step call)

/-- Step lemma: nothing is lost by a call which succeeds. -/
theorem Lossless.step (h : s.Lossless) {call : Call} (succeeds : s.Succeeds call) :
    (s.step call).Lossless := by
  intro key msg last
  cases call with
  | safeSendMsg key' type data =>
      simp only [SafeSend.step, safeSendMsg, XBeeRemote.safeSendMsg] at last ⊢
      by_cases same : key = key'
      · subst same
        exact .inl (by simpa using last)
      · rw [Function.update_of_ne same] at last
        simpa [same] using h key msg last
  | tick c =>
      rw [SafeSend.step] at last ⊢
      cases first : s.remote.safeSendMap.entries with
      | nil =>
          simp only [tick, first] at last ⊢
          exact h key msg last
      | cons e rest =>
          obtain ⟨key', msg'⟩ := e
          obtain ⟨-, found, map, latest, handed⟩ := tick_first first c
          rw [latest] at last
          rw [map, handed]
          by_cases same : key = key'
          · subst same
            exact .inr (by simp [succeeds msg' found])
          · simpa [same] using h key msg last

/-- A call which fails loses its message. -/
theorem not_lossless (waiting : s.Waiting) {call : Call} (fails : ¬s.Succeeds call) :
    ¬(s.step call).Lossless := by
  cases call with
  | safeSendMsg key type data => exact absurd trivial fails
  | tick c =>
      simp only [Succeeds, not_forall] at fails
      obtain ⟨msg, found, vain⟩ := fails
      cases first : s.remote.safeSendMap.entries with
      | nil => simp [XBeeRemote.tick, first] at found
      | cons e rest =>
          obtain ⟨key, msg'⟩ := e
          obtain ⟨there, found', map, latest, handed⟩ := tick_first first c
          obtain rfl : msg' = msg := Option.some.inj (found'.symm.trans found)
          obtain ⟨last, notYet⟩ := waiting key msg' there
          intro lossless
          rcases lossless key msg' (by rwa [SafeSend.step, latest]) with stays | sent
          · rw [SafeSend.step, map] at stays
            simp at stays
          · rw [SafeSend.step, handed] at sent
            simp [notYet, vain] at sent

theorem run_snoc (s : SafeSend) (calls : List Call) (call : Call) :
    s.run (calls ++ [call]) = (s.run calls).step call := by
  simp [run]

/-- At every point of a run every key has its last message waiting or handed over,
    exactly if no tick of the run fails to transmit the message it finds. -/
theorem lossless_iff {r : XBeeRemote} (empty : r.safeSendMap = ∅) (calls : List Call) :
    (∀ before after, calls = before ++ after → (run { remote := r } before).Lossless) ↔
      ∀ before call after, calls = before ++ call :: after →
        (run { remote := r } before).Succeeds call := by
  have waiting : Waiting { remote := r } := by
    intro key msg found
    rw [empty] at found
    cases found
  constructor
  · intro lossless before call after split
    by_contra fails
    refine not_lossless (waiting.run before) fails ?_
    rw [← run_snoc]
    exact lossless (before ++ [call]) after (by simpa using split)
  · intro succeeds before
    -- From the front: a prefix is lossless if the prefix before its last call is.
    induction before using List.reverseRecOn with
    | nil => exact fun _ _ _ _ last => nomatch last
    | append_singleton before call ih =>
        intro after split
        rw [run_snoc]
        have split' : calls = before ++ call :: after := by simpa using split
        exact (ih (call :: after) split').step (succeeds before call after split')

/-- A free entry, but no room in the transmit buffer. -/
def jammed : Airtime where
  requests := Vector.replicate 4 false
  requestsAfterTick := Vector.replicate 4 false
  clearToSend := true
  free := 0

theorem lossless_iff_jammed :
    (∀ before after, [.safeSendMsg "L" .LED_INTENSITY [10], .tick jammed] = before ++ after →
        (run { remote := { addr := [] } } before).Lossless) ↔
      ∀ before call after,
        [.safeSendMsg "L" .LED_INTENSITY [10], .tick jammed] = before ++ call :: after →
          (run { remote := { addr := [] } } before).Succeeds call :=
  lossless_iff rfl [.safeSendMsg "L" .LED_INTENSITY [10], .tick jammed]

/-- The only tick finds the message of an LED and cannot transmit it. -/
theorem not_lossless_jammed :
    ¬∀ before after, [.safeSendMsg "L" .LED_INTENSITY [10], .tick jammed] = before ++ after →
      (run { remote := { addr := [] } } before).Lossless := by
  intro lossless
  rcases lossless _ [] (List.append_nil _).symm "L" [0x20, 10, 0xFF] (by decide) with stays | sent
  · exact absurd stays (by decide)
  · exact absurd sent (by decide)

end SafeSend

end VoxPopuli
