import VoxPopuli.XBee.Agreement

/-! # Uses of what the other side has

A message about a button needs the real remote of the list, a command of the user the
entry of the radio, and the callback of an AT command the address which the response came
from. Each is used without a check. While the updates keep their order the other side's
object is missing only as long as an update about it is on its way.
-/

namespace VoxPopuli

open Pending

namespace Daemon

variable {d : Daemon}

/-- The frame completes a message about a button. -/
def Presses (x : XBeeRemote) (data : StdString) : Prop :=
  ∃ msg ∈ (XBeeRemote.splitRX [] (x.rxBuffer ++ data)).1, XBeeRemote.buttonCall? msg ≠ none

/-- The first message about a button comes when the real remote is in the list or nothing
    about it is on its way; a command goes to a real remote which has its pointer or which
    no removal is on its way for; no AT command fails without a source. -/
def Ready (d : Daemon) : Event → Prop
  | .receive addr data => ∀ i x, d.xbeeRemotes.findIdx? (fun x => x.addr = addr) = some i →
      d.xbeeRemotes[i]? = some x → Presses x data → x.remoteModel = none →
      intToHexStr addr ∈ d.macs ∨ Quiet d.coming (intToHexStr addr)
  | .sendTX k => ∀ r, d.remotes[k]? = some r → r.remote = none →
      settled true d.coming r.mac = true
  | .atResponse _ none true => False
  | _ => True

/-- `remoteModel` has or finds an object. -/
def Known (d : Daemon) (x : XBeeRemote) : Prop :=
  x.remoteModel ≠ none ∨ intToHexStr x.addr ∈ d.macs

theorem remoteModel_known (x : XBeeRemote) :
    ((d.remoteModel x).1 ≠ none ↔ d.Known x) ∧
      (d.remoteModel x).2.remoteModel = (d.remoteModel x).1 := by
  unfold remoteModel
  split
  · rename_i id cached
    exact ⟨iff_of_true (Option.some_ne_none id) (.inl (cached ▸ Option.some_ne_none id)), cached⟩
  · rename_i empty
    refine ⟨?_, rfl⟩
    rw [Known, empty, macs]
    simp

/-- Messages are handled to the end unless one about a button finds no object. -/
theorem handleMessages_known (x : XBeeRemote) (msgs : List StdString) :
    Ends (fun _ => (∃ msg ∈ msgs, XBeeRemote.buttonCall? msg ≠ none) ∧ ¬d.Known x)
      (msgs.foldlM d.handleMessage x)
      fun _ => (∃ msg ∈ msgs, XBeeRemote.buttonCall? msg ≠ none) → d.Known x := by
  induction msgs generalizing x with
  | nil =>
      rintro ⟨msg, member, -⟩
      exact absurd member List.not_mem_nil
  | cons msg rest ih =>
      rw [List.foldlM_cons, handleMessage]
      cases call : XBeeRemote.buttonCall? msg with
      | none =>
          have skip : (∃ m ∈ msg :: rest, XBeeRemote.buttonCall? m ≠ none) ↔
              ∃ m ∈ rest, XBeeRemote.buttonCall? m ≠ none := by simp [call]
          rw [skip]
          exact ih x
      | some c =>
          obtain ⟨found, cached⟩ := remoteModel_known (d := d) x
          have here : ∃ m ∈ msg :: rest, XBeeRemote.buttonCall? m ≠ none :=
            ⟨msg, List.mem_cons_self, by simp [call]⟩
          rcases result : d.remoteModel x with ⟨_ | id, x'⟩
          · rw [result] at found
            exact ⟨here, fun known => found.mpr known rfl⟩
          · rw [result] at found cached
            have known : d.Known x := found.mp (Option.some_ne_none id)
            have known' : d.Known x' := .inl (cached ▸ Option.some_ne_none id)
            refine ((ih x').mono fun _ _ _ => known).mono_err ?_
            rintro _ ⟨-, unknown⟩
            exact absurd known' unknown

/-- Nothing which is not there is used if and only if the step is ready. -/
theorem Mirrored.step_ready (h : d.Mirrored) (e : Event) :
    Ends (fun _ => ¬d.Ready e) (d.step e) fun _ => d.Ready e := by
  cases e with
  | scan | finishAdd | deliver | remote | destroy => trivial
  | atResponse t source failed =>
      cases failed with
      | false => cases source <;> trivial
      | true =>
          cases source with
          | none => exact id
          | some addr => trivial
  | receive addr data =>
      rw [Daemon.step, xbeeTX]
      cases index : d.xbeeRemotes.findIdx? fun x => x.addr = addr with
      | none =>
          intro i x found
          rw [index] at found
          cases found
      | some i =>
          obtain ⟨inside, same, -⟩ := List.findIdx?_eq_some_iff_getElem.mp index
          have entry : d.xbeeRemotes[i]? = some d.xbeeRemotes[i] := List.getElem?_eq_getElem inside
          have own : d.xbeeRemotes[i].addr = addr := by simpa using same
          have there : intToHexStr addr ∈ d.addresses :=
            List.mem_map.mpr ⟨_, List.getElem_mem inside, by rw [own]⟩
          have ready : d.Ready (.receive addr data) ↔
              (Presses d.xbeeRemotes[i] data → d.Known d.xbeeRemotes[i]) := by
            rw [Known, own]
            constructor
            · intro ready presses
              by_cases empty : d.xbeeRemotes[i].remoteModel = none
              · refine .inr ?_
                rcases ready i _ index entry presses empty with listed | quiet
                · exact listed
                · exact (h.quiet quiet).mpr there
              · exact .inl empty
            · intro known j x found entry' presses empty
              rw [index] at found
              cases found
              rw [entry] at entry'
              cases entry'
              exact .inl ((known presses).resolve_left fun cached => cached empty)
          rw [ready]
          dsimp only
          rw [entry]
          refine Ends.bind (((handleMessages_known _ _).mono ?_).mono_err ?_) fun _ known => known
          · intro x known presses
            exact known presses
          · rintro _ ⟨presses, unknown⟩ known
            exact unknown (known presses)
  | sendTX k =>
      rw [Daemon.step, sendTX]
      cases found : d.remotes[k]? with
      | none =>
          intro r there
          rw [found] at there
          cases there
      | some r =>
          have member : r.mac ∈ d.macs := List.mem_map.mpr ⟨r, List.mem_of_getElem? found, rfl⟩
          have last : settled true d.coming r.mac = decide (r.mac ∈ d.addresses) := by
            rw [← h.follows r.mac, decide_eq_true member]
          have ready : d.Ready (.sendTX k) ↔ ¬(d.remote r).isNone := by
            rw [Option.isNone_iff_eq_none, remote_none_iff, not_and, not_not]
            constructor
            · intro ready empty
              have there := ready r found empty
              rwa [last, decide_eq_true_iff] at there
            · intro there r' found' empty
              rw [found] at found'
              cases found'
              rw [last, decide_eq_true_iff]
              exact there empty
          rw [ready]
          dsimp only
          split
          · rename_i missing
            exact fun there => there missing
          · rename_i there
            exact there

/-- A run whose updates keep their order never uses what is not there if and only if all
    of its steps are ready. -/
theorem no_null_iff_ready (mac : List Byte) (events : List Event)
    (orderly : Runs.Throughout step Orderly { mac := mac } events) :
    (∃ d', run { mac := mac } events = .ok d') ↔
      Runs.Throughout step Ready { mac := mac } events :=
  Runs.finishes_iff (mirrored_start mac) orderly (fun _ _ _ h condition first => h.step condition first)
    fun _ e h => h.step_ready e

/-- A remote is found and told to the list, and then a button of it is pressed. -/
theorem no_null_iff_ready_press :
    let events : List Daemon.Event :=
      [.scan .xbee [0, 0, 1, 1, 1, 1, 1, 1, 1, 1] false, .finishAdd .xbee, .deliver,
        .receive [1, 1, 1, 1, 1, 1, 1, 1]
          [XBEE_MSG_TYPE.BUTTON_LEFT.code, 1, XBEE_MSG_TYPE.FRAME_END.code], .sendTX 0]
    (∃ d', run { mac := [] } events = .ok d') ↔
      Runs.Throughout Daemon.step Ready { mac := [] } events :=
  no_null_iff_ready [] _ (by
    refine ⟨trivial, fun _ first => ?_⟩
    cases first
    refine ⟨trivial, fun _ second => ?_⟩
    cases second
    refine ⟨trivial, fun _ third => ?_⟩
    cases third
    exact ⟨trivial, fun _ _ => ⟨trivial, fun _ _ => trivial⟩⟩)

/-- The button is pressed before the list is told, the remote has left the radio when a
    command is sent to it, or the response of a local command tells of an error. -/
theorem not_no_null :
    run { mac := [] } [.scan .xbee [0, 0, 1, 1, 1, 1, 1, 1, 1, 1] false, .finishAdd .xbee,
      .receive [1, 1, 1, 1, 1, 1, 1, 1]
        [XBEE_MSG_TYPE.BUTTON_LEFT.code, 1, XBEE_MSG_TYPE.FRAME_END.code]] = .error .nullPointer ∧
    run { mac := [] } [.scan .xbee [0, 0, 1, 1, 1, 1, 1, 1, 1, 1] false, .finishAdd .xbee,
      .atResponse .xbee (some [1, 1, 1, 1, 1, 1, 1, 1]) true, .deliver, .sendTX 0] =
        .error .nullPointer ∧
    run { mac := [] } [.atResponse .main none true] = .error .nullPointer := by
  refine ⟨rfl, rfl, rfl⟩

end Daemon

end VoxPopuli
