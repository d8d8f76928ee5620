import VoxPopuli.Model.Routing
import VoxPopuli.XBee.ReceiveRX

/-! # Buttons of emulated remotes

An emulated remote is driven by commands and by OSC messages. Both lead to the same state
and fire the same events, except for the right button, whose name the command looks for
under another spelling: there the command is refused and nothing happens.
-/

namespace VoxPopuli

open World VirtualNetwork

variable {w : World}

/-- `EmulatedRemote::readOsc`. -/
def EmulatedRemote.readOsc (w : World) (r : Nat) : List QVariant → Except Fault World
  | some (.string name) :: some (.bool state) :: _ =>
      if name = "up" then Remote.setButtonState w r .BUTTON_UP state
      else if name = "down" then Remote.setButtonState w r .BUTTON_DOWN state
      else if name = "left" then Remote.setButtonState w r .BUTTON_LEFT state
      else if name = "right" then Remote.setButtonState w r .BUTTON_RIGHT state
      else if name = "action" then Remote.setButtonState w r .BUTTON_ACTION state
      else pure w
  | _ => pure w

/-! ## Both ways to a button -/

/-- The name of a button in a command. -/
def Button.commandName (b : Button) : QString := b.event.eventName

/-- The name of a button in an OSC message. -/
def Button.oscName (b : Button) : QString := b.commandName.toLower

/-- The right button. -/
def Button.right : Button := 2

namespace EmulatedRemote

theorem readOsc_button (r : Nat) (b : Button) (pressed : Bool) :
    readOsc w r [some (.string b.oscName), some (.bool pressed)] =
      Remote.setButtonState w r (Remote.message b) pressed := by
  fin_cases b <;> rfl

theorem setValue_button {b : Button} (other : b ≠ .right) (r : Nat) (pressed : Bool) :
    Prod.snd <$> setValue w r b.commandName (pressName pressed) =
      Remote.setButtonState w r (Remote.message b) pressed := by
  have known : button? b.commandName = some (Remote.message b) := by
    fin_cases b <;> first | rfl | exact absurd rfl other
  have down : (pressName true).toLower ≠ "up" ∧ pressName true ≠ "0" ∧
      (pressName true).toLower = "down" := by decide
  have up : (pressName false).toLower = "up" := by decide
  rw [setValue, known]
  cases pressed with
  | true =>
      simp only [down, true_or, if_true]
      cases Remote.setButtonState w r (Remote.message b) true <;> rfl
  | false =>
      simp only [up, true_or, if_true]
      cases Remote.setButtonState w r (Remote.message b) false <;> rfl

/-- The command for the right button is refused. -/
theorem setValue_right (r : Nat) (pressed : Bool) :
    setValue w r (Button.right).commandName (pressName pressed) =
      .ok (w.unknownValue (.remote r) "Right", w) := rfl

end EmulatedRemote

/-! ## Buttons which reach nothing -/

namespace VirtualNetwork

theorem triggerElement_quiet (h : w.WellFormed) {rName vName : QString}
    (quiet : targets w w.slaves rName vName = []) (e : FTriggerEvent) (data : HexData) :
    triggerElement rName e data w vName = .ok w := by
  rw [targets] at quiet
  rw [triggerElement]
  cases group : groupByName w vName with
  | some g =>
      obtain ⟨inside, -⟩ := groupByName_eq_some group
      obtain ⟨global, avatars, ok⟩ := h.groups g inside
      rw [group] at quiet
      have absent : (w.slaves g).idxOf? rName = none := by
        cases position : (w.slaves g).idxOf? rName with
        | none => rfl
        | some id =>
            dsimp only at quiet
            rw [VirtualGroup.targets, position, ok.globalRemote] at quiet
            simp at quiet
      dsimp only
      rw [VirtualGroup.fastTrigger, absent]
      rfl
  | none =>
      rw [group] at quiet
      cases remote : remoteByName w vName with
      | none => rfl
      | some n =>
          rw [remote] at quiet
          cases quiet

theorem fastTrigger_quiet (h : w.WellFormed) {vNames : QStringList} {rName : QString}
    (quiet : vNames.flatMap (targets w w.slaves rName) = []) (e : FTriggerEvent) (data : HexData) :
    fastTrigger w vNames rName e data = .ok w := by
  rw [fastTrigger]
  induction vNames with
  | nil => rfl
  | cons vName rest ih =>
      obtain ⟨first, others⟩ := List.append_eq_nil_iff.mp (List.flatMap_cons ▸ quiet)
      rw [List.foldlM_cons, triggerElement_quiet h first]
      exact ih others

end VirtualNetwork

/-- A button of the remote reaches no virtual remote. -/
def World.Quiet (w : World) (r : Nat) : Prop :=
  (w.patch.virtualsOf (w.remoteName r)).flatMap
    (VirtualNetwork.targets w w.slaves (w.remoteName r)) = []

namespace Remote

/-- A button changes nothing exactly when it reaches nothing and is stored already. -/
theorem setButtonState_eq_self_iff (h : w.WellFormed) (unlocked : w.Unlocked) (r : Nat) (b : Button)
    (pressed : Bool) :
    setButtonState w r (message b) pressed = .ok w ↔
      w.Quiet r ∧ w.get (.remote r) b.commandName = some (.string (pressName pressed)) := by
  have known : button? (message b) = some (b.event, b.commandName) := by
    fin_cases b <;> rfl
  constructor
  · intro same
    refine ⟨?_, ?_⟩
    · obtain ⟨w', run, log⟩ := setButtonState_log h unlocked r b pressed
      cases same.symm.trans run
      have silent := List.append_right_eq_self.mp log.symm
      rw [List.flatMap_eq_nil_iff] at silent
      apply List.eq_nil_iff_forall_not_mem.mpr
      intro v reached
      have fired := silent v reached
      rw [Event.firing] at fired
      cases fired
    · rw [setButtonState_known known] at same
      obtain ⟨q, -, stored⟩ := bind_eq_ok.mp same
      have told := get_setString q.2 (.remote r) b.commandName (pressName pressed) b.commandName
      rw [if_pos rfl] at told
      cases stored
      exact told
  · rintro ⟨quiet, stored⟩
    obtain ⟨w₁, locked, unlocks, patch⟩ := lock_eq unlocked
    have through : PatchNode.fastTriggerRemote w (w.remoteName r) b.event (pressData pressed) =
        .ok w := by
      simp only [PatchNode.fastTriggerRemote, locked, bind, Except.bind, unlocks, patch]
      exact VirtualNetwork.fastTrigger_quiet h quiet _ _
    have button : fastTrigger w r b.event (pressData pressed) = (do
        let w ← PatchNode.fastTriggerRemote w (w.remoteName r) b.event (pressData pressed)
        pure (.noError, w)) := by
      fin_cases b <;> rfl
    rw [through] at button
    have kept : (w.setString (.remote r) b.commandName (pressName pressed)).2 = w := by
      rw [setString, assign, stored]
      simp
    rw [setButtonState_known known]
    exact bind_eq_ok.mpr ⟨(.noError, w), button, congrArg Except.ok kept⟩

end Remote

namespace EmulatedRemote

/-- A command and an OSC message for a button lead to the same state, with the same events in
    its log, if and only if the button is not the right one or has no effect. -/
theorem command_eq_osc_iff {mutex : MutexState} (reachable : w.Reachable mutex)
    (unlocked : mutex ≠ .held) (r : Nat) (b : Button) (pressed : Bool) :
    Prod.snd <$> setValue w r b.commandName (pressName pressed) =
        readOsc w r [some (.string b.oscName), some (.bool pressed)] ↔
      b ≠ .right ∨ w.Quiet r ∧ w.get (.remote r) "Right" = some (.string (pressName pressed)) := by
  obtain ⟨sound, same⟩ := reachable.sound
  have idle : w.Unlocked := by
    rw [Unlocked, same]
    exact unlocked
  have noEffect := Remote.setButtonState_eq_self_iff sound.wellFormed idle r .right pressed
  rw [readOsc_button]
  by_cases right : b = .right
  · subst right
    rw [setValue_right]
    refine eq_comm.trans (noEffect.trans ?_)
    simp only [ne_eq, not_true_eq_false, false_or]
    rfl
  · exact iff_of_true (setValue_button right r pressed) (.inl right)

/-- An emulated remote which is linked to a virtual remote. -/
def linkedRemote : List Op :=
  [.emulateRemote "E" "/e" "", .addVirtualRemote "V", .patch (.connect "E" "V")]

/-- Its left button. -/
theorem command_eq_osc_left :
    Ends (fun _ => False) ((initial .free fun _ => none).run linkedRemote) fun w =>
      Prod.snd <$> setValue w 0 (Button.commandName 3) (pressName true) =
          readOsc w 0 [some (.string (Button.oscName 3)), some (.bool true)] ↔
        (3 : Button) ≠ .right ∨
          w.Quiet 0 ∧ w.get (.remote 0) "Right" = some (.string (pressName true)) := by
  have run : Ends (fun _ => False) ((initial .free fun _ => none).run linkedRemote)
      fun _ => True := by decide +kernel
  obtain ⟨w, run, -⟩ := ends_total.mp run
  exact ends_total.mpr ⟨w, run, command_eq_osc_iff ⟨_, _, run⟩ (by decide) 0 3 true⟩

/-- Its right button is pressed by the OSC message, but not by the command. -/
theorem command_ne_osc_right :
    Ends (fun _ => False) ((initial .free fun _ => none).run linkedRemote) fun w =>
      0 ∈ w.remotes ∧ w.isReal 0 = false ∧
        Prod.snd <$> setValue w 0 (Button.commandName 2) (pressName true) ≠
          readOsc w 0 [some (.string (Button.oscName 2)), some (.bool true)] := by
  have run : Ends (fun _ => False) ((initial .free fun _ => none).run linkedRemote) fun w =>
      (0 ∈ w.remotes ∧ w.isReal 0 = false) ∧
        Ends (fun _ => False) (readOsc w 0 [some (.string (Button.oscName 2)), some (.bool true)])
          fun w' => w'.log ≠ w.log := by decide +kernel
  apply run.mono
  rintro w ⟨⟨listed, emulated⟩, pressed⟩
  refine ⟨listed, emulated, fun same => ?_⟩
  have refused := setValue_right (w := w) 0 true
  rw [Button.right] at refused
  rw [← same, refused] at pressed
  exact pressed rfl

end EmulatedRemote

end VoxPopuli
