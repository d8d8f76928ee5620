import VoxPopuli.Lib.Delimited
import VoxPopuli.Model.Frame

/-! # Messages from a remote

`receiveRX` puts the messages of a remote together from whatever pieces the radio
delivers, and hands the button messages to the model of the remote. The state of the
buttons in the model follows the messages.
-/

namespace VoxPopuli

/-- A call of `setButtonState`. -/
structure ButtonCall where
  button : XBEE_MSG_TYPE
  pressed : Bool
  deriving DecidableEq, Repr

/-- Which buttons are down after a call. -/
def ButtonCall.after (down : XBEE_MSG_TYPE → Bool) (c : ButtonCall) : XBEE_MSG_TYPE → Bool :=
  Function.update down c.button c.pressed

/-- What the calls say about one button. -/
def ButtonCall.seen (calls : List ButtonCall) (b : XBEE_MSG_TYPE) : List Bool :=
  (calls.filter fun c => c.button = b).map ButtonCall.pressed

namespace XBeeRemote

/-- The call which a message asks for. What stands behind the end of a string reads as 0. -/
def buttonCall? (cmd : StdString) : Option ButtonCall :=
  let pressed := decide (cmd.getD 1 0 ≠ 0)
  if cmd.getD 0 0 = XBEE_MSG_TYPE.BUTTON_LEFT.code then some ⟨.BUTTON_LEFT, pressed⟩
  else if cmd.getD 0 0 = XBEE_MSG_TYPE.BUTTON_RIGHT.code then some ⟨.BUTTON_RIGHT, pressed⟩
  else if cmd.getD 0 0 = XBEE_MSG_TYPE.BUTTON_UP.code then some ⟨.BUTTON_UP, pressed⟩
  else if cmd.getD 0 0 = XBEE_MSG_TYPE.BUTTON_DOWN.code then some ⟨.BUTTON_DOWN, pressed⟩
  else if cmd.getD 0 0 = XBEE_MSG_TYPE.BUTTON_ACTION.code then some ⟨.BUTTON_ACTION, pressed⟩
  else none

/-- `handleMessage` with the remote which `remoteModel` gives, and the call it makes. -/
def handleMessage (w : World) (remoteModel : Nat) (cmd : StdString) :
    Except Fault (List ButtonCall × World) :=
  match buttonCall? cmd with
  | none => pure ([], w)
  | some call => do
      let w ← Remote.setButtonState w remoteModel call.button call.pressed
      pure ([call], w)

def handleMessages (w : World) (remoteModel : Nat) :
    List StdString → Except Fault (List ButtonCall × World)
  | [] => pure ([], w)
  | msg :: rest => do
      let (calls, w) ← handleMessage w remoteModel msg
      let (later, w) ← handleMessages w remoteModel rest
      pure (calls ++ later, w)

/-- `receiveRX`, with the calls of `setButtonState` it makes. -/
def receiveRX (x : XBeeRemote) (w : World) (remoteModel : Nat) (cmd : StdString) :
    Except Fault (List ButtonCall × XBeeRemote × World) := do
  let (msgs, left) := splitRX [] (x.rxBuffer ++ cmd)
  let (calls, w) ← handleMessages w remoteModel msgs
  pure (calls, { x with rxBuffer := left }, w)

/-- Piece after piece of what a remote sends. -/
def receiveAll (x : XBeeRemote) (w : World) (remoteModel : Nat) :
    List StdString → Except Fault (List ButtonCall × XBeeRemote × World)
  | [] => pure ([], x, w)
  | cmd :: rest => do
      let (calls, x, w) ← x.receiveRX w remoteModel cmd
      let (later, x, w) ← x.receiveAll w remoteModel rest
      pure (calls ++ later, x, w)

/-! ## Reassembly -/

theorem splitRX_eq (buf s : StdString) :
    splitRX buf s = ((Delimited.blocks XBEE_MSG_TYPE.FRAME_END.code buf s).filter (· ≠ []),
      Delimited.remainder XBEE_MSG_TYPE.FRAME_END.code buf s) := by
  induction s generalizing buf with
  | nil => rfl
  | cons b rest ih =>
      rw [splitRX, Delimited.blocks, Delimited.remainder]
      split
      · split
        · rename_i empty
          rw [ih, List.filter_cons_of_neg (by simpa using empty), empty]
        · rename_i filled
          rw [ih, List.filter_cons_of_pos (by simpa using filled)]
      · exact ih _

theorem handleMessages_append (w : World) (r : Nat) (msgs more : List StdString) :
    handleMessages w r (msgs ++ more) = (do
      let (calls, w) ← handleMessages w r msgs
      let (later, w) ← handleMessages w r more
      pure (calls ++ later, w)) := by
  induction msgs generalizing w with
  | nil => simp [handleMessages]
  | cons msg msgs ih => simp [handleMessages, ih, List.append_assoc]

/-- What the pieces hand to `handleMessage`, one call of `receiveRX` after the other, and
    the `rxBuffer` they leave. -/
def reassemble (buffer : StdString) : List StdString → List StdString × StdString
  | [] => ([], buffer)
  | cmd :: rest =>
      let (msgs, left) := splitRX [] (buffer ++ cmd)
      let (later, left) := reassemble left rest
      (msgs ++ later, left)

theorem receiveAll_reassemble (x : XBeeRemote) (w : World) (r : Nat) (chunks : List StdString) :
    x.receiveAll w r chunks = (do
      let (calls, w) ← handleMessages w r (reassemble x.rxBuffer chunks).1
      pure (calls, { x with rxBuffer := (reassemble x.rxBuffer chunks).2 }, w)) := by
  induction chunks generalizing x w with
  | nil => simp [receiveAll, reassemble, handleMessages]
  | cons cmd rest ih =>
      rw [receiveAll, receiveRX, reassemble]
      simp only [bind_assoc, pure_bind, handleMessages_append]
      congr 1
      funext q
      rw [ih]
      simp

theorem splitRX_pending {buffer : StdString} (pending : XBEE_MSG_TYPE.FRAME_END.code ∉ buffer)
    (cmd : StdString) : splitRX [] (buffer ++ cmd) = splitRX buffer cmd := by
  simp [splitRX_eq, Delimited.blocks_append, Delimited.remainder_append,
    Delimited.blocks_of_not_mem pending, Delimited.remainder_of_not_mem pending]

theorem splitRX_append (buffer s t : StdString) :
    splitRX buffer (s ++ t) = ((splitRX buffer s).1 ++ (splitRX (splitRX buffer s).2 t).1,
      (splitRX (splitRX buffer s).2 t).2) := by
  simp [splitRX_eq, Delimited.blocks_append, Delimited.remainder_append]

theorem not_mem_splitRX {buffer : StdString} (pending : XBEE_MSG_TYPE.FRAME_END.code ∉ buffer)
    (s : StdString) : XBEE_MSG_TYPE.FRAME_END.code ∉ (splitRX buffer s).2 := by
  rw [splitRX_eq]
  exact Delimited.not_mem_remainder pending

/-- The pieces do not matter: only their concatenation is looked at. -/
theorem reassemble_eq {buffer : StdString} (pending : XBEE_MSG_TYPE.FRAME_END.code ∉ buffer)
    (chunks : List StdString) : reassemble buffer chunks = splitRX buffer chunks.flatten := by
  induction chunks generalizing buffer with
  | nil => rfl
  | cons cmd rest ih =>
      have left := not_mem_splitRX pending cmd
      rw [reassemble, splitRX_pending pending, List.flatten_cons, splitRX_append, ← ih left]

theorem receiveAll_eq (x : XBeeRemote) (w : World) (r : Nat) (chunks : List StdString)
    (pending : XBEE_MSG_TYPE.FRAME_END.code ∉ x.rxBuffer) :
    x.receiveAll w r chunks = (do
      let msgs := Delimited.blocks XBEE_MSG_TYPE.FRAME_END.code x.rxBuffer chunks.flatten
      let left := Delimited.remainder XBEE_MSG_TYPE.FRAME_END.code x.rxBuffer chunks.flatten
      let (calls, w) ← handleMessages w r (msgs.filter (· ≠ []))
      pure (calls, { x with rxBuffer := left }, w)) := by
  rw [receiveAll_reassemble, reassemble_eq pending, splitRX_eq]

/-- The messages are the segments between the end markers, the last one is left. -/
theorem splitRX_segments {buffer : StdString} (pending : XBEE_MSG_TYPE.FRAME_END.code ∉ buffer)
    (s : StdString) :
    splitRX buffer s = (((buffer ++ s).splitOn XBEE_MSG_TYPE.FRAME_END.code).dropLast.filter
      (· ≠ []), ((buffer ++ s).splitOn XBEE_MSG_TYPE.FRAME_END.code).getLastD []) := by
  have segments := Delimited.blocks_concat_remainder pending s
  rw [splitRX_eq, ← segments, List.dropLast_concat, List.getLastD_concat]

end XBeeRemote

/-! ## A button gets through -/

/-- Every group has its global remote and all of its avatars. -/
def World.Complete (w : World) : Prop :=
  ∀ g ∈ w.vGroups, w.globalRemote g ≠ none ∧ none ∉ w.virtualRemotes g

theorem World.Complete.congr {w w' : World} (h : w.Complete)
    (roster : w'.toRoster = w.toRoster) : w'.Complete := by
  unfold Complete
  rw [roster]
  exact h

section Finishes

variable {w : World} {e : FTriggerEvent} (button : e.toNat < 5)

include button

theorem VirtualRemote.fastTrigger_finishes (v : VRef) (data : HexData) :
    Ends (fun _ => False) (fastTrigger w v e data) fun p => p.2.toRoster = w.toRoster := by
  have other : e ≠ .led := by
    rintro rfl
    exact absurd button (by decide)
  have kept : Ends w.MayFail (fastTrigger w v e data) fun p =>
      World.Keeps { notified := Set.univ } w p.2 := keeps_fastTrigger (Set.mem_univ v) e data
  rw [fastTrigger, if_neg other, dif_pos button] at kept ⊢
  exact kept.roster

theorem VirtualGroup.fastTrigger_finishes {g : Nat} (complete : w.Complete)
    (inside : g ∈ w.vGroups) (rName : QString) (data : HexData) :
    Ends (fun _ => False) (fastTrigger w g rName e data) fun w' => w'.toRoster = w.toRoster := by
  obtain ⟨global, avatars⟩ := complete g inside
  unfold fastTrigger
  split
  · rfl
  · rename_i id _
    have start : w.toRoster = w.toRoster ∧ none ∉ w.virtualRemotes g := ⟨rfl, avatars⟩
    refine Ends.bind (M := fun w' => w'.toRoster = w.toRoster) ((Ends.foldlM
      (I := fun rest w' => w'.toRoster = w.toRoster ∧ none ∉ rest) start ?_).mono
        fun w' h => h.1) ?_
    · rintro r rest w₁ ⟨same, gapless⟩
      obtain ⟨filled, others⟩ : r ≠ none ∧ none ∉ rest := by
        simpa [eq_comm] using gapless
      cases r with
      | none => exact absurd rfl filled
      | some v =>
          rw [triggerAvatar]
          split
          · apply (VirtualRemote.fastTrigger_finishes button v data).bind
            exact fun p kept => ⟨kept.trans same, others⟩
          · exact ⟨same, others⟩
    · intro w₁ same
      have same' : w₁.globalRemote g = w.globalRemote g := by rw [same]
      rw [same']
      cases found : w.globalRemote g with
      | none => exact absurd found global
      | some v =>
          apply (VirtualRemote.fastTrigger_finishes button v data).bind
          exact fun p kept => kept.trans same

theorem VirtualNetwork.fastTrigger_finishes (complete : w.Complete)
    (virtualElements : QStringList) (rName : QString) (data : HexData) :
    Ends (fun _ => False) (fastTrigger w virtualElements rName e data) fun w' =>
      w'.toRoster = w.toRoster := by
  refine Ends.foldlM (I := fun _ (w' : World) => w'.toRoster = w.toRoster) rfl ?_
  intro elementName rest w₁ same
  have complete₁ := complete.congr same
  rw [triggerElement]
  split
  · rename_i g found
    exact (VirtualGroup.fastTrigger_finishes button complete₁ (groupByName_eq_some found).1 rName
      data).mono fun w' kept => kept.trans same
  · split
    · apply (VirtualRemote.fastTrigger_finishes button _ data).bind
      exact fun p kept => kept.trans same
    · exact same

/-- What a button needs to get through: complete groups and a patch which is not locked. -/
def World.Serving (w : World) : Prop := w.Complete ∧ w.mutex ≠ .held

omit button in
theorem World.Serving.congr {w' : World} (roster : w'.toRoster = w.toRoster) :
    w'.Serving ↔ w.Serving := by
  unfold Serving Complete
  rw [roster]

theorem Remote.fastTrigger_ends (r : Nat) (data : HexData) :
    Ends (fun _ => ¬w.Serving) (fastTrigger w r e data) fun p => World.Keeps w.live w p.2 := by
  have kept := keeps_fastTrigger (w := w) r e data
  cases result : fastTrigger w r e data with
  | ok p => exact kept.of_ok result
  | error failure =>
      rintro ⟨complete, free⟩
      have routed : Ends (fun _ => False) (PatchNode.fastTriggerRemote w (w.remoteName r) e data)
          fun _ => True := by
        obtain ⟨w', locked, unlocks, -⟩ := World.lock_eq free
        simp only [PatchNode.fastTriggerRemote, locked, bind, Except.bind, unlocks]
        exact (VirtualNetwork.fastTrigger_finishes button complete _ _ _).mono fun _ _ => trivial
      have finishes : Ends (fun _ => False) (fastTrigger w r e data) fun _ => True := by
        cases e with
        | led | led1 | led2 | led3 => exact absurd button (by decide)
        | up | down | right | left | action => exact routed.bind fun _ _ => trivial
      rw [result] at finishes
      exact finishes

end Finishes

/-! ## The state of the buttons -/

namespace Remote

/-- The buttons of a remote are stored as `down` says. -/
def Shows (w : World) (r : Nat) (down : XBEE_MSG_TYPE → Bool) : Prop :=
  ∀ b e bName, button? b = some (e, bName) →
    w.get (.remote r) bName = some (.string (if down b then "down" else "up"))

variable {w : World}

theorem button?_mem {b : XBEE_MSG_TYPE} {e : FTriggerEvent} {bName : QString}
    (known : button? b = some (e, bName)) : bName ∈ buttonNames := by
  cases b <;> cases known <;> decide

theorem button?_injective {b b' : XBEE_MSG_TYPE} {e e' : FTriggerEvent} {bName : QString}
    (known : button? b = some (e, bName)) (known' : button? b' = some (e', bName)) : b' = b := by
  have name : (button? b').map Prod.snd = some bName := by rw [known']; rfl
  cases b <;> cases known <;> cases b' <;> first | rfl | exact absurd name (by decide)

theorem button?_lt {b : XBEE_MSG_TYPE} {e : FTriggerEvent} {bName : QString}
    (known : button? b = some (e, bName)) : e.toNat < 5 := by
  cases b <;> cases known <;> decide

/-- Whatever the button sets off elsewhere, it is stored, and the others are left alone. -/
theorem setButtonState_ends {r : Nat} {down : XBEE_MSG_TYPE → Bool} (shown : Shows w r down)
    (b : XBEE_MSG_TYPE) (pressed : Bool) :
    Ends (fun _ => ¬w.Serving) (setButtonState w r b pressed) fun w' =>
      w'.toRoster = w.toRoster ∧ Shows w' r (Function.update down b pressed) := by
  cases kind : button? b with
  | none =>
      rw [setButtonState_other kind]
      refine ⟨rfl, fun b' e bName known => ?_⟩
      have other : b' ≠ b := by
        rintro rfl
        rw [kind] at known
        cases known
      rw [Function.update_of_ne other]
      exact shown b' e bName known
  | some q =>
      obtain ⟨e, bName⟩ := q
      rw [setButtonState_known kind]
      apply (fastTrigger_ends (button?_lt kind) r _).bind
      rintro ⟨result, w₁⟩ kept
      have stored : World.Keeps (w.pressing r) w₁
          (w₁.setString (.remote r) bName (if pressed then "down" else "up")).2 :=
        World.keeps_setString (F := w.pressing r) (n := .remote r) trivial (fun _ => rfl) _
      refine ⟨stored.roster.trans kept.roster, fun b' e' bName' known => ?_⟩
      by_cases same : b' = b
      · subst same
        cases kind.symm.trans known
        rw [Function.update_self]
        exact (World.get_setString w₁ (.remote r) bName _ bName).trans (if_pos rfl)
      · have different : bName' ≠ bName := by
          rintro rfl
          exact same (button?_injective kind known)
        rw [Function.update_of_ne same, ← shown b' e' bName' known,
          ← kept.buttons r (Set.notMem_empty r) bName' (button?_mem known)]
        exact (World.get_setString w₁ (.remote r) bName _ bName').trans (if_neg different)

end Remote

namespace XBeeRemote

variable {w : World}

theorem handleMessages_ends {r : Nat} {down : XBEE_MSG_TYPE → Bool}
    (shown : Remote.Shows w r down) (msgs : List StdString) :
    Ends (fun _ => ¬w.Serving) (handleMessages w r msgs) fun q =>
      q.1 = msgs.filterMap buttonCall? ∧
        Remote.Shows q.2 r (q.1.foldl ButtonCall.after down) := by
  induction msgs generalizing w down with
  | nil => exact ⟨rfl, shown⟩
  | cons msg rest ih =>
      rw [handleMessages, handleMessage, List.filterMap_cons]
      cases call : buttonCall? msg with
      | none =>
          apply (ih shown).bind
          rintro ⟨later, w₂⟩ ⟨calls, shown₂⟩
          exact ⟨calls, shown₂⟩
      | some c =>
          have pressed := Remote.setButtonState_ends shown c.button c.pressed
          have handled : Ends (fun _ => ¬w.Serving)
              (do
                let w ← Remote.setButtonState w r c.button c.pressed
                pure ([c], w)) fun q => q.1 = [c] ∧ q.2.toRoster = w.toRoster ∧
                  Remote.Shows q.2 r (ButtonCall.after down c) :=
            pressed.bind fun w₁ h => ⟨rfl, h⟩
          apply handled.bind
          rintro ⟨_, w₁⟩ ⟨rfl, same, shown₁⟩
          have rest := ih shown₁
          rw [World.Serving.congr same] at rest
          apply rest.bind
          rintro ⟨later, w₂⟩ ⟨rfl, shown₂⟩
          exact ⟨rfl, shown₂⟩

end XBeeRemote

end VoxPopuli
