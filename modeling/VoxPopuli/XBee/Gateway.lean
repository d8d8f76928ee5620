import VoxPopuli.Arduino.Buttons
import VoxPopuli.Model.LookupKeys
import VoxPopuli.Model.Narrowing
import VoxPopuli.XBee.Device

/-! # From the serial port to the models of the remotes

A frame with data is handed to the remote which its address names, and this one hands
messages to its model. What one remote sends leaves the others as they are, so that the
frames of many remotes may come in any order: each model follows its own remote, from the
pins of the firmware to the buttons in the model.
-/

namespace VoxPopuli

open XBeeFrame

/-! ## The handlers -/

namespace XBeeInterface

/-- `remoteModel`. The pointer is looked up once. -/
def remoteModel (w : World) (i : Nat) (x : XBeeRemote) : Option Nat × World :=
  match x.remoteModel with
  | some r => (some r, w)
  | none =>
      let r? := RemoteList.byMAC w (intToHexStr x.addr)
      (r?, { w with xbeeRemotes := w.xbeeRemotes.set i { x with remoteModel := r? } })

/-- `handleMessage` of the `i`-th remote. -/
def handleMessage (i : Nat) (w : World) (msg : StdString) : Except Fault World :=
  match XBeeRemote.buttonCall? msg, w.xbeeRemotes[i]? with
  | some call, some x =>
      match remoteModel w i x with
      | (none, _) => throw .nullPointer
      | (some r, w) => Remote.setButtonState w r call.button call.pressed
  | _, _ => pure w

/-- `receiveRX` of the `i`-th remote. -/
def receiveRX (w : World) (i : Nat) (x : XBeeRemote) (cmd : StdString) : Except Fault World :=
  let (msgs, left) := XBeeRemote.splitRX [] (x.rxBuffer ++ cmd)
  msgs.foldlM (handleMessage i)
    { w with xbeeRemotes := w.xbeeRemotes.set i { x with rxBuffer := left } }

/-- The address in a frame with data. -/
def source (frame : List Byte) : List Byte := (frame.drop 1).take 8

/-- `xbeeTX`; a frame without data is passed over. -/
def xbeeTX (w : World) (frame : List Byte) : Except Fault World :=
  if frame.length < 13 then pure w
  else
    match w.xbeeRemotes.findIdx? fun x => x.addr = source frame with
    | none => pure w
    | some i =>
        match w.xbeeRemotes[i]? with
        | none => pure w
        | some x => receiveRX w i x (frame.drop 12)

/-- `XBEE_FRAME_RECEIVE`. -/
def frameReceive : Byte := 0x90

/-- `_xbee_frame_dispatch` without the handlers of responses to AT commands. -/
def frameDispatch (w : World) (frame : List Byte) : Except Fault World :=
  if frame.head? = some frameReceive then xbeeTX w frame else pure w

end XBeeInterface

/-! ## A button leaves the radio alone -/

section Radio

variable {w : World} {e : FTriggerEvent}

theorem Event.xbeeRemotes_trigger (w : World) (v : VRef) (b : Button) (name : QString)
    (t : EventTrigger) : (trigger w v b name t).xbeeRemotes = w.xbeeRemotes := by
  unfold trigger
  induction t.entries generalizing w with
  | nil => rfl
  | cons entry rest ih =>
      rw [List.foldl_cons, ih]
      dsimp only
      split
      · rfl
      · rfl

theorem Event.xbeeRemotes_triggerEvent (w : World) (v : VRef) (b : Button) (name : QString) :
    (triggerEvent w v b name).2.xbeeRemotes = w.xbeeRemotes := by
  unfold triggerEvent
  dsimp only
  split <;> simp [xbeeRemotes_trigger, World.observe]

variable (other : e ≠ .led)

include other

theorem VirtualRemote.xbeeRemotes_fastTrigger (v : VRef) (data : HexData) :
    Ends (fun _ => True) (fastTrigger w v e data) fun p => p.2.xbeeRemotes = w.xbeeRemotes := by
  rw [fastTrigger, if_neg other]
  split
  · exact (World.xbeeRemotes_assign _ _ _ _ _).trans (Event.xbeeRemotes_triggerEvent w v _ _)
  · trivial

theorem VirtualGroup.xbeeRemotes_fastTrigger (g : Nat) (rName : QString) (data : HexData) :
    Ends (fun _ => True) (fastTrigger w g rName e data) fun w' =>
      w'.xbeeRemotes = w.xbeeRemotes := by
  unfold fastTrigger
  split
  · rfl
  · rename_i id _
    have avatars : Ends (fun _ => True) ((w.virtualRemotes g).foldlM (triggerAvatar id e data) w)
        fun w' => w'.xbeeRemotes = w.xbeeRemotes := by
      refine Ends.foldlM (I := fun _ (w' : World) => w'.xbeeRemotes = w.xbeeRemotes) rfl
        fun r rest w' same => ?_
      cases r with
      | none => trivial
      | some v =>
          rw [triggerAvatar]
          split
          · exact (VirtualRemote.xbeeRemotes_fastTrigger other v data).bind fun p done =>
              done.trans same
          · exact same
    apply avatars.bind
    intro w' same
    split
    · trivial
    · exact (VirtualRemote.xbeeRemotes_fastTrigger other _ data).bind fun p done => done.trans same

theorem PatchNode.xbeeRemotes_fastTriggerRemote (rName : QString) (data : HexData) :
    Ends (fun _ => True) (fastTriggerRemote w rName e data) fun w' =>
      w'.xbeeRemotes = w.xbeeRemotes := by
  have locked : Ends (fun _ => True) w.lock fun w' => w'.unlock.xbeeRemotes = w.xbeeRemotes := by
    unfold World.lock
    split
    · simp [World.unlock, *]
    · simp [World.unlock]
    · trivial
  apply locked.bind
  intro w₁ same
  refine Ends.foldlM (I := fun _ (w' : World) => w'.xbeeRemotes = w.xbeeRemotes) same
    fun name rest w' same => ?_
  unfold VirtualNetwork.triggerElement
  split
  · exact (VirtualGroup.xbeeRemotes_fastTrigger other _ rName data).mono fun w'' done =>
      done.trans same
  · split
    · exact (VirtualRemote.xbeeRemotes_fastTrigger other _ data).bind fun p done => done.trans same
    · exact same

omit other in
theorem Remote.xbeeRemotes_setButtonState (r : Nat) (b : XBEE_MSG_TYPE) (pressed : Bool) :
    Ends (fun _ => True) (setButtonState w r b pressed) fun w' =>
      w'.xbeeRemotes = w.xbeeRemotes := by
  cases kind : button? b with
  | none =>
      rw [setButtonState_other kind]
      rfl
  | some q =>
      obtain ⟨e, bName⟩ := q
      have other : e ≠ .led := by cases b <;> cases kind <;> decide
      have triggered : Ends (fun _ => True) (fastTrigger w r e [if pressed then 1 else 0])
          fun p => p.2.xbeeRemotes = w.xbeeRemotes := by
        have sent := PatchNode.xbeeRemotes_fastTriggerRemote (w := w) other (w.remoteName r)
          [if pressed then 1 else 0]
        cases b <;> cases kind <;> exact sent.bind fun w' done => done
      rw [setButtonState_known kind]
      exact triggered.bind fun p done => (World.xbeeRemotes_assign _ _ _ _ _).trans done

end Radio

/-! ## Remotes and their models -/

/-- Every remote of the radio has its own address, and looking its model up by the address
    finds the one which `model` says. -/
structure World.Paired (w : World) (model : Nat → Nat) : Prop where
  distinct : (w.xbeeRemotes.map XBeeRemote.addr).Nodup
  found : ∀ i x, w.xbeeRemotes[i]? = some x →
    RemoteList.byMAC w (intToHexStr x.addr) = some (model i)
  pointer : ∀ i x, w.xbeeRemotes[i]? = some x →
    x.remoteModel = none ∨ x.remoteModel = some (model i)

/-- An entry is replaced by one which looks the same. -/
theorem map_set_of_eq {α β : Type} {f : α → β} {l : List α} {i : Nat} {x x' : α}
    (there : l[i]? = some x) (same : f x' = f x) : (l.set i x').map f = l.map f := by
  obtain ⟨inside, rfl⟩ := List.getElem?_eq_some_iff.mp there
  have inside' : i < (l.map f).length := by simpa using inside
  have image : f l[i] = (l.map f)[i] := by simp
  rw [List.map_set, same, image, List.set_getElem_self]

namespace World.Paired

variable {w w' : World} {model : Nat → Nat}

theorem injective (paired : w.Paired model) {i j : Nat} {x y : XBeeRemote}
    (at_i : w.xbeeRemotes[i]? = some x) (at_j : w.xbeeRemotes[j]? = some y)
    (same : model i = model j) : i = j := by
  have address : ∀ k z, w.xbeeRemotes[k]? = some z →
      RemoteList.macOf w (model k) = intToHexStr z.addr := by
    intro k z there
    have found := List.find?_some (paired.found k z there)
    exact (of_decide_eq_true found).2
  have equal : x.addr = y.addr :=
    intToHexStr_injective ((address i x at_i).symm.trans (same ▸ address j y at_j))
  have inside : i < (w.xbeeRemotes.map XBeeRemote.addr).length := by
    rw [List.length_map]
    exact (List.getElem?_eq_some_iff.mp at_i).1
  refine (List.getElem?_inj inside paired.distinct).mp ?_
  rw [List.getElem?_map, List.getElem?_map, at_i, at_j, Option.map_some, Option.map_some, equal]

/-- A remote of the radio changes, but neither its address nor what it points to. -/
theorem set (paired : w.Paired model) {i : Nat} {x x' : XBeeRemote}
    (there : w.xbeeRemotes[i]? = some x) (addr : x'.addr = x.addr)
    (pointer : x'.remoteModel = none ∨ x'.remoteModel = some (model i)) :
    Paired { w with xbeeRemotes := w.xbeeRemotes.set i x' } model := by
  have slot : ∀ j y, (w.xbeeRemotes.set i x')[j]? = some y →
      (i = j ∧ y = x') ∨ w.xbeeRemotes[j]? = some y := by
    intro j y at_j
    by_cases here : i = j
    · subst here
      rw [List.getElem?_set_self (List.getElem?_eq_some_iff.mp there).1] at at_j
      exact .inl ⟨rfl, (Option.some.inj at_j).symm⟩
    · rw [List.getElem?_set_ne here] at at_j
      exact .inr at_j
  refine ⟨?_, fun j y at_j => ?_, fun j y at_j => ?_⟩
  · rw [map_set_of_eq there addr]
    exact paired.distinct
  · rcases slot j y at_j with ⟨rfl, rfl⟩ | old
    · rw [addr]
      exact paired.found i x there
    · exact paired.found j y old
  · rcases slot j y at_j with ⟨rfl, rfl⟩ | old
    · exact pointer
    · exact paired.pointer j y old

theorem modelled (paired : w.Paired model) {i : Nat} {x : XBeeRemote}
    (there : w.xbeeRemotes[i]? = some x) :
    ∃ x', XBeeInterface.remoteModel w i x =
        (some (model i), { w with xbeeRemotes := w.xbeeRemotes.set i x' }) ∧
      x'.addr = x.addr ∧ x'.rxBuffer = x.rxBuffer ∧ x'.remoteModel = some (model i) := by
  rcases paired.pointer i x there with unset | known
  · refine ⟨{ x with remoteModel := some (model i) }, ?_, rfl, rfl, rfl⟩
    simp only [XBeeInterface.remoteModel, unset, paired.found i x there]
  · refine ⟨x, ?_, rfl, rfl, known⟩
    obtain ⟨inside, rfl⟩ := List.getElem?_eq_some_iff.mp there
    simp only [XBeeInterface.remoteModel, known, List.set_getElem_self]

end World.Paired

/-! ## A message of one remote -/

/-- What a message of the remote with model `r` leaves as it is. -/
structure World.Apart (w : World) (r : Nat) (w' : World) : Prop where
  roster : w'.toRoster = w.toRoster
  lines : w'.xbeeRemotes.map (fun x => (x.addr, x.rxBuffer)) =
    w.xbeeRemotes.map fun x => (x.addr, x.rxBuffer)
  paired : ∀ model, w.Paired model → w'.Paired model
  others : ∀ r' down, r' ≠ r → Remote.Shows w r' down → Remote.Shows w' r' down

namespace World.Apart

variable {w w' w'' : World} {r : Nat}

theorem refl (w : World) (r : Nat) : w.Apart r w := ⟨rfl, rfl, fun _ => id, fun _ _ _ => id⟩

theorem trans (h : w.Apart r w') (h' : w'.Apart r w'') : w.Apart r w'' where
  roster := h'.roster.trans h.roster
  lines := h'.lines.trans h.lines
  paired model p := h'.paired model (h.paired model p)
  others r' down differ shown := h'.others r' down differ (h.others r' down differ shown)

end World.Apart

section Message

variable {w : World} {down : XBEE_MSG_TYPE → Bool}

/-- A button does not change what remotes are looked up by. -/
theorem Remote.byMAC_setButtonState (r : Nat) (b : XBEE_MSG_TYPE) (pressed : Bool) :
    Ends (fun _ => True) (setButtonState w r b pressed) fun w' =>
      ∀ mac, RemoteList.byMAC w' mac = RemoteList.byMAC w mac := by
  have covers : ({ nodes := Set.univ, driven := ∅ } : World.Scope).Covers w :=
    ⟨trivial, fun _ _ => trivial, fun _ _ => trivial⟩
  have inside : NodeRef.remote r ∈ (Set.univ : Set NodeRef) := trivial
  apply (acts_setButtonState covers inside b pressed).mono
  intro w' acts mac
  have settled := (World.Deeds.of_acts acts).settles
  have listed : w'.remotes = w.remotes := by
    refine acts.invariant (P := fun w' => w'.remotes = w.remotes) rfl fun w₁ w₂ before act => ?_
    cases act with
    | put => exact before
    | @mirror n =>
        obtain ⟨json, same, -⟩ := w₁.mirror_frame n n.ancestors
        rw [World.updateParentJSon, same]
        exact before
    | drop driven => exact absurd driven (Set.notMem_empty _)
    | aside same => exact same.remotes.trans before
  rw [RemoteList.byMAC, RemoteList.byMAC, listed, settled.isReal, settled.mac]

/-- A button goes through the remote it belongs to and through no other. -/
theorem Remote.setButtonState_apart {r : Nat} (shown : Shows w r down) (b : XBEE_MSG_TYPE)
    (pressed : Bool) :
    Ends (fun _ => ¬w.Serving) (setButtonState w r b pressed) fun w' =>
      w.Apart r w' ∧ Shows w' r (Function.update down b pressed) := by
  refine .join ((setButtonState_ends shown b pressed).mono fun _ _ => trivial) ?_
  have pressed' := (setButtonState_ends shown b pressed).of_any
  apply ((pressed'.and (xbeeRemotes_setButtonState r b pressed)).and
    ((byMAC_setButtonState r b pressed).and (keeps_setButtonState r b pressed).of_any)).mono
  rintro w' ⟨⟨⟨roster, shown'⟩, radio⟩, lookup, kept⟩
  refine ⟨⟨roster, by rw [radio], fun model paired => ?_, fun r' down' differ shows => ?_⟩, shown'⟩
  · refine ⟨radio ▸ paired.distinct, fun i x there => ?_, fun i x there => ?_⟩
    · rw [lookup]
      exact paired.found i x (radio ▸ there)
    · exact paired.pointer i x (radio ▸ there)
  · intro b' e bName known
    rw [kept.buttons r' differ bName (button?_mem known)]
    exact shows b' e bName known

theorem World.Apart.entry {w' : World} {r i : Nat} (apart : w.Apart r w') {x : XBeeRemote}
    (there : w.xbeeRemotes[i]? = some x) :
    ∃ x', w'.xbeeRemotes[i]? = some x' ∧ x'.addr = x.addr ∧ x'.rxBuffer = x.rxBuffer := by
  have slot := congrArg (·[i]?) apart.lines
  simp only [List.getElem?_map, there, Option.map_some, Option.map_eq_some_iff,
    Prod.mk.injEq] at slot
  exact slot

variable {model : Nat → Nat}

theorem XBeeInterface.handleMessage_apart (paired : w.Paired model) {i : Nat} {x : XBeeRemote}
    (there : w.xbeeRemotes[i]? = some x) (shown : Remote.Shows w (model i) down) (msg : StdString) :
    Ends (fun _ => ¬w.Serving) (handleMessage i w msg) fun w' => w.Apart (model i) w' ∧
      Remote.Shows w' (model i)
        ((XBeeRemote.buttonCall? msg).elim down (ButtonCall.after down)) := by
  cases call : XBeeRemote.buttonCall? msg with
  | none =>
      simp only [handleMessage, call]
      exact ⟨.refl w _, shown⟩
  | some c =>
      obtain ⟨x', looked, addr, buffer, pointer⟩ := paired.modelled there
      simp only [handleMessage, call, there, looked]
      have first : w.Apart (model i) { w with xbeeRemotes := w.xbeeRemotes.set i x' } := by
        refine ⟨rfl, map_set_of_eq there (by rw [addr, buffer]), fun model' paired' => ?_,
          fun r' down' _ shows => shows⟩
        refine paired'.set there addr (.inr ?_)
        have same := paired'.found i x there
        rw [paired.found i x there] at same
        rw [pointer, same]
      have shown₁ : Remote.Shows { w with xbeeRemotes := w.xbeeRemotes.set i x' } (model i) down :=
        shown
      apply (Remote.setButtonState_apart shown₁ c.button c.pressed).mono
      exact fun w' h => ⟨first.trans h.1, h.2⟩

theorem XBeeInterface.handleMessages_apart (paired : w.Paired model) {i : Nat} {x : XBeeRemote}
    (there : w.xbeeRemotes[i]? = some x) (shown : Remote.Shows w (model i) down)
    (msgs : List StdString) :
    Ends (fun _ => ¬w.Serving) (msgs.foldlM (handleMessage i) w) fun w' => w.Apart (model i) w' ∧
      Remote.Shows w' (model i)
        ((msgs.filterMap XBeeRemote.buttonCall?).foldl ButtonCall.after down) := by
  induction msgs generalizing w x down with
  | nil => exact ⟨.refl w _, shown⟩
  | cons msg msgs ih =>
      rw [List.foldlM_cons]
      apply (handleMessage_apart paired there shown msg).bind
      rintro w₁ ⟨apart, shown₁⟩
      obtain ⟨x₁, there₁, -, -⟩ := apart.entry there
      have rest := ih (apart.paired model paired) there₁ shown₁
      rw [World.Serving.congr apart.roster] at rest
      apply rest.mono
      rintro w' ⟨more, shown'⟩
      refine ⟨apart.trans more, ?_⟩
      rw [List.filterMap_cons]
      cases call : XBeeRemote.buttonCall? msg with
      | none => simpa [call] using shown'
      | some c => simpa [call] using shown'

end Message

/-! ## Frames of all remotes -/

/-- What a frame brings for the remote with this address. -/
def XBeeInterface.dataFrom (addr frame : List Byte) : StdString :=
  if frame.head? = some frameReceive ∧ 13 ≤ frame.length ∧ source frame = addr then frame.drop 12
  else []

section Frames

open XBeeInterface

variable {w : World} {model : Nat → Nat}

/-- The `i`-th remote has still to get `data`, after which its model shows `final`. -/
def World.Awaits (w : World) (model : Nat → Nat) (i : Nat) (data : StdString)
    (final : XBEE_MSG_TYPE → Bool) : Prop :=
  ∃ x down, w.xbeeRemotes[i]? = some x ∧ XBEE_MSG_TYPE.FRAME_END.code ∉ x.rxBuffer ∧
    Remote.Shows w (model i) down ∧
    ((XBeeRemote.splitRX x.rxBuffer data).1.filterMap XBeeRemote.buttonCall?).foldl
      ButtonCall.after down = final

theorem receiveRX_ends (paired : w.Paired model) {i : Nat} {x : XBeeRemote}
    (there : w.xbeeRemotes[i]? = some x) {cmd rest : StdString} {final : XBEE_MSG_TYPE → Bool}
    (awaits : w.Awaits model i (cmd ++ rest) final) :
    Ends (fun _ => ¬w.Serving) (receiveRX w i x cmd) fun w' =>
      w'.toRoster = w.toRoster ∧ w'.Paired model ∧
      w'.xbeeRemotes.map XBeeRemote.addr = w.xbeeRemotes.map XBeeRemote.addr ∧
      w'.Awaits model i rest final ∧
      ∀ j data final', j ≠ i → w.Awaits model j data final' → w'.Awaits model j data final' := by
  obtain ⟨x', down, there', pending, shown, final_eq⟩ := awaits
  obtain rfl : x = x' := Option.some.inj (there.symm.trans there')
  rw [receiveRX, XBeeRemote.splitRX_pending pending]
  rw [XBeeRemote.splitRX_append] at final_eq
  rcases split : XBeeRemote.splitRX x.rxBuffer cmd with ⟨msgs, left⟩
  have pending' : XBEE_MSG_TYPE.FRAME_END.code ∉ left := by
    have kept := XBeeRemote.not_mem_splitRX pending cmd
    rwa [split] at kept
  rw [split] at final_eq
  dsimp only at final_eq ⊢
  have inside := (List.getElem?_eq_some_iff.mp there).1
  have paired₁ : World.Paired
      { w with xbeeRemotes := w.xbeeRemotes.set i { x with rxBuffer := left } } model :=
    paired.set there rfl (paired.pointer i x there)
  have there₁ : (w.xbeeRemotes.set i { x with rxBuffer := left })[i]? =
      some { x with rxBuffer := left } := List.getElem?_set_self inside
  have shown₁ :
      Remote.Shows { w with xbeeRemotes := w.xbeeRemotes.set i { x with rxBuffer := left } }
        (model i) down := shown
  apply (handleMessages_apart paired₁ there₁ shown₁ msgs).mono
  rintro w' ⟨apart, shown'⟩
  refine ⟨apart.roster, apart.paired model paired₁, ?_, ?_, fun j data final' other => ?_⟩
  · have addrs := congrArg (List.map Prod.fst) apart.lines
    simp only [List.map_map, Function.comp_def] at addrs
    exact addrs.trans (map_set_of_eq there rfl)
  · obtain ⟨x'', there'', -, buffer⟩ := apart.entry there₁
    refine ⟨x'', _, there'', buffer ▸ pending', shown', ?_⟩
    rw [buffer]
    rw [List.filterMap_append, List.foldl_append] at final_eq
    exact final_eq
  · rintro ⟨y, down', at_j, pending'', shows, same⟩
    have at_j₁ : (w.xbeeRemotes.set i { x with rxBuffer := left })[j]? = some y := by
      rw [List.getElem?_set_ne (Ne.symm other)]
      exact at_j
    obtain ⟨y', at_j', -, buffer⟩ := apart.entry at_j₁
    have differ : model j ≠ model i := fun equal => other (paired.injective at_j there equal)
    exact ⟨y', down', at_j', buffer ▸ pending'', apart.others _ _ differ shows, buffer ▸ same⟩

theorem dataFrom_other {addr frame : List Byte} (other : source frame ≠ addr) :
    dataFrom addr frame = [] := if_neg fun h => other h.2.2

/-- Step lemma: what a frame brings goes to the remote it comes from. -/
theorem frameDispatch_ends (paired : w.Paired model) {frame : List Byte} {rest : List (List Byte)}
    {final : Nat → XBEE_MSG_TYPE → Bool}
    (awaits : ∀ i x, w.xbeeRemotes[i]? = some x →
      w.Awaits model i ((frame :: rest).flatMap (dataFrom x.addr)) (final i)) :
    Ends (fun _ => ¬w.Serving) (frameDispatch w frame) fun w' =>
      w'.toRoster = w.toRoster ∧ w'.Paired model ∧
      w'.xbeeRemotes.map XBeeRemote.addr = w.xbeeRemotes.map XBeeRemote.addr ∧
      ∀ i x, w.xbeeRemotes[i]? = some x →
        w'.Awaits model i (rest.flatMap (dataFrom x.addr)) (final i) := by
  have passed : (∀ (i : Nat) (x : XBeeRemote), w.xbeeRemotes[i]? = some x →
      dataFrom x.addr frame = []) → ∀ (i : Nat) (x : XBeeRemote), w.xbeeRemotes[i]? = some x →
        w.Awaits model i (rest.flatMap (dataFrom x.addr)) (final i) := by
    intro nothing i x there
    have later := awaits i x there
    rwa [List.flatMap_cons, nothing i x there, List.nil_append] at later
  unfold frameDispatch
  split
  · rename_i data
    unfold xbeeTX
    split
    · rename_i short
      refine ⟨rfl, paired, rfl, passed fun i x _ => if_neg ?_⟩
      rintro ⟨-, long, -⟩
      omega
    · rename_i long
      split
      · rename_i unknown
        refine ⟨rfl, paired, rfl, passed fun i x there => dataFrom_other fun same => ?_⟩
        have known := List.findIdx?_eq_none_iff.mp unknown x (List.mem_of_getElem? there)
        simp [same] at known
      · rename_i i found
        obtain ⟨inside, own, -⟩ := List.findIdx?_eq_some_iff_getElem.mp found
        have there := List.getElem?_eq_getElem inside
        have own := of_decide_eq_true own
        simp only [there]
        have brought : dataFrom w.xbeeRemotes[i].addr frame = frame.drop 12 :=
          if_pos ⟨data, by omega, own.symm⟩
        have first := awaits i _ there
        rw [List.flatMap_cons, brought] at first
        apply (receiveRX_ends paired there first).mono
        rintro w' ⟨roster, paired', addrs, own', others⟩
        refine ⟨roster, paired', addrs, fun j y at_j => ?_⟩
        by_cases same : j = i
        · subst same
          obtain rfl := Option.some.inj (there.symm.trans at_j)
          exact own'
        · have apart : source frame ≠ y.addr := by
            intro equal
            refine same (paired.injective at_j there ?_)
            have addr : y.addr = w.xbeeRemotes[i].addr := equal.symm.trans own.symm
            have model_j := paired.found j y at_j
            rw [addr, paired.found i _ there] at model_j
            exact (Option.some.inj model_j).symm
          have later := awaits j y at_j
          rw [List.flatMap_cons, dataFrom_other apart, List.nil_append] at later
          exact others j _ _ same later
  · rename_i other
    exact ⟨rfl, paired, rfl, passed fun i x _ => if_neg fun h => other h.1⟩

/-- Run lemma: each remote gets what its own frames bring, whatever comes in between. -/
theorem frames_end (paired : w.Paired model) {frames : List (List Byte)}
    {final : Nat → XBEE_MSG_TYPE → Bool}
    (awaits : ∀ i x, w.xbeeRemotes[i]? = some x →
      w.Awaits model i (frames.flatMap (dataFrom x.addr)) (final i)) :
    Ends (fun _ => ¬w.Serving) (frames.foldlM frameDispatch w) fun w' =>
      ∀ i < w.xbeeRemotes.length, Remote.Shows w' (model i) (final i) := by
  induction frames generalizing w with
  | nil =>
      intro i inside
      obtain ⟨x, down, -, pending, shown, same⟩ := awaits i _ (List.getElem?_eq_getElem inside)
      rw [List.flatMap_nil, XBeeRemote.splitRX_eq] at same
      exact same ▸ shown
  | cons frame rest ih =>
      rw [List.foldlM_cons]
      apply (frameDispatch_ends paired awaits).bind
      rintro w₁ ⟨roster, paired₁, addrs, awaits₁⟩
      have later := ih paired₁ fun i x there => by
        have same := congrArg (·[i]?) addrs
        simp only [List.getElem?_map, there, Option.map_some] at same
        obtain ⟨y, at_i, addr⟩ := Option.map_eq_some_iff.mp same.symm
        have own := awaits₁ i y at_i
        rwa [addr] at own
      rw [World.Serving.congr roster] at later
      have length : w₁.xbeeRemotes.length = w.xbeeRemotes.length := by
        simpa using congrArg List.length addrs
      rwa [length] at later

end Frames

/-! ## The whole way -/

namespace Firmware

open XBeeInterface

/-- Remotes which have just been started and are never sent to sleep run their firmware, each on
    its own, and send what they send in frames of the radio, in any order and among frames of
    others. At first nothing has been received and all models show their buttons up. When the
    frames have come in over the serial port, in any pieces and between any ticks, and enough
    ticks have followed, the model of each remote shows the buttons of that remote. The host fails
    over a frame only if a group is incomplete or the patch is locked. -/
theorem fleet_tracked {w : World} {model : Nat → Nat} (paired : w.Paired model)
    (clear : ∀ x ∈ w.xbeeRemotes, x.rxBuffer = [])
    (up : ∀ i < w.xbeeRemotes.length, Remote.Shows w (model i) fun _ => false)
    {turns : Nat → List Surroundings} {calls : Nat → List ProcessCall} {sent : Nat → List Byte}
    {fw : Nat → Firmware} (awake : ∀ i < w.xbeeRemotes.length, Awake (turns i))
    (ran : ∀ i < w.xbeeRemotes.length,
      ({} : Firmware).run (turns i) = .ok (calls i, sent i, fw i))
    {frames : List (List Byte)} (fits : ∀ frame ∈ frames, XBeeFrame.Fits frame.length)
    (delivered : ∀ i x, w.xbeeRemotes[i]? = some x → frames.flatMap (dataFrom x.addr) = sent i)
    {events : List XBeeDev.Event} (wire : Wire frames (XBeeDev.line events)) {n : Nat}
    (enough : frames.length ≤ XBeeDev.maxDispatchPerTick * n) :
    ∃ dev ticks, ({} : XBeeDev).run (events ++ List.replicate n .tick) = some (.ok (dev, ticks)) ∧
      Ends (fun _ => ¬w.Serving) (ticks.flatten.foldlM frameDispatch w) fun w' =>
        ∀ i < w.xbeeRemotes.length, ∀ b, w'.get (.remote (model i)) (buttonName b) =
          some (.string (if (fw i).buttonBuff b then "up" else "down")) := by
  obtain ⟨dev, ticks, run, -, -, all⟩ := XBeeDev.run_finds events n
  rw [wire.read fits] at all
  refine ⟨dev, ticks, run, ?_⟩
  rw [all enough]
  have steady : ({} : Firmware).Steady := ⟨⟨by decide, rfl⟩, by decide⟩
  have final : ∀ i, ∃ down, i < w.xbeeRemotes.length →
      (((Delimited.blocks FRAME_END [] (sent i)).filter (· ≠ [])).filterMap
        XBeeRemote.buttonCall?).foldl ButtonCall.after (fun _ => false) = down ∧
      Mirrored (fw i).buttonBuff down := by
    intro i
    by_cases inside : i < w.xbeeRemotes.length
    · obtain ⟨made, reports, -, mirrors⟩ := run_reports steady (ran i inside) (awake i inside)
      exact ⟨_, fun _ => ⟨rfl, reports.calls ▸ mirrors (fun _ => false) fun _ => rfl⟩⟩
    · exact ⟨fun _ => false, fun inside' => absurd inside' inside⟩
  choose down final using final
  have awaits : ∀ i x, w.xbeeRemotes[i]? = some x →
      w.Awaits model i (frames.flatMap (dataFrom x.addr)) (down i) := by
    intro i x there
    have inside := (List.getElem?_eq_some_iff.mp there).1
    have empty := clear x (List.mem_of_getElem? there)
    refine ⟨x, fun _ => false, there, by simp [empty], up i inside, ?_⟩
    rw [delivered i x there, empty, XBeeRemote.splitRX_eq]
    exact (final i inside).1
  apply (frames_end paired awaits).mono
  intro w' shown i inside b
  obtain ⟨e, known⟩ := button?_button b
  rw [shown i inside _ _ _ known, (final i inside).2 b]
  cases (fw i).buttonBuff b <;> rfl

/-- Two remotes, both with their left button pressed; their messages come in pieces and mixed. -/
theorem fleet_tracked_two :
    let a : List Byte := [0, 0x13, 0xA2, 0, 0x40, 0, 0, 1]
    let b : List Byte := [0, 0x13, 0xA2, 0, 0x40, 0, 0, 2]
    let frames : List (List Byte) := [
      [0x90] ++ a ++ [0xFF, 0xFE, 1] ++ [0xB0],
      [0x90] ++ b ++ [0xFF, 0xFE, 1] ++ [0xB0, 1, 0xFF, 0xB4],
      [0x90] ++ a ++ [0xFF, 0xFE, 1] ++ [1, 0xFF, 0xB4, 1, 0xFF],
      [0x90] ++ b ++ [0xFF, 0xFE, 1] ++ [1, 0xFF]]
    let turns : List Surroundings := [{ available := Order.message (.command .activeMode)
                                        buttonPin := fun i => i ≠ 0 }]
    let w : World := {
      json := fun
        | .remote 0 => Remote.createRemoteJSon.insert "MAC" (.string (intToHexStr a))
        | .remote 1 => Remote.createRemoteJSon.insert "MAC" (.string (intToHexStr b))
        | _ => []
      remotes := [0, 1]
      isReal := fun _ => true
      xbeeRemotes := [{ addr := a }, { addr := b }] }
    ∃ calls fw dev ticks,
      ({} : Firmware).run turns = .ok (calls, [0xB0, 1, 0xFF, 0xB4, 1, 0xFF], fw) ∧
      ({} : XBeeDev).run ([.arrive (frames.flatMap encode)] ++ [.tick]) = some (.ok (dev, ticks)) ∧
      Ends (fun _ => ¬w.Serving) (ticks.flatten.foldlM frameDispatch w) fun w' => ∀ i < 2, ∀ b,
        w'.get (.remote i) (buttonName b) =
          some (.string (if fw.buttonBuff b then "up" else "down")) := by
  intro a b frames turns w
  have ran : ∃ calls fw, ({} : Firmware).run turns =
      .ok (calls, [0xB0, 1, 0xFF, 0xB4, 1, 0xFF], fw) := ⟨_, _, rfl⟩
  obtain ⟨calls, fw, ran⟩ := ran
  have fits : ∀ frame ∈ frames, XBeeFrame.Fits frame.length := by decide
  have two : ∀ {P : Nat → XBeeRemote → Prop}, P 0 { addr := a } → P 1 { addr := b } →
      ∀ i x, w.xbeeRemotes[i]? = some x → P i x := by
    intro P first second i x there
    match i with
    | 0 => exact Option.some.inj there ▸ first
    | 1 => exact Option.some.inj there ▸ second
    | i + 2 => cases there
  have line : XBeeDev.line [.arrive (frames.flatMap encode)] = frames.flatMap encode := by
    simp [XBeeDev.line]
  have paired : w.Paired id := ⟨by decide, two rfl rfl, two (.inl rfl) (.inl rfl)⟩
  have up : ∀ r < 2, Remote.Shows w r fun _ => false := by
    intro r small b' e bName known
    interval_cases r <;> cases b' <;> cases known <;> rfl
  obtain ⟨dev, ticks, run, tracked⟩ := @fleet_tracked w id paired (by simp [w]) up
    (fun _ => turns) (fun _ => calls) (fun _ => [0xB0, 1, 0xFF, 0xB4, 1, 0xFF]) (fun _ => fw)
    (fun _ _ => awake_orders [.command .activeMode] List.prefix_rfl) (fun _ _ => ran) frames fits
    (two (by decide) (by decide)) [.arrive (frames.flatMap encode)] (line ▸ Wire.encode fits) 1
    (by decide)
  exact ⟨calls, fw, dev, ticks, ran, run, tracked⟩

end Firmware

end VoxPopuli
