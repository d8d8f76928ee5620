import VoxPopuli.Model.Refreshing

/-! # The way of a button event

A button of a remote triggers the virtual elements which the patch links the remote to:
a virtual remote fires its event, a group fires it on its global remote and on the
avatars whose ID is the position of the remote among its slaves. The slaves are those
which the group has cached, so the event goes where the patch says exactly when the
cached slaves lead to the same avatars.
-/

namespace VoxPopuli

open World VirtualNetwork

variable {F : Footprint} {w w' w'' : World}

/-! ## What an event leaves in the log -/

namespace Event

def callbacks (v : VRef) (b : Button) (name : QString) (t : EventTrigger) : List Observation :=
  t.entries.flatMap fun (definition, hasCallback) =>
    if hasCallback then [.callback v b name definition] else []

/-- An event fires: the callbacks of its `any` trigger and of the trigger of the name
    run once each. -/
def firing (w : World) (b : Button) (name : QString) (v : VRef) : List Observation :=
  .fired v b name :: (callbacks v b "any" (w.anyTrigger v b) ++
    ((w.triggers v b).find? name).elim [] (callbacks v b name))

theorem log_trigger (w : World) (v : VRef) (b : Button) (name : QString) (t : EventTrigger) :
    (trigger w v b name t).log = w.log ++ callbacks v b name t := by
  rw [trigger, callbacks]
  induction t.entries generalizing w with
  | nil => simp
  | cons e rest ih =>
      obtain ⟨definition, hasCallback⟩ := e
      rw [List.foldl_cons, ih]
      cases hasCallback with
      | true => simp [observe]
      | false => simp

theorem log_triggerEvent (w : World) (v : VRef) (b : Button) (name : QString) :
    (triggerEvent w v b name).2.log = w.log ++ firing w b name v := by
  have any : (trigger (w.observe (.fired v b name)) v b "any" (w.anyTrigger v b)).log =
      w.log ++ (.fired v b name :: callbacks v b "any" (w.anyTrigger v b)) := by
    rw [log_trigger]
    simp [observe]
  have same : (trigger (w.observe (.fired v b name)) v b "any" (w.anyTrigger v b)).triggers v =
      w.triggers v := by
    have kept : Keeps {} (w.observe (.fired v b name))
        (trigger (w.observe (.fired v b name)) v b "any" (w.anyTrigger v b)) :=
      keeps_trigger v b "any" _
    exact (kept.triggers v id).2
  unfold triggerEvent firing
  dsimp only
  simp only [observe] at any same ⊢
  rw [same]
  cases (w.triggers v b).find? name with
  | none => simp [any]
  | some t =>
      simp only [Option.elim_some]
      rw [log_trigger, any]
      simp

end Event

theorem World.log_assign (w : World) (n : NodeRef) (name : QString) (same : QJsonValue → Bool)
    (v : QJsonValue) : (w.assign n name same v).2.log = w.log := by
  obtain ⟨json, frame, -⟩ := w.assign_frame n name same v
  rw [frame]

/-- A step which stays within a footprint and logs `l`. -/
structure Logs (F : Footprint) (w w' : World) (l : List Observation) : Prop where
  kept : Keeps F w w'
  log : w'.log = w.log ++ l

namespace Logs

variable {l l' : List Observation}

theorem refl (F : Footprint) (w : World) : Logs F w w [] := ⟨.refl F w, (List.append_nil _).symm⟩

theorem trans (h : Logs F w w' l) (h' : Logs F w' w'' l') : Logs F w w'' (l ++ l') where
  kept := h.kept.trans h'.kept
  log := by rw [h'.log, h.log, List.append_assoc]

end Logs

/-! ## Triggers -/

/-- The event of a button. -/
def Button.event : Button → FTriggerEvent
  | 0 => .up
  | 1 => .down
  | 2 => .right
  | 3 => .left
  | 4 => .action

/-- The trigger for a value of a button. -/
def pressName (pressed : Bool) : QString := if pressed then "down" else "up"

/-- The data of a value of a button. -/
def pressData (pressed : Bool) : HexData := [if pressed then 1 else 0]

theorem press_pressData (pressed : Bool) :
    VirtualRemote.press (pressData pressed) = pressName pressed := by
  cases pressed <;> decide

namespace VirtualRemote

theorem fastTrigger_button {v : VRef} (notified : v ∈ F.notified) (b : Button) (pressed : Bool) :
    Ends (fun _ => False) (fastTrigger w v b.event (pressData pressed)) fun q =>
      Logs F w q.2 (Event.firing w b (pressName pressed) v) := by
  have number : b.event ≠ .led ∧ ∃ h : b.event.toNat < 5, (⟨b.event.toNat, h⟩ : Button) = b := by
    fin_cases b <;> exact ⟨by decide, by decide, rfl⟩
  obtain ⟨other, small, same⟩ := number
  rw [fastTrigger, if_neg other, dif_pos small, same, press_pressData]
  have name : b.event.eventName ≠ "remoteID" ∧ b.event.eventName ≠ "RemoteID" := by
    fin_cases b <;> decide
  refine ⟨(Event.keeps_triggerEvent v b _).trans (keeps_setString notified name.1 name.2 _), ?_⟩
  exact (log_assign _ _ _ _ _).trans (Event.log_triggerEvent w v b (pressName pressed))

end VirtualRemote

/-- The ID of an avatar. -/
def World.idOf (w : World) (v : VRef) : Int := (w.get (.vRemote v) "remoteID").toInt

namespace World.Keeps

variable (kept : Keeps F w w') {v : VRef}

include kept

theorem firing_eq (out : v ∉ F.edited) (b : Button) (name : QString) :
    Event.firing w' b name v = Event.firing w b name v := by
  obtain ⟨any, triggers⟩ := kept.triggers v out
  rw [Event.firing, any, triggers, Event.firing]

theorem idOf_eq (out : v ∉ F.edited) : w'.idOf v = w.idOf v := by
  rw [idOf, kept.remoteID v out, idOf]

end World.Keeps

namespace VirtualGroup

/-- The virtual remotes of a group which an event of a remote reaches, for a list of
    slaves. -/
def targets (w : World) (g : Nat) (slaves : QStringList) (rName : QString) : List VRef :=
  match slaves.idxOf? rName with
  | none => []
  | some id => (w.virtualRemotes g).reduceOption.filter (fun v => w.idOf v = id) ++
      (w.globalRemote g).toList

variable {g id : Nat}

theorem foldlM_triggerAvatar {vs : List VRef} (notified : ∀ v ∈ vs, v ∈ F.notified)
    (edited : ∀ v, v ∉ F.edited) (id : Nat) (b : Button) (pressed : Bool) (w : World) :
    Ends (fun _ => False)
      ((vs.map some).foldlM (triggerAvatar id b.event (pressData pressed)) w) fun w' =>
        Logs F w w' ((vs.filter fun v => w.idOf v = id).flatMap
          (Event.firing w b (pressName pressed))) := by
  induction vs generalizing w with
  | nil => exact .refl F w
  | cons v rest ih =>
      have others := fun w => ih (fun v member => notified v (List.mem_cons_of_mem _ member)) w
      rw [List.map_cons, List.foldlM_cons]
      by_cases own : w.idOf v = id
      · have turn : triggerAvatar id b.event (pressData pressed) w (some v) = (do
            let q ← VirtualRemote.fastTrigger w v b.event (pressData pressed)
            pure q.2) := if_pos own
        have chosen : (v :: rest).filter (fun v => w.idOf v = id) =
            v :: rest.filter fun v => w.idOf v = id := by simp [own]
        rw [turn, chosen, List.flatMap_cons]
        have fired := VirtualRemote.fastTrigger_button (w := w) (notified v List.mem_cons_self) b
          pressed
        refine Ends.bind (M := fun w₁ => Logs F w w₁ (Event.firing w b (pressName pressed) v))
          (fired.bind fun q logs => logs) fun w₁ logs => ?_
        apply (others w₁).mono
        intro w₂ more
        have ids : (fun v => decide (w₁.idOf v = id)) = fun v => decide (w.idOf v = id) := by
          funext v
          rw [logs.kept.idOf_eq (edited v)]
        have firings : Event.firing w₁ b (pressName pressed) =
            Event.firing w b (pressName pressed) :=
          funext fun v => logs.kept.firing_eq (edited v) b _
        rw [ids, firings] at more
        exact logs.trans more
      · have turn : triggerAvatar id b.event (pressData pressed) w (some v) = pure w := if_neg own
        have chosen : (v :: rest).filter (fun v => w.idOf v = id) =
            rest.filter fun v => w.idOf v = id := by simp [own]
        rw [turn, chosen]
        exact others w

/-- A group hands an event on to the virtual remotes which its own slaves lead to. -/
theorem fastTrigger_button {global : Nat} {avatars : List Nat} (ok : w.GroupOk g global avatars)
    (notified : ∀ v, Member w g v → v ∈ F.notified) (edited : ∀ v, v ∉ F.edited)
    (rName : QString) (b : Button) (pressed : Bool) :
    Ends (fun _ => False) (fastTrigger w g rName b.event (pressData pressed)) fun w' =>
      Logs F w w' ((targets w g (w.slaves g) rName).flatMap
        (Event.firing w b (pressName pressed))) := by
  have list : w.virtualRemotes g = (avatars.map (VRef.member g)).map some := by
    rw [ok.virtualRemotes, List.map_map]
    rfl
  have listed : (w.virtualRemotes g).reduceOption = avatars.map (VRef.member g) := by
    rw [list]
    simp [List.reduceOption]
  rw [fastTrigger, targets]
  cases (w.slaves g).idxOf? rName with
  | none => exact .refl F w
  | some id =>
      dsimp only
      rw [listed, list, ok.globalRemote, Option.toList_some, List.flatMap_append]
      have inside : ∀ v ∈ avatars.map (VRef.member g), v ∈ F.notified := by
        intro v member
        apply notified v
        right
        rw [list]
        exact List.mem_map_of_mem member
      apply (foldlM_triggerAvatar inside edited id b pressed w).bind
      intro w₁ logs
      have global₁ : w₁.globalRemote g = some (.member g global) := by
        rw [logs.kept.roster]
        exact ok.globalRemote
      rw [global₁]
      have fired := VirtualRemote.fastTrigger_button (w := w₁)
        (notified (.member g global) (.inl ok.globalRemote)) b pressed
      rw [logs.kept.firing_eq (edited _)] at fired
      refine fired.bind fun q more => ?_
      rw [List.flatMap_singleton]
      exact logs.trans more

end VirtualGroup

namespace VirtualNetwork

/-- The virtual remotes which an event of a remote reaches through the element of a name,
    for some lists of slaves. -/
def targets (w : World) (slaves : Nat → QStringList) (rName vName : QString) : List VRef :=
  match groupByName w vName with
  | some g => VirtualGroup.targets w g (slaves g) rName
  | none => (remoteByName w vName).toList.map .free

theorem targets_congr (kept : Keeps F w w') (edited : ∀ v, v ∉ F.edited)
    {slaves slaves' : Nat → QStringList} (same : slaves' = slaves) (rName vName : QString) :
    targets w' slaves' rName vName = targets w slaves rName vName := by
  have ids : w'.idOf = w.idOf := funext fun v => kept.idOf_eq (edited v)
  unfold targets VirtualGroup.targets groupByName remoteByName
  rw [kept.roster, ids, same]

theorem triggerElement_button (h : w.WellFormed) (rName vName : QString) (b : Button)
    (pressed : Bool) :
    Ends (fun _ => False) (triggerElement rName b.event (pressData pressed) w vName) fun w' =>
      Logs w.live w w' ((targets w w.slaves rName vName).flatMap
        (Event.firing w b (pressName pressed))) := by
  rw [triggerElement, targets]
  cases group : groupByName w vName with
  | some g =>
      obtain ⟨inside, -⟩ := groupByName_eq_some group
      obtain ⟨global, avatars, ok⟩ := h.groups g inside
      exact VirtualGroup.fastTrigger_button ok (F := w.live) (fun v => Live.of_member inside)
        (fun _ => id) rName b pressed
  | none =>
      cases remote : remoteByName w vName with
      | none => exact .refl _ w
      | some n =>
          obtain ⟨inside, -⟩ := remoteByName_eq_some remote
          have live : VRef.free n ∈ w.live.notified := .inl ⟨n, inside, rfl⟩
          have fired := VirtualRemote.fastTrigger_button (w := w) live b pressed
          simp only [Option.toList_some, List.map_cons, List.map_nil, List.flatMap_singleton]
          exact fired.bind fun q logs => logs

/-- The elements of a list of names are triggered one after the other. -/
theorem fastTrigger_button (h : w.WellFormed) (vNames : QStringList) (rName : QString) (b : Button)
    (pressed : Bool) :
    Ends (fun _ => False) (fastTrigger w vNames rName b.event (pressData pressed)) fun w' =>
      Logs w.live w w' ((vNames.flatMap (targets w w.slaves rName)).flatMap
        (Event.firing w b (pressName pressed))) := by
  rw [fastTrigger]
  induction vNames generalizing w with
  | nil => exact .refl _ w
  | cons vName rest ih =>
      rw [List.foldlM_cons, List.flatMap_cons, List.flatMap_append]
      apply (triggerElement_button h rName vName b pressed).bind
      intro w₁ logs
      apply (ih (h.live logs.kept)).mono
      intro w₂ more
      have slaves : w₁.slaves = w.slaves := funext fun g => logs.kept.slaves g id
      have same : targets w₁ w₁.slaves rName = targets w w.slaves rName :=
        funext fun vName => targets_congr logs.kept (fun _ => id) slaves rName vName
      have firings : Event.firing w₁ b (pressName pressed) = Event.firing w b (pressName pressed) :=
        funext fun v => logs.kept.firing_eq id b _
      rw [logs.kept.live_eq, same, firings] at more
      exact logs.trans more

end VirtualNetwork

namespace Remote

/-- The message with which a remote tells of a button. -/
def message : Button → XBEE_MSG_TYPE
  | 0 => .BUTTON_UP
  | 1 => .BUTTON_DOWN
  | 2 => .BUTTON_RIGHT
  | 3 => .BUTTON_LEFT
  | 4 => .BUTTON_ACTION

/-- A button of a remote triggers what its row of the patch names. -/
theorem setButtonState_log (h : w.WellFormed) (unlocked : w.Unlocked) (r : Nat) (b : Button)
    (pressed : Bool) :
    ∃ w', setButtonState w r (message b) pressed = .ok w' ∧
      w'.log = w.log ++ ((w.patch.virtualsOf (w.remoteName r)).flatMap
        (VirtualNetwork.targets w w.slaves (w.remoteName r))).flatMap
          (Event.firing w b (pressName pressed)) := by
  have triggered := VirtualNetwork.fastTrigger_button h (w.patch.virtualsOf (w.remoteName r))
    (w.remoteName r) b pressed
  obtain ⟨w₁, run, logs⟩ := ends_total.mp triggered
  have known : ∃ bName, button? (message b) = some (b.event, bName) := by
    fin_cases b <;> exact ⟨_, rfl⟩
  obtain ⟨bName, known⟩ := known
  have sent : fastTrigger w r b.event (pressData pressed) = .ok (.noError, w₁) := by
    have through : PatchNode.fastTriggerRemote w (w.remoteName r) b.event (pressData pressed) =
        .ok w₁ := by
      obtain ⟨w₂, locked, unlocks, patch⟩ := lock_eq unlocked
      simp only [PatchNode.fastTriggerRemote, locked, bind, Except.bind, unlocks, patch]
      exact run
    have button : fastTrigger w r b.event (pressData pressed) = (do
        let w ← PatchNode.fastTriggerRemote w (w.remoteName r) b.event (pressData pressed)
        pure (.noError, w)) := by
      fin_cases b <;> rfl
    rw [button, through]
    rfl
  rw [setButtonState_known known]
  change ∃ w', (do
    let q ← fastTrigger w r b.event (pressData pressed)
    pure (q.2.setString (.remote r) bName (if pressed then "down" else "up")).2) = .ok w' ∧ _
  rw [sent]
  exact ⟨_, rfl, (log_assign _ _ _ _ _).trans logs.log⟩

end Remote

/-! ## Where the patch says it goes -/

namespace World

/-- What the patch has for the name of a group. -/
def rowOf (w : World) (g : Nat) : QStringList := w.patch.remotesOf (w.groupName g)

/-- What a button of a remote has to leave in the log: every element which the remote is
    linked to fires once, a group on its global remote and on the avatars whose ID is the
    position of the remote in the row of the group. -/
def expected (w : World) (r : Nat) (b : Button) (name : QString) : List Observation :=
  ((w.patch.virtualsOf (w.remoteName r)).flatMap
    (VirtualNetwork.targets w w.rowOf (w.remoteName r))).flatMap (Event.firing w b name)

/-- The slaves which the groups of a remote have cached lead to the same avatars as
    their rows of the patch. -/
def Routes (w : World) (r : Nat) : Prop :=
  ∀ vName ∈ w.patch.virtualsOf (w.remoteName r), ∀ g, groupByName w vName = some g →
    w.remoteName r ∈ w.slaves g ∧ ∀ v, some v ∈ w.virtualRemotes g →
      (w.idOf v = (w.slaves g).idxOf (w.remoteName r) ↔
        w.idOf v = (w.patch.remotesOf vName).idxOf (w.remoteName r))

end World

/-- The virtual remote whose event an observation is. -/
def Observation.firedBy? : Observation → Option VRef
  | fired v _ _ => some v
  | _ => none

theorem Event.filterMap_firing (w : World) (b : Button) (name : QString) (vs : List VRef) :
    (vs.flatMap (firing w b name)).filterMap Observation.firedBy? = vs := by
  have quiet : ∀ v name t, (callbacks v b name t).filterMap Observation.firedBy? = [] := by
    intro v name t
    rw [List.filterMap_eq_nil_iff]
    intro o member
    obtain ⟨⟨definition, hasCallback⟩, -, inside⟩ := List.mem_flatMap.mp member
    cases hasCallback with
    | false => cases inside
    | true =>
        rw [List.mem_singleton.mp inside]
        rfl
  have one : ∀ v, (firing w b name v).filterMap Observation.firedBy? = [v] := by
    intro v
    have own : Observation.firedBy? (.fired v b name) = some v := rfl
    rw [firing, List.filterMap_cons_some own, List.filterMap_append, quiet]
    cases (w.triggers v b).find? name with
    | none => rfl
    | some t => simp [quiet]
  induction vs with
  | nil => rfl
  | cons v rest ih => rw [List.flatMap_cons, List.filterMap_append, one, ih, List.singleton_append]

/-- The same observations in some order come from the same virtual remotes. -/
theorem Event.perm_firing_iff (w : World) (b : Button) (name : QString) {vs vs' : List VRef} :
    (vs.flatMap (firing w b name)).Perm (vs'.flatMap (firing w b name)) ↔ vs.Perm vs' := by
  constructor
  · intro perm
    have firedBy := perm.filterMap Observation.firedBy?
    rwa [filterMap_firing, filterMap_firing] at firedBy
  · exact fun perm => perm.flatMap_right _

namespace VirtualGroup

theorem targets_of_mem {g : Nat} {slaves : QStringList} {rName : QString}
    (member : rName ∈ slaves) : targets w g slaves rName =
      (w.virtualRemotes g).reduceOption.filter (fun v => w.idOf v = slaves.idxOf rName) ++
        (w.globalRemote g).toList := by
  have found : slaves.idxOf? rName = some (slaves.idxOf rName) := by
    cases position : slaves.idxOf? rName with
    | none => exact absurd member (List.idxOf?_eq_none_iff.mp position)
    | some i => simp [List.idxOf_eq_getD_idxOf?, position]
  rw [targets, found]

theorem mem_targets {g : Nat} {slaves : QStringList} {rName : QString} {v : VRef} :
    v ∈ targets w g slaves rName ↔ rName ∈ slaves ∧
      ((some v ∈ w.virtualRemotes g ∧ w.idOf v = slaves.idxOf rName) ∨
        w.globalRemote g = some v) := by
  by_cases member : rName ∈ slaves
  · rw [targets_of_mem member]
    simp [member, List.reduceOption_mem_iff]
  · have none : slaves.idxOf? rName = none := List.idxOf?_eq_none_iff.mpr member
    rw [targets, none]
    simp [member]

end VirtualGroup

namespace World

variable {r : Nat}

/-- A member of a group is only reached through the group. -/
theorem WellFormed.mem_targets_iff (h : w.WellFormed) {slaves : Nat → QStringList}
    {vNames : QStringList} {rName vName : QString} (linked : vName ∈ vNames) {g : Nat}
    (found : groupByName w vName = some g) {v : VRef} (member : VirtualGroup.Member w g v) :
    v ∈ vNames.flatMap (VirtualNetwork.targets w slaves rName) ↔
      v ∈ VirtualGroup.targets w g (slaves g) rName := by
  obtain ⟨inside, -⟩ := groupByName_eq_some found
  obtain ⟨global, avatars, ok⟩ := h.groups g inside
  obtain ⟨n, -, rfl⟩ := ok.member_iff.mp member
  rw [List.mem_flatMap]
  constructor
  · rintro ⟨vName', -, target⟩
    rw [VirtualNetwork.targets] at target
    cases found' : groupByName w vName' with
    | none =>
        rw [found'] at target
        obtain ⟨m, -, other⟩ := List.mem_map.mp target
        cases other
    | some g' =>
        rw [found'] at target
        obtain ⟨inside', -⟩ := groupByName_eq_some found'
        obtain ⟨global', avatars', ok'⟩ := h.groups g' inside'
        have member' : VirtualGroup.Member w g' (.member g n) :=
          (VirtualGroup.mem_targets.mp target).2.elim (fun avatar => .inr avatar.1) .inl
        obtain ⟨m, -, same⟩ := ok'.member_iff.mp member'
        cases same
        exact target
  · intro target
    refine ⟨vName, linked, ?_⟩
    rw [VirtualNetwork.targets, found]
    exact target

/-- The global remote is not among the avatars. -/
theorem GroupOk.globalRemote_ne {g global : Nat} {avatars : List Nat}
    (ok : w.GroupOk g global avatars) {v : VRef} (avatar : some v ∈ w.virtualRemotes g) :
    w.globalRemote g ≠ some v := by
  rw [ok.globalRemote]
  rw [ok.virtualRemotes] at avatar
  obtain ⟨n, member, equal⟩ := List.mem_map.mp avatar
  cases equal
  intro same
  cases same
  exact (List.nodup_cons.mp ok.nodup).1 member

/-- The event reaches the virtual remotes which it has to exactly when the caches lead
    to them. -/
theorem Sound.routes_iff (h : w.Sound) (r : Nat) :
    ((w.patch.virtualsOf (w.remoteName r)).flatMap
        (VirtualNetwork.targets w w.slaves (w.remoteName r))).Perm
      ((w.patch.virtualsOf (w.remoteName r)).flatMap
        (VirtualNetwork.targets w w.rowOf (w.remoteName r))) ↔ w.Routes r := by
  have inRow : ∀ {vName g}, vName ∈ w.patch.virtualsOf (w.remoteName r) →
      groupByName w vName = some g →
        w.rowOf g = w.patch.remotesOf vName ∧ w.remoteName r ∈ w.rowOf g := by
    intro vName g linked found
    have row : w.rowOf g = w.patch.remotesOf vName := by
      rw [rowOf, (groupByName_eq_some found).2]
    exact ⟨row, row ▸ (h.agree.mem_iff _ _).mp linked⟩
  constructor
  · intro perm vName linked g found
    obtain ⟨row, inside⟩ := inRow linked found
    obtain ⟨global, avatars, ok⟩ := h.wellFormed.groups g (groupByName_eq_some found).1
    have same : ∀ v, VirtualGroup.Member w g v →
        (v ∈ VirtualGroup.targets w g (w.slaves g) (w.remoteName r) ↔
          v ∈ VirtualGroup.targets w g (w.rowOf g) (w.remoteName r)) := by
      intro v member
      rw [← h.wellFormed.mem_targets_iff linked found member,
        ← h.wellFormed.mem_targets_iff linked found member]
      exact perm.mem_iff
    have cached : w.remoteName r ∈ w.slaves g := by
      have fires := (same _ (.inl ok.globalRemote)).mpr
        (VirtualGroup.mem_targets.mpr ⟨inside, .inr ok.globalRemote⟩)
      exact (VirtualGroup.mem_targets.mp fires).1
    refine ⟨cached, fun v avatar => ?_⟩
    have other := ok.globalRemote_ne avatar
    have reached := same v (.inr avatar)
    rw [VirtualGroup.mem_targets, VirtualGroup.mem_targets] at reached
    rw [row] at inside reached
    simpa [cached, inside, avatar, other] using reached
  · intro routes
    have same : (w.patch.virtualsOf (w.remoteName r)).flatMap
        (VirtualNetwork.targets w w.slaves (w.remoteName r)) =
      (w.patch.virtualsOf (w.remoteName r)).flatMap
        (VirtualNetwork.targets w w.rowOf (w.remoteName r)) := by
      apply List.flatMap_congr
      intro vName linked
      unfold VirtualNetwork.targets
      cases found : groupByName w vName with
      | none => rfl
      | some g =>
          obtain ⟨row, inside⟩ := inRow linked found
          obtain ⟨cached, ids⟩ := routes vName linked g found
          dsimp only
          rw [VirtualGroup.targets_of_mem cached, VirtualGroup.targets_of_mem inside, row]
          congr 1
          apply List.filter_congr
          intro v member
          simpa using ids v (List.reduceOption_mem_iff.mp member)
    rw [same]

/-- A button event goes where the patch says, and nowhere else. -/
def Delivers (w : World) (r : Nat) (b : Button) (pressed : Bool) : Prop :=
  ∃ w', Remote.setButtonState w r (Remote.message b) pressed = .ok w' ∧
    w'.log.Perm (w.log ++ w.expected r b (pressName pressed))

theorem Sound.delivers_iff_routes (h : w.Sound) (noop : w.mutex = .noop) (r : Nat) (b : Button)
    (pressed : Bool) : w.Delivers r b pressed ↔ w.Routes r := by
  obtain ⟨w', run, log⟩ := Remote.setButtonState_log h.wellFormed (by simp [Unlocked, noop]) r b pressed
  have reached : w.Delivers r b pressed ↔
      w'.log.Perm (w.log ++ w.expected r b (pressName pressed)) := by
    constructor
    · rintro ⟨w₁, run₁, perm⟩
      cases run.symm.trans run₁
      exact perm
    · exact fun perm => ⟨w', run, perm⟩
  rw [reached, log, List.perm_append_left_iff, expected, Event.perm_firing_iff]
  exact h.routes_iff r

theorem AllCached.routes (all : w.AllCached) (agree : w.patch.Consistent) (r : Nat) :
    w.Routes r := by
  intro vName linked g found
  obtain ⟨inside, name⟩ := groupByName_eq_some found
  have slaves : w.slaves g = w.patch.remotesOf vName := name ▸ (all g inside).slaves
  rw [slaves]
  exact ⟨(agree.mem_iff _ _).mp linked, fun _ _ => Iff.rfl⟩

/-- In every state of a run in which no command outdates a group a button event goes where
    the patch says. In any reachable state it does so exactly when the slaves which the
    linked groups have cached lead to the same avatars as their rows of the patch. -/
theorem buttons_delivered (accepts : QString → Option Bool) (ops : List Op)
    (reached : Runs.Reaches (fun w (op : Op) => op.perform w) (initial .noop accepts) ops w)
    (r : Nat) (b : Button) (pressed : Bool) :
    (Runs.Throughout (fun w (op : Op) => op.perform w) (fun w op => ¬op.Outdates w)
      (initial .noop accepts) ops → w.Delivers r b pressed) ∧
    (w.Delivers r b pressed ↔ w.Routes r) := by
  have kept : ∀ {w w' : World} {op : Op}, w.Sound ∧ w.mutex = .noop → op.perform w = .ok w' →
      w'.Sound ∧ w'.mutex = .noop := by
    rintro w w' op ⟨sound, noop⟩ step
    obtain ⟨sound', mutex⟩ := (sound.perform op).of_ok step
    exact ⟨sound', mutex.trans noop⟩
  have start : (initial .noop accepts).Sound ∧ (initial .noop accepts).mutex = .noop :=
    ⟨sound_initial .noop accepts, rfl⟩
  obtain ⟨sound, noop⟩ := reached.always start fun _ _ _ inside step => kept inside step
  refine ⟨fun fresh => ?_, sound.delivers_iff_routes noop r b pressed⟩
  rw [sound.delivers_iff_routes noop]
  have cached : w.AllCached ∧ w.Sound ∧ w.mutex = .noop := by
    apply reached.invariant (I := fun w => w.AllCached ∧ w.Sound ∧ w.mutex = .noop) ⟨nofun, start⟩
      fresh
    rintro w op w' ⟨all, side⟩ fresh step
    exact ⟨((op.allCached_iff side.1.wellFormed side.2 all).of_ok step).mpr fresh, kept side step⟩
  exact cached.1.routes sound.agree r

/-- A remote is linked to a group which has been created before. -/
theorem buttons_delivered_band :
    ∃ w, (initial .noop fun _ => none).run
      [.addGroup "Band", .addRemote "1", .patch (.connect "Remote1" "Band")] = .ok w ∧
      w.Delivers 0 0 true := by
  have run : ∃ w, (initial .noop fun _ => none).run
      [.addGroup "Band", .addRemote "1", .patch (.connect "Remote1" "Band")] = .ok w := ⟨_, rfl⟩
  obtain ⟨w, run⟩ := run
  refine ⟨w, run, (buttons_delivered (fun _ => none) _ (.of_run run) 0 0 true).1 ?_⟩
  exact ⟨id, fun _ _ => ⟨id, fun _ _ => ⟨id, fun _ _ => trivial⟩⟩⟩

/-- A group keeps its slave under another name and is never told of the remote which takes
    its place in the patch. -/
theorem not_buttons_delivered :
    ∃ w, (initial .noop fun _ => none).run
      [.addRemote "1", .addRemote "2", .addGroup "Band", .patch (.connect "Remote1" "Band"),
        .renameGroup "Band" "Choir", .patch (.connect "Remote2" "Choir")] = .ok w ∧
      1 ∈ w.remotes ∧ ¬w.Delivers 1 0 true := by
  refine ⟨_, rfl, by decide, ?_⟩
  rintro ⟨w', run, perm⟩
  have lengths := perm.length_eq
  cases run
  exact absurd lengths (by decide)

end World

end VoxPopuli
