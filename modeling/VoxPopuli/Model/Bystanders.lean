import VoxPopuli.Model.Adding
import VoxPopuli.Model.LookupKeys
import VoxPopuli.XBee.ReceiveRX

/-! # Remotes beside each other

A button of one remote and a new emulated remote leave the other remotes as they are: their
places in the list, their names and addresses, their buttons.
-/

namespace VoxPopuli

open World

/-- Remotes only come at the end of the list; the old ones keep their names, their kinds and
    their addresses, and all but one keep their buttons. -/
structure World.Beside (x : Nat) (new : List Nat) (w w' : World) : Prop where
  remotes : w'.remotes = w.remotes ++ new
  names : ∀ r ∈ w.remotes, w'.remoteName r = w.remoteName r
  isReal : ∀ r ∈ w.remotes, w'.isReal r = w.isReal r
  osc : ∀ r ∈ w.remotes, EmulatedRemote.oscAddress w' r = EmulatedRemote.oscAddress w r
  shows : ∀ r ∈ w.remotes, r ≠ x → ∀ down, Remote.Shows w r down → Remote.Shows w' r down

theorem World.Reachable.perform {w w' : World} {mutex : MutexState} (h : w.Reachable mutex)
    {op : Op} (run : op.perform w = .ok w') : w'.Reachable mutex := by
  obtain ⟨accepts, ops, runs⟩ := h
  refine ⟨accepts, ops ++ [op], ?_⟩
  rw [World.run, List.foldlM_append]
  exact bind_eq_ok.mpr ⟨w, runs, bind_eq_ok.mpr ⟨w', run, rfl⟩⟩

theorem RemoteList.byOSC_eq_some {w : World} {addr : QString} {r : Nat}
    (found : RemoteList.byOSC w addr = some r) :
    r ∈ w.remotes ∧ EmulatedRemote.oscAddress w r = addr := by
  have sought := List.find?_some (p := fun r => !w.isReal r ∧ EmulatedRemote.oscAddress w r = addr)
    found
  exact ⟨List.mem_of_find?_eq_some found, (of_decide_eq_true sought).2⟩

namespace World.Beside

variable {w w' : World} {x : Nat} {new : List Nat}

theorem refl (x : Nat) (w : World) : Beside x [] w w :=
  ⟨(List.append_nil _).symm, fun _ _ => rfl, fun _ _ => rfl, fun _ _ => rfl, fun _ _ _ _ => id⟩

/-- The document of a remote holds its address and its buttons. -/
theorem of_json (remotes : w'.remotes = w.remotes ++ new)
    (names : ∀ r ∈ w.remotes, w'.remoteName r = w.remoteName r)
    (isReal : ∀ r ∈ w.remotes, w'.isReal r = w.isReal r)
    (json : ∀ r ∈ w.remotes, r ≠ x → w'.json (.remote r) = w.json (.remote r))
    (osc : x ∈ w.remotes → EmulatedRemote.oscAddress w' x = EmulatedRemote.oscAddress w x) :
    Beside x new w w' := by
  refine ⟨remotes, names, isReal, fun r inside => ?_, fun r inside other down shown => ?_⟩
  · by_cases own : r = x
    · subst own
      exact osc inside
    · simp only [EmulatedRemote.oscAddress, get, json r inside own]
  · intro b e bName known
    rw [get, json r inside other]
    exact shown b e bName known

/-- Only a new remote is found besides the old ones. -/
theorem byOSC (beside : Beside x new w w') (addr : QString) :
    RemoteList.byOSC w' addr = (RemoteList.byOSC w addr).or
      (new.find? fun r => !w'.isReal r ∧ EmulatedRemote.oscAddress w' r = addr) := by
  rw [RemoteList.byOSC, beside.remotes, List.find?_append, RemoteList.byOSC]
  congr 1
  refine List.find?_congr fun r inside => ?_
  rw [beside.isReal r inside, beside.osc r inside]

end World.Beside

/-! ## Buttons and newcomers -/

section Messages

variable {w : World}

theorem Remote.setButtonState_beside (r : Nat) (b : XBEE_MSG_TYPE) (pressed : Bool) :
    Ends (fun _ => True) (setButtonState w r b pressed) (Beside r [] w) := by
  have covers : (Scope.single r).silent.Covers w := ⟨nofun, fun _ _ => nofun, fun _ _ => nofun⟩
  have inside : NodeRef.remote r ∈ (Scope.single r).silent.nodes :=
    fun _ same => (NodeRef.remote.inj same).symm
  apply ((acts_setButtonState covers inside b pressed).and
    (EmulatedRemote.oscAddress_setButtonState r b pressed)).mono
  rintro w' ⟨acts, address⟩
  have deeds : Deeds (Scope.single r).silent w w' := .of_acts acts
  have settled := deeds.settles
  have held := deeds.holds (p := .remoteList) (.inl rfl) fun _ => Scope.quiet_silent _ w
  have remotes : w'.remotes = w.remotes :=
    List.map_injective_iff.mpr (fun _ _ => NodeRef.remote.inj) held.children
  refine .of_json (by rw [remotes, List.append_nil]) (fun r' _ => congrFun settled.remoteName r')
    (fun r' _ => congrFun settled.isReal r') (fun r' _ other => ?_) fun _ => address
  exact deeds.json_remote (Scope.not_mem_single other)

namespace RemoteList

/-- A new emulated remote. -/
structure Joined (name osc ipPort : QString) (w w' : World) : Prop where
  beside : Beside w.freshRemote [w.freshRemote] w w'
  name : w'.remoteName w.freshRemote = name
  emulated : w'.isReal w.freshRemote = false
  json : w'.json (.remote w.freshRemote) = EmulatedRemote.createEmulatedRemoteJSon osc ipPort

theorem Joined.osc {name osc ipPort : QString} {w' : World} (joined : Joined name osc ipPort w w') :
    EmulatedRemote.oscAddress w' w.freshRemote = osc := by
  rw [EmulatedRemote.oscAddress, World.get, joined.json, value_osc]
  rfl

/-- Its buttons are up. -/
theorem Joined.shows {name osc ipPort : QString} {w' : World}
    (joined : Joined name osc ipPort w w') :
    Remote.Shows w' w.freshRemote fun _ => false := by
  intro b e bName known
  rw [World.get, joined.json]
  cases b <;> cases known <;> rfl

theorem beside_create (old : ∀ r ∈ w.remotes, r < w.freshRemote) (name : QString) (real : Bool)
    (o : QJsonObject) : Beside w.freshRemote [] w (create w w.freshRemote name real o) := by
  refine .of_json (List.append_nil _).symm
    (fun r inside => Function.update_of_ne (old r inside).ne _ _)
    (fun r inside => Function.update_of_ne (old r inside).ne _ _) (fun r inside other => ?_)
    fun inside => absurd (old _ inside) (lt_irrefl _)
  simp [create, setJson, other]

/-- What a new remote has stored is cleared when it is refused. -/
theorem beside_clear (old : ∀ r ∈ w.remotes, r < w.freshRemote) (name : QString) (real : Bool)
    (o : QJsonObject) : Beside w.freshRemote [] w
      ((create w w.freshRemote name real o).clearJsonData (.remote w.freshRemote)) := by
  refine .of_json (List.append_nil _).symm
    (fun r inside => Function.update_of_ne (old r inside).ne _ _)
    (fun r inside => Function.update_of_ne (old r inside).ne _ _) (fun r inside other => ?_)
    fun inside => absurd (old _ inside) (lt_irrefl _)
  rw [json_clearJsonData (by simpa using other)]
  simp [create, setJson, other]

theorem joined_of_arrival (old : ∀ r ∈ w.remotes, r < w.freshRemote) {name osc ipPort : QString}
    {o : QJsonObject} {q : Bool × World}
    (arrival : Arrival (Scope.single w.freshRemote) Eq (.remote w.freshRemote) name
      (EmulatedRemote.createEmulatedRemoteJSon osc ipPort) (listRemote w.freshRemote)
      (create w w.freshRemote name false o) q) :
    if (' ' : QChar) ∈ name then Beside w.freshRemote [] w q.2
    else Joined name osc ipPort w q.2 := by
  have created := beside_create old name false o
  have quiet : (Scope.single w.freshRemote).Quiet (create w w.freshRemote name false o) := by
    rintro r rfl ⟨⟨isReal, -, -⟩, -⟩
    simp [create] at isReal
  cases arrival with
  | refused blank =>
      rw [if_pos blank]
      exact beside_clear old name false o
  | @arrived w₁ w₂ solid grown told =>
      subst told
      rw [if_neg solid]
      have settled := grown.settles
      have held := grown.holds (p := .remoteList) (.inl rfl) fun _ => quiet
      have remotes : w₁.remotes = w.remotes :=
        List.map_injective_iff.mpr (fun _ _ => NodeRef.remote.inj) held.children
      obtain ⟨json', same, -, others⟩ := adopt_frame (w := w₁) (e := .remote w.freshRemote) rfl
        (by simp) (EmulatedRemote.createEmulatedRemoteJSon osc ipPort)
      have document := json_adopt (w := w₁) (e := .remote w.freshRemote) rfl (by simp)
        (EmulatedRemote.createEmulatedRemoteJSon osc ipPort)
      rw [same] at document ⊢
      refine ⟨.of_json ?_ (fun r inside => ?_) (fun r inside => ?_) (fun r inside other => ?_)
        fun inside => absurd (old _ inside) (lt_irrefl _), ?_, ?_, document⟩
      · exact congrArg (· ++ [w.freshRemote]) remotes
      · exact (congrFun settled.remoteName r).trans (created.names r inside)
      · exact (congrFun settled.isReal r).trans (created.isReal r inside)
      · refine (others _ (by simp [NodeRef.ancestors, other])).trans ?_
        refine (grown.json_remote (Scope.not_mem_single other)).trans ?_
        simp [create, setJson, other]
      · exact (congrFun settled.remoteName _).trans (Function.update_self ..)
      · exact (congrFun settled.isReal _).trans (Function.update_self ..)

/-- Whoever is refused leaves the remotes as they are. -/
theorem emulateRemote_joined (listed : w.RemotesListed) (name osc ipPort : QString) :
    Ends (fun _ => True) (emulateRemote w name osc ipPort) fun q =>
      (Taken w name osc ∨ (' ' : QChar) ∈ name → Beside w.freshRemote [] w q.2) ∧
        (¬Taken w name osc → (' ' : QChar) ∉ name → Joined name osc ipPort w q.2) := by
  have guard : (w.remotes.any fun r => w.remoteName r = name ∨
      (osc ≠ "" ∧ EmulatedRemote.oscAddress w r = osc)) = true ↔ Taken w name osc := by
    simp [Taken]
  by_cases taken : Taken w name osc
  · rw [emulateRemote, if_pos (guard.mpr taken)]
    exact ⟨fun _ => .refl _ w, fun new => absurd taken new⟩
  · rw [emulateRemote, if_neg fun any => taken (guard.mp any)]
    refine (createEmulated_arrival (Scope.drives_single _) (Scope.covers_single _ w) name osc
      ipPort).bind fun q arrival => ?_
    have outcome := joined_of_arrival listed.old arrival
    refine ⟨fun refused => ?_, fun _ solid => ?_⟩
    · rwa [if_pos (refused.resolve_left taken)] at outcome
    · rwa [if_neg solid] at outcome

end RemoteList

end Messages

end VoxPopuli
