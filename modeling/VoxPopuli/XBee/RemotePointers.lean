import VoxPopuli.Lib.Runs
import VoxPopuli.XBee.XBeeInterface

/-! # Pointers from the model to the radio

A real remote looks its radio up once and keeps the pointer. The pointer goes stale when
the vector moves, and when an element at its slot or before it is erased; nothing else
makes it so.
-/

namespace VoxPopuli

namespace Daemon

variable {d d' : Daemon}

/-- The pointer leads to the remote of the radio with this address. -/
def Denotes (d : Daemon) (p : Pointer) (mac : QString) : Prop :=
  p.storage = d.storage ∧ ∃ x, d.xbeeRemotes[p.slot]? = some x ∧ intToHexStr x.addr = mac

/-- The real remotes which have not been destroyed. -/
def objects (d : Daemon) : List RemoteObject := d.remotes ++ d.deleted

/-- Whatever `remote` gives for a real remote leads to its radio. -/
def Sound (d : Daemon) : Prop := ∀ r ∈ d.objects, ∀ p, d.remote r = some p → d.Denotes p r.mac

/-- The addresses on the radio differ. -/
def Distinct (d : Daemon) : Prop := (d.xbeeRemotes.map XBeeRemote.addr).Nodup

/-- The response to a scan tells of a new remote. -/
structure Discovers (d : Daemon) (response : List Byte) : Prop where
  long : 10 ≤ response.length
  other : scanAddress response ≠ d.mac
  absent : ∀ x ∈ d.xbeeRemotes, x.addr ≠ scanAddress response

/-- The vector does not move while there are pointers into it, and nothing is erased at or
    before a slot which is pointed to. -/
def Still (d : Daemon) : Event → Prop
  | .scan _ response moves =>
      d.Discovers response → moves → ∀ r ∈ d.objects, r.remote = none
  | .atResponse _ (some addr) true => ∀ i, d.xbeeRemotes.findIdx? (fun x => x.addr = addr) = some i →
      ∀ r ∈ d.objects, ∀ p, r.remote = some p → p.slot < i
  | _ => True

theorem findRemote_denotes {mac : QString} {p : Pointer} (found : d.findRemote mac = some p) :
    d.Denotes p mac := by
  obtain ⟨i, index, rfl⟩ := Option.map_eq_some_iff.mp found
  obtain ⟨inside, same, -⟩ := List.findIdx?_eq_some_iff_getElem.mp index
  exact ⟨rfl, _, List.getElem?_eq_getElem inside, by simpa using same⟩

/-- Only the pointers which are kept can be wrong. -/
theorem sound_iff :
    d.Sound ↔ ∀ r ∈ d.objects, ∀ p, r.remote = some p → d.Denotes p r.mac := by
  constructor
  · intro h r member p kept
    refine h r member p ?_
    rw [remote, kept]
    rfl
  · intro h r member p result
    cases kept : r.remote with
    | some q =>
        rw [remote, kept] at result
        cases result
        exact h r member _ kept
    | none =>
        rw [remote, kept] at result
        exact findRemote_denotes result

theorem Denotes.congr {p : Pointer} {mac : QString} (storage : d'.storage = d.storage)
    (addrs : d'.xbeeRemotes.map XBeeRemote.addr = d.xbeeRemotes.map XBeeRemote.addr) :
    d'.Denotes p mac ↔ d.Denotes p mac := by
  have slot : ∀ d : Daemon, (∃ x, d.xbeeRemotes[p.slot]? = some x ∧ intToHexStr x.addr = mac) ↔
      ∃ a, (d.xbeeRemotes.map XBeeRemote.addr)[p.slot]? = some a ∧ intToHexStr a = mac := by
    intro d
    simp [List.getElem?_map]
  rw [Denotes, Denotes, storage, slot, slot, addrs]

/-- The radio is as it was, and so are the pointers into it. -/
theorem Sound.transfer (h : d.Sound) (storage : d'.storage = d.storage)
    (addrs : d'.xbeeRemotes.map XBeeRemote.addr = d.xbeeRemotes.map XBeeRemote.addr)
    (objects : ∀ r ∈ d'.objects, r ∈ d.objects ∨
      ∀ p, r.remote = some p → d.Denotes p r.mac) : d'.Sound := by
  rw [sound_iff] at h ⊢
  intro r member p kept
  rw [Denotes.congr storage addrs]
  exact (objects r member).elim (fun old => h r old p kept) fun fine => fine p kept

/-! ## The model -/

theorem mem_objects_listRemove {address : QString} {r : RemoteObject} :
    r ∈ (d.listRemove address).objects ↔ r ∈ d.objects := by
  unfold listRemove
  split
  · rfl
  · rename_i old found
    have there := List.mem_of_find?_eq_some found
    have perm := List.perm_cons_erase there
    simp only [objects, List.mem_append, perm.mem_iff, List.mem_cons]
    tauto

@[simp] theorem listRemove_xbeeRemotes (address : QString) :
    (d.listRemove address).xbeeRemotes = d.xbeeRemotes := by
  unfold listRemove
  split <;> rfl

@[simp] theorem listRemove_storage (address : QString) :
    (d.listRemove address).storage = d.storage := by
  unfold listRemove
  split <;> rfl

theorem listRemove_sound (h : d.Sound) (address : QString) : (d.listRemove address).Sound :=
  h.transfer (by simp) (by simp) fun _ member => .inl (mem_objects_listRemove.mp member)

@[simp] theorem perform_xbeeRemotes (i : Invocation) :
    (d.perform i).xbeeRemotes = d.xbeeRemotes := by
  cases i with
  | add address =>
      rw [perform, listAdd]
      split <;> rfl
  | remove address => exact listRemove_xbeeRemotes address

@[simp] theorem perform_storage (i : Invocation) : (d.perform i).storage = d.storage := by
  cases i with
  | add address =>
      rw [perform, listAdd]
      split <;> rfl
  | remove address => exact listRemove_storage address

theorem perform_sound (h : d.Sound) (i : Invocation) : (d.perform i).Sound := by
  refine h.transfer (by simp) (by simp) fun r member => ?_
  cases i with
  | add address =>
      rw [perform, listAdd] at member
      split at member
      · exact .inl member
      · simp only [objects, List.mem_append, List.mem_singleton] at member ⊢
        rcases member with (old | rfl) | old
        · exact .inl (.inl old)
        · exact .inr fun p found => findRemote_denotes found
        · exact .inl (.inr old)
  | remove address => exact .inl (mem_objects_listRemove.mp member)

theorem perform_mem (i : Invocation) {r : RemoteObject} (member : r ∈ d.objects) :
    r ∈ (d.perform i).objects := by
  cases i with
  | add address =>
      rw [perform, listAdd]
      split
      · exact member
      · simp only [objects, List.mem_append] at member ⊢
        tauto
  | remove address => exact mem_objects_listRemove.mpr member

theorem invoke_sound_iff (t : Thread) (i : Invocation) : (d.invoke t i).Sound ↔ d.Sound := by
  cases t with
  | xbee => exact Iff.rfl
  | main =>
      refine ⟨fun h => h.transfer ?_ ?_ fun r member => .inl (perform_mem i member),
        fun h => perform_sound h i⟩
      · exact (perform_storage i).symm
      · rw [invoke, perform_xbeeRemotes]

@[simp] theorem callRemote_xbeeRemotes (k : Nat) :
    (d.callRemote k).xbeeRemotes = d.xbeeRemotes := by
  unfold callRemote
  split
  · rfl
  · split
    · exact listRemove_xbeeRemotes _
    · rfl

theorem callRemote_sound (h : d.Sound) (k : Nat) : (d.callRemote k).Sound := by
  unfold callRemote
  split
  · exact h
  · rename_i r found
    split
    · exact listRemove_sound h _
    · rename_i p result
      have there : r ∈ d.objects := List.mem_append_left _ (List.mem_of_getElem? found)
      refine h.transfer rfl rfl fun r' member => ?_
      simp only [objects, List.mem_append] at member ⊢
      rcases member with set | old
      · rcases List.mem_or_eq_of_mem_set set with old | rfl
        · exact .inl (.inl old)
        · refine .inr fun q same => ?_
          cases same
          exact h r there p result
      · exact .inl (.inr old)

@[simp] theorem clearRemoteModel_addrs (p : Pointer) :
    (d.clearRemoteModel p).xbeeRemotes.map XBeeRemote.addr =
      d.xbeeRemotes.map XBeeRemote.addr := by
  unfold clearRemoteModel
  split
  · apply List.ext_getElem?
    intro i
    simp only [List.getElem?_map, List.getElem?_modify]
    by_cases here : p.slot = i
    · simp [here, Function.comp_def]
    · simp [here]
  · rfl

theorem destroy_sound (h : d.Sound) : d.destroy.Sound := by
  unfold destroy
  split
  · exact h
  · rename_i r rest queue
    have fewer : ({ d with deleted := rest } : Daemon).Sound := by
      refine h.transfer rfl rfl fun r' member => .inl ?_
      simp only [objects, queue, List.mem_append, List.mem_cons] at member ⊢
      tauto
    dsimp only
    split
    · exact listRemove_sound fewer _
    · rename_i p _
      refine fewer.transfer ?_ (clearRemoteModel_addrs p) fun r' member => .inl ?_
      · rw [clearRemoteModel]
        split <;> rfl
      · rw [clearRemoteModel] at member
        split at member <;> exact member

/-! ## The radio -/

theorem handleScanResponse_new {response : List Byte} (new : d.Discovers response) (t : Thread)
    (moves : Bool) : d.handleScanResponse t response moves =
      { d with
        xbeeRemotes := d.xbeeRemotes ++ [{ addr := scanAddress response }]
        storage := if moves then d.storage + 1 else d.storage
        initialising := (t, scanAddress response) :: d.initialising } := by
  have absent : (d.xbeeRemotes.any fun x => x.addr = scanAddress response) = false := by
    simpa using new.absent
  rw [handleScanResponse, if_neg (not_lt.mpr new.long), if_neg new.other]
  simp [absent, addRemote]

theorem handleScanResponse_known {response : List Byte} (known : ¬d.Discovers response)
    (t : Thread) (moves : Bool) : d.handleScanResponse t response moves = d := by
  unfold handleScanResponse
  split
  · rfl
  · rename_i long
    split
    · rfl
    · rename_i other
      split
      · rfl
      · rename_i absent
        refine absurd ⟨not_lt.mp long, other, fun x member same => absent ?_⟩ known
        exact List.any_eq_true.mpr ⟨x, member, by simpa using same⟩

theorem remoteModel_addr (x : XBeeRemote) : (d.remoteModel x).2.addr = x.addr := by
  unfold remoteModel
  split <;> rfl

theorem handleMessage_ends (x : XBeeRemote) (msg : StdString) :
    Ends (fun _ => True) (d.handleMessage x msg) fun x' => x'.addr = x.addr := by
  unfold handleMessage
  split
  · rfl
  · split
    · trivial
    · rename_i x' result
      have same := remoteModel_addr (d := d) x
      rwa [result] at same

/-- A frame changes nothing but the entry it comes from, and not its address. -/
theorem xbeeTX_ends (addr : List Byte) (data : StdString) :
    Ends (fun _ => True) (d.xbeeTX addr data) fun d' =>
      ∃ xs, d' = { d with xbeeRemotes := xs } ∧
        xs.map XBeeRemote.addr = d.xbeeRemotes.map XBeeRemote.addr := by
  unfold xbeeTX
  split
  · exact ⟨_, rfl, rfl⟩
  · split
    · exact ⟨_, rfl, rfl⟩
    · rename_i i _ _ x found
      dsimp only
      have start : ({ x with rxBuffer := (XBeeRemote.splitRX [] (x.rxBuffer ++ data)).2 } :
        XBeeRemote).addr = x.addr := rfl
      refine Ends.bind (Ends.foldlM (I := fun _ (x' : XBeeRemote) => x'.addr = x.addr) start ?_) ?_
      · intro msg rest x' same
        exact (handleMessage_ends x' msg).mono fun x'' same' => same'.trans same
      · intro x' same
        refine ⟨_, rfl, ?_⟩
        apply List.ext_getElem?
        intro j
        simp only [List.getElem?_map, List.getElem?_set]
        by_cases here : i = j
        · subst here
          have inside := (List.getElem?_eq_some_iff.mp found).1
          rw [if_pos rfl, if_pos inside, found, Option.map_some, Option.map_some, same]
        · simp [here]

/-- An address which leaves takes its slot and moves the later ones down. -/
theorem erase_sound_iff (h : d.Sound) (distinct : d.Distinct) (i : Nat) :
    ({ d with xbeeRemotes := d.xbeeRemotes.eraseIdx i } : Daemon).Sound ↔
      ∀ r ∈ d.objects, ∀ p, r.remote = some p → p.slot < i := by
  rw [sound_iff] at h ⊢
  constructor
  · intro fine r member p kept
    obtain ⟨storage, x, there, same⟩ := h r member p kept
    obtain ⟨-, x', there', same'⟩ := fine r member p kept
    by_contra after
    -- What stands at the slot now stood behind it before.
    rw [List.getElem?_eraseIdx_of_ge (not_lt.mp after)] at there'
    have slots : (d.xbeeRemotes.map XBeeRemote.addr)[p.slot + 1]? =
        (d.xbeeRemotes.map XBeeRemote.addr)[p.slot]? := by
      simp [there, there', intToHexStr_injective (same'.trans same.symm)]
    have inside : p.slot < (d.xbeeRemotes.map XBeeRemote.addr).length := by
      simpa using (List.getElem?_eq_some_iff.mp there).1
    have equal := (List.getElem?_inj inside distinct).mp slots.symm
    omega
  · intro before r member p kept
    obtain ⟨storage, x, there, same⟩ := h r member p kept
    refine ⟨storage, x, ?_, same⟩
    rw [List.getElem?_eraseIdx_of_lt (before r member p kept)]
    exact there

theorem step_sound_iff (h : d.Sound) (distinct : d.Distinct) {e : Event}
    (step : d.step e = .ok d') : d'.Sound ↔ d.Still e := by
  cases e with
  | scan t response moves =>
      cases step
      by_cases new : d.Discovers response
      · rw [handleScanResponse_new new]
        cases moves with
        | false =>
            refine iff_of_true ?_ (fun _ moved => absurd moved (by simp))
            rw [sound_iff] at h ⊢
            intro r member p kept
            obtain ⟨storage, x, there, same⟩ := h r member p kept
            refine ⟨storage, x, ?_, same⟩
            rw [List.getElem?_append_left (List.getElem?_eq_some_iff.mp there).1]
            exact there
        | true =>
            rw [sound_iff] at h ⊢
            constructor
            · intro fine _ _ r member
              cases kept : r.remote with
              | none => rfl
              | some p =>
                  have old := (h r member p kept).1
                  have new : p.storage = d.storage + 1 := (fine r member p kept).1
                  omega
            · intro free r member p kept
              rw [free new rfl r member] at kept
              cases kept
      · rw [handleScanResponse_known new]
        exact ⟨fun _ new' => absurd new' new, fun _ => h⟩
  | finishAdd t =>
      cases step
      refine iff_of_true ?_ trivial
      unfold finishAdd
      split
      · exact h
      · exact (invoke_sound_iff _ _).mpr h
  | atResponse t source failed =>
      cases failed with
      | false =>
          cases step
          refine iff_of_true h ?_
          cases source <;> trivial
      | true =>
          cases source with
          | none => cases step
          | some addr =>
              cases step
              rw [Still, removeRemote]
              cases found : d.xbeeRemotes.findIdx? (fun x => x.addr = addr) with
              | none => exact iff_of_true h fun i absent => by cases absent
              | some i =>
                  dsimp only
                  rw [invoke_sound_iff, erase_sound_iff h distinct i]
                  exact ⟨fun before i same => by cases same; exact before, fun before => before i rfl⟩
  | receive addr data =>
      obtain ⟨xs, rfl, addrs⟩ := (xbeeTX_ends addr data).of_ok step
      exact iff_of_true (h.transfer rfl addrs fun r member => .inl member) trivial
  | deliver =>
      cases step
      refine iff_of_true ?_ trivial
      unfold deliver
      split
      · exact h
      · rename_i i rest _
        have waiting : ({ d with invocations := rest } : Daemon).Sound :=
          h.transfer rfl rfl fun r member => .inl member
        exact perform_sound waiting i
  | remote k =>
      cases step
      exact iff_of_true (callRemote_sound h k) trivial
  | sendTX k =>
      refine iff_of_true ?_ trivial
      rw [Daemon.step, sendTX] at step
      split at step
      · cases step
        exact h
      · split at step <;> cases step
        exact callRemote_sound h k
  | destroy =>
      cases step
      exact iff_of_true (destroy_sound h) trivial

theorem handleScanResponse_distinct (h : d.Distinct) (t : Thread) (response : List Byte)
    (moves : Bool) : (d.handleScanResponse t response moves).Distinct := by
  by_cases new : d.Discovers response
  · rw [handleScanResponse_new new]
    simp only [Distinct, List.map_append, List.map_cons, List.map_nil]
    refine List.nodup_append.mpr ⟨h, List.nodup_singleton _, ?_⟩
    intro a old b same
    obtain ⟨x, member, rfl⟩ := List.mem_map.mp old
    rw [List.mem_singleton.mp same]
    exact new.absent x member
  · rwa [handleScanResponse_known new]

theorem invoke_xbeeRemotes (t : Thread) (i : Invocation) :
    (d.invoke t i).xbeeRemotes = d.xbeeRemotes := by
  cases t with
  | xbee => rfl
  | main => exact perform_xbeeRemotes i

/-- The addresses on the radio change by a discovery and by a removal only. -/
theorem step_addrs {e : Event} (step : d.step e = .ok d') :
    (∃ t response moves, e = .scan t response moves ∧
      d' = d.handleScanResponse t response moves) ∨
    (d'.xbeeRemotes.map XBeeRemote.addr).Sublist (d.xbeeRemotes.map XBeeRemote.addr) := by
  cases e with
  | scan t response moves =>
      cases step
      exact .inl ⟨t, response, moves, rfl, rfl⟩
  | finishAdd t =>
      cases step
      right
      unfold finishAdd
      split
      · exact .refl _
      · rw [invoke_xbeeRemotes]
  | atResponse t source failed =>
      right
      cases failed with
      | false =>
          cases step
          exact .refl _
      | true =>
          cases source with
          | none => cases step
          | some addr =>
              cases step
              rw [removeRemote]
              split
              · exact .refl _
              · rw [invoke_xbeeRemotes]
                exact (List.eraseIdx_sublist _ _).map _
  | receive addr data =>
      obtain ⟨xs, rfl, addrs⟩ := (xbeeTX_ends addr data).of_ok step
      rw [addrs]
      exact .inr (.refl _)
  | deliver =>
      cases step
      right
      unfold deliver
      split
      · exact .refl _
      · rw [perform_xbeeRemotes]
  | remote k =>
      cases step
      rw [callRemote_xbeeRemotes]
      exact .inr (.refl _)
  | sendTX k =>
      right
      rw [Daemon.step, sendTX] at step
      split at step
      · cases step
        exact .refl _
      · split at step <;> cases step
        rw [callRemote_xbeeRemotes]
  | destroy =>
      cases step
      right
      unfold destroy
      split
      · exact .refl _
      · dsimp only
        split
        · rw [listRemove_xbeeRemotes]
        · rw [clearRemoteModel_addrs]

theorem step_distinct (h : d.Distinct) {e : Event} (step : d.step e = .ok d') : d'.Distinct := by
  rcases step_addrs step with ⟨t, response, moves, -, rfl⟩ | fewer
  · exact handleScanResponse_distinct h t response moves
  · exact h.sublist fewer

/-- In every state of a run the pointers are right if and only if every step of the run
    leaves them in place. -/
theorem sound_iff_still (sound : d.Sound) (distinct : d.Distinct) (events : List Event) :
    (∀ d', Runs.Reaches step d events d' → d'.Sound) ↔ Runs.Throughout step Still d events := by
  refine Runs.reaches_iff (J := Distinct) sound distinct (fun d e d' h first => step_distinct h first)
    (fun d e d' h sound first => step_sound_iff sound h first) ?_
  intro d e fault _ failed
  cases e with
  | scan t response moves => cases failed
  | atResponse t source error =>
      cases source with
      | none => cases error <;> trivial
      | some addr => cases error <;> cases failed
  | finishAdd | receive | deliver | remote | sendTX | destroy => trivial

/-- Two remotes are found and the second one, whose vector moves while nothing points into
    it yet, is reached. -/
theorem sound_iff_still_two :
    let d : Daemon := { mac := [] }
    let events : List Daemon.Event :=
      [.scan .xbee [0, 0, 1, 1, 1, 1, 1, 1, 1, 1] false, .finishAdd .xbee,
        .scan .xbee [0, 0, 2, 2, 2, 2, 2, 2, 2, 2] true, .finishAdd .xbee, .deliver, .deliver,
        .remote 1]
    (∀ d', Runs.Reaches Daemon.step d events d' → d'.Sound) ↔
      Runs.Throughout Daemon.step Still d events :=
  have sound : ({ mac := [] } : Daemon).Sound := fun _ member => absurd member List.not_mem_nil
  have distinct : ({ mac := [] } : Daemon).Distinct := List.nodup_nil
  sound_iff_still sound distinct _

/-- After the first of two remotes has left the radio, the pointer of the second one leads
    behind the end of the vector. -/
theorem not_sound_first_leaves : ∃ d', Runs.Reaches Daemon.step { mac := [] }
    [.scan .xbee [0, 0, 1, 1, 1, 1, 1, 1, 1, 1] false, .finishAdd .xbee, .deliver,
      .scan .xbee [0, 0, 2, 2, 2, 2, 2, 2, 2, 2] false, .finishAdd .xbee, .deliver,
      .atResponse .xbee (some [1, 1, 1, 1, 1, 1, 1, 1]) true] d' ∧
    ∃ r ∈ d'.remotes, ∃ p, d'.remote r = some p ∧ ¬d'.Denotes p r.mac := by
  refine ⟨_, .of_run rfl, ⟨1, _, some ⟨0, 1⟩⟩, List.mem_cons_of_mem _ List.mem_cons_self, _, rfl, ?_⟩
  rintro ⟨-, x, there, -⟩
  cases there

end Daemon

end VoxPopuli
