import VoxPopuli.XBee.RemotePointers

/-! # Agreement of the radio and the model

The list of the model follows the vector of the radio through the updates which are on
their way to it. They arrive in the order in which the radio changed, unless one is made
in the main thread while others about the same remote are still waiting, or a remote
leaves while its `addRemote` is still in `init`.
-/

namespace VoxPopuli

open Pending

namespace Daemon

variable {d d' : Daemon} {m : QString}

/-- The MACs of the real remotes in the list. -/
def macs (d : Daemon) : List QString := d.remotes.map RemoteObject.mac

/-- The addresses on the radio, in hex. -/
def addresses (d : Daemon) : List QString := d.xbeeRemotes.map fun x => intToHexStr x.addr

/-- What a call of `addRemote` which is still in `init` will tell the list. -/
def announcement (e : Thread × List Byte) : Invocation := .add (intToHexStr e.2)

/-- The updates which the list has yet to see: those which are posted, and then those of
    the calls which are still in `init`. -/
def coming (d : Daemon) : List Invocation := d.invocations ++ d.initialising.map announcement

/-- No invocation is pending, and no handler is still running which will make one. -/
def Quiescent (d : Daemon) : Prop := d.invocations = [] ∧ d.initialising = []

structure Agrees (d : Daemon) : Prop where
  same : d.macs.Perm d.addresses
  once : d.macs.Nodup
  other : intToHexStr d.mac ∉ d.macs

/-- No update overtakes another one about the same remote. -/
def Orderly (d : Daemon) : Event → Prop
  | .finishAdd .main => ∀ addr, d.initialising.find? (fun e => e.1 = .main) = some (.main, addr) →
      Quiet d.invocations (intToHexStr addr)
  | .atResponse t (some addr) true => intToHexStr addr ∈ d.addresses →
      addr ∉ d.initialising.map Prod.snd ∧ (t = .main → Quiet d.invocations (intToHexStr addr))
  | _ => True

/-- Once it has seen the updates on their way, the list holds what is on the radio. -/
structure Mirrored (d : Daemon) : Prop where
  follows : ∀ m, settled (decide (m ∈ d.macs)) d.coming m = decide (m ∈ d.addresses)
  macs : d.macs.Nodup
  addresses : d.addresses.Nodup
  other : intToHexStr d.mac ∉ d.addresses
  once : (d.initialising.map Prod.snd).Nodup
  there : ∀ e ∈ d.initialising, intToHexStr e.2 ∈ d.addresses

/-- A remote which no update is about is in the list if and only if it is on the radio. -/
theorem Mirrored.quiet (h : d.Mirrored) (quiet : Quiet d.coming m) :
    m ∈ d.macs ↔ m ∈ d.addresses := by
  have same := h.follows m
  rw [settled_quiet quiet] at same
  exact decide_eq_decide.mp same

theorem Mirrored.agrees (h : d.Mirrored) (quiescent : d.Quiescent) : d.Agrees := by
  have quiet : ∀ m, Quiet d.coming m := by
    intro m u member
    rw [coming, quiescent.1, quiescent.2] at member
    exact absurd member List.not_mem_nil
  have same : ∀ m, m ∈ d.macs ↔ m ∈ d.addresses := fun m => h.quiet (quiet m)
  refine ⟨(List.perm_ext_iff_of_nodup h.macs h.addresses).mpr same, h.macs, ?_⟩
  rw [same]
  exact h.other

/-! ## The list -/

theorem listRemove_macs (address : QString) :
    (d.listRemove address).macs = d.macs.erase address := by
  have erased : ∀ rs : List RemoteObject, ∀ r, rs.find? (fun r => r.mac = address) = some r →
      (rs.erase r).map RemoteObject.mac = (rs.map RemoteObject.mac).erase address := by
    intro rs r found
    induction rs with
    | nil => cases found
    | cons x rs ih =>
        by_cases here : x.mac = address
        · rw [List.find?_cons_of_pos (by simpa using here)] at found
          cases found
          simp [here]
        · rw [List.find?_cons_of_neg (by simpa using here)] at found
          have own : r.mac = address := by simpa using List.find?_some found
          have differ : x ≠ r := fun same => here (same ▸ own)
          simp [differ, here, ih found]
  unfold listRemove
  split
  · rename_i absent
    refine (List.erase_of_not_mem fun member => ?_).symm
    obtain ⟨r, there, own⟩ := List.mem_map.mp member
    exact absurd own (by simpa using List.find?_eq_none.mp absent r there)
  · rename_i r found
    exact erased d.remotes r found

theorem listAdd_macs (address : QString) : (d.listAdd address).macs =
    if address ∈ d.macs then d.macs else d.macs ++ [address] := by
  have known : (d.remotes.any fun r => r.mac = address) = decide (address ∈ d.macs) := by
    rw [Bool.eq_iff_iff]
    simp [macs]
  rw [listAdd, known]
  by_cases member : address ∈ d.macs
  · rw [if_pos member, if_pos (decide_eq_true member)]
  · rw [if_neg member, if_neg (by simpa using member)]
    exact List.map_append

/-- An update puts its remote into the list or takes it out, and leaves the others. -/
theorem perform_macs (once : d.macs.Nodup) (i : Invocation) :
    (d.perform i).macs.Nodup ∧
      ∀ m, decide (m ∈ (d.perform i).macs) = if i.key = m then i.holds else decide (m ∈ d.macs) := by
  cases i with
  | add address =>
      rw [perform, listAdd_macs]
      by_cases known : address ∈ d.macs
      · rw [if_pos known]
        refine ⟨once, fun m => ?_⟩
        by_cases own : address = m
        · subst own
          simp [Update.key, Update.holds, known]
        · simp [Update.key, own]
      · rw [if_neg known]
        refine ⟨?_, fun m => ?_⟩
        · refine List.nodup_append.mpr ⟨once, List.nodup_singleton _, ?_⟩
          rintro m member _ same rfl
          exact known (List.mem_singleton.mp same ▸ member)
        · by_cases own : address = m
          · simp [Update.key, Update.holds, own]
          · have differ : m ≠ address := fun same => own same.symm
            simp [Update.key, own, differ]
  | remove address =>
      rw [perform, listRemove_macs]
      refine ⟨once.erase address, fun m => ?_⟩
      by_cases own : address = m
      · subst own
        simp [Update.key, Update.holds, once.mem_erase_iff]
      · have differ : m ≠ address := fun same => own same.symm
        simp [Update.key, own, once.mem_erase_iff, differ]

/-- What `RemoteList` does is done to the list alone. -/
theorem perform_frame (i : Invocation) : (d.perform i).invocations = d.invocations ∧
    (d.perform i).initialising = d.initialising ∧ (d.perform i).mac = d.mac := by
  cases i with
  | add address =>
      rw [perform, listAdd]
      split <;> exact ⟨rfl, rfl, rfl⟩
  | remove address =>
      rw [perform, listRemove]
      split <;> exact ⟨rfl, rfl, rfl⟩

/-- Only the list changes, and what is on its way makes up for it. -/
theorem Mirrored.transfer (h : d.Mirrored) (mac : d'.mac = d.mac)
    (addresses : d'.addresses = d.addresses) (initialising : d'.initialising = d.initialising)
    (macs : d'.macs.Nodup)
    (follows : ∀ m, settled (decide (m ∈ d'.macs)) d'.coming m =
      settled (decide (m ∈ d.macs)) d.coming m) : d'.Mirrored where
  follows m := by rw [follows, h.follows, addresses]
  macs := macs
  addresses := addresses ▸ h.addresses
  other := by rw [mac, addresses]; exact h.other
  once := initialising ▸ h.once
  there := by rw [initialising, addresses]; exact h.there

/-- A real remote which is not on the radio may leave the list at any time. -/
theorem Mirrored.lose (h : d.Mirrored) (gone : m ∉ d.addresses) :
    (d.listRemove m).Mirrored := by
  obtain ⟨once, present⟩ := perform_macs h.macs (.remove m)
  obtain ⟨invocations, initialising, mac⟩ := perform_frame (d := d) (.remove m)
  rw [perform] at once present invocations initialising mac
  have radio : (d.listRemove m).addresses = d.addresses :=
    congrArg (List.map _) (listRemove_xbeeRemotes m)
  refine h.transfer mac radio initialising once fun m' => ?_
  rw [coming, invocations, initialising, ← coming]
  by_cases pending : Quiet d.coming m'
  · rw [settled_quiet pending, settled_quiet pending, present]
    split
    · rename_i own
      cases own
      have absent : m ∉ d.macs := fun member => gone ((h.quiet pending).mp member)
      simp [Update.holds, Update.key, absent]
    · rfl
  · exact settled_pending pending _

/-- `remote` finds nothing where nothing is on the radio. -/
theorem remote_none_iff {r : RemoteObject} :
    d.remote r = none ↔ r.remote = none ∧ r.mac ∉ d.addresses := by
  rw [remote, Option.or_eq_none_iff, findRemote, Option.map_eq_none_iff, List.findIdx?_eq_none_iff]
  simp [addresses]

theorem Mirrored.callRemote (h : d.Mirrored) (k : Nat) : (d.callRemote k).Mirrored := by
  unfold Daemon.callRemote
  split
  · exact h
  · rename_i r found
    split
    · rename_i none
      exact h.lose (remote_none_iff.mp none).2
    · rename_i p _
      have macs : ({ d with remotes := d.remotes.set k { r with remote := some p } } : Daemon).macs =
          d.macs := by
        apply List.ext_getElem?
        intro j
        simp only [Daemon.macs, List.getElem?_map, List.getElem?_set]
        by_cases here : k = j
        · subst here
          rw [if_pos rfl, if_pos (List.getElem?_eq_some_iff.mp found).1, found]
          rfl
        · simp [here]
      refine h.transfer rfl rfl rfl (macs ▸ h.macs) fun m => ?_
      rw [macs]
      rfl

theorem Mirrored.destroy (h : d.Mirrored) : d.destroy.Mirrored := by
  unfold Daemon.destroy
  split
  · exact h
  · rename_i r rest _
    have fewer : ({ d with deleted := rest } : Daemon).Mirrored :=
      h.transfer rfl rfl rfl h.macs fun m => rfl
    dsimp only
    split
    · rename_i none
      exact fewer.lose (remote_none_iff.mp none).2
    · rename_i p _
      have addrs := congrArg (List.map intToHexStr)
        (clearRemoteModel_addrs (d := { d with deleted := rest }) p)
      rw [List.map_map, List.map_map] at addrs
      have frame : ∀ d : Daemon, (d.clearRemoteModel p).mac = d.mac ∧
          (d.clearRemoteModel p).initialising = d.initialising ∧
          (d.clearRemoteModel p).macs = d.macs ∧ (d.clearRemoteModel p).coming = d.coming := by
        intro d
        rw [clearRemoteModel]
        split <;> exact ⟨rfl, rfl, rfl, rfl⟩
      obtain ⟨mac, initialising, macs, coming⟩ := frame { d with deleted := rest }
      refine fewer.transfer mac addrs initialising (macs ▸ h.macs) fun m => ?_
      rw [macs, coming]

/-- The list sees an update in its turn. -/
theorem Mirrored.deliver (h : d.Mirrored) : d.deliver.Mirrored := by
  unfold Daemon.deliver
  split
  · exact h
  · rename_i i rest queue
    have macs : ({ d with invocations := rest } : Daemon).macs.Nodup := h.macs
    obtain ⟨macs', present⟩ := perform_macs macs i
    obtain ⟨invocations, initialising, mac⟩ := perform_frame (d := { d with invocations := rest }) i
    have radio : (({ d with invocations := rest } : Daemon).perform i).addresses = d.addresses :=
      congrArg (List.map _) (perform_xbeeRemotes i)
    refine h.transfer mac radio initialising macs' fun m => ?_
    rw [coming, coming, invocations, initialising, queue, List.cons_append, settled_cons, present]
    rfl

/-! ## The radio -/

theorem quiet_announcements {addr : List Byte} {calls : List (Thread × List Byte)}
    (absent : addr ∉ calls.map Prod.snd) :
    Quiet (calls.map announcement) (intToHexStr addr) := by
  intro u member same
  obtain ⟨e, there, rfl⟩ := List.mem_map.mp member
  exact absent (List.mem_map.mpr ⟨e, there, intToHexStr_injective same⟩)

theorem discover_addresses {response : List Byte} (new : d.Discovers response) (t : Thread)
    (moves : Bool) : (d.handleScanResponse t response moves).addresses =
      d.addresses ++ [intToHexStr (scanAddress response)] := by
  rw [handleScanResponse_new new]
  exact List.map_append

/-- A new remote is announced. -/
theorem Mirrored.discover (h : d.Mirrored) {response : List Byte} (new : d.Discovers response)
    (t : Thread) (moves : Bool) : (d.handleScanResponse t response moves).Mirrored := by
  have absent : intToHexStr (scanAddress response) ∉ d.addresses := by
    intro member
    obtain ⟨x, there, same⟩ := List.mem_map.mp member
    exact new.absent x there (intToHexStr_injective same)
  have fresh : scanAddress response ∉ d.initialising.map Prod.snd := by
    intro member
    obtain ⟨e, there, same⟩ := List.mem_map.mp member
    exact absent (same ▸ h.there e there)
  have radio := discover_addresses new t moves
  rw [handleScanResponse_new new] at radio ⊢
  constructor
  case follows =>
    intro m
    change settled (decide (m ∈ d.macs)) (d.invocations ++
      announcement (t, scanAddress response) :: d.initialising.map announcement) m = _
    rw [settled_insert (quiet_announcements fresh)]
    rw [radio]
    by_cases own : intToHexStr (scanAddress response) = m
    · simp [announcement, Update.key, Update.holds, own]
    · have differ : m ≠ intToHexStr (scanAddress response) := fun same => own same.symm
      have before := h.follows m
      rw [coming] at before
      simp [announcement, Update.key, own, before, differ]
  case macs => exact h.macs
  case addresses =>
    rw [radio]
    refine List.nodup_append.mpr ⟨h.addresses, List.nodup_singleton _, ?_⟩
    rintro m member _ same rfl
    exact absent (List.mem_singleton.mp same ▸ member)
  case other =>
    rw [radio, List.mem_append, List.mem_singleton]
    rintro (known | own)
    · exact h.other known
    · exact new.other (intToHexStr_injective own).symm
  case once => exact List.nodup_cons.mpr ⟨fresh, h.once⟩
  case there =>
    intro e member
    rw [radio, List.mem_append, List.mem_singleton]
    rcases List.mem_cons.mp member with rfl | old
    · exact .inr rfl
    · exact .inl (h.there e old)

/-- The list is told of a change, before any call which is still in `init` tells it of the
    same remote and, in the main thread, with nothing about it waiting. -/
theorem mirrored_invoke {t : Thread} {i : Invocation}
    (later : Quiet (d.initialising.map announcement) i.key)
    (waiting : t = .main → Quiet d.invocations i.key)
    (changed : i.holds = decide (i.key ∈ d.addresses))
    (others : ∀ m, i.key ≠ m → settled (decide (m ∈ d.macs)) d.coming m = decide (m ∈ d.addresses))
    (macs : d.macs.Nodup) (addresses : d.addresses.Nodup) (other : intToHexStr d.mac ∉ d.addresses)
    (once : (d.initialising.map Prod.snd).Nodup)
    (there : ∀ e ∈ d.initialising, intToHexStr e.2 ∈ d.addresses) : (d.invoke t i).Mirrored := by
  cases t with
  | xbee =>
      refine ⟨fun m => ?_, macs, addresses, other, once, there⟩
      simp only [invoke, coming, List.append_assoc, List.singleton_append]
      refine (settled_insert later).trans ?_
      split
      · rename_i own
        cases own
        exact changed
      · rename_i differ
        exact others m differ
  | main =>
      obtain ⟨invocations, initialising, mac⟩ := perform_frame (d := d) i
      obtain ⟨macs', present⟩ := perform_macs macs i
      have radio : (d.perform i).addresses = d.addresses :=
        congrArg (List.map _) (perform_xbeeRemotes i)
      have coming : (d.perform i).coming = d.coming := by
        rw [Daemon.coming, invocations, initialising, ← Daemon.coming]
      rw [invoke]
      refine ⟨fun m => ?_, macs', radio ▸ addresses, by rwa [mac, radio], initialising ▸ once,
        by rwa [initialising, radio]⟩
      rw [coming, radio, present]
      split
      · rename_i own
        cases own
        exact (settled_quiet ((waiting rfl).append later)).trans changed
      · rename_i differ
        exact others m differ

/-- An `addRemote` ends, and its announcement is made. -/
theorem Mirrored.finishAdd (h : d.Mirrored) {t : Thread} (orderly : d.Orderly (.finishAdd t)) :
    (d.finishAdd t).Mirrored := by
  unfold Daemon.finishAdd
  split
  · exact h
  · rename_i t' addr found
    have own : t' = t := by simpa using List.find?_some found
    subst own
    obtain ⟨before, after, -, split, erased⟩ :=
      List.exists_erase_eq (List.mem_of_find?_eq_some found)
    have once : ((before ++ (t', addr) :: after).map Prod.snd).Nodup := split ▸ h.once
    rw [List.map_append, List.map_cons, List.nodup_middle, List.nodup_cons, ← List.map_append]
      at once
    rw [erased]
    refine mirrored_invoke (quiet_announcements once.1) ?_ ?_ ?_ h.macs h.addresses h.other once.2 ?_
    · rintro rfl
      exact orderly addr found
    · exact (decide_eq_true (h.there _ (List.mem_of_find?_eq_some found))).symm
    · intro m differ
      refine Eq.trans ?_ (h.follows m)
      rw [coming, coming, split, List.map_append, List.map_append, List.map_cons,
        ← List.append_assoc, ← List.append_assoc]
      exact (settled_other (u := announcement (t', addr)) differ).symm
    · intro e member
      refine h.there e ?_
      rw [split]
      simp only [List.mem_append, List.mem_cons] at member ⊢
      tauto

/-- A remote which does not answer any more leaves the radio, and the list is told. -/
theorem Mirrored.removeRemote (h : d.Mirrored) {t : Thread} {addr : List Byte}
    (orderly : d.Orderly (.atResponse t (some addr) true)) :
    (d.removeRemote t addr).Mirrored := by
  unfold Daemon.removeRemote
  split
  · exact h
  · rename_i i found
    obtain ⟨inside, same, -⟩ := List.findIdx?_eq_some_iff_getElem.mp found
    have own : d.xbeeRemotes[i].addr = addr := by simpa using same
    have slot : d.addresses[i]? = some (intToHexStr addr) := by
      simp [Daemon.addresses, inside, own]
    obtain ⟨finished, first⟩ := orderly (List.mem_of_getElem? slot)
    have erased : ({ d with xbeeRemotes := d.xbeeRemotes.eraseIdx i } : Daemon).addresses =
        d.addresses.eraseIdx i := (List.eraseIdx_map ..).symm
    have left : ∀ m, m ∈ d.addresses.eraseIdx i ↔ m ∈ d.addresses ∧ intToHexStr addr ≠ m := by
      intro m
      rw [List.mem_eraseIdx_iff_getElem?]
      constructor
      · rintro ⟨j, differ, here⟩
        refine ⟨List.mem_of_getElem? here, ?_⟩
        rintro rfl
        have inside := (List.getElem?_eq_some_iff.mp here).1
        exact differ ((List.getElem?_inj inside h.addresses).mp (here.trans slot.symm))
      · rintro ⟨member, differ⟩
        obtain ⟨j, here⟩ := List.mem_iff_getElem?.mp member
        refine ⟨j, ?_, here⟩
        rintro rfl
        exact differ (Option.some.inj (slot.symm.trans here))
    refine mirrored_invoke (quiet_announcements finished) first ?_ ?_ h.macs ?_ ?_ h.once ?_
    · rw [erased]
      exact (decide_eq_false fun member => ((left _).mp member).2 rfl).symm
    · intro m differ
      have still : m ∈ d.addresses ↔ m ∈ d.addresses.eraseIdx i :=
        ⟨fun member => (left m).mpr ⟨member, differ⟩, fun member => ((left m).mp member).1⟩
      rw [erased, ← decide_eq_decide.mpr still]
      exact h.follows m
    · exact erased ▸ h.addresses.eraseIdx i
    · rw [erased, left]
      exact fun known => h.other known.1
    · intro e member
      rw [erased, left]
      refine ⟨h.there e member, fun same => finished ?_⟩
      exact List.mem_map.mpr ⟨e, member, (intToHexStr_injective same).symm⟩

/-! ## Runs -/

theorem Mirrored.step (h : d.Mirrored) {e : Event} (orderly : d.Orderly e)
    (step : d.step e = .ok d') : d'.Mirrored := by
  cases e with
  | scan t response moves =>
      cases step
      by_cases new : d.Discovers response
      · exact h.discover new t moves
      · rwa [handleScanResponse_known new]
  | finishAdd t =>
      cases step
      exact h.finishAdd orderly
  | atResponse t source failed =>
      cases failed with
      | false =>
          cases step
          exact h
      | true =>
          cases source with
          | none => cases step
          | some addr =>
              cases step
              exact h.removeRemote orderly
  | receive addr data =>
      obtain ⟨xs, rfl, addrs⟩ := (xbeeTX_ends addr data).of_ok step
      have radio := congrArg (List.map intToHexStr) addrs
      rw [List.map_map, List.map_map] at radio
      exact h.transfer rfl radio rfl h.macs fun m => rfl
  | deliver =>
      cases step
      exact h.deliver
  | remote k =>
      cases step
      exact h.callRemote k
  | sendTX k =>
      rw [Daemon.step, sendTX] at step
      split at step
      · cases step
        exact h
      · split at step <;> cases step
        exact h.callRemote k
  | destroy =>
      cases step
      exact h.destroy

/-- Nothing is on either side. -/
theorem mirrored_start (mac : List Byte) : ({ mac := mac } : Daemon).Mirrored :=
  ⟨fun _ => rfl, List.nodup_nil, List.nodup_nil, List.not_mem_nil, List.nodup_nil,
    fun _ member => absurd member List.not_mem_nil⟩

/-- In a run whose updates keep their order the radio and the model agree whenever nothing
    is on its way. -/
theorem quiescent_agrees (mac : List Byte) (events : List Event)
    (orderly : Runs.Throughout Daemon.step Orderly { mac := mac } events) :
    ∀ d', Runs.Reaches Daemon.step { mac := mac } events d' → d'.Quiescent → d'.Agrees := by
  intro d' reached quiescent
  have mirrored : d'.Mirrored := reached.invariant (mirrored_start mac) orderly
    fun d e d' h condition step => h.step condition step
  exact mirrored.agrees quiescent

/-- A remote is found, told to the list and removed again, all in their order. -/
theorem quiescent_agrees_found :
    let events : List Daemon.Event :=
      [.scan .xbee [0, 0, 1, 1, 1, 1, 1, 1, 1, 1] false, .finishAdd .xbee, .deliver,
        .atResponse .main (some [1, 1, 1, 1, 1, 1, 1, 1]) true]
    ∀ d', Runs.Reaches Daemon.step { mac := [] } events d' → d'.Quiescent → d'.Agrees :=
  quiescent_agrees [] _ (by
    refine ⟨trivial, fun _ first => ?_⟩
    cases first
    refine ⟨trivial, fun _ second => ?_⟩
    cases second
    refine ⟨trivial, fun _ third => ?_⟩
    cases third
    refine ⟨fun _ => ⟨List.not_mem_nil, fun _ u member => absurd member List.not_mem_nil⟩,
      fun _ fourth => ?_⟩
    cases fourth
    trivial)

/-- A removal in the main thread overtakes the announcement of the same remote. -/
theorem not_agrees_overtaken : ∃ d', Runs.Reaches Daemon.step { mac := [] }
    [.scan .xbee [0, 0, 1, 1, 1, 1, 1, 1, 1, 1] false, .finishAdd .xbee,
      .atResponse .main (some [1, 1, 1, 1, 1, 1, 1, 1]) true, .deliver] d' ∧
    d'.Quiescent ∧ ¬d'.Agrees := by
  refine ⟨_, .of_run rfl, ⟨rfl, rfl⟩, fun agrees => ?_⟩
  have lengths := agrees.same.length_eq
  cases lengths

end Daemon

end VoxPopuli
