import VoxPopuli.Model.Binding
import VoxPopuli.Model.Refusals

/-! # Containers and refused children

The four containers delete a child which they refuse. Their lists, their child nodes and
their JSON are then as before if and only if the child has been refused before anything of
its document was stored; otherwise the deleted child is still among the child nodes.
-/

namespace VoxPopuli

open World

variable {w w' : World}

namespace World

/-- The lists which a container keeps itself. -/
def SameLists (p : NodeRef) (w w' : World) : Prop :=
  match p with
  | .remoteList => w'.remotes = w.remotes
  | .virtualNet => w'.vRemotes = w.vRemotes ∧ w'.vGroups = w.vGroups
  | .group g => w'.globalRemote g = w.globalRemote g ∧ w'.virtualRemotes g = w.virtualRemotes g
  | _ => True

structure Untouched (p : NodeRef) (w w' : World) : Prop where
  json : w'.json p = w.json p
  subnodes : w'.subnodes p = w.subnodes p
  lists : SameLists p w w'

theorem Untouched.refl (p : NodeRef) (w : World) : Untouched p w w := by
  refine ⟨rfl, rfl, ?_⟩
  cases p <;> simp [SameLists]

theorem Untouched.trans {p : NodeRef} {w'' : World} (first : Untouched p w w')
    (second : Untouched p w' w'') : Untouched p w w'' := by
  obtain ⟨json, subnodes, lists⟩ := first
  obtain ⟨json', subnodes', lists'⟩ := second
  refine ⟨json'.trans json, subnodes'.trans subnodes, ?_⟩
  cases p with
  | remoteList => exact lists'.trans lists
  | virtualNet => exact ⟨lists'.1.trans lists.1, lists'.2.trans lists.2⟩
  | group g => exact ⟨lists'.1.trans lists.1, lists'.2.trans lists.2⟩
  | _ => trivial

/-- Another node is deleted. -/
theorem Untouched.clear {p n : NodeRef} (untouched : Untouched p w w') (apart : p ≠ n) :
    Untouched p w (w'.clearJsonData n) := by
  obtain ⟨json, subnodes, lists⟩ := untouched
  refine ⟨?_, ?_, ?_⟩
  · exact (json_clearJsonData apart).trans json
  · exact (subnodes_clearJsonData apart).trans subnodes
  · cases p <;> exact lists

theorem Filled.clear {n n' : NodeRef} {P : NodeRef → Prop} (filled : Filled n P w w')
    (apart : n ≠ n') (others : ∀ p, P p → p ≠ n') : Filled n P w (w'.clearJsonData n') := by
  refine ⟨?_, fun p here => (subnodes_clearJsonData (others p here)).trans (filled.children p here)⟩
  rw [json_clearJsonData apart]
  exact filled.json

theorem not_untouched {p n : NodeRef} (more : w'.subnodes p = w.subnodes p ++ [n]) :
    ¬Untouched p w w' := by
  intro same
  have lengths := congrArg List.length (more.symm.trans same.subnodes)
  simp at lengths

end World

/-! ## Groups -/

namespace VirtualRemote

/-- Whatever is there already is not touched by a new virtual remote. -/
theorem untouched_create {p : NodeRef} (holder : Holder p) (v : VRef) (name : QString) :
    Untouched p w (create w v name) := by
  rcases holder with rfl | ⟨g, rfl⟩
  · exact ⟨rfl, rfl, rfl, rfl⟩
  · exact ⟨rfl, rfl, rfl, rfl⟩

theorem untouched_triggers {p : NodeRef} (untouched : Untouched p w w') {w'' : World}
    (only : OnlyTriggers w' w'') : Untouched p w w'' := by
  obtain ⟨T, rfl⟩ := only
  refine ⟨untouched.json, untouched.subnodes, ?_⟩
  have lists := untouched.lists
  cases p <;> exact lists

theorem fresh_create (v : VRef) (name : QString) : Fresh (create w v name) v := by
  refine ⟨if_pos rfl, fun b => if_pos rfl, fun b => ?_⟩
  simp [create]

end VirtualRemote

namespace VirtualGroup

variable {g : Nat}

/-- A group refuses a child before anything of it is stored. -/
def RefusesQuietly (accepts : QString → Option Bool) (name : QString) (data : QJsonObject) : Prop :=
  ¬(name = "GlobalRemote" ∨ ("Remote" : QString) <+: name) ∨ (' ' : QChar) ∈ name ∨
    (VirtualRemote.storing accepts true).RefusedQuietly data

/-- What a child leaves which is refused quietly: nothing, or the triggers of its events and its
    number. -/
def Declined (w : World) (g : Nat) (name : QString) (w' : World) : Prop :=
  w' = w ∨ ∃ w₁, OnlyTriggers (VirtualRemote.create w (.member g w.fresh) name) w₁ ∧
    w' = w₁.clearJsonData (.vRemote (.member g w.fresh))

theorem Declined.untouched {name : QString} (declined : Declined w g name w') {p : NodeRef}
    (holder : Holder p) : Untouched p w w' := by
  rcases declined with rfl | ⟨w₁, only, rfl⟩
  · exact .refl p _
  · have created := VirtualRemote.untouched_create (w := w) holder (.member g w.fresh) name
    exact (VirtualRemote.untouched_triggers created only).clear (holder.ne.2 _)

/-- Refusing a child quietly never fails. -/
theorem refuses {name : QString} {data : QJsonObject} (quiet : RefusesQuietly w.accepts name data) :
    Ends (fun _ => False) (createSubNode w g name data) fun q =>
      q.1 = false ∧ Declined w g name q.2 := by
  have own : (VirtualRemote.create w (.member g w.fresh) name).vRemoteName (.member g w.fresh) =
      name := by simp [VirtualRemote.create]
  rw [createSubNode]
  split
  · rename_i named
    dsimp only
    by_cases space : (' ' : QChar) ∈ name
    · have blank : (' ' : QChar) ∈
          (VirtualRemote.create w (.member g w.fresh) name).vRemoteName (.member g w.fresh) := by
        rw [own]
        exact space
      rw [populateNode_refused (n := .vRemote (.member g w.fresh)) blank]
      exact ⟨rfl, .inr ⟨_, ⟨_, rfl⟩, rfl⟩⟩
    · have silent := (quiet.resolve_left (not_not.mpr named)).resolve_left space
      have solid : (' ' : QChar) ∉
          (VirtualRemote.create w (.member g w.fresh) name).vRemoteName (.member g w.fresh) := by
        rw [own]
        exact space
      apply (VirtualRemote.refuses (VirtualRemote.fresh_create (.member g w.fresh) name) solid
        silent).bind
      rintro ⟨populated, w₁⟩ ⟨refused, only⟩
      cases refused
      exact ⟨rfl, .inr ⟨w₁, only, rfl⟩⟩
  · exact ⟨rfl, .inl rfl⟩

/-- A child is refused quietly, or it is among the child nodes in the end. -/
theorem createSubNode_outcome (w : World) (g : Nat) (name : QString) (data : QJsonObject) :
    Ends (fun _ => True) (createSubNode w g name data) fun q =>
      RefusesQuietly w.accepts name data ∧ q.1 = false ∧ (∀ p, Holder p → Untouched p w q.2) ∨
        ¬RefusesQuietly w.accepts name data ∧
          q.2.subnodes (.group g) = w.subnodes (.group g) ++ [.vRemote (.member g w.fresh)] ∧
            Filled (.group g) (· = .virtualNet) w q.2 := by
  by_cases quiet : RefusesQuietly w.accepts name data
  · exact (refuses quiet).of_any.mono fun q done => .inl ⟨quiet, done.1, fun p => done.2.untouched⟩
  obtain ⟨named, solid, loud⟩ : (name = "GlobalRemote" ∨ ("Remote" : QString) <+: name) ∧
      (' ' : QChar) ∉ name ∧ ¬(VirtualRemote.storing w.accepts true).RefusedQuietly data :=
    ⟨not_not.mp fun other => quiet (.inl other), fun space => quiet (.inr (.inl space)),
      fun silent => quiet (.inr (.inr silent))⟩
  have outcome := VirtualRemote.populate_outcome
    (VirtualRemote.fresh_create (w := w) (.member g w.fresh) name) data
  have own : (VirtualRemote.create w (.member g w.fresh) name).vRemoteName (.member g w.fresh) =
      name := by simp [VirtualRemote.create]
  rw [own] at outcome
  rw [createSubNode, if_pos named]
  apply outcome.bind
  rintro ⟨populated, w₁⟩ (⟨space, -⟩ | ⟨-, ⟨silent, -⟩ | ⟨-, listed⟩⟩)
  · exact absurd space solid
  · exact absurd silent loud
  · have trace : w₁.subnodes (.group g) =
        w.subnodes (.group g) ++ [.vRemote (.member g w.fresh)] := listed.own
    have net : w₁.subnodes .virtualNet = w.subnodes .virtualNet :=
      listed.others .virtualNet (.inl rfl) (by simp [VirtualRemote.parent])
    have filled : Filled (.group g) (· = .virtualNet) w w₁ :=
      ⟨listed.json, fun p here => by rw [here, net]⟩
    have deleted : (w₁.clearJsonData (.vRemote (.member g w.fresh))).subnodes (.group g) =
          w.subnodes (.group g) ++ [.vRemote (.member g w.fresh)] ∧
        Filled (.group g) (· = .virtualNet) w
          (w₁.clearJsonData (.vRemote (.member g w.fresh))) := by
      refine ⟨(subnodes_clearJsonData (by simp)).trans trace, filled.clear (by simp) ?_⟩
      rintro p rfl
      simp
    cases populated with
    | false => exact .inr ⟨quiet, deleted⟩
    | true =>
        simp only [Bool.not_true, Bool.false_eq_true, if_false]
        split
        · exact .inr ⟨quiet, trace, ⟨filled.json, filled.children⟩⟩
        · split
          · exact .inr ⟨quiet, deleted⟩
          · unfold setVirtualRemote
            split
            · exact .inr ⟨quiet, trace, ⟨filled.json, filled.children⟩⟩
            · trivial

theorem untouched_iff {name : QString} {data : QJsonObject}
    (refused : createSubNode w g name data = .ok (false, w')) :
    Untouched (.group g) w w' ↔ RefusesQuietly w.accepts name data := by
  rcases (createSubNode_outcome w g name data).of_ok refused with
    ⟨quiet, -, untouched⟩ | ⟨loud, more, -⟩
  · exact ⟨fun _ => quiet, fun _ => untouched (.group g) (.inr ⟨g, rfl⟩)⟩
  · exact ⟨fun untouched => absurd untouched (not_untouched more), fun quiet => absurd quiet loud⟩

/-- The values which a group stores. -/
def StoresValue (k text : QString) : Prop := k = "avatarsNbr" ∧ (text.toInt?).isSome

def storing (accepts : QString → Option Bool) : Storing where
  Seen := Unit
  none := ()
  see _ _ := ()
  Stores _ m :=
    match m.2 with
    | .object o => ¬RefusesQuietly accepts m.1 o
    | v => ∃ text, VirtualRemote.valueText v = some text ∧ StoresValue m.1 text

theorem net_createSubNode (w : World) (g : Nat) (name : QString) (data : QJsonObject) :
    Ends (fun _ => True) (createSubNode w g name data) fun q =>
      q.2.subnodes .virtualNet = w.subnodes .virtualNet := by
  apply (createSubNode_outcome w g name data).mono
  rintro q (⟨-, -, untouched⟩ | ⟨-, -, filled⟩)
  · exact (untouched .virtualNet (.inl rfl)).subnodes
  · exact filled.children .virtualNet rfl

theorem net_addVirtualRemotes (g : Nat) (nbr : Int) (delta : Nat) (w : World) :
    Ends (fun _ => True) (addVirtualRemotes w g nbr delta) fun w' =>
      w'.subnodes .virtualNet = w.subnodes .virtualNet := by
  induction delta generalizing w with
  | zero => exact rfl
  | succ delta ih =>
      rw [addVirtualRemotes]
      apply (net_createSubNode w g _ _).bind
      exact fun q same => (ih q.2).mono fun w' later => later.trans same

theorem net_removeVirtualRemotes (g delta : Nat) (w : World) :
    Ends (fun _ => True) (removeVirtualRemotes w g delta) fun w' =>
      w'.subnodes .virtualNet = w.subnodes .virtualNet := by
  induction delta generalizing w with
  | zero => exact rfl
  | succ delta ih =>
      rw [removeVirtualRemotes]
      split
      · trivial
      · trivial
      · rename_i v last
        have kept : (w.removeSubNode (.group g) (.vRemote v)).subnodes .virtualNet =
            w.subnodes .virtualNet := by
          obtain ⟨json, removed, -⟩ := removeSubNode_frame w (.group g) (.vRemote v)
          rw [removed]
          simp
        exact (ih _).mono fun w' later => later.trans kept

/-- The number of avatars is stored whatever becomes of them. -/
theorem setValue_stored (w : World) {k text : QString} (stores : StoresValue k text) :
    Ends (fun _ => True) (setValue w g k text) fun q =>
      Filled (.group g) (· = .virtualNet) w q.2 := by
  obtain ⟨rfl, number⟩ := stores
  obtain ⟨nbr, read⟩ := Option.isSome_iff_exists.mp number
  rw [setValue, if_pos rfl, read]
  have resized : Ends (fun _ => True) (setVirtualRemotesNbr w g nbr) fun w' =>
      w'.subnodes .virtualNet = w.subnodes .virtualNet := by
    rw [setVirtualRemotesNbr]
    split
    · exact rfl
    · dsimp only
      split
      · exact net_addVirtualRemotes g nbr _ w
      · exact net_removeVirtualRemotes g _ w
  apply resized.bind
  intro w' same
  refine ⟨assign_filled _ _ _ _, ?_⟩
  rintro p rfl
  exact (congrFun (assign_subnodes _ _ _ _) _).trans same

theorem setValue_quiet (w : World) {k text : QString} (quiet : ¬StoresValue k text) :
    Ends (fun _ => False) (setValue w g k text) fun q => q.2 = w := by
  rw [setValue]
  split
  · rename_i name
    have unread : text.toInt? = none := by
      rw [← Option.not_isSome_iff_eq_none]
      exact fun number => quiet ⟨name, number⟩
    rw [unread]
    rfl
  · rfl

theorem stages (g : Nat) (w : World) (bare : w.json (.group g) = []) :
    Stages (nodeClass g) (storing w.accepts) (fun _ w' => w' = w)
      (fun w' => w'.json (.group g) = [] ∧ Untouched .virtualNet w w')
      (Filled (.group g) (· = .virtualNet) w) where
  value := by
    rintro w₁ seen ⟨k, m⟩ rfl quiet object
    have value : ∀ text, ¬StoresValue k text →
        Ends (fun _ => False) (setValue w₁ g k text >>= fun q => pure (true, q.2))
          fun q => q.1 = true ∧ q.2 = w₁ :=
      fun text quiet => (setValue_quiet w₁ quiet).bind fun q same => ⟨rfl, same⟩
    cases m with
    | object o => cases object
    | null => exact ⟨rfl, rfl⟩
    | array a => exact ⟨rfl, rfl⟩
    | bool b => exact value _ fun stores => quiet ⟨_, rfl, stores⟩
    | string s => exact value _ fun stores => quiet ⟨_, rfl, stores⟩
    | double d => exact value _ fun stores => quiet ⟨_, rfl, stores⟩
  object := by
    rintro w₁ seen ⟨k, m⟩ rfl quiet object
    cases m with
    | null | bool b | string s | double d | array a => cases object
    | object o =>
        apply (refuses (w := w₁) (not_not.mp quiet)).mono
        exact fun q done => ⟨done.1, (done.2.untouched (.inr ⟨g, rfl⟩)).json.trans bare,
          done.2.untouched (.inl rfl)⟩
  loud := by
    rintro w₁ seen ⟨k, m⟩ rfl stored
    have value : ∀ text, (∃ text', VirtualRemote.valueText m = some text' ∧ StoresValue k text') →
        VirtualRemote.valueText m = some text →
        Ends (fun _ => True) (setValue w₁ g k text >>= fun q => pure (true, q.2))
          fun q => Filled (.group g) (· = .virtualNet) w₁ q.2 := by
      rintro text ⟨text', read', stores⟩ read
      cases read.symm.trans read'
      exact (setValue_stored w₁ stores).bind fun q filled => filled
    cases m with
    | null | array a =>
        obtain ⟨text, read, -⟩ := stored
        cases read
    | bool b => exact value _ stored rfl
    | string s => exact value _ stored rfl
    | double d => exact value _ stored rfl
    | object o =>
        apply (createSubNode_outcome w₁ g k o).mono
        rintro q (⟨quiet, -⟩ | ⟨-, -, filled⟩)
        · exact absurd quiet stored
        · exact filled
  stays := by
    intro w₁ m filled
    have again : ∀ {w₂ : World}, Filled (.group g) (· = .virtualNet) w₁ w₂ →
        Filled (.group g) (· = .virtualNet) w w₂ :=
      fun more => ⟨more.json, fun p here => (more.children p here).trans (filled.children p here)⟩
    refine populateMember_ends filled (fun o => ?_) (fun l => filled) fun text => ?_
    · apply (createSubNode_outcome w₁ g m.1 o).mono
      rintro q (⟨-, -, untouched⟩ | ⟨-, -, more⟩)
      · refine again ⟨?_, fun p here => ?_⟩
        · rw [(untouched (.group g) (.inr ⟨g, rfl⟩)).json]
          exact filled.json
        · rw [here]
          exact (untouched .virtualNet (.inl rfl)).subnodes
      · exact again more
    · by_cases stores : StoresValue m.1 text
      · exact (setValue_stored w₁ stores).mono fun q more => again more
      · exact (setValue_quiet w₁ stores).of_any.mono fun q same => same ▸ filled

/-- A new group whose name has no blank is refused quietly or listed in the end. -/
theorem populate_outcome (g : Nat) (w : World) (bare : w.json (.group g) = [])
    (data : QJsonObject) :
    Ends (fun _ => True) (populateNode (nodeClass g) w (.group g) data) fun q =>
      (' ' : QChar) ∈ w.groupName g ∧ q.1 = false ∧ q.2 = w ∨
        (' ' : QChar) ∉ w.groupName g ∧
          ((storing w.accepts).RefusedQuietly data ∧ q.1 = false ∧
              (q.2.json (.group g) = [] ∧ Untouched .virtualNet w q.2) ∨
            ¬(storing w.accepts).RefusedQuietly data ∧
              q.2.subnodes .virtualNet = w.subnodes .virtualNet ++ [.group g]) := by
  have listed : ∀ (w₁ : World) o, w₁.subnodes .virtualNet = w.subnodes .virtualNet →
      (w₁.adopt (.group g) o).subnodes .virtualNet = w.subnodes .virtualNet ++ [.group g] := by
    intro w₁ o same
    have adopt_eq : w₁.adopt (.group g) o = (w₁.setJson (.group g) o).addSubNode .virtualNet (.group g) :=
      rfl
    rw [adopt_eq, addSubNode_subnodes, Function.update_self]
    exact congrArg (· ++ _) same
  let T : World → Prop := fun w' =>
    w'.subnodes .virtualNet = w.subnodes .virtualNet ++ [.group g]
  apply (stages g w bare).node (T := T) (rfl : w = w)
  · exact fun w₁ quiet => List.isEmpty_iff.mpr quiet.1
  · exact fun w₁ filled empty => filled.json (List.isEmpty_iff.mp empty)
  · rintro w₁ o (⟨seen, rfl⟩ | filled)
    · exact listed w₁ o rfl
    · exact listed w₁ o (filled.children .virtualNet rfl)

end VirtualGroup

/-! ## The virtual network -/

namespace VirtualNetwork

/-- The virtual network refuses an element before anything of it is stored. -/
def RefusesQuietly (accepts : QString → Option Bool) (name : QString) (data : QJsonObject) : Prop :=
  if data.contains "GlobalRemote" then
    (' ' : QChar) ∈ name ∨ (VirtualGroup.storing accepts).RefusedQuietly data
  else if data.contains "LED" then
    (' ' : QChar) ∈ name ∨ (VirtualRemote.storing accepts false).RefusedQuietly data
  else True

/-- A refused element is refused quietly, or it is among the child nodes. -/
theorem createSubNode_outcome (w : World) (name : QString) (data : QJsonObject) :
    Ends (fun _ => True) (createSubNode w name data) fun q => q.1 = false →
      RefusesQuietly w.accepts name data ∧ Untouched .virtualNet w q.2 ∨
        ¬RefusesQuietly w.accepts name data ∧
          ∃ n, q.2.subnodes .virtualNet = w.subnodes .virtualNet ++ [n] := by
  rw [createSubNode, RefusesQuietly]
  split
  · have bare : (VirtualGroup.create w w.fresh name).json (.group w.fresh) = [] := if_pos rfl
    have own : (VirtualGroup.create w w.fresh name).groupName w.fresh = name :=
      Function.update_self _ _ _
    have created : Untouched .virtualNet w (VirtualGroup.create w w.fresh name) :=
      ⟨rfl, rfl, rfl, rfl⟩
    have outcome := VirtualGroup.populate_outcome w.fresh _ bare data
    rw [own] at outcome
    apply outcome.bind
    rintro ⟨populated, w₁⟩ (⟨space, refused, same⟩ | ⟨solid, ⟨quiet, refused, -, untouched⟩ | ⟨loud, listed⟩⟩)
    · cases refused
      cases same
      exact fun _ => .inl ⟨.inl space, created.clear (by simp)⟩
    · cases refused
      exact fun _ => .inl ⟨.inr quiet, (created.trans untouched).clear (by simp)⟩
    · have never : ¬((' ' : QChar) ∈ name ∨ (VirtualGroup.storing w.accepts).RefusedQuietly data) :=
        not_or.mpr ⟨solid, loud⟩
      cases populated with
      | false =>
          exact fun _ => .inr ⟨never, _, (subnodes_clearJsonData (by simp)).trans listed⟩
      | true =>
          exact Ends.bind (M := fun _ => True) (ends_whenever.mpr fun _ _ => trivial)
            fun w₂ _ contra => absurd contra (by simp)
  · split
    · have outcome := VirtualRemote.populate_outcome
        (VirtualRemote.fresh_create (w := w) (.free w.fresh) name) data
      have own : (VirtualRemote.create w (.free w.fresh) name).vRemoteName (.free w.fresh) = name := by
        simp [VirtualRemote.create]
      have created := VirtualRemote.untouched_create (w := w) (p := .virtualNet) (.inl rfl)
        (.free w.fresh) name
      rw [own] at outcome
      apply outcome.bind
      rintro ⟨populated, w₁⟩ (⟨space, refused, same⟩ | ⟨solid, ⟨quiet, refused, only⟩ | ⟨loud, listed⟩⟩)
      · cases refused
        cases same
        exact fun _ => .inl ⟨.inl space, created.clear (by simp)⟩
      · cases refused
        exact fun _ => .inl ⟨.inr quiet, (VirtualRemote.untouched_triggers created only).clear (by simp)⟩
      · have never : ¬((' ' : QChar) ∈ name ∨
            (VirtualRemote.storing w.accepts false).RefusedQuietly data) := not_or.mpr ⟨solid, loud⟩
        cases populated with
        | false =>
            exact fun _ => .inr ⟨never, _, (subnodes_clearJsonData (by simp)).trans listed.own⟩
        | true =>
            exact Ends.bind (M := fun _ => True) (ends_whenever.mpr fun _ _ => trivial)
              fun w₂ _ contra => absurd contra (by simp)
    · exact fun _ => .inl ⟨trivial, .refl _ _⟩

theorem untouched_iff {name : QString} {data : QJsonObject}
    (refused : createSubNode w name data = .ok (false, w')) :
    Untouched .virtualNet w w' ↔ RefusesQuietly w.accepts name data := by
  rcases (createSubNode_outcome w name data).of_ok refused rfl with
    ⟨quiet, untouched⟩ | ⟨loud, n, more⟩
  · exact ⟨fun _ => quiet, fun _ => untouched⟩
  · exact ⟨fun untouched => absurd untouched (not_untouched more), fun quiet => absurd quiet loud⟩

end VirtualNetwork

/-! ## The list of remotes -/

namespace RemoteList

/-- The list of remotes refuses a remote before there is anything of it in the JSON (the
    constructors put the address of a remote there), and deleting the remote drops none that is
    listed: a real one looks for its radio, or for the listed remotes of its address. -/
def RefusesQuietly (w : World) (name : QString) (data : QJsonObject) : Prop :=
  ¬(data.contains "MAC" ∨ data.contains "osc") ∨ (' ' : QChar) ∈ name ∧ (data.contains "MAC" →
    (∃ x ∈ w.xbeeRemotes, intToHexStr x.addr = data.toString "MAC") ∨
      ∀ r ∈ w.remotes, r ≠ w.freshRemote ∧ macOf w r ≠ data.toString "MAC")

/-- The list of remotes has certain child nodes, and none has been dropped if none is missing. -/
def Lists (l : List NodeRef) (w w' : World) : Prop :=
  w'.remotes = w.remotes ∧ w'.subnodes .remoteList = l ∨ w'.remotes.length < w.remotes.length

variable {l : List NodeRef}

theorem length_drop {r : Nat} (there : r ∈ w.remotes) :
    (drop w r).remotes.length < w.remotes.length := by
  obtain ⟨json, removed, -⟩ := removeSubNode_frame w .remoteList (.remote r)
  have len : (w.remotes.erase r).length = w.remotes.length - 1 := List.length_erase_of_mem there
  have some : 0 < w.remotes.length := List.length_pos_of_mem there
  rw [drop, removed]
  dsimp only
  omega

theorem Lists.acts {S : Scope} {w₀ : World} (lists : Lists l w₀ w) (acts : Acts S w w') :
    Lists l w₀ w' := by
  refine acts.invariant lists fun w₁ w₂ lists act => ?_
  cases act with
  | put inside writable => exact lists
  | @mirror n inside =>
      obtain ⟨json, same, -⟩ := mirror_frame w₁ n n.ancestors
      rw [updateParentJSon, same]
      exact lists
  | @drop r r' driven gone found =>
      have shorter := length_drop (List.mem_of_find?_eq_some found)
      rcases lists with ⟨same, -⟩ | less
      · exact .inr (same ▸ shorter)
      · exact .inr (shorter.trans less)
  | aside same =>
      rw [Lists, same.remotes, same.subnodes]
      exact lists

theorem mirror_remotes (n : NodeRef) (ancestors : List NodeRef) :
    (w.mirror n ancestors).remotes = w.remotes := by
  obtain ⟨json, same, -⟩ := mirror_frame w n ancestors
  rw [same]

theorem Lists.adopt (lists : Lists l w w') (r : Nat) (o : QJsonObject) :
    Lists (l ++ [.remote r]) w (w'.adopt (.remote r) o) := by
  have listed : (w'.adopt (.remote r) o).subnodes .remoteList =
      w'.subnodes .remoteList ++ [.remote r] := by
    have adopt_eq : w'.adopt (.remote r) o =
        (w'.setJson (.remote r) o).addSubNode .remoteList (.remote r) := rfl
    rw [adopt_eq, addSubNode_subnodes, Function.update_self]
    rfl
  have remotes : (w'.adopt (.remote r) o).remotes = w'.remotes :=
    mirror_remotes .remoteList (NodeRef.remoteList).ancestors
  rw [Lists, remotes, listed]
  rcases lists with ⟨same, children⟩ | less
  · exact .inl ⟨same, congrArg (· ++ _) children⟩
  · exact .inr less

theorem Lists.destroy (lists : Lists l w w') (r : Nat) : Lists l w (destroy w' r) := by
  have cleared : ∀ {w₁ : World}, Lists l w w₁ → Lists l w (w₁.clearJsonData (.remote r)) := by
    intro w₁ lists
    have apart : (w₁.clearJsonData (.remote r)).subnodes .remoteList = w₁.subnodes .remoteList :=
      subnodes_clearJsonData (by simp)
    rw [Lists, apart]
    exact lists
  rw [RemoteList.destroy]
  split
  · rename_i real
    exact cleared (lists.acts (RealRemote.acts_remote (S := everything) trivial real))
  · exact cleared lists

/-- A remote which has been listed leaves a trace. -/
theorem Lists.not_untouched {n : NodeRef} (lists : Lists (w.subnodes .remoteList ++ [n]) w w') :
    ¬Untouched .remoteList w w' := by
  intro untouched
  rcases lists with ⟨-, more⟩ | less
  · exact World.not_untouched more untouched
  · have same : w'.remotes = w.remotes := untouched.lists
    rw [same] at less
    exact absurd less (Nat.lt_irrefl _)

/-- A remote which is refused at once is quiet, unless another one is dropped with it. -/
theorem untouched_destroy_iff (w : World) (name mac : QString) :
    Untouched .remoteList w (destroy (create w w.freshRemote name true
      (QJsonObject.build [("MAC", .string mac)])) w.freshRemote) ↔
      (∃ x ∈ w.xbeeRemotes, intToHexStr x.addr = mac) ∨
        ∀ r ∈ w.remotes, r ≠ w.freshRemote ∧ macOf w r ≠ mac := by
  have created : Untouched .remoteList w (create w w.freshRemote name true
      (QJsonObject.build [("MAC", .string mac)])) := ⟨by simp [create, setJson], by simp [create], rfl⟩
  have own : macOf (create w w.freshRemote name true (QJsonObject.build [("MAC", .string mac)]))
      w.freshRemote = mac := by
    simp [macOf, World.get, create, setJson, QJsonObject.build, QVariant.toString]
  have others : ∀ r, r ≠ w.freshRemote → macOf (create w w.freshRemote name true
      (QJsonObject.build [("MAC", .string mac)])) r = macOf w r := by
    intro r other
    simp [macOf, World.get, create, setJson, other]
  have same : (create w w.freshRemote name true (QJsonObject.build [("MAC", .string mac)])).remotes =
      w.remotes ∧ (create w w.freshRemote name true
        (QJsonObject.build [("MAC", .string mac)])).xbeeRemotes = w.xbeeRemotes := ⟨rfl, rfl⟩
  have real : (create w w.freshRemote name true (QJsonObject.build [("MAC", .string mac)])).isReal
      w.freshRemote = true := Function.update_self ..
  have unlinked : (create w w.freshRemote name true
      (QJsonObject.build [("MAC", .string mac)])).remoteLink w.freshRemote = none :=
    Function.update_self ..
  generalize create w w.freshRemote name true (QJsonObject.build [("MAC", .string mac)]) = w₁ at *
  obtain ⟨remotes, xbeeRemotes⟩ := same
  rw [destroy, if_pos real, RealRemote.remote, unlinked, own, xbeeRemotes]
  dsimp only
  cases sought : w.xbeeRemotes.findIdx? fun x => intToHexStr x.addr = mac with
  | some i =>
      obtain ⟨there, found, -⟩ := List.findIdx?_eq_some_iff_getElem.mp sought
      have heard : ∃ x ∈ w.xbeeRemotes, intToHexStr x.addr = mac :=
        ⟨_, List.getElem_mem there, of_decide_eq_true found⟩
      exact iff_of_true (Untouched.clear ⟨created.json, created.subnodes, created.lists⟩ (by simp))
        (.inl heard)
  | none =>
      have silent : ¬∃ x ∈ w.xbeeRemotes, intToHexStr x.addr = mac := by
        simpa [List.findIdx?_eq_none_iff] using sought
      rw [or_iff_right silent, removeRemote, remotes]
      cases listed : w.remotes.find? fun r => macOf w₁ r = mac with
      | none =>
          refine iff_of_true (created.clear (by simp)) fun r inside => ?_
          have differs : macOf w₁ r ≠ mac := by simpa using List.find?_eq_none.mp listed r inside
          have other : r ≠ w.freshRemote := fun here => differs (here ▸ own)
          exact ⟨other, others r other ▸ differs⟩
      | some r =>
          have inside := List.mem_of_find?_eq_some listed
          have address : macOf w₁ r = mac := of_decide_eq_true (List.find?_some listed :)
          refine iff_of_false (fun untouched => ?_) fun unknown => ?_
          · have shorter : (drop w₁ r).remotes.length < w₁.remotes.length :=
              length_drop (remotes.symm ▸ inside)
            have lists : (drop w₁ r).remotes = w.remotes := untouched.lists
            rw [lists, remotes] at shorter
            exact absurd shorter (Nat.lt_irrefl _)
          · obtain ⟨other, differs⟩ := unknown r inside
            exact differs (others r other ▸ address)

/-- A remote whose constructor has made it is refused at once if its name has a blank, and
    otherwise listed in the end. -/
theorem populate_outcome (w : World) (name : QString) (data : QJsonObject) (real : Bool)
    {o : QJsonObject} (some : o ≠ []) :
    Ends (fun _ => True) (World.populateNode (Remote.nodeClass fun w' => Remote.set w' w.freshRemote)
      (create w w.freshRemote name real o) (.remote w.freshRemote) data) fun q =>
        (' ' : QChar) ∈ name ∧ q = (false, create w w.freshRemote name real o) ∨
          (' ' : QChar) ∉ name ∧
            Lists (w.subnodes .remoteList ++ [.remote w.freshRemote]) w q.2 := by
  let L : World → Prop := fun w' =>
    w'.json (.remote w.freshRemote) ≠ [] ∧ Lists (w.subnodes .remoteList) w w'
  have own : (create w w.freshRemote name real o).nameOf (.remote w.freshRemote) = name :=
    Function.update_self _ _ _
  have start : L (create w w.freshRemote name real o) := by
    refine ⟨?_, .inl ⟨rfl, ?_⟩⟩
    · simpa [create, setJson] using some
    · simp [create]
  have stays : ∀ w' m, L w' → Ends (fun _ => True) (populateMember
      (Remote.nodeClass fun w' => Remote.set w' w.freshRemote) w' m) fun q => L q.2 := by
    intro w' m here
    refine populateMember_ends here (fun o => here) (fun l => here) fun text => ?_
    have drives : everything.Drives w.freshRemote := ⟨trivial, trivial⟩
    have set := Remote.acts_set (S := everything) (w := w')
      ⟨trivial, fun _ _ => trivial, fun _ _ => trivial⟩ drives m.1 text
    exact set.mono fun q acts => ⟨acts.filled (by simp) here.1, here.2.acts acts⟩
  rw [World.populateNode, own]
  split
  · rename_i space
    exact .inl ⟨space, rfl⟩
  · rename_i solid
    apply (populateMembers_stays stays start).bind
    rintro ⟨populated, w₁⟩ (⟨done, later⟩ | ⟨done, w₂, later, result⟩)
    · cases done
      exact .inr ⟨solid, later.2.adopt _ data⟩
    · cases done
      have last := repopulate_listed (n := .remote w.freshRemote)
        (T := Lists (w.subnodes .remoteList ++ [.remote w.freshRemote]) w)
        (fun w' here empty => here.1 (List.isEmpty_iff.mp empty)) stays
        (fun w' o here => here.2.adopt _ o) stackDepth later
      exact .inr ⟨solid, last.of_ok result⟩

theorem untouched_iff {name : QString} {data : QJsonObject}
    (refused : createSubNode w name data = .ok (false, w')) :
    Untouched .remoteList w w' ↔ RefusesQuietly w name data := by
  -- Only a remote whose name has a blank can be refused without a trace.
  have settle : ∀ real (o : QJsonObject), o ≠ [] → (do
      let q ← World.populateNode (Remote.nodeClass fun w' => Remote.set w' w.freshRemote)
        (create w w.freshRemote name real o) (.remote w.freshRemote) data
      pure (q.1, if q.1 then { q.2 with remotes := q.2.remotes ++ [w.freshRemote] }
        else destroy q.2 w.freshRemote)) = .ok (false, w') →
      (Untouched .remoteList w w' ↔ (' ' : QChar) ∈ name ∧ Untouched .remoteList w
        (destroy (create w w.freshRemote name real o) w.freshRemote)) := by
    intro real o some refused
    obtain ⟨⟨populated, w₁⟩, done, result⟩ := bind_eq_ok.mp refused
    cases populated with
    | true => cases result
    | false =>
        cases result
        rcases (populate_outcome w name data real some).of_ok done with ⟨space, same⟩ | ⟨solid, lists⟩
        · cases same
          exact (and_iff_right space).symm
        · exact iff_of_false (lists.destroy _).not_untouched fun quiet => solid quiet.1
  rw [RefusesQuietly]
  rw [createSubNode] at refused
  split at refused
  · rename_i mac
    rw [settle true _ (by simp [QJsonObject.build, insert_ne_nil]) refused, untouched_destroy_iff]
    simp [mac]
  · rename_i noMac
    split at refused
    · rename_i osc
      rw [settle false _ (by simp [QJsonObject.build, insert_ne_nil]) refused]
      have emulated : Untouched .remoteList w (destroy (create w w.freshRemote name false
          (QJsonObject.build [("osc", .string (data.toString "osc")), ("ipPort", .string "")]))
            w.freshRemote) := by
        rw [destroy, if_neg (by simp [create])]
        exact Untouched.clear ⟨by simp [create, setJson], by simp [create], rfl⟩ (by simp)
      simp [osc, noMac, emulated]
    · rename_i noOsc
      cases refused
      exact iff_of_true (.refl _ _) (.inl (not_or.mpr ⟨noMac, noOsc⟩))

end RemoteList

/-! ## The MIDI interface -/

namespace Midi

variable {m m' : Midi} {p : Nat}

/-- The ports, the child nodes and the JSON of the interface are the same. -/
structure Untouched (m m' : Midi) : Prop where
  json : m'.json = m.json
  subnodes : m'.subnodes = m.subnodes
  ports : m'.ports = m.ports

/-- A port stores its own name in the system, and nothing else. -/
def storing : Storing where
  Seen := Unit
  none := ()
  see _ _ := ()
  Stores _ m := m.1 = "port" ∧ (VirtualRemote.valueText m.2).isSome

/-- The interface refuses a port before anything of it is stored. -/
def RefusesQuietly (name : QString) (data : QJsonObject) : Prop :=
  ¬data.contains "type" ∨ (' ' : QChar) ∈ name ∨ storing.RefusedQuietly data

theorem assignPort_filled (m : Midi) (p : Nat) (key : QString) (same : QJsonValue → Bool)
    (v : QJsonValue) : (m.assignPort p key same v).2.portJson p ≠ [] := by
  unfold assignPort
  split
  · rename_i there
    intro empty
    rw [empty] at there
    cases there
  · simpa [putPort] using insert_ne_nil (m.portJson p) key v

theorem setPortValue_filled (m : Midi) (p : Nat) (value : QString) :
    (m.setPortValue p "port" value).2.portJson p ≠ [] := by
  unfold setPortValue setPortString setPortNumber
  rw [if_pos rfl]
  dsimp only
  split_ifs
  · exact assignPort_filled _ _ _ _ _
  · cases value.toInt? with
    | none =>
        cases (m.portsName (m.isInPort p)).idxOf? value with
        | none => exact assignPort_filled _ _ _ _ _
        | some i => grind [assignPort_filled]
    | some n => grind [assignPort_filled]

theorem setPortValue_other (m : Midi) (p : Nat) {name : QString} (other : name ≠ "port")
    (value : QString) : (m.setPortValue p name value).2 = m := by
  rw [setPortValue, if_neg other]

/-- The port has stored something, and the interface has not listed it. -/
structure Filled (p : Nat) (m m' : Midi) : Prop where
  json : m'.portJson p ≠ []
  subnodes : m'.subnodes = m.subnodes

theorem Filled.setPortValue {m₀ : Midi} (h : Filled p m₀ m) (name value : QString) :
    Filled p m₀ (m.setPortValue p name value).2 := by
  by_cases port : name = "port"
  · subst port
    obtain ⟨isPortOpen, portJson, json, same, -⟩ := setPortValue_eq m p "port" value
    refine ⟨setPortValue_filled m p value, ?_⟩
    rw [same]
    exact h.subnodes
  · rw [setPortValue_other m p port value]
    exact h

theorem Filled.members {m₀ : Midi} (h : Filled p m₀ m) (data : QJsonObject) :
    Filled p m₀ (m.populatePortMembers p data).2 := by
  induction data generalizing m with
  | nil => exact h
  | cons e rest ih =>
      obtain ⟨k, v⟩ := e
      cases v with
      | object o => exact h
      | array a => exact ih h
      | null => exact ih h
      | bool b => exact ih (h.setPortValue k _)
      | string s => exact ih (h.setPortValue k _)
      | double d => exact ih (h.setPortValue k _)

/-- A port which has stored something is listed in the end. -/
theorem Filled.repopulate {m₀ : Midi} (depth : Nat) (h : Filled p m₀ m) :
    Ends (fun _ => True) (repopulatePort p depth m) fun m' => m'.subnodes = m₀.subnodes ++ [p] := by
  induction depth generalizing m with
  | zero =>
      rw [repopulatePort, if_neg (by simpa using h.json)]
      trivial
  | succ depth ih =>
      rw [repopulatePort, if_neg (by simpa using h.json)]
      have later := h.members (m.portJson p)
      cases members : m.populatePortMembers p (m.portJson p) with
      | mk populated m₁ =>
          rw [members] at later
          cases populated with
          | true => exact congrArg (· ++ [p]) later.subnodes
          | false => exact ih later

/-- The loop over a document which is refused. -/
theorem populatePortMembers_outcome (m : Midi) (p : Nat) {data : QJsonObject}
    (refused : (m.populatePortMembers p data).1 = false) :
    storing.RefusedQuietly data ∧ (m.populatePortMembers p data).2 = m ∨
      ¬storing.RefusedQuietly data ∧ Filled p m (m.populatePortMembers p data).2 := by
  induction data with
  | nil => cases refused
  | cons e rest ih =>
      obtain ⟨k, v⟩ := e
      have known : v.isObject = true →
          storing.RefusedQuietly ((k, v) :: rest) := by
        intro object
        cases v with
        | object o => exact ⟨⟨by simp [storing, VirtualRemote.valueText], .inl rfl⟩, _, List.mem_cons_self, rfl⟩
        | null | bool b | string s | double d | array a => cases object
      have passed : v.isObject = false → ¬storing.Stores () (k, v) →
          (storing.RefusedQuietly ((k, v) :: rest) ↔ storing.RefusedQuietly rest) := by
        intro plain silent
        refine ⟨fun ⟨quiet, object⟩ => ?_, fun ⟨quiet, object⟩ => ?_⟩
        · have here : ¬(k, v).2.isObject := by simp [plain]
          obtain ⟨m', member, isObject⟩ := object
          rcases List.mem_cons.mp member with rfl | member
          · exact absurd isObject here
          · exact ⟨quiet.2.resolve_left here, m', member, isObject⟩
        · obtain ⟨m', member, isObject⟩ := object
          exact ⟨⟨silent, .inr quiet⟩, m', List.mem_cons_of_mem _ member, isObject⟩
      have value : ∀ text, VirtualRemote.valueText v = some text →
          ((m.setPortValue p k text).2.populatePortMembers p rest).1 = false →
          storing.RefusedQuietly ((k, v) :: rest) ∧
              ((m.setPortValue p k text).2.populatePortMembers p rest).2 = m ∨
            ¬storing.RefusedQuietly ((k, v) :: rest) ∧
              Filled p m ((m.setPortValue p k text).2.populatePortMembers p rest).2 := by
        intro text read refused
        by_cases port : k = "port"
        · have stores : storing.Stores () (k, v) := ⟨port, by rw [read]; rfl⟩
          obtain ⟨isPortOpen, portJson, json, same, -⟩ := setPortValue_eq m p "port" text
          have filled : Filled p m (m.setPortValue p k text).2 := by
            rw [port]
            exact ⟨setPortValue_filled m p text, by rw [same]⟩
          exact .inr ⟨fun quiet => quiet.1.1 stores, filled.members rest⟩
        · have plain : v.isObject = false := by
            cases v with
            | object o => cases read
            | null | bool b | string s | double d | array a => rfl
          rw [setPortValue_other m p port text] at refused ⊢
          rw [passed plain fun stores => port stores.1]
          exact ih refused
      cases v with
      | object o => exact .inl ⟨known rfl, rfl⟩
      | array a =>
          rw [passed rfl (by simp [storing, VirtualRemote.valueText])]
          exact ih refused
      | null =>
          rw [passed rfl (by simp [storing, VirtualRemote.valueText])]
          exact ih refused
      | bool b => exact value _ rfl refused
      | string s => exact value _ rfl refused
      | double d => exact value _ rfl refused

/-- A new port is refused quietly, or it is listed in the end. -/
theorem populatePort_outcome (bare : m.portJson p = []) (data : QJsonObject) :
    Ends (fun _ => True) (m.populatePort p data) fun q => q.1 = false →
      ((' ' : QChar) ∈ m.portName p ∨ storing.RefusedQuietly data) ∧ q.2 = m ∨
        ¬((' ' : QChar) ∈ m.portName p ∨ storing.RefusedQuietly data) ∧
          q.2.subnodes = m.subnodes ++ [p] := by
  rw [populatePort]
  split
  · rename_i space
    exact fun _ => .inl ⟨.inl space, rfl⟩
  · rename_i solid
    have outcome := @populatePortMembers_outcome m p data
    cases members : m.populatePortMembers p data with
    | mk populated m₁ =>
        rw [members] at outcome
        cases populated with
        | true => exact fun contra => absurd contra (by simp)
        | false =>
            rcases outcome rfl with ⟨quiet, same⟩ | ⟨loud, filled⟩
            · have still : m₁.portJson p = [] := (congrArg (·.portJson p) same).trans bare
              have last : repopulatePort p World.stackDepth m₁ = .ok m₁ := by
                rw [World.stackDepth, repopulatePort, if_pos (by simp [still])]
                rfl
              dsimp only
              rw [last]
              exact fun _ => .inl ⟨.inr quiet, same⟩
            · apply (filled.repopulate World.stackDepth).bind
              exact fun m₂ listed _ => .inr ⟨not_or.mpr ⟨solid, loud⟩, listed⟩

theorem untouched_iff {name : QString} {data : QJsonObject}
    (refused : m.createSubNode name data = .ok (false, m')) :
    Untouched m m' ↔ RefusesQuietly name data := by
  rw [createSubNode] at refused
  split at refused
  · rename_i typed
    obtain ⟨⟨populated, m₁⟩, done, result⟩ := bind_eq_ok.mp refused
    cases populated with
    | true => cases result
    | false =>
        cases result
        have outcome := (populatePort_outcome (Function.update_self _ _ _) data).of_ok done rfl
        dsimp only at outcome
        rw [Function.update_self] at outcome
        rcases outcome with ⟨quiet, same⟩ | ⟨loud, listed⟩
        · cases same
          exact ⟨fun _ => .inr quiet, fun _ => ⟨rfl, rfl, rfl⟩⟩
        · refine ⟨fun untouched => ?_, ?_⟩
          · have lengths := congrArg List.length (listed.symm.trans untouched.subnodes)
            simp at lengths
          · rintro (untyped | quiet)
            · exact absurd typed untyped
            · exact absurd quiet loud
  · rename_i untyped
    cases refused
    exact ⟨fun _ => .inl untyped, fun _ => ⟨rfl, rfl, rfl⟩⟩

end Midi

/-! ## Refused children -/

/-- Of a refused child nothing is left in its container if and only if it was refused before
    anything of it was stored. -/
theorem untouched_refused_iff (w w' : World) (m m' : Midi) (g : Nat) (name : QString)
    (data : QJsonObject) :
    (VirtualNetwork.createSubNode w name data = .ok (false, w') →
      (Untouched .virtualNet w w' ↔ VirtualNetwork.RefusesQuietly w.accepts name data)) ∧
    (VirtualGroup.createSubNode w g name data = .ok (false, w') →
      (Untouched (.group g) w w' ↔ VirtualGroup.RefusesQuietly w.accepts name data)) ∧
    (RemoteList.createSubNode w name data = .ok (false, w') →
      (Untouched .remoteList w w' ↔ RemoteList.RefusesQuietly w name data)) ∧
    (m.createSubNode name data = .ok (false, m') →
      (m.Untouched m' ↔ Midi.RefusesQuietly name data)) :=
  ⟨VirtualNetwork.untouched_iff, VirtualGroup.untouched_iff, RemoteList.untouched_iff,
    Midi.untouched_iff⟩

/-- A document of a remote with a member which is an object. -/
def malformedRemote : QJsonObject := [("MAC", .string "0013A200"), ("Zzz", .object [])]

theorem untouched_refused_iff_malformed :
    let w := World.initial .free fun _ => none
    (∃ w', VirtualNetwork.createSubNode w "Remote1" malformedRemote = .ok (false, w') ∧
      (Untouched .virtualNet w w' ↔
        VirtualNetwork.RefusesQuietly w.accepts "Remote1" malformedRemote)) ∧
    (∃ w', VirtualGroup.createSubNode w 0 "Remote1" malformedRemote = .ok (false, w') ∧
      (Untouched (.group 0) w w' ↔
        VirtualGroup.RefusesQuietly w.accepts "Remote1" malformedRemote)) ∧
    (∃ w', RemoteList.createSubNode w "Remote1" malformedRemote = .ok (false, w') ∧
      (Untouched .remoteList w w' ↔ RemoteList.RefusesQuietly w "Remote1" malformedRemote)) ∧
    ∃ m', ({} : Midi).createSubNode "Remote1" malformedRemote = .ok (false, m') ∧
      (({} : Midi).Untouched m' ↔ Midi.RefusesQuietly "Remote1" malformedRemote) :=
  ⟨⟨_, rfl, (untouched_refused_iff _ _ {} {} 0 _ _).1 rfl⟩,
    ⟨_, rfl, (untouched_refused_iff _ _ {} {} 0 _ _).2.1 rfl⟩,
    ⟨_, rfl, (untouched_refused_iff _ _ {} {} 0 _ _).2.2.1 rfl⟩,
    ⟨_, rfl, (untouched_refused_iff (World.initial .free fun _ => none) (World.initial .free fun _ => none)
      {} _ 0 _ _).2.2.2 rfl⟩⟩

/-- The remote is refused after startup, and the list of remotes has it as a child node. -/
theorem refused_leaves_trace : ¬∀ w w' name data, World.Reachable .free w →
    RemoteList.createSubNode w name data = .ok (false, w') → Untouched .remoteList w w' := by
  intro untouched
  have start : World.Reachable .free (World.initial .free fun _ => none) := ⟨_, [], rfl⟩
  have same := (untouched _ _ "Remote1" malformedRemote start rfl).subnodes
  have listed : [NodeRef.remote 0] = [] := same
  cases listed

end VoxPopuli
