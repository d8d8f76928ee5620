import VoxPopuli.Model.Arrivals
import VoxPopuli.Model.Reachable

/-! # The containers and the commands

Whatever the command, the remotes which are left are listed under distinct names with an entry
each, and the virtual network stays in order: its lists, its child nodes and its entries agree.
The list of remotes stays in order unless a remote is dropped on the way, which then writes its
JSON back after its entry has been removed.
-/

namespace VoxPopuli

open World

variable {S : Scope} {w w' w'' : World} {p q e : NodeRef} {name : QString}

theorem NodeRef.holder_self {n c : NodeRef} (held : n.holder = some (p, c)) :
    c.holder = some (p, c) := by
  cases n with
  | vRemote v | event v b =>
      cases v with
      | free n | member g n =>
          cases held
          rfl
  | remote r | group g =>
      cases held
      rfl
  | network | remoteList | patch | eventModel | virtualNet => cases held

namespace World

/-! ## Nodes which come -/

/-- A node is made, with a name, which is in no container yet. -/
structure Made (e : NodeRef) (name : QString) (w w' : World) : Prop where
  children : ∀ q, IsContainer q → w'.children q = w.children q
  subnodes : ∀ q, IsContainer q → w'.subnodes q = w.subnodes q
  json : ∀ q, IsContainer q → w'.json q = w.json q
  names : ∀ q c, c.holder = some (q, c) → c ≠ e → w'.nameOf c = w.nameOf c
  own : w'.nameOf e = name
  new : ∀ q, e ∉ w.children q
  freshRemote : w.freshRemote ≤ w'.freshRemote
  old : ∀ r, e = .remote r → r < w'.freshRemote

/-- A node becomes the last child of its container. -/
structure Joined (p e : NodeRef) (w w' : World) : Prop where
  children : (w'.children p).Perm (w.children p ++ [e])
  subnodes : w'.subnodes p = w.subnodes p ++ [e]
  names : w'.nameOf = w.nameOf
  entries : ∀ k, w'.Entry p k ↔ w.Entry p k ∨ k = w.nameOf e
  others : ∀ q, IsContainer q → q ≠ p → w'.children q = w.children q ∧
    w'.subnodes q = w.subnodes q ∧ w'.json q = w.json q
  freshRemote : w'.freshRemote = w.freshRemote

/-- A node is made and populated; then it joins its container and is told of its links.
    When its name is refused it joins none. Under the condition `Q` no remote is dropped. -/
inductive Birth (Q : Prop) (S : Scope) (p e : NodeRef) (name : QString) (w : World) : World → Prop
  | refused {w₁ : World} (made : Made e name w w₁) : Birth Q S p e name w w₁
  | joined {w₁ w₂ w₃ w₄ : World} (made : Made e name w w₁) (quiet : Q → S.Quiet w₁)
      (grown : Deeds S w₁ w₂) (joined : Joined p e w₂ w₃) (told : Deeds S.silent w₃ w₄) :
      Birth Q S p e name w w₄

namespace Made

variable (made : Made e name w w')

include made

theorem name_child {c : NodeRef} (member : c ∈ w.children q) : w'.nameOf c = w.nameOf c :=
  made.names q c (mem_children_holder member) fun same => made.new q (same ▸ member)

theorem entry_iff (container : IsContainer q) (k : QString) : w'.Entry q k ↔ w.Entry q k := by
  unfold Entry
  rw [made.json q container]

theorem inOrder (container : IsContainer q) (order : w.InOrder q) : w'.InOrder q := by
  unfold InOrder
  rw [made.children q container, made.subnodes q container]
  exact Complete.congr order (fun c member => made.name_child member) (made.entry_iff container)

/-- What the new node holds does not matter to the containers. -/
theorem clear (held : e.holder = some (p, e)) : Made e name w (w'.clearJsonData e) := by
  have apart : ∀ q, IsContainer q → q ≠ e := by
    rintro q (rfl | rfl) rfl
    · cases held
    · cases held
  obtain ⟨children, subnodes, json, names, own, new, freshRemote, old⟩ := made
  refine ⟨fun q container => ?_, fun q container => ?_, fun q container => ?_, fun q c held other => ?_,
    ?_, new, freshRemote, old⟩
  · exact (children q container).symm ▸ by cases q <;> rfl
  · exact (subnodes_clearJsonData (apart q container)).trans (subnodes q container)
  · exact (json_clearJsonData (apart q container)).trans (json q container)
  · exact (by cases c <;> rfl : (w'.clearJsonData e).nameOf c = w'.nameOf c).trans
      (names q c held other)
  · exact (by cases e <;> rfl : (w'.clearJsonData e).nameOf e = w'.nameOf e).trans own

theorem remotesListed (listed : w.RemotesListed) : w'.RemotesListed := by
  have list := made.children .remoteList (.inl rfl)
  constructor
  · rw [list]
    exact Listed.congr listed.listed (fun c member => made.name_child member)
      fun k => (made.entry_iff (.inl rfl) k).mpr
  · intro r member
    have inside : NodeRef.remote r ∈ w'.children .remoteList :=
      mem_children_remoteList.mpr ⟨r, member, rfl⟩
    rw [list] at inside
    obtain ⟨r', inside, same⟩ := mem_children_remoteList.mp inside
    cases same
    exact (listed.old r inside).trans_le made.freshRemote

end Made

namespace Birth

/-- The nodes of the scope belong to children of the container or to the new one. -/
def Within (S : Scope) (w : World) (e q : NodeRef) : Prop :=
  ∀ n ∈ S.nodes, ∀ c, n.holder = some (q, c) → c ∈ w.children q ∨ c = e

variable {Q : Prop} (birth : Birth Q S p e name w w')

include birth

theorem inOrder (container : IsContainer q) (parent : e.holder = some (p, e))
    (order : w.InOrder q) (free : p = q → name ∉ (w.children p).map w.nameOf)
    (within : Within S w e q) (still : q = .remoteList → Q) : w'.InOrder q := by
  cases birth with
  | refused made => exact made.inOrder container order
  | @joined w₁ w₂ w₃ w₄ made quiet grown joined told =>
      have order₁ := made.inOrder container order
      have held := grown.holds container fun list => quiet (still list)
      have children₁ := made.children q container
      have told' := told.holds container fun _ => S.quiet_silent w₃
      by_cases same : p = q
      · subst same
        have free₁ : w₁.nameOf e ∉ (w₁.children p).map w₁.nameOf := by
          rw [made.own, children₁]
          intro taken
          obtain ⟨c, member, named⟩ := List.mem_map.mp taken
          exact free rfl (List.mem_map.mpr ⟨c, member, (made.name_child member).symm.trans named⟩)
        have own₂ : w₂.nameOf e = w₁.nameOf e := held.names e e parent
        have entries : ∀ k, w₃.Entry p k ↔ w₁.Entry p k ∨ k = w₁.nameOf e := by
          intro k
          rw [joined.entries, own₂]
          constructor
          · rintro (there | rfl)
            · rcases held.only k there with old | ⟨n, inside, c, holder, rfl⟩
              · exact .inl old
              · rcases within n inside c holder with member | rfl
                · exact .inl (order₁.entries c (children₁ ▸ member))
                · exact .inr rfl
            · exact .inr rfl
          · exact Or.imp_left (held.kept k)
        have complete := Complete.append order₁ free₁ entries
        have order₃ : w₃.InOrder p := by
          unfold InOrder
          rw [joined.subnodes, held.subnodes]
          refine Complete.congr (complete.reorder (held.children ▸ joined.children)) ?_ fun k => Iff.rfl
          intro c member
          rw [joined.names]
          rcases List.mem_append.mp (joined.children.subset member) with old | single
          · exact held.names c c (mem_children_holder old)
          · exact List.mem_singleton.mp single ▸ own₂
        refine told'.inOrder order₃ fun n inside c holder => ?_
        apply joined.children.symm.subset
        rw [held.children, children₁]
        rcases within n inside c holder with member | rfl
        · exact List.mem_append_left _ member
        · exact List.mem_append_right _ (List.mem_singleton_self c)
      · have inside : ∀ n ∈ S.nodes, ∀ c, n.holder = some (q, c) → c ∈ w.children q := by
          intro n member c holder
          rcases within n member c holder with old | rfl
          · exact old
          · have again := parent.symm.trans (NodeRef.holder_self holder)
            exact absurd (congrArg Prod.fst (Option.some.inj again)) same
        have order₂ := held.inOrder order₁ fun n member c holder =>
          children₁ ▸ inside n member c holder
        obtain ⟨children₃, subnodes₃, json₃⟩ := joined.others q container fun here => same here.symm
        have order₃ : w₃.InOrder q := by
          unfold InOrder
          rw [children₃, subnodes₃]
          refine Complete.congr order₂ (fun c _ => congrFun joined.names c) fun k => ?_
          unfold Entry
          rw [json₃]
        refine told'.inOrder order₃ fun n member c holder => ?_
        rw [children₃, held.children, children₁]
        exact inside n member c holder

omit birth in
/-- A new remote joins the list under a name which no other has. -/
theorem remotesListed_joined {r : Nat} {w₁ w₂ w₃ : World} (listed : w.RemotesListed)
    (made : Made (.remote r) name w w₁) (grown : Deeds S w₁ w₂)
    (joined : Joined .remoteList (.remote r) w₂ w₃)
    (free : name ∉ (w.children .remoteList).map w.nameOf) : w₃.RemotesListed := by
  have listed₂ := (made.remotesListed listed).deeds grown
  have settled := grown.settles
  have names : ∀ r', w₂.nameOf (.remote r') = w₁.nameOf (.remote r') :=
    fun r' => congrFun settled.remoteName r'
  have new : w₂.nameOf (.remote r) ∉ (w₂.children .remoteList).map w₂.nameOf := by
    rw [names, made.own]
    intro taken
    obtain ⟨c, member, named⟩ := List.mem_map.mp taken
    obtain ⟨r', inside, rfl⟩ := mem_children_remoteList.mp member
    have before : NodeRef.remote r' ∈ w.children .remoteList := by
      rw [← made.children .remoteList (.inl rfl)]
      exact mem_children_remoteList.mpr ⟨r', settled.remotes.subset inside, rfl⟩
    refine free (List.mem_map.mpr ⟨_, before, ?_⟩)
    rw [← made.name_child before, ← names, named]
  constructor
  · rw [joined.names]
    exact (Listed.append listed₂.listed new (fun k there => (joined.entries k).mpr (.inl there))
      ((joined.entries _).mpr (.inr rfl))).reorder joined.children
  · intro r' member
    have inside := joined.children.subset (mem_children_remoteList.mpr ⟨r', member, rfl⟩)
    rw [joined.freshRemote]
    rcases List.mem_append.mp inside with before | single
    · obtain ⟨r'', before, same⟩ := mem_children_remoteList.mp before
      cases same
      exact listed₂.old r' before
    · cases List.mem_singleton.mp single
      rw [settled.freshRemote]
      exact made.old r rfl

theorem remotesListed (parent : e.holder = some (p, e)) (listed : w.RemotesListed)
    (free : p = .remoteList → name ∉ (w.children p).map w.nameOf) : w'.RemotesListed := by
  cases birth with
  | refused made => exact made.remotesListed listed
  | @joined w₁ w₂ w₃ w₄ made quiet grown joined told =>
      have listed₃ : w₃.RemotesListed := by
        by_cases list : p = .remoteList
        · subst list
          cases e with
          | remote r => exact remotesListed_joined listed made grown joined (free rfl)
          | vRemote v | event v b => cases v <;> cases parent
          | group g | network | remoteList | patch | eventModel | virtualNet => cases parent
        · have listed₂ := (made.remotesListed listed).deeds grown
          obtain ⟨children, -, json⟩ := joined.others .remoteList (.inl rfl) fun here => list here.symm
          constructor
          · rw [children, joined.names]
            refine Listed.congr listed₂.listed (fun _ _ => rfl) fun k there => ?_
            unfold Entry at there ⊢
            rwa [json]
          · intro r member
            have inside := mem_children_remoteList.mpr ⟨r, member, rfl⟩
            rw [children] at inside
            obtain ⟨r', before, same⟩ := mem_children_remoteList.mp inside
            cases same
            exact joined.freshRemote ▸ listed₂.old r before
      exact listed₃.deeds told

omit birth in
/-- A child which arrives is born. -/
theorem of_arrival {Told : World → World → Prop} {list : World → World} {data : QJsonObject}
    {w₁ : World} {q : Bool × World} (held : e.holder = some (p, e)) (made : Made e name w w₁)
    (quiet : Q → S.Quiet w₁) (joined : ∀ w₂ : World, Joined p e w₂ (list (w₂.adopt e data)))
    (silent : ∀ w₂ w₃, Told w₂ w₃ → Deeds S.silent w₂ w₃)
    (arrival : Arrival S Told e name data list w₁ q) : Birth Q S p e name w q.2 := by
  cases arrival with
  | refused blank => exact .refused (made.clear held)
  | arrived solid grown told => exact .joined made quiet grown (joined _) (silent _ _ told)

/-- The elements keep their entries. -/
theorem kept_net {k : QString} (there : w.Entry .virtualNet k) :
    w'.Entry .virtualNet k := by
  cases birth with
  | refused made => exact (made.entry_iff (.inr rfl) k).mpr there
  | @joined w₁ w₂ w₃ w₄ made quiet grown joined told =>
      apply (told.holds (.inr rfl) nofun).kept
      have grown' := (grown.holds (.inr rfl) nofun).kept k ((made.entry_iff (.inr rfl) k).mpr there)
      by_cases net : p = .virtualNet
      · subst net
        exact (joined.entries k).mpr (.inl grown')
      · obtain ⟨-, -, json⟩ := joined.others .virtualNet (.inr rfl) fun same => net same.symm
        unfold Entry at grown' ⊢
        rwa [json]

end Birth

/-! ## What a command does to the containers -/

/-- The remotes stay listed and the virtual network stays in order; under the condition `Q` so
    does the list of remotes. -/
structure Stable (Q : Prop) (w w' : World) : Prop where
  listed : w.RemotesListed → w'.RemotesListed
  net : w.InOrder .virtualNet → w'.InOrder .virtualNet
  remotes : Q → w.InOrder .remoteList → w'.InOrder .remoteList

namespace Stable

variable {Q : Prop}

theorem refl (Q : Prop) (w : World) : Stable Q w w := ⟨id, id, fun _ => id⟩

theorem trans (h : Stable Q w w') (h' : Stable Q w' w'') : Stable Q w w'' where
  listed := h'.listed ∘ h.listed
  net := h'.net ∘ h.net
  remotes q := h'.remotes q ∘ h.remotes q

theorem of_deeds (chain : Deeds S w w') (within : ∀ p, S.Within w p) (quiet : Q → S.Quiet w) :
    Stable Q w w' where
  listed h := h.deeds chain
  net order := (chain.holds (.inr rfl) nofun).inOrder order (within _)
  remotes q order := (chain.holds (.inl rfl) fun _ => quiet q).inOrder order (within _)

theorem of_birth (birth : Birth Q S p e name w w') (parent : e.holder = some (p, e))
    (free : name ∉ (w.children p).map w.nameOf) (within : ∀ q, Birth.Within S w e q) :
    Stable Q w w' where
  listed h := birth.remotesListed parent h fun _ => free
  net order := birth.inOrder (.inr rfl) parent order (fun _ => free) (within _) nofun
  remotes q order := birth.inOrder (.inl rfl) parent order (fun _ => free) (within _) fun _ => q

end Stable

/-- The nodes below the children of the containers and below a new one, and some remotes. -/
def scope (w : World) (e : Option NodeRef) (driven : Set Nat) : Scope where
  nodes := { n | ∀ p c, n.holder = some (p, c) → c ∈ w.children p ∨ e = some c }
  driven := driven

variable {D : Set Nat}

theorem within_scope (p : NodeRef) : (w.scope none D).Within w p := by
  intro n inside c held
  exact (inside p c held).resolve_right nofun

theorem within_scope_some (q : NodeRef) : Birth.Within (w.scope (some e) D) w e q := by
  intro n inside c held
  exact (inside q c held).imp_right fun same => (Option.some.inj same).symm

/-- What belongs to a child or to the new node is in the scope. -/
theorem mem_scope {n c : NodeRef} {e? : Option NodeRef} (held : n.holder = some (p, c))
    (inside : c ∈ w.children p ∨ e? = some c) : n ∈ (w.scope e? D).nodes := by
  intro p' c' held'
  cases held.symm.trans held'
  exact inside

theorem WellFormed.covers_scope (h : w.WellFormed) (e? : Option NodeRef) (D : Set Nat) :
    (w.scope e? D).Covers w := by
  refine ⟨nofun, fun g inside => ?_, fun v live => ?_⟩
  · exact mem_scope (c := .group g) rfl (.inl (mem_children_virtualNet.mpr inside))
  · rcases live with ⟨n, inside, rfl⟩ | ⟨g, inside, member⟩
    · exact mem_scope (c := .vRemote (.free n)) rfl (.inl (mem_children_virtualNet.mpr inside))
    · obtain ⟨global, avatars, ok⟩ := h.groups g inside
      obtain ⟨n, -, rfl⟩ := ok.member_iff.mp member
      exact mem_scope (c := .group g) rfl (.inl (mem_children_virtualNet.mpr inside))

theorem drives_scope {e? : Option NodeRef} {r : Nat} (inside : r ∈ w.remotes) (driven : r ∈ D) :
    (w.scope e? D).Drives r :=
  ⟨mem_scope (c := .remote r) rfl (.inl (mem_children_remoteList.mpr ⟨r, inside, rfl⟩)), driven⟩

/-- A populated child is appended to the list of its container. -/
theorem Joined.of_adopt (held : e.holder = some (p, e)) (data : QJsonObject)
    (json : w'.json = (w.adopt e data).json) (subnodes : w'.subnodes = (w.adopt e data).subnodes)
    (names : w'.nameOf = w.nameOf) (children : (w'.children p).Perm (w.children p ++ [e]))
    (others : ∀ q, q ≠ p → w'.children q = w.children q)
    (freshRemote : w'.freshRemote = w.freshRemote) : Joined p e w w' := by
  have place := childOf_of_holder held
  obtain ⟨rest, parent⟩ := place.parent
  obtain ⟨json', same, own, kept⟩ := adopt_frame (w := w) parent place.minor data
  rw [same] at json subnodes
  refine ⟨children, ?_, names, fun k => ?_, fun q container differ => ⟨others q differ, ?_, ?_⟩,
    freshRemote⟩
  · rw [subnodes]
    exact Function.update_self ..
  · unfold Entry
    rw [json]
    dsimp only
    rw [own]
    by_cases named : k = w.nameOf e
    · simp [named]
    · simp [named]
  · rw [subnodes]
    exact Function.update_of_ne differ _ _
  · rw [json]
    exact kept q (place.apart q container differ)

/-! ## New elements -/

/-- A new reference is no child of a container yet. -/
theorem Made.create_free (old : ∀ n ∈ w.vRemotes, n < w.fresh) (name : QString) :
    Made (.vRemote (.free w.fresh)) name w (VirtualRemote.create w (.free w.fresh) name) := by
  refine ⟨fun q _ => by cases q <;> rfl, ?_, ?_, ?_, Function.update_self .., ?_, le_rfl, nofun⟩
  · rintro q (rfl | rfl) <;> rfl
  · rintro q (rfl | rfl) <;> rfl
  · intro q c held other
    cases c with
    | vRemote v => exact Function.update_of_ne (fun same => other (congrArg NodeRef.vRemote same)) _ _
    | _ => rfl
  · intro q inside
    cases q with
    | virtualNet => exact (old _ (mem_children_virtualNet.mp inside)).ne rfl
    | remoteList =>
        obtain ⟨r, -, same⟩ := mem_children_remoteList.mp inside
        cases same
    | _ => cases inside

theorem Made.create_group (old : ∀ g ∈ w.vGroups, g < w.fresh) (name : QString) :
    Made (.group w.fresh) name w (VirtualGroup.create w w.fresh name) := by
  refine ⟨fun q _ => by cases q <;> rfl, ?_, ?_, ?_, Function.update_self .., ?_, le_rfl, nofun⟩
  · rintro q (rfl | rfl) <;> simp [VirtualGroup.create]
  · rintro q (rfl | rfl) <;> simp [VirtualGroup.create]
  · intro q c held other
    cases c with
    | group g => exact Function.update_of_ne (fun same => other (congrArg NodeRef.group same)) _ _
    | _ => rfl
  · intro q inside
    cases q with
    | virtualNet => exact (old _ (mem_children_virtualNet.mp inside)).ne rfl
    | remoteList =>
        obtain ⟨r, -, same⟩ := mem_children_remoteList.mp inside
        cases same
    | _ => cases inside

theorem Joined.append_free (n : Nat) (data : QJsonObject) :
    Joined .virtualNet (.vRemote (.free n)) w { w.adopt (.vRemote (.free n)) data with
      vRemotes := (w.adopt (.vRemote (.free n)) data).vRemotes ++ [n] } := by
  obtain ⟨json, same, -⟩ := adopt_frame (w := w) (e := .vRemote (.free n)) rfl (by simp) data
  refine .of_adopt rfl data rfl rfl ?_ ?_ ?_ (by rw [same])
  · rw [same]
    funext c
    cases c <;> rfl
  · rw [same]
    simp [World.children]
  · intro q differ
    rw [same]
    cases q <;> first | rfl | exact absurd rfl differ

theorem settles_append_free (n : Nat) (data : QJsonObject) :
    Settles w { w.adopt (.vRemote (.free n)) data with
      vRemotes := (w.adopt (.vRemote (.free n)) data).vRemotes ++ [n] } := by
  obtain ⟨json, same, -, others⟩ := adopt_frame (w := w) (e := .vRemote (.free n)) rfl (by simp) data
  have kept : ∀ r, (json (.remote r)).value "MAC" = (w.json (.remote r)).value "MAC" := fun r => by
    rw [others _ (by simp [NodeRef.ancestors, VRef.ancestors])]
  have settled : Settles w { w with json := json, subnodes := w.subnodes } := settles_of_json kept
  rw [same]
  exact ⟨.refl _, rfl, rfl, rfl, settled.mac, fun _ => id, fun x heard => ⟨x, heard, rfl⟩⟩

theorem Joined.append_group (g : Nat) (data : QJsonObject) :
    Joined .virtualNet (.group g) w { w.adopt (.group g) data with
      vGroups := (w.adopt (.group g) data).vGroups ++ [g] } := by
  obtain ⟨json, same, -⟩ := adopt_frame (w := w) (e := .group g) rfl (by simp) data
  refine .of_adopt rfl data rfl rfl ?_ ?_ ?_ (by rw [same])
  · rw [same]
    funext c
    cases c <;> rfl
  · rw [same]
    simp only [World.children, List.map_append, List.map_singleton, List.append_assoc]
    exact List.perm_append_comm.append_left _
  · intro q differ
    rw [same]
    cases q <;> first | rfl | exact absurd rfl differ

end World

namespace VirtualNetwork

/-- The name under which an element is created. -/
def chosenName (w : World) (name base : QString) : QString :=
  if name = "" then freeName (w.json .virtualNet).keys base else name

/-- The scope of the creation of an element, with the remotes which its links lead to. -/
def birthScope (w : World) (e : NodeRef) (name : QString) : Scope :=
  w.scope (some e) { r | (' ' : QChar) ∉ name ∧ r ∈ w.linkedRemotes name }

theorem drives_birthScope (solid : (' ' : QChar) ∉ name) {r : Nat} (linked : r ∈ w.linkedRemotes name) :
    (birthScope w e name).Drives r := by
  obtain ⟨rName, -, found⟩ := List.mem_filterMap.mp linked
  exact drives_scope (RemoteList.byName_eq_some found).1 ⟨solid, linked⟩

theorem createRemote_birth (h : w.Registered) (listed : w.RemotesListed) (name : QString) :
    Ends (fun _ => True) (createSubNode w name VirtualRemote.createVirtualRemoteJSon) fun p =>
      Birth ((birthScope w (.vRemote (.free w.fresh)) name).Quiet w)
        (birthScope w (.vRemote (.free w.fresh)) name) .virtualNet (.vRemote (.free w.fresh)) name
          w p.2 ∧ Settles w p.2 := by
  have made := Made.create_free h.vRemotesOld name
  have settled : Settles w (VirtualRemote.create w (.free w.fresh) name) :=
    ⟨.refl _, rfl, rfl, rfl, rfl, fun _ => id, fun x heard => ⟨x, heard, rfl⟩⟩
  have nodes : (birthScope w (.vRemote (.free w.fresh)) name).Holds (.free w.fresh) :=
    ⟨mem_scope rfl (.inr rfl), fun b => mem_scope rfl (.inr rfl)⟩
  apply (createRemote_arrival nodes (made.remotesListed listed)
    fun solid r => drives_birthScope solid).mono
  intro q arrival
  refine ⟨.of_arrival rfl made (fun quiet r driven drops => quiet r driven (settled.drops drops))
    (fun w₂ => .append_free w.fresh _) (fun _ _ => id) arrival, ?_⟩
  cases arrival with
  | refused blank =>
      rw [clearJsonData_bare (if_pos rfl) (if_pos rfl)]
      exact settled
  | arrived solid grown told =>
      exact ((settled.trans grown.settles).trans (settles_append_free w.fresh _)).trans told.settles

theorem createGroup_birth (h : w.Registered) (listed : w.RemotesListed) (name : QString) :
    Ends (fun _ => True) (createSubNode w name VirtualGroup.createGroupJSon) fun p =>
      Birth ((birthScope w (.group w.fresh) name).Quiet w) (birthScope w (.group w.fresh) name)
        .virtualNet (.group w.fresh) name w p.2 := by
  have made := Made.create_group h.groupsOld name
  have settled : Settles w (VirtualGroup.create w w.fresh name) := by
    refine ⟨.refl _, rfl, rfl, rfl, ?_, fun _ => id, fun x heard => ⟨x, heard, rfl⟩⟩
    funext r
    simp [RemoteList.macOf, World.get, VirtualGroup.create]
  have nodes : (birthScope w (.group w.fresh) name).HoldsGroup w.fresh := by
    refine ⟨mem_scope rfl (.inr rfl), fun n => ⟨?_, fun b => ?_⟩⟩
    · exact mem_scope (c := .group w.fresh) rfl (.inr rfl)
    · exact mem_scope (c := .group w.fresh) rfl (.inr rfl)
  apply (createGroup_arrival nodes (made.remotesListed listed)
    fun solid r => drives_birthScope solid).mono
  exact fun q => .of_arrival rfl made (fun quiet r driven drops => quiet r driven (settled.drops drops))
    (fun w₂ => .append_group w.fresh _) fun _ _ => id

theorem chosenName_free (h : w.Registered) (free : ¬(w.json .virtualNet).contains name)
    (base : QString) : chosenName w name base ∉ (w.children .virtualNet).map w.nameOf := by
  intro taken
  obtain ⟨c, member, named⟩ := List.mem_map.mp taken
  have key := h.netKeys c (mem_children_virtualNet.mp member)
  rw [named] at key
  exact not_contains_chosen free base key

theorem not_entry_chosenName (free : ¬(w.json .virtualNet).contains name) (base : QString) :
    ¬w.Entry .virtualNet (chosenName w name base) := by
  rintro ⟨o, found⟩
  apply not_contains_chosen free base
  unfold QJsonObject.contains
  exact Option.isSome_iff_exists.mpr ⟨_, found⟩

theorem addRemote_stable {Q : Prop} (h : w.Registered) (listed : w.RemotesListed) (name : QString)
    (quiet : Q → ¬(w.json .virtualNet).contains name → ∀ r, (' ' : QChar) ∉ chosenName w name "Remote" →
      r ∈ w.linkedRemotes (chosenName w name "Remote") → ¬w.Drops r) :
    Ends (fun _ => True) (addRemote w name) fun p => Stable Q w p.2 ∧ Settles w p.2 ∧
      ∀ k, w.Entry .virtualNet k → p.2.Entry .virtualNet k := by
  unfold addRemote
  split
  · exact ⟨.refl Q w, .refl w, fun _ => id⟩
  · rename_i free
    refine (createRemote_birth h listed (chosenName w name "Remote")).bind fun p done => ?_
    obtain ⟨birth, settled⟩ := done
    refine ⟨?_, settled, fun k => birth.kept_net⟩
    have stable := Stable.of_birth birth rfl (chosenName_free h free "Remote") within_scope_some
    refine ⟨stable.listed, stable.net, fun q => stable.remotes fun r driven => ?_⟩
    exact quiet q free r driven.1 driven.2

theorem addGroup_stable {Q : Prop} (h : w.Registered) (listed : w.RemotesListed) (name : QString)
    (quiet : Q → ¬(w.json .virtualNet).contains name → ∀ r, (' ' : QChar) ∉ chosenName w name "Group" →
      r ∈ w.linkedRemotes (chosenName w name "Group") → ¬w.Drops r) :
    Ends (fun _ => True) (addGroup w name) fun p => Stable Q w p.2 := by
  unfold addGroup
  split
  · exact .refl Q w
  · rename_i free
    refine (createGroup_birth h listed (chosenName w name "Group")).bind fun p birth => ?_
    have stable := Stable.of_birth birth rfl (chosenName_free h free "Group") within_scope_some
    refine ⟨stable.listed, stable.net, fun q => stable.remotes fun r driven => ?_⟩
    exact quiet q free r driven.1 driven.2

theorem autoGenerateRemote_stable {Q : Prop} (h : w.WellFormed) (listed : w.RemotesListed)
    (quiet : Q → ∀ r' ∈ w.remotes, ∀ vName : QString, ¬w.Entry .virtualNet vName →
      vName = w.remoteName r' ∨ w.remoteName r' = "" → (' ' : QChar) ∉ vName →
        ∀ r ∈ w.linkedRemotes vName, ¬w.Drops r) :
    Ends (fun _ => True) (autoGenerateRemote w) (Stable Q w) := by
  have start : ∀ w : World, Stable Q w w ∧ Settles w w ∧ Stays w w ∧
      ∀ k, w.Entry .virtualNet k → w.Entry .virtualNet k :=
    fun w => ⟨.refl Q w, .refl w, .refl w, fun _ => id⟩
  refine (Ends.foldlM (I := fun rest w' => (∀ r ∈ rest, r ∈ w.remotes) ∧ Stable Q w w' ∧ Settles w w' ∧
    Stays w w' ∧ ∀ k, w.Entry .virtualNet k → w'.Entry .virtualNet k) ⟨fun _ => id, start w⟩
      ?_).mono fun w' done => done.2.1
  rintro r' rest w₁ ⟨inside, stable, settled, stays, entries⟩
  have added := addRemote_stable (Q := Q) (stays.wellFormed h).toRegistered (stable.listed listed)
    (w₁.remoteName r') ?_
  · have shape := (addRemote_ends (stays.wellFormed h) (w₁.remoteName r')).of_any
    refine (added.and shape).bind fun p done => ?_
    obtain ⟨⟨stable', settled', entries'⟩, stays'⟩ := done
    exact ⟨fun r member => inside r (List.mem_cons_of_mem r' member), stable.trans stable',
      settled.trans settled', stays.trans stays', fun k there => entries' k (entries k there)⟩
  · intro q free r solid linked drops
    have fresh := not_entry_chosenName free "Remote"
    refine quiet q r' (inside r' List.mem_cons_self) (chosenName w₁ (w₁.remoteName r') "Remote")
      (fun there => fresh (entries _ there)) ?_ solid r
      (linkedRemotes_settles listed settled stays.patch linked) (settled.drops drops)
    rw [settled.remoteName]
    unfold chosenName
    split
    · exact .inr ‹_›
    · exact .inl rfl

end VirtualNetwork

/-! ## New remotes -/

namespace World

theorem Made.create_remote (old : ∀ r ∈ w.remotes, r < w.freshRemote) (name : QString) (real : Bool)
    (o : QJsonObject) : Made (.remote w.freshRemote) name w
      (RemoteList.create w w.freshRemote name real o) := by
  refine ⟨fun q _ => by cases q <;> rfl, ?_, ?_, ?_, Function.update_self .., ?_, Nat.le_succ _, ?_⟩
  · rintro q (rfl | rfl) <;> simp [RemoteList.create]
  · rintro q (rfl | rfl) <;> simp [RemoteList.create, setJson]
  · intro q c held other
    cases c with
    | remote r => exact Function.update_of_ne (fun same => other (congrArg NodeRef.remote same)) _ _
    | _ => rfl
  · intro q inside
    cases q with
    | remoteList =>
        obtain ⟨r, inside, same⟩ := mem_children_remoteList.mp inside
        cases same
        exact (old _ inside).ne rfl
    | virtualNet => exact mem_children_virtualNet.mp inside
    | _ => cases inside
  · rintro r ⟨⟩
    exact Nat.lt_succ_self _

theorem Joined.append_remote (r : Nat) (data : QJsonObject) :
    Joined .remoteList (.remote r) w { w.adopt (.remote r) data with
      remotes := (w.adopt (.remote r) data).remotes ++ [r] } := by
  obtain ⟨json, same, -⟩ := adopt_frame (w := w) (e := .remote r) rfl (by simp) data
  refine .of_adopt rfl data rfl rfl ?_ ?_ ?_ (by rw [same])
  · rw [same]
    funext c
    cases c <;> rfl
  · rw [same]
    simp [World.children]
  · intro q differ
    rw [same]
    cases q <;> first | rfl | exact absurd rfl differ

end World

namespace RemoteList

/-- The scope of the creation of a remote. -/
def birthScope (w : World) : Scope := w.scope (some (.remote w.freshRemote)) {w.freshRemote}

theorem drives_birthScope (w : World) : (birthScope w).Drives w.freshRemote :=
  ⟨mem_scope rfl (.inr rfl), rfl⟩

/-- A remote which arrives is born. -/
theorem birth_of_arrival (old : ∀ r ∈ w.remotes, r < w.freshRemote) {name : QString} {real : Bool}
    {o data : QJsonObject} {q : Bool × World}
    (arrival : Arrival S Eq (.remote w.freshRemote) name data (listRemote w.freshRemote)
      (create w w.freshRemote name real o) q) :
    Birth (S.Quiet (create w w.freshRemote name real o)) S .remoteList (.remote w.freshRemote) name
      w q.2 := by
  have silent : ∀ w₂ w₃ : World, w₂ = w₃ → Deeds S.silent w₂ w₃ := by
    rintro w₂ _ rfl
    exact .refl _ w₂
  exact .of_arrival rfl (Made.create_remote old name real o) id
    (fun w₂ => .append_remote w.freshRemote data) silent arrival

theorem freeName_new (listed : w.RemotesListed) (base : QString) :
    freeName (w.json .remoteList).keys base ∉ (w.children .remoteList).map w.nameOf := by
  intro taken
  obtain ⟨c, member, named⟩ := List.mem_map.mp taken
  obtain ⟨o, found⟩ := listed.listed.entries c member
  apply freeName_not_mem (w.json .remoteList).keys base
  rw [← QJsonObject.contains_iff, ← named, QJsonObject.contains, found]
  rfl

/-- A new remote is not the one which would be dropped: no other has its address. -/
theorem quiet_createReal (old : ∀ r ∈ w.remotes, r < w.freshRemote) {name address : QString}
    (new : ∀ r ∈ w.remotes, macOf w r ≠ address) :
    (birthScope w).Quiet (create w w.freshRemote name true
      (QJsonObject.build [("MAC", .string address)])) := by
  rintro r rfl ⟨-, r', inside, same⟩
  have differ : r' ≠ w.freshRemote := (old r' inside).ne
  have own : macOf (create w w.freshRemote name true
      (QJsonObject.build [("MAC", .string address)])) w.freshRemote = address := by
    simp [macOf, World.get, create, setJson, QJsonObject.build, QVariant.toString]
  have other : macOf (create w w.freshRemote name true
      (QJsonObject.build [("MAC", .string address)])) r' = macOf w r' := by
    simp [macOf, World.get, create, setJson, differ]
  exact new r' inside (other.symm.trans (same.trans own))

theorem addRemote_stable (h : w.WellFormed) (listed : w.RemotesListed) (address : QString) :
    Ends (fun _ => True) (addRemote w address) fun p => Stable True w p.2 := by
  unfold addRemote
  split
  · exact .refl True w
  · rename_i new
    have others : ∀ r ∈ w.remotes, macOf w r ≠ address := by
      simpa using new
    have solid : (' ' : QChar) ∉ freeName (w.json .remoteList).keys "Remote" :=
      freeName_solid _ (by decide)
    refine (createReal_arrival (drives_birthScope w) (h.covers_scope _ _) solid address).bind
      fun p arrival => ?_
    have stable := Stable.of_birth (birth_of_arrival listed.old arrival) rfl
      (freeName_new listed "Remote") within_scope_some
    exact ⟨stable.listed, stable.net, fun _ => stable.remotes (quiet_createReal listed.old others)⟩

theorem emulateRemote_stable (h : w.WellFormed) (listed : w.RemotesListed)
    (name osc ipPort : QString) :
    Ends (fun _ => True) (emulateRemote w name osc ipPort) fun p => Stable True w p.2 := by
  unfold emulateRemote
  split
  · exact .refl True w
  · rename_i new
    have free : name ∉ (w.children .remoteList).map w.nameOf := by
      intro taken
      obtain ⟨c, member, named⟩ := List.mem_map.mp taken
      obtain ⟨r, inside, rfl⟩ := mem_children_remoteList.mp member
      apply new
      rw [List.any_eq_true]
      exact ⟨r, inside, by simpa using .inl named⟩
    refine (createEmulated_arrival (drives_birthScope w) (h.covers_scope _ _) name osc ipPort).bind
      fun p arrival => ?_
    have stable := Stable.of_birth (birth_of_arrival listed.old arrival) rfl free within_scope_some
    refine ⟨stable.listed, stable.net, fun _ => stable.remotes ?_⟩
    rintro r rfl ⟨⟨isReal, -, -⟩, -⟩
    simp [create] at isReal

end RemoteList

end VoxPopuli
