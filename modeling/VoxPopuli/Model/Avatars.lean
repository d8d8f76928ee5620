import VoxPopuli.Model.Creation

/-! # The avatars of a group

A group is resized by its `avatarsNbr`: avatars are created one after the other
under the next names, or the last ones are removed. The links and what the groups
cache of them stay as they are.
-/

namespace VoxPopuli

open World

variable {F : Footprint} {w w' : World}

/-! ## Avatars -/

theorem mem_groupKeys_succ {avatars : Nat} {k : QString} :
    k ∈ groupKeys (avatars + 1) ↔ k ∈ groupKeys avatars ∨ k = avatarName avatars := by
  simp only [groupKeys, List.range_succ, List.map_append, List.mem_append, List.map_cons,
    List.map_nil, List.mem_singleton, or_assoc]

namespace World

section Avatars

variable {g global n : Nat} {avatars : List Nat}

/-- A new avatar, which alone has been written to, joins the others. -/
theorem GroupOk.extend (ok : w.GroupOk g global avatars) (kept : Keeps F w w')
    (notified : ∀ m, .member g m ∈ F.notified → m = n)
    (rewritten : ∀ m, .member g m ∈ F.rewritten → m = n) (new : n ∉ global :: avatars)
    (old : n < w.fresh) (name : w.vRemoteName (.member g n) = avatarName avatars.length)
    (listed : (w'.json (.group g)).contains (avatarName avatars.length))
    (otherID : w'.get (.vRemote (.member g n)) "RemoteID" = none) :
    ({ w' with
      virtualRemotes := Function.update w'.virtualRemotes g
        (w'.virtualRemotes g ++ [some (.member g n)]) } : World).GroupOk g global
      (avatars ++ [n]) where
  globalRemote := by
    simp only [kept.roster]
    exact ok.globalRemote
  globalName := by
    simp only [kept.roster]
    exact ok.globalName
  virtualRemotes := by
    simp only [Function.update_self, List.map_append, kept.roster, ok.virtualRemotes]
    rfl
  names := by
    simp only [kept.roster, List.map_append, ok.names, List.length_append, List.length_singleton,
      List.range_succ, List.map_cons, List.map_nil, name]
  nodup := by
    rw [← List.cons_append]
    refine List.nodup_append.mpr ⟨ok.nodup, by simp, ?_⟩
    rintro m member m' single rfl
    rw [List.mem_singleton.mp single] at member
    exact new member
  old m member := by
    simp only [kept.roster]
    rw [← List.cons_append] at member
    rcases List.mem_append.mp member with before | single
    · exact ok.old m before
    · rw [List.mem_singleton.mp single]
      exact old
  sorted := kept.sorted g ok.sorted
  keys k := by
    simp only [List.length_append, List.length_singleton]
    rw [mem_groupKeys_succ]
    constructor
    · intro there
      by_contra extra
      obtain ⟨extra, other⟩ := not_or.mp extra
      have absent : (w.json (.group g)).contains k = false := by
        simpa using mt (ok.keys k).mp extra
      have same := kept.groupValue g k
        (by rintro rfl; exact extra (by simp [groupKeys]))
        (by rintro rfl; exact absurd (by simp [groupKeys]) extra)
        (by
          intro m inside named
          rw [notified m inside, name] at named
          exact other named.symm)
      unfold QJsonObject.contains at there absent
      rw [same, absent] at there
      cases there
    · rintro (before | rfl)
      · exact kept.groupKeys g k ((ok.keys k).mpr before)
      · exact listed
  otherID m member := by
    rcases List.mem_append.mp member with before | single
    · have outside : VRef.member g m ∉ F.rewritten := by
        intro inside
        rw [rewritten m inside] at before
        exact new (List.mem_cons_of_mem _ before)
      exact (kept.otherID _ outside).trans (ok.otherID m before)
    · rw [List.mem_singleton.mp single]
      exact otherID

/-- The last avatar leaves, and with it its key. -/
theorem GroupOk.shrink (ok : w.GroupOk g global (avatars ++ [n])) :
    ({ w.setJson (.group g)
        ((w.json (.group g)).remove (w.nameOf (.vRemote (.member g n)))) with
      virtualRemotes := Function.update w.virtualRemotes g (w.virtualRemotes g).dropLast
      } : World).GroupOk g global avatars := by
  have names := ok.names
  simp only [List.map_append, List.length_append, List.length_singleton, List.range_succ,
    List.map_cons, List.map_nil] at names
  obtain ⟨before, last⟩ := List.append_inj names (by simp)
  have name : w.vRemoteName (.member g n) = avatarName avatars.length := by simpa using last
  have fewer : (global :: avatars).Sublist (global :: (avatars ++ [n])) :=
    (List.sublist_append_left avatars [n]).cons_cons global
  refine ⟨ok.globalRemote, ok.globalName, ?_, before, ok.nodup.sublist fewer, ?_, ?_, ?_, ?_⟩
  · simp [ok.virtualRemotes]
  · exact fun m member => ok.old m (fewer.subset member)
  · simp only [setJson, Function.update_self]
    exact Assoc.erase_sorted _ ok.sorted
  · intro k
    have keys := ok.keys k
    have fresh : avatarName avatars.length ∉ groupKeys avatars.length := by
      have nodup := nodup_groupKeys (avatars.length + 1)
      rw [groupKeys, List.range_succ, List.map_append, ← List.append_assoc] at nodup
      have apart := (List.nodup_append.mp nodup).2.2
      exact fun member => apart _ member _ (by simp) rfl
    simp only [List.length_append, List.length_singleton, mem_groupKeys_succ] at keys
    simp only [setJson, Function.update_self, nameOf, name]
    by_cases same : k = avatarName avatars.length
    · subst same
      simp [QJsonObject.contains, fresh]
    · rw [QJsonObject.contains, QJsonObject.value_remove_of_ne _ same, ← QJsonObject.contains]
      simpa [same] using keys
  · intro m member
    have other : w.get (.vRemote (.member g m)) "RemoteID" = none :=
      ok.otherID m (List.mem_append_left _ member)
    simpa [get, setJson] using other

end Avatars

end World

namespace VirtualGroup

variable {g global n : Nat} {avatars : List Nat}

/-- What a resize of one group leaves alone. -/
structure Resized (g : Nat) (w w' : World) : Prop where
  registered : w.Registered → w'.Registered
  elements : w.Registered → ∀ n, w'.IsElement n → w.IsElement n ∧ w'.nameOf n = w.nameOf n
  others : ∀ g' global avatars, g' ≠ g → w.GroupOk g' global avatars →
    w'.GroupOk g' global avatars
  sameLinks : SameLinks w w'

theorem Resized.refl (g : Nat) (w : World) : Resized g w w :=
  ⟨id, fun _ _ element => ⟨element, rfl⟩, fun _ _ _ _ => id, .refl w⟩

theorem Resized.trans {w'' : World} (h : Resized g w w') (h' : Resized g w' w'') :
    Resized g w w'' where
  registered := h'.registered ∘ h.registered
  elements ok n element := by
    obtain ⟨element, name'⟩ := h'.elements (h.registered ok) n element
    obtain ⟨element, name⟩ := h.elements ok n element
    exact ⟨element, name'.trans name⟩
  others g' global avatars other := h'.others g' global avatars other ∘ h.others g' global avatars other
  sameLinks := h.sameLinks.trans h'.sameLinks

theorem Resized.create_vRemote {v : VRef} (new : v.New w) (name : QString) :
    Resized g w (VirtualRemote.create w v name) where
  registered h := h.create_vRemote new name
  elements h n element := by
    obtain ⟨g', inside, rfl⟩ | ⟨m, inside, rfl⟩ := element.node
    · exact ⟨inside, rfl⟩
    · exact ⟨inside, Function.update_of_ne (new.ne_free (h.vRemotesOld m inside)) _ _⟩
  others _ _ _ _ ok := ok.create_vRemote new name
  sameLinks := .create_vRemote v name

theorem Resized.of_keeps (kept : Keeps F w w') (inside : ∀ g' n, .member g' n ∈ F.notified → g' = g)
    (inside' : ∀ g' n, .member g' n ∈ F.rewritten → g' = g) (refreshed : ∀ g, g ∉ F.refreshed)
    (names : ∀ n, .member g n ∈ F.notified → w.vRemoteName (.member g n) ≠ "slavesNbr") :
    Resized g w w' where
  registered h := h.keeps kept
  elements _ _ := kept.isElement
  others g' _ _ other ok :=
    ok.keeps kept (fun n notified => absurd (inside g' n notified) other)
      fun n _ rewritten => other (inside' g' n rewritten)
  sameLinks := kept.sameLinks (fun g _ => refreshed g) (by
    intro g' _ n notified
    obtain rfl := inside g' n notified
    exact names n notified)

/-- Members of the group and copies of JSON into its ancestors are all that changes. -/
theorem Resized.touch {json : NodeRef → QJsonObject} {subnodes : NodeRef → List NodeRef}
    {globalRemote : Nat → Option VRef} {virtualRemotes : Nat → List (Option VRef)}
    (others : ∀ n, n ≠ .group g → n ∉ (NodeRef.group g).ancestors → json n = w.json n)
    (netKeys : ∀ k, (w.json .virtualNet).contains k → (json .virtualNet).contains k)
    (slavesNbr : g ∈ w.vGroups →
      (json (.group g)).value "slavesNbr" = w.get (.group g) "slavesNbr")
    (globals : ∀ g' ≠ g, globalRemote g' = w.globalRemote g')
    (avatars : ∀ g' ≠ g, virtualRemotes g' = w.virtualRemotes g') :
    Resized g w { w with
      json := json, subnodes := subnodes
      globalRemote := globalRemote, virtualRemotes := virtualRemotes } where
  registered h := h.fewer rfl (fun _ => .refl _) (.refl _) (.refl _) le_rfl (fun _ _ => rfl)
    fun _ _ there => netKeys _ there
  elements _ n element := by
    obtain ⟨g', inside, rfl⟩ | ⟨m, inside, rfl⟩ := element.node
    · exact ⟨inside, rfl⟩
    · exact ⟨inside, rfl⟩
  others g' _ _ other ok :=
    ok.congr (globals g' other) (avatars g' other) (fun _ _ => rfl) le_rfl
      (others _ (by simpa using other) (by simp [NodeRef.ancestors]))
      fun _ _ => others _ (by simp) (by simp [NodeRef.ancestors])
  sameLinks := by
    refine ⟨rfl, rfl, rfl, fun _ _ => rfl, fun _ _ => rfl, fun g' inside => ?_⟩
    by_cases own : g' = g
    · subst own
      exact slavesNbr inside
    · have same : json (.group g') = w.json (.group g') :=
        others _ (by simpa using own) (by simp [NodeRef.ancestors])
      exact congrArg (fun o => o.value "slavesNbr") same

/-- The other groups are well-formed if they were before. -/
theorem Resized.wellFormed (resized : Resized g w w') (h : w.WellFormed)
    (own : g ∈ w.vGroups → ∃ global avatars, w'.GroupOk g global avatars) : w'.WellFormed where
  toRegistered := resized.registered h.toRegistered
  groups g' inside := by
    rw [resized.sameLinks.vGroups] at inside
    by_cases same : g' = g
    · subst same
      exact own inside
    · obtain ⟨global, avatars, ok⟩ := h.groups g' inside
      exact ⟨global, avatars, resized.others g' global avatars same ok⟩

theorem toInt?_avatarName {i : Nat} (small : (i : Int) + 1 < 2 ^ 31) :
    QString.toInt? (QString.mid (avatarName i) 6) = some ((i : Int) + 1) := by
  have number : QString.mid (avatarName i) 6 = QString.ofNat (i + 1) := rfl
  rw [number, QString.toInt?_ofNat (by push_cast; exact small)]
  push_cast
  rfl

/-- The name of a virtual remote gives it a place in a group. -/
def Numbered (name : QString) : Prop :=
  name.head? = some ('G' : QChar) ∨ (QString.toInt? (QString.mid name 6)).isSome

theorem numbered_avatarName {i : Nat} (small : (i : Int) + 1 < 2 ^ 31) :
    Numbered (avatarName i) := by
  refine .inr ?_
  rw [toInt?_avatarName small]
  rfl

/-- Only one virtual remote is written. -/
def alone (v : VRef) : Footprint where
  notified := {v}
  edited := {v}
  rewritten := {v}

/-- The avatar which is created next. -/
theorem createSubNode_ends (ok : w.GroupOk g global avatars)
    (small : (avatars.length : Int) + 1 < 2 ^ 31) :
    Ends w.MayFail (createSubNode w g (avatarName avatars.length)
        (VirtualRemote.createVirtualRemoteJSon.insert "remoteID" (.double (-1)))) fun p =>
      p.2.GroupOk g global (avatars ++ [w.fresh]) ∧ Resized g w p.2 := by
  have new : (VRef.member g w.fresh).New w := .inr ⟨g, rfl⟩
  have prefixed : ("Remote" : QString) <+: avatarName avatars.length := List.prefix_append ..
  have head : (avatarName avatars.length).head? ≠ some ('G' : QChar) := by
    rw [head?_avatarName]
    decide
  have unused : w.fresh ∉ global :: avatars := fun member => (ok.old _ member).ne rfl
  rw [createSubNode, if_pos (Or.inr prefixed)]
  dsimp only
  have ok₀ := ok.create_vRemote new (avatarName avatars.length)
  have resized₀ : Resized g w _ := .create_vRemote new (avatarName avatars.length)
  have name₀ : (VirtualRemote.create w (.member g w.fresh) (avatarName avatars.length)).vRemoteName
      (.member g w.fresh) = avatarName avatars.length := Function.update_self ..
  have fresh₀ : w.fresh < (VirtualRemote.create w (.member g w.fresh)
      (avatarName avatars.length)).fresh := Nat.lt_succ_self _
  have mayFail₀ : (VirtualRemote.create w (.member g w.fresh)
      (avatarName avatars.length)).MayFail = w.MayFail := rfl
  generalize VirtualRemote.create w (.member g w.fresh) (avatarName avatars.length) = w₀ at *
  have populated := VirtualRemote.populate_ends (F := alone (.member g w.fresh)) (w := w₀) rfl rfl rfl
    (VirtualRemote.document_createVirtualRemoteJSon.insert "remoteID" (-1))
    (name₀ ▸ avatarName_solid avatars.length)
  rw [mayFail₀] at populated
  apply populated.bind
  rintro ⟨created, w₁⟩ ⟨done, kept, json, listed⟩
  dsimp only at done kept json listed
  subst done
  simp only [Bool.not_true, Bool.false_eq_true, if_false, if_neg head]
  rw [toInt?_avatarName small]
  have own : ∀ g' m, VRef.member g' m ∈ (alone (.member g w.fresh)).notified → g' = g ∧ m = w.fresh := by
    intro g' m same
    cases same
    exact ⟨rfl, rfl⟩
  have list : w₁.virtualRemotes g = avatars.map fun n => some (.member g n) := by
    rw [kept.roster]
    exact ok₀.virtualRemotes
  have set : setVirtualRemote w₁ g ((avatars.length : Int) + 1) (.member g w.fresh) =
      .ok { w₁ with
        virtualRemotes := Function.update w₁.virtualRemotes g
          (w₁.virtualRemotes g ++ [some (.member g w.fresh)]) } := by
    have number : ((avatars.length : Int) + 1).toNat = avatars.length + 1 := by omega
    have length : (w₁.virtualRemotes g).length = avatars.length := by simp [list]
    have room : avatars.length + 1 - avatars.length = 1 := by omega
    rw [setVirtualRemote, if_pos (by omega)]
    simp only [number, length, room, List.replicate_one, Nat.add_sub_cancel]
    rw [List.set_append_right _ _ length.le, length, Nat.sub_self]
    rfl
  dsimp only
  rw [set]
  refine ⟨ok₀.extend kept (fun m same => (own g m same).2) (fun m same => (own g m same).2) unused
    fresh₀ name₀ (name₀ ▸ listed) ?_, ?_⟩
  · have value : (w₁.json (.vRemote (.member g w.fresh))).value "RemoteID" = none := by
      rw [json]
      decide
    exact value
  · have joined : Resized g w₁ { w₁ with
        virtualRemotes := Function.update w₁.virtualRemotes g
          (w₁.virtualRemotes g ++ [some (.member g w.fresh)]) } :=
      .touch (fun _ _ _ => rfl) (fun _ => id) (fun _ => rfl) (fun _ _ => rfl)
        fun g' other => Function.update_of_ne other _ _
    refine resized₀.trans (Resized.trans (.of_keeps kept (fun g' n same => (own g' n same).1)
      (fun g' n same => (own g' n same).1) (fun _ => id) ?_) joined)
    intro n same
    rw [(own g n same).2, name₀]
    exact (avatarName_ne _).2.2

/-- The name of the next avatar, as `setVirtualRemotesNbr` counts when `delta` more follow it. -/
theorem next_avatarName {count delta : Nat} {nbr : Int} (sum : nbr = count + (delta + 1 : Nat)) :
    ("Remote" : QString) ++ QString.ofInt (nbr - (delta + 1 : Nat) + 1) = avatarName count := by
  have number : nbr - (delta + 1 : Nat) + 1 = ((count + 1 : Nat) : Int) := by
    push_cast at sum ⊢
    omega
  rw [number]
  rfl

theorem addVirtualRemotes_ends (ok : w.GroupOk g global avatars) {nbr : Int} {delta : Nat}
    (sum : nbr = avatars.length + delta) (small : nbr < 2 ^ 31) :
    Ends w.MayFail (addVirtualRemotes w g nbr delta) fun w' =>
      (∃ more, w'.GroupOk g global (avatars ++ more) ∧ more.length = delta) ∧ Resized g w w' := by
  induction delta generalizing w avatars with
  | zero =>
      refine ⟨⟨[], ?_, rfl⟩, .refl g w⟩
      rwa [List.append_nil]
  | succ delta ih =>
      have name := next_avatarName sum
      have next := createSubNode_ends ok (by omega)
      rw [← name] at next
      apply next.bind
      rintro ⟨created, w₁⟩ ⟨ok₁, resized⟩
      dsimp only at ok₁ resized ⊢
      have mayFail : w₁.MayFail = w.MayFail := by
        unfold MayFail
        rw [resized.sameLinks.mutex]
      have rest := ih ok₁ (by
        simp only [List.length_append, List.length_singleton]
        push_cast at sum ⊢
        omega)
      rw [mayFail] at rest
      apply rest.mono
      rintro w₂ ⟨⟨more, ok₂, length⟩, resized'⟩
      refine ⟨⟨w.fresh :: more, ?_, by rw [List.length_cons, length]⟩, resized.trans resized'⟩
      rwa [List.append_assoc] at ok₂

/-- The last avatar is removed. -/
theorem remove_last (ok : w.GroupOk g global (avatars ++ [n])) :
    GroupOk { w.removeSubNode (.group g) (.vRemote (.member g n)) with
        virtualRemotes := Function.update w.virtualRemotes g (w.virtualRemotes g).dropLast } g global
          avatars ∧
      Resized g w { w.removeSubNode (.group g) (.vRemote (.member g n)) with
        virtualRemotes := Function.update w.virtualRemotes g (w.virtualRemotes g).dropLast } := by
  have name : w.vRemoteName (.member g n) ≠ "slavesNbr" := by
    have names := ok.names
    have member := List.mem_map_of_mem (f := fun n => w.vRemoteName (.member g n))
      (List.mem_append_right avatars (List.mem_singleton_self n))
    rw [names] at member
    obtain ⟨i, -, same⟩ := List.mem_map.mp member
    rw [← same]
    exact (avatarName_ne i).2.2
  have shrunk := ok.shrink
  have erased : ∀ n', n' ≠ .group g → ((w.setJson (.group g)
      ((w.json (.group g)).remove (w.nameOf (.vRemote (.member g n))))).setSubnodes (.group g)
        ((w.subnodes (.group g)).erase (.vRemote (.member g n)))).json n' = w.json n' := by
    intro n' other
    simp [setJson, other]
  have netKeys := (keeps_updateParentJSon (F := {}) (w := (w.setJson (.group g)
    ((w.json (.group g)).remove (w.nameOf (.vRemote (.member g n))))).setSubnodes (.group g)
      ((w.subnodes (.group g)).erase (.vRemote (.member g n)))) (n := .group g) trivial).netKeys
  rw [removeSubNode]
  obtain ⟨json, same, outside⟩ := mirror_frame ((w.setJson (.group g)
    ((w.json (.group g)).remove (w.nameOf (.vRemote (.member g n))))).setSubnodes (.group g)
      ((w.subnodes (.group g)).erase (.vRemote (.member g n)))) (.group g)
        (NodeRef.group g).ancestors
  rw [updateParentJSon] at netKeys ⊢
  rw [same] at netKeys ⊢
  have kept : ∀ n', n' ∉ (NodeRef.group g).ancestors → json n' = _ := outside
  refine ⟨shrunk.congr rfl rfl (fun _ _ => rfl) le_rfl (kept _ (by simp [NodeRef.ancestors]))
    fun m _ => kept _ (by simp [NodeRef.ancestors]), ?_⟩
  refine .touch ?_ ?_ ?_ (fun _ _ => rfl) fun g' other => Function.update_of_ne other _ _
  · exact fun n' other apart => (kept n' apart).trans (erased n' other)
  · intro k there
    refine netKeys k ?_
    rw [erased .virtualNet (by simp)]
    exact there
  · intro _
    have value := congrArg (fun o => o.value "slavesNbr")
      (kept (.group g) (by simp [NodeRef.ancestors]))
    refine Eq.trans value ?_
    simp [setJson, nameOf, World.get, name.symm]

theorem removeVirtualRemotes_ends (ok : w.GroupOk g global avatars) (delta : Nat) :
    Ends w.MayFail (removeVirtualRemotes w g delta) fun w' =>
      (∃ fewer gone, avatars = fewer ++ gone ∧ gone.length = delta ∧ w'.GroupOk g global fewer) ∧
        Resized g w w' := by
  induction delta generalizing w avatars with
  | zero => exact ⟨⟨avatars, [], (List.append_nil _).symm, rfl, ok⟩, .refl g w⟩
  | succ delta ih =>
      rw [removeVirtualRemotes, ok.virtualRemotes]
      rcases List.eq_nil_or_concat avatars with rfl | ⟨fewer, n, rfl⟩
      · exact nofun
      · rw [List.concat_eq_append] at ok ⊢
        rw [List.map_append, List.map_singleton, List.getLast?_concat]
        obtain ⟨ok₁, resized⟩ := remove_last ok
        have rest := ih ok₁
        refine Ends.mono (show Ends w.MayFail _ _ from rest) ?_
        rintro w₂ ⟨⟨fewer', gone, rfl, length, ok₂⟩, resized'⟩
        refine ⟨⟨fewer', gone ++ [n], List.append_assoc .., ?_, ok₂⟩, resized.trans resized'⟩
        rw [List.length_append, length, List.length_singleton]

/-- A group is given as many avatars as asked for, if it is not asked for fewer than none. -/
theorem setVirtualRemotesNbr_ends (ok : w.GroupOk g global avatars) {nbr : Int}
    (small : nbr < 2 ^ 31) :
    Ends w.MayFail (setVirtualRemotesNbr w g nbr) fun w' =>
      (∃ avatars', w'.GroupOk g global avatars' ∧ (avatars'.length : Int) = nbr) ∧ Resized g w w' := by
  have count := ok.length_json
  rw [setVirtualRemotesNbr]
  dsimp only
  rw [if_neg (by omega), count]
  split
  · rename_i more
    push_cast at more ⊢
    have sum : nbr = avatars.length + ((nbr - (3 + avatars.length) + 3).toNat : Int) := by omega
    apply (addVirtualRemotes_ends ok sum small).mono
    rintro w' ⟨⟨added, ok', length⟩, resized⟩
    refine ⟨⟨_, ok', ?_⟩, resized⟩
    rw [List.length_append, length]
    push_cast
    omega
  · rename_i less
    push_cast at less ⊢
    apply (removeVirtualRemotes_ends ok _).mono
    rintro w' ⟨⟨fewer, gone, rfl, length, ok'⟩, resized⟩
    refine ⟨⟨fewer, ok', ?_⟩, resized⟩
    rw [List.length_append] at less length
    push_cast at less length ⊢
    omega

theorem setValue_ends (ok : w.GroupOk g global avatars) (name value : QString) :
    Ends w.MayFail (setValue w g name value) fun p =>
      (∃ avatars, p.2.GroupOk g global avatars) ∧ Resized g w p.2 := by
  rw [setValue]
  split
  · rename_i avatarsNbr
    subst avatarsNbr
    cases number : value.toInt? with
    | none => exact ⟨⟨avatars, ok⟩, .refl g w⟩
    | some nbr =>
        have small : nbr < 2 ^ 31 := by
          have range := (Option.filter_eq_some_iff.mp number).2
          have range := of_decide_eq_true range
          exact range.2
        apply (setVirtualRemotesNbr_ends ok small).bind
        rintro w' ⟨⟨avatars', ok', -⟩, resized⟩
        have kept : Keeps {} w' (w'.setNumber (.group g) "avatarsNbr" nbr).2 :=
          keeps_setNumber (n := .group g) trivial (Or.inl rfl) _
        refine ⟨⟨avatars', ok'.keeps kept (fun _ => False.elim) fun _ _ => id⟩, ?_⟩
        exact resized.trans (.of_keeps kept (fun _ _ => False.elim) (fun _ _ => False.elim)
          (fun _ => id) fun _ => False.elim)
  · exact ⟨⟨avatars, ok⟩, .refl g w⟩

end VirtualGroup

end VoxPopuli
