import VoxPopuli.Model.Avatars
import VoxPopuli.Model.Caches

/-! # New elements

Groups and free virtual remotes are created under names which are not taken yet. The
state stays well-formed, a new group starts with the slaves which the patch has for its
name, and what the others cache is left alone.
-/

namespace VoxPopuli

open World

variable {F : Footprint} {w w' w'' : World}

/-! ## Names -/

/-- There are more numbers to try than there are names. -/
theorem exists_free (taken : QStringList) (base : QString) :
    ∃ n ∈ List.range' 1 (taken.length + 1), base ++ QString.ofNat n ∉ taken := by
  by_contra none
  push Not at none
  have nodup : ((List.range' 1 (taken.length + 1)).map fun n => base ++ QString.ofNat n).Nodup :=
    List.Nodup.map (fun m n same => QString.ofNat_injective (List.append_cancel_left same))
      List.nodup_range'
  have inside : (List.range' 1 (taken.length + 1)).map (fun n => base ++ QString.ofNat n) ⊆
      taken := by
    intro k member
    obtain ⟨n, number, rfl⟩ := List.mem_map.mp member
    exact none n number
  have fewer := (nodup.subperm inside).length_le
  simp only [List.length_map, List.length_range'] at fewer
  omega

/-- The number of a free name is the least one which makes a name that is not taken. -/
theorem freeName_least (taken : QStringList) (base : QString) :
    ∃ n, freeName taken base = base ++ QString.ofNat n ∧ (1 ≤ n ∧ n ≤ taken.length + 1) ∧
      base ++ QString.ofNat n ∉ taken ∧
        ∀ m, 1 ≤ m → m < n → base ++ QString.ofNat m ∈ taken := by
  obtain ⟨n, number, free⟩ := exists_free taken base
  cases search : (List.range' 1 (taken.length + 1)).find? fun n =>
      base ++ QString.ofNat n ∉ taken with
  | none => exact absurd (decide_eq_true free) (List.find?_eq_none.mp search n number)
  | some m =>
      have name : freeName taken base = base ++ QString.ofNat m := by rw [freeName, search]; rfl
      obtain ⟨new, range, first⟩ := List.find?_range'_eq_some.mp search
      rw [List.mem_range'_1] at range
      exact ⟨m, name, by omega, by simpa using new, fun k low high => by simpa using first k low high⟩

/-- A free name has a blank only if its base has one. -/
theorem freeName_solid (taken : QStringList) {base : QString} (solid : (' ' : QChar) ∉ base) :
    (' ' : QChar) ∉ freeName taken base := by
  rw [freeName, List.mem_append, not_or]
  exact ⟨solid, solid_ofNat _⟩

theorem freeName_not_mem (taken : QStringList) (base : QString) : freeName taken base ∉ taken := by
  obtain ⟨n, name, -, free, -⟩ := freeName_least taken base
  rw [name]
  exact free

/-- The name under which an element is created is not taken. -/
theorem not_contains_chosen {o : QJsonObject} {name : QString} (free : ¬o.contains name)
    (base : QString) : ¬o.contains (if name = "" then freeName o.keys base else name) := by
  split
  · rw [QJsonObject.contains_iff]
    exact freeName_not_mem _ _
  · exact free

/-! ## Elements which join -/

namespace World

/-- A node joins the elements. -/
theorem Registered.join (h : w.Registered) {e : NodeRef} {vRemotes vGroups : List Nat}
    (elements : ∀ n, IsElement { w with vRemotes := vRemotes, vGroups := vGroups } n →
      w.IsElement n ∨ n = e)
    (groupsNodup : vGroups.Nodup) (vRemotesNodup : vRemotes.Nodup)
    (groupsOld : ∀ g ∈ vGroups, g < w.fresh) (vRemotesOld : ∀ n ∈ vRemotes, n < w.fresh)
    (free : ∀ n, w.IsElement n → w.nameOf n ≠ w.nameOf e)
    (listed : (w.json .virtualNet).contains (w.nameOf e)) :
    Registered { w with vRemotes := vRemotes, vGroups := vGroups } := by
  have names : ∀ n, World.nameOf { w with vRemotes := vRemotes, vGroups := vGroups } n =
      w.nameOf n := by
    intro n
    cases n <;> rfl
  refine ⟨h.tidy, h.slaves, groupsNodup, vRemotesNodup, groupsOld, vRemotesOld, ?_, ?_⟩
  · intro n n' element element' same
    rw [names, names] at same
    rcases elements n element with old | rfl
    · rcases elements n' element' with old' | rfl
      · exact h.names n n' old old' same
      · exact absurd same (free n old)
    · rcases elements n' element' with old' | rfl
      · exact absurd same.symm (free n' old')
      · rfl
  · intro n element
    rw [names]
    rcases elements n element with old | rfl
    · exact h.netKeys n old
    · exact listed

variable {n g : Nat}

theorem WellFormed.join_vRemote (h : w.WellFormed) (new : n ∉ w.vRemotes) (old : n < w.fresh)
    (free : ∀ n', w.IsElement n' → w.nameOf n' ≠ w.vRemoteName (.free n))
    (listed : (w.json .virtualNet).contains (w.vRemoteName (.free n))) :
    WellFormed { w with vRemotes := w.vRemotes ++ [n] } where
  toRegistered := by
    refine h.toRegistered.join (e := .vRemote (.free n)) ?_ h.groupsNodup ?_ h.groupsOld ?_ free listed
    · intro n' element
      obtain ⟨g, inside, rfl⟩ | ⟨m, inside, rfl⟩ := element.node
      · exact .inl inside
      · exact (List.mem_append.mp inside).imp_right fun single => by
          rw [List.mem_singleton.mp single]
    · exact List.concat_eq_append ▸ h.vRemotesNodup.concat new
    · intro m member
      rcases List.mem_append.mp member with before | single
      · exact h.vRemotesOld m before
      · exact List.mem_singleton.mp single ▸ old
  groups g inside := by
    obtain ⟨global, avatars, ok⟩ := h.groups g inside
    exact ⟨global, avatars, ok.congr rfl rfl (fun _ _ => rfl) le_rfl rfl fun _ _ => rfl⟩

theorem WellFormed.join_group (h : w.WellFormed) {global : Nat} (ok : w.GroupOk g global [])
    (new : g ∉ w.vGroups) (old : g < w.fresh)
    (free : ∀ n', w.IsElement n' → w.nameOf n' ≠ w.groupName g)
    (listed : (w.json .virtualNet).contains (w.groupName g)) :
    WellFormed { w with vGroups := w.vGroups ++ [g] } where
  toRegistered := by
    refine h.toRegistered.join (e := .group g) ?_ ?_ h.vRemotesNodup ?_ h.vRemotesOld free listed
    · intro n' element
      obtain ⟨g', inside, rfl⟩ | ⟨m, inside, rfl⟩ := element.node
      · exact (List.mem_append.mp inside).imp_right fun single => by
          rw [List.mem_singleton.mp single]
      · exact .inl inside
    · exact List.concat_eq_append ▸ h.groupsNodup.concat new
    · intro g' member
      rcases List.mem_append.mp member with before | single
      · exact h.groupsOld g' before
      · exact List.mem_singleton.mp single ▸ old
  groups g' inside := by
    rcases List.mem_append.mp inside with before | single
    · obtain ⟨global, avatars, ok⟩ := h.groups g' before
      exact ⟨global, avatars, ok.congr rfl rfl (fun _ _ => rfl) le_rfl rfl fun _ _ => rfl⟩
    · rw [List.mem_singleton.mp single]
      exact ⟨global, [], ok.congr rfl rfl (fun _ _ => rfl) le_rfl rfl fun _ _ => rfl⟩

/-! ## A new group -/

theorem Registered.create_group (h : w.Registered) (name : QString) :
    (VirtualGroup.create w w.fresh name).Registered := by
  refine h.fewer rfl ?_ (.refl _) (.refl _) (Nat.le_succ _) ?_ fun n _ there => ?_
  · intro g'
    by_cases own : g' = w.fresh
    · simp [VirtualGroup.create, own]
    · simp [VirtualGroup.create, own]
  · intro n element
    obtain ⟨g', inside, rfl⟩ | ⟨m, -, rfl⟩ := element.node
    · exact Function.update_of_ne (h.groupsOld g' inside).ne _ _
    · rfl
  · simpa [VirtualGroup.create] using there

theorem GroupOk.create_group {global : Nat} {avatars : List Nat} (ok : w.GroupOk g global avatars)
    (old : g < w.fresh) (name : QString) :
    (VirtualGroup.create w w.fresh name).GroupOk g global avatars := by
  refine ok.congr (Function.update_of_ne old.ne _ _) (Function.update_of_ne old.ne _ _)
    (fun _ _ => rfl) (Nat.le_succ _) ?_ fun m _ => ?_
  · simp [VirtualGroup.create, old.ne]
  · simp [VirtualGroup.create]

theorem WellFormed.create_group (h : w.WellFormed) (name : QString) :
    (VirtualGroup.create w w.fresh name).WellFormed where
  toRegistered := h.toRegistered.create_group name
  groups g' inside := by
    obtain ⟨global, avatars, ok⟩ := h.groups g' inside
    exact ⟨global, avatars, ok.create_group (h.groupsOld g' inside) name⟩

theorem SameLinks.create_group (h : w.Registered) (name : QString) :
    SameLinks w (VirtualGroup.create w w.fresh name) := by
  have other : ∀ g' ∈ w.vGroups, g' ≠ w.fresh := fun g' inside => (h.groupsOld g' inside).ne
  refine ⟨rfl, rfl, rfl, ?_, ?_, ?_⟩
  · exact fun g' inside => Function.update_of_ne (other g' inside) _ _
  · exact fun g' inside => Function.update_of_ne (other g' inside) _ _
  · intro g' inside
    simp [World.get, VirtualGroup.create, other g' inside]

end World

namespace VirtualGroup

variable {g global : Nat}

theorem createGroupJSon_eq : createGroupJSon =
    ([("GlobalRemote", .object VirtualRemote.createVirtualRemoteJSon), ("avatarsNbr", .double 0),
      ("slavesNbr", .double 0)] : QJsonObject) := rfl

theorem keys_createGroupJSon (k : QString) : createGroupJSon.contains k ↔ k ∈ groupKeys 0 := by
  rw [QJsonObject.contains_iff]
  exact Iff.rfl

/-- What a new group has when its members have been created. -/
structure Populated (g : Nat) (w w' : World) : Prop where
  resized : Resized g w w'
  globalRemote : w'.globalRemote g = some (.member g w.fresh)
  globalName : w'.vRemoteName (.member g w.fresh) = "GlobalRemote"
  virtualRemotes : w'.virtualRemotes g = w.virtualRemotes g
  slaves : w'.slaves g = w.slaves g
  groupName : w'.groupName = w.groupName
  fresh : w'.fresh = w.fresh + 1

/-- The global remote of a new group is created first. -/
theorem createGlobalRemote_ends (empty : w.json (.group g) = []) :
    Ends w.MayFail (createSubNode w g "GlobalRemote" VirtualRemote.createVirtualRemoteJSon) fun p =>
      p.1 = true ∧ Populated g w p.2 ∧ (p.2.json (.group g)).length < 3 := by
  have new : (VRef.member g w.fresh).New w := .inr ⟨g, rfl⟩
  rw [createSubNode, if_pos (Or.inl rfl)]
  dsimp only
  have resized₀ : Resized g w _ := .create_vRemote new "GlobalRemote"
  have empty₀ : (VirtualRemote.create w (.member g w.fresh) "GlobalRemote").json (.group g) = [] :=
    empty
  have name₀ : (VirtualRemote.create w (.member g w.fresh) "GlobalRemote").vRemoteName
      (.member g w.fresh) = "GlobalRemote" := Function.update_self ..
  have roster₀ : (VirtualRemote.create w (.member g w.fresh) "GlobalRemote").virtualRemotes g =
      w.virtualRemotes g ∧ (VirtualRemote.create w (.member g w.fresh) "GlobalRemote").slaves g =
        w.slaves g ∧ (VirtualRemote.create w (.member g w.fresh) "GlobalRemote").groupName =
          w.groupName ∧ (VirtualRemote.create w (.member g w.fresh) "GlobalRemote").fresh =
            w.fresh + 1 := ⟨rfl, rfl, rfl, rfl⟩
  have mayFail₀ : (VirtualRemote.create w (.member g w.fresh) "GlobalRemote").MayFail =
      w.MayFail := rfl
  generalize VirtualRemote.create w (.member g w.fresh) "GlobalRemote" = w₀ at *
  have populated := VirtualRemote.populate_ends (F := alone (.member g w.fresh)) (w := w₀) rfl rfl
    rfl VirtualRemote.document_createVirtualRemoteJSon (name₀ ▸ by decide)
  rw [mayFail₀] at populated
  apply populated.bind
  rintro ⟨created, w₁⟩ ⟨done, kept, -, -⟩
  dsimp only at done kept
  subst done
  have own : ∀ g' m, VRef.member g' m ∈ (alone (.member g w.fresh)).notified →
      g' = g ∧ m = w.fresh := by
    intro g' m same
    cases same
    exact ⟨rfl, rfl⟩
  obtain ⟨avatars₀, slaves₀, groupName₀, fresh₀⟩ := roster₀
  have resized₁ : Resized g w₀ w₁ := by
    refine .of_keeps kept (fun g' m same => (own g' m same).1) (fun g' m same => (own g' m same).1)
      (fun _ => id) fun m same => ?_
    rw [(own g m same).2, name₀]
    decide
  have touched : Resized g w₁ { w₁ with
      globalRemote := Function.update w₁.globalRemote g (some (.member g w.fresh)) } :=
    .touch (fun _ _ _ => rfl) (fun _ => id) (fun _ => rfl)
      (fun g' other => Function.update_of_ne other _ _) fun _ _ => rfl
  have count : (w₁.json (.group g)).length < 3 := by
    have keys : QJsonObject.keys (w₁.json (.group g)) ⊆ ["GlobalRemote", "avatarsNbr"] := by
      intro k listed
      by_contra other
      simp only [List.mem_cons, List.not_mem_nil, or_false, not_or] at other
      have same := kept.groupValue g k other.2 (fun _ => id) fun m inside named => by
        rw [(own g m inside).2, name₀] at named
        exact other.1 named.symm
      rw [← QJsonObject.contains_iff, QJsonObject.contains, same, empty₀] at listed
      cases listed
    have sorted := kept.sorted g (empty₀ ▸ List.Pairwise.nil)
    have fewer := ((QJsonObject.nodup_keys sorted).subperm keys).length_le
    simp only [QJsonObject.keys, List.length_map, List.length_cons, List.length_nil] at fewer
    omega
  have slaves₁ : w₁.slaves g = w₀.slaves g := kept.slaves g id
  refine ⟨rfl, ⟨resized₀.trans (resized₁.trans touched), Function.update_self .., ?_, ?_,
    slaves₁.trans slaves₀, ?_, ?_⟩, count⟩
  · simpa only [kept.roster] using name₀
  · simpa only [kept.roster] using avatars₀
  · simpa only [kept.roster] using groupName₀
  · simpa only [kept.roster] using fresh₀

/-- While a group has few members its avatars cannot be counted. -/
theorem keeps_setValue_few {name : QString}
    (few : name = "avatarsNbr" → (w.json (.group g)).length < 3) (value : QString) :
    Ends w.MayFail (setValue w g name value) fun p => Keeps {} w p.2 := by
  rw [setValue]
  split
  · rename_i avatarsNbr
    cases value.toInt? with
    | none => exact .refl _ w
    | some nbr =>
        have unchanged : setVirtualRemotesNbr w g nbr = .ok w := if_pos (few avatarsNbr)
        simp only [unchanged, avatarsNbr]
        exact keeps_setNumber (n := .group g) trivial (Or.inl rfl) _
  · exact .refl _ w

theorem Populated.keeps (h : Populated g w w') (kept : Keeps {} w' w'') : Populated g w w'' where
  resized := h.resized.trans (.of_keeps kept (fun _ _ => False.elim) (fun _ _ => False.elim)
    (fun _ => id) fun _ => False.elim)
  globalRemote := by
    rw [kept.roster]
    exact h.globalRemote
  globalName := by
    rw [kept.roster]
    exact h.globalName
  virtualRemotes := by
    rw [kept.roster]
    exact h.virtualRemotes
  slaves := (kept.slaves g id).trans h.slaves
  groupName := by
    rw [kept.roster]
    exact h.groupName
  fresh := by
    rw [kept.roster]
    exact h.fresh

theorem populateMembers_ends (empty : w.json (.group g) = []) :
    Ends w.MayFail (populateMembers (nodeClass g)
      (repopulate (nodeClass g) (.group g) stackDepth) w createGroupJSon) fun q =>
      q.1 = true ∧ Populated g w q.2 := by
  rw [createGroupJSon_eq, populateMembers]
  apply (createGlobalRemote_ends empty).bind
  rintro ⟨created, w₁⟩ ⟨done, populated₁, few⟩
  dsimp only at done populated₁ few
  subst done
  have mayFail₁ : w₁.MayFail = w.MayFail := by
    unfold MayFail
    rw [populated₁.resized.sameLinks.mutex]
  have number : Ends w₁.MayFail (setValue w₁ g "avatarsNbr" (QString.ofDouble 0)) fun p =>
      Keeps {} w₁ p.2 := keeps_setValue_few (fun _ => few) (QString.ofDouble 0)
  rw [mayFail₁] at number
  dsimp only
  rw [if_pos rfl, populateMembers]
  apply number.bind
  rintro ⟨e, w₂⟩ kept
  dsimp only at kept
  exact ⟨rfl, populated₁.keeps kept⟩

/-- A new group with a name which can be populated. -/
theorem populate_ends (new : g ∉ w.vGroups) (empty : w.json (.group g) = [])
    (solid : (' ' : QChar) ∉ w.groupName g) :
    Ends w.MayFail (populateNode (nodeClass g) w (.group g) createGroupJSon) fun q =>
      q.1 = true ∧ Populated g w q.2 ∧ q.2.json (.group g) = createGroupJSon ∧
        (q.2.json .virtualNet).contains (w.groupName g) := by
  apply (populateNode_ends (n := .group g) solid (populateMembers_ends empty)).mono
  rintro ⟨created, w₂⟩ ⟨done, w₁, populated, rfl⟩
  have name : w₁.groupName g = w.groupName g := congrFun populated.groupName g
  have outside : g ∉ w₁.vGroups := by
    rw [populated.resized.sameLinks.vGroups]
    exact new
  have stored : Resized g w₁ ((w₁.setJson (.group g) createGroupJSon).addSubNode .virtualNet
      (.group g)) := by
    refine .touch ?_ ?_ (fun inside => absurd inside outside) (fun _ _ => rfl) fun _ _ => rfl
    · intro n other apart
      simp only [NodeRef.ancestors, List.mem_cons, List.not_mem_nil, or_false, not_or] at apart
      simp [setJson, putJson, nameOf, other, apart]
    · intro k there
      simpa [setJson, putJson, nameOf] using contains_insert there
  have adopted : w₁.adopt (.group g) createGroupJSon =
      (w₁.setJson (.group g) createGroupJSon).addSubNode .virtualNet (.group g) := rfl
  rw [adopted]
  refine ⟨done, ⟨populated.resized.trans stored, populated.globalRemote, populated.globalName,
    populated.virtualRemotes, populated.slaves, populated.groupName, populated.fresh⟩, ?_, ?_⟩
  · simp [addSubNode, updateParentJSon, mirror, NodeRef.ancestors, putJson, setJson]
  · simp [addSubNode, updateParentJSon, mirror, NodeRef.ancestors, putJson, setJson, nameOf, name,
      QJsonObject.contains]

theorem Populated.groupOk (h : Populated g w w') (none : w.virtualRemotes g = [])
    (json : w'.json (.group g) = createGroupJSon) : w'.GroupOk g w.fresh [] where
  globalRemote := h.globalRemote
  globalName := h.globalName
  virtualRemotes := h.virtualRemotes.trans none
  names := rfl
  nodup := List.nodup_singleton _
  old n member := by
    rw [List.mem_singleton.mp member, h.fresh]
    exact Nat.lt_succ_self _
  sorted := by
    rw [json, createGroupJSon_eq, Assoc.Sorted]
    decide
  keys k := by
    rw [json]
    exact keys_createGroupJSon k
  otherID := nofun

end VirtualGroup

/-! ## The virtual network -/

namespace VirtualNetwork

theorem name_ne_of_free (h : w.Registered) {name : QString}
    (free : ¬(w.json .virtualNet).contains name) {n : NodeRef} (element : w.IsElement n) :
    w.nameOf n ≠ name := by
  rintro rfl
  exact free (h.netKeys n element)

theorem createRemote_ends (h : w.WellFormed) {name : QString}
    (free : ¬(w.json .virtualNet).contains name) :
    Ends w.MayFail (createSubNode w name VirtualRemote.createVirtualRemoteJSon) fun p =>
      Stays w p.2 := by
  have new : (VRef.free w.fresh).New w := .inl rfl
  have resized₀ : VirtualGroup.Resized w.fresh w (VirtualRemote.create w (.free w.fresh) name) :=
    .create_vRemote new name
  have outside : w.fresh ∉ w.vRemotes := fun inside => (h.vRemotesOld _ inside).ne rfl
  have none : w.fresh ∉ w.vGroups := fun inside => (h.groupsOld _ inside).ne rfl
  have name₀ : (VirtualRemote.create w (.free w.fresh) name).vRemoteName (.free w.fresh) = name :=
    Function.update_self ..
  have fresh₀ : (VirtualRemote.create w (.free w.fresh) name).fresh = w.fresh + 1 := rfl
  have vRemotes₀ : (VirtualRemote.create w (.free w.fresh) name).vRemotes = w.vRemotes := rfl
  have bare₀ : (VirtualRemote.create w (.free w.fresh) name).clearJsonData (.vRemote (.free w.fresh)) =
      VirtualRemote.create w (.free w.fresh) name := clearJsonData_bare (if_pos rfl) (if_pos rfl)
  rw [createSubNode, if_neg (by decide), if_pos (by decide)]
  dsimp only
  generalize VirtualRemote.create w (.free w.fresh) name = w₀ at *
  have mayFail₀ : w₀.MayFail = w.MayFail := by
    unfold MayFail
    rw [resized₀.sameLinks.mutex]
  by_cases space : (' ' : QChar) ∈ w₀.vRemoteName (.free w.fresh)
  · rw [populateNode_refused (n := .vRemote (.free w.fresh)) space]
    change Stays w (w₀.clearJsonData (.vRemote (.free w.fresh)))
    rw [bare₀]
    exact .of_sameLinks resized₀.sameLinks fun _ =>
      resized₀.wellFormed h fun inside => absurd inside none
  · have populated := VirtualRemote.populate_ends (F := VirtualGroup.alone (.free w.fresh)) (w := w₀)
      rfl rfl rfl VirtualRemote.document_createVirtualRemoteJSon space
    rw [mayFail₀] at populated
    apply populated.bind
    rintro ⟨created, w₁⟩ ⟨done, kept, -, listed⟩
    dsimp only at done kept listed
    subst done
    have resized := resized₀.trans (.of_keeps kept (fun _ _ same => by cases same)
      (fun _ _ same => by cases same) (fun _ => id) fun _ same => by cases same)
    have wellFormed₁ := resized.wellFormed h fun inside => absurd inside none
    have name₁ : w₁.vRemoteName (.free w.fresh) = name := by
      rw [kept.roster]
      exact name₀
    have vRemotes₁ : w₁.vRemotes = w.vRemotes := by
      rw [kept.roster]
      exact vRemotes₀
    have wellFormed₂ : WellFormed { w₁ with vRemotes := w₁.vRemotes ++ [w.fresh] } := by
      refine wellFormed₁.join_vRemote (vRemotes₁ ▸ outside) ?_ ?_ ?_
      · rw [kept.roster, fresh₀]
        exact Nat.lt_succ_self _
      · intro n element
        obtain ⟨before, same⟩ := resized.elements h.toRegistered n element
        rw [same, name₁]
        exact name_ne_of_free h.toRegistered free before
      · rw [name₁, ← name₀]
        exact listed
    have stays : Stays w { w₁ with vRemotes := w₁.vRemotes ++ [w.fresh] } :=
      .of_sameLinks (resized.sameLinks.trans
        ⟨rfl, rfl, rfl, fun _ _ => rfl, fun _ _ => rfl, fun _ _ => rfl⟩) fun _ => wellFormed₂
    have live : ({ w₁ with vRemotes := w₁.vRemotes ++ [w.fresh] } : World).Live (.free w.fresh) :=
      .inl ⟨w.fresh, List.mem_append_right _ (List.mem_singleton_self _), rfl⟩
    simp only [Bool.not_true, Bool.false_eq_true, if_false]
    generalize ({ w₁ with vRemotes := w₁.vRemotes ++ [w.fresh] } : World) = w₂ at stays live ⊢
    have updated := VirtualRemote.keeps_updateVirtualRemote (w := w₂) (F := w₂.live) live
    rw [stays.mayFail_eq] at updated
    exact updated.bind fun w' kept => stays.trans (.of_live kept)

theorem createGroup_ends (h : w.WellFormed) {name : QString}
    (free : ¬(w.json .virtualNet).contains name) :
    Ends w.MayFail (createSubNode w name VirtualGroup.createGroupJSon) fun p => Stays w p.2 := by
  have none : w.fresh ∉ w.vGroups := fun inside => (h.groupsOld _ inside).ne rfl
  have sameLinks₀ := SameLinks.create_group h.toRegistered name
  have wellFormed₀ := h.create_group name
  have name₀ : (VirtualGroup.create w w.fresh name).groupName w.fresh = name :=
    Function.update_self ..
  have slaves₀ : (VirtualGroup.create w w.fresh name).slaves w.fresh = [] :=
    Function.update_self ..
  have avatars₀ : (VirtualGroup.create w w.fresh name).virtualRemotes w.fresh = [] :=
    Function.update_self ..
  have empty₀ : (VirtualGroup.create w w.fresh name).json (.group w.fresh) = [] :=
    Function.update_self ..
  have bare₀ : (VirtualGroup.create w w.fresh name).clearJsonData (.group w.fresh) =
      VirtualGroup.create w w.fresh name := clearJsonData_bare empty₀ (Function.update_self ..)
  have fresh₀ : (VirtualGroup.create w w.fresh name).fresh = w.fresh + 1 := rfl
  have elements₀ : ∀ n, (VirtualGroup.create w w.fresh name).IsElement n →
      w.IsElement n ∧ (VirtualGroup.create w w.fresh name).nameOf n = w.nameOf n := by
    intro n element
    obtain ⟨g, inside, rfl⟩ | ⟨m, inside, rfl⟩ := element.node
    · exact ⟨inside, Function.update_of_ne (h.groupsOld g inside).ne _ _⟩
    · exact ⟨inside, rfl⟩
  rw [createSubNode, if_pos (by decide)]
  dsimp only
  generalize VirtualGroup.create w w.fresh name = w₀ at *
  have mayFail₀ : w₀.MayFail = w.MayFail := by
    unfold MayFail
    rw [sameLinks₀.mutex]
  have none₀ : w.fresh ∉ w₀.vGroups := by
    rw [sameLinks₀.vGroups]
    exact none
  by_cases space : (' ' : QChar) ∈ w₀.groupName w.fresh
  · rw [populateNode_refused (n := .group w.fresh) space]
    change Stays w (w₀.clearJsonData (.group w.fresh))
    rw [bare₀]
    exact .of_sameLinks sameLinks₀ fun _ => wellFormed₀
  · have populated := VirtualGroup.populate_ends none₀ empty₀ space
    rw [mayFail₀] at populated
    apply populated.bind
    rintro ⟨created, w₁⟩ ⟨done, populated, json, listed⟩
    dsimp only at done populated json listed
    subst done
    have sameLinks₁ := sameLinks₀.trans populated.resized.sameLinks
    have name₁ : w₁.groupName w.fresh = name := (congrFun populated.groupName _).trans name₀
    have wellFormed₁ := populated.resized.wellFormed wellFormed₀ fun inside => absurd inside none₀
    have wellFormed₂ : WellFormed { w₁ with vGroups := w₁.vGroups ++ [w.fresh] } := by
      refine wellFormed₁.join_group (populated.groupOk avatars₀ json) ?_ ?_ ?_ ?_
      · rw [sameLinks₁.vGroups]
        exact none
      · rw [populated.fresh, fresh₀]
        omega
      · intro n element
        obtain ⟨before, same⟩ := populated.resized.elements wellFormed₀.toRegistered n element
        obtain ⟨before, same₀⟩ := elements₀ n before
        rw [same, same₀, name₁]
        exact name_ne_of_free h.toRegistered free before
      · rw [name₁, ← name₀]
        exact listed
    have inside : w.fresh ∈ ({ w₁ with vGroups := w₁.vGroups ++ [w.fresh] } : World).vGroups :=
      List.mem_append_right _ (List.mem_singleton_self _)
    have none₁ : w₁.slaves w.fresh = [] := populated.slaves.trans slaves₀
    have counted : World.Counted { w₁ with vGroups := w₁.vGroups ++ [w.fresh] } w.fresh := by
      have value : (w₁.json (.group w.fresh)).value "slavesNbr" = some (.double 0) := by
        rw [json]
        rfl
      change (w₁.json (.group w.fresh)).value "slavesNbr" =
        some (.double (w₁.slaves w.fresh).length)
      rw [value, none₁]
      simp
    have updated := wellFormed₂.updateFromPatch_ends inside counted
    have mayFail₂ : World.MayFail { w₁ with vGroups := w₁.vGroups ++ [w.fresh] } = w.MayFail := by
      unfold MayFail
      rw [← sameLinks₁.mutex]
    rw [mayFail₂] at updated
    apply updated.bind
    rintro w₃ ⟨roster, wellFormed₃, cached⟩
    refine ⟨?_, ?_, fun _ => wellFormed₃, fun _ all => cached ?_ ?_⟩
    · rw [roster]
      exact sameLinks₁.patch
    · rw [roster]
      exact sameLinks₁.mutex
    · intro lengths
      change w₁.slaves w.fresh = w₁.patch.remotesOf (w₁.groupName w.fresh)
      change (w₁.slaves w.fresh).length = (w₁.patch.remotesOf (w₁.groupName w.fresh)).length at lengths
      rw [none₁] at lengths ⊢
      exact (List.eq_nil_of_length_eq_zero lengths.symm).symm
    · intro g member other
      have before : g ∈ w.vGroups := by
        rcases List.mem_append.mp member with old | single
        · rwa [sameLinks₁.vGroups] at old
        · exact absurd (List.mem_singleton.mp single) other
      obtain ⟨slaves, number⟩ := sameLinks₁.cached before (all g before)
      exact ⟨slaves, number⟩

theorem addRemote_ends (h : w.WellFormed) (name : QString) :
    Ends w.MayFail (addRemote w name) fun p => Stays w p.2 := by
  rw [addRemote]
  split
  · exact .refl w
  · rename_i free
    exact (createRemote_ends h (not_contains_chosen free "Remote")).bind fun _ stays => stays

theorem addGroup_ends (h : w.WellFormed) (name : QString) :
    Ends w.MayFail (addGroup w name) fun p => Stays w p.2 := by
  rw [addGroup]
  split
  · exact .refl w
  · rename_i free
    exact (createGroup_ends h (not_contains_chosen free "Group")).bind fun _ stays => stays

theorem autoGenerateRemote_ends (h : w.WellFormed) :
    Ends w.MayFail (autoGenerateRemote w) (Stays w) := by
  refine Ends.foldlM (I := fun _ => Stays w) (.refl w) fun r rest w₁ stays => ?_
  have added := addRemote_ends (stays.wellFormed h) (w₁.remoteName r)
  rw [stays.mayFail_eq] at added
  exact added.bind fun _ more => stays.trans more

end VirtualNetwork

end VoxPopuli
