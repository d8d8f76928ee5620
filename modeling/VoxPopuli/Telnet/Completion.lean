import VoxPopuli.Lib.CommonPrefix
import VoxPopuli.Model.Help
import VoxPopuli.Telnet.TelnetSocket

/-! # Completion of a line

`autoComplete` looks the node of a line up, collects the variables and the functions of the
node which go on from the last segment, and gives what all of them have in common. A function
stands for itself by a prototype, which is made from its entry in the help of the node.
-/

namespace VoxPopuli

/-- A model with what completion asks of its nodes. -/
structure HelpTree (Node : Type) extends JSonTree Node where
  variablesNames : Node → QStringList
  kind : Node → NodeKind
  help : Node → Help
  /-- The help of a node is only made by `getHelp`. -/
  made : ∀ n, (help n).Made (kind n)

/-- The keys of `getHelp(true)`. -/
def HelpTree.functions {Node : Type} (m : HelpTree Node) (n : Node) : Except Fault QStringList :=
  (fun q => q.1.keys) <$> (m.help n).getFunctions (m.kind n)

namespace TelnetSocket

variable {Node : Type}

structure Completion where
  text : QString := []
  cursorPos : Int
  /-- The possibilities which are shown. -/
  sent : QStringList := []

/-- `indexOf(c, -1)`: only the last character is looked at. -/
def indexOfLast (s : QString) (c : QChar) : Int :=
  if s.getLast? = some c then s.length - 1 else -1

/-- The segments of a line. -/
def pathOf (uncompleteLine : QString) : QStringList :=
  (uncompleteLine.mid (indexOfLast uncompleteLine ' ' + 1)).splitOn ('.' : QChar)

/-- The prototype for an entry of the help, and where the cursor goes if it takes arguments. -/
def prototypeOf (func : QString) : QString × Option Int :=
  let nameID := func.indexOf '('
  let funcPrototype := func.take (nameID + 1).toNat
  let func := removeChar (removeChar (func.mid nameID) ')') ' '
  if func = "(" then (funcPrototype ++ (")" : QString), none)
  else
    let argNbr := func.count (',' : QChar)
    (funcPrototype ++ (" " : QString) ++ (List.replicate argNbr (", " : QString)).flatten ++
      (")" : QString), some (-2 * argNbr - 1))

/-- One turn of the loop over the functions, with the possibilities and `cursorPos`. -/
def addFunction (word : QString) (found : QStringList × Int) (func : QString) :
    QStringList × Int :=
  if word <+: func then
    (found.1 ++ [(prototypeOf func).1], (prototypeOf func).2.getD found.2)
  else found

/-- The variables which go on from a word. -/
def variablesFrom (names : QStringList) (word : QString) : QStringList :=
  names.filter fun var => word <+: var ∧ var ≠ word

/-- What is done with the possibilities. -/
def choose (path possibilities : QStringList) (word : QString) (cursorPos : Int)
    (showPossibilities : Bool) : Completion :=
  match possibilities with
  | [first] => { text := first.drop word.length, cursorPos := cursorPos }
  | [] => { cursorPos := 0 }
  | first :: rest =>
      let joinedPath := List.intercalate [('.' : QChar)] path.dropLast
      let joinedPath := if joinedPath.isEmpty then joinedPath else joinedPath ++ ("." : QString)
      { text := (CommonPrefix.shorten first rest).drop word.length
        cursorPos := 0
        sent := if showPossibilities then (first :: rest).map (joinedPath ++ ·) ++ [(" " : QString)]
          else [] }

/-- `autoComplete`, with the `cursorPos` it is given. -/
def autoComplete (m? : Option (HelpTree Node)) (uncompleteLine : QString) (cursorPos : Int)
    (showPossibilities : Bool) : Except Fault Completion :=
  if (')' : QChar) ∈ uncompleteLine ∨ ('(' : QChar) ∈ uncompleteLine ∨
      (':' : QChar) ∈ uncompleteLine then pure { cursorPos := cursorPos }
  else
    match m? with
    | none => pure { cursorPos := cursorPos }
    | some m =>
        let path := pathOf uncompleteLine
        match path.dropLast.foldlM m.nodeAt m.root with
        | none => pure { cursorPos := cursorPos }
        | some n => do
            let word := path.getLastD []
            let functions ← m.functions n
            let (possibilities, cursorPos) :=
              functions.foldl (addFunction word) (variablesFrom (m.variablesNames n) word, cursorPos)
            pure (choose path possibilities word cursorPos showPossibilities)

/-! ## The possibilities -/

theorem foldl_addFunction (word : QString) (functions : QStringList) (found : QStringList × Int) :
    (functions.foldl (addFunction word) found).1 =
        found.1 ++ (functions.filter (word <+: ·)).map (fun func => (prototypeOf func).1) ∧
      (functions.filter (word <+: ·) = [] →
        (functions.foldl (addFunction word) found).2 = found.2) := by
  induction functions generalizing found with
  | nil => simp
  | cons func rest ih =>
      obtain ⟨collected, cursor⟩ := ih (addFunction word found func)
      rw [List.foldl_cons, collected]
      by_cases starts : word <+: func
      · simp [addFunction, starts]
      · simpa [addFunction, starts] using cursor

/-- A function with a bracket is cut behind it, and its prototype goes on from there. -/
theorem prefix_prototypeOf {word func : QString} (starts : word <+: func)
    (noOpen : ('(' : QChar) ∉ word) (bracket : ('(' : QChar) ∈ func) :
    word <+: (prototypeOf func).1 := by
  obtain ⟨before, after, whole, absent⟩ := List.eq_append_cons_of_mem bracket
  have position : func.indexOf '(' = before.length := by
    rw [whole, QString.indexOf_append_cons absent]
  have begins : before <+: func := ⟨('(' : QChar) :: after, whole.symm⟩
  have inside : word <+: before := by
    rcases List.prefix_or_prefix_of_prefix starts begins with shorter | ⟨rest, longer⟩
    · exact shorter
    · -- a longer word would have the bracket
      cases rest with
      | nil => exact ⟨[], by simpa using longer.symm⟩
      | cons c rest =>
          have next : ('(' : QChar) = c := by
            obtain ⟨tail, total⟩ := starts
            rw [← longer, whole, List.append_assoc, List.append_cancel_left_eq] at total
            exact (List.cons_eq_cons.mp total).1.symm
          exact absurd (longer ▸ next ▸ by simp) noOpen
  have cut : before <+: func.take (func.indexOf '(' + 1).toNat := by
    rw [position, List.prefix_take_iff]
    exact ⟨begins, by omega⟩
  have first : func.take (func.indexOf '(' + 1).toNat <+: (prototypeOf func).1 := by
    unfold prototypeOf
    dsimp only
    split
    · exact List.prefix_append _ _
    · rw [List.append_assoc, List.append_assoc]
      exact List.prefix_append _ _
  exact inside.trans (cut.trans first)

/-- An entry without a bracket leaves nothing of its name in the prototype. -/
theorem not_prefix_misplaced {word func : QString} (nonempty : word ≠ []) (starts : word <+: func)
    (misplaced : func = "osc" ∨ func = "ipPort") : ¬ word <+: (prototypeOf func).1 := by
  cases word with
  | nil => exact absurd rfl nonempty
  | cons c word =>
      rcases misplaced with rfl | rfl
      · have first : c = 'o' := (List.cons_prefix_cons.mp starts).1
        have blank : (prototypeOf "osc").1 = (' ' : QChar) :: (")" : QString) := by decide
        rw [blank, List.cons_prefix_cons, first]
        exact fun same => absurd same.1 (by decide)
      · have first : c = 'i' := (List.cons_prefix_cons.mp starts).1
        have blank : (prototypeOf "ipPort").1 = (' ' : QChar) :: (")" : QString) := by decide
        rw [blank, List.cons_prefix_cons, first]
        exact fun same => absurd same.1 (by decide)

/-- The last segment is a part of the line. -/
theorem mem_of_mem_pathOf {line : QString} {c : QChar} (member : c ∈ (pathOf line).getLastD []) :
    c ∈ line := by
  have segment : ∃ part ∈ pathOf line, c ∈ part := by
    cases last : (pathOf line).getLast? with
    | none =>
        rw [List.getLastD_eq_getLast?, last] at member
        cases member
    | some part =>
        rw [List.getLastD_eq_getLast?, last] at member
        exact ⟨part, List.mem_of_getLast? last, member⟩
  obtain ⟨part, among, member⟩ := segment
  obtain ⟨i, found⟩ := List.mem_iff_getElem?.mp among
  have inside : c ∈ line.mid (indexOfLast line ' ' + 1) := by
    have joined : [('.' : QChar)].intercalate (pathOf line) = line.mid (indexOfLast line ' ' + 1) :=
      List.intercalate_splitOn _
    rw [← joined, List.intercalate]
    refine List.mem_flatten.mpr ⟨part, List.mem_iff_getElem?.mpr ⟨2 * i, ?_⟩, member⟩
    rw [List.getElem?_intersperse_two_mul]
    exact found
  exact List.mem_of_mem_drop inside

/-! ## What is returned -/

/-- The possibilities are the variables and then the functions by their prototypes. -/
structure Completes (word : QString) (names prototypes : QStringList) (c : Completion) : Prop where
  common : ∀ p ∈ names ++ prototypes, word ++ c.text <+: p
  longest : names ++ prototypes ≠ [] → ∀ s, word <+: s → (∀ p ∈ names ++ prototypes, s <+: p) →
    s.length ≤ (word ++ c.text).length
  single : ∀ p, names ++ prototypes = [p] → word ++ c.text = p
  none : names ++ prototypes = [] → c.text = []
  cursor : c.cursorPos = 0 ∨ names = [] ∧ ∃ p, prototypes = [p]

/-- The choice is right as soon as every possibility goes on from the word. -/
theorem choose_completes {path names prototypes : QStringList} {word : QString} {cursorPos : Int}
    {showPossibilities : Bool} (starts : ∀ p ∈ names ++ prototypes, word <+: p)
    (cursor : prototypes = [] → cursorPos = 0) :
    Completes word names prototypes
      (choose path (names ++ prototypes) word cursorPos showPossibilities) := by
  cases all : names ++ prototypes with
  | nil => exact ⟨by simp [all], fun some => absurd all some, by simp [all], fun _ => rfl, .inl rfl⟩
  | cons first rest =>
      rw [all] at starts
      cases rest with
      | nil =>
          have whole : word ++ first.drop word.length = first := by
            obtain ⟨t, rfl⟩ := starts first List.mem_cons_self
            rw [List.drop_left]
          refine ⟨?_, ?_, ?_, by simp [all], ?_⟩
          · simp [all, choose, whole]
          · intro _ s _ common
            rw [choose, whole]
            exact (common first (by simp [all])).length_le
          · intro p single
            rw [all] at single
            rw [choose, whole]
            exact List.head_eq_of_cons_eq single
          · cases prototypes with
            | nil => exact .inl (cursor rfl)
            | cons p others =>
                obtain ⟨rfl, rfl⟩ : names = [] ∧ others = [] := by
                  have size := congrArg List.length all
                  simp only [List.length_append, List.length_cons, List.length_nil] at size
                  exact ⟨List.length_eq_zero_iff.mp (by omega),
                    List.length_eq_zero_iff.mp (by omega)⟩
                exact .inr ⟨rfl, p, rfl⟩
      | cons second rest =>
          have root : word <+: CommonPrefix.shorten first (second :: rest) :=
            CommonPrefix.prefix_shorten.mpr ⟨starts first List.mem_cons_self,
              fun b member => starts b (List.mem_cons_of_mem _ member)⟩
          have whole : word ++ (CommonPrefix.shorten first (second :: rest)).drop word.length =
              CommonPrefix.shorten first (second :: rest) := by
            obtain ⟨t, same⟩ := root
            rw [← same, List.drop_left]
          refine ⟨?_, ?_, by simp [all], by simp [all], .inl rfl⟩
          · intro p member
            refine whole.symm ▸ ?_
            exact CommonPrefix.shorten_prefix (all ▸ member)
          · intro _ s _ common
            refine whole.symm ▸ ?_
            rw [all] at common
            exact (CommonPrefix.prefix_shorten.mpr ⟨common first List.mem_cons_self,
              fun b member => common b (List.mem_cons_of_mem _ member)⟩).length_le

/-- The variables of an emulated remote which are listed as functions once its help has been
    shown. -/
def Misplaced (m : HelpTree Node) (n : Node) (word : QString) : Prop :=
  m.kind n = .emulatedRemote ∧ (m.help n).helpVariables ≠ none ∧ word ≠ [] ∧
    (word <+: "osc" ∨ word <+: "ipPort")

/-- The prototypes of the functions which start with a word. -/
def prototypesFrom (functions : QStringList) (word : QString) : QStringList :=
  (functions.filter (word <+: ·)).map fun func => (prototypeOf func).1

/-- Every function is there with its bracket, except for those two. -/
theorem prototypes_start_iff {m : HelpTree Node} {n : Node} {functions : QStringList}
    (listed : m.functions n = .ok functions) {word : QString} (noOpen : ('(' : QChar) ∉ word) :
    (∀ p ∈ prototypesFrom functions word, word <+: p) ↔ ¬ Misplaced m n word := by
  obtain ⟨q, got, rfl⟩ : ∃ q, (m.help n).getFunctions (m.kind n) = .ok q ∧ q.1.keys = functions := by
    rw [HelpTree.functions, map_eq_pure_bind, bind_eq_ok] at listed
    obtain ⟨q, got, same⟩ := listed
    exact ⟨q, got, Except.ok.inj same⟩
  obtain ⟨made, there, asked⟩ := (Help.getFunctions_ends (m.made n)).of_ok got
  have keys := made.functions q.1 there
  constructor
  · rintro all ⟨emulated, shown, nonempty, starts⟩
    have entry : ∀ func : QString, func = "osc" ∨ func = "ipPort" → word <+: func → False := by
      intro func misplaced starts
      have member : func ∈ q.1.keys := (keys func).mpr
        (.inr ⟨fun empty => shown (asked.mp empty), Help.misplaced_iff.mpr ⟨emulated, misplaced⟩⟩)
      exact not_prefix_misplaced nonempty starts misplaced
        (all _ (List.mem_map_of_mem (List.mem_filter.mpr ⟨member, by simpa using starts⟩)))
    rcases starts with osc | ipPort
    · exact entry "osc" (.inl rfl) osc
    · exact entry "ipPort" (.inr rfl) ipPort
  · intro right p member
    obtain ⟨func, filtered, rfl⟩ := List.mem_map.mp member
    obtain ⟨member, starts⟩ := List.mem_filter.mp filtered
    have starts : word <+: func := by simpa using starts
    rcases (keys func).mp member with function | ⟨shown, misplaced⟩
    · exact prefix_prototypeOf starts noOpen function.bracket
    · obtain ⟨emulated, which⟩ := Help.misplaced_iff.mp misplaced
      have empty : word = [] := by
        by_contra nonempty
        refine right ⟨emulated, fun unasked => shown (asked.mpr unasked), nonempty, ?_⟩
        rcases which with rfl | rfl
        · exact .inl starts
        · exact .inr starts
      subst empty
      exact List.nil_prefix

/-- The text which is returned for a line without brackets and colons is the longest which all
    possibilities allow if and only if the word does not begin one of the two variables which
    an emulated remote lists as functions. -/
theorem autoComplete_completes_iff {m : HelpTree Node} {line : QString} {n : Node}
    (showPossibilities : Bool)
    (plain : (')' : QChar) ∉ line ∧ ('(' : QChar) ∉ line ∧ (':' : QChar) ∉ line)
    (resolves : (pathOf line).dropLast.foldlM m.nodeAt m.root = some n) :
    (∃ functions c, m.functions n = .ok functions ∧
        autoComplete (some m) line 0 showPossibilities = .ok c ∧
        Completes ((pathOf line).getLastD [])
          (variablesFrom (m.variablesNames n) ((pathOf line).getLastD []))
          (prototypesFrom functions ((pathOf line).getLastD [])) c) ↔
      ¬ Misplaced m n ((pathOf line).getLastD []) := by
  obtain ⟨closed, opened, colon⟩ := plain
  have noOpen : ('(' : QChar) ∉ (pathOf line).getLastD [] := fun member =>
    opened (mem_of_mem_pathOf member)
  generalize word : (pathOf line).getLastD [] = w at noOpen ⊢
  obtain ⟨functions, listed⟩ : ∃ functions, m.functions n = .ok functions := by
    obtain ⟨q, got, -⟩ := ends_total.mp (Help.getFunctions_ends (m.made n))
    exact ⟨q.1.keys, by rw [HelpTree.functions, got]; rfl⟩
  obtain ⟨collected, untouched⟩ :=
    foldl_addFunction w functions (variablesFrom (m.variablesNames n) w, 0)
  have result : autoComplete (some m) line 0 showPossibilities = .ok (choose (pathOf line)
      (variablesFrom (m.variablesNames n) w ++ prototypesFrom functions w) w
      (functions.foldl (addFunction w) (variablesFrom (m.variablesNames n) w, 0)).2
      showPossibilities) := by
    rw [prototypesFrom, ← collected, ← word]
    simp only [autoComplete, closed, opened, colon, or_self, if_false, resolves, listed]
    rfl
  have names : ∀ p ∈ variablesFrom (m.variablesNames n) w, w <+: p := by
    intro p member
    have kept := (List.mem_filter.mp member).2
    simp only [decide_eq_true_eq] at kept
    exact kept.1
  rw [← prototypes_start_iff listed noOpen]
  constructor
  · rintro ⟨functions', c, listed', -, completes⟩ p member
    cases listed.symm.trans listed'
    exact (List.prefix_append w c.text).trans (completes.common p (List.mem_append_right _ member))
  · intro prototypes
    refine ⟨functions, _, listed, result, choose_completes ?_ ?_⟩
    · intro p member
      exact (List.mem_append.mp member).elim (names p) (prototypes p)
    · intro none
      exact untouched (List.map_eq_nil_iff.mp none)

/-! ## An emulated remote whose help has been shown -/

/-- A network with one emulated remote. -/
def emulatedTree (help : NodeKind → Help) (made : ∀ kind, (help kind).Made kind) :
    HelpTree NodeKind where
  name := "Network"
  root := .networkModel
  nodeAt n name :=
    if n = .networkModel ∧ name = ("Remotes" : QString) then some .remoteList
    else if n = .remoteList ∧ name = ("phone" : QString) then some .emulatedRemote
    else none
  call _ _ _ := some (true, [])
  set _ _ _ := some .doesNotExist
  getToString _ _ := none
  root_named := by decide
  variablesNames n :=
    if n = .emulatedRemote then
      ["Action", "Down", "LED1", "LED2", "LED3", "Left", "Right", "State", "Up", "ipPort", "osc"]
    else []
  kind := id
  help := help
  made := made

/-- The help of a node after it has been shown. -/
def shownHelp (kind : NodeKind) : Help :=
  match ({} : Help).helpString kind with
  | .ok h => h
  | .error _ => {}

theorem shownHelp_made (kind : NodeKind) : (shownHelp kind).Made kind := by
  obtain ⟨h, shown, made, -⟩ := ends_total.mp (Help.helpString_ends (Help.made_new kind))
  rw [shownHelp, shown]
  exact made

/-- The variables of a remote whose help nobody asked for. -/
theorem autoComplete_completes_osc :
    ¬ Misplaced (emulatedTree (fun _ => {}) Help.made_new) .emulatedRemote "os" ∧
      ∃ functions c, (emulatedTree (fun _ => {}) Help.made_new).functions .emulatedRemote =
          .ok functions ∧
        autoComplete (some (emulatedTree (fun _ => {}) Help.made_new)) "Remotes.phone.os" 0 true =
          .ok c ∧
        Completes "os" (variablesFrom ((emulatedTree (fun _ => {}) Help.made_new).variablesNames
          .emulatedRemote) "os") (prototypesFrom functions "os") c := by
  have right : ¬ Misplaced (emulatedTree (fun _ => {}) Help.made_new) .emulatedRemote "os" :=
    fun misplaced => misplaced.2.1 rfl
  exact ⟨right, (@autoComplete_completes_iff _ (emulatedTree (fun _ => {}) Help.made_new)
    "Remotes.phone.os" NodeKind.emulatedRemote true (by decide) (by decide)).mpr right⟩

/-- Once it has been shown, the address of the remote is the only possibility, it has lost its
    name, and the cursor goes back. -/
theorem not_completes_osc :
    ∃ functions c, (emulatedTree shownHelp shownHelp_made).functions .emulatedRemote =
        .ok functions ∧
      autoComplete (some (emulatedTree shownHelp shownHelp_made)) "Remotes.phone.osc" 0 true =
        .ok c ∧
      prototypesFrom functions "osc" = [(" )" : QString)] ∧ c.text = [] ∧ c.cursorPos = -1 ∧
      ¬ Completes "osc" (variablesFrom ((emulatedTree shownHelp shownHelp_made).variablesNames
        .emulatedRemote) "osc") (prototypesFrom functions "osc") c := by
  refine ⟨_, _, rfl, rfl, by decide, by decide, by decide, fun completes => ?_⟩
  have whole := completes.single (" )" : QString) (by decide)
  revert whole
  decide

end TelnetSocket

end VoxPopuli
