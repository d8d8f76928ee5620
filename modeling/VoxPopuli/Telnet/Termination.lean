import VoxPopuli.Telnet.TelnetSocket

/-! # When the dispatch of a command returns

The loop which trims the name of a variable deletes a character by its code, the
length of the text less one, where it should delete the last position. What it
does to the text depends only on the length and on how often each character
occurs; it leaves trailing spaces behind only when the code is that of the space.
-/

namespace VoxPopuli

namespace TelnetSocket

variable {Node : Type}

/-- The character whose code is the last position of a text of length `n`. -/
def lastCode (n : Nat) : QChar := Fin.ofNat 65536 (n - 1)

/-- Deletions by code reach the space. `count` says how often each character
    occurs in a text of length `n`. -/
inductive DeletesSpaces : (QChar → Nat) → Nat → Prop where
  /-- The spaces go, and something else is left. -/
  | spaces {count : QChar → Nat} {n : Nat} (code : lastCode n = ' ') (more : count ' ' < n) :
      DeletesSpaces count n
  /-- Another character goes. -/
  | other {count : QChar → Nat} {n : Nat} (code : lastCode n ≠ ' ')
      (rest : DeletesSpaces (Function.update count (lastCode n) 0) (n - count (lastCode n))) :
      DeletesSpaces count n

/-- The counts of a text after a deletion. -/
theorem count_removeChar (s : QString) (c : QChar) :
    (fun x => (removeChar s c).count x) = Function.update (fun x => s.count x) c 0 := by
  funext x
  by_cases same : x = c
  · subst same
    have absent : x ∉ removeChar s x := by simp [removeChar]
    simp [List.count_eq_zero.mpr absent]
  · simp [removeChar, List.count_filter, same]

theorem length_removeChar (s : QString) (c : QChar) :
    (removeChar s c).length = s.length - s.count c := by
  induction s with
  | nil => rfl
  | cons x s ih =>
      have bound : s.count c ≤ s.length := List.count_le_length
      by_cases same : x = c
      · have text : removeChar (x :: s) c = removeChar s c := by simp [removeChar, same]
        rw [text, ih, same, List.count_cons_self, List.length_cons]
        omega
      · have text : removeChar (x :: s) c = x :: removeChar s c := by simp [removeChar, same]
        rw [text, List.length_cons, ih, List.count_cons_of_ne same, List.length_cons]
        omega

/-- A deletion of another character leaves the last space in place. -/
theorem getLast?_removeChar {s : QString} (last : s.getLast? = some ' ') {c : QChar}
    (other : c ≠ ' ') : (removeChar s c).getLast? = some ' ' := by
  obtain ⟨front, rfl⟩ := List.getLast?_eq_some_iff.mp last
  simp [removeChar, List.filter_append, other.symm]

/-- A deletion of the spaces ends the loop, in the right way if something is left. -/
theorem yields_removeChar_space (s : QString) :
    (∃ r, While.Yields getTurn (removeChar s ' ') (.ok r)) ↔ s.count (' ' : QChar) < s.length := by
  have count : (removeChar s ' ').length = s.length - s.count (' ' : QChar) :=
    length_removeChar s ' '
  cases rest : (removeChar s ' ').getLast? with
  | none =>
      have leaves : getTurn (removeChar s ' ') = .inr (.error .outOfRange) := by
        simp [getTurn, rest]
      have empty : (removeChar s ' ').length = 0 := by simpa using rest
      simp only [While.yields_of_inr leaves, reduceCtorEq, exists_false, false_iff]
      omega
  | some c =>
      have member : c ∈ removeChar s ' ' := List.mem_of_getLast? rest
      have other : c ≠ ' ' := by simpa using (List.mem_filter.mp member).2
      have leaves : getTurn (removeChar s ' ') = .inr (.ok (removeChar s ' ')) := by
        simp [getTurn, rest, other]
      have positive := List.length_pos_of_mem member
      simp only [While.yields_of_inr leaves, Except.ok.injEq, exists_eq', true_iff]
      omega

theorem getTurn_of_space {s : QString} (last : s.getLast? = some ' ') :
    getTurn s = .inl (removeChar s (lastCode s.length)) := by
  simp [getTurn, last, lastCode]

/-- The loop on a text which ends in a space, by the counts of the text alone. -/
theorem yields_getTurn_iff {s : QString} (last : s.getLast? = some ' ') :
    (∃ r, While.Yields getTurn s (.ok r)) ↔ DeletesSpaces (fun x => s.count x) s.length := by
  constructor
  · rintro ⟨r, loop⟩
    refine loop.induction (motive := fun s => s.getLast? = some (' ' : QChar) →
      DeletesSpaces (fun x => s.count x) s.length) ?_ ?_ last
    · intro s leaves last
      simp [getTurn_of_space last] at leaves
    · intro s s' turn rest ih last
      rw [getTurn_of_space last, Sum.inl.injEq] at turn
      subst turn
      by_cases code : lastCode s.length = ' '
      · rw [code] at rest
        exact .spaces code ((yields_removeChar_space s).mp ⟨r, rest⟩)
      · have deletes := ih (getLast?_removeChar last code)
        rw [count_removeChar, length_removeChar] at deletes
        exact .other code deletes
  · intro deletes
    generalize counts : (fun x => s.count x) = count at deletes
    generalize size : s.length = n at deletes
    induction deletes generalizing s with
    | spaces code more =>
        subst counts size
        simp only [While.yields_of_inl (getTurn_of_space last), code]
        exact (yields_removeChar_space s).mpr more
    | other code rest ih =>
        subst counts size
        simp only [While.yields_of_inl (getTurn_of_space last)]
        exact ih (getLast?_removeChar last code) (count_removeChar s _) (length_removeChar s _)

/-- The loop ends with the name of a variable unless it starts at a space and never
    deletes the spaces. -/
theorem trims_iff {s : QString} (nonempty : s ≠ []) :
    (∃ r, While.Yields getTurn s (.ok r)) ↔
      (s.getLast? = some (' ' : QChar) → DeletesSpaces (fun x => s.count x) s.length) := by
  by_cases last : s.getLast? = some (' ' : QChar)
  · rw [yields_getTurn_iff last]
    exact ⟨fun deletes _ => deletes, fun h => h last⟩
  · have leaves : getTurn s = .inr (.ok s) := by
      cases rest : s.getLast? with
      | none => exact absurd (List.getLast?_eq_none_iff.mp rest) nonempty
      | some c =>
          have other : c ≠ ' ' := by
            rintro rfl
            exact last rest
          simp [getTurn, rest, other]
    refine ⟨fun _ space => absurd space last, fun _ => ⟨s, (While.yields_of_inr leaves).mpr rfl⟩⟩

/-! ## The dispatch -/

/-- `dispatchCmd` returns, for some amount of fuel and without a fault. -/
def Returns (m? : Option (JSonTree Node)) (cmd : QString) : Prop :=
  ∃ fuel effects, dispatchCmd m? fuel cmd = some (.ok effects)

/-- What is called in a text with an opening bracket. -/
def functionIn (text : QString) : QString := text.left (text.indexOf '(')

def argumentsIn (text : QString) : QStringList :=
  let inner := (text.left (text.indexOf ')')).mid ((text.left (text.indexOf ')')).indexOf '(' + 1)
  tokens true ((inner.dropWhile isBlank).rdropWhile isBlank) [] false

/-- What is set in a text with a colon. -/
def propertyIn (text : QString) : QString := text.left (text.indexOf ':')

def valueIn (text : QString) : QString :=
  (text.mid ((propertyIn text).length + 1)).dropWhile (· = ' ')

/-- The operation which `text` asks of `n` comes to an end. -/
structure OperationEnds (m : JSonTree Node) (n : Node) (text : QString) : Prop where
  call : ('(' : QChar) ∈ text → (m.call n (functionIn text) (argumentsIn text)).isSome
  set : ('(' : QChar) ∉ text → (':' : QChar) ∈ text →
    (m.set n (propertyIn text) (valueIn text)).isSome
  get : ('(' : QChar) ∉ text → (':' : QChar) ∉ text → (text.splitSkipEmpty ' ').length = 1 →
    text.getLast? = some (' ' : QChar) → DeletesSpaces (fun x => text.count x) text.length

/-- What a text asks, whatever the fuel. -/
def requestIn (n : Node) (address text : QString) : Request Node :=
  if ('(' : QChar) ∈ text then .call n (functionIn text) (argumentsIn text)
  else if (':' : QChar) ∈ text then .set n address (propertyIn text) (valueIn text)
  else if (text.splitSkipEmpty ' ').length = 1 then .get n address text
  else .nothing

theorem requestAt_eq_some {fuel : Nat} {n : Node} {address text : QString} {r : Request Node}
    (h : requestAt fuel n address text = some r) : r = requestIn n address text := by
  simp only [requestAt] at h
  by_cases bracket : ('(' : QChar) ∈ text
  · simp only [bracket, if_true] at h
    obtain ⟨args, split, rfl⟩ := Option.map_eq_some_iff.mp h
    rw [splitArgs_eq_some split, requestIn, if_pos bracket]
    rfl
  · by_cases colon : (':' : QChar) ∈ text
    · simp only [bracket, colon, if_false, if_true] at h
      obtain ⟨value, trimmed, rfl⟩ := Option.map_eq_some_iff.mp h
      rw [run_leadingTurn_eq_some trimmed, requestIn, if_neg bracket, if_pos colon]
      rfl
    · simp only [bracket, colon, if_false] at h
      rw [requestIn, if_neg bracket, if_neg colon]
      split at h
      · rename_i single
        rw [if_pos single]
        exact (Option.some.inj h).symm
      · rename_i several
        rw [if_neg several]
        exact (Option.some.inj h).symm

/-- The loops which delete by position need no more turns than the text is long. -/
theorem requestAt_eq {fuel : Nat} (n : Node) (address text : QString) (enough : text.length < fuel) :
    requestAt fuel n address text = some (requestIn n address text) := by
  have drop : ∀ (s : QString) (k : Int), s.length ≤ text.length → (s.mid k).length < fuel := by
    intro s k shorter
    have := List.length_drop (i := k.toNat) (l := s)
    simp only [QString.mid]
    omega
  simp only [requestAt, requestIn]
  split
  · rw [splitArgs_eq _ _ (drop _ _ ?_)]
    · rfl
    · simp only [QString.left]
      split
      · exact le_rfl
      · exact List.length_take_le' _ _
  · split
    · rw [run_leadingTurn _ _ (drop _ _ le_rfl)]
      rfl
    · split <;> rfl

theorem answer_get_iff (m : JSonTree Node) (n : Node) (address text : QString) :
    (∃ fuel effects, answer m fuel (.get n address text) = some (.ok effects)) ↔
      ∃ r, While.Yields getTurn text (.ok r) := by
  constructor
  · rintro ⟨fuel, effects, answered⟩
    cases loop : While.run getTurn fuel text with
    | none => simp [answer, loop] at answered
    | some trimmed =>
        cases trimmed with
        | error fault => simp [answer, loop] at answered
        | ok name => exact ⟨name, fuel, loop⟩
  · rintro ⟨name, fuel, loop⟩
    cases data : m.getToString n name with
    | none => exact ⟨fuel, _, by simp only [answer, loop, Option.bind_eq_bind, Option.bind_some, data]; rfl⟩
    | some d => exact ⟨fuel, _, by simp only [answer, loop, Option.bind_eq_bind, Option.bind_some, data]; rfl⟩

theorem answer_mono {m : JSonTree Node} {fuel fuel' : Nat} {r : Request Node}
    {x : Except Fault (List Effect)} (h : answer m fuel r = some x) (more : fuel ≤ fuel') :
    answer m fuel' r = some x := by
  cases r with
  | get n address cmd =>
      cases loop : While.run getTurn fuel cmd with
      | none => simp [answer, loop] at h
      | some trimmed => simpa [answer, loop, While.run_mono loop more] using h
  | notFound | call | set | nothing => exact h

/-- The second half of the dispatch returns exactly if the operation ends. -/
theorem answer_returns_iff (m : JSonTree Node) (n : Node) (address text : QString) :
    (∃ fuel effects, answer m fuel (requestIn n address text) = some (.ok effects)) ↔
      OperationEnds m n text := by
  by_cases bracket : ('(' : QChar) ∈ text
  · have ends : OperationEnds m n text ↔
        (m.call n (functionIn text) (argumentsIn text)).isSome :=
      ⟨fun h => h.call bracket, fun h => ⟨fun _ => h, fun no => absurd bracket no,
        fun no => absurd bracket no⟩⟩
    rw [ends, requestIn, if_pos bracket]
    cases called : m.call n (functionIn text) (argumentsIn text) with
    | none => simp [answer, called]
    | some result => simp [answer, called]
  · by_cases colon : (':' : QChar) ∈ text
    · have ends : OperationEnds m n text ↔
          (m.set n (propertyIn text) (valueIn text)).isSome :=
        ⟨fun h => h.set bracket colon, fun h => ⟨fun yes => absurd yes bracket, fun _ _ => h,
          fun _ no => absurd colon no⟩⟩
      rw [ends, requestIn, if_neg bracket, if_pos colon]
      cases result : m.set n (propertyIn text) (valueIn text) with
      | none => simp [answer, result]
      | some e => cases e <;> simp [answer, result]
    · by_cases single : (text.splitSkipEmpty ' ').length = 1
      · have ends : OperationEnds m n text ↔ (text.getLast? = some (' ' : QChar) →
            DeletesSpaces (fun x => text.count x) text.length) :=
          ⟨fun h => h.get bracket colon single, fun h => ⟨fun yes => absurd yes bracket,
            fun _ yes => absurd yes colon, fun _ _ _ => h⟩⟩
        have nonempty : text ≠ [] := by
          rintro rfl
          exact absurd single (by decide)
        rw [ends, requestIn, if_neg bracket, if_neg colon, if_pos single, ← trims_iff nonempty]
        exact answer_get_iff m n address text
      · have ends : OperationEnds m n text :=
          ⟨fun yes => absurd yes bracket, fun _ yes => absurd yes colon,
            fun _ _ yes => absurd yes single⟩
        simp [requestIn, bracket, colon, single, answer, ends]

theorem returns_of_located {m : JSonTree Node} {cmd : QString} {n : Node}
    (located : m.nodeByAddress (addressIn cmd) = some n) :
    Returns (some m) cmd ↔ OperationEnds m n (behindAddress cmd) := by
  rw [← answer_returns_iff m n (addressIn cmd)]
  constructor
  · rintro ⟨fuel, effects, returned⟩
    simp only [dispatchCmd, request, located] at returned
    obtain ⟨r, requested, answered⟩ := Option.bind_eq_some_iff.mp returned
    rw [requestAt_eq_some requested] at answered
    exact ⟨fuel, effects, answered⟩
  · rintro ⟨fuel, effects, answered⟩
    -- Fuel for the loop which trims a name may be more than the other loops need.
    refine ⟨max fuel ((behindAddress cmd).length + 1), effects, ?_⟩
    have enough := answer_mono answered (le_max_left fuel ((behindAddress cmd).length + 1))
    have parsed := requestAt_eq n (addressIn cmd) (behindAddress cmd)
      (lt_max_of_lt_right (b := fuel) (Nat.lt_succ_self (behindAddress cmd).length))
    simpa only [dispatchCmd, request, located, parsed, Option.bind_some] using enough

/-- A command is dispatched to its end exactly if no model is selected, its address
    is not found or the operation which it asks of the node ends. -/
theorem returns_iff (m? : Option (JSonTree Node)) (cmd : QString) :
    Returns m? cmd ↔ ∀ m n, m? = some m → m.nodeByAddress (addressIn cmd) = some n →
      OperationEnds m n (behindAddress cmd) := by
  cases m? with
  | none =>
      have returns : Returns (none : Option (JSonTree Node)) cmd := ⟨0, [], rfl⟩
      simp [returns]
  | some m =>
      have selected : (∀ m' n, some m = some m' → m'.nodeByAddress (addressIn cmd) = some n →
          OperationEnds m' n (behindAddress cmd)) ↔
          ∀ n, m.nodeByAddress (addressIn cmd) = some n → OperationEnds m n (behindAddress cmd) :=
        ⟨fun h n => h m n rfl, fun h m' n same => Option.some.inj same ▸ h n⟩
      rw [selected]
      cases located : m.nodeByAddress (addressIn cmd) with
      | none =>
          simp only [reduceCtorEq, false_implies, implies_true, iff_true]
          refine ⟨0, [.send (("#Error: " : QString) ++ addressIn cmd ++
            (" not found in " : QString) ++ m.name) true], ?_⟩
          simp [dispatchCmd, request, located, answer]
      | some n => simp only [Option.some.injEq, forall_eq', returns_of_located located]

/-- Deletions which change nothing never reach the space. -/
theorem not_deletesSpaces {count : QChar → Nat} {n : Nat} (other : lastCode n ≠ ' ')
    (absent : count (lastCode n) = 0) : ¬DeletesSpaces count n := by
  intro deletes
  induction deletes with
  | spaces code more => exact other code
  | other code rest ih =>
      rw [absent, Nat.sub_zero] at ih
      exact ih other (by simp)

/-- A variable with one space behind it: no character has the code 7. -/
theorem not_returns_trailing_space : ¬Returns (some remotesTree) "USBPort " := by
  have located : remotesTree.nodeByAddress (addressIn "USBPort ") = some false := by decide
  rw [returns_of_located located]
  intro ends
  have deletes := ends.get (by decide) (by decide) (by decide) (by decide)
  exact not_deletesSpaces (by decide) (by decide) deletes

end TelnetSocket

end VoxPopuli
