import VoxPopuli.Telnet.TelnetSocket

/-! # The syntax of calls

A call is written as the address of its node, its function and its quoted
arguments. The tokenizer gives quoted arguments back whatever they contain; the
searches for the address and for the closing bracket come before it and do not
know about quotes.
-/

namespace VoxPopuli

namespace TelnetSocket

variable {Node : Type}

/-- A backslash before every backslash and double quote. -/
def escape : QString → QString
  | [] => []
  | x :: arg => if x = '\\' ∨ x = '"' then ('\\' : QChar) :: x :: escape arg else x :: escape arg

def quote (arg : QString) : QString := ('"' : QChar) :: (escape arg ++ [('"' : QChar)])

def quoteArgs (args : QStringList) : QString := (", " : QString).intercalate (args.map quote)

/-- The address of a node. -/
def addressOf (path : QStringList) : QString := List.intercalate [('.' : QChar)] path

/-- Address, dot, function and arguments; neither address nor dot for the root. -/
def callLine (path : QStringList) (function : QString) (args : QStringList) : QString :=
  (if path.isEmpty then [] else addressOf path ++ [('.' : QChar)]) ++
    (function ++ ('(' : QChar) :: (quoteArgs args ++ [(')' : QChar)]))

/-! ## Tokens of quoted arguments -/

theorem tokens_backslash (comaSplit : Bool) (y : QChar) (rest c : QString) (quoted : Bool) :
    tokens comaSplit (('\\' : QChar) :: y :: rest) c quoted =
      tokens comaSplit rest (c ++ [y]) quoted := by
  rw [tokens.eq_def]
  simp

theorem tokens_open (comaSplit : Bool) (rest c : QString) :
    tokens comaSplit (('"' : QChar) :: rest) c false = tokens comaSplit rest c true := by
  have other : ('"' : QChar) ≠ '\\' := by decide
  rw [tokens.eq_def]
  simp [other]

theorem tokens_close (comaSplit : Bool) (rest c : QString) :
    tokens comaSplit (('"' : QChar) :: rest) c true = c :: tokens comaSplit rest [] false := by
  have other : ('"' : QChar) ≠ '\\' := by decide
  rw [tokens.eq_def]
  simp [other]

theorem tokens_plain (comaSplit : Bool) {x : QChar} (noBackslash : x ≠ '\\') (noQuote : x ≠ '"')
    (rest c : QString) :
    tokens comaSplit (x :: rest) c true = tokens comaSplit rest (c ++ [x]) true := by
  rw [tokens.eq_def]
  simp [noBackslash, noQuote]

theorem tokens_skip {x : QChar} (skipped : x = ',' ∨ x = ' ') (rest : QString) :
    tokens true (x :: rest) [] false = tokens true rest [] false := by
  have noBackslash : x ≠ '\\' := by rcases skipped with rfl | rfl <;> decide
  have noQuote : x ≠ '"' := by rcases skipped with rfl | rfl <;> decide
  have separates : isBlank x ∨ x = ',' := by rcases skipped with rfl | rfl <;> decide
  rw [tokens.eq_def]
  simp [noBackslash, noQuote, separates]

theorem tokens_separator (rest : QString) :
    tokens true ((", " : QString) ++ rest) [] false = tokens true rest [] false :=
  (tokens_skip (.inl rfl) _).trans (tokens_skip (.inr rfl) rest)

theorem tokens_escape (comaSplit : Bool) (arg rest c : QString) :
    tokens comaSplit (escape arg ++ rest) c true = tokens comaSplit rest (c ++ arg) true := by
  induction arg generalizing c with
  | nil => simp [escape]
  | cons x arg ih =>
      by_cases special : x = '\\' ∨ x = '"'
      · simp only [escape, if_pos special, List.cons_append, tokens_backslash, ih,
          List.append_assoc, List.nil_append]
      · obtain ⟨noBackslash, noQuote⟩ := not_or.mp special
        simp only [escape, if_neg special, List.cons_append,
          tokens_plain comaSplit noBackslash noQuote, ih, List.append_assoc, List.nil_append]

theorem tokens_quote (comaSplit : Bool) (arg rest : QString) :
    tokens comaSplit (quote arg ++ rest) [] false = arg :: tokens comaSplit rest [] false := by
  simp only [quote, List.cons_append, List.append_assoc, tokens_open, tokens_escape,
    List.nil_append, tokens_close]

theorem quoteArgs_cons_cons (arg arg' : QString) (args : QStringList) :
    quoteArgs (arg :: arg' :: args) =
      quote arg ++ ((", " : QString) ++ quoteArgs (arg' :: args)) := by
  simp [quoteArgs, List.intercalate_cons_cons]

theorem tokens_quoteArgs (args : QStringList) : tokens true (quoteArgs args) [] false = args := by
  induction args with
  | nil => rfl
  | cons arg args ih =>
      cases args with
      | nil =>
          have last := tokens_quote true arg []
          simpa [quoteArgs, tokens] using last
      | cons arg' args =>
          rw [quoteArgs_cons_cons, tokens_quote, tokens_separator, ih]

/-- The tokenizer invents no character. -/
theorem mem_of_mem_tokens {comaSplit : Bool} {text c : QString} {quoted : Bool} {token : QString}
    (member : token ∈ tokens comaSplit text c quoted) {x : QChar} (inside : x ∈ token) :
    x ∈ c ∨ x ∈ text := by
  fun_induction tokens comaSplit text c quoted <;> grind

theorem quoteArgs_starts (arg : QString) (args : QStringList) :
    ∃ text, quoteArgs (arg :: args) = ('"' : QChar) :: text := by
  cases args with
  | nil => exact ⟨escape arg ++ [('"' : QChar)], by simp [quoteArgs, quote]⟩
  | cons arg' args => exact ⟨_, quoteArgs_cons_cons arg arg' args⟩

theorem quoteArgs_ends (arg : QString) (args : QStringList) :
    ∃ text, quoteArgs (arg :: args) = text ++ [('"' : QChar)] := by
  induction args generalizing arg with
  | nil => exact ⟨('"' : QChar) :: escape arg, by simp [quoteArgs, quote]⟩
  | cons arg' args ih =>
      obtain ⟨text, last⟩ := ih arg'
      exact ⟨quote arg ++ ((", " : QString) ++ text), by simp [quoteArgs_cons_cons, last]⟩

/-- Quoted arguments have no blank at either end, so nothing is trimmed. -/
theorem splitArgs_quoteArgs (args : QStringList) {fuel : Nat}
    (enough : (quoteArgs args).length < fuel) :
    splitArgs fuel (quoteArgs args) true = some args := by
  have noBlank : isBlank ('"' : QChar) = false := by decide
  rw [splitArgs_eq _ _ enough]
  cases args with
  | nil => rfl
  | cons arg args =>
      have front : (quoteArgs (arg :: args)).dropWhile isBlank = quoteArgs (arg :: args) := by
        obtain ⟨text, first⟩ := quoteArgs_starts arg args
        rw [first, List.dropWhile_cons_of_neg (by simp [noBlank])]
      have back : (quoteArgs (arg :: args)).rdropWhile isBlank = quoteArgs (arg :: args) := by
        obtain ⟨text, last⟩ := quoteArgs_ends arg args
        rw [last, List.rdropWhile_concat_neg _ _ _ (by simp [noBlank])]
      rw [front, back, tokens_quoteArgs]

/-- The tokenizer returns, and what it returns are the arguments which were quoted. -/
theorem splitArgs_undoes_quoting (args : QStringList) :
    (∃ fuel, splitArgs fuel (quoteArgs args) true = some args) ∧
      ∀ fuel result, splitArgs fuel (quoteArgs args) true = some result → result = args := by
  have enough := splitArgs_quoteArgs args (Nat.lt_succ_self (quoteArgs args).length)
  refine ⟨⟨_, enough⟩, fun fuel result returned => ?_⟩
  have trimmed := splitArgs_eq_some enough
  rw [splitArgs_eq_some returned, ← trimmed]

/-- A character which the syntax does not use comes from an argument. -/
theorem mem_of_mem_quoteArgs {x : QChar} (foreign : x ∉ [('"' : QChar), '\\', ',', ' '])
    {args : QStringList} (member : x ∈ quoteArgs args) : ∃ arg ∈ args, x ∈ arg := by
  have ⟨noQuote, noBackslash, noComma, noSpace⟩ :
      x ≠ '"' ∧ x ≠ '\\' ∧ x ≠ ',' ∧ x ≠ ' ' := by simpa using foreign
  have escaped : ∀ arg : QString, x ∈ escape arg → x ∈ arg := by
    intro arg
    fun_induction escape arg <;> grind
  have quoted : ∀ arg : QString, x ∈ quote arg → x ∈ arg := by
    intro arg inside
    simp only [quote, List.mem_cons, noQuote, false_or, List.mem_append, List.not_mem_nil,
      or_false] at inside
    exact escaped arg inside
  induction args with
  | nil => simp [quoteArgs] at member
  | cons arg args ih =>
      cases args with
      | nil => exact ⟨arg, by simp, quoted arg (by simpa [quoteArgs] using member)⟩
      | cons arg' args =>
          rw [quoteArgs_cons_cons] at member
          rcases List.mem_append.mp member with first | others
          · exact ⟨arg, by simp, quoted arg first⟩
          · have rest : x ∈ quoteArgs (arg' :: args) := by
              have text : (", " : QString) = [(',' : QChar), (' ' : QChar)] := rfl
              simpa [text, noComma, noSpace] using others
            obtain ⟨found, known, inside⟩ := ih rest
            exact ⟨found, List.mem_cons_of_mem _ known, inside⟩

/-! ## Cutting a command -/

/-- A function name, a bracket and a text without closing bracket make a call. -/
theorem requestAt_call {function text : QString} (noOpen : ('(' : QChar) ∉ function)
    (noClose : (')' : QChar) ∉ function ++ text) (fuel : Nat) (n : Node) (address : QString) :
    requestAt fuel n address (function ++ ('(' : QChar) :: (text ++ [(')' : QChar)])) =
      (splitArgs fuel text true).map fun args => .call n function args := by
  have noClose' : (')' : QChar) ∉ function ++ ('(' : QChar) :: text := by
    have different : (')' : QChar) ≠ '(' := by decide
    simpa [different] using noClose
  have whole : function ++ ('(' : QChar) :: (text ++ [(')' : QChar)]) =
      (function ++ ('(' : QChar) :: text) ++ (')' : QChar) :: [] := by simp
  have cut : (function ++ ('(' : QChar) :: (text ++ [(')' : QChar)])).left
      ((function ++ ('(' : QChar) :: (text ++ [(')' : QChar)])).indexOf ')') =
        function ++ ('(' : QChar) :: text := by
    rw [whole, QString.indexOf_append_cons noClose', QString.left_length]
  simp only [requestAt, cut, QString.indexOf_append_cons noOpen, QString.left_length,
    QString.mid_length_succ]
  simp

/-- An argument of a call holds only characters of the command, and no closing
    bracket. -/
theorem mem_of_requestAt_call {fuel : Nat} {n n' : Node} {address cmd function : QString}
    {args : QStringList} (called : requestAt fuel n address cmd = some (.call n' function args))
    {arg : QString} (known : arg ∈ args) {x : QChar} (inside : x ∈ arg) :
    x ∈ cmd ∧ x ≠ (')' : QChar) := by
  simp only [requestAt] at called
  split at called
  · simp only [Option.map_eq_some_iff, Request.call.injEq] at called
    obtain ⟨tokenized, split, -, -, rfl⟩ := called
    rw [splitArgs_eq_some split] at known
    have seen := mem_of_mem_tokens known inside
    simp only [List.not_mem_nil, false_or] at seen
    have trimmed := (List.dropWhile_suffix isBlank).subset
      ((List.rdropWhile_prefix isBlank _).subset seen)
    exact QString.mem_left_indexOf (List.mem_of_mem_drop trimmed)
  · split at called
    · simp at called
    · split at called <;> simp at called

/-- Behind the address there is no dot, unless the command starts with one. -/
theorem dot_not_mem_behindAddress {cmd : QString} (start : cmd.head? ≠ some ('.' : QChar)) :
    ('.' : QChar) ∉ behindAddress cmd := by
  by_cases dotted : ('.' : QChar) ∈ cmd
  · obtain ⟨after, before, reversed, absent⟩ :=
      List.eq_append_cons_of_mem (List.mem_reverse.mpr dotted)
    have text : cmd = before.reverse ++ ('.' : QChar) :: after.reverse := by
      rw [← List.reverse_reverse cmd, reversed]
      simp
    have last : ('.' : QChar) ∉ after.reverse := by simpa using absent
    have address : addressIn cmd = before.reverse := by
      rw [addressIn, if_pos dotted, text, QString.lastIndexOf_append_cons last,
        QString.left_length]
    have nonempty : before.reverse ≠ [] := by
      intro empty
      rw [text, empty] at start
      exact start rfl
    have cut : behindAddress cmd = after.reverse := by
      rw [behindAddress, address, if_pos (by simpa using nonempty), text]
      exact QString.mid_length_succ _ _ _
    rw [cut]
    exact last
  · have address : addressIn cmd = [] := if_neg dotted
    simpa [behindAddress, address, QString.mid] using dotted

/-! ## The round trip -/

/-- `dispatchCmd` calls `function` of `n` with `args`. -/
def Invokes (m : JSonTree Node) (cmd : QString) (n : Node) (function : QString)
    (args : QStringList) : Prop :=
  ∃ fuel, request m fuel cmd = some (.call n function args)

theorem name_ne_nil {m : JSonTree Node} {s : QString} {path : QStringList} {n : Node}
    (located : (s :: path).foldlM m.nodeAt m.root = some n) : s ≠ [] := by
  rintro rfl
  have unnamed : m.nodeAt m.root [] = none := m.root_named
  simp [unnamed] at located

theorem addressOf_cons (s : QString) (path : QStringList) :
    ∃ rest, addressOf (s :: path) = s ++ rest := by
  cases path with
  | nil => exact ⟨[], by simp [addressOf]⟩
  | cons s' path => exact ⟨_, by simp [addressOf, List.intercalate_cons_cons]; rfl⟩

theorem addressOf_ne_nil {m : JSonTree Node} {s : QString} {path : QStringList} {n : Node}
    (located : (s :: path).foldlM m.nodeAt m.root = some n) : addressOf (s :: path) ≠ [] := by
  obtain ⟨rest, start⟩ := addressOf_cons s path
  simp [start, name_ne_nil located]

theorem nodeByAddress_addressOf {m : JSonTree Node} {path : QStringList} {n : Node}
    (located : path.foldlM m.nodeAt m.root = some n) (plain : ∀ s ∈ path, ('.' : QChar) ∉ s) :
    m.nodeByAddress (addressOf path) = some n := by
  cases path with
  | nil => simpa [addressOf, JSonTree.nodeByAddress] using located
  | cons s path =>
      have segments : (addressOf (s :: path)).splitOn ('.' : QChar) = s :: path :=
        List.splitOn_intercalate _ plain (by simp)
      rw [JSonTree.nodeByAddress, if_neg (by simpa using addressOf_ne_nil located), segments]
      exact located

/-- The address in front of a text without dots is found, and the text is left. -/
theorem request_addressOf {m : JSonTree Node} {path : QStringList} {n : Node}
    (located : path.foldlM m.nodeAt m.root = some n) (plain : ∀ s ∈ path, ('.' : QChar) ∉ s)
    {text : QString} (noDot : ('.' : QChar) ∉ text) (fuel : Nat) :
    request m fuel
        ((if path.isEmpty then [] else addressOf path ++ [('.' : QChar)]) ++ text) =
      requestAt fuel n (addressOf path) text := by
  have found := nodeByAddress_addressOf located plain
  cases path with
  | nil =>
      have address : addressIn text = [] := if_neg noDot
      have root : m.nodeByAddress [] = some n := found
      simp [request, behindAddress, address, root, addressOf, QString.mid]
  | cons s path =>
      have line : (if (s :: path).isEmpty then [] else addressOf (s :: path) ++ [('.' : QChar)]) ++
          text = addressOf (s :: path) ++ ('.' : QChar) :: text := by simp
      have address : addressIn (addressOf (s :: path) ++ ('.' : QChar) :: text) =
          addressOf (s :: path) := by
        rw [addressIn, if_pos (by simp), QString.lastIndexOf_append_cons noDot,
          QString.left_length]
      have positive : (addressOf (s :: path)).length ≠ 0 := by
        simpa using addressOf_ne_nil located
      have behind : behindAddress (addressOf (s :: path) ++ ('.' : QChar) :: text) = text := by
        rw [behindAddress, address, if_pos positive]
        exact QString.mid_length_succ _ _ _
      simp only [line, request, address, found, behind]

/-- A line does not start with a dot. -/
theorem callLine_head {m : JSonTree Node} {path : QStringList} {n : Node}
    (located : path.foldlM m.nodeAt m.root = some n) (plain : ∀ s ∈ path, ('.' : QChar) ∉ s)
    {function : QString} (noDot : ('.' : QChar) ∉ function) (args : QStringList) :
    (callLine path function args).head? ≠ some ('.' : QChar) := by
  have noDotHead : ∀ {s : QString}, ('.' : QChar) ∉ s → s.head? ≠ some ('.' : QChar) :=
    fun absent start => absent (List.mem_of_mem_head? start)
  cases path with
  | nil =>
      cases function with
      | nil =>
          have head : (callLine [] [] args).head? = some ('(' : QChar) := rfl
          rw [head]
          decide
      | cons c function =>
          have head : (callLine [] (c :: function) args).head? = (c :: function).head? := rfl
          rw [head]
          exact noDotHead noDot
  | cons s path =>
      obtain ⟨rest, start⟩ := addressOf_cons s path
      have named := name_ne_nil located
      have head : (callLine (s :: path) function args).head? = s.head? := by
        simp [callLine, start, List.head?_append_of_ne_nil _ named]
      rw [head]
      exact noDotHead (plain s List.mem_cons_self)

/-- A call arrives as it was written exactly if no argument holds a dot or a
    closing bracket. -/
theorem invokes_callLine_iff (m : JSonTree Node) {path : QStringList} {n : Node}
    (located : path.foldlM m.nodeAt m.root = some n) (plain : ∀ s ∈ path, ('.' : QChar) ∉ s)
    {function : QString} (noDot : ('.' : QChar) ∉ function) (noOpen : ('(' : QChar) ∉ function)
    (noClose : (')' : QChar) ∉ function) (args : QStringList) :
    Invokes m (callLine path function args) n function args ↔
      ∀ arg ∈ args, ('.' : QChar) ∉ arg ∧ (')' : QChar) ∉ arg := by
  constructor
  · rintro ⟨fuel, called⟩ arg known
    have behind := dot_not_mem_behindAddress (callLine_head located plain noDot args)
    simp only [request] at called
    split at called
    · simp at called
    · exact ⟨fun dot => behind (mem_of_requestAt_call called known dot).1,
        fun close => (mem_of_requestAt_call called known close).2 rfl⟩
  · intro clean
    have absent : ∀ x ∉ [('"' : QChar), '\\', ',', ' '], (∀ arg ∈ args, x ∉ arg) →
        x ∉ quoteArgs args := by
      intro x foreign missing member
      obtain ⟨arg, known, inside⟩ := mem_of_mem_quoteArgs foreign member
      exact missing arg known inside
    have noDotArgs := absent '.' (by decide) fun arg known => (clean arg known).1
    have noCloseArgs := absent ')' (by decide) fun arg known => (clean arg known).2
    have noDotCall : ('.' : QChar) ∉
        function ++ ('(' : QChar) :: (quoteArgs args ++ [(')' : QChar)]) := by
      have other : ('.' : QChar) ≠ '(' ∧ ('.' : QChar) ≠ ')' := by decide
      simp [noDot, noDotArgs, other]
    refine ⟨(quoteArgs args).length + 1, ?_⟩
    rw [callLine, request_addressOf located plain noDotCall,
      requestAt_call noOpen (by simp [noClose, noCloseArgs]),
      splitArgs_quoteArgs args (Nat.lt_succ_self _)]
    rfl

theorem invokes_emulateRemote :
    Invokes remotesTree (callLine ["Remotes"] "emulateRemote" ["Foyer, \"left\"", "/foyer (1:a"])
      true "emulateRemote" ["Foyer, \"left\"", "/foyer (1:a"] :=
  (invokes_callLine_iff remotesTree (by decide) (by decide) (by decide) (by decide) (by decide)
    _).mpr (by decide)

/-- An address with dots: the text up to its last dot is taken for the node. -/
theorem not_invokes_emulateRemote :
    ¬Invokes remotesTree (callLine ["Remotes"] "emulateRemote" ["Foyer", "10.0.0.1"])
      true "emulateRemote" ["Foyer", "10.0.0.1"] := by
  rintro ⟨fuel, called⟩
  have lost : remotesTree.nodeByAddress
      (addressIn (callLine ["Remotes"] "emulateRemote" ["Foyer", "10.0.0.1"])) = none := by
    decide
  simp [request, lost] at called

end TelnetSocket

end VoxPopuli
