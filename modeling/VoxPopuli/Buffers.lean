import VoxPopuli.HexData
import VoxPopuli.Lib.Heap
import VoxPopuli.Lib.Runs

/-! # The buffers of `HexData`

A `HexData` holds a pointer to a vector. The copy constructor copies the vector, but no
assignment is declared, so an assignment copies the pointer: two variables then have one
vector, which either of them changes or deletes for both. Against this stand programs over
variables with bytes of their own.
-/

namespace VoxPopuli

namespace HexData

/-- Why a statement has no result. -/
inductive Stop where
  | fault (f : Fault)
  /-- A loop has not come to its end. -/
  | endless
  /-- The statement names a variable which is not there, or declares one which is. -/
  | scope
  deriving DecidableEq, Repr

/-! ## The vectors in a program -/

abbrev Vectors := Heap (List Byte)

def load (h : Vectors) (i : Nat) : Except Stop (List Byte) :=
  match h.read i with
  | some d => pure d
  | none => throw (.fault .useAfterFree)

/-- What a constructor is given. -/
inductive Init where
  | none
  | string (data : StdString)
  /-- A vector, or an array with its size. -/
  | bytes (data : List Byte)
  | byte (data : Byte)

/-- Text is stored in a vector of twice its size. -/
def Init.data : Init → List Byte
  | none => []
  | string data => data ++ List.replicate data.length 0
  | bytes data => data
  | byte data => [data]

/-- The argument of `append`, `prepend` and `+=`. -/
inductive Operand where
  | byte (data : Byte)
  | bytes (data : List Byte)
  /-- The vector of a variable. -/
  | of (y : Nat)

/-- A vector which is read while another one is written: one of its own, or one on the
    heap. -/
inductive Source where
  | own (data : List Byte)
  | shared (i : Nat)

def Source.load (h : Vectors) : Source → Except Stop (List Byte)
  | own data => pure data
  | shared i => HexData.load h i

/-- The loop of `append`: the size is read again before every turn. -/
def appendLoop (this : Nat) (data : Source) : Nat → Nat → Vectors → Except Stop Vectors
  | 0, _, _ => throw .endless
  | fuel + 1, i, h => do
      let source ← data.load h
      match source[i]? with
      | some b => do
          let d ← load h this
          appendLoop this data fuel (i + 1) (h.write this (d ++ [b]))
      | none => pure h

/-- A turn for every byte there is at first, and one to leave the loop. -/
def appendVector (h : Vectors) (this : Nat) (data : Source) : Except Stop Vectors := do
  let _ ← load h this
  let source ← data.load h
  appendLoop this data (source.length + 1) 0 h

/-- `(*r)[i + offset] = data[i]` for every `i` below `count`. -/
def fill (r data : List Byte) (offset count : Nat) : Except Fault (List Byte) :=
  (List.range count).foldlM
    (fun r i =>
      match data[i]? with
      | some b => store r (i + offset) b
      | none => throw .outOfRange)
    r

/-- The bytes of the new vector in `prepend`. Both loops read the argument. -/
def prepended (d data : List Byte) : Except Fault (List Byte) := do
  let r ← fill (List.replicate (data.length + d.length) 0) data 0 data.length
  fill r data data.length d.length

def ofFault {α : Type} : Except Fault α → Except Stop α
  | .ok a => pure a
  | .error f => throw (.fault f)

inductive Statement where
  | construct (x : Nat) (init : Init)
  /-- `HexData x(y)`. -/
  | copy (x y : Nat)
  /-- `x = y`. -/
  | assign (x y : Nat)
  | append (x : Nat) (data : Operand)
  | prepend (x : Nat) (data : Operand)
  /-- `x += data`. -/
  | plusAssign (x : Nat) (data : Operand)
  | destroy (x : Nat)

/-! ## Statements over vectors -/

/-- Variables with pointers to vectors. -/
abbrev Memory := References Nat (List Byte)

namespace Memory

/-- `_data` of a variable. -/
def ref (m : Memory) (x : Nat) : Except Stop Nat :=
  match m.vars x with
  | some i => pure i
  | none => throw .scope

/-- A variable which is declared. -/
def declare (m : Memory) (x : Nat) (data : List Byte) : Except Stop Memory :=
  match m.vars x with
  | some _ => throw .scope
  | none => pure ⟨(m.heap.alloc data).1, Function.update m.vars x (some (m.heap.alloc data).2)⟩

def source (m : Memory) : Operand → Except Stop Source
  | .byte data => pure (.own [data])
  | .bytes data => pure (.own data)
  | .of y => Source.shared <$> m.ref y

def append (m : Memory) (x : Nat) : Operand → Except Stop Memory
  | .byte data => do
      let i ← m.ref x
      let d ← load m.heap i
      pure { m with heap := m.heap.write i (d ++ [data]) }
  | operand => do
      let i ← m.ref x
      let data ← m.source operand
      let h ← appendVector m.heap i data
      pure { m with heap := h }

def prepend (m : Memory) (x : Nat) : Operand → Except Stop Memory
  | .byte data => do
      let i ← m.ref x
      let d ← load m.heap i
      pure { m with heap := m.heap.write i (data :: d) }
  | operand => do
      let i ← m.ref x
      let data ← (← m.source operand).load m.heap
      let d ← load m.heap i
      let r ← ofFault (prepended d data)
      pure ⟨(m.heap.alloc r).1.free i, Function.update m.vars x (some (m.heap.alloc r).2)⟩

def exec (m : Memory) : Statement → Except Stop Memory
  | .construct x init => m.declare x init.data
  | .copy x y => do
      let d ← load m.heap (← m.ref y)
      m.declare x d
  | .assign x y => do
      let _ ← m.ref x
      let i ← m.ref y
      pure { m with vars := Function.update m.vars x (some i) }
  | .append x data => m.append x data
  | .prepend x data => m.prepend x data
  | .plusAssign x data => do
      let m ← m.append x data
      -- `*this` is returned as a copy.
      let d ← load m.heap (← m.ref x)
      pure { m with heap := (m.heap.alloc d).1.free (m.heap.alloc d).2 }
  | .destroy x => do
      let i ← m.ref x
      let _ ← load m.heap i
      pure ⟨m.heap.free i, Function.update m.vars x none⟩

end Memory

/-! ## Statements over bytes -/

/-- Variables with bytes of their own. -/
abbrev Values := Nat → Option (List Byte)

namespace Values

def get (vs : Values) (x : Nat) : Except Stop (List Byte) :=
  match vs x with
  | some d => pure d
  | none => throw .scope

def declare (vs : Values) (x : Nat) (data : List Byte) : Except Stop Values :=
  match vs x with
  | some _ => throw .scope
  | none => pure (Function.update vs x (some data))

def operand (vs : Values) : Operand → Except Stop (List Byte)
  | .byte data => pure [data]
  | .bytes data => pure data
  | .of y => vs.get y

def append (vs : Values) (x : Nat) (data : Operand) : Except Stop Values := do
  let d ← vs.get x
  let data ← vs.operand data
  pure (Function.update vs x (some (d ++ data)))

def exec (vs : Values) : Statement → Except Stop Values
  | .construct x init => vs.declare x init.data
  | .copy x y => do
      let d ← vs.get y
      vs.declare x d
  | .assign x y => do
      let _ ← vs.get x
      let d ← vs.get y
      pure (Function.update vs x (some d))
  | .append x data => vs.append x data
  | .prepend x (.byte data) => do
      let d ← vs.get x
      pure (Function.update vs x (some (data :: d)))
  | .prepend x operand => do
      let d ← vs.get x
      let data ← vs.operand operand
      let r ← ofFault (prepended d data)
      pure (Function.update vs x (some r))
  | .plusAssign x data => vs.append x data
  | .destroy x => do
      let _ ← vs.get x
      pure (Function.update vs x none)

end Values

/-! ## The loop of `append` -/

/-- The vector which is read is not the one which is written. -/
def Source.Apart (this : Nat) : Source → Prop
  | own _ => True
  | shared i => this ≠ i

variable {h : Vectors} {this i : Nat} {source : Source} {d data : List Byte}

theorem load_eq (found : h.read i = some d) : load h i = .ok d := by
  rw [load, found]
  rfl

theorem Source.load_write (apart : source.Apart this) (d : List Byte) :
    source.load (h.write this d) = source.load h := by
  cases source with
  | own data => rfl
  | shared i => rw [load, load, HexData.load, HexData.load, Heap.read_write_of_ne apart]

/-- A loop over another vector ends with all of its bytes. -/
theorem appendLoop_apart (apart : source.Apart this) (loads : source.load h = .ok data)
    (here : h.read this = some d) {fuel : Nat} (enough : data.length - i < fuel) :
    appendLoop this source fuel i h = .ok (h.write this (d ++ data.drop i)) := by
  induction fuel generalizing i h d with
  | zero => omega
  | succ fuel ih =>
      rw [appendLoop, loads]
      change (match data[i]? with | some b => _ | none => _) = _
      cases more : data[i]? with
      | none =>
          have past : data.length ≤ i := List.getElem?_eq_none_iff.mp more
          rw [List.drop_eq_nil_of_le past, List.append_nil, Heap.write_self here]
          rfl
      | some b =>
          obtain ⟨inside, rfl⟩ := List.getElem?_eq_some_iff.mp more
          have later := ih (i := i + 1) (source.load_write apart _ ▸ loads)
            (Heap.read_write_self (a := d ++ [data[i]]) here) (by omega)
          dsimp only
          rw [load_eq here]
          refine later.trans ?_
          rw [Heap.write_write, List.append_assoc, List.singleton_append, List.getElem_cons_drop]

/-- A loop over the vector it writes never ends: the vector grows with every turn. -/
theorem appendLoop_self (here : h.read this = some d) (inside : i < d.length) (fuel : Nat) :
    appendLoop this (.shared this) fuel i h = .error .endless := by
  induction fuel generalizing i h d with
  | zero => rfl
  | succ fuel ih =>
      have loads : (Source.shared this).load h = .ok d := load_eq here
      rw [appendLoop, loads]
      change (match d[i]? with | some b => _ | none => _) = _
      rw [List.getElem?_eq_getElem inside]
      dsimp only
      rw [load_eq here]
      refine ih (Heap.read_write_self here) ?_
      rw [List.length_append, List.length_singleton]
      omega

theorem appendVector_eq (loads : source.load h = .ok data) (here : h.read this = some d)
    [Decidable (source.Apart this)] :
    appendVector h this source =
      if data = [] ∨ source.Apart this then .ok (h.write this (d ++ data)) else .error .endless := by
  rw [appendVector, load_eq here, loads]
  change appendLoop this source (data.length + 1) 0 h = _
  by_cases apart : source.Apart this
  · rw [if_pos (.inr apart), appendLoop_apart apart loads here (by omega), List.drop_zero]
  · cases source with
    | own data' => exact absurd trivial apart
    | shared i =>
        obtain rfl : this = i := not_not.mp apart
        obtain rfl : d = data := by
          have same : load h this = .ok data := loads
          rw [load_eq here] at same
          exact Except.ok.inj same
        by_cases empty : d = []
        · subst empty
          rw [if_pos (.inl rfl), List.append_nil, Heap.write_self here]
          simp only [appendLoop, loads]
          rfl
        · rw [if_neg (by simp [empty, apart])]
          exact appendLoop_self here (List.length_pos_iff.mpr empty) _

/-! ## A statement against its meaning -/

variable {m : Memory} {vs vs' : Values} {x : Nat}

/-- No variable is changed, moved or destroyed while another one has its vector, and no
    vector is appended to itself; to append nothing is harmless. -/
def Careful (m : Memory) (vs : Values) : Statement → Prop
  | .append x data | .plusAssign x data =>
      vs.operand data = .ok [] ∨ ¬m.Shared x ∧ data ≠ .of x
  | .prepend x _ | .destroy x => ¬m.Shared x
  | _ => True

theorem Memory.ref_eq (found : m.vars x = some i) : m.ref x = .ok i := by
  rw [ref, found]
  rfl

theorem Values.get_ok {d : List Byte} : vs.get x = .ok d ↔ vs x = some d := by
  rw [get]
  cases vs x <;> simp [pure, Except.pure, throw, throwThe, MonadExceptOf.throw]

/-- A result of the values is one of the memory. -/
def Follows (m : Memory) (s : Statement) (vs' : Values) : Prop :=
  ∃ m', m.exec s = .ok m' ∧ m'.Represents vs'

theorem declare_follows (h : m.Represents vs) (x : Nat) (data : List Byte)
    (meant : vs.declare x data = .ok vs') : ∃ m', m.declare x data = .ok m' ∧ m'.Represents vs' := by
  rw [Values.declare] at meant
  rw [Memory.declare]
  cases found : vs x with
  | some d =>
      rw [found] at meant
      cases meant
  | none =>
      rw [found] at meant
      cases meant
      rw [(h.live x).mpr found]
      exact ⟨_, rfl, h.bind x data⟩

theorem source_eq (h : m.Represents vs) {operand : Operand} (meant : vs.operand operand = .ok data) :
    ∃ source, m.source operand = .ok source ∧ source.load m.heap = .ok data ∧
      ∀ this, source.Apart this ↔ ∀ y, operand = .of y → m.vars y ≠ some this := by
  cases operand with
  | byte b =>
      cases meant
      exact ⟨.own [b], rfl, rfl, fun this => by simp [Source.Apart]⟩
  | bytes bs =>
      cases meant
      exact ⟨.own data, rfl, rfl, fun this => by simp [Source.Apart]⟩
  | of y =>
      obtain ⟨j, ref, read⟩ := h.lookup (Values.get_ok.mp meant)
      refine ⟨.shared j, ?_, load_eq read, fun this => ?_⟩
      · rw [Memory.source, Memory.ref_eq ref]
        rfl
      · simp [Source.Apart, ref, eq_comm]

theorem append_ok {operand : Operand} : vs.append x operand = .ok vs' ↔
    ∃ d data, vs x = some d ∧ vs.operand operand = .ok data ∧
      vs' = Function.update vs x (some (d ++ data)) := by
  simp only [Values.append, bind_eq_ok, Values.get_ok, pure, Except.pure, Except.ok.injEq,
    eq_comm (a := vs')]
  grind

/-- What is appended is added at the end, unless it is the vector itself. -/
theorem Memory.append_eq (h : m.Represents vs) {operand : Operand} (ref : m.vars x = some i)
    (here : m.heap.read i = some d) (meant : vs.operand operand = .ok data) :
    (m.append x operand = .ok { m with heap := m.heap.write i (d ++ data) } ∧
        (data = [] ∨ ∀ y, operand = .of y → m.vars y ≠ some i)) ∨
      m.append x operand = .error .endless ∧ data ≠ [] ∧ ∃ y, operand = .of y ∧ m.vars y = some i := by
  obtain ⟨source, found, loads, apart⟩ := source_eq h meant
  have vector : ∀ result, appendVector m.heap i source = result →
      (∀ b, operand ≠ .byte b) →
        m.append x operand = result.bind fun h => .ok { m with heap := h } := by
    rintro result rfl different
    cases operand with
    | byte b => exact absurd rfl (different b)
    | bytes bs =>
        rw [append, ref_eq ref, found]
        · rfl
        · rintro b ⟨⟩
    | of y =>
        rw [append, ref_eq ref, found]
        · rfl
        · rintro b ⟨⟩
  classical
  have loop := appendVector_eq loads here
  rw [apart] at loop
  cases operand with
  | byte b =>
      cases meant
      refine .inl ⟨?_, .inr fun y same => by cases same⟩
      change (m.ref x >>= fun i => load m.heap i >>= fun d => _) = _
      rw [ref_eq ref]
      change (load m.heap i >>= fun d => _) = _
      rw [load_eq here]
      rfl
  | bytes bs =>
      rw [if_pos (.inr fun y same => by cases same)] at loop
      refine .inl ⟨vector _ loop ?_, .inr fun y same => by cases same⟩
      rintro b ⟨⟩
  | of y =>
      by_cases ends : data = [] ∨ ∀ z, Operand.of y = .of z → m.vars z ≠ some i
      · rw [if_pos ends] at loop
        refine .inl ⟨vector _ loop ?_, ends⟩
        rintro b ⟨⟩
      · rw [if_neg ends] at loop
        obtain ⟨filled, self⟩ := not_or.mp ends
        refine .inr ⟨vector _ loop ?_, filled, y, rfl, ?_⟩
        · rintro b ⟨⟩
        · by_contra other
          refine self fun z same => ?_
          cases same
          exact other

theorem append_follows (h : m.Represents vs) {operand : Operand}
    (meant : vs.append x operand = .ok vs') :
    (∃ m', m.append x operand = .ok m' ∧ m'.Represents vs') ↔
      vs.operand operand = .ok [] ∨ ¬m.Shared x ∧ operand ≠ .of x := by
  obtain ⟨d, data, found, operands, rfl⟩ := append_ok.mp meant
  obtain ⟨i, ref, here⟩ := h.lookup found
  have changed := h.write_iff ref found (d ++ data)
  rw [List.append_right_eq_self] at changed
  rw [operands, Except.ok.injEq]
  rcases Memory.append_eq h ref here operands with ⟨result, apart⟩ | ⟨result, filled, y, rfl, ref'⟩
  · rw [result]
    constructor
    · rintro ⟨m', same, represents⟩
      cases same
      rcases changed.mp represents with empty | alone
      · exact .inl empty
      · refine apart.imp_right fun other => ⟨alone, ?_⟩
        rintro rfl
        exact other x rfl ref
    · intro either
      exact ⟨_, rfl, changed.mpr (either.imp_right And.left)⟩
  · rw [result]
    refine iff_of_false ?_ ?_
    · rintro ⟨m', same, -⟩
      cases same
    · rintro (empty | ⟨alone, other⟩)
      · exact filled empty
      · by_cases own : y = x
        · exact other (own ▸ rfl)
        · exact alone ⟨y, own, by simp [ref'], ref'.trans ref.symm⟩

theorem prependByte_follows (h : m.Represents vs) (b : Byte)
    (meant : vs.exec (.prepend x (.byte b)) = .ok vs') :
    Follows m (.prepend x (.byte b)) vs' ↔ ¬m.Shared x := by
  obtain ⟨d, found, same⟩ := bind_eq_ok.mp meant
  cases same
  obtain ⟨i, ref, here⟩ := h.lookup (Values.get_ok.mp found)
  have run : m.exec (.prepend x (.byte b)) = .ok { m with heap := m.heap.write i (b :: d) } :=
    bind_eq_ok.mpr ⟨i, Memory.ref_eq ref, bind_eq_ok.mpr ⟨d, load_eq here, rfl⟩⟩
  have changed := h.write_iff ref (Values.get_ok.mp found) (b :: d)
  simp only [List.cons_ne_self, false_or] at changed
  simp only [Follows, run, Except.ok.injEq, exists_eq_left', changed]

theorem prependVector_follows (h : m.Represents vs) {operand : Operand}
    (vector : ∀ b, operand ≠ .byte b) (meant : vs.exec (.prepend x operand) = .ok vs') :
    Follows m (.prepend x operand) vs' ↔ ¬m.Shared x := by
  have values : vs.exec (.prepend x operand) = (do
      let d ← vs.get x
      let data ← vs.operand operand
      let r ← ofFault (prepended d data)
      pure (Function.update vs x (some r))) := by
    cases operand with
    | byte b => exact absurd rfl (vector b)
    | bytes bs | of y => rfl
  have memory : m.exec (.prepend x operand) = (do
      let i ← m.ref x
      let data ← (← m.source operand).load m.heap
      let d ← load m.heap i
      let r ← ofFault (prepended d data)
      pure ⟨(m.heap.alloc r).1.free i, Function.update m.vars x (some (m.heap.alloc r).2)⟩) := by
    cases operand with
    | byte b => exact absurd rfl (vector b)
    | bytes bs | of y => rfl
  rw [values] at meant
  obtain ⟨d, found, meant⟩ := bind_eq_ok.mp meant
  obtain ⟨data, operands, meant⟩ := bind_eq_ok.mp meant
  obtain ⟨r, filled, same⟩ := bind_eq_ok.mp meant
  cases same
  obtain ⟨i, ref, here⟩ := h.lookup (Values.get_ok.mp found)
  obtain ⟨source, opened, loads, -⟩ := source_eq h operands
  have run : m.exec (.prepend x operand) = .ok ⟨(m.heap.alloc r).1.free i,
      Function.update m.vars x (some (m.heap.alloc r).2)⟩ := by
    rw [memory]
    exact bind_eq_ok.mpr ⟨i, Memory.ref_eq ref, bind_eq_ok.mpr ⟨source, opened,
      bind_eq_ok.mpr ⟨data, loads, bind_eq_ok.mpr ⟨d, load_eq here, bind_eq_ok.mpr ⟨r, filled, rfl⟩⟩⟩⟩⟩
  simp only [Follows, run, Except.ok.injEq, exists_eq_left']
  exact h.replace_iff ref r

/-- A copy which is made of a variable and deleted again changes nothing. -/
theorem plusAssign_follows {operand : Operand}
    (meant : vs.append x operand = .ok vs') :
    Follows m (.plusAssign x operand) vs' ↔
      ∃ m', m.append x operand = .ok m' ∧ m'.Represents vs' := by
  obtain ⟨d, data, found, operands, rfl⟩ := append_ok.mp meant
  constructor
  · rintro ⟨m₂, run, represents⟩
    obtain ⟨m₁, appended, rest⟩ := bind_eq_ok.mp run
    obtain ⟨i, ref, rest⟩ := bind_eq_ok.mp rest
    obtain ⟨d', loaded, same⟩ := bind_eq_ok.mp rest
    cases same
    exact ⟨m₁, appended, References.represents_temporary d' |>.mp represents⟩
  · rintro ⟨m₁, appended, represents⟩
    obtain ⟨i, ref, here⟩ := represents.lookup (x := x) (Function.update_self ..)
    refine ⟨_, bind_eq_ok.mpr ⟨m₁, appended, bind_eq_ok.mpr ⟨i, Memory.ref_eq ref,
      bind_eq_ok.mpr ⟨_, load_eq here, rfl⟩⟩⟩, ?_⟩
    exact (References.represents_temporary _).mpr represents

theorem exec_follows (h : m.Represents vs) {s : Statement} (meant : vs.exec s = .ok vs') :
    Follows m s vs' ↔ Careful m vs s := by
  cases s with
  | construct x init => exact iff_of_true (declare_follows h x init.data meant) trivial
  | copy x y =>
      obtain ⟨d, found, meant⟩ := bind_eq_ok.mp meant
      obtain ⟨i, ref, here⟩ := h.lookup (Values.get_ok.mp found)
      obtain ⟨m', declared, represents⟩ := declare_follows h x d meant
      refine iff_of_true ⟨m', ?_, represents⟩ trivial
      exact bind_eq_ok.mpr ⟨i, Memory.ref_eq ref, bind_eq_ok.mpr ⟨d, load_eq here, declared⟩⟩
  | assign x y =>
      obtain ⟨d, known, meant⟩ := bind_eq_ok.mp meant
      obtain ⟨d', found, same⟩ := bind_eq_ok.mp meant
      cases same
      obtain ⟨j, there, -⟩ := h.lookup (Values.get_ok.mp known)
      obtain ⟨i, ref, -⟩ := h.lookup (Values.get_ok.mp found)
      refine iff_of_true ⟨_, bind_eq_ok.mpr ⟨j, Memory.ref_eq there,
        bind_eq_ok.mpr ⟨i, Memory.ref_eq ref, rfl⟩⟩, ?_⟩ trivial
      have shared := h.share x y
      rwa [ref, Values.get_ok.mp found] at shared
  | append x data => exact append_follows h meant
  | prepend x data =>
      cases data with
      | byte b => exact prependByte_follows h b meant
      | bytes bs => exact prependVector_follows h (fun b same => by cases same) meant
      | of y => exact prependVector_follows h (fun b same => by cases same) meant
  | plusAssign x data => exact (plusAssign_follows meant).trans (append_follows h meant)
  | destroy x =>
      obtain ⟨d, found, same⟩ := bind_eq_ok.mp meant
      cases same
      obtain ⟨i, ref, here⟩ := h.lookup (Values.get_ok.mp found)
      have run : m.exec (.destroy x) = .ok ⟨m.heap.free i, Function.update m.vars x none⟩ :=
        bind_eq_ok.mpr ⟨i, Memory.ref_eq ref, bind_eq_ok.mpr ⟨d, load_eq here, rfl⟩⟩
      simp only [Follows, run, Except.ok.injEq, exists_eq_left']
      exact h.drop_iff ref

/-! ## Programs -/

/-- A program over vectors and the same program over bytes, side by side. -/
structure Execution where
  memory : Except Stop Memory := .ok {}
  values : Values := fun _ => none

/-- The bytes say whether there is a next statement. -/
def Execution.step (e : Execution) (s : Statement) : Except Stop Execution := do
  let values ← e.values.exec s
  pure ⟨e.memory >>= fun m => m.exec s, values⟩

/-- Every statement so far has come to its end, and every variable reads as its bytes. -/
def Execution.Agrees (e : Execution) : Prop := ∃ m : Memory, e.memory = .ok m ∧ m.Represents e.values

/-- The statement leaves alone what belongs to other variables. -/
def Execution.Careful (e : Execution) (s : Statement) : Prop :=
  ∀ m vs, e.memory = .ok m → e.values.exec s = .ok vs → HexData.Careful m e.values s

/-- The variables of a program read as if each had its own bytes if and only if no variable is
    changed, moved or destroyed while another one has its vector, and none is appended to
    itself. -/
theorem valueSemantics_iff (program : List Statement) :
    (∀ e, Runs.Reaches Execution.step {} program e → e.Agrees) ↔
      Runs.Throughout Execution.step Execution.Careful {} program := by
  refine Runs.reaches_iff (J := fun _ => True) ⟨{}, rfl, .empty⟩ trivial (fun _ _ _ _ _ => trivial)
    ?_ ?_
  · rintro e s e' - ⟨m, memory, represents⟩ first
    obtain ⟨vs, meant, same⟩ := bind_eq_ok.mp first
    cases same
    have follows := exec_follows represents meant
    constructor
    · rintro ⟨m', run, represents'⟩ m₁ vs₁ memory₁ -
      cases memory.symm.trans memory₁
      obtain ⟨m₂, memory₂, run⟩ := bind_eq_ok.mp run
      cases memory.symm.trans memory₂
      exact follows.mp ⟨m', run, represents'⟩
    · intro careful
      obtain ⟨m', run, represents'⟩ := follows.mpr (careful m vs memory meant)
      exact ⟨m', bind_eq_ok.mpr ⟨m, memory, run⟩, represents'⟩
  · rintro e s err - failed m vs memory meant
    have done : e.step s = .ok ⟨e.memory >>= fun m => m.exec s, vs⟩ :=
      bind_eq_ok.mpr ⟨vs, meant, rfl⟩
    cases failed.symm.trans done

/-- `d = 1`: a variable is assigned a temporary, which is then destroyed. -/
def assignTemporary : List Statement :=
  [.construct 0 (.byte 0), .construct 1 (.byte 1), .assign 0 1, .destroy 1]

/-- The vector of the variable is deleted with the temporary. -/
theorem not_valueSemantics_temporary :
    ∃ e m, Runs.Reaches Execution.step {} assignTemporary e ∧ e.values 0 = some [1] ∧
      e.memory = .ok m ∧ (m.ref 0 >>= load m.heap) = .error (.fault .useAfterFree) ∧ ¬e.Agrees := by
  refine ⟨_, _, .of_run rfl, rfl, rfl, rfl, ?_⟩
  rintro ⟨m, same, represents⟩
  cases same
  obtain ⟨i, ref, here⟩ := represents.lookup (x := 0) rfl
  cases ref
  cases here

end HexData

end VoxPopuli
