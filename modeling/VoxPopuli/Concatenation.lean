import VoxPopuli.Buffers

/-! # Concatenation of `HexData`

Seven functions of `HexData` put bytes behind bytes. Those which append do so in place; the
other ones fill a new vector by index. `operator+` stores its own bytes behind their own
number and `prepend` reads its argument twice, so each of them is right, wrong or out of
range depending on the operands.
-/

namespace VoxPopuli

namespace HexData

/-- `operator+`. -/
def plus (d data : List Byte) : Except Fault (List Byte) := do
  let r ← fill (List.replicate (data.length + d.length) 0) d d.length d.length
  fill r data 0 data.length

/-- The functions which join two operands, or an operand and a byte. -/
inductive Joining where
  /-- `a + b`. -/
  | plus
  /-- `a += b` for another `HexData`. -/
  | plusAssign
  /-- `a.append(b)` with a vector, which is `a += b` with a vector as well. -/
  | append
  /-- `b.prepend(a)` with a vector. -/
  | prepend
  /-- `a + x`. -/
  | plusByte
  /-- `a += x`. -/
  | plusAssignByte
  /-- `a.append(x)`. -/
  | appendByte
  deriving DecidableEq, Repr

namespace Joining

/-- The bytes a function is meant to give. -/
def meant (a b : List Byte) (x : Byte) : Joining → List Byte
  | plus | plusAssign | append | prepend => a ++ b
  | plusByte | plusAssignByte | appendByte => a ++ [x]

/-- The bytes it gives. What is changed in place is an object of its own on the heap. -/
def result (h : Vectors) (a b : List Byte) (x : Byte) : Joining → Except Stop (List Byte)
  | plus => ofFault (HexData.plus a b)
  | plusAssign => do
      let (h, this) := h.alloc a
      let (h, data) := h.alloc b
      let h ← appendVector h this (.shared data)
      load h this
  | append => do
      let (h, this) := h.alloc a
      let h ← appendVector h this (.own b)
      load h this
  | prepend => ofFault (prepended b a)
  | plusByte => ofFault (HexData.plusByte a x)
  | plusAssignByte | appendByte => do
      let (h, this) := h.alloc a
      let d ← load h this
      load (h.write this (d ++ [x])) this

/-- `b` repeats `a`, and is 0 where `operator+` has stored nothing. -/
def Repeats (a b : List Byte) : Prop :=
  a.length ≤ b.length ∧ b <+: a ++ b ∧
    ∀ j < b.length, a.length ≤ j → b.length ≤ a.length + j → b[j]? = some 0

/-- The operands for which a function gives what it is meant to. -/
def Right (a b : List Byte) : Joining → Prop
  | plus => a = [] ∨ Repeats a b
  | prepend => b <+: a
  | plusByte => a = [] ∨ a = [0]
  | plusAssign | append | plusAssignByte | appendByte => True

end Joining

/-! ## Filling a vector -/

theorem fill_succ (r data : List Byte) (offset n : Nat) :
    fill r data offset (n + 1) = (do
      let r ← fill r data offset n
      match data[n]? with
      | some b => store r (n + offset) b
      | none => throw .outOfRange) := by
  rw [fill, List.range_succ, List.foldlM_append]
  simp only [List.foldlM_cons, List.foldlM_nil, bind_pure]
  rfl

/-- The loop replaces a part of the vector, if it stays within both of them. -/
theorem fill_eq (r data : List Byte) (offset count : Nat) :
    fill r data offset count =
      if count = 0 ∨ count ≤ data.length ∧ offset + count ≤ r.length then
        .ok (r.take offset ++ data.take count ++ r.drop (offset + count))
      else .error .outOfRange := by
  induction count with
  | zero =>
      rw [if_pos (.inl rfl)]
      simp [fill, pure, Except.pure]
  | succ n ih =>
      rw [fill_succ, ih]
      by_cases fits : n + 1 ≤ data.length ∧ offset + (n + 1) ≤ r.length
      · have before : n = 0 ∨ n ≤ data.length ∧ offset + n ≤ r.length := by omega
        have here : data[n]? = some data[n] := List.getElem?_eq_getElem (by omega)
        rw [if_pos before, if_pos (.inr fits)]
        simp only [bind, Except.bind, here]
        rw [store, if_pos (by simp; omega)]
        congr 1
        apply List.ext_getElem?
        intro i
        simp only [List.getElem?_set, List.getElem?_append, List.getElem?_take, List.getElem?_drop,
          List.length_append, List.length_take]
        grind
      · have outside : ¬(n + 1 = 0 ∨ n + 1 ≤ data.length ∧ offset + (n + 1) ≤ r.length) := by
          omega
        rw [if_neg outside]
        by_cases before : n = 0 ∨ n ≤ data.length ∧ offset + n ≤ r.length
        · rw [if_pos before]
          simp only [bind, Except.bind]
          cases here : data[n]? with
          | none => rfl
          | some b =>
              have inside : n < data.length := (List.getElem?_eq_some_iff.mp here).1
              dsimp only
              rw [store, if_neg ?_]
              · rfl
              · simp only [List.length_append, List.length_take, List.length_drop]
                omega
        · rw [if_neg before]
          rfl

/-! ## What the functions give -/

variable {a b : List Byte}

theorem prepended_eq (d data : List Byte) :
    prepended d data =
      if d.length ≤ data.length then .ok (data ++ data.take d.length) else .error .outOfRange := by
  rw [prepended, fill_eq, if_pos (.inr (by simp))]
  simp only [bind, Except.bind]
  rw [fill_eq]
  by_cases covered : d.length ≤ data.length
  · rw [if_pos covered, if_pos (by simp [covered])]
    simp
  · rw [if_neg covered, if_neg (by omega)]

theorem plus_eq (d data : List Byte) :
    plus d data =
      if d = [] ∨ d.length ≤ data.length then
        .ok (data ++ (d ++ List.replicate (data.length - d.length) 0).drop
          (data.length - d.length))
      else .error .outOfRange := by
  rw [plus, fill_eq]
  by_cases fits : d = [] ∨ d.length ≤ data.length
  · have inside : d.length = 0 ∨ d.length ≤ d.length ∧
        d.length + d.length ≤ (List.replicate (data.length + d.length) (0 : Byte)).length := by
      rw [List.length_replicate, List.length_eq_zero_iff]
      exact fits.imp_right fun shorter => ⟨le_rfl, by omega⟩
    rw [if_pos fits, if_pos inside]
    simp only [bind, Except.bind]
    rw [fill_eq, if_pos (.inr ⟨le_rfl, by simp; omega⟩)]
    congr 1
    apply List.ext_getElem?
    intro i
    simp only [List.getElem?_append, List.getElem?_take, List.getElem?_drop, List.length_append,
      List.length_take, List.length_drop, List.length_replicate, List.getElem?_replicate]
    grind
  · have outside : ¬(d.length = 0 ∨ d.length ≤ d.length ∧
        d.length + d.length ≤ (List.replicate (data.length + d.length) (0 : Byte)).length) := by
      rw [List.length_replicate, List.length_eq_zero_iff]
      exact fun inside => fits (inside.imp_right fun shorter => by omega)
    rw [if_neg fits, if_neg outside]
    rfl

theorem plusByte_cons_cons (c c' : Byte) (d : List Byte) (data : Byte) :
    plusByte (c :: c' :: d) data = .error .outOfRange := by
  have second : List.range (d.length + 1 + 1) =
      0 :: 1 :: (List.range d.length).map fun i => i + 1 + 1 := by
    rw [List.range_succ_eq_map, List.range_succ_eq_map]
    simp
  rw [plusByte, List.length_cons, List.length_cons, second, List.foldlM_cons]
  -- The first byte goes to the last place, the second one behind the vector.
  rw [store, if_pos (by simp), pure_bind, List.foldlM_cons, store, if_neg (by simp)]
  rfl

/-- A vector which is appended is read to its end. -/
theorem load_appendVector {h : Vectors} {this : Nat} {source : Source}
    (apart : source.Apart this) (loads : source.load h = .ok b) (here : h.read this = some a) :
    (appendVector h this source >>= fun h => load h this) = .ok (a ++ b) := by
  classical
  rw [appendVector_eq loads here, if_pos (.inr apart)]
  exact load_eq (Heap.read_write_self here)

/-! ## When they are right -/

theorem ofFault_eq_ok {r : Except Fault (List Byte)} {d : List Byte} :
    ofFault r = .ok d ↔ r = .ok d := by
  cases r <;> simp [ofFault, pure, Except.pure, throw, throwThe, MonadExceptOf.throw]

theorem prepended_right : prepended b a = .ok (a ++ b) ↔ b <+: a := by
  rw [prepended_eq]
  by_cases covered : b.length ≤ a.length
  · rw [if_pos covered, Except.ok.injEq, List.append_right_inj, List.prefix_iff_eq_take, eq_comm]
  · rw [if_neg covered]
    exact iff_of_false (by simp) fun start => covered start.length_le

theorem plusByte_right {x : Byte} : plusByte a x = .ok (a ++ [x]) ↔ a = [] ∨ a = [0] := by
  match a with
  | [] => exact iff_of_true rfl (.inl rfl)
  | [c] =>
      rw [plusByte_single]
      simp [eq_comm]
  | c :: c' :: d =>
      rw [plusByte_cons_cons]
      simp

/-- What stands where `operator+` puts the end of its result. -/
theorem repeats_iff (shorter : a.length ≤ b.length) :
    b ++ (a ++ List.replicate (b.length - a.length) 0).drop (b.length - a.length) = a ++ b ↔
      b <+: a ++ b ∧ ∀ j < b.length, a.length ≤ j → b.length ≤ a.length + j → b[j]? = some 0 := by
  -- The place `j` of the second `b` in `a ++ b`, seen from both sides.
  have tail : ∀ i, (b ++ (a ++ List.replicate (b.length - a.length) 0).drop
      (b.length - a.length))[b.length + i]? =
        if b.length + i < 2 * a.length then a[b.length + i - a.length]?
        else if i < a.length then some 0 else none := by
    intro i
    simp only [List.getElem?_append, List.getElem?_drop, List.getElem?_replicate]
    grind
  have behind : ∀ (d d' : List Byte) (j : Nat), (d ++ d')[d.length + j]? = d'[j]? := by
    intro d d' j
    rw [List.getElem?_append_right (Nat.le_add_right _ _), Nat.add_sub_cancel_left]
  constructor
  · intro same
    refine ⟨⟨_, same⟩, fun j inside outside covered => ?_⟩
    have here := tail (a.length + j - b.length)
    rw [same, show b.length + (a.length + j - b.length) = a.length + j by omega, behind] at here
    grind
  · rintro ⟨⟨t, start⟩, zero⟩
    rw [← start, List.append_right_inj]
    apply List.ext_getElem?
    intro i
    have first : ∀ k < a.length, b[k]? = a[k]? := by
      intro k inside
      have ends := congrArg (·[k]?) start
      simp only [List.getElem?_append] at ends
      grind
    have left := behind b t i
    have right := tail i
    rw [behind] at right
    have moved := behind a b (b.length + i - a.length)
    rw [← start, show a.length + (b.length + i - a.length) = b.length + i by omega, left] at moved
    rw [moved, right]
    grind

theorem plus_right : plus a b = .ok (a ++ b) ↔ a = [] ∨ Joining.Repeats a b := by
  rw [plus_eq, Joining.Repeats]
  by_cases empty : a = []
  · subst empty
    simp
  · by_cases shorter : a.length ≤ b.length
    · rw [if_pos (.inr shorter), Except.ok.injEq, repeats_iff shorter]
      simp [empty, shorter]
    · rw [if_neg (by simp [empty, shorter])]
      simp [empty, shorter]

/-- Each of the functions is right exactly for these operands; for the other ones it gives
    other bytes or stores or reads out of range. -/
theorem joining_iff (h : Vectors) (f : Joining) (a b : List Byte) (x : Byte) :
    f.result h a b x = .ok (f.meant a b x) ↔ f.Right a b := by
  cases f with
  | plus => exact ofFault_eq_ok.trans plus_right
  | prepend => exact ofFault_eq_ok.trans prepended_right
  | plusByte => exact ofFault_eq_ok.trans plusByte_right
  | append => exact iff_of_true (load_appendVector trivial rfl Heap.read_alloc_self) trivial
  | plusAssign =>
      have this : (h.alloc a).1.read (h.alloc a).2 = some a := Heap.read_alloc_self
      have apart : (Source.shared ((h.alloc a).1.alloc b).2).Apart (h.alloc a).2 :=
        (Heap.alloc_ne_of_read this).symm
      exact iff_of_true (load_appendVector apart (load_eq Heap.read_alloc_self)
        (Heap.read_alloc_of_read this)) trivial
  | plusAssignByte | appendByte =>
      have this : (h.alloc a).1.read (h.alloc a).2 = some a := Heap.read_alloc_self
      refine iff_of_true ?_ trivial
      simp only [Joining.result, load_eq this, bind, Except.bind]
      exact load_eq (Heap.read_write_self this)

/-- `HexData(1) + HexData(2)` gives 2 and 1, a longer operand is stored out of range. -/
theorem not_joining_plus :
    (¬∀ (h : Vectors) (f : Joining) (a b : List Byte) (x : Byte),
        f.result h a b x = .ok (f.meant a b x)) ∧
      HexData.plus [1] [2] = .ok [2, 1] ∧ HexData.plus [1, 2] [3] = .error .outOfRange ∧
      prepended [2] [1] = .ok [1, 1] ∧ HexData.plusByte [1, 2] 3 = .error .outOfRange := by
  refine ⟨fun joins => ?_, rfl, rfl, rfl, rfl⟩
  have wrong : (Except.ok [2, 1] : Except Stop (List Byte)) = .ok [1, 2] :=
    joins {} .plus [1] [2] 0
  exact absurd wrong (by decide)

end HexData

end VoxPopuli
