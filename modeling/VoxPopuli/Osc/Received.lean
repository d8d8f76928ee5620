import VoxPopuli.Lib.Ends
import VoxPopuli.Osc.Outbound

/-! # Reading an OSC packet

The listener takes a packet for a bundle or for a message by its first byte. A message is
checked as a whole before its arguments are decoded, by pointers into the packet which are
not checked again. What `sendMsg` has composed is decoded to what it was composed of, unless
the address looks like a bundle. Nothing is read outside the packet, except what is taken for
the size of a blob: the exceptions which should prevent that are made but never thrown.

An `unsigned long` has four bytes here and a pointer eight, as under 64-bit Windows. Where both
have eight, the upper half of every size which is read from a packet is not initialised.
-/

namespace VoxPopuli

namespace Osc

/-- What ends the thread of a listener. -/
inductive Refused where
  | malformedMessage (text : String)
  | malformedBundle (text : String)
  /-- The size of a blob is read from beyond the packet. -/
  | blobSize
  /-- The loop of `ReceivedBundle::Init` goes on for ever. -/
  | endless
  | fault (f : Fault)
  deriving DecidableEq, Repr

/-! ## Pointers into the packet -/

/-- `*p`. -/
def byteAt (packet : List Byte) (p : Nat) : Except Refused Byte :=
  match packet[p]? with
  | some b => .ok b
  | none => .error (.fault .outOfRange)

/-- The bytes from `p` on, which `ToInt32` and the like put together. -/
def bytesAt (packet : List Byte) (p count : Nat) : Except Refused (List Byte) :=
  if p + count ≤ packet.length then .ok ((packet.drop p).take count)
  else .error (.fault .outOfRange)

/-- A number in big endian order. -/
def numberAt (packet : List Byte) (p count : Nat) : Except Refused Nat := do
  return Numeral.value (← bytesAt packet p count).reverse

/-- A C string. -/
def cStringAt (packet : List Byte) (p : Nat) : Except Refused (List Byte) :=
  if 0 ∈ packet.drop p then .ok ((packet.drop p).takeWhile (· ≠ 0))
  else .error (.fault .outOfRange)

/-- The loop of `FindStr4End`, which looks at the last byte of every four. -/
def findLast (packet : List Byte) (p last : Nat) : Except Refused Nat :=
  if p < last then do
    if (← byteAt packet p) ≠ 0 then findLast packet (p + 4) last else return p
  else return p
termination_by last - p

/-- `FindStr4End` with an end; `none` if the string is not terminated. -/
def findStr4End (packet : List Byte) (p stop : Nat) : Except Refused (Option Nat) :=
  if stop ≤ p then return none
  else do
    if (← byteAt packet p) = 0 then return some (p + 4)
    else do
      let q ← findLast packet (p + 3) (stop - 1)
      if (← byteAt packet q) ≠ 0 then return none else return some (q + 1)

/-- `FindStr4End` without an end: the last byte of every four up to a zero. -/
def findZero (packet : List Byte) (p : Nat) : Except Refused Nat :=
  match h : packet[p]? with
  | none => .error (.fault .outOfRange)
  | some b => if b = 0 then .ok (p + 1) else findZero packet (p + 4)
termination_by packet.length - p
decreasing_by
  have inside := (List.getElem?_eq_some_iff.mp h).1
  omega

def skipStr4 (packet : List Byte) (p : Nat) : Except Refused Nat := do
  if (← byteAt packet p) = 0 then return p + 4 else findZero packet (p + 3)

/-- `RoundUp4` of an unsigned number. -/
def roundUp (x : Nat) : Nat := (x + 3) / 4 * 4 % 2 ^ 32

/-! ## Arguments -/

/-- How far the data of an argument goes. -/
inductive Width where
  | fixed (bytes : Nat)
  | string
  | blob
  deriving DecidableEq, Repr

/-- The cases of the type tags: `T F N I`, `i f c r m`, `h t d`, `s S`, `b`. -/
def widthOf (tag : Byte) : Option Width :=
  if tag ∈ ([84, 70, 78, 73] : List Byte) then some (.fixed 0)
  else if tag ∈ ([105, 102, 99, 114, 109] : List Byte) then some (.fixed 4)
  else if tag ∈ ([104, 116, 100] : List Byte) then some (.fixed 8)
  else if tag ∈ ([115, 83] : List Byte) then some .string
  else if tag = 98 then some .blob
  else none

/-- `ToUInt32` of the size of a blob. -/
def blobSizeAt (packet : List Byte) (p : Nat) : Except Refused Nat :=
  if p + 4 ≤ packet.length then numberAt packet p 4 else .error .blobSize

def exceeded : Refused := .malformedMessage "arguments exceed message size"

/-- One argument of the loop in `ReceivedMessage::Init`. -/
def checkArgument (packet : List Byte) (stop : Nat) (tag : Byte) (argument : Nat) :
    Except Refused Nat :=
  match widthOf tag with
  | some (.fixed 0) => return argument
  | some (.fixed width) =>
      if argument = stop then throw exceeded
      else if stop < argument + width then throw exceeded
      else return argument + width
  | some .string =>
      if argument = stop then throw exceeded
      else do
        match ← findStr4End packet argument stop with
        | none => throw (.malformedMessage "unterminated string argument")
        | some next => return next
  | some .blob => do
      -- both exceptions of this case are made, and not thrown
      let blobSize ← blobSizeAt packet argument
      return argument + 4 + roundUp blobSize
  | none => throw (.malformedMessage "unknown type tag")

/-- The loop over the type tags: where they end. -/
def checkTags (packet : List Byte) (stop typeTag argument : Nat) : Except Refused Nat :=
  match here : packet[typeTag]? with
  | none => .error (.fault .outOfRange)
  | some tag => do
      let argument ← checkArgument packet stop tag argument
      if (← byteAt packet (typeTag + 1)) = 0 then return typeTag + 1
      else checkTags packet stop (typeTag + 1) argument
termination_by packet.length - typeTag
decreasing_by
  have inside := (List.getElem?_eq_some_iff.mp here).1
  omega

/-- The type tags and the arguments of a message. -/
structure Arguments where
  typeTagsBegin : Nat
  typeTagsEnd : Nat
  arguments : Nat

/-- The second part of `ReceivedMessage::Init`, from the comma of the type tags on; `none` is a
    message without arguments. -/
def initArguments (packet : List Byte) (typeTagsBegin stop : Nat) :
    Except Refused (Option Arguments) := do
  if (← byteAt packet typeTagsBegin) ≠ 44 then
    throw (.malformedMessage "type tags not present")
  if (← byteAt packet (typeTagsBegin + 1)) = 0 then return none
  match ← findStr4End packet typeTagsBegin stop with
  | none => throw (.malformedMessage "type tags were not terminated before end of message")
  | some arguments =>
      let typeTagsEnd ← checkTags packet stop (typeTagsBegin + 1) arguments
      return some ⟨typeTagsBegin + 1, typeTagsEnd, arguments⟩

/-- `ReceivedMessage::Init`. -/
def initMessage (packet : List Byte) (message size : Nat) : Except Refused (Option Arguments) :=
  if size = 0 then throw (.malformedMessage "zero length messages not permitted")
  else if size % 4 ≠ 0 then throw (.malformedMessage "message size must be multiple of four")
  else do
    match ← findStr4End packet message (message + size) with
    | none => throw (.malformedMessage "unterminated address pattern")
    | some typeTagsBegin =>
        if typeTagsBegin = message + size then return none
        else initArguments packet typeTagsBegin (message + size)

/-- An element of the list which `decodeMsg` makes. A text is still in its bytes. -/
inductive Value where
  | bool (b : Bool)
  | int32 (n : BitVec 32)
  | int64 (n : BitVec 64)
  | char (c : BitVec 8)
  | float (bits : BitVec 32)
  | double (bits : BitVec 64)
  | string (s : List Byte)
  deriving DecidableEq, Repr

/-- The body of the loop of `decodeMsg`: other arguments than these leave nothing. -/
def valueAt (packet : List Byte) (tag : Byte) (argument : Nat) :
    Except Refused (List Value) := do
  if tag = 115 then return [.string (← cStringAt packet argument)]
  else if tag = 102 then return [.float (.ofNat 32 (← numberAt packet argument 4))]
  else if tag = 100 then return [.double (.ofNat 64 (← numberAt packet argument 8))]
  else if tag = 99 then return [.char (.ofNat 8 (← numberAt packet argument 4))]
  else if tag = 84 then return [.bool true]
  else if tag = 70 then return [.bool false]
  else if tag = 105 then return [.int32 (.ofNat 32 (← numberAt packet argument 4))]
  else if tag = 104 then return [.int64 (.ofNat 64 (← numberAt packet argument 8))]
  else return []

/-- `ReceivedMessageArgumentIterator::Advance`, as far as the argument goes. -/
def advance (packet : List Byte) (tag : Byte) (argument : Nat) : Except Refused Nat :=
  match widthOf tag with
  | some (.fixed width) => return argument + width
  | some .string => skipStr4 packet argument
  | some .blob => do return argument + 4 + roundUp (← blobSizeAt packet argument)
  | none => return argument

/-- The loop of `decodeMsg` over `count` type tags. -/
def decodeFrom (packet : List Byte) : Nat → Nat → Nat → Except Refused (List Value)
  | 0, _, _ => return []
  | count + 1, typeTag, argument => do
      let tag ← byteAt packet typeTag
      let value ← valueAt packet tag argument
      let next ← advance packet tag argument
      return value ++ (← decodeFrom packet count (typeTag + 1) next)

/-- `decodeMsg`. -/
def decodeMsg (packet : List Byte) : Option Arguments → Except Refused (List Value)
  | none => return []
  | some m => decodeFrom packet (m.typeTagsEnd - m.typeTagsBegin) m.typeTagsBegin m.arguments

/-! ## Bundles -/

/-- What a listener hands on: an address and what has been decoded. -/
abbrev Msg := List Byte × List Value

/-- `ReceivedMessage`, then `Listener::ProcessMessage`; `accepts` is the address filter. -/
def processMessage (accepts : List Byte → Bool) (packet : List Byte) (message size : Nat) :
    Except Refused (List Msg) := do
  let m ← initMessage packet message size
  let addr ← cStringAt packet message
  if !accepts addr then return []
  return [(addr, ← decodeMsg packet m)]

/-- `4 + elementSize`. -/
def stride (elementSize : Nat) : Nat := (4 + elementSize) % 2 ^ 32

/-- The loop of `ReceivedBundle::Init` from `p` on: where the elements are and how long. -/
def elements (packet : List Byte) (p stop : Nat) : Except Refused (List (Nat × Nat)) :=
  if p < stop then do
    if stop < p + 4 then throw (.malformedBundle "packet too short for elementSize")
    let elementSize ← numberAt packet p 4
    if elementSize % 4 ≠ 0 then
      throw (.malformedBundle "bundle element size must be multiple of four")
    if stop < p + stride elementSize then
      throw (.malformedBundle "packet too short for bundle element")
    if stays : stride elementSize = 0 then throw .endless
    else return (p + 4, elementSize) :: (← elements packet (p + stride elementSize) stop)
  else return []
termination_by stop - p

/-- `ReceivedBundle::Init`. -/
def initBundle (packet : List Byte) (bundle size : Nat) : Except Refused (List (Nat × Nat)) := do
  if size < 16 then throw (.malformedBundle "packet too short for bundle")
  if size % 4 ≠ 0 then throw (.malformedBundle "bundle size must be multiple of four")
  if (← bytesAt packet bundle 8) ≠ OutboundPacketStream.bundleMark then
    throw (.malformedBundle "bad bundle address pattern")
  elements packet (bundle + 16) (bundle + size)

/-- `IsBundle`. -/
def isBundle (packet : List Byte) (p size : Nat) : Except Refused Bool :=
  if 0 < size then do return (← byteAt packet p) = 35 else return false

/-- `ProcessBundle`, which calls itself for a bundle in the bundle; `depth` bounds how often. -/
def processBundle (accepts : List Byte → Bool) (packet : List Byte) :
    Nat → Nat → Nat → Except Refused (List Msg)
  | 0, _, _ => .error (.fault .stackOverflow)
  | depth + 1, bundle, size => do
      (← initBundle packet bundle size).foldlM (fun msgs (p, elementSize) => do
        if ← isBundle packet p elementSize then
          return msgs ++ (← processBundle accepts packet depth p elementSize)
        else return msgs ++ (← processMessage accepts packet p elementSize)) []

/-- `ProcessPacket`. -/
def processPacket (accepts : List Byte → Bool) (packet : List Byte) :
    Except Refused (List Msg) := do
  if ← isBundle packet 0 packet.length then
    processBundle accepts packet packet.length 0 packet.length
  else processMessage accepts packet 0 packet.length

/-! ## What is read -/

/-- What is no exception. -/
inductive Refused.Bad : Refused → Prop where
  | fault (f : Fault) : Bad (.fault f)
  | endless : Bad .endless

def Refused.Thrown (e : Refused) : Prop := ¬ e.Bad

theorem byteAt_ends {packet : List Byte} {p : Nat} (inside : p < packet.length) :
    Ends Refused.Thrown (byteAt packet p) fun b => packet[p]? = some b := by
  rw [byteAt, List.getElem?_eq_getElem inside]
  exact rfl

theorem numberAt_ends {packet : List Byte} {p count : Nat} (inside : p + count ≤ packet.length) :
    Ends Refused.Thrown (numberAt packet p count) fun n =>
      numberAt packet p count = .ok n ∧ n < 256 ^ count := by
  have length : ((packet.drop p).take count).reverse.length = count := by
    rw [List.length_reverse, List.length_take, List.length_drop]
    omega
  have bound := Numeral.value_lt ((packet.drop p).take count).reverse
  rw [length] at bound
  rw [numberAt, bytesAt, if_pos inside]
  exact ⟨rfl, bound⟩

theorem cStringAt_ends {packet : List Byte} {p z : Nat} (behind : p ≤ z)
    (zero : packet[z]? = some 0) : Ends Refused.Thrown (cStringAt packet p) fun _ => True := by
  have member : (0 : Byte) ∈ packet.drop p :=
    List.mem_of_getElem? (by rwa [List.getElem?_drop, Nat.add_sub_cancel' behind])
  rw [cStringAt, if_pos member]
  exact trivial

theorem findZero_eq {packet : List Byte} {p : Nat} {b : Byte} (here : packet[p]? = some b) :
    findZero packet p = if b = 0 then .ok (p + 1) else findZero packet (p + 4) := by
  rw [findZero]
  split
  · rename_i none
    rw [none] at here
    cases here
  · rename_i b' same
    rw [same] at here
    obtain rfl := Option.some.inj here
    rfl

/-- The loop with an end stops at a zero where the one without an end does. -/
theorem findLast_ends {packet : List Byte} {p last : Nat} (inside : last < packet.length)
    (le : p ≤ last) (aligned : (last - p) % 4 = 0) :
    Ends Refused.Thrown (findLast packet p last) fun q =>
      p ≤ q ∧ q ≤ last ∧ (last - q) % 4 = 0 ∧
        (packet[q]? = some 0 → findZero packet p = .ok (q + 1)) := by
  have here : packet[p]? = some 0 → findZero packet p = .ok (p + 1) := fun zero => by
    rw [findZero_eq zero, if_pos rfl]
  induction size : last - p using Nat.strong_induction_on generalizing p with
  | _ n ih =>
      rw [findLast]
      split
      · rename_i before
        refine (byteAt_ends (by omega)).bind fun b read => ?_
        by_cases zero : b = 0
        · rw [if_neg (by simpa using zero)]
          exact ⟨le_rfl, le, aligned, here⟩
        · rw [if_pos zero]
          refine (ih _ (by omega) (by omega) (by omega)
            (fun zero' => by rw [findZero_eq zero', if_pos rfl]) rfl).mono ?_
          rintro q ⟨behind, within, aligned', found⟩
          refine ⟨by omega, within, aligned', fun zero' => ?_⟩
          rw [findZero_eq read, if_neg zero, found zero']
      · exact ⟨le_rfl, le, aligned, here⟩

/-- A string between these two offsets is terminated, and can be skipped without looking out
    for the end. -/
structure Terminated (packet : List Byte) (p q : Nat) : Prop where
  zero : ∃ z, p ≤ z ∧ z < q ∧ packet[z]? = some 0
  skip : skipStr4 packet p = .ok q

theorem findStr4End_ends {packet : List Byte} {p stop : Nat} (inside : stop ≤ packet.length)
    (aligned : p ≤ stop → (stop - p) % 4 = 0) :
    Ends Refused.Thrown (findStr4End packet p stop) fun r =>
      ∀ q, r = some q → p < q ∧ q ≤ stop ∧ (stop - q) % 4 = 0 ∧ Terminated packet p q := by
  rw [findStr4End]
  split
  · exact nofun
  · rename_i before
    have aligned := aligned (by omega)
    refine (byteAt_ends (by omega)).bind fun b first => ?_
    have start : byteAt packet p = .ok b := by rw [byteAt, first]
    by_cases zero : b = 0
    · rw [if_pos zero]
      rintro q ⟨⟩
      refine ⟨by omega, by omega, by omega, ⟨p, le_rfl, by omega, zero ▸ first⟩, ?_⟩
      rw [skipStr4, start]
      simp only [bind, Except.bind, if_pos zero]
      rfl
    · rw [if_neg zero]
      refine (findLast_ends (by omega) (by omega) (by omega)).bind ?_
      rintro q ⟨behind, within, aligned', found⟩
      refine (byteAt_ends (by omega)).bind fun b' last => ?_
      by_cases zero' : b' = 0
      · rw [if_neg (by simpa using zero')]
        subst zero'
        rintro q' ⟨⟩
        refine ⟨by omega, by omega, by omega, ⟨q, by omega, by omega, last⟩, ?_⟩
        rw [skipStr4, start]
        simp only [bind, Except.bind, if_neg zero]
        exact found last
      · rw [if_pos zero']
        exact nofun

/-- Where an argument may begin: at a multiple of four before the end, or anywhere behind it. -/
def Aligned (stop argument : Nat) : Prop := argument ≤ stop → (stop - argument) % 4 = 0

theorem valueAt_ends {packet : List Byte} {tag : Byte} {argument : Nat}
    (data : ∀ width, widthOf tag = some (.fixed width) → width ≠ 0 →
      argument + width ≤ packet.length)
    (text : widthOf tag = some .string → ∃ z, argument ≤ z ∧ packet[z]? = some 0) :
    Ends Refused.Thrown (valueAt packet tag argument) fun _ => True := by
  have number : ∀ {width : Nat} {make : Nat → List Value},
      widthOf tag = some (.fixed width) → width ≠ 0 →
      Ends Refused.Thrown (do return make (← numberAt packet argument width)) fun _ => True :=
    fun width some => (numberAt_ends (data _ width some)).bind fun _ _ => trivial
  unfold valueAt
  split_ifs with s f d c t n i h
  · obtain ⟨z, behind, zero⟩ := text (by rw [s]; decide)
    exact (cStringAt_ends behind zero).bind fun _ _ => trivial
  · exact number (by rw [f]; decide) (by decide)
  · exact number (by rw [d]; decide) (by decide)
  · exact number (by rw [c]; decide) (by decide)
  · exact trivial
  · exact trivial
  · exact number (by rw [i]; decide) (by decide)
  · exact number (by rw [h]; decide) (by decide)
  · exact trivial

theorem widthOf_fixed {tag : Byte} {width : Nat} (h : widthOf tag = some (.fixed width)) :
    width % 4 = 0 := by
  unfold widthOf at h
  split_ifs at h <;> cases h <;> rfl

/-- An argument which passes its check can be decoded and advanced over. -/
theorem checkArgument_ends {packet : List Byte} {stop argument : Nat}
    (inside : stop ≤ packet.length) (aligned : Aligned stop argument) (tag : Byte) :
    Ends Refused.Thrown (checkArgument packet stop tag argument) fun next =>
      Aligned stop next ∧ advance packet tag argument = .ok next ∧
        Ends Refused.Thrown (valueAt packet tag argument) fun _ => True := by
  unfold checkArgument advance
  cases kind : widthOf tag with
  | none => exact nofun
  | some width =>
      have noText : width ≠ .string →
          (widthOf tag = some .string → ∃ z, argument ≤ z ∧ packet[z]? = some 0) :=
        fun other text => absurd (Option.some.inj (kind.symm.trans text)) other
      cases width with
      | fixed bytes =>
          have multiple := widthOf_fixed kind
          have same : ∀ w, widthOf tag = some (.fixed w) → w = bytes := by
            intro w kind'
            cases kind.symm.trans kind'
            rfl
          cases bytes with
          | zero =>
              exact ⟨aligned, rfl, valueAt_ends (fun w kind' some => absurd (same w kind') some)
                (noText nofun)⟩
          | succ bytes =>
              simp only
              split
              · exact nofun
              · split
                · exact nofun
                · rename_i before after
                  refine ⟨fun le => ?_, rfl, valueAt_ends (fun w kind' _ => ?_) (noText nofun)⟩
                  · have aligned := aligned (by omega)
                    omega
                  · obtain rfl := same w kind'
                    omega
      | string =>
          simp only
          split
          · exact nofun
          · refine (findStr4End_ends inside aligned).bind fun r found => ?_
            cases r with
            | none => exact nofun
            | some next =>
                obtain ⟨-, within, aligned', ⟨z, behind, -, zero⟩, skip⟩ := found next rfl
                refine ⟨fun _ => aligned', skip, valueAt_ends (fun w kind' => ?_)
                  fun _ => ⟨z, behind, zero⟩⟩
                cases kind.symm.trans kind'
      | blob =>
          simp only
          rw [blobSizeAt]
          split
          · rename_i read
            have ends := numberAt_ends read
            cases size : numberAt packet argument 4 with
            | error e => exact ends.of_error size
            | ok blobSize =>
                refine ⟨fun le => ?_, rfl, valueAt_ends (fun w kind' => ?_) (noText nofun)⟩
                · have aligned := aligned (by omega)
                  simp only [roundUp] at le ⊢
                  omega
                · cases kind.symm.trans kind'
          · exact nofun

/-- What has been checked is decoded without a look beyond the packet. -/
theorem checkTags_ends {packet : List Byte} {stop typeTag argument z : Nat} {tag : Byte}
    (inside : stop ≤ packet.length) (aligned : Aligned stop argument)
    (here : packet[typeTag]? = some tag) (nonzero : tag ≠ 0) (behind : typeTag < z)
    (zero : packet[z]? = some 0) :
    Ends Refused.Thrown (checkTags packet stop typeTag argument) fun e =>
      typeTag < e ∧
        Ends Refused.Thrown (decodeFrom packet (e - typeTag) typeTag argument) fun _ => True := by
  induction size : z - typeTag using Nat.strong_induction_on
    generalizing typeTag argument tag with
  | _ n ih =>
      have bound : z < packet.length := (List.getElem?_eq_some_iff.mp zero).1
      have read : byteAt packet typeTag = .ok tag := by rw [byteAt, here]
      rw [checkTags]
      split
      · rename_i none
        cases none.symm.trans here
      · rename_i tag' same
        obtain rfl : tag' = tag := Option.some.inj (same.symm.trans here)
        refine (checkArgument_ends inside aligned tag').bind ?_
        rintro next ⟨aligned', advanced, value⟩
        refine (byteAt_ends (by omega)).bind fun b after => ?_
        -- the loop of `decodeMsg` goes on as this one does
        have goes : ∀ {count : Nat},
            Ends Refused.Thrown (decodeFrom packet count (typeTag + 1) next) (fun _ => True) →
            Ends Refused.Thrown (decodeFrom packet (count + 1) typeTag argument) fun _ => True := by
          intro count later
          rw [decodeFrom, read]
          refine value.bind fun v _ => ?_
          rw [advanced]
          exact later.bind fun _ _ => trivial
        by_cases last : b = 0
        · rw [if_pos last]
          refine ⟨by omega, ?_⟩
          rw [Nat.add_sub_cancel_left]
          exact goes (by exact trivial)
        · rw [if_neg last]
          have before : typeTag + 1 ≠ z := fun there => last (Option.some.inj
            (after.symm.trans (there ▸ zero)))
          refine (ih _ (by omega) aligned' after last (by omega) rfl).mono ?_
          rintro e ⟨further, later⟩
          refine ⟨by omega, ?_⟩
          rw [show e - typeTag = e - (typeTag + 1) + 1 by omega]
          exact goes later

theorem initArguments_ends {packet : List Byte} {typeTagsBegin stop : Nat}
    (inside : stop ≤ packet.length) (before : typeTagsBegin < stop)
    (aligned : (stop - typeTagsBegin) % 4 = 0) :
    Ends Refused.Thrown (initArguments packet typeTagsBegin stop) fun m =>
      Ends Refused.Thrown (decodeMsg packet m) fun _ => True := by
  refine (byteAt_ends (by omega)).bind fun comma atComma => ?_
  split
  · exact nofun
  · rename_i isComma
    refine (byteAt_ends (by omega)).bind fun first atFirst => ?_
    split
    · exact trivial
    · rename_i nonzero
      refine (findStr4End_ends inside fun _ => aligned).bind fun r found => ?_
      cases r with
      | none => exact nofun
      | some arguments =>
          obtain ⟨-, -, aligned', ⟨z, behind, -, zero⟩, -⟩ := found arguments rfl
          have notComma : typeTagsBegin ≠ z := by
            rintro rfl
            rw [atComma] at zero
            rw [Option.some.inj zero] at isComma
            exact isComma (by decide)
          have notFirst : typeTagsBegin + 1 ≠ z := by
            rintro rfl
            exact nonzero (Option.some.inj (atFirst.symm.trans zero))
          refine (checkTags_ends inside (fun _ => aligned') atFirst nonzero (by omega) zero).bind ?_
          rintro typeTagsEnd ⟨-, decoded⟩
          exact decoded

theorem initMessage_ends {packet : List Byte} {message size : Nat}
    (inside : message + size ≤ packet.length) :
    Ends Refused.Thrown (initMessage packet message size) fun m =>
      (∃ z, message ≤ z ∧ packet[z]? = some 0) ∧
        Ends Refused.Thrown (decodeMsg packet m) fun _ => True := by
  rw [initMessage]
  split
  · exact nofun
  · split
    · exact nofun
    · rename_i filled whole
      refine (findStr4End_ends inside fun _ => by omega).bind fun r found => ?_
      cases r with
      | none => exact nofun
      | some typeTagsBegin =>
          obtain ⟨-, within, aligned, ⟨z, behind, -, zero⟩, -⟩ := found typeTagsBegin rfl
          have terminated : ∃ z, message ≤ z ∧ packet[z]? = some 0 := ⟨z, behind, zero⟩
          simp only
          split
          · exact ⟨terminated, trivial⟩
          · exact (initArguments_ends inside (by omega) aligned).mono fun _ decoded =>
              ⟨terminated, decoded⟩

theorem processMessage_ends (accepts : List Byte → Bool) {packet : List Byte}
    {message size : Nat} (inside : message + size ≤ packet.length) :
    Ends Refused.Thrown (processMessage accepts packet message size) fun _ => True := by
  refine (initMessage_ends inside).bind ?_
  rintro m ⟨⟨z, behind, zero⟩, decoded⟩
  refine (cStringAt_ends behind zero).bind fun addr _ => ?_
  split
  · exact trivial
  · exact decoded.bind fun _ _ => trivial

/-- The size of an element which leads back to itself stands in the packet. -/
def LeadsBack (packet : List Byte) : Prop :=
  ∃ p, p % 4 = 0 ∧ numberAt packet p 4 = .ok (2 ^ 32 - 4)

/-- An exception which is meant, or the loop goes on for ever at such a size. -/
def Refused.Known (packet : List Byte) (e : Refused) : Prop :=
  e.Bad → e = .endless ∧ LeadsBack packet

theorem Refused.Thrown.known {e : Refused} (thrown : e.Thrown) (packet : List Byte) :
    e.Known packet :=
  fun bad => absurd bad thrown

/-- An element ends behind its size, unless its size leads back to itself. -/
theorem stride_eq {elementSize : Nat} (small : elementSize < 256 ^ 4)
    (aligned : elementSize % 4 = 0) :
    stride elementSize = 4 + elementSize ∨ stride elementSize = 0 ∧ elementSize = 2 ^ 32 - 4 := by
  unfold stride
  omega

theorem elements_ends {packet : List Byte} {p stop : Nat} (inside : stop ≤ packet.length)
    (aligned : p % 4 = 0) :
    Ends (Refused.Known packet) (elements packet p stop) fun l =>
      ∀ e ∈ l, p + 4 ≤ e.1 ∧ e.1 + e.2 ≤ stop ∧ e.1 % 4 = 0 := by
  induction size : stop - p using Nat.strong_induction_on generalizing p with
  | _ n ih =>
      rw [elements]
      split
      · split
        · exact nofun
        · refine ((numberAt_ends (by omega)).mono_err fun _ thrown => thrown.known packet).bind ?_
          rintro elementSize ⟨read, small⟩
          by_cases odd : elementSize % 4 ≠ 0
          · simp only [if_pos odd]
            exact nofun
          · have whole : elementSize % 4 = 0 := not_ne_iff.mp odd
            simp only [if_neg odd]
            obtain next | ⟨stays, back⟩ := stride_eq small whole
            · have goes : ¬stride elementSize = 0 := by omega
              by_cases beyond : stop < p + stride elementSize
              · simp only [if_pos beyond]
                exact nofun
              · simp only [if_neg beyond, dif_neg goes]
                refine (ih _ (by omega) (by omega) rfl).bind fun l others => ?_
                intro e member
                rcases List.mem_cons.mp member with rfl | member
                · exact ⟨le_rfl, by omega, by omega⟩
                · obtain ⟨behind, within, aligned'⟩ := others e member
                  exact ⟨by omega, within, aligned'⟩
            · have before : ¬stop < p + stride elementSize := by omega
              simp only [if_neg before, dif_pos stays]
              exact fun _ => ⟨rfl, p, aligned, back ▸ read⟩
      · exact List.forall_mem_nil _

theorem isBundle_ends {packet : List Byte} {p size : Nat} (inside : p + size ≤ packet.length) :
    Ends Refused.Thrown (isBundle packet p size) fun b => b = true → 0 < size := by
  rw [isBundle]
  split
  · rename_i some
    exact (byteAt_ends (by omega)).bind fun _ _ _ => some
  · exact nofun

theorem processBundle_ends (accepts : List Byte → Bool) {packet : List Byte}
    {depth bundle size : Nat} (inside : bundle + size ≤ packet.length) (aligned : bundle % 4 = 0)
    (some : 0 < size) (enough : size ≤ depth) :
    Ends (Refused.Known packet) (processBundle accepts packet depth bundle size) fun _ => True := by
  induction depth generalizing bundle size with
  | zero => omega
  | succ depth ih =>
      rw [processBundle]
      have within : Ends (Refused.Known packet) (initBundle packet bundle size) fun l =>
          ∀ e ∈ l, bundle + 20 ≤ e.1 ∧ e.1 + e.2 ≤ bundle + size ∧ e.1 % 4 = 0 := by
        rw [initBundle]
        split
        · exact nofun
        · split
          · exact nofun
          · have mark : bytesAt packet bundle 8 = .ok ((packet.drop bundle).take 8) := by
              rw [bytesAt, if_pos (by omega)]
            rw [mark]
            change Ends _ (ite _ _ _) _
            split
            · exact nofun
            · exact elements_ends inside (by omega)
      refine within.bind fun l each => ?_
      refine Ends.foldlM (I := fun rest _ =>
        ∀ e ∈ rest, bundle + 20 ≤ e.1 ∧ e.1 + e.2 ≤ bundle + size ∧ e.1 % 4 = 0) each ?_
        |>.mono fun _ _ => trivial
      rintro ⟨p, elementSize⟩ rest msgs each
      obtain ⟨⟨behind, within, aligned'⟩, others⟩ := List.forall_mem_cons.mp each
      simp only at behind within aligned'
      refine ((isBundle_ends (by omega)).mono_err fun _ thrown => thrown.known packet).bind
        fun b nonempty => ?_
      split
      · rename_i nested
        exact (ih (by omega) aligned' (nonempty nested) (by omega)).bind fun _ _ => others
      · exact ((processMessage_ends accepts (by omega)).mono_err fun _ thrown =>
          thrown.known packet).bind fun _ _ => others

theorem processPacket_ends (accepts : List Byte → Bool) (packet : List Byte) :
    Ends (Refused.Known packet) (processPacket accepts packet) fun _ => True := by
  refine ((isBundle_ends (by omega)).mono_err fun _ thrown => thrown.known packet).bind
    fun b nonempty => ?_
  split
  · rename_i nested
    exact processBundle_ends accepts (by omega) rfl (nonempty nested) le_rfl
  · exact (processMessage_ends accepts (by omega)).mono_err fun _ thrown => thrown.known packet

theorem elements_endless {packet : List Byte} {p stop : Nat} (room : p + 4 ≤ stop)
    (read : numberAt packet p 4 = .ok (2 ^ 32 - 4)) :
    elements packet p stop = .error .endless := by
  have stays : stride (2 ^ 32 - 4) = 0 := rfl
  rw [elements, if_pos (by omega), if_neg (by omega), read]
  simp only [bind, Except.bind]
  rw [if_neg (by decide), stays, if_neg (by omega)]
  rfl

/-- Every bundle whose first element has this size keeps the listener. -/
theorem processPacket_endless (accepts : List Byte → Bool) {timeTag rest : List Byte}
    (eight : timeTag.length = 8) (aligned : rest.length % 4 = 0) :
    processPacket accepts
        (OutboundPacketStream.bundleMark ++ timeTag ++ [255, 255, 255, 252] ++ rest) =
      .error .endless := by
  generalize whole : OutboundPacketStream.bundleMark ++ timeTag ++ [255, 255, 255, 252] ++ rest =
    packet
  have length : packet.length = 20 + rest.length := by
    simp [← whole, OutboundPacketStream.bundleMark, eight]
    omega
  have first : byteAt packet 0 = .ok 35 := by
    rw [← whole]
    rfl
  have mark : bytesAt packet 0 8 = .ok OutboundPacketStream.bundleMark := by
    rw [bytesAt, if_pos (by omega), ← whole]
    rfl
  have read : numberAt packet 16 4 = .ok (2 ^ 32 - 4) := by
    have front : (OutboundPacketStream.bundleMark ++ timeTag).length = 16 := by
      simp [OutboundPacketStream.bundleMark, eight]
    have bytes : (packet.drop 16).take 4 = [255, 255, 255, 252] := by
      rw [← whole, List.append_assoc, ← front, List.drop_left]
      rfl
    rw [numberAt, bytesAt, if_pos (by omega), bytes]
    rfl
  have listed : initBundle packet 0 packet.length = .error .endless := by
    rw [initBundle, if_neg (by omega), if_neg (by omega), mark]
    change elements packet (0 + 16) (0 + packet.length) = _
    exact elements_endless (by omega) read
  rw [processPacket, isBundle, if_pos (by omega), first]
  change processBundle accepts packet packet.length 0 packet.length = _
  obtain ⟨depth, deep⟩ : ∃ depth, packet.length = depth + 1 :=
    Nat.exists_eq_succ_of_ne_zero (by omega)
  rw [deep, processBundle, ← deep, listed]
  rfl

end Osc

end VoxPopuli
