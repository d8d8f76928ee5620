import VoxPopuli.Lib.Numeral
import VoxPopuli.Lib.Region
import VoxPopuli.HexData

/-! # Writing an OSC packet

`oscpack` composes a packet in a buffer of a fixed size. The arguments of a message grow from
the front, their type tags from the end of the same buffer; when the message ends the tags
are put between its address and its arguments. Whatever is written stays in the buffer, the
two parts never meet, and a packet comes out exactly when all of it fits. That is so where an
`unsigned long` has four bytes; where it has eight, the address is taken for a part of an offset.
-/

namespace VoxPopuli

namespace Osc

/-! ## Numbers and texts in a packet -/

/-- `FromInt32`, `FromUInt32`. -/
def be32 (n : Nat) : List Byte := (Numeral.digits 256 4 n).reverse

/-- `FromInt64`, `FromUInt64`, and a double in the same way. -/
def be64 (n : Nat) : List Byte := (Numeral.digits 256 8 n).reverse

/-- An `unsigned long`. `osc::uint32` is one: the macro which makes it an `unsigned int` is set
    nowhere. It has four bytes under Windows and eight on 64-bit Linux. -/
inductive ULong where
  | four
  | eight
  deriving DecidableEq, Repr

def ULong.bytes : ULong → Nat
  | four => 4
  | eight => 8

/-- A number as the machine stores it. -/
def ULong.host (long : ULong) (n : Nat) : List Byte := Numeral.digits 256 long.bytes n

/-- `RoundUp4` of a positive number. -/
def roundUp4 (x : Nat) : Nat := (x - 1) / 4 * 4 + 4

/-- `strcpy`, then zeros up to a multiple of four. -/
def str4 (s : List Byte) : List Byte := s ++ List.replicate (roundUp4 (s.length + 1) - s.length) 0

@[simp] theorem length_be32 (n : Nat) : (be32 n).length = 4 := by simp [be32]

@[simp] theorem length_be64 (n : Nat) : (be64 n).length = 8 := by simp [be64]

@[simp] theorem ULong.length_host (long : ULong) (n : Nat) :
    (long.host n).length = long.bytes := by
  simp [host]

theorem ULong.bytes_le (long : ULong) : long.bytes ≤ 8 := by cases long <;> decide

theorem le_roundUp4 (x : Nat) : x ≤ roundUp4 x := by
  unfold roundUp4
  omega

@[simp] theorem length_str4 (s : List Byte) : (str4 s).length = roundUp4 (s.length + 1) := by
  have le := le_roundUp4 (s.length + 1)
  simp only [str4, List.length_append, List.length_replicate]
  omega

/-! ## The stream -/

/-- What is thrown, and faults. -/
inductive Thrown where
  | fault (f : Fault)
  | outOfBufferMemory
  | messageInProgress
  | messageNotInProgress
  | bundleNotInProgress
  deriving DecidableEq, Repr

/-- `OutboundPacketStream`. Pointers are offsets into the buffer. -/
structure OutboundPacketStream (capacity : Nat) where
  data : Region Byte capacity
  typeTagsCurrent : Nat
  messageCursor : Nat
  argumentCurrent : Nat
  elementSizePtr : Option Nat
  messageIsInProgress : Bool

/-- An argument which the daemon sends. Numbers are their bits; a text ends before its zero. -/
inductive Arg where
  | bool (b : Bool)
  | int32 (n : BitVec 32)
  | char (c : BitVec 8)
  | double (bits : BitVec 64)
  | string (s : List Byte)
  deriving DecidableEq, Repr

namespace OutboundPacketStream

variable {capacity : Nat}

/-- The constructor. -/
def create (data : Region Byte capacity) : OutboundPacketStream capacity :=
  ⟨data, capacity, 0, 0, none, false⟩

/-- Bytes are stored at an offset. -/
def store (p : OutboundPacketStream capacity) (off : Nat) (bytes : List Byte) :
    Except Thrown (OutboundPacketStream capacity) :=
  match p.data.store off bytes with
  | some data => .ok { p with data := data }
  | none => .error (.fault .outOfRange)

/-- Bytes are read at an offset. -/
def load (p : OutboundPacketStream capacity) (off count : Nat) : Except Thrown (List Byte) :=
  match p.data.load off count with
  | some bytes => .ok bytes
  | none => .error (.fault .outOfRange)

/-- `Size`. -/
def size (p : OutboundPacketStream capacity) : Nat :=
  p.argumentCurrent +
    if p.messageIsInProgress then roundUp4 (capacity - p.typeTagsCurrent + 2) else 0

/-- The four bytes of a size slot, if the element is not the outermost one. -/
def slot (p : OutboundPacketStream capacity) : Nat := if p.elementSizePtr.isSome then 4 else 0

/-- `BeginElement`: the offset of the outer size slot is kept in the new one. -/
def beginElement (long : ULong) (p : OutboundPacketStream capacity) (beginPtr : Nat) :
    Except Thrown (OutboundPacketStream capacity × Nat) :=
  match p.elementSizePtr with
  | none => .ok ({ p with elementSizePtr := some 0 }, beginPtr)
  | some outer => do
      let p ← p.store beginPtr (long.host outer)
      return ({ p with elementSizePtr := some beginPtr }, beginPtr + 4)

/-- `EndElement`. An assertion says that an element has begun. -/
def endElement (long : ULong) (p : OutboundPacketStream capacity) (endPtr : Nat) :
    Except Thrown (OutboundPacketStream capacity) :=
  match p.elementSizePtr with
  | none => .error (.fault .nullPointer)
  | some e =>
      if e = 0 then .ok { p with elementSizePtr := none }
      else do
        let outer := Numeral.value (← p.load e long.bytes)
        let p ← p.store e (be32 (endPtr - e - 4))
        return { p with elementSizePtr := some outer }

/-- The bytes of `#bundle` with its zero. -/
def bundleMark : List Byte := [35, 98, 117, 110, 100, 108, 101, 0]

/-- `operator<<( const BundleInitiator& )`. -/
def beginBundle (long : ULong) (p : OutboundPacketStream capacity) (timeTag : Nat) :
    Except Thrown (OutboundPacketStream capacity) := do
  if p.messageIsInProgress then throw .messageInProgress
  if capacity < p.size + p.slot + 16 then throw .outOfBufferMemory
  let (p, cursor) ← p.beginElement long p.messageCursor
  let p ← p.store cursor bundleMark
  let p ← p.store (cursor + 8) (be64 timeTag)
  return { p with messageCursor := cursor + 16, argumentCurrent := cursor + 16 }

/-- `operator<<( const BundleTerminator& )`. -/
def endBundle (long : ULong) (p : OutboundPacketStream capacity) :
    Except Thrown (OutboundPacketStream capacity) := do
  if p.elementSizePtr.isNone then throw .bundleNotInProgress
  if p.messageIsInProgress then throw .messageInProgress
  p.endElement long p.messageCursor

/-- `operator<<( const BeginMessage& )`. -/
def beginMessage (long : ULong) (p : OutboundPacketStream capacity)
    (addressPattern : List Byte) : Except Thrown (OutboundPacketStream capacity) := do
  if p.messageIsInProgress then throw .messageInProgress
  if capacity < p.size + p.slot + roundUp4 (addressPattern.length + 1) + 4 then
    throw .outOfBufferMemory
  let (p, cursor) ← p.beginElement long p.messageCursor
  let p ← p.store cursor (str4 addressPattern)
  let cursor := cursor + (str4 addressPattern).length
  return { p with
    messageCursor := cursor
    argumentCurrent := cursor
    typeTagsCurrent := capacity
    messageIsInProgress := true }

/-- The first part of `operator<<( const MessageTerminator& )`: the arguments make room for the
    tags, which have been stored backwards. -/
def placeTypeTags (p : OutboundPacketStream capacity) :
    Except Thrown (OutboundPacketStream capacity) :=
  let typeTagsCount := capacity - p.typeTagsCurrent
  if typeTagsCount ≠ 0 then do
    let tempTypeTags ← p.load p.typeTagsCurrent typeTagsCount
    let typeTagSlotSize := roundUp4 (typeTagsCount + 2)
    let argumentsSize := p.argumentCurrent - p.messageCursor
    let p ← p.store (p.messageCursor + typeTagSlotSize) (← p.load p.messageCursor argumentsSize)
    let p ← p.store p.messageCursor
      (44 :: tempTypeTags.reverse ++ List.replicate (typeTagSlotSize - (typeTagsCount + 1)) 0)
    return { p with
      typeTagsCurrent := capacity
      messageCursor := p.messageCursor + typeTagSlotSize + argumentsSize }
  else do
    let p ← p.store p.messageCursor [44, 0, 0, 0]
    return { p with messageCursor := p.messageCursor + 4 }

/-- `operator<<( const MessageTerminator& )`. -/
def endMessage (long : ULong) (p : OutboundPacketStream capacity) :
    Except Thrown (OutboundPacketStream capacity) := do
  if !p.messageIsInProgress then throw .messageNotInProgress
  let p ← p.placeTypeTags
  let p ← { p with argumentCurrent := p.messageCursor }.endElement long p.messageCursor
  return { p with messageIsInProgress := false }

/-- What the operators for arguments have in common: the check, the tag, the data. -/
def argument (p : OutboundPacketStream capacity) (tag : Byte) (argumentLength : Nat)
    (bytes : List Byte) : Except Thrown (OutboundPacketStream capacity) := do
  if capacity <
      p.argumentCurrent + argumentLength + roundUp4 (capacity - p.typeTagsCurrent + 3) then
    throw .outOfBufferMemory
  if p.typeTagsCurrent = 0 then throw (.fault .outOfRange)
  let p ← { p with typeTagsCurrent := p.typeTagsCurrent - 1 }.store (p.typeTagsCurrent - 1) [tag]
  let p ← p.store p.argumentCurrent bytes
  return { p with argumentCurrent := p.argumentCurrent + bytes.length }

/-- `operator<<( bool )`: `T` or `F`, and no data. -/
def bool (p : OutboundPacketStream capacity) (rhs : Bool) :=
  p.argument (if rhs then 84 else 70) 0 []

/-- `operator<<( int32 )`: `i`. -/
def int32 (p : OutboundPacketStream capacity) (rhs : BitVec 32) :=
  p.argument 105 4 (be32 rhs.toNat)

/-- `operator<<( char )`: `c`, as a signed number. -/
def char (p : OutboundPacketStream capacity) (rhs : BitVec 8) :=
  p.argument 99 4 (be32 (rhs.signExtend 32).toNat)

/-- `operator<<( double )`: `d`. -/
def double (p : OutboundPacketStream capacity) (rhs : BitVec 64) :=
  p.argument 100 8 (be64 rhs.toNat)

/-- `operator<<( const char * )`: `s`. -/
def string (p : OutboundPacketStream capacity) (rhs : List Byte) :=
  p.argument 115 (roundUp4 (rhs.length + 1)) (str4 rhs)

def put (p : OutboundPacketStream capacity) : Arg → Except Thrown (OutboundPacketStream capacity)
  | .bool b => p.bool b
  | .int32 n => p.int32 n
  | .char c => p.char c
  | .double bits => p.double bits
  | .string s => p.string s

end OutboundPacketStream

/-! ## The daemon -/

/-- A `QVariant` in a list of arguments. -/
inductive Variant where
  | bool (b : Bool)
  | int (n : BitVec 32)
  | uint (n : BitVec 32)
  | double (bits : BitVec 64)
  | char (c : QChar)
  | string (s : QString)
  | stringList (l : QStringList)
  | other
  deriving DecidableEq, Repr

/-- `toStdString().data()`, read up to its zero. -/
def cString (s : QString) : List Byte := s.toStdString.takeWhile (· ≠ 0)

/-- `toLatin1` of a character. -/
def toLatin1 (c : QChar) : BitVec 8 := if c.val ≤ 0xFF then c.val else 0

/-- `sendToOscStream`: the arguments which are put into the stream. -/
def sendToOscStream : Variant → List Arg
  | .bool b => [.bool b]
  | .int n | .uint n => [.int32 n]
  | .double bits => [.double bits]
  | .char c => [.char (toLatin1 c)]
  | .string s => [.string (cString s)]
  | .stringList l => l.map fun s => .string (cString s)
  | .other => []

/-- `OUTPUT_BUFFER_SIZE`. -/
def outputBufferSize : Nat := 1024

/-- `qosc::sendMsg`: the packet which is transmitted. The buffer is not initialised. -/
def sendMsg (long : ULong) (buffer : Region Byte outputBufferSize) (oscAddr : QString)
    (args : List Variant) : Except Thrown (List Byte) := do
  let p ← (OutboundPacketStream.create buffer).beginBundle long 1
  let p ← p.beginMessage long (cString oscAddr)
  let p ← (args.flatMap sendToOscStream).foldlM OutboundPacketStream.put p
  let p ← p.endMessage long
  let p ← p.endBundle long
  p.load 0 p.size

/-! ## What a packet is -/

namespace Arg

def tag : Arg → Byte
  | bool b => if b then 84 else 70
  | int32 _ => 105
  | char _ => 99
  | double _ => 100
  | string _ => 115

def bytes : Arg → List Byte
  | bool _ => []
  | int32 n => be32 n.toNat
  | char c => be32 (c.signExtend 32).toNat
  | double bits => be64 bits.toNat
  | string s => str4 s

end Arg

def message (address : List Byte) (args : List Arg) : List Byte :=
  str4 address ++ str4 (44 :: args.map Arg.tag) ++ args.flatMap Arg.bytes

/-- A bundle which is due at once, with one message. -/
def packet (address : List Byte) (args : List Arg) : List Byte :=
  OutboundPacketStream.bundleMark ++ be64 1 ++ be32 (message address args).length ++
    message address args

/-- The size slot of the message in the bundle, as it is read at its end, has bytes of the address
    in it. -/
def Astray (long : ULong) (address : List Byte) : Prop := long = .eight ∧ address ≠ []

instance (long : ULong) (address : List Byte) : Decidable (Astray long address) :=
  inferInstanceAs (Decidable (_ ∧ _))

namespace OutboundPacketStream

variable {capacity : Nat} {long : ULong}

theorem store_ok (p : OutboundPacketStream capacity) {off : Nat} {bytes : List Byte}
    (inside : off + bytes.length ≤ capacity) :
    p.store off bytes = .ok { p with data := p.data.splice off bytes inside } := by
  rw [store, Region.store, dif_pos inside]

theorem load_ok {p : OutboundPacketStream capacity} {off : Nat} {bytes : List Byte}
    (h : p.data.Holds off bytes) (inside : off + bytes.length ≤ capacity) :
    p.load off bytes.length = .ok bytes := by
  rw [load, Region.load_of_holds h inside]

/-- A message is being written behind `before`, with these arguments so far. -/
structure Writing (p : OutboundPacketStream capacity) (before : List Byte) (args : List Arg) :
    Prop where
  messageCursor : p.messageCursor = before.length
  argumentCurrent : p.argumentCurrent = before.length + (args.flatMap Arg.bytes).length
  typeTagsCurrent : p.typeTagsCurrent + args.length = capacity
  front : p.data.Holds 0 (before ++ args.flatMap Arg.bytes)
  tags : p.data.Holds p.typeTagsCurrent (args.map Arg.tag).reverse
  room : p.argumentCurrent + roundUp4 (args.length + 2) ≤ capacity
  progress : p.messageIsInProgress = true

/-- Where the arguments of a message and its tags would end. -/
def reach (before : List Byte) (args : List Arg) : Nat :=
  before.length + (args.flatMap Arg.bytes).length + roundUp4 (args.length + 2)

theorem reach_le (before : List Byte) (args more : List Arg) :
    reach before args ≤ reach before (args ++ more) := by
  have grows : roundUp4 (args.length + 2) ≤ roundUp4 ((args ++ more).length + 2) := by
    simp only [roundUp4, List.length_append]
    omega
  simp only [reach, List.flatMap_append, List.length_append] at grows ⊢
  omega

theorem put_eq (p : OutboundPacketStream capacity) (a : Arg) :
    p.put a = p.argument a.tag a.bytes.length a.bytes := by
  cases a <;> simp [put, bool, int32, char, double, string, Arg.tag, Arg.bytes]

/-- Step lemma: the tag and the data get in, or nothing does. -/
theorem put_spec {p : OutboundPacketStream capacity} {before : List Byte} {args : List Arg}
    (h : Writing p before args) (a : Arg) :
    (reach before (args ++ [a]) ≤ capacity ∧ ∃ p', p.put a = .ok p' ∧
        Writing p' before (args ++ [a]) ∧ p'.elementSizePtr = p.elementSizePtr) ∨
      capacity < reach before (args ++ [a]) ∧ p.put a = .error .outOfBufferMemory := by
  have cursor := h.argumentCurrent
  have tags := h.typeTagsCurrent
  have count : capacity - p.typeTagsCurrent = args.length := by omega
  have two : (args ++ [a]).length + 2 = args.length + 3 := by simp
  have total : reach before (args ++ [a]) =
      p.argumentCurrent + a.bytes.length + roundUp4 (args.length + 3) := by
    rw [reach, two, List.flatMap_append, List.flatMap_singleton, List.length_append]
    omega
  rw [put_eq, total]
  by_cases full : capacity < p.argumentCurrent + a.bytes.length + roundUp4 (args.length + 3)
  · right
    refine ⟨full, ?_⟩
    rw [argument, count, if_pos full]
    rfl
  · left
    refine ⟨by omega, ?_⟩
    have up := le_roundUp4 (args.length + 3)
    have first : p.typeTagsCurrent - 1 + [a.tag].length ≤ capacity := by
      rw [List.length_singleton]
      omega
    have second : p.argumentCurrent + a.bytes.length ≤ capacity := by omega
    have front : (before ++ args.flatMap Arg.bytes).length = p.argumentCurrent := by
      rw [List.length_append, cursor]
    have below : p.typeTagsCurrent - 1 + 1 = p.typeTagsCurrent := by omega
    let p' : OutboundPacketStream capacity :=
      { p with
        data := (p.data.splice (p.typeTagsCurrent - 1) [a.tag] first).splice
          p.argumentCurrent a.bytes second
        typeTagsCurrent := p.typeTagsCurrent - 1
        argumentCurrent := p.argumentCurrent + a.bytes.length }
    refine ⟨p', ?_, ⟨h.messageCursor, ?_, ?_, ?_, ?_, ?_, h.progress⟩, rfl⟩
    · rw [argument, count, if_neg full, if_neg (by omega)]
      simp only [store_ok _ first, store_ok _ second, bind, Except.bind]
      rfl
    · change p.argumentCurrent + a.bytes.length = _
      rw [List.flatMap_append, List.flatMap_singleton, List.length_append]
      omega
    · change p.typeTagsCurrent - 1 + (args ++ [a]).length = capacity
      rw [List.length_append, List.length_singleton]
      omega
    · rw [List.flatMap_append, List.flatMap_singleton, ← List.append_assoc, Region.holds_append,
        Nat.zero_add, front]
      refine ⟨(h.front.splice first (.inl ?_)).splice second (.inl ?_),
        Region.splice_holds _ second⟩ <;> omega
    · have apart : p.argumentCurrent + a.bytes.length ≤ p.typeTagsCurrent - 1 := by omega
      rw [List.map_append, List.reverse_append]
      refine Region.holds_append.mpr ⟨?_, ?_⟩
      · exact (Region.splice_holds _ first).splice second (.inr apart)
      · have kept := h.tags.splice first (.inr (by simp; omega))
        have kept' := kept.splice second (.inr (by omega))
        simpa [p', below] using kept'
    · change p.argumentCurrent + a.bytes.length + roundUp4 ((args ++ [a]).length + 2) ≤ capacity
      rw [two]
      omega

/-- Run lemma: the arguments get in together, or the first which does not fit is thrown at. -/
theorem putAll_spec {p : OutboundPacketStream capacity} {before : List Byte} {args : List Arg}
    (h : Writing p before args) (more : List Arg) :
    (reach before (args ++ more) ≤ capacity ∧ ∃ p', more.foldlM put p = .ok p' ∧
        Writing p' before (args ++ more) ∧ p'.elementSizePtr = p.elementSizePtr) ∨
      capacity < reach before (args ++ more) ∧
        more.foldlM put p = .error .outOfBufferMemory := by
  induction more generalizing p args with
  | nil =>
      have room := h.room
      rw [h.argumentCurrent] at room
      exact .inl ⟨by simpa [reach] using room, p, rfl, by simpa using h, rfl⟩
  | cons a more ih =>
      have joined : args ++ a :: more = (args ++ [a]) ++ more := by simp
      rw [List.foldlM_cons, joined]
      obtain ⟨-, p₁, first, next, same⟩ | ⟨full, first⟩ := put_spec h a
      · rw [first]
        obtain ⟨room, p₂, rest, last, same'⟩ | ⟨full, rest⟩ := ih next
        · exact .inl ⟨room, p₂, rest, last, same'.trans same⟩
        · exact .inr ⟨full, rest⟩
      · right
        exact ⟨full.trans_le (reach_le before _ more), by rw [first]; rfl⟩

/-- Where the message begins: behind the bundle and the slot for its size. -/
def opening (address : List Byte) : List Byte :=
  bundleMark ++ be64 1 ++ ULong.four.host 0 ++ str4 address

/-- The bundle has begun. -/
structure Bundled (p : OutboundPacketStream capacity) : Prop where
  front : p.data.Holds 0 (bundleMark ++ be64 1)
  messageCursor : p.messageCursor = 16
  argumentCurrent : p.argumentCurrent = 16
  outermost : p.elementSizePtr = some 0
  progress : p.messageIsInProgress = false

theorem beginBundle_create (data : Region Byte capacity) (room : 16 ≤ capacity) :
    ∃ p, (create data).beginBundle long 1 = .ok p ∧ Bundled p := by
  have first : 0 + bundleMark.length ≤ capacity := by
    simp only [bundleMark, List.length_cons, List.length_nil]
    omega
  have second : 0 + 8 + (be64 1).length ≤ capacity := by
    rw [length_be64]
    omega
  let p : OutboundPacketStream capacity :=
    ⟨(data.splice 0 bundleMark first).splice (0 + 8) (be64 1) second, capacity, 0 + 16, 0 + 16,
      some 0, false⟩
  refine ⟨p, ?_, ?_, rfl, rfl, rfl, rfl⟩
  · have enough : ¬ capacity < (create data).size + (create data).slot + 16 := by
      simp [create, size, slot]
      omega
    rw [beginBundle, if_neg enough]
    simp only [create, beginElement, store_ok _ first, store_ok _ second, bind, Except.bind]
    rfl
  · exact Region.holds_append.mpr
      ⟨(Region.splice_holds _ first).splice second (.inl (by simp [bundleMark])),
        Region.splice_holds _ second⟩

theorem beginMessage_spec {p : OutboundPacketStream capacity} (h : Bundled p)
    (address : List Byte) :
    (reach (opening address) [] ≤ capacity ∧ ∃ p', p.beginMessage long address = .ok p' ∧
        Writing p' (opening address) [] ∧ p'.elementSizePtr = some 16) ∨
      capacity < reach (opening address) [] ∧
        p.beginMessage long address = .error .outOfBufferMemory := by
  have open_ : (opening address).length = 20 + (str4 address).length := by
    simp only [opening, bundleMark, List.length_append, length_be64, ULong.length_host,
      ULong.bytes, List.length_cons, List.length_nil]
  have total : reach (opening address) [] = 20 + (str4 address).length + 4 := by
    rw [reach, open_]
    rfl
  have required : p.size + p.slot + roundUp4 (address.length + 1) + 4 =
      20 + (str4 address).length + 4 := by
    rw [length_str4, size, slot, h.argumentCurrent, h.outermost, h.progress]
    rfl
  rw [total]
  by_cases full : capacity < 20 + (str4 address).length + 4
  · right
    refine ⟨full, ?_⟩
    rw [beginMessage, h.progress, required, if_pos full]
    rfl
  · left
    have word : 4 ≤ (str4 address).length := by
      rw [length_str4, roundUp4]
      omega
    have first : 16 + (long.host 0).length ≤ capacity := by
      have bound := long.bytes_le
      rw [ULong.length_host]
      omega
    have zeros : (long.host 0).take 4 = ULong.four.host 0 := by cases long <;> rfl
    have second : 16 + 4 + (str4 address).length ≤ capacity := by omega
    let p' : OutboundPacketStream capacity :=
      ⟨(p.data.splice 16 (long.host 0) first).splice (16 + 4) (str4 address) second, capacity,
        16 + 4 + (str4 address).length, 16 + 4 + (str4 address).length, some 16, true⟩
    refine ⟨by omega, p', ?_,
      ⟨open_.symm, by rw [open_]; rfl, rfl, ?_, Region.holds_nil _ _, ?_, rfl⟩, rfl⟩
    · rw [beginMessage, h.progress, required, if_neg full]
      simp only [beginElement, h.outermost, h.messageCursor, store_ok _ first, store_ok _ second,
        bind, Except.bind, pure, Except.pure]
      rfl
    · have mark : (bundleMark ++ be64 1).length = 16 := by simp [bundleMark]
      rw [List.flatMap_nil, List.append_nil, opening]
      refine Region.holds_append.mpr ⟨Region.holds_append.mpr ⟨?_, ?_⟩, ?_⟩
      · exact (h.front.splice first (.inl (by omega))).splice second (.inl (by omega))
      · have slot := (Region.splice_holds p.data first).take 4
        rw [zeros] at slot
        rw [mark, Nat.zero_add]
        exact slot.splice second (.inl le_rfl)
      · have begins : 0 + (bundleMark ++ be64 1 ++ ULong.four.host 0).length = 16 + 4 := by
          rw [List.length_append, mark, ULong.length_host]
          rfl
        rw [begins]
        exact Region.splice_holds _ second
    · change 16 + 4 + (str4 address).length + 4 ≤ capacity
      omega

theorem str4_tags (tags : List Byte) :
    44 :: tags ++ List.replicate (roundUp4 (tags.length + 2) - (tags.length + 1)) 0 =
      str4 (44 :: tags) := by
  rw [str4, List.length_cons]

theorem placeTypeTags_spec {p : OutboundPacketStream capacity} {before : List Byte}
    {args : List Arg} (h : Writing p before args) :
    ∃ p', p.placeTypeTags = .ok p' ∧
      p'.data.Holds 0 (before ++ str4 (44 :: args.map Arg.tag) ++ args.flatMap Arg.bytes) ∧
      p'.messageCursor = reach before args ∧ p'.elementSizePtr = p.elementSizePtr ∧
      p'.messageIsInProgress = true := by
  obtain ⟨data, typeTagsCurrent, cursor, current, outer, progress⟩ := p
  obtain rfl : cursor = before.length := h.messageCursor
  obtain rfl : current = before.length + (args.flatMap Arg.bytes).length := h.argumentCurrent
  have room : before.length + (args.flatMap Arg.bytes).length + roundUp4 (args.length + 2) ≤
      capacity := h.room
  have end_ : typeTagsCurrent + args.length = capacity := h.typeTagsCurrent
  have count : capacity - typeTagsCurrent = args.length := by omega
  obtain ⟨front, arguments⟩ := Region.holds_append.mp h.front
  rw [Nat.zero_add] at arguments
  by_cases none : args.length = 0
  · obtain rfl := List.length_eq_zero_iff.mp none
    have first : before.length + ([44, 0, 0, 0] : List Byte).length ≤ capacity := by
      simp only [List.flatMap_nil, List.length_nil, roundUp4] at room
      simp only [List.length_cons, List.length_nil]
      omega
    refine ⟨⟨data.splice before.length [44, 0, 0, 0] first, typeTagsCurrent, before.length + 4,
      before.length, outer, progress⟩, ?_, ?_, rfl, rfl, h.progress⟩
    · rw [placeTypeTags, count, if_neg (by simp)]
      simp only [store_ok _ first, bind, Except.bind]
      rfl
    · rw [List.flatMap_nil, List.append_nil]
      refine Region.holds_append.mpr ⟨front.splice first (.inl (by omega)), ?_⟩
      rw [Nat.zero_add]
      exact Region.splice_holds _ first
  · have up := le_roundUp4 (args.length + 2)
    have tagCount : (args.map Arg.tag).reverse.length = args.length := by simp
    have loaded := load_ok h.tags (show typeTagsCurrent + _ ≤ capacity by omega)
    have moved := load_ok (p := ⟨data, typeTagsCurrent, before.length,
      before.length + (args.flatMap Arg.bytes).length, outer, progress⟩) arguments (by omega)
    have first : before.length + roundUp4 (args.length + 2) + (args.flatMap Arg.bytes).length ≤
        capacity := by omega
    have header : (str4 (44 :: args.map Arg.tag)).length = roundUp4 (args.length + 2) := by simp
    have second : before.length + (str4 (44 :: args.map Arg.tag)).length ≤ capacity := by omega
    rw [tagCount] at loaded
    refine ⟨⟨(data.splice _ _ first).splice _ _ second, capacity,
      before.length + roundUp4 (args.length + 2) + (args.flatMap Arg.bytes).length,
      before.length + (args.flatMap Arg.bytes).length, outer, progress⟩, ?_, ?_, ?_, rfl,
      h.progress⟩
    · have written := str4_tags (args.map Arg.tag)
      rw [List.length_map] at written
      rw [placeTypeTags, count, if_pos none]
      simp only [loaded, Nat.add_sub_cancel_left, moved, List.reverse_reverse, written,
        store_ok _ first, store_ok _ second, bind, Except.bind]
      rfl
    · refine Region.holds_append.mpr ⟨Region.holds_append.mpr ⟨?_, ?_⟩, ?_⟩
      · exact (front.splice first (.inl (by omega))).splice second (.inl (by omega))
      · rw [Nat.zero_add]
        exact Region.splice_holds _ second
      · rw [Nat.zero_add, List.length_append, header]
        exact (Region.splice_holds _ first).splice second (.inr (by omega))
    · change before.length + roundUp4 (args.length + 2) + (args.flatMap Arg.bytes).length = _
      rw [reach]
      omega

/-- What is read from the slot of the message, before its size is stored there. -/
def slotBytes (long : ULong) (address : List Byte) : List Byte :=
  (ULong.four.host 0 ++ str4 address).take long.bytes

theorem length_slotBytes (long : ULong) (address : List Byte) :
    (slotBytes long address).length = long.bytes := by
  have most := long.bytes_le
  have four : ULong.four.bytes = 4 := rfl
  rw [slotBytes, List.length_take, List.length_append, ULong.length_host, length_str4, roundUp4]
  omega

/-- The offset of the bundle, or something far behind the buffer. -/
theorem value_slotBytes {address : List Byte} (clean : 0 ∉ address) :
    if Astray long address then 2 ^ 32 ≤ Numeral.value (slotBytes long address)
    else Numeral.value (slotBytes long address) = 0 := by
  cases long with
  | four => simp [Astray, slotBytes, ULong.bytes, ULong.host, Numeral.value, Numeral.digits]
  | eight =>
      cases address with
      | nil => decide
      | cons c rest =>
          have nonzero : c.val ≠ 0 := fun zero => clean (by
            rw [show c = 0 from Fin.ext zero]
            exact List.mem_cons_self)
          have bytes : slotBytes .eight (c :: rest) =
              0 :: 0 :: 0 :: 0 :: c :: (str4 (c :: rest)).tail.take 3 := rfl
          rw [if_pos ⟨rfl, by simp⟩, bytes]
          simp only [Numeral.value]
          simp
          omega

/-- The slot of the message gets its size. -/
theorem endMessage_spec {p : OutboundPacketStream capacity} {address : List Byte}
    {args : List Arg} (h : Writing p (opening address) args) (inside : p.elementSizePtr = some 16) :
    ∃ p', p.endMessage long = .ok p' ∧
      p'.elementSizePtr = some (Numeral.value (slotBytes long address)) ∧
      p'.messageIsInProgress = false ∧ p'.size = reach (opening address) args ∧
      p'.data.Holds 0 (packet address args) ∧ p'.size ≤ capacity := by
  obtain ⟨p₁, placed, holds, reached, kept, progress⟩ := placeTypeTags_spec h
  obtain ⟨data, typeTagsCurrent, cursor, current, outer, begun⟩ := p₁
  obtain rfl : begun = true := progress
  obtain rfl : outer = some 16 := kept.trans inside
  obtain rfl : cursor = reach (opening address) args := reached
  have room := h.room
  rw [h.argumentCurrent] at room
  have mark : (bundleMark ++ be64 1).length = 16 := by simp [bundleMark]
  have whole : opening address ++ str4 (44 :: args.map Arg.tag) ++ args.flatMap Arg.bytes =
      bundleMark ++ be64 1 ++ ULong.four.host 0 ++ message address args := by
    simp only [opening, message, List.append_assoc]
  have total : reach (opening address) args - 16 - 4 = (message address args).length := by
    have tags : (44 :: args.map Arg.tag).length + 1 = args.length + 2 := by simp
    rw [reach, opening, message]
    simp only [List.length_append, length_str4, tags, ULong.length_host, ULong.bytes, length_be64]
    simp only [bundleMark, List.length_cons, List.length_nil]
    omega
  -- the slot is read before its size is stored, with what is behind it
  have slot : data.Holds 16 (slotBytes long address) := by
    have front := (Region.holds_append.mp (Region.holds_append.mp holds).1).1
    rw [opening, List.append_assoc (bundleMark ++ be64 1)] at front
    have behind := (Region.holds_append.mp front).2
    rw [Nat.zero_add, mark] at behind
    exact behind.take long.bytes
  rw [whole] at holds
  obtain ⟨first, behind⟩ := Region.holds_append.mp holds
  obtain ⟨first, -⟩ := Region.holds_append.mp first
  rw [Nat.zero_add, List.length_append, mark, ULong.length_host] at behind
  have enough : 24 ≤ capacity := by
    have length : (opening address).length = 20 + (str4 address).length := by
      rw [opening, List.length_append, List.length_append, mark, ULong.length_host]
      rfl
    have word : 4 ≤ (str4 address).length := by
      rw [length_str4, roundUp4]
      omega
    omega
  have spot : 16 + (be32 (message address args).length).length ≤ capacity := by
    rw [length_be32]
    omega
  have most := long.bytes_le
  have loaded := load_ok (p := ⟨data, typeTagsCurrent, reach (opening address) args,
    reach (opening address) args, some 16, true⟩) slot (by rw [length_slotBytes]; omega)
  refine ⟨⟨data.splice 16 (be32 (message address args).length) spot, typeTagsCurrent,
    reach (opening address) args, reach (opening address) args,
    some (Numeral.value (slotBytes long address)), false⟩, ?_, rfl, rfl, rfl, ?_, room⟩
  · rw [length_slotBytes] at loaded
    rw [endMessage, h.progress, placed]
    simp only [endElement, loaded, total, store_ok _ spot, bind, Except.bind]
    rfl
  · refine Region.holds_append.mpr ⟨Region.holds_append.mpr ⟨?_, ?_⟩, ?_⟩
    · exact first.splice spot (.inl (by omega))
    · rw [Nat.zero_add, mark]
      exact Region.splice_holds _ spot
    · rw [Nat.zero_add, List.length_append, mark, length_be32]
      exact behind.splice spot (.inr (by rw [length_be32]; rfl))

/-- The bundle ends where its offset has been kept; anything else is no offset in the buffer. -/
theorem endBundle_spec {p : OutboundPacketStream capacity} {outer : Nat}
    (small : capacity < 2 ^ 32) (begun : p.elementSizePtr = some outer)
    (ended : p.messageIsInProgress = false) :
    (outer = 0 → p.endBundle long = .ok { p with elementSizePtr := none }) ∧
      (2 ^ 32 ≤ outer → p.endBundle long = .error (.fault .outOfRange)) := by
  constructor
  · rintro rfl
    rw [endBundle, begun, ended]
    simp [endElement, begun, ended]
  · intro far
    have positive : outer ≠ 0 := by omega
    have outside : p.load outer long.bytes = .error (.fault .outOfRange) := by
      rw [load, Region.load, if_neg (by omega)]
    rw [endBundle, begun, ended]
    simp [endElement, begun, positive, outside, bind, Except.bind]

end OutboundPacketStream

theorem length_packet (address : List Byte) (args : List Arg) :
    (packet address args).length =
      OutboundPacketStream.reach (OutboundPacketStream.opening address) args := by
  have tags : (44 :: args.map Arg.tag).length + 1 = args.length + 2 := by simp
  rw [OutboundPacketStream.reach, OutboundPacketStream.opening, packet, message]
  simp only [List.length_append, length_str4, tags, length_be32, ULong.length_host, ULong.bytes]
  omega

/-- The bundle, the message and its arguments in a buffer of any size. -/
theorem compose_spec {capacity : Nat} (long : ULong) (buffer : Region Byte capacity)
    (room : 16 ≤ capacity) (small : capacity < 2 ^ 32) {address : List Byte}
    (clean : 0 ∉ address) (args : List Arg) :
    ((OutboundPacketStream.create buffer).beginBundle long 1 >>= fun p =>
        p.beginMessage long address >>= fun p =>
        args.foldlM OutboundPacketStream.put p >>= fun p =>
        p.endMessage long >>= fun p => p.endBundle long >>= fun p => p.load 0 p.size) =
      if capacity < (packet address args).length then .error .outOfBufferMemory
      else if Astray long address then .error (.fault .outOfRange)
      else .ok (packet address args) := by
  have size := length_packet address args
  rw [size]
  obtain ⟨p, begun, bundled⟩ := @OutboundPacketStream.beginBundle_create _ long buffer room
  rw [begun]
  change (p.beginMessage long address >>= _) = _
  obtain ⟨-, p₁, opened, writing, inside⟩ | ⟨full, thrown⟩ :=
    @OutboundPacketStream.beginMessage_spec _ long _ bundled address
  · rw [opened]
    change (args.foldlM OutboundPacketStream.put p₁ >>= _) = _
    obtain ⟨room, p₂, filled, writing₂, same⟩ | ⟨full, thrown⟩ :=
      OutboundPacketStream.putAll_spec writing args
    · obtain ⟨p₃, closed, outer, ended, sized, holds, within⟩ :=
        @OutboundPacketStream.endMessage_spec _ long _ _ _ writing₂ (same.trans inside)
      obtain ⟨home, far⟩ := @OutboundPacketStream.endBundle_spec _ long _ _ small outer ended
      have read := @OutboundPacketStream.value_slotBytes long _ clean
      rw [List.nil_append] at room sized holds
      rw [filled, if_neg (by omega)]
      change (p₂.endMessage long >>= fun p => p.endBundle long >>= fun p => p.load 0 p.size) = _
      rw [closed]
      change (p₃.endBundle long >>= fun p => p.load 0 p.size) = _
      split at read
      · rename_i astray
        rw [far read, if_pos astray]
        rfl
      · rename_i straight
        rw [home read, if_neg straight]
        have kept : ({ p₃ with elementSizePtr := none } : OutboundPacketStream capacity).size =
            (packet address args).length := sized.trans size.symm
        change OutboundPacketStream.load _ 0 _ = _
        rw [kept]
        exact OutboundPacketStream.load_ok holds (by omega)
    · rw [List.nil_append] at full
      rw [thrown, if_pos (by omega)]
      rfl
  · have more := OutboundPacketStream.reach_le (OutboundPacketStream.opening address) [] args
    rw [List.nil_append] at more
    rw [thrown, if_pos (by omega)]
    rfl

/-- A C string has no zero in it. -/
theorem cString_clean (s : QString) : 0 ∉ cString s := fun member => by
  simpa using List.mem_takeWhile_imp member

/-- An exception is thrown where the packet of the address and the arguments is longer than the
    buffer. Otherwise just this packet is transmitted where an `unsigned long` has four bytes, and
    nothing is written or read outside the buffer; where it has eight, this is so for an empty
    address, and for every other one the end of the bundle is sought outside. What stood in the
    buffer before plays no part. -/
theorem sendMsg_eq (long : ULong) (buffer : Region Byte outputBufferSize) (oscAddr : QString)
    (args : List Variant) :
    sendMsg long buffer oscAddr args =
      if outputBufferSize < (packet (cString oscAddr) (args.flatMap sendToOscStream)).length then
        .error .outOfBufferMemory
      else if Astray long (cString oscAddr) then .error (.fault .outOfRange)
      else .ok (packet (cString oscAddr) (args.flatMap sendToOscStream)) :=
  compose_spec long buffer (by decide) (by decide) (cString_clean oscAddr) _

end Osc

end VoxPopuli
