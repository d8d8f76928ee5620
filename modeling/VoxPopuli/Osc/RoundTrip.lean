import VoxPopuli.Osc.Received

/-! # An OSC packet there and back

The packet of an address and some arguments is decoded to that address and the values of the
arguments. The one exception is an address with which a bundle begins.
-/

namespace VoxPopuli

namespace Osc

/-! ## What stands in a packet -/

/-- `bytes` stand at `p`. -/
def Stands (packet : List Byte) (p : Nat) (bytes : List Byte) : Prop := bytes <+: packet.drop p

theorem stands_append {packet : List Byte} {p : Nat} {bytes more : List Byte} :
    Stands packet p (bytes ++ more) ↔
      Stands packet p bytes ∧ Stands packet (p + bytes.length) more := by
  constructor
  · rintro ⟨rest, whole⟩
    refine ⟨⟨more ++ rest, by rw [← whole, List.append_assoc]⟩, rest, ?_⟩
    rw [← List.drop_drop, ← whole, List.append_assoc, List.drop_left]
  · rintro ⟨⟨rest, whole⟩, rest', whole'⟩
    rw [← List.drop_drop, ← whole, List.drop_left] at whole'
    exact ⟨rest', by rw [List.append_assoc, whole', whole]⟩

theorem Stands.get {packet : List Byte} {p : Nat} {bytes : List Byte} (h : Stands packet p bytes)
    {i : Nat} (inside : i < bytes.length) : packet[p + i]? = bytes[i]? := by
  obtain ⟨rest, whole⟩ := h
  rw [← List.getElem?_drop, ← whole, List.getElem?_append_left inside]

theorem Stands.le {packet : List Byte} {p : Nat} {bytes : List Byte} (h : Stands packet p bytes)
    (some : bytes ≠ []) : p + bytes.length ≤ packet.length := by
  have length := h.length_le
  have filled := List.length_pos_iff.mpr some
  rw [List.length_drop] at length
  omega

theorem Stands.byte {packet : List Byte} {p : Nat} {b : Byte} {rest : List Byte}
    (h : Stands packet p (b :: rest)) : byteAt packet p = .ok b := by
  have here := h.get (i := 0) (by simp)
  rw [Nat.add_zero] at here
  rw [byteAt, here]
  rfl

theorem Stands.bytes {packet : List Byte} {p : Nat} {bytes : List Byte} (h : Stands packet p bytes)
    (some : bytes ≠ []) : bytesAt packet p bytes.length = .ok bytes := by
  rw [bytesAt, if_pos (h.le some)]
  obtain ⟨rest, whole⟩ := h
  rw [← whole, List.take_left]

theorem Stands.be32 {packet : List Byte} {p n : Nat} (h : Stands packet p (be32 n))
    (small : n < 2 ^ 32) : numberAt packet p 4 = .ok n := by
  have read := h.bytes (by simp [← List.length_pos_iff])
  rw [length_be32] at read
  rw [numberAt, read]
  refine congrArg Except.ok ?_
  rw [Osc.be32, List.reverse_reverse]
  exact Numeral.value_digits_of_lt (by norm_num; omega)

theorem Stands.be64 {packet : List Byte} {p n : Nat} (h : Stands packet p (be64 n))
    (small : n < 2 ^ 64) : numberAt packet p 8 = .ok n := by
  have read := h.bytes (by simp [← List.length_pos_iff])
  rw [length_be64] at read
  rw [numberAt, read]
  refine congrArg Except.ok ?_
  rw [Osc.be64, List.reverse_reverse]
  exact Numeral.value_digits_of_lt (by norm_num; omega)

/-! ## Texts -/

theorem str4_bytes {packet : List Byte} {p : Nat} {s : List Byte} (h : Stands packet p (str4 s)) :
    (∀ i, i < s.length → packet[p + i]? = s[i]?) ∧
      ∀ i, s.length ≤ i → i < roundUp4 (s.length + 1) → packet[p + i]? = some 0 := by
  obtain ⟨text, zeros⟩ := stands_append.mp h
  refine ⟨fun i inside => text.get inside, fun i behind within => ?_⟩
  have zero := zeros.get (i := i - s.length) (by simp; omega)
  rw [show p + s.length + (i - s.length) = p + i by omega] at zero
  rw [zero, List.getElem?_replicate, if_pos (by omega)]

theorem Stands.cString {packet : List Byte} {p : Nat} {s : List Byte}
    (h : Stands packet p (str4 s)) (clean : 0 ∉ s) : cStringAt packet p = .ok s := by
  obtain ⟨rest, whole⟩ := h
  have padding :
      roundUp4 (s.length + 1) - s.length = roundUp4 (s.length + 1) - s.length - 1 + 1 := by
    have le := le_roundUp4 (s.length + 1)
    omega
  rw [str4, padding, List.replicate_succ, List.append_assoc, List.cons_append] at whole
  rw [cStringAt, ← whole, if_pos (by simp)]
  refine congrArg Except.ok ?_
  have nonzero : ∀ b ∈ s, decide (b ≠ 0) = true := by
    intro b member
    exact decide_eq_true fun zero => clean (by rwa [zero] at member)
  rw [List.takeWhile_append_of_pos nonzero]
  simp

theorem findLast_eq {packet : List Byte} {p target last : Nat} (le : p ≤ target)
    (aligned : (target - p) % 4 = 0) (within : target ≤ last)
    (zero : packet[target]? = some 0)
    (before : ∀ x, p ≤ x → x < target → (target - x) % 4 = 0 →
      ∃ b, b ≠ 0 ∧ packet[x]? = some b) :
    findLast packet p last = .ok target := by
  induction size : target - p using Nat.strong_induction_on generalizing p with
  | _ n ih =>
      rw [findLast]
      by_cases there : p = target
      · subst there
        split
        · rw [byteAt, zero]
          rfl
        · rfl
      · obtain ⟨b, nonzero, here⟩ := before p le_rfl (by omega) aligned
        rw [if_pos (by omega), byteAt, here]
        simp only [bind, Except.bind, if_pos nonzero]
        exact ih _ (by omega) (by omega) (by omega)
          (fun x behind => before x (by omega)) rfl

theorem Stands.findStr4End {packet : List Byte} {p : Nat} {s : List Byte}
    (h : Stands packet p (str4 s)) (stop : Nat) (clean : 0 ∉ s)
    (within : p + (str4 s).length ≤ stop) :
    findStr4End packet p stop = .ok (some (p + (str4 s).length)) := by
  obtain ⟨text, zeros⟩ := str4_bytes h
  have le := le_roundUp4 (s.length + 1)
  have near : roundUp4 (s.length + 1) ≤ s.length + 4 ∧ roundUp4 (s.length + 1) % 4 = 0 := by
    simp only [roundUp4]
    omega
  rw [length_str4] at within ⊢
  rw [Osc.findStr4End, if_neg (by omega)]
  cases s with
  | nil =>
      have first := zeros 0 le_rfl (by simp [roundUp4])
      rw [Nat.add_zero] at first
      rw [byteAt, first]
      rfl
  | cons c s =>
      have first := text 0 (by simp)
      rw [Nat.add_zero, List.getElem?_cons_zero] at first
      have nonzero : c ≠ 0 := fun zero => clean (zero ▸ List.mem_cons_self)
      have last : packet[p + roundUp4 ((c :: s).length + 1) - 1]? = some 0 := by
        have there := zeros (roundUp4 ((c :: s).length + 1) - 1) (by omega) (by omega)
        rwa [← Nat.add_sub_assoc (by omega)] at there
      have found : findLast packet (p + 3) (stop - 1) =
          .ok (p + roundUp4 ((c :: s).length + 1) - 1) := by
        refine findLast_eq (by omega) (by omega) (by omega) last fun x behind before aligned' => ?_
        have inside : x - p < (c :: s).length := by omega
        refine ⟨(c :: s)[x - p], fun zero => clean (zero ▸ List.getElem_mem inside), ?_⟩
        have there := text (x - p) inside
        rwa [Nat.add_sub_cancel' (by omega), List.getElem?_eq_getElem inside] at there
      rw [byteAt, first]
      simp only [bind, Except.bind, if_neg nonzero, found]
      rw [byteAt, last]
      have back : p + roundUp4 ((c :: s).length + 1) - 1 + 1 =
          p + roundUp4 ((c :: s).length + 1) := by omega
      simp only [ne_eq, not_true_eq_false, if_false, back]
      rfl

/-! ## Arguments -/

namespace Arg

/-- What an argument is decoded to. -/
def value : Arg → Value
  | bool b => .bool b
  | int32 n => .int32 n
  | char c => .char c
  | double bits => .double bits
  | string s => .string s

/-- A text is a C string. -/
def Clean : Arg → Prop
  | string s => 0 ∉ s
  | _ => True

end Arg

theorem sendToOscStream_clean (v : Variant) : ∀ a ∈ sendToOscStream v, a.Clean := by
  intro a member
  cases v with
  | bool | int | uint | double | char => rw [List.mem_singleton.mp member]; exact trivial
  | string s => rw [List.mem_singleton.mp member]; exact cString_clean s
  | stringList l =>
      obtain ⟨s, -, rfl⟩ := List.mem_map.mp member
      exact cString_clean s
  | other => cases member

theorem char_value (c : BitVec 8) : BitVec.ofNat 8 (c.signExtend 32).toNat = c := by
  apply BitVec.eq_of_getLsbD_eq
  intro i small
  rw [BitVec.getLsbD_ofNat, ← BitVec.getLsbD, BitVec.getLsbD_signExtend]
  simp [small]
  omega

theorem fixed_spec {packet : List Byte} {argument stop width : Nat} {tag : Byte}
    (kind : widthOf tag = some (.fixed (width + 1))) (within : argument + (width + 1) ≤ stop) :
    checkArgument packet stop tag argument = .ok (argument + (width + 1)) := by
  rw [checkArgument, kind]
  simp only
  rw [if_neg (by omega), if_neg (by omega)]
  rfl

/-- An argument which stands in the packet passes its check and has its value. -/
theorem Stands.argument {packet : List Byte} {argument : Nat} {a : Arg} (stop : Nat)
    (h : Stands packet argument a.bytes) (clean : a.Clean)
    (within : argument + a.bytes.length ≤ stop) :
    checkArgument packet stop a.tag argument = .ok (argument + a.bytes.length) ∧
      valueAt packet a.tag argument = .ok [a.value] := by
  cases a with
  | bool b => cases b <;> exact ⟨rfl, rfl⟩
  | int32 n =>
      simp only [Arg.bytes, length_be32] at within ⊢
      refine ⟨fixed_spec rfl within, ?_⟩
      have read := h.be32 n.isLt
      simp [Arg.tag, valueAt, read, Arg.value, bind, Except.bind, pure, Except.pure]
  | char c =>
      simp only [Arg.bytes, length_be32] at within ⊢
      refine ⟨fixed_spec rfl within, ?_⟩
      have read := h.be32 (BitVec.isLt _)
      simp only [Arg.tag, valueAt, read, Arg.value, bind, Except.bind, pure, Except.pure,
        char_value]
      rfl
  | double bits =>
      simp only [Arg.bytes, length_be64] at within ⊢
      refine ⟨fixed_spec rfl within, ?_⟩
      have read := h.be64 bits.isLt
      simp [Arg.tag, valueAt, read, Arg.value, bind, Except.bind, pure, Except.pure]
  | string s =>
      have filled := le_roundUp4 (s.length + 1)
      have length := length_str4 s
      simp only [Arg.bytes] at within h ⊢
      constructor
      · rw [checkArgument, show widthOf (Arg.string s).tag = some .string from rfl]
        simp only
        rw [if_neg (by omega), h.findStr4End stop clean within]
        rfl
      · simp [Arg.tag, valueAt, h.cString clean, Arg.value, bind, Except.bind, pure, Except.pure]

theorem bytes_aligned (a : Arg) : a.bytes.length % 4 = 0 := by
  cases a with
  | bool | int32 | char | double => simp [Arg.bytes]
  | string s =>
      simp only [Arg.bytes, length_str4, roundUp4]
      omega

theorem tag_ne_zero (a : Arg) : a.tag ≠ 0 := by
  cases a with
  | bool b => cases b <;> decide
  | int32 | char | double | string => simp [Arg.tag]

/-- All arguments are checked, and then decoded. -/
theorem Stands.arguments {packet : List Byte} {typeTag argument stop : Nat} {args : List Arg}
    (tags : Stands packet typeTag (args.map Arg.tag ++ [0])) (some : args ≠ [])
    (data : Stands packet argument (args.flatMap Arg.bytes))
    (clean : ∀ a ∈ args, a.Clean) (inside : stop ≤ packet.length)
    (within : argument + (args.flatMap Arg.bytes).length ≤ stop)
    (aligned : (stop - argument) % 4 = 0) :
    checkTags packet stop typeTag argument = .ok (typeTag + args.length) ∧
      decodeFrom packet args.length typeTag argument = .ok (args.map Arg.value) := by
  induction args generalizing typeTag argument with
  | nil => exact absurd rfl some
  | cons a args ih =>
      obtain ⟨first, others⟩ := List.forall_mem_cons.mp clean
      rw [List.flatMap_cons] at data within
      rw [List.length_append] at within
      obtain ⟨here, later⟩ := stands_append.mp data
      obtain ⟨checked, valued⟩ := here.argument stop first (by omega)
      have multiple := bytes_aligned a
      have advanced := ((checkArgument_ends inside (fun _ => aligned) a.tag).of_ok checked).2.1
      have tags' : Stands packet (typeTag + 1) (args.map Arg.tag ++ [0]) :=
        (stands_append.mp (show Stands packet typeTag ([a.tag] ++ _) from tags)).2
      have read : packet[typeTag]? = Option.some a.tag := tags.get (i := 0) (by simp)
      have turn : ∀ {b : Byte} {rest : List Byte}, args.map Arg.tag ++ [0] = b :: rest →
          checkTags packet stop typeTag argument =
            if b = 0 then .ok (typeTag + 1)
            else checkTags packet stop (typeTag + 1) (argument + a.bytes.length) := by
        intro b rest next
        rw [next] at tags'
        rw [checkTags]
        split
        · rename_i none
          cases none.symm.trans read
        · rename_i tag same
          obtain rfl : tag = a.tag := Option.some.inj (same.symm.trans read)
          rw [checked]
          simp only [bind, Except.bind, tags'.byte]
          rfl
      have step : ∀ {count : Nat} {values : List Value},
          decodeFrom packet count (typeTag + 1) (argument + a.bytes.length) = .ok values →
          decodeFrom packet (count + 1) typeTag argument = .ok (a.value :: values) := by
        intro count values rest
        rw [decodeFrom, byteAt, read]
        simp only [bind, Except.bind, valued, advanced, rest]
        rfl
      cases args with
      | nil => exact ⟨turn rfl, step rfl⟩
      | cons a' args =>
          obtain ⟨ended, decoded⟩ :=
            ih tags' (List.cons_ne_nil a' args) later others (by omega) (by omega)
          constructor
          · rw [turn rfl, if_neg (tag_ne_zero a'), ended]
            simp only [List.length_cons]
            congr 1
            omega
          · exact step decoded

/-! ## A message -/

theorem message_aligned (address : List Byte) (args : List Arg) :
    (message address args).length % 4 = 0 := by
  have data : (args.flatMap Arg.bytes).length % 4 = 0 := by
    induction args with
    | nil => rfl
    | cons a args ih =>
        have multiple := bytes_aligned a
        rw [List.flatMap_cons, List.length_append]
        omega
  simp only [message, List.length_append, length_str4, roundUp4]
  omega

theorem stands_tags {packet : List Byte} {p : Nat} {tags : List Byte}
    (h : Stands packet p (str4 (44 :: tags))) : Stands packet (p + 1) (tags ++ [0]) := by
  have le := le_roundUp4 ((44 :: tags).length + 1)
  have padding : roundUp4 ((44 :: tags).length + 1) - (44 :: tags).length =
      roundUp4 ((44 :: tags).length + 1) - (44 :: tags).length - 1 + 1 := by omega
  rw [str4, padding, List.replicate_succ] at h
  have split : ∀ zeros : List Byte,
      44 :: tags ++ 0 :: zeros = [44] ++ (tags ++ [0] ++ zeros) := by simp
  rw [split] at h
  exact (stands_append.mp (stands_append.mp h).2).1

theorem Stands.initArguments {packet : List Byte} {p stop : Nat} {args : List Arg}
    (tags : Stands packet p (str4 (44 :: args.map Arg.tag)))
    (data : Stands packet (p + (str4 (44 :: args.map Arg.tag)).length) (args.flatMap Arg.bytes))
    (texts : ∀ a ∈ args, a.Clean) (inside : stop ≤ packet.length)
    (end_ : p + (str4 (44 :: args.map Arg.tag)).length + (args.flatMap Arg.bytes).length = stop)
    (aligned : (args.flatMap Arg.bytes).length % 4 = 0) :
    ∃ m, initArguments packet p stop = .ok m ∧ decodeMsg packet m = .ok (args.map Arg.value) := by
  have comma : byteAt packet p = .ok 44 := Stands.byte tags
  have clean : 0 ∉ 44 :: args.map Arg.tag := by
    simp only [List.mem_cons, List.mem_map, not_or, not_exists, not_and]
    exact ⟨by decide, fun a _ => tag_ne_zero a⟩
  have found := tags.findStr4End stop clean (by omega)
  have standing := stands_tags tags
  cases args with
  | nil =>
      refine ⟨none, ?_, rfl⟩
      have first : byteAt packet (p + 1) = .ok 0 := Stands.byte standing
      rw [Osc.initArguments, comma]
      simp only [bind, Except.bind, first]
      rfl
  | cons a args =>
      obtain ⟨checked, decoded⟩ := standing.arguments (List.cons_ne_nil a args) data texts inside
        (by omega) (by omega)
      refine ⟨some ⟨p + 1, p + 1 + (a :: args).length,
        p + (str4 (44 :: (a :: args).map Arg.tag)).length⟩, ?_, ?_⟩
      · have first : byteAt packet (p + 1) = .ok a.tag := Stands.byte standing
        rw [Osc.initArguments, comma]
        simp only [bind, Except.bind, first, if_neg (tag_ne_zero a), found, checked]
        rfl
      · rw [decodeMsg, Nat.add_sub_cancel_left]
        exact decoded

theorem Stands.processMessage {packet : List Byte} {p : Nat} {address : List Byte}
    {args : List Arg} (h : Stands packet p (message address args)) (clean : 0 ∉ address)
    (texts : ∀ a ∈ args, a.Clean) (accepts : List Byte → Bool) :
    processMessage accepts packet p (message address args).length =
      .ok (if accepts address then [(address, args.map Arg.value)] else []) := by
  have aligned := message_aligned address args
  have inside := h.le (by simp [message, ← List.length_pos_iff, roundUp4])
  have size : (message address args).length = (str4 address).length +
      (str4 (44 :: args.map Arg.tag)).length + (args.flatMap Arg.bytes).length := by
    rw [message, List.length_append, List.length_append]
  have multiple : (str4 address).length % 4 = 0 ∧
      (str4 (44 :: args.map Arg.tag)).length % 4 = 0 := by
    simp only [length_str4, roundUp4]
    omega
  have some : 4 ≤ (str4 (44 :: args.map Arg.tag)).length := by
    rw [length_str4, roundUp4]
    omega
  obtain ⟨addressed, data⟩ := stands_append.mp h
  obtain ⟨addressed, tags⟩ := stands_append.mp addressed
  rw [List.length_append, ← Nat.add_assoc] at data
  have found := addressed.findStr4End (p + (message address args).length) clean (by omega)
  obtain ⟨m, initialised, decoded⟩ :=
    tags.initArguments data texts inside (by omega) (by omega)
  have whole : initMessage packet p (message address args).length = .ok m := by
    rw [initMessage, if_neg (by omega), if_neg (by omega), found]
    simp only [bind, Except.bind]
    rw [if_neg (by omega)]
    exact initialised
  rw [Osc.processMessage, whole]
  simp only [bind, Except.bind, addressed.cString clean, decoded]
  cases accepts address <;> rfl

/-! ## The packet -/

theorem elements_eq {packet : List Byte} {p size : Nat} (sized : Stands packet p (be32 size))
    (small : 4 + size < 2 ^ 32) (aligned : size % 4 = 0) :
    elements packet p (p + 4 + size) = .ok [(p + 4, size)] := by
  have next : stride size = 4 + size := Nat.mod_eq_of_lt small
  rw [elements, if_pos (by omega), if_neg (by omega)]
  simp only [bind, Except.bind, sized.be32 (show size < 2 ^ 32 by omega), next]
  rw [if_neg (by omega), if_neg (by omega), dif_neg (by omega), elements, if_neg (by omega)]
  rfl

theorem isBundle_message {packet : List Byte} {p : Nat} {address : List Byte} {args : List Arg}
    (h : Stands packet p (message address args)) :
    isBundle packet p (message address args).length = .ok (decide (address.head? = some 35)) := by
  have some : 0 < (message address args).length := by
    simp [message, roundUp4]
  have addressed := (stands_append.mp (stands_append.mp h).1).1
  rw [isBundle, if_pos some]
  cases address with
  | nil =>
      have first : byteAt packet p = .ok 0 := Stands.byte addressed
      rw [first]
      rfl
  | cons c rest =>
      have first : byteAt packet p = .ok c := Stands.byte addressed
      rw [first]
      simp [bind, Except.bind, pure, Except.pure]

/-- The packet of an address which is no bundle is decoded to what it was made of. -/
theorem processPacket_packet {address : List Byte} {args : List Arg} (clean : 0 ∉ address)
    (texts : ∀ a ∈ args, a.Clean) (small : 4 + (message address args).length < 2 ^ 32)
    (plain : address.head? ≠ some 35) (accepts : List Byte → Bool) :
    processPacket accepts (packet address args) =
      .ok (if accepts address then [(address, args.map Arg.value)] else []) := by
  have whole : Stands (packet address args) 0 (packet address args) := List.prefix_rfl
  have aligned := message_aligned address args
  have mark : (OutboundPacketStream.bundleMark ++ be64 1).length = 16 := by
    simp [OutboundPacketStream.bundleMark]
  have length : (packet address args).length = 16 + 4 + (message address args).length := by
    rw [packet, List.length_append, List.length_append, mark, length_be32]
  obtain ⟨front, messages⟩ := stands_append.mp whole
  obtain ⟨front, sized⟩ := stands_append.mp front
  rw [List.length_append, mark, length_be32, Nat.zero_add] at messages
  rw [mark, Nat.zero_add] at sized
  have bundled := (stands_append.mp front).1.bytes (by simp [OutboundPacketStream.bundleMark])
  have first : byteAt (packet address args) 0 = .ok 35 := Stands.byte whole
  have listed : initBundle (packet address args) 0 (packet address args).length =
      .ok [(16 + 4, (message address args).length)] := by
    have found := elements_eq sized small aligned
    rw [initBundle, if_neg (by omega), if_neg (by omega)]
    change (bytesAt _ _ OutboundPacketStream.bundleMark.length >>= _) = _
    rw [bundled, Nat.zero_add, Nat.zero_add, length]
    exact found
  have nested := isBundle_message messages
  rw [decide_eq_false plain] at nested
  rw [processPacket, isBundle, if_pos (by omega), first]
  have deep : ∀ depth, 0 < depth →
      processBundle accepts (packet address args) depth 0 (packet address args).length =
        .ok (if accepts address then [(address, args.map Arg.value)] else []) := by
    intro depth some
    cases depth with
    | zero => omega
    | succ depth =>
        rw [processBundle, listed]
        simp only [bind, Except.bind, List.foldlM_cons, List.foldlM_nil, nested,
          messages.processMessage clean texts accepts]
        cases accepts address <;> rfl
  exact deep _ (by omega)

/-- A text which does not begin with a `#` is read where no bundle is. -/
theorem cStringAt_plain {packet : List Byte} {p : Nat} {b : Byte} {s : List Byte}
    (first : byteAt packet p = .ok b) (plain : b ≠ 35) (read : cStringAt packet p = .ok s) :
    s.head? ≠ some 35 := by
  have here : packet[p]? = some b := by
    rw [byteAt] at first
    cases got : packet[p]? with
    | none => rw [got] at first; cases first
    | some b' => rw [got] at first; rw [Except.ok.inj first]
  have inside := (List.getElem?_eq_some_iff.mp here).1
  rw [cStringAt] at read
  split at read
  · obtain rfl := Except.ok.inj read
    rw [List.drop_eq_getElem_cons inside, (List.getElem?_eq_some_iff.mp here).2]
    by_cases zero : b = 0
    · simp [zero]
    · simp [zero, plain]
  · cases read

theorem processMessage_plain {accepts : List Byte → Bool} {packet : List Byte} {p size : Nat}
    (single : isBundle packet p size = .ok false) :
    Ends (fun _ => True) (processMessage accepts packet p size) fun msgs =>
      ∀ m ∈ msgs, m.1.head? ≠ some 35 := by
  rw [ends_whenever]
  intro msgs done
  rw [processMessage, bind_eq_ok] at done
  obtain ⟨m, initialised, done⟩ := done
  rw [bind_eq_ok] at done
  obtain ⟨addr, read, done⟩ := done
  have filled : 0 < size := by
    rw [initMessage] at initialised
    split at initialised
    · cases initialised
    · omega
  rw [isBundle, if_pos filled, bind_eq_ok] at single
  obtain ⟨b, first, other⟩ := single
  have plain : addr.head? ≠ some 35 :=
    cStringAt_plain first (of_decide_eq_false (Except.ok.inj other)) read
  split at done
  · obtain rfl := Except.ok.inj done
    exact List.forall_mem_nil _
  · rw [bind_eq_ok] at done
    obtain ⟨values, -, done⟩ := done
    obtain rfl := Except.ok.inj done
    exact List.forall_mem_singleton.mpr plain

/-- No message has an address which looks like a bundle. -/
theorem processBundle_plain (accepts : List Byte → Bool) (packet : List Byte)
    (depth bundle size : Nat) :
    Ends (fun _ => True) (processBundle accepts packet depth bundle size) fun msgs =>
      ∀ m ∈ msgs, m.1.head? ≠ some 35 := by
  induction depth generalizing bundle size with
  | zero => exact trivial
  | succ depth ih =>
      rw [processBundle]
      refine Ends.bind (M := fun _ => True) (ends_whenever.mpr fun _ _ => trivial) fun l _ => ?_
      refine Ends.foldlM (I := fun _ (msgs : List Msg) => ∀ m ∈ msgs, m.1.head? ≠ some 35)
        (List.forall_mem_nil _) ?_
      rintro ⟨p, elementSize⟩ rest msgs before
      have both : ∀ more : List Msg, (∀ m ∈ more, m.1.head? ≠ some 35) →
          Ends (fun _ => True) (.ok (msgs ++ more) : Except Refused (List Msg)) fun msgs =>
            ∀ m ∈ msgs, m.1.head? ≠ some 35 :=
        fun more later => List.forall_mem_append.mpr ⟨before, later⟩
      refine Ends.bind (M := fun b => isBundle packet p elementSize = .ok b)
        (ends_whenever.mpr fun _ same => same) fun b nested => ?_
      cases b with
      | true => exact (ih p elementSize).bind both
      | false => exact (processMessage_plain nested).bind both

theorem processPacket_plain {accepts : List Byte → Bool} {packet : List Byte} {msgs : List Msg}
    (done : processPacket accepts packet = .ok msgs) : ∀ m ∈ msgs, m.1.head? ≠ some 35 := by
  rw [processPacket, bind_eq_ok] at done
  obtain ⟨b, nested, done⟩ := done
  cases b with
  | true => exact (processBundle_plain accepts packet _ _ _).of_ok done
  | false => exact (processMessage_plain nested).of_ok done

/-- A message which is transmitted is decoded, whatever the filter makes of its address. -/
theorem processPacket_sent {long : ULong} {buffer : Region Byte outputBufferSize}
    {oscAddr : QString} {args : List Variant} {bytes : List Byte}
    (sent : sendMsg long buffer oscAddr args = .ok bytes)
    (plain : (cString oscAddr).head? ≠ some 35) (accepts : List Byte → Bool) :
    processPacket accepts bytes = .ok (if accepts (cString oscAddr) then
      [(cString oscAddr, (args.flatMap sendToOscStream).map Arg.value)] else []) := by
  have composed := compose_spec long buffer (by decide) (by decide) (cString_clean oscAddr)
    (args.flatMap sendToOscStream)
  rw [sendMsg, composed] at sent
  split_ifs at sent with full astray
  · have room := not_lt.mp full
    obtain rfl := Except.ok.inj sent
    have texts : ∀ a ∈ args.flatMap sendToOscStream, a.Clean := by
      intro a member
      obtain ⟨v, -, arg⟩ := List.mem_flatMap.mp member
      exact sendToOscStream_clean v a arg
    have small : 4 + (message (cString oscAddr) (args.flatMap sendToOscStream)).length <
        2 ^ 32 := by
      rw [packet, List.length_append, outputBufferSize] at room
      omega
    exact processPacket_packet (cString_clean oscAddr) texts small plain accepts

/-- What `sendMsg` transmits is what the listener gets, address, arguments and their order,
    exactly when the address does not begin like a bundle. -/
theorem processPacket_sendMsg {long : ULong} {buffer : Region Byte outputBufferSize}
    {oscAddr : QString} {args : List Variant} {bytes : List Byte}
    (sent : sendMsg long buffer oscAddr args = .ok bytes) :
    processPacket (fun _ => true) bytes =
        .ok [(cString oscAddr, (args.flatMap sendToOscStream).map Arg.value)] ↔
      (cString oscAddr).head? ≠ some 35 := by
  constructor
  · intro received
    exact processPacket_plain received _ List.mem_cons_self
  · intro plain
    exact processPacket_sent sent plain fun _ => true

/-- A volume of 50 arrives at `/v`. -/
theorem processPacket_sendMsg_volume :
    processPacket (fun _ => true) (packet [47, 118] [.int32 50]) = .ok [([47, 118], [.int32 50])] :=
  have sent : sendMsg .four ⟨List.replicate outputBufferSize 0, List.length_replicate⟩ [47, 118]
      [.int 50] = .ok (packet [47, 118] [.int32 50]) :=
    (compose_spec .four _ (by decide) (by decide) (cString_clean [47, 118]) _).trans
      ((if_neg (by decide)).trans (if_neg (by decide)))
  (processPacket_sendMsg sent).mpr (by decide)

end Osc

end VoxPopuli
