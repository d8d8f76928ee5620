import VoxPopuli.Lib.Codes
import VoxPopuli.Qt

/-! # `QString::fromUtf8`

As Qt 5 decodes: a byte which starts no character becomes U+FFFD, also when it is the first of
a character which is cut off, and a byte order mark at the start is left out. What the raw
session needs of it is where it reads a text in parts as it reads the whole.
-/

namespace VoxPopuli

/-- A byte in the ASCII range as a character. -/
def TelnetSocket.widen (b : Byte) : QChar := b.castLE (by decide)

namespace QUtf8

def isContinuation (b : Byte) : Bool := 0x80 ≤ b.val ∧ b.val < 0xC0

/-- How many bytes follow the first one of a character. -/
def following (b : Byte) : Option Nat :=
  if b.val < 0x80 then some 0
  else if b.val ≤ 0xC1 then none
  else if b.val < 0xE0 then some 1
  else if b.val < 0xF0 then some 2
  else if b.val < 0xF5 then some 3
  else none

/-- What the first byte gives to the code point. -/
def lead (b : Byte) : Nat → Nat
  | 0 => b.val
  | 1 => b.val % 0x20
  | 2 => b.val % 0x10
  | _ => b.val % 0x08

/-- The least code point of so many bytes. -/
def minUc : Nat → Nat
  | 0 => 0
  | 1 => 0x80
  | 2 => 0x800
  | _ => 0x10000

def toUtf16 (uc : Nat) : QString :=
  if uc < 0x10000 then [Fin.ofNat 65536 uc]
  else
    [Fin.ofNat 65536 (0xD800 + (uc - 0x10000) / 0x400),
      Fin.ofNat 65536 (0xDC00 + (uc - 0x10000) % 0x400)]

def codePoint (b : Byte) (n : Nat) (more : List Byte) : Nat :=
  more.foldl (fun uc c => uc * 0x40 + c.val % 0x40) (lead b n)

/-- A code point which is written in so many bytes, and no half of a pair. -/
def Valid (n uc : Nat) : Prop := minUc n ≤ uc ∧ ¬(0xD800 ≤ uc ∧ uc < 0xE000) ∧ uc ≤ 0x10FFFF

instance (n uc : Nat) : Decidable (Valid n uc) := inferInstanceAs (Decidable (_ ∧ _))

/-- The character of a first byte and of all which have to follow it. -/
def char? (b : Byte) (n : Nat) (more : List Byte) : Option QString :=
  if more.length = n ∧ more.all isContinuation ∧ Valid n (codePoint b n more) then
    some (toUtf16 (codePoint b n more))
  else none

/-- The character at a byte with those behind it, and how many of them belong to it. -/
def character (b : Byte) (src : List Byte) : Option (QString × Nat) := do
  let n ← following b
  let u ← char? b n (src.take n)
  return (u, n)

def replacement : QChar := 0xFFFD

theorem character_eq_some {b : Byte} {src : List Byte} {u : QString} {n : Nat} :
    character b src = some (u, n) ↔ following b = some n ∧ char? b n (src.take n) = some u := by
  unfold character
  constructor
  · intro found
    obtain ⟨k, first, found⟩ := Option.bind_eq_some_iff.mp found
    obtain ⟨v, more, found⟩ := Option.bind_eq_some_iff.mp found
    cases found
    exact ⟨first, more⟩
  · rintro ⟨first, more⟩
    rw [first, Option.bind_eq_bind, Option.bind_some, more]
    rfl

theorem char?_eq_some {b : Byte} {n : Nat} {more : List Byte} {u : QString}
    (found : char? b n more = some u) :
    more.length = n ∧ more.all isContinuation ∧ ∃ uc, Valid n uc ∧ u = toUtf16 uc := by
  unfold char? at found
  split at found
  · rename_i whole
    exact ⟨whole.1, whole.2.1, _, whole.2.2, (Option.some.inj found).symm⟩
  · cases found

theorem following_continuation {c : Byte} (continues : isContinuation c) : following c = none := by
  have range : 0x80 ≤ c.val ∧ c.val < 0xC0 := by simpa [isContinuation] using continues
  rw [following, if_neg (by omega), if_pos (by omega)]

theorem le_minUc_of_following {b : Byte} {n : Nat} (beyond : ¬b.val < 0x80)
    (first : following b = some n) : 0x80 ≤ minUc n := by
  rw [following, if_neg beyond] at first
  split_ifs at first <;> cases Option.some.inj first <;> decide

/-- A character beyond ASCII has no unit in the ASCII range. -/
theorem mem_toUtf16 {uc : Nat} (large : 0x80 ≤ uc) (small : uc ≤ 0x10FFFF) {x : QChar}
    (member : x ∈ toUtf16 uc) : 0x80 ≤ x.val := by
  unfold toUtf16 at member
  split at member
  · rw [List.mem_singleton.mp member]
    simp only [Fin.ofNat]
    omega
  · rcases List.mem_cons.mp member with rfl | member
    · simp only [Fin.ofNat]
      omega
    · rw [List.mem_singleton.mp member]
      simp only [Fin.ofNat]
      omega

theorem count_toUtf16_le {uc : Nat} (small : uc ≤ 0x10FFFF) :
    (toUtf16 uc).count replacement ≤ 1 := by
  unfold toUtf16
  split
  · exact List.count_le_length
  · have absent : replacement ∉ [Fin.ofNat 65536 (0xD800 + (uc - 0x10000) / 0x400),
        Fin.ofNat 65536 (0xDC00 + (uc - 0x10000) % 0x400)] := by
      simp only [List.mem_cons, List.not_mem_nil, or_false, Fin.ext_iff, Fin.ofNat, replacement]
      omega
    rw [List.count_eq_zero_of_not_mem absent]
    exact Nat.zero_le 1

/-- The characters as the words of a code. -/
def code : Code Byte QChar where
  word := character
  mark := replacement
  own found := by
    obtain ⟨first, more⟩ := character_eq_some.mp found
    obtain ⟨length, -⟩ := char?_eq_some more
    refine ⟨by rw [List.length_take] at length; omega, fun t => ?_⟩
    refine character_eq_some.mpr ⟨first, ?_⟩
    rwa [List.take_append_of_le_length length.ge, List.take_of_length_le length.le]
  part {b s u n} found m shorter := by
    obtain ⟨first, -⟩ := character_eq_some.mp found
    cases part : character b (s.take m) with
    | none => rfl
    | some w =>
        obtain ⟨first', more⟩ := character_eq_some.mp part
        obtain rfl : n = w.2 := Option.some.inj (first.symm.trans first')
        obtain ⟨length, -⟩ := char?_eq_some more
        simp only [List.length_take] at length
        omega
  inner found c member t := by
    obtain ⟨-, more⟩ := character_eq_some.mp found
    obtain ⟨-, all, -⟩ := char?_eq_some more
    rw [character, following_continuation (List.all_eq_true.mp all c member)]
    rfl
  fewer found several := by
    obtain ⟨-, more⟩ := character_eq_some.mp found
    obtain ⟨-, -, uc, valid, rfl⟩ := char?_eq_some more
    exact (count_toUtf16_le valid.2.2).trans several

def bom : List Byte := [0xEF, 0xBB, 0xBF]

/-- The byte order mark as a character. -/
def bomChar : QChar := 0xFEFF

end QUtf8

open QUtf8

/-- `QString::fromUtf8`. -/
def QString.fromUtf8 (s : List Byte) : QString :=
  if bom.isPrefixOf s then code.decode (s.drop 3) else code.decode s

example : QString.fromUtf8 [0xEF, 0xBB, 0xBF, 0x41, 0xC3, 0xA9, 0xE2, 0x82] =
    [0x41, 0xE9, 0xFFFD, 0xFFFD] := by
  decide

namespace QUtf8

open TelnetSocket (widen)

theorem character_ascii {b : Byte} (ascii : b.val < 0x80) (s : List Byte) :
    character b s = some ([widen b], 0) := by
  have unit : Fin.ofNat 65536 b.val = widen b := by
    ext
    simp only [Fin.ofNat, widen, Fin.val_castLE]
    omega
  have valid : Valid 0 b.val := ⟨Nat.zero_le _, by omega, by omega⟩
  have below : b.val < 0x10000 := by omega
  refine character_eq_some.mpr ⟨if_pos ascii, ?_⟩
  rw [List.take_zero, char?, codePoint, List.foldl_nil, lead, if_pos ⟨rfl, rfl, valid⟩, toUtf16,
    if_pos below, unit]

theorem decode_bom (s : List Byte) : code.decode (bom ++ s) = bomChar :: code.decode s := by
  have found : code.word 0xEF ([0xBB, 0xBF] ++ s) = some ([bomChar], 2) :=
    Code.word_longer (by decide) s
  exact Code.decode_word found

/-- ASCII characters stand in the text as their bytes in the bytes. -/
theorem count_decode {c : Byte} (ascii : c.val < 0x80) (s : List Byte) :
    (code.decode s).count (widen c) = s.count c := by
  have ext : ∀ b : Byte, widen b = widen c ↔ b = c := by
    intro b
    simp [widen, Fin.ext_iff]
  induction length : s.length using Nat.strong_induction_on generalizing s with
  | _ k ih =>
      cases s with
      | nil => rfl
      | cons b s =>
          have shorter : s.length < k := by simp [← length]
          by_cases plain : b.val < 0x80
          · rw [Code.decode_word (character_ascii plain s), List.drop_zero, List.singleton_append,
              List.count_cons, List.count_cons, ih _ shorter s rfl]
            simp [ext]
          · have other : b ≠ c := by
              rintro rfl
              exact plain ascii
            cases found : code.word b s with
            | none =>
                have differs : code.mark ≠ widen c := by
                  intro same
                  have value := congrArg Fin.val same
                  simp only [code, replacement, widen, Fin.val_castLE] at value
                  omega
                rw [Code.decode_mark found, List.count_cons_of_ne differs,
                  List.count_cons_of_ne other, ih _ shorter s rfl]
            | some w =>
                obtain ⟨u, n⟩ := w
                obtain ⟨first, more⟩ := character_eq_some.mp found
                obtain ⟨-, all, uc, valid, rfl⟩ := char?_eq_some more
                have units : widen c ∉ toUtf16 uc := by
                  intro member
                  have high := mem_toUtf16 (le_minUc_of_following plain first |>.trans valid.1)
                    valid.2.2 member
                  simp only [widen, Fin.val_castLE] at high
                  omega
                have bytes : c ∉ s.take n := by
                  intro member
                  have continues := List.all_eq_true.mp all c member
                  simp only [isContinuation, decide_eq_true_eq] at continues
                  omega
                have rest : (s.drop n).length < k := by
                  rw [List.length_drop]
                  omega
                rw [Code.decode_word found, List.count_append, List.count_eq_zero_of_not_mem units,
                  ih _ rest (s.drop n) rfl, List.count_cons_of_ne other, Nat.zero_add]
                conv_rhs => rw [← List.take_append_drop n s]
                rw [List.count_append, List.count_eq_zero_of_not_mem bytes, Nat.zero_add]

theorem decode_eq_nil {s : List Byte} (empty : code.decode s = []) : s = [] := by
  cases s with
  | nil => rfl
  | cons b s =>
      cases found : code.word b s with
      | none => cases (Code.decode_mark found).symm.trans empty
      | some w =>
          obtain ⟨-, more⟩ := character_eq_some.mp found
          obtain ⟨-, -, uc, -, text⟩ := char?_eq_some more
          rw [Code.decode_word found, text, List.append_eq_nil_iff] at empty
          unfold toUtf16 at empty
          split at empty <;> cases empty.1

/-- An ASCII character cuts the text. -/
theorem decode_cut {c : Byte} (ascii : c.val < 0x80) (front back : List Byte) :
    code.decode (front ++ c :: back) = code.decode front ++ widen c :: code.decode back := by
  have starts : ∀ t, (code.word c t).isSome := fun t => by
    rw [show code.word c t = character c t from rfl, character_ascii ascii]
    rfl
  rw [Code.decode_append (Code.across_cons starts), Code.decode_word (character_ascii ascii back)]
  rfl

/-- A text ends with an ASCII character where its bytes do. -/
theorem getLast?_decode {c : Byte} (ascii : c.val < 0x80) (s : List Byte) :
    (code.decode s).getLast? = some (widen c) ↔ s.getLast? = some c := by
  constructor
  · intro last
    have member : c ∈ s := by
      have positive := List.count_pos_iff.mpr (List.mem_of_getLast? last)
      rw [count_decode ascii] at positive
      exact List.count_pos_iff.mp positive
    obtain ⟨back, front, reversed, absent⟩ :=
      List.eq_append_cons_of_mem (List.mem_reverse.mpr member)
    obtain rfl : s = front.reverse ++ c :: back.reverse := by
      rw [← List.reverse_reverse s, reversed]
      simp
    -- Anything behind the last occurrence would end the text.
    have none : code.decode back.reverse = [] := by
      cases behind : code.decode back.reverse with
      | nil => rfl
      | cons x rest =>
          rw [decode_cut ascii, behind, List.getLast?_append, List.getLast?_cons_cons] at last
          have inside : widen c ∈ code.decode back.reverse := by
            rw [behind]
            apply List.mem_of_getLast?
            simpa using last
          have positive := List.count_pos_iff.mpr inside
          rw [count_decode ascii, List.count_reverse] at positive
          exact absurd (List.count_pos_iff.mp positive) absent
    simp [decode_eq_nil none]
  · intro last
    obtain ⟨front, rfl⟩ := List.getLast?_eq_some_iff.mp last
    simp [decode_cut ascii]

theorem decode_ascii {s : List Byte} (ascii : ∀ b ∈ s, b.val < 0x80) :
    code.decode s = s.map widen := by
  induction s with
  | nil => rfl
  | cons b s ih =>
      rw [Code.decode_word (character_ascii (ascii b List.mem_cons_self) s), List.drop_zero,
        ih fun c member => ascii c (List.mem_cons_of_mem b member)]
      rfl

/-! ## Without the byte order mark -/

theorem fromUtf8_of_bom {s : List Byte} (marked : bom <+: s) :
    code.decode s = bomChar :: QString.fromUtf8 s := by
  obtain ⟨t, rfl⟩ := marked
  rw [decode_bom, QString.fromUtf8, if_pos (by simp)]
  rfl

theorem fromUtf8_of_not_bom {s : List Byte} (marked : ¬bom <+: s) :
    code.decode s = QString.fromUtf8 s := by
  rw [QString.fromUtf8, if_neg (by simpa using marked)]

theorem count_fromUtf8 {c : Byte} (ascii : c.val < 0x80) (s : List Byte) :
    (QString.fromUtf8 s).count (widen c) = s.count c := by
  rw [← count_decode ascii]
  by_cases marked : bom <+: s
  · have other : bomChar ≠ widen c := by
      intro same
      have value := congrArg Fin.val same
      simp only [bomChar, widen, Fin.val_castLE] at value
      omega
    rw [fromUtf8_of_bom marked, List.count_cons_of_ne other]
  · rw [fromUtf8_of_not_bom marked]

theorem getLast?_fromUtf8 {c : Byte} (ascii : c.val < 0x80) (s : List Byte) :
    (QString.fromUtf8 s).getLast? = some (widen c) ↔ s.getLast? = some c := by
  rw [← getLast?_decode ascii]
  by_cases marked : bom <+: s
  · have other : bomChar ≠ widen c := by
      intro same
      have value := congrArg Fin.val same
      simp only [bomChar, widen, Fin.val_castLE] at value
      omega
    rw [fromUtf8_of_bom marked]
    cases QString.fromUtf8 s with
    | nil => simpa using other
    | cons x rest => simp
  · rw [fromUtf8_of_not_bom marked]

/-- An ASCII character at the end is read by itself. -/
theorem fromUtf8_concat {c : Byte} (ascii : c.val < 0x80) (s : List Byte) :
    QString.fromUtf8 (s ++ [c]) = QString.fromUtf8 s ++ [widen c] := by
  have whole := decode_cut ascii s []
  rw [Code.decode_nil] at whole
  have marked : bom <+: s ++ [c] ↔ bom <+: s := by
    refine ⟨fun marked => ?_, fun marked => marked.trans (List.prefix_append s [c])⟩
    rcases List.prefix_concat_iff.mp marked with same | inside
    · have last : (some 0xBF : Option Byte) = some c := by
        simpa [bom] using congrArg List.getLast? same
      obtain rfl := Option.some.inj last
      exact absurd ascii (by decide)
    · exact inside
  by_cases begins : bom <+: s
  · rw [fromUtf8_of_bom begins, fromUtf8_of_bom (marked.mpr begins)] at whole
    exact (List.cons.inj whole).2
  · rwa [fromUtf8_of_not_bom begins, fromUtf8_of_not_bom (marked.not.mpr begins)] at whole

theorem fromUtf8_ascii {s : List Byte} (ascii : ∀ b ∈ s, b.val < 0x80) :
    QString.fromUtf8 s = s.map widen := by
  have unmarked : ¬bom <+: s := by
    rintro ⟨t, rfl⟩
    exact absurd (ascii 0xEF (by simp [bom])) (by decide)
  rw [← fromUtf8_of_not_bom unmarked, decode_ascii ascii]

/-! ## A text in parts -/

/-- No character lies across two parts, and no part but the first begins with a byte order
    mark. -/
def Intact (parts : List (List Byte)) : Prop :=
  code.seamless [] parts ∧ ∀ part ∈ (parts.dropWhile List.isEmpty).tail, ¬bom <+: part

instance (parts : List (List Byte)) : Decidable (Intact parts) :=
  inferInstanceAs (Decidable (_ ∧ _))

/-- ASCII text is intact however it is cut. -/
theorem intact_of_ascii {parts : List (List Byte)}
    (ascii : ∀ part ∈ parts, ∀ b ∈ part, b.val < 0x80) : Intact parts := by
  have apart : ∀ s t : List Byte, (∀ b ∈ s, b.val < 0x80) → code.across s t = false := by
    intro s t plain
    induction s with
    | nil => rfl
    | cons b s ih =>
        rw [Code.across, ih fun c member => plain c (List.mem_cons_of_mem b member),
          show code.word b (s ++ t) = _ from character_ascii (plain b List.mem_cons_self) (s ++ t)]
        rfl
  have seamless : ∀ before : List Byte, (∀ b ∈ before, b.val < 0x80) →
      code.seamless before parts := by
    induction parts with
    | nil => exact fun before plain => rfl
    | cons part rest ih =>
        intro before plain
        rw [Code.seamless, apart before _ plain]
        refine ih (fun p member => ascii p (List.mem_cons_of_mem part member)) _ fun b member => ?_
        exact (List.mem_append.mp member).elim (plain b) (ascii part List.mem_cons_self b)
  refine ⟨seamless [] (by simp), fun part member marked => ?_⟩
  have inside := (List.dropWhile_suffix _).subset (List.mem_of_mem_tail member)
  obtain ⟨t, rfl⟩ := marked
  exact absurd (ascii _ inside 0xEF (by simp [bom])) (by decide)

theorem count_replacement (s : List Byte) :
    (QString.fromUtf8 s).count replacement = (code.decode s).count replacement := by
  by_cases marked : bom <+: s
  · rw [fromUtf8_of_bom marked, List.count_cons_of_ne (by decide)]
  · rw [fromUtf8_of_not_bom marked]

theorem count_bomChar (s : List Byte) :
    (code.decode s).count bomChar =
      (QString.fromUtf8 s).count bomChar + if bom <+: s then 1 else 0 := by
  split
  · rename_i marked
    rw [fromUtf8_of_bom marked, List.count_cons_self]
  · rename_i marked
    rw [fromUtf8_of_not_bom marked, Nat.add_zero]

/-- A byte order mark in front of the whole stands in the first part. -/
theorem bom_first {first rest : List Byte} (apart : code.across first rest = false)
    (some : first ≠ []) : bom <+: first ++ rest ↔ bom <+: first := by
  refine ⟨fun marked => ?_, fun marked => marked.trans (List.prefix_append first rest)⟩
  obtain ⟨t, whole⟩ := marked
  cases first with
  | nil => exact absurd rfl some
  | cons b s =>
      obtain ⟨rfl, behind⟩ := List.cons.inj whole
      have behind : [0xBB, 0xBF] ++ t = s ++ rest := behind
      have found : code.word 0xEF (s ++ rest) = Option.some ([bomChar], 2) := by
        rw [← behind]
        exact Code.word_longer (by decide) t
      have ends : 2 ≤ s.length := by
        have long := (Bool.or_eq_false_iff.mp apart).1
        rw [found] at long
        exact not_lt.mp (by simpa using long)
      refine List.prefix_of_prefix_length_le ⟨t, whole⟩ (List.prefix_append _ rest) ?_
      simpa [bom] using ends

theorem count_bomChar_parts (parts : List (List Byte)) :
    (parts.flatMap code.decode).count bomChar =
      (parts.flatMap QString.fromUtf8).count bomChar + parts.countP (bom <+: ·) := by
  induction parts with
  | nil => rfl
  | cons part rest ih =>
      rw [List.flatMap_cons, List.flatMap_cons, List.count_append, List.count_append, ih,
        count_bomChar, List.countP_cons]
      simp only [decide_eq_true_eq]
      omega

/-- Only the first part begins with a byte order mark: otherwise there are fewer such characters
    in the parts than in the whole. -/
theorem bom_parts {parts : List (List Byte)} (seamless : code.seamless [] parts)
    (same : (parts.flatMap QString.fromUtf8).count bomChar =
      (QString.fromUtf8 parts.flatten).count bomChar) :
    ∀ part ∈ (parts.dropWhile List.isEmpty).tail, ¬bom <+: part := by
  induction parts with
  | nil => simp
  | cons first rest ih =>
      have later := (Bool.and_eq_true_iff.mp seamless).2
      cases first with
      | nil => exact ih later same
      | cons b s =>
          rw [List.nil_append] at later
          have counts := congrArg (List.count bomChar) (Code.decode_flatten later)
          rw [List.count_append, count_bomChar, count_bomChar, count_bomChar_parts,
            if_congr (bom_first (Code.across_of_seamless later) (by simp)) rfl rfl] at counts
          rw [List.flatMap_cons, List.count_append, List.flatten_cons] at same
          have none : rest.countP (bom <+: ·) = 0 := by omega
          intro part member marked
          exact List.countP_eq_zero.mp none part member (by simpa using marked)

/-- Parts which are intact give the text of the whole. -/
theorem fromUtf8_flatten {parts : List (List Byte)} (intact : Intact parts) :
    parts.flatMap QString.fromUtf8 = QString.fromUtf8 parts.flatten := by
  obtain ⟨seamless, marks⟩ := intact
  induction parts with
  | nil => rfl
  | cons first rest ih =>
      have later := (Bool.and_eq_true_iff.mp seamless).2
      cases first with
      | nil => exact ih later marks
      | cons b s =>
          rw [List.nil_append] at later
          have plain : rest.flatMap QString.fromUtf8 = rest.flatMap code.decode := by
            rw [List.flatMap_def, List.flatMap_def]
            exact congrArg _ (List.map_congr_left fun part member =>
              (fromUtf8_of_not_bom (marks part member)).symm)
          have whole := Code.decode_flatten later
          rw [List.flatMap_cons, List.flatten_cons, plain]
          by_cases marked : bom <+: b :: s
          · rw [fromUtf8_of_bom marked,
              fromUtf8_of_bom (marked.trans (List.prefix_append _ _))] at whole
            exact (List.cons.inj whole).2.symm
          · have unmarked : ¬bom <+: b :: s ++ rest.flatten := fun h =>
              marked ((bom_first (Code.across_of_seamless later) (by simp)).mp h)
            rw [fromUtf8_of_not_bom marked, fromUtf8_of_not_bom unmarked] at whole
            exact whole.symm

/-- Text in parts is the text of the whole exactly if the parts are intact, also when characters
    other than the two which give it away are left out. -/
theorem fromUtf8_flatten_iff {keep : QChar → Bool} (kept : keep replacement) (mark : keep bomChar)
    (parts : List (List Byte)) :
    (parts.flatMap QString.fromUtf8).filter keep = (QString.fromUtf8 parts.flatten).filter keep ↔
      Intact parts := by
  constructor
  · intro same
    have marks : (parts.flatMap code.decode).count replacement =
        (code.decode parts.flatten).count replacement := by
      have counts := congrArg (List.count replacement) same
      rw [List.count_filter kept, List.count_filter kept, count_replacement] at counts
      rw [← counts, List.count_flatMap, List.count_flatMap]
      congr 2
      funext part
      exact (count_replacement part).symm
    have seamless : code.seamless [] parts := by
      apply Code.seamless_of_count
      rw [List.nil_append, Code.decode_nil, List.count_nil, Nat.zero_add]
      exact marks.le
    have counts := congrArg (List.count bomChar) same
    rw [List.count_filter mark, List.count_filter mark] at counts
    exact ⟨seamless, bom_parts seamless counts⟩
  · intro intact
    rw [fromUtf8_flatten intact]

end QUtf8

end VoxPopuli
