import VoxPopuli.Lib.Delimited
import VoxPopuli.Lib.Ends
import VoxPopuli.Model.Commands

/-! # The list of the remotes

`list()` ends every line with a newline and is meant to remove the last one. What it removes is
the character whose code is the position of that newline, wherever it occurs: the newline goes
when its position is 10 modulo `2 ^ 16`, and then every other newline goes as well.
-/

namespace VoxPopuli

/-- `QChar(int)`. -/
def QChar.ofInt (rc : Int) : QChar := Fin.ofNat 65536 (rc % 65536).toNat

/-- `remove` of a character. -/
def QString.remove (s : QString) (c : QChar) : QString := s.filter (· ≠ c)

namespace RemoteList

/-- The MAC of a remote, or its OSC address when it has none. -/
def address (w : World) (r : Nat) : QString :=
  let addr := macOf w r
  if addr.isEmpty then EmulatedRemote.oscAddress w r else addr

/-- `execFunction` for "list": the text which is returned. -/
def list (w : World) : QString :=
  let strList := w.remotes.foldl
    (fun strList r => strList ++ (w.remoteName r ++ (" " : QString) ++ address w r ++
      ("\n" : QString))) []
  strList.remove (QChar.ofInt (strList.length - 1))

/-- The line of a remote. -/
def entry (w : World) (r : Nat) : QString := w.remoteName r ++ (' ' : QChar) :: address w r

/-- What `list()` is meant to return. -/
def listing (w : World) : QString := [('\n' : QChar)].intercalate (w.remotes.map (entry w))

variable {w : World}

theorem list_eq (w : World) :
    list w = QString.remove (Delimited.encode ('\n' : QChar) (w.remotes.map (entry w)))
      (QChar.ofInt ((Delimited.encode ('\n' : QChar) (w.remotes.map (entry w))).length - 1)) := by
  have text : w.remotes.foldl
      (fun strList r => strList ++ (w.remoteName r ++ (" " : QString) ++ address w r ++
        ("\n" : QString))) [] = Delimited.encode ('\n' : QChar) (w.remotes.map (entry w)) := by
    have lines := Delimited.foldl_encode ('\n' : QChar) (w.remotes.map (entry w)) []
    rw [List.foldl_map, List.nil_append] at lines
    rw [← lines]
    congr 1
    funext strList r
    have space : (" " : QString) = [(' ' : QChar)] := rfl
    have newline : ("\n" : QString) = [('\n' : QChar)] := rfl
    simp [entry, space, newline]
  rw [list, text]

theorem ofInt_eq_newline_iff (n : Nat) : ('\n' : QChar) = QChar.ofInt n ↔ n % 65536 = 10 := by
  rw [Fin.ext_iff]
  show 10 = ((n : Int) % 65536).toNat % 65536 ↔ n % 65536 = 10
  omega

/-- Of two or more lines the text has a newline in between. -/
theorem newline_not_mem_listing_iff (some : w.remotes ≠ []) :
    ('\n' : QChar) ∉ listing w ↔
      ∃ r, w.remotes = [r] ∧ ('\n' : QChar) ∉ w.remoteName r ∧ ('\n' : QChar) ∉ address w r := by
  have space : ('\n' : QChar) ≠ (' ' : QChar) := by decide
  rw [listing]
  cases there : w.remotes with
  | nil => exact absurd there some
  | cons r rest =>
      cases rest with
      | nil =>
          rw [List.map_cons, List.map_nil, List.intercalate_singleton]
          simp [entry, space]
      | cons r' rest => simp [List.intercalate_cons_cons]

/-- The list is what it is meant to be exactly when there is no remote, or just one, with no
    newline in its name and address and nine characters in both, modulo `2 ^ 16`. -/
theorem list_exact_iff (w : World) :
    list w = listing w ↔
      w.remotes = [] ∨
        ∃ r, w.remotes = [r] ∧ ('\n' : QChar) ∉ w.remoteName r ∧ ('\n' : QChar) ∉ address w r ∧
          ((w.remoteName r).length + (address w r).length) % 65536 = 9 := by
  rw [list_eq]
  by_cases none : w.remotes = []
  · rw [listing, none]
    exact iff_of_true rfl (.inl rfl)
  · have lines : Delimited.encode ('\n' : QChar) (w.remotes.map (entry w)) =
        listing w ++ [('\n' : QChar)] := Delimited.encode_eq_intercalate (by simpa using none)
    rw [lines, QString.remove, Delimited.filter_concat_eq_iff,
      newline_not_mem_listing_iff none]
    have position : ((listing w ++ [('\n' : QChar)]).length : Int) - 1 = (listing w).length := by
      simp
    rw [position, ofInt_eq_newline_iff]
    simp only [none, false_or]
    have length : ∀ r, w.remotes = [r] →
        ((listing w).length % 65536 = 10 ↔
          ((w.remoteName r).length + (address w r).length) % 65536 = 9) := by
      intro r only
      rw [listing, only, List.map_cons, List.map_nil, List.intercalate_singleton, entry,
        List.length_append, List.length_cons]
      omega
    constructor
    · rintro ⟨ten, r, only, name, addr⟩
      exact ⟨r, only, name, addr, (length r only).mp ten⟩
    · rintro ⟨r, only, name, addr, nine⟩
      exact ⟨(length r only).mpr nine, r, only, name, addr⟩

/-- Of a remote "E" at "/e" the newline is left. -/
theorem list_inexact :
    Ends (fun _ => False) ((World.initial .free fun _ => none).run [.emulateRemote "E" "/e" ""])
      fun w => list w = "E /e\n" ∧ listing w = "E /e" := by
  decide +kernel

end RemoteList

end VoxPopuli
