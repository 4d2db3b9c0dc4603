import Mathlib
import RadixMap.Map.Dump
import RadixMap.Proofs.Checked
import RadixMap.Proofs.Numerals

/-!
# Dumps read back

The text of a dump is read line by line. The blanks before a slot tell its depth, and each line is read
as the line that was printed, as long as no value is printed with a line feed in it.
-/

namespace RadixMap.DumpLine

open Numeral

variable {V W : Type}

/-- The line with another value. -/
def map (f : V → W) : DumpLine V → DumpLine W
  | empty => empty
  | stagingTitle => stagingTitle
  | node place? kind isTarget => node place? kind isTarget
  | value depth slot held => value depth slot (f held)

/-! ### Reading -/

/-- The words for a node, without the mark of the target and with it. -/
def nodeWords : List (List Char × NodeKind × Bool) :=
  [NodeKind.one, .bitmap, .full].flatMap fun kind =>
    [(kind.name.toList, kind, false), ((kind.name ++ " (target)").toList, kind, true)]

/-- The lines that do not stand at a slot. -/
def bareLines : List (List Char × DumpLine (List Char)) :=
  ("empty".toList, empty) :: ("--------------- staging".toList, stagingTitle) ::
    nodeWords.map fun (word, kind, isTarget) => (word, node none kind isTarget)

/-- Reads what stands at a slot: a value or a node. -/
def readHeld? (depth : Nat) (slot : Slot) : List Char → Option (DumpLine (List Char))
  | 'v' :: 'a' :: 'l' :: 'u' :: 'e' :: '=' :: cs => some (value depth slot cs)
  | cs => (nodeWords.lookup cs).map fun (kind, isTarget) => node (some (depth, slot)) kind isTarget

/-- Reads a line that stands at a slot. Each level of depth has four blanks, and a slot of one digit
has one more. -/
def readSlot? (cs : List Char) : Option (DumpLine (List Char)) := do
  let (slot, rest) ← Json.natural? (cs.dropWhile (· = ' '))
  match rest with
  | ':' :: ' ' :: rest =>
    if hslot : slot < 32 then
      readHeld? ((cs.takeWhile (· = ' ')).length / 4) ⟨slot, hslot⟩ rest
    else
      none
  | _ => none

def read? (cs : List Char) : Option (DumpLine (List Char)) :=
  (bareLines.lookup cs).or (readSlot? cs)

/-- The lines of a text in which each is closed by a line feed. -/
def readAll? (text : String) : Option (List (DumpLine (List Char))) :=
  (text.toList.splitOn '\n').dropLast.mapM read?

/-! ### Printed lines -/

theorem toList_margin (depth : Nat) (slot : Slot) :
    ∃ blanks, (margin depth slot).toList =
      List.replicate blanks ' ' ++ (decimal slot.val ++ [':', ' ']) ∧ blanks / 4 = depth := by
  have hlength : 0 < (decimal slot.val).length := List.length_pos_iff.mpr (decimal_ne_nil _)
  refine ⟨4 * depth + (2 - (decimal slot.val).length), ?_, by omega⟩
  rw [← List.replicate_append_replicate, List.append_assoc]
  simp only [margin, column, List.leftpad, String.toList_append, String.toList_ofList,
    List.append_assoc]
  rfl

theorem lookup_nodeWords (kind : NodeKind) (isTarget : Bool) :
    nodeWords.lookup (kind.name ++ if isTarget then " (target)" else "").toList =
      some (kind, isTarget) := by
  cases kind <;> cases isTarget <;> decide

theorem lookup_bareLines (kind : NodeKind) (isTarget : Bool) :
    bareLines.lookup (kind.name ++ if isTarget then " (target)" else "").toList =
      some (node none kind isTarget) := by
  cases kind <;> cases isTarget <;> decide

theorem lookup_bareLines_of_slot {c : Char} (hc : c = ' ' ∨ c.isDigit = true) (cs : List Char) :
    bareLines.lookup (c :: cs) = none := by
  have hbare : ∀ line ∈ bareLines,
      line.1.head? ∈ [some 'e', some '-', some 'O', some 'B', some 'F'] := by
    decide
  rw [List.lookup_eq_none_iff]
  intro line hmem
  rw [bne_iff_ne]
  intro heq
  have hhead := hbare line hmem
  rw [← heq, List.head?_cons] at hhead
  simp only [List.mem_cons, Option.some.injEq, List.not_mem_nil, or_false] at hhead
  rcases hc with rfl | hdigit
  · simp at hhead
  · rcases hhead with rfl | rfl | rfl | rfl | rfl <;> cases hdigit

theorem read?_margin (depth : Nat) (slot : Slot) (rest : List Char) :
    read? ((margin depth slot).toList ++ rest) = readHeld? depth slot rest := by
  obtain ⟨blanks, hmargin, hdepth⟩ := toList_margin depth slot
  obtain ⟨c, cs, hdecimal, hdigit⟩ := exists_cons_decimal slot.val
  have hbare : bareLines.lookup ((margin depth slot).toList ++ rest) = none := by
    rw [hmargin, hdecimal]
    cases blanks with
    | zero => exact lookup_bareLines_of_slot (Or.inr hdigit) _
    | succ blanks => exact lookup_bareLines_of_slot (Or.inl rfl) _
  -- The blanks end at the first digit of the slot, the slot at the colon.
  have hblank : decide (c = ' ') = false := by
    rw [decide_eq_false_iff_not]
    rintro rfl
    cases hdigit
  have hblanks : ∀ c ∈ List.replicate blanks ' ', decide (c = ' ') = true :=
    fun c hmem => decide_eq_true (List.eq_of_mem_replicate hmem)
  have htext : (margin depth slot).toList ++ rest =
      List.replicate blanks ' ' ++ (decimal slot.val ++ ':' :: ' ' :: rest) := by
    simp [hmargin]
  have htake : ((margin depth slot).toList ++ rest).takeWhile (· = ' ') =
      List.replicate blanks ' ' := by
    rw [htext, List.takeWhile_append_of_pos hblanks, hdecimal, List.cons_append,
      List.takeWhile_cons_of_neg (by simp [hblank]), List.append_nil]
  have hdrop : ((margin depth slot).toList ++ rest).dropWhile (· = ' ') =
      decimal slot.val ++ ':' :: ' ' :: rest := by
    rw [htext, List.dropWhile_append_of_pos hblanks, hdecimal, List.cons_append,
      List.dropWhile_cons_of_neg (by simp [hblank])]
  have hends : Json.EndsNumber (':' :: ' ' :: rest) := .cons rfl rfl _
  rw [read?, hbare, Option.none_or, readSlot?, hdrop, htake, Json.natural?_decimal hends,
    List.length_replicate, hdepth]
  simp

theorem readHeld?_node (depth : Nat) (slot : Slot) (kind : NodeKind) (isTarget : Bool) :
    readHeld? depth slot (kind.name ++ if isTarget then " (target)" else "").toList =
      some (node (some (depth, slot)) kind isTarget) := by
  have hhead : (kind.name ++ if isTarget then " (target)" else "").toList.head? ≠ some 'v' := by
    cases kind <;> cases isTarget <;> decide
  rw [readHeld?.eq_2, lookup_nodeWords]
  · rfl
  · rintro cs heq
    rw [heq] at hhead
    exact hhead rfl

section Printed

variable {display : V → String} {line : DumpLine V}

theorem read?_text (display : V → String) (line : DumpLine V) :
    read? (line.text display).toList = some (line.map fun held => (display held).toList) := by
  cases line with
  | empty =>
      rw [text, map]
      decide
  | stagingTitle =>
      rw [text, map]
      decide
  | node place? kind isTarget =>
      cases place? with
      | none =>
          rw [text, String.empty_append, read?, lookup_bareLines]
          rfl
      | some place =>
          rw [text, String.append_assoc, String.toList_append, read?_margin]
          exact readHeld?_node place.1 place.2 kind isTarget
  | value depth slot held =>
      have hvalue : ("value=" ++ display held).toList =
          'v' :: 'a' :: 'l' :: 'u' :: 'e' :: '=' :: (display held).toList := by
        rw [String.toList_append]
        rfl
      rw [text, String.append_assoc, String.toList_append, read?_margin, hvalue]
      rfl

theorem newline_notMem_text
    (hdisplay : ∀ depth slot held, line = value depth slot held → '\n' ∉ (display held).toList) :
    '\n' ∉ (line.text display).toList := by
  have hdecimal (n : Nat) : '\n' ∉ decimal n := fun hmem => nomatch isDigit_of_mem_decimal hmem
  have hmargin (depth : Nat) (slot : Slot) : '\n' ∉ (margin depth slot).toList := by
    obtain ⟨blanks, hmargin, -⟩ := toList_margin depth slot
    rw [hmargin]
    simp [List.mem_replicate, hdecimal]
  have hword (kind : NodeKind) (isTarget : Bool) :
      '\n' ∉ (kind.name ++ if isTarget then " (target)" else "").toList := by
    cases kind <;> cases isTarget <;> decide
  cases line with
  | empty =>
      rw [text]
      decide
  | stagingTitle =>
      rw [text]
      decide
  | node place? kind isTarget =>
      cases place? with
      | none =>
          rw [text, String.empty_append]
          exact hword kind isTarget
      | some place =>
          rw [text, String.append_assoc, String.toList_append, List.mem_append, not_or]
          exact ⟨hmargin _ _, hword kind isTarget⟩
  | value depth slot held =>
      rw [text, String.append_assoc, String.toList_append, List.mem_append, not_or,
        String.toList_append, List.mem_append, not_or]
      exact ⟨hmargin _ _, by decide, hdisplay _ _ _ rfl⟩

end Printed

theorem readAll?_text {display : V → String} {lines : List (DumpLine V)}
    (hdisplay : ∀ depth slot held, value depth slot held ∈ lines → '\n' ∉ (display held).toList) :
    readAll? (String.join (lines.map fun line => line.text display ++ "\n")) =
      some (lines.map (map fun held => (display held).toList)) := by
  have hline : ∀ line ∈ lines, ∀ depth slot held, line = value depth slot held →
      '\n' ∉ (display held).toList := by
    rintro line hmem depth slot held rfl
    exact hdisplay depth slot held hmem
  have hsplit : (String.join (lines.map fun line => line.text display ++ "\n")).toList.splitOn '\n' =
      lines.map (fun line => (line.text display).toList) ++ [[]] := by
    rw [String.toList_join, List.flatMap_map]
    clear hdisplay
    induction lines with
    | nil => exact List.splitOn_nil '\n'
    | cons line lines ih =>
        have hfirst := newline_notMem_text (hline line List.mem_cons_self)
        rw [List.flatMap_cons, String.toList_append, List.append_assoc]
        change ((line.text display).toList ++ '\n' :: lines.flatMap fun line =>
          (line.text display ++ "\n").toList).splitOn '\n' = _
        rw [List.splitOn_append_cons_self_of_not_mem hfirst,
          ih fun other hmem => hline other (List.mem_cons_of_mem _ hmem)]
        rfl
  rw [readAll?, hsplit, List.dropLast_concat, List.mapM_map]
  exact Checked.mapM_eq_pure fun line _ => read?_text display line

end RadixMap.DumpLine
