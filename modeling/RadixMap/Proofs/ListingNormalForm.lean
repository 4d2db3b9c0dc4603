import Mathlib
import RadixMap.Map.Listing
import RadixMap.Proofs.Equality
import RadixMap.Proofs.QuotedText
import RadixMap.Proofs.SignedOrder

/-!
# Listings as a normal form

A map is listed by its entries in the order of the keys, so the listing tells nothing of how the map
was made. Either layout can be taken apart in one way only: two maps are equal exactly if they are
listed alike.
-/

namespace RadixMap

namespace Listing

open Numeral

theorem separates_entry : Separates entry Json.EndsNumber := by
  intro first second left right hleft hright hsame
  simp only [entry, List.append_assoc, List.cons_append, List.nil_append] at hsame
  have hcolon : ∀ rest, Json.EndsNumber (':' :: rest) := Json.EndsNumber.cons rfl rfl
  obtain ⟨hkey, hrest⟩ := separates_signed (hcolon _) (hcolon _) hsame
  obtain ⟨hvalue, htail⟩ := Datum.separates_quoted hleft hright
    (List.tail_eq_of_cons_eq (List.tail_eq_of_cons_eq hrest))
  exact ⟨Prod.ext (Int32.toInt_inj.mp hkey) hvalue, htail⟩

/-- An entry with the comma and the space before it. -/
def following (held : Int32 × Datum) : List Char :=
  [',', ' '] ++ entry held

/-- An entry on a line of its own. -/
def line (held : Int32 × Datum) : List Char :=
  [' ', ' ', ' ', ' '] ++ entry held ++ [',', '\n']

theorem separates_following : Separates following Json.EndsNumber := by
  intro first second left right hleft hright hsame
  exact separates_entry hleft hright (List.tail_eq_of_cons_eq (List.tail_eq_of_cons_eq hsame))

theorem separates_line : Separates line fun _ => True := by
  intro first second left right _ _ hsame
  simp only [line, List.append_assoc, List.append_cancel_left_eq] at hsame
  have hcomma : ∀ rest, Json.EndsNumber ([',', '\n'] ++ rest) :=
    fun rest => Json.EndsNumber.cons rfl rfl _
  obtain ⟨hheld, hrest⟩ := separates_entry (hcomma left) (hcomma right) hsame
  exact ⟨hheld, List.append_cancel_left hrest⟩

theorem inline_cons (held : Int32 × Datum) (others : List (Int32 × Datum)) :
    inline (held :: others) =
      '\x7b' :: (entry held ++ (others.flatMap following ++ ['\x7d'])) := by
  have hentries := intercalate_map_cons [',', ' '] entry held others
  rw [inline, hentries, List.singleton_append, List.cons_append, List.append_assoc]
  rfl

theorem block_cons (held : Int32 × Datum) (others : List (Int32 × Datum)) :
    block (held :: others) = '\x7b' :: '\n' :: ((held :: others).flatMap line ++ ['\x7d']) :=
  rfl

theorem entry_ne_brace (held : Int32 × Datum) (rest left : List Char) :
    entry held ++ rest ≠ '\x7d' :: left := by
  rw [entry, List.append_assoc, List.append_assoc]
  exact signed_ne_cons (by decide) rfl held.1.toInt _ left

theorem endsNumber_following (others : List (Int32 × Datum)) :
    Json.EndsNumber (others.flatMap following ++ ['\x7d']) := by
  cases others with
  | nil => exact .cons rfl rfl []
  | cons next others => exact .cons rfl rfl _

theorem inline_injective : Function.Injective inline := by
  intro left right hsame
  cases left with
  | nil =>
      cases right with
      | nil => rfl
      | cons held others =>
          rw [inline_cons] at hsame
          exact absurd (List.tail_eq_of_cons_eq hsame).symm (entry_ne_brace held _ _)
  | cons held others =>
      cases right with
      | nil =>
          rw [inline_cons] at hsame
          exact absurd (List.tail_eq_of_cons_eq hsame) (entry_ne_brace held _ _)
      | cons held' others' =>
          rw [inline_cons, inline_cons] at hsame
          obtain ⟨hheld, hrest⟩ := separates_entry (endsNumber_following others)
            (endsNumber_following others') (List.tail_eq_of_cons_eq hsame)
          have hothers := separates_following.flatMap '\x7d'
            (fun held rest => .cons rfl rfl _) (fun rest => .cons rfl rfl rest)
            (fun held rest left heq => nomatch List.head_eq_of_cons_eq heq)
          rw [hheld, (hothers rfl rfl hrest).1]

theorem block_injective : Function.Injective block := by
  have hlines := separates_line.flatMap '\x7d' (fun _ _ => trivial) (fun _ => trivial)
    (fun held rest left heq => nomatch List.head_eq_of_cons_eq heq)
  intro left right hsame
  cases left with
  | nil =>
      cases right with
      | nil => rfl
      | cons held others => exact nomatch List.head_eq_of_cons_eq (List.tail_eq_of_cons_eq hsame)
  | cons held others =>
      cases right with
      | nil => exact nomatch List.head_eq_of_cons_eq (List.tail_eq_of_cons_eq hsame)
      | cons held' others' =>
          rw [block_cons, block_cons] at hsame
          exact (hlines rfl rfl (List.tail_eq_of_cons_eq (List.tail_eq_of_cons_eq hsame))).1

end Listing

namespace IntMap

variable {map left right : IntMap Datum}

theorem listing_eq {entries : List (Int32 × Datum)} (hentries : map.sortedEntries = .ok entries) :
    map.listing = .ok (String.ofList (Listing.inline entries)) := by
  rw [listing, hentries]
  rfl

theorem blockListing_eq {entries : List (Int32 × Datum)}
    (hentries : map.sortedEntries = .ok entries) :
    map.blockListing = .ok (String.ofList (Listing.block entries)) := by
  rw [blockListing, hentries]
  rfl

/-- The two listings of a map show its entries, in ascending order of the keys. -/
structure Listed (map : IntMap Datum) (inline block : String) (entries : List (Int32 × Datum)) :
    Prop where
  listing : map.listing = .ok inline
  blockListing : map.blockListing = .ok block
  inline : inline = String.ofList (Listing.inline entries)
  block : block = String.ofList (Listing.block entries)
  ascending : entries.Pairwise fun left right => left.1 < right.1
  held : ∀ key value, (key, value) ∈ entries ↔ map.get? key = .ok (some value)

namespace Sound

theorem listed (hsound : map.Sound) : ∃ inline block entries, map.Listed inline block entries := by
  obtain ⟨entries, hentries⟩ := hsound.sortedEntries_ok
  exact ⟨_, _, entries, {
    listing := listing_eq hentries
    blockListing := blockListing_eq hentries
    inline := rfl
    block := rfl
    ascending := hsound.pairwise_sortedEntries hentries
    held := fun key value => by
      rw [hsound.mem_sortedEntries hentries, hsound.get?_eq, Except.ok.injEq] }⟩

theorem listing_eq_iff (hleft : left.Sound) (hright : right.Sound) :
    left.listing = right.listing ↔ left.contents = right.contents :=
  hleft.text_eq_iff hright Listing.inline_injective listing_eq

theorem blockListing_eq_iff (hleft : left.Sound) (hright : right.Sound) :
    left.blockListing = right.blockListing ↔ left.contents = right.contents :=
  hleft.text_eq_iff hright Listing.block_injective blockListing_eq

end Sound

/-- **Listings are a normal form.** A map is listed in both layouts by its entries, in ascending order
of the keys, and two maps are equal exactly if they are listed alike in the one layout, and in the
other. -/
theorem reachable_listing :
    (∀ map : IntMap Datum, map.Reachable →
      ∃ inline block entries, map.Listed inline block entries) ∧
      ∀ left right : IntMap Datum, left.Reachable → right.Reachable →
        ∃ same leftInline rightInline leftBlock rightBlock, left.equals right = .ok same ∧
          left.listing = .ok leftInline ∧ right.listing = .ok rightInline ∧
          left.blockListing = .ok leftBlock ∧ right.blockListing = .ok rightBlock ∧
          (same = true ↔ leftInline = rightInline) ∧ (same = true ↔ leftBlock = rightBlock) := by
  refine ⟨fun map hmap => hmap.sound.listed, ?_⟩
  intro left right hleft hright
  obtain ⟨same, hequals, hsame⟩ := hleft.sound.equals_eq_contents hright.sound
  obtain ⟨leftInline, leftBlock, _, hleftTexts⟩ := hleft.sound.listed
  obtain ⟨rightInline, rightBlock, _, hrightTexts⟩ := hright.sound.listed
  have hinline := hleft.sound.listing_eq_iff hright.sound
  have hblock := hleft.sound.blockListing_eq_iff hright.sound
  rw [hleftTexts.listing, hrightTexts.listing, Except.ok.injEq] at hinline
  rw [hleftTexts.blockListing, hrightTexts.blockListing, Except.ok.injEq] at hblock
  exact ⟨same, leftInline, rightInline, leftBlock, rightBlock, hequals, hleftTexts.listing,
    hrightTexts.listing, hleftTexts.blockListing, hrightTexts.blockListing,
    hsame.trans hinline.symm, hsame.trans hblock.symm⟩

/-- A value that spells the rest of a listing, against a map that has such an entry, whose trie lacks
it. -/
theorem listing_of_spelled_entry :
    let spelled : Leaf Datum := ⟨0, .one 1 (.text "a\", 2: \"b")⟩
    let target : Leaf Datum := ⟨0, .one 1 (.text "a")⟩
    let left : IntMap Datum := ⟨1, 0, some (.leaf spelled), some ⟨31, spelled, spelled⟩, 1⟩
    let right : IntMap Datum := ⟨2, 0, some (.leaf target),
      some ⟨31, target, ⟨1, .bitmap 6 [.text "a", .text "b"]⟩⟩, 2⟩
    left.Reachable ∧ right.Reachable ∧
      (∃ inline block entries, left.Listed inline block entries) ∧
      ∃ leftInline rightInline leftBlock rightBlock,
        left.listing = .ok leftInline ∧ right.listing = .ok rightInline ∧
        left.blockListing = .ok leftBlock ∧ right.blockListing = .ok rightBlock ∧
        leftInline ≠ rightInline ∧ leftBlock ≠ rightBlock := by
  intro spelled target left right
  have hleft : left.Reachable := .step (.singleton 1 (.text "a\", 2: \"b")) .empty rfl
  have hright : right.Reachable := .step (.ofList [(1, .text "a"), (2, .text "b")]) .empty rfl
  have hdifferent : left.equals right = .ok false := by decide
  obtain ⟨same, leftInline, rightInline, leftBlock, rightBlock, hequals, hleftInline, hrightInline,
    hleftBlock, hrightBlock, hinline, hblock⟩ := reachable_listing.2 left right hleft hright
  obtain rfl : false = same := Except.ok.inj (hdifferent.symm.trans hequals)
  exact ⟨hleft, hright, reachable_listing.1 left hleft, leftInline, rightInline, leftBlock, rightBlock,
    hleftInline, hrightInline, hleftBlock, hrightBlock,
    fun heq => Bool.false_ne_true (hinline.mpr heq), fun heq => Bool.false_ne_true (hblock.mpr heq)⟩

end IntMap

end RadixMap
