import RadixMap.Datum
import RadixMap.Map.Basic

/-!
# Listings

The entries of a map in braces, in ascending order of the keys, on one line or on a line each.
-/
namespace RadixMap

namespace Listing

def entry (entry : Int32 × Datum) : List Char :=
  Numeral.signed entry.1.toInt ++ [':', ' '] ++ entry.2.quoted

/-- Entries on one line, with a comma between them. -/
def inline (entries : List (Int32 × Datum)) : List Char :=
  ['\x7b'] ++ [',', ' '].intercalate (entries.map entry) ++ ['\x7d']

/-- Entries on lines of their own, each with a comma after it. -/
def block : List (Int32 × Datum) → List Char
  | [] => ['\x7b', '\x7d']
  | entries =>
    let line (shown : List Char) := [' ', ' ', ' ', ' '] ++ shown ++ [',', '\n']
    ['\x7b', '\n'] ++ entries.flatMap (fun held => line (entry held)) ++ ['\x7d']

end Listing

namespace IntMap

def listing (map : IntMap Datum) : Checked String := do
  return String.ofList (Listing.inline (← map.sortedEntries))

def blockListing (map : IntMap Datum) : Checked String := do
  return String.ofList (Listing.block (← map.sortedEntries))

end IntMap

end RadixMap
