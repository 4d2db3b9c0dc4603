import RadixMap.Json.Reader
import RadixMap.Json.Writer
import RadixMap.Map.Cursor
import RadixMap.Map.Dump
import RadixMap.Map.Exchange
import RadixMap.Map.Listing
import RadixMap.Map.Prune
import RadixMap.Proofs.Absence
import RadixMap.Proofs.BulkRemoval
import RadixMap.Proofs.Canonical
import RadixMap.Proofs.Deferral
import RadixMap.Proofs.Digits
import RadixMap.Proofs.Enumeration
import RadixMap.Proofs.Equality
import RadixMap.Proofs.Exchange
import RadixMap.Proofs.Invariant
import RadixMap.Proofs.Journal
import RadixMap.Proofs.JsonObjects
import RadixMap.Proofs.JsonReading
import RadixMap.Proofs.JsonRoundTrip
import RadixMap.Proofs.ListingNormalForm
import RadixMap.Proofs.MergeRoutes
import RadixMap.Proofs.NoFault
import RadixMap.Proofs.NodeCanonical
import RadixMap.Proofs.NodeRemoval
import RadixMap.Proofs.NodeTable
import RadixMap.Proofs.NodeUpdate
import RadixMap.Proofs.Numerals
import RadixMap.Proofs.Paths
import RadixMap.Proofs.Selection
import RadixMap.Proofs.SignedOrder
import RadixMap.Proofs.TreeText
import RadixMap.Proofs.TrieGraft
import RadixMap.Proofs.TrieHeight
import RadixMap.Proofs.TrieLeaves
import RadixMap.Proofs.TrieWrite
