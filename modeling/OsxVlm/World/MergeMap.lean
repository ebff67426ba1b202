import Mathlib
import OsxVlm.World.LoadMap

/-!
# Merging two load maps

The load map of a child world lies over that of its parent.  The entries of both that
are still to come are lists; what is cut off a background entry is the rest of it
above the foreground entry.
-/

namespace VM

/-- `LoadFileFormat`. -/
inductive LoadFileFormat where
  | vlm
  | ivory
  deriving DecidableEq

def LoadFileFormat.pageSizeQs : LoadFileFormat → Nat
  | .vlm => 8192
  | .ivory => 256

/-- The 32-bit sum of address and count. -/
def LoadMapEntry.endAddress (e : LoadMapEntry) : Nat := (e.address + e.count) % 2 ^ 32

def LoadMapEntry.isData (e : LoadMapEntry) : Bool := e.opcode = .dataPages

/-- A count has 24 bits. -/
def sub24 (a b : Nat) : Nat := (a + 2 ^ 24 - b % 2 ^ 24) % 2 ^ 24

structure Merging where
  foreground : List LoadMapEntry
  background : List LoadMapEntry
  new : List LoadMapEntry
  copiedForeground : Bool
  /-- The count of a background entry has become negative. -/
  wrapped : Bool

/-- How a merge ends. -/
inductive MergeEnd where
  | merged
  | punt
  /-- An entry behind the background map is read. -/
  | outside
  deriving DecidableEq

/-- The entry is special or falls entirely below the foreground entry. -/
def LoadMapEntry.below (b f : LoadMapEntry) : Bool :=
  !b.isData || decide (b.address < f.address) && decide (b.endAddress < f.address)

/-- The part of the background entry that falls below the foreground entry. -/
def LoadMapEntry.lower (b f : LoadMapEntry) : LoadMapEntry :=
  { b with count := (f.address + 2 ^ 32 - b.address) % 2 ^ 32 % 2 ^ 24 }

/-- The part that extends past its end, from a page boundary on; whether its count is
right, and nothing where it is zero. -/
def LoadMapEntry.upper (pageSizeQs : Nat) (b f : LoadMapEntry) : Option LoadMapEntry × Bool :=
  let overlap := (f.endAddress + 2 ^ 32 - b.address) % 2 ^ 32
  let address := f.endAddress
  let count := sub24 b.count overlap
  let slop := address % pageSizeQs
  let address' := if slop ≠ 0 then (address + (pageSizeQs - slop)) % 2 ^ 32 else address
  let count' := if slop ≠ 0 then sub24 count slop else count
  let pages := (address' + 2 ^ 32 - b.address) % 2 ^ 32 / pageSizeQs
  (if slop ≠ 0 ∧ count' = 0 then none
    else
      some
        { b with
          address := address'
          count := count'
          data := { b.data with data := b.data.data + BitVec.ofNat 32 pages } },
    decide (overlap ≤ b.count ∧ slop ≤ count))

namespace Merging

/-- The loop over what falls below the foreground entry. -/
def skipBelow (f : LoadMapEntry) : List LoadMapEntry → List LoadMapEntry × List LoadMapEntry
  | [] => ([], [])
  | b :: background =>
      if b.below f then
        let r := skipBelow f background
        (b :: r.1, r.2)
      else ([], b :: background)

def copyForeground (s : Merging) (f : LoadMapEntry) : Merging :=
  if s.copiedForeground then s else { s with new := s.new ++ [f], copiedForeground := true }

/-- Done with the foreground entry, when no background entry overlaps it any more. -/
def advance (s : Merging) (f : LoadMapEntry) : Merging :=
  match s.background with
  | [] => { s with foreground := s.foreground.tail, copiedForeground := false }
  | b :: _ =>
      if f.endAddress ≤ b.address then
        { s with foreground := s.foreground.tail, copiedForeground := false }
      else s

/-- The background entry `b` against the foreground entry; whether the merge goes on. -/
def overlay (pageSizeQs : Nat) (s : Merging) (f b : LoadMapEntry)
    (background : List LoadMapEntry) : Merging × Bool :=
  let s := if b.address < f.address then { s with new := s.new ++ [b.lower f] } else s
  let s := s.copyForeground f
  if b.address < f.endAddress then
    if f.endAddress < b.endAddress then
      match b.upper pageSizeQs f with
      | (none, exact_) => ({ s with wrapped := s.wrapped || !exact_ }, false)
      | (some b', exact_) =>
          ({ s with background := b' :: background, wrapped := s.wrapped || !exact_ }, true)
    else ({ s with background := background }, true)
  else (s, true)

def skip (s : Merging) (f : LoadMapEntry) : Merging :=
  let (below, background) := skipBelow f s.background
  { s with
    background := background
    new := s.new ++ below }

/-- One round for the foreground entry `f`; it goes on or ends. -/
def round (pageSizeQs : Nat) (s : Merging) (f : LoadMapEntry) : Merging ⊕ MergeEnd × Merging :=
  let s := s.skip f
  if !f.isData && !s.copiedForeground then .inl ((s.copyForeground f).advance f)
  else
    match s.background with
    | [] => .inr (.outside, s)
    | b :: background =>
        let (s, goesOn) := s.overlay pageSizeQs f b background
        if goesOn then .inl (s.advance f) else .inr (.punt, s)

/-- The loop, for at most `fuel` rounds. -/
def run (pageSizeQs : Nat) : Nat → Merging → Option (MergeEnd × Merging)
  | 0, _ => none
  | fuel + 1, s =>
      match s.foreground with
      | [] => some (.merged, { s with new := s.new ++ s.background, background := [] })
      | f :: _ =>
          match s.round pageSizeQs f with
          | .inl s => run pageSizeQs fuel s
          | .inr r => some r

end Merging

/-- Where `MergeAMap` begins. -/
def mergeAMap (foreground background : List LoadMapEntry) : Merging where
  foreground := foreground
  background := background
  new := []
  copiedForeground := false
  wrapped := false

end VM
