import FaultSweep.Files.Disk
import FaultSweep.Ledger.Text

/-!
# Stored ledgers

A backend is a place that holds the bytes of a ledger and replaces them as a whole. A ledger that is
loaded from it grows by one record at a time, and each time the whole ledger is written before it
counts.
-/

namespace FaultSweep

open Utf8 (Bytes)

structure Backend (W : Type) where
  /-- The stored bytes, if there are any. -/
  read : W → Except IoError (Option Bytes)
  replace : Bytes → W → Except IoError Unit × W
  describe : String

namespace Ledger

variable {W : Type}

/-- The ledger that bytes hold. Bytes that hold none count as an empty ledger, so that a sweep can
start over. -/
def ofStored : Option Bytes → Ledger
  | none => SortedMap.empty
  | some b => (decode? b).getD SortedMap.empty

def load (b : Backend W) (w : W) : Except Fatal Ledger :=
  match b.read w with
  | .error e => .error ((Fatal.of (.io e)).within ("reading ledger " ++ b.describe))
  | .ok stored => .ok (ofStored stored)

/-- Adds a record and writes the ledger. Where that fails the ledger stays as it was. -/
def append (b : Backend W) (l : Ledger) (k : ConfigurationKey) (r : TrialRecord) (w : W) :
    Except Fatal Ledger × W :=
  if r.status.isRecordable then
    match b.replace (l.push k r).encode w with
    | (.error e, w) =>
      (.error ((Fatal.of (.io e)).within ("writing ledger " ++ b.describe)), w)
    | (.ok (), w) => (.ok (l.push k r), w)
  else (.error (Fatal.of (.unrecordable r.status.name k.shown)), w)

end Ledger

/-- A ledger in memory, whose writes can be made to fail. -/
structure MemoryFile where
  bytes : Option Bytes
  failing : Bool
  /-- The number of writes that succeeded. -/
  writes : Nat

namespace MemoryFile

def backend : Backend MemoryFile where
  read m := .ok m.bytes
  replace b m :=
    if m.failing then (.error (.other "injected write failure"), m)
    else (.ok (), { m with bytes := some b, writes := m.writes + 1 })
  describe := "memory"

end MemoryFile

namespace Disk

/-- A file on a disk. A missing file holds nothing. -/
def backend (path : String) : Backend Disk where
  read d := match d.read path with
    | .ok b => .ok (some b)
    | .error (.os .notFound) => .ok none
    | .error e => .error e
  replace b d := d.replace path b
  describe := path

end Disk

/-- A backend in a part of a larger world. -/
def Backend.within {V W : Type} (b : Backend V) (part : W → V) (put : V → W → W) : Backend W where
  read w := b.read (part w)
  replace bytes w := match b.replace bytes (part w) with
    | (r, v) => (r, put v w)
  describe := b.describe

end FaultSweep
