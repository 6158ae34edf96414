import FaultSweep.Grid.Key
import FaultSweep.Json.Printer
import FaultSweep.Ledger.Record
import FaultSweep.Text.Utf8

/-!
# Ledgers

A ledger keeps for each ledger key the records of its trials in the order they were made. It is
stored as one JSON document with line breaks.
-/

namespace FaultSweep

abbrev Ledger := SortedMap (List TrialRecord)

namespace Ledger

/-- The records under a ledger key; a key that was never written has none. -/
def recordsAt (l : Ledger) (k : String) : List TrialRecord := (l.get? k).getD []

def records (l : Ledger) (k : ConfigurationKey) : List TrialRecord := l.recordsAt k.ledgerKey

def completed (l : Ledger) (k : ConfigurationKey) : Nat := (l.records k).length

/-- The trials a cell still lacks. -/
def remaining (l : Ledger) (k : ConfigurationKey) (target : Nat) : Nat := target - l.completed k

/-- The ledger with one more record at the end of a cell's list. -/
def push (l : Ledger) (k : ConfigurationKey) (r : TrialRecord) : Ledger :=
  l.insert k.ledgerKey (l.records k ++ [r])

def toJson (l : Ledger) : Json := Json.ofMap (fun rs => .arr (rs.map TrialRecord.toJson)) l

def read (n : Json.Node) : Option Ledger := do
  let r := Json.reader
  let es ← (← r.entries? n).mapM fun e => (r.list TrialRecord.read e.2).map (e.1, ·)
  return SortedMap.ofList es

def encode (l : Ledger) : Utf8.Bytes := Utf8.encode l.toJson.pretty

def decode? (b : Utf8.Bytes) : Option Ledger :=
  (Json.Document.ofBytes? b).bind fun d => read (.top d)

@[simp] theorem recordsAt_empty (k : String) : Ledger.recordsAt SortedMap.empty k = [] := rfl

@[simp] theorem records_push_self (l : Ledger) (k : ConfigurationKey) (r : TrialRecord) :
    (l.push k r).records k = l.records k ++ [r] := by
  simp [push, records, recordsAt]

theorem recordsAt_push_of_ne (l : Ledger) {j : String} {k : ConfigurationKey} (r : TrialRecord)
    (h : j ≠ k.ledgerKey) : (l.push k r).recordsAt j = l.recordsAt j := by
  simp [push, recordsAt, SortedMap.get?_insert_of_ne _ _ h]

end Ledger

end FaultSweep
