import MicroReticulum.Directory.Writer

/-!
# Coherence of a slot

A reader's copy against any of the writer's operations. `rdirForget` wipes the
counter with the record and leaves it at zero, so a slot that is forgotten and
taken again comes back to counts it had before; and within every wipe the
counter reads zero, which is even, until `recClear` puts it back.
-/

namespace MicroReticulum.Directory

open Lib.Runs Lib.Seqlock

/-- An announce that brings a key. -/
def announce (pubkey : Bytes) : Announce where
  pubkey := some pubkey
  nameHash := none
  receivedFrom := none
  ifaceHash := none
  hops := 1
  edge := false
  answerFor := false
  timestamp := 0
  expires := 0

/-- Starts an operation and carries it through: no operation makes more than
forty stores. -/
def whole (op : Op) : List (Event Op) := .start op :: List.replicate 40 .write

end MicroReticulum.Directory
