import Mv88fxx81.Dram.Timing

/-!
# The choice of the latency

A mask says which latencies a bank supports. Of the three highest ones the bank gives the shortest
clock period. The masks of all banks are joined in the record of bank 0, which stands for all
of them. Going down from the highest latency in the joined mask, those too slow for the clock are
struck out, and the least one left in the range of the controller is chosen.
-/

namespace Mv88fxx81.Dram

open CheckedWords

/-- The cycle times of a bank in ps, from its highest latency down. -/
def DramBankInfo.cycleTime? (bank : DramBankInfo) : ℕ → Option (BitVec 32)
  | 1 => some bank.minCycleTimeAtMaxCasLatPs
  | 2 => some bank.minCycleTimeAtMaxCasLatMinus1Ps
  | 3 => some bank.minCycleTimeAtMaxCasLatMinus2Ps
  | _ => none

/-- `suportedCasLatencies & ~(BIT0 << j)`. -/
def strikeOut (latencies : BitVec 32) (j : ℕ) : BitVec 32 :=
  latencies &&& ~~~((1 : BitVec 32) <<< j)

/-- A turn of the loop over the latencies: the count of the supported ones so far, and the mask. -/
def latencyTurn (pBankInfo : DramBankInfo) (busClkPs : BitVec 32) (j : ℕ)
    (state : ℕ × BitVec 32) : ℕ × BitVec 32 :=
  let (count, latencies) := state
  if latencies.getLsbD j then
    match pBankInfo.cycleTime? count with
    | some time => (count + 1, if busClkPs < time then strikeOut latencies j else latencies)
    | none => (count, strikeOut latencies j)
  else (count, latencies)

/-- The loop over the latencies, down to the second bit. -/
def latencyLoop (pBankInfo : DramBankInfo) (busClkPs : BitVec 32) :
    ℕ → ℕ × BitVec 32 → ℕ × BitVec 32
  | 0, state => state
  | j + 1, state =>
    latencyLoop pBankInfo busClkPs j (latencyTurn pBankInfo busClkPs (j + 1) state)

/-- The bits of the latencies of the controller: 3 to 5 for DDR2, 1.5 to 3 for DDR1. -/
def controllerRange (sdramConfigReg : BitVec 32) : List ℕ :=
  if isDdr2 sdramConfigReg then [3, 4, 5] else [1, 2, 3, 4]

/-- The first supported latency of a range. -/
def firstSupported (latencies : BitVec 32) (range : List ℕ) : BitVec 32 :=
  match range.find? (latencies.getLsbD ·) with
  | some j => (1 : BitVec 32) <<< j
  | none => 0

/-- The latency asked for, with a default for those the controller does not have. -/
def forcedLatency (sdramConfigReg forcedCl : BitVec 32) : BitVec 32 :=
  if isDdr2 sdramConfigReg then
    if forcedCl = 30 then 0x08 else if forcedCl = 40 then 0x10 else 0x10
  else
    if forcedCl = 15 then 0x02
    else if forcedCl = 20 then 0x04
    else if forcedCl = 25 then 0x08
    else if forcedCl = 30 then 0x10
    else if forcedCl = 40 then 0x40
    else 0x10

/-- `minCasCalc`. The mask it leaves in the record is not read again. -/
def minCasCalc (sdramConfigReg : BitVec 32) (pBankInfo : DramBankInfo)
    (busClk forcedCl : BitVec 32) : Checked (BitVec 32) := do
  let busClkPs ← div 1000000000 (busClk / 1000)
  if forcedCl ≠ 0 then return forcedLatency sdramConfigReg forcedCl
  else
    let (_, latencies) := latencyLoop pBankInfo busClkPs 7 (1, pBankInfo.suportedCasLatencies)
    return firstSupported latencies (controllerRange sdramConfigReg)

/-- The mask joined with that of a bank, if it exists. -/
def joinLatencies (banks : Fin 4 → Option DramBankInfo) (latencies : BitVec 32)
    (bankNum : Fin 4) : BitVec 32 :=
  match banks bankNum with
  | some bank => latencies &&& bank.suportedCasLatencies
  | none => latencies

/-- The record of bank 0 after `mvDramIfDetect` has joined the mask of each bank that exists. -/
def representative (bank : DramBankInfo) (banks : Fin 4 → Option DramBankInfo) : DramBankInfo :=
  { bank with
    suportedCasLatencies :=
      (List.finRange 4).foldl (joinLatencies banks) bank.suportedCasLatencies }

end Mv88fxx81.Dram
