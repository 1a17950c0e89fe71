import Quantum.Cli.SideDlls
import Quantum.Loader.Exports

/-!
# Symbols of the side modules

`SideModule::resolve` and the resolver that `wire_side_module_iats` wires with.  An address is the base of
the mapped module plus an RVA.
-/

namespace Quantum.Cli

open Quantum.Loader (ExportTable ExportEntry PeImage)

/-- A mapped side module. -/
abbrev LoadedModule := SideModule PeImage ExportTable

/-- `u32::checked_sub`. -/
def checkedSub (x y : BitVec 32) : Option (BitVec 32) :=
  if y ≤ x then some (x - y) else none

/-- The digits of a number below 2^32. -/
def parseDigits : List Char → BitVec 32 → Option (BitVec 32)
  | [], value => some value
  | c :: cs, value =>
    if c.isDigit then
      let next := value.toNat * 10 + (c.toNat - '0'.toNat)
      if next < 2 ^ 32 then parseDigits cs (BitVec.ofNat 32 next) else none
    else none

/-- `str::parse::<u32>`: decimal digits, after a plus sign or not. -/
def parseU32 (s : String) : Option (BitVec 32) :=
  match s.toList with
  | [] => none
  | '+' :: c :: cs => parseDigits (c :: cs) 0
  | cs => parseDigits cs 0

/-- `strip_prefix('#')`. -/
def stripHash (s : String) : Option String :=
  match s.toList with
  | '#' :: cs => some (String.ofList cs)
  | _ => none

/-- The address of an entry that is no forwarder. -/
def entryAddress (base : BitVec 64) (entry : ExportEntry) : Option (BitVec 64) :=
  match entry.target with
  | .rva rva => some (base + rva.setWidth 64)
  | .forwarded _ => none

/-- `SideModule::resolve`. -/
def SideModule.resolve (m : LoadedModule) (function : String) : Option (BitVec 64) :=
  match stripHash function with
  | some ordStr => do
    let ord ← parseU32 ordStr
    let idx ← checkedSub ord m.exports.ordinalBase
    let entry ← m.exports.entries[idx.toNat]?
    entryAddress m.image.actualBase entry
  | none => do
    let named ← m.exports.names.find? fun n => n.name = function
    let idx ← checkedSub named.ordinal m.exports.ordinalBase
    let entry ← m.exports.entries[idx.toNat]?
    entryAddress m.image.actualBase entry

/-- The copy of the modules that the resolver of `wire_side_module_iats` looks into. -/
def snapshot (modules : List LoadedModule) : List (String × ExportTable × BitVec 64) :=
  modules.map fun s => (s.name, s.exports, s.image.actualBase)

/-- The loop of the resolver over the copy. -/
def resolveIn : List (String × ExportTable × BitVec 64) → String → String → Option (BitVec 64)
  | [], _, _ => none
  | (name, exports, base) :: rest, lc, function =>
    if name ≠ lc then resolveIn rest lc function
    else do
      let entryIdx ← match stripHash function with
        | some ordStr => do
          let ord ← parseU32 ordStr
          checkedSub ord exports.ordinalBase
        | none => do
          let named ← exports.names.find? fun n => n.name = function
          checkedSub named.ordinal exports.ordinalBase
      let entry ← exports.entries[entryIdx.toNat]?
      entryAddress base entry

/-- The resolver of `wire_side_module_iats`: the built-in thunks first. -/
def wireResolver (resolve : String → String → Option (BitVec 64)) (modules : List LoadedModule)
    (dll function : String) : Option (BitVec 64) :=
  match resolve dll function with
  | some addr => some addr
  | none => resolveIn (snapshot modules) dll.toLower function

end Quantum.Cli
