import Quantum.Lib.Worklist
import Quantum.Loader.Imports
import Quantum.Loader.Reloc

/-!
# Side DLLs

`load_side_dlls` of `process.rs`: find, map and prepare the DLLs that the main image imports, and the
DLLs that these import in turn.  DLLs with a built-in resolver (`hasBuiltin`) are skipped.

The files and the memory manager are the host's (`DllHost`).  The loop maps a name at most once, so what
the memory manager does is given for each name.
-/

namespace Quantum.Cli

open Loader

/-- `resolve()` of `thunks.rs`: the DLL names it has a branch for. -/
def thunkDlls : List String :=
  ["kernel32.dll", "kernelbase.dll", "steam_api64.dll", "d3d11.dll", "d3d9.dll", "d3dx11_43.dll",
   "d3dcompiler_43.dll", "dxgi.dll", "user32.dll", "gdi32.dll", "ntdll.dll",
   "msvcrt.dll", "ucrtbase.dll", "vcruntime140.dll", "vcruntime140_1.dll", "msvcr100.dll",
   "msvcr110.dll", "msvcr120.dll", "msvcp100.dll", "msvcp140.dll",
   "api-ms-win-crt-runtime-l1-1-0.dll", "api-ms-win-crt-string-l1-1-0.dll",
   "api-ms-win-crt-stdio-l1-1-0.dll", "api-ms-win-crt-heap-l1-1-0.dll",
   "api-ms-win-crt-utility-l1-1-0.dll",
   "advapi32.dll", "winmm.dll", "shell32.dll", "ole32.dll", "imm32.dll", "crypt32.dll",
   "dinput8.dll", "oleaut32.dll", "xinput1_3.dll", "wldap32.dll", "ws2_32.dll", "wsock32.dll",
   "msacm32.dll"]

/-- Does the table of built-in thunks own the DLL?  Names are compared without case. -/
def ownedByThunks (dll : String) : Bool :=
  thunkDlls.contains dll.toLower

/-- The names of `has_builtin`. -/
def builtinDlls : List String :=
  ["kernel32.dll", "kernelbase.dll", "user32.dll", "gdi32.dll", "advapi32.dll", "winmm.dll",
   "shell32.dll", "ole32.dll", "oleaut32.dll", "imm32.dll", "crypt32.dll", "dinput8.dll",
   "xinput1_3.dll", "wldap32.dll", "ws2_32.dll", "dxgi.dll", "d3d11.dll", "d3d9.dll",
   "d3dx11_43.dll", "d3dcompiler_43.dll", "steam_api64.dll", "ntdll.dll", "wsock32.dll",
   "msacm32.dll"]

def hasBuiltin (dll : String) : Bool :=
  builtinDlls.contains dll

structure SideModule (Image Exports : Type) where
  name : String
  image : Image
  exports : Exports
  deriving Repr, DecidableEq

structure DllHost where
  /-- `std::fs::read` of a path, `none` if it fails. -/
  read : String → Option Bytes
  /-- The memory manager when the file of a name is mapped, and the memory that it finds. -/
  mapping : String → MemoryManager × ByteMem
  /-- Does the build check sums for overflow? -/
  overflowChecks : Bool

/-- `Path::join`: an absolute path takes the place of the directory. -/
def joinPath (dir name : String) : String :=
  if name.toList.head? = some '/' then name
  else if dir = "" ∨ dir.toList.getLast? = some '/' then dir ++ name
  else dir ++ "/" ++ name

/-- To go on with the next name on an error. -/
def orContinue {α : Type} (m : Checked LoadError α) : Checked Unit α :=
  m.mapError fun
    | .panicked => .panicked
    | .err _ => .err ()

section Loop

variable (host : DllHost) (dllDir : String)

/-- Read, parse, map and relocate the file of a name. -/
def relocated (name : String) : Checked Unit PeImage := do
  let bytes ← Checked.okOr (host.read (joinPath dllDir name)) ()
  let pe ← orContinue (PeFile.parse bytes)
  let (mm, mem) := host.mapping name
  let image ← (load mm pe mem).1.mapError fun _ => .err ()
  let (image, stats) := Reloc.apply image
  let _ ← stats.mapError fun _ => .err ()
  return image

/-- The image of a name and its exports. -/
def prepare (name : String) : Checked Unit (PeImage × ExportTable) := do
  let image ← relocated host dllDir name
  let table ← orContinue (Exports.parseIn host.overflowChecks image)
  let exports ← Checked.okOr table ()
  return (image, exports)

/-- A result, or none on an error; it may still panic. -/
def attempt {ε α : Type} : Checked ε α → Checked Empty (Option α)
  | .ok a => .ok (some a)
  | .error (.err _) => .ok none
  | .error .panicked => .error .panicked

/-- The names that an import table makes the loop look at, if it can be parsed. -/
def importNames (table : Option Imports.ImportTable) : List String :=
  (table.map fun t => t.dlls.map fun d => d.name.toLower).getD []

/-- What the loop does with a name it has not seen: nothing, or load it and look at its imports. -/
def loadOne (name : String) : Checked Empty (Option ((PeImage × ExportTable) × List String)) :=
  if hasBuiltin name then return none
  else do
    match ← attempt (prepare host dllDir name) with
    | none => return none
    | some r =>
      let table ← attempt (Imports.parse r.1)
      return some (r, importNames table)

/-- The work at the start: the imports of the main image, with the last one on top. -/
def initialWork (main : Imports.ImportTable) : List String :=
  (main.dlls.map fun d => d.name.toLower).reverse

/-- The loop of `load_side_dlls`, for at most `fuel` rounds. -/
def loadSideDlls (main : Imports.ImportTable) (fuel : Nat) :
    Option (Checked Empty (List (SideModule PeImage ExportTable))) :=
  (Worklist.run (loadOne host dllDir) fuel ⟨[], [], initialWork main⟩).map fun r =>
    r.map (List.map fun m => ⟨m.1, m.2.1, m.2.2⟩)

end Loop

end Quantum.Cli
