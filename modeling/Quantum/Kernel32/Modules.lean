import Quantum.Kernel32.Thunks

/-!
# Modules at run time

`LoadLibrary`, `GetModuleHandle` and `GetProcAddress`.  They go through a table of their own, with a
resolver for each module; some of the modules have a placeholder that knows nothing.

A C string argument is what stands before its NUL.  `str::to_lowercase` is a parameter (`Lowercase`),
since all that matters of it is where it leads to ASCII.
-/

namespace Quantum.Kernel32

/-- An entry of `MODULES`; a module without a resolver has the placeholder. -/
structure ModuleEntry where
  name : String
  handle : BitVec 64
  resolver : Option Dll

def MODULES : List ModuleEntry :=
  [⟨"kernel32.dll", 0x4000000000000000, some .kernel32⟩,
   ⟨"kernelbase.dll", 0x4000000000000000, some .kernel32⟩,
   ⟨"user32.dll", 0x4000000000000001, some .user32⟩,
   ⟨"dxgi.dll", 0x4000000000000002, some .dxgi⟩,
   ⟨"d3d11.dll", 0x4000000000000003, some .d3d11⟩,
   ⟨"d3dcompiler_43.dll", 0x4000000000000004, some .d3dcompiler⟩,
   ⟨"d3d9.dll", 0x4000000000000013, some .d3d9⟩,
   ⟨"d3dx11_43.dll", 0x4000000000000014, some .d3dx11⟩,
   ⟨"advapi32.dll", 0x4000000000000005, some .advapi32⟩,
   ⟨"winmm.dll", 0x4000000000000006, some .winmm⟩,
   ⟨"gdi32.dll", 0x4000000000000007, some .gdi32⟩,
   ⟨"ws2_32.dll", 0x4000000000000008, none⟩,
   ⟨"crypt32.dll", 0x4000000000000009, none⟩,
   ⟨"wldap32.dll", 0x400000000000000A, none⟩,
   ⟨"ole32.dll", 0x400000000000000B, none⟩,
   ⟨"oleaut32.dll", 0x400000000000000C, none⟩,
   ⟨"shell32.dll", 0x400000000000000D, none⟩,
   ⟨"imm32.dll", 0x400000000000000E, none⟩,
   ⟨"xinput1_3.dll", 0x400000000000000F, none⟩,
   ⟨"dinput8.dll", 0x4000000000000010, none⟩,
   ⟨"steam_api64.dll", 0x4000000000000011, some .steamApi64⟩,
   ⟨"ntdll.dll", 0x4000000000000012, none⟩]

def HANDLE_KERNEL32 : BitVec 64 := 0x4000000000000000

/-! ### Names -/

/-- The Kelvin sign, the one character outside ASCII with an ASCII lowercase. -/
def kelvin : Char := '\u212A'

/-- The lowercase of ASCII letters and of the Kelvin sign. -/
def foldChar (c : Char) : Char := if c = kelvin then 'k' else c.toLower

/-- What is documented of `str::to_lowercase`: it maps ASCII letters and the Kelvin sign to ASCII
letters, and every other character outside ASCII to something with a character outside ASCII. -/
structure Lowercase where
  toLowercase : List Char → List Char
  of_fold : ∀ s, (∀ c ∈ s, c.toNat < 128 ∨ c = kelvin) → toLowercase s = s.map foldChar
  of_other : ∀ s, (∃ c ∈ s, 128 ≤ c.toNat ∧ c ≠ kelvin) → ∃ c ∈ toLowercase s, 128 ≤ c.toNat

def isSeparator (c : Char) : Bool := c == '\\' || c == '/'

/-- `strip_path`: the part of a path behind the last separator. -/
def stripPath (p : List Char) : List Char :=
  (p.reverse.takeWhile fun c => !isSeparator c).reverse

/-- `name.strip_suffix(".dll")`. -/
def stripDll (name : List Char) : Option (List Char) :=
  if name.drop (name.length - 4) = ".dll".toList then some (name.take (name.length - 4)) else none

/-- Does a lowercase name mean the module, with or without its suffix? -/
def ModuleEntry.matches (m : ModuleEntry) (lowered : List Char) : Bool :=
  let lower := lowered.map Char.toLower
  asciiLower m.name == lower ||
    match stripDll m.name.toList with
    | some stem => stem.map Char.toLower == lower
    | none => false

/-- `lookup_module`. -/
def lookupModule (lc : Lowercase) (name : String) : Option ModuleEntry :=
  MODULES.find? (·.matches (lc.toLowercase (stripPath name.toList)))

/-- `lookup_handle`. -/
def lookupHandle (handle : BitVec 64) : Option ModuleEntry :=
  MODULES.find? (·.handle == handle)

/-- The number of UTF-16 units of a string. -/
def utf16Length (s : String) : ℕ := (s.toList.map fun c => if c.toNat < 0x10000 then 1 else 2).sum

/-- `read_cstr_a`, of a string that is not null. -/
def readCstrA (s : String) : Option String := if 4096 < s.utf8ByteSize then none else some s

/-- `read_cstr_w`, of a string that is not null. -/
def readCstrW (s : String) : Option String := if 4096 < utf16Length s then none else some s

/-! ### Calls -/

variable (lc : Lowercase) (h : Host)

/-- `LoadLibraryA` and `LoadLibraryExA`; `none` is the null pointer. -/
def loadLibraryA (name : Option String) : BitVec 64 :=
  (((name.bind readCstrA).bind (lookupModule lc)).map (·.handle)).getD 0

/-- `LoadLibraryW` and `LoadLibraryExW`. -/
def loadLibraryW (name : Option String) : BitVec 64 :=
  (((name.bind readCstrW).bind (lookupModule lc)).map (·.handle)).getD 0

/-- `GetModuleHandleA`. -/
def getModuleHandleA (name : Option String) : BitVec 64 :=
  if name.isNone then HANDLE_KERNEL32 else loadLibraryA lc name

/-- `GetModuleHandleW`. -/
def getModuleHandleW (name : Option String) : BitVec 64 :=
  if name.isNone then HANDLE_KERNEL32 else loadLibraryW lc name

/-- The second argument of `GetProcAddress`: an ordinal, or a pointer to a C string. -/
inductive ProcName where
  | ordinal (n : BitVec 16)
  | name (s : String)

/-- `GetProcAddress`; zero is the null pointer. -/
def getProcAddress (handle : BitVec 64) (proc : ProcName) : BitVec 64 :=
  match lookupHandle handle with
  | none => 0
  | some m =>
    match proc with
    | .ordinal _ => 0
    | .name s =>
      match readCstrA s with
      | none => 0
      | some name => ((m.resolver.bind (h.resolve · name)).getD 0)

end Quantum.Kernel32
