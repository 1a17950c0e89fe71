import Mathlib.Data.List.Basic
import Quantum.Kernel32.Modules

/-!
# Static and dynamic imports

An import table is wired through `resolve`; a program that asks at run time goes through `LoadLibrary`
and `GetProcAddress`.  The two agree on a DLL name and a function name exactly under `InStep`
(`imports_agree_iff`): a DLL that has a resolver only for import tables has no such function, and a name
that only `LoadLibrary` takes for a DLL means none with such a function.
-/

namespace Quantum.Kernel32

/-! ### Characters -/

theorem toLower_cases (c : Char) :
    c.toLower = c ∨ 65 ≤ c.toNat ∧ c.toNat ≤ 90 ∧ c.toLower.toNat = c.toNat + 32 := by
  unfold Char.toLower
  split
  next h =>
    have hlo : 65 ≤ c.toNat := h.1
    have hhi : c.toNat ≤ 90 := h.2
    refine .inr ⟨hlo, hhi, ?_⟩
    change (c.val + ('a'.val - 'A'.val)).toNat = _
    rw [UInt32.toNat_add]
    change (c.toNat + 32) % 2 ^ 32 = _
    omega
  next => exact .inl rfl

theorem toLower_of_le {c : Char} (h : 128 ≤ c.toNat) : c.toLower = c := by
  rcases toLower_cases c with heq | ⟨-, hhi, -⟩
  · exact heq
  · omega

theorem ne_of_toNat_ne {c d : Char} (h : c.toNat ≠ d.toNat) : c ≠ d := fun heq => h (heq ▸ rfl)

theorem isSeparator_toLower (c : Char) : isSeparator c.toLower = isSeparator c := by
  rcases toLower_cases c with heq | ⟨hlo, hhi, heq⟩
  · rw [heq]
  · have h₁ : c ≠ '/' := ne_of_toNat_ne (by simp; omega)
    have h₂ : c ≠ '\\' := ne_of_toNat_ne (by simp; omega)
    have h₃ : c.toLower ≠ '/' := ne_of_toNat_ne (by simp; omega)
    have h₄ : c.toLower ≠ '\\' := ne_of_toNat_ne (by simp; omega)
    simp only [isSeparator, beq_false_of_ne h₁, beq_false_of_ne h₂, beq_false_of_ne h₃,
      beq_false_of_ne h₄]

theorem toLower_toLower (c : Char) : c.toLower.toLower = c.toLower := by
  rcases toLower_cases c with heq | ⟨hlo, hhi, heq⟩
  · rw [heq, heq]
  · rcases toLower_cases c.toLower with heq' | ⟨-, hhi', -⟩
    · exact heq'
    · omega

theorem foldChar_toLower (c : Char) : foldChar c.toLower = foldChar c := by
  rcases toLower_cases c with heq | ⟨hlo, hhi, heq⟩
  · rw [heq]
  · have h₁ : c ≠ kelvin := ne_of_toNat_ne (by simp [kelvin]; omega)
    have h₂ : c.toLower ≠ kelvin := ne_of_toNat_ne (by simp [kelvin]; omega)
    rw [foldChar, foldChar, if_neg h₁, if_neg h₂, toLower_toLower]

/-! ### Names -/

/-- What `lookup_module` compares with the names of the modules. -/
def fold (name : List Char) : List Char := (stripPath name).map foldChar

theorem fold_map_toLower (name : List Char) : fold (name.map Char.toLower) = fold name := by
  have hsep : (fun c => !isSeparator c) ∘ Char.toLower = fun c => !isSeparator c := by
    funext c
    simp [isSeparator_toLower]
  have hfold : foldChar ∘ Char.toLower = foldChar := funext foldChar_toLower
  simp only [fold, stripPath, ← List.map_reverse, List.takeWhile_map, hsep, List.map_map, hfold]

theorem utf16Length_eq (s : String) :
    utf16Length s = ((asciiLower s).map fun c => if c.toNat < 0x10000 then 1 else 2).sum := by
  have hunits : (fun c : Char => if c.toNat < 0x10000 then 1 else 2) ∘ Char.toLower =
      fun c => if c.toNat < 0x10000 then 1 else 2 := by
    funext c
    rcases toLower_cases c with heq | ⟨hlo, hhi, heq⟩
    · simp only [Function.comp_apply, heq]
    · simp only [Function.comp_apply, heq]
      rw [if_pos (by omega), if_pos (by omega)]
  rw [utf16Length, asciiLower, List.map_map, hunits]

theorem utf8ByteSize_ofList (l : List Char) :
    (String.ofList l).utf8ByteSize = (l.map Char.utf8Size).sum := by
  induction l with
  | nil => rfl
  | cons c l ih =>
    rw [← List.singleton_append, String.ofList_append, String.utf8ByteSize_append, ih]
    simp

theorem utf8ByteSize_eq (s : String) : s.utf8ByteSize = ((asciiLower s).map Char.utf8Size).sum := by
  have hbytes : Char.utf8Size ∘ Char.toLower = Char.utf8Size := by
    funext c
    rcases toLower_cases c with heq | ⟨hlo, hhi, heq⟩
    · simp only [Function.comp_apply, heq]
    · have h₁ : c.utf8Size = 1 := Char.utf8Size_eq_one_iff.mpr (by
        rw [UInt32.le_iff_toNat_le]
        exact Nat.le_trans hhi (by decide))
      have h₂ : c.toLower.utf8Size = 1 := Char.utf8Size_eq_one_iff.mpr (by
        rw [UInt32.le_iff_toNat_le]
        change c.toLower.toNat ≤ 127
        omega)
      simp only [Function.comp_apply, h₁, h₂]
  rw [asciiLower, List.map_map, hbytes, ← utf8ByteSize_ofList, String.ofList_toList]

theorem utf16Length_le (s : String) : utf16Length s ≤ s.utf8ByteSize := by
  rw [← String.ofList_toList (s := s), utf8ByteSize_ofList, utf16Length, String.toList_ofList]
  induction s.toList with
  | nil => exact Nat.le_refl _
  | cons c l ih =>
    simp only [List.map_cons, List.sum_cons]
    have hc : (if c.toNat < 0x10000 then 1 else 2) ≤ c.utf8Size := by
      split_ifs with h
      · exact c.utf8Size_pos
      · have h₄ : c.utf8Size = 4 := Char.utf8Size_eq_four_iff.mpr (by
          rw [UInt32.lt_iff_toNat_lt]
          exact Nat.lt_of_succ_le (Nat.le_of_not_lt h))
        omega
    omega

/-! ### The table of modules -/

theorem modules_ascii : ∀ m ∈ MODULES, ∀ c ∈ asciiLower m.name, c.toNat < 128 := by
  have hall : (MODULES.all fun m => (asciiLower m.name).all fun c => decide (c.toNat < 128)) = true := by
    decide +kernel
  intro m hm c hc
  exact of_decide_eq_true (List.all_eq_true.mp (List.all_eq_true.mp hall m hm) c hc)

/-- What matches a module is made of the letters of its name. -/
theorem mem_of_matches {m : ModuleEntry} {s : List Char} (h : m.matches s = true) :
    ∀ c ∈ s.map Char.toLower, c ∈ asciiLower m.name := by
  simp only [ModuleEntry.matches, Bool.or_eq_true, beq_iff_eq] at h
  rcases h with h | h
  · exact fun c hc => h ▸ hc
  · unfold stripDll at h
    split_ifs at h with hdll
    · simp only [beq_iff_eq] at h
      intro c hc
      rw [← h] at hc
      exact List.map_subset _ (List.take_subset _ _) hc

theorem not_matches_of_other {m : ModuleEntry} (hm : m ∈ MODULES) {s : List Char}
    (hs : ∃ c ∈ s, 128 ≤ c.toNat) : m.matches s = false := by
  obtain ⟨c, hc, hlt⟩ := hs
  rw [Bool.eq_false_iff]
  intro h
  have hmem := mem_of_matches h c.toLower (List.mem_map_of_mem hc)
  have := modules_ascii m hm _ hmem
  rw [toLower_of_le hlt] at this
  omega

/-- `to_lowercase` makes no difference beyond ASCII letters and the Kelvin sign. -/
theorem lookupModule_eq (lc : Lowercase) (name : String) :
    lookupModule lc name = MODULES.find? (·.matches (fold name.toList)) := by
  unfold lookupModule fold
  generalize stripPath name.toList = s
  by_cases h : ∃ c ∈ s, 128 ≤ c.toNat ∧ c ≠ kelvin
  · have hfold : ∃ c ∈ s.map foldChar, 128 ≤ c.toNat := by
      obtain ⟨c, hc, hlt, hne⟩ := h
      refine ⟨foldChar c, List.mem_map_of_mem hc, ?_⟩
      rwa [foldChar, if_neg hne, toLower_of_le hlt]
    have hnone : ∀ s : List Char, (∃ c ∈ s, 128 ≤ c.toNat) → MODULES.find? (·.matches s) = none :=
      fun s hs => List.find?_eq_none.mpr fun m hm => by simp [not_matches_of_other hm hs]
    rw [hnone _ (lc.of_other s h), hnone _ hfold]
  · rw [lc.of_fold s fun c hc => ?_]
    by_contra hc'
    exact h ⟨c, hc, by omega, fun heq => hc' (.inr heq)⟩

theorem lookupHandle_eq : ∀ m ∈ MODULES, m.handle ≠ 0 ∧
    (lookupHandle m.handle).map (·.resolver) = some m.resolver := by
  decide

/-- The tables that are behind a module. -/
def loadedDlls : List Dll := MODULES.filterMap (·.resolver)

theorem names_short : ∀ d ∈ loadedDlls, ∀ name ∈ d.names, name.utf8ByteSize ≤ 4096 := by
  decide +kernel

theorem exports_eq : ∀ d ∈ loadedDlls, ∀ name, d.exports name = d.names.contains name := by
  intro d hd name
  cases d <;> first | rfl | exact absurd hd (by decide)

variable (lc : Lowercase) (h : Host)

theorem resolve_eq_none {h : Host} {d : Dll} {name : String} :
    h.resolve d name = none ↔ d.exports name = false := by
  unfold Host.resolve
  split_ifs with he <;> simp [he]

/-- The resolver of a module is asked for every name. -/
theorem getProcAddress_handle {m : ModuleEntry} (hm : m ∈ MODULES) (name : String) :
    getProcAddress h m.handle (.name name) = (m.resolver.bind (h.resolve · name)).getD 0 := by
  obtain ⟨-, hlook⟩ := lookupHandle_eq m hm
  obtain ⟨m', hm', hres⟩ := Option.map_eq_some_iff.mp hlook
  simp only [getProcAddress, hm', readCstrA]
  split_ifs with hlong
  · -- No name that a module exports is too long to be read.
    cases hr : m.resolver with
    | none => rfl
    | some d =>
      have hd : d ∈ loadedDlls := List.mem_filterMap.mpr ⟨m, hm, hr⟩
      have hex : d.exports name = false := by
        rw [exports_eq d hd, Bool.eq_false_iff]
        intro hc
        have := names_short d hd name (List.contains_iff_mem.mp hc)
        omega
      simp [resolve_eq_none.mpr hex]
  · simp only [hres]

theorem getProcAddress_zero (proc : ProcName) : getProcAddress h 0 proc = 0 := by
  have hnone : lookupHandle 0 = none := by decide
  simp only [getProcAddress, hnone]

/-! ### Agreement -/

/-- The calls that give a handle for a name. -/
inductive Opener where
  | loadLibraryA
  | loadLibraryW
  | getModuleHandleA
  | getModuleHandleW

def Opener.handle (name : String) : Opener → BitVec 64
  | .loadLibraryA => Kernel32.loadLibraryA lc (some name)
  | .loadLibraryW => Kernel32.loadLibraryW lc (some name)
  | .getModuleHandleA => Kernel32.getModuleHandleA lc (some name)
  | .getModuleHandleW => Kernel32.getModuleHandleW lc (some name)

/-- The same DLL name up to ASCII case, with or without its suffix. -/
def Spelling (v dll : String) : Prop :=
  asciiLower v = asciiLower dll ∨ asciiLower v ++ ".dll".toList = asciiLower dll

/-- Static and dynamic imports agree on a DLL name and a function name. -/
def ImportsAgree (dll name : String) : Prop :=
  ∀ (o : Opener) (v : String), Spelling v dll →
    (∀ a, h.resolveThunk dll name = some a →
      o.handle lc v ≠ 0 ∧ getProcAddress h (o.handle lc v) (.name name) = a) ∧
    (h.resolveThunk dll name = none → getProcAddress h (o.handle lc v) (.name name) = 0)

/-- The table that `LoadLibrary` takes a name for. -/
def loadedAs (v : String) : Option Dll :=
  (MODULES.find? (·.matches (fold v.toList))).bind (·.resolver)

/-- A DLL name without its suffix. -/
def dropDll (dll : String) : Option String :=
  if (asciiLower dll).drop (dll.toList.length - 4) = ".dll".toList then
    some (String.ofList (dll.toList.take (dll.toList.length - 4)))
  else none

/-- A DLL that import tables know is loaded at run time too, or does not have the function.  Another
name, or the name without its suffix, is not taken for a DLL that has it. -/
def InStep (dll name : String) : Prop :=
  match thunkDll dll with
  | some d => d ∈ loadedDlls ∨ d.exports name = false
  | none => ∀ v, v = dll ∨ dropDll dll = some v → utf16Length v ≤ 4096 →
      ∀ d, loadedAs v = some d → d.exports name = false

/-- How long a name may be for a call. -/
def Opener.reads (v : String) : Opener → Prop
  | .loadLibraryA | .getModuleHandleA => v.utf8ByteSize ≤ 4096
  | .loadLibraryW | .getModuleHandleW => utf16Length v ≤ 4096

theorem Opener.handle_eq {o : Opener} {v : String} (ho : o.reads v) :
    o.handle lc v = ((MODULES.find? (·.matches (fold v.toList))).map (·.handle)).getD 0 := by
  cases o <;>
    simp only [handle, Kernel32.getModuleHandleA, Kernel32.getModuleHandleW, Kernel32.loadLibraryA,
      Kernel32.loadLibraryW, readCstrA, readCstrW, Option.bind_some, Option.isNone_some, Bool.false_eq_true, if_false,
      if_neg (Nat.not_lt.mpr ho), lookupModule_eq]

theorem Opener.handle_eq_zero {o : Opener} {v : String} (ho : ¬ o.reads v) : o.handle lc v = 0 := by
  cases o <;>
    simp only [handle, Kernel32.getModuleHandleA, Kernel32.getModuleHandleW, Kernel32.loadLibraryA,
      Kernel32.loadLibraryW, readCstrA, readCstrW, Option.bind_some, Option.isNone_some, Bool.false_eq_true, if_false,
      if_pos (Nat.lt_of_not_le ho), Option.bind_none, Option.map_none, Option.getD_none]

/-- What `GetProcAddress` makes of a handle depends on the table behind the name. -/
theorem getProcAddress_eq {o : Opener} {v : String} (ho : o.reads v) (name : String) :
    getProcAddress h (o.handle lc v) (.name name) =
      ((loadedAs v).bind (h.resolve · name)).getD 0 := by
  rw [o.handle_eq lc ho]
  unfold loadedAs
  cases hm : MODULES.find? (·.matches (fold v.toList)) with
  | none => exact getProcAddress_zero h _
  | some m => exact getProcAddress_handle h (List.mem_of_find?_eq_some hm) name

/-! ### Names of the import tables -/

/-- The spellings of a name of `thunkTable` are loaded as its table, if that is one of the loaded. -/
theorem thunkTable_loaded : ∀ e ∈ thunkTable,
    ∀ s ∈ [asciiLower e.1, (asciiLower e.1).take ((asciiLower e.1).length - 4)],
      fold s = s ∧ (MODULES.find? (·.matches s)).bind (·.resolver) =
        (if e.2 ∈ loadedDlls then some e.2 else none) ∧ (s.map Char.utf8Size).sum ≤ 4096 := by
  decide +kernel

variable {lc h} {dll v name : String} {d : Dll} {o : Opener}

theorem loadedAs_of_spelling (hd : thunkDll dll = some d) (hv : Spelling v dll) :
    loadedAs v = (if d ∈ loadedDlls then some d else none) ∧ v.utf8ByteSize ≤ 4096 := by
  obtain ⟨e, hfind, rfl⟩ := Option.map_eq_some_iff.mp hd
  have hmem := List.mem_of_find?_eq_some hfind
  have hname : asciiLower e.1 = asciiLower dll := by simpa using List.find?_some hfind
  have hs : asciiLower v ∈ [asciiLower e.1, (asciiLower e.1).take ((asciiLower e.1).length - 4)] := by
    rw [hname]
    rcases hv with hv | hv
    · simp [hv]
    · rw [← hv]
      simp
  obtain ⟨hfold, hload, hsize⟩ := thunkTable_loaded e hmem _ hs
  constructor
  · rw [loadedAs, ← fold_map_toLower]
    change (MODULES.find? (·.matches (fold (asciiLower v)))).bind _ = _
    rw [hfold, hload]
  · rwa [utf8ByteSize_eq]

theorem Opener.reads_of_size (hv : v.utf8ByteSize ≤ 4096) : o.reads v := by
  have hle := utf16Length_le v
  cases o <;> simp only [reads] <;> omega

theorem resolve_ne_zero {a : BitVec 64} (ha : h.resolve d name = some a) : a ≠ 0 := by
  unfold Host.resolve at ha
  split_ifs at ha
  exact Option.some.inj ha ▸ h.addr_ne_zero _ _

/-- A name of the import tables. -/
theorem importsAgree_of_some (hd : thunkDll dll = some d) :
    ImportsAgree lc h dll name ↔ d ∈ loadedDlls ∨ d.exports name = false := by
  have hthunk : h.resolveThunk dll name = h.resolve d name := by
    simp only [Host.resolveThunk, hd]
  constructor
  · intro hagree
    by_contra hc
    obtain ⟨hload, hex⟩ := not_or.mp hc
    obtain ⟨hnone, hsize⟩ := loadedAs_of_spelling hd (.inl rfl)
    cases ha : h.resolve d name with
    | none => exact hex (resolve_eq_none.mp ha)
    | some a =>
      have hproc := ((hagree .loadLibraryA dll (.inl rfl)).1 a (hthunk.trans ha)).2
      rw [getProcAddress_eq lc h (Opener.reads_of_size hsize), hnone, if_neg hload] at hproc
      exact resolve_ne_zero ha hproc.symm
  · intro hc o v hv
    obtain ⟨hload, hsize⟩ := loadedAs_of_spelling hd hv
    have hproc := getProcAddress_eq lc h (o.reads_of_size hsize) name
    have hres : (loadedAs v).bind (h.resolve · name) = h.resolve d name := by
      rw [hload]
      rcases hc with hc | hc
      · rw [if_pos hc]
        rfl
      · rw [resolve_eq_none.mpr hc]
        split_ifs
        · exact resolve_eq_none.mpr hc
        · rfl
    rw [hres] at hproc
    rw [hthunk]
    refine ⟨fun a ha => ?_, fun hnone => by rw [hproc, hnone]; rfl⟩
    rw [ha] at hproc
    refine ⟨fun hzero => ?_, hproc⟩
    rw [hzero, getProcAddress_zero] at hproc
    exact resolve_ne_zero ha hproc.symm

/-- Up to case a spelling is the name or the name without its suffix. -/
theorem spelling_cases (hv : Spelling v dll) :
    ∃ w, (w = dll ∨ dropDll dll = some w) ∧ asciiLower v = asciiLower w := by
  rcases hv with hv | hv
  · exact ⟨dll, .inl rfl, hv⟩
  · have hlen : dll.toList.length - 4 = (asciiLower v).length := by
      have := congrArg List.length hv
      simp [asciiLower] at this ⊢
      omega
    refine ⟨String.ofList (dll.toList.take (dll.toList.length - 4)), .inr (if_pos ?_), ?_⟩
    · rw [← hv, hlen, List.drop_left]
    · rw [asciiLower.eq_def (String.ofList _), String.toList_ofList, List.map_take]
      change _ = (asciiLower dll).take _
      rw [← hv, hlen, List.take_left]

theorem spelling_of_dropDll (hv : dropDll dll = some v) : Spelling v dll := by
  unfold dropDll at hv
  split_ifs at hv with hdrop
  obtain rfl := Option.some.inj hv
  refine .inr ?_
  rw [← hdrop, asciiLower.eq_def (String.ofList _), String.toList_ofList, List.map_take]
  exact List.take_append_drop _ _

theorem loadedAs_congr {w : String} (hvw : asciiLower v = asciiLower w) :
    loadedAs v = loadedAs w ∧ utf16Length v = utf16Length w := by
  constructor
  · rw [loadedAs, loadedAs, ← fold_map_toLower, ← fold_map_toLower w.toList]
    change (MODULES.find? (·.matches (fold (asciiLower v)))).bind _ = _
    rw [hvw]
    rfl
  · rw [utf16Length_eq, utf16Length_eq, hvw]

/-- Any other name. -/
theorem importsAgree_of_none (hd : thunkDll dll = none) :
    ImportsAgree lc h dll name ↔ ∀ v, v = dll ∨ dropDll dll = some v → utf16Length v ≤ 4096 →
      ∀ d, loadedAs v = some d → d.exports name = false := by
  have hthunk : h.resolveThunk dll name = none := by simp only [Host.resolveThunk, hd]
  constructor
  · intro hagree v hv hlen d hload
    have hspell : Spelling v dll := by
      rcases hv with rfl | hv
      · exact .inl rfl
      · exact spelling_of_dropDll hv
    have hproc := (hagree .loadLibraryW v hspell).2 hthunk
    have hreads : Opener.loadLibraryW.reads v := hlen
    rw [getProcAddress_eq lc h hreads, hload, Option.bind_some] at hproc
    cases ha : h.resolve d name with
    | none => exact resolve_eq_none.mp ha
    | some a =>
      rw [ha] at hproc
      exact absurd hproc (resolve_ne_zero ha)
  · intro hc o v hv
    refine ⟨fun a ha => ?_, fun _ => ?_⟩
    · rw [hthunk] at ha
      cases ha
    · by_cases hreads : o.reads v
      · obtain ⟨w, hw, hvw⟩ := spelling_cases hv
        obtain ⟨hload, hlen⟩ := loadedAs_congr hvw
        have hle : utf16Length v ≤ 4096 := by
          have := utf16Length_le v
          cases o <;> simp only [Opener.reads] at hreads <;> omega
        rw [getProcAddress_eq lc h hreads, hload]
        cases hl : loadedAs w with
        | none => rfl
        | some d => rw [Option.bind_some, resolve_eq_none.mpr (hc w hw (hlen ▸ hle) d hl)]; rfl
      · rw [Opener.handle_eq_zero lc hreads, getProcAddress_zero]

/-- **Static and dynamic imports.**  For every DLL name and function name, `LoadLibrary` or
`GetModuleHandle` of any spelling of the name and `GetProcAddress` give what an import table would get,
if and only if the two tables are in step on them. -/
theorem imports_agree_iff (lc : Lowercase) (h : Host) (dll name : String) :
    ImportsAgree lc h dll name ↔ InStep dll name := by
  unfold InStep
  cases hd : thunkDll dll with
  | some d => exact importsAgree_of_some hd
  | none => exact importsAgree_of_none hd

/-- A lowercase that leaves all characters alone that are neither ASCII letters nor the Kelvin sign. -/
def plainLowercase : Lowercase where
  toLowercase s := s.map foldChar
  of_fold _ _ := rfl
  of_other s := by
    rintro ⟨c, hc, hlt, hne⟩
    refine ⟨foldChar c, List.mem_map_of_mem hc, ?_⟩
    rwa [foldChar, if_neg hne, toLower_of_le hlt]

/-- `socket` of `ws2_32.dll` is there for import tables and not for `GetProcAddress`. -/
theorem socket_only_static :
    ¬ ∀ (lc : Lowercase) (h : Host) (dll name : String), ImportsAgree lc h dll name := by
  intro hall
  have hagree := hall plainLowercase ⟨fun _ _ => 0x1000, fun _ _ => by decide⟩ "ws2_32.dll" "socket"
  have hd : thunkDll "ws2_32.dll" = some .ws232 := by decide +kernel
  rcases (importsAgree_of_some hd).mp hagree with hload | hex
  · exact absurd hload (by decide)
  · exact absurd hex (by decide +kernel)

end Quantum.Kernel32
