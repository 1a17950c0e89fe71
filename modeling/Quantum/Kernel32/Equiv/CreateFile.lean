import Mathlib.Tactic.SplitIfs
import Quantum.Kernel32.CreateFile

/-!
# Dispositions of `CreateFile`

`open_file` writes its flags with the numbers of another system: what it takes for `O_TRUNC` is `O_CREAT` on
the host, and what it takes for `O_CREAT` and `O_EXCL` creates nothing.  `opensRight_iff` says for which
dispositions and files the effect is that of Win32 all the same.
-/

namespace Quantum.Kernel32.File

/-! ### What a disposition promises -/

/-- The contents of the path after an open with this disposition, and whether it succeeds. -/
def win32Effect (disp : BitVec 32) (prior : Option (List (BitVec 8))) : Option (List (BitVec 8)) × Bool :=
  if disp = CREATE_NEW then
    match prior with
    | some contents => (some contents, false)
    | none => (some [], true)
  else if disp = CREATE_ALWAYS then (some [], true)
  else if disp = OPEN_EXISTING then (prior, prior.isSome)
  else if disp = OPEN_ALWAYS then (some (prior.getD []), true)
  else if disp = TRUNCATE_EXISTING then (prior.map fun _ => [], prior.isSome)
  else (prior, false)

/-- The open has the effect of Win32 on its path, and none on another. -/
def OpensRight (files : Files) (path : String) (access disp : BitVec 32) (fd : Fd) : Prop :=
  let effect := win32Effect disp (files (translatePath path))
  (openFile files path access disp fd).1 = Function.update files (translatePath path) effect.1 ∧
    (openFile files path access disp fd).2.isSome = effect.2

/-- The dispositions and files for which the numbers do no harm. -/
def Fits (disp : BitVec 32) (prior : Option (List (BitVec 8))) : Prop :=
  if disp = CREATE_NEW then False
  else if disp = CREATE_ALWAYS then prior = none ∨ prior = some []
  else if disp = OPEN_ALWAYS then prior ≠ none
  else if disp = TRUNCATE_EXISTING then prior = some []
  else True

/-! ### `open` -/

section

variable {files : Files} {path : String} {access flags : BitVec 32} {fd : Fd}

theorem not_slt_fd (fd : Fd) : (BitVec.ofNat 32 fd.val).slt 0 = false := by
  have hfd := fd.isLt
  have hnat : (BitVec.ofNat 32 fd.val).toNat = fd.val := by
    rw [BitVec.toNat_ofNat]
    omega
  have hint : (BitVec.ofNat 32 fd.val).toInt = fd.val := by
    rw [BitVec.toInt_eq_toNat_of_lt]
    · rw [hnat]
    · omega
  rw [BitVec.slt, hint]
  change decide ((fd.val : Int) < 0) = false
  rw [decide_eq_false_iff_not]
  omega

/-- What an open does to its path, and whether it succeeds, by the three flags that say what to do with the
file. -/
def hostEffect (create exclusive truncate : Bool) :
    Option (List (BitVec 8)) → Option (List (BitVec 8)) × Bool
  | none => if create then (some [], true) else (none, false)
  | some contents =>
    if create && exclusive then (some contents, false)
    else if truncate then (some [], true)
    else (some contents, true)

def flagsEffect (flags : BitVec 32) : Option (List (BitVec 8)) → Option (List (BitVec 8)) × Bool :=
  hostEffect (flags &&& O_CREAT != 0) (flags &&& O_EXCL != 0) (flags &&& O_TRUNC != 0)

theorem hostOpen_eq (files : Files) (path : String) (flags : BitVec 32) (fd : Fd) :
    (hostOpen files path flags fd).1 = Function.update files path (flagsEffect flags (files path)).1 ∧
      (hostOpen files path flags fd).2.slt 0 = !(flagsEffect flags (files path)).2 := by
  have hfd := not_slt_fd fd
  have herr : (-1 : BitVec 32).slt 0 = true := by decide
  have hsame : ∀ {prior}, files path = prior → files = Function.update files path prior := by
    rintro prior rfl
    rw [Function.update_eq_self]
  unfold hostOpen flagsEffect hostEffect
  simp only [bne_iff_ne, Bool.and_eq_true]
  cases hprior : files path with
  | none =>
    dsimp only
    split
    · exact ⟨rfl, hfd⟩
    · exact ⟨hsame hprior, herr⟩
  | some contents =>
    dsimp only
    split
    · exact ⟨hsame hprior, herr⟩
    · split
      · exact ⟨rfl, hfd⟩
      · exact ⟨hsame hprior, hfd⟩

theorem accessFlags_cases (access : BitVec 32) :
    accessFlags access = 0 ∨ accessFlags access = 1 ∨ accessFlags access = 2 := by
  unfold accessFlags
  split
  · exact .inr (.inr rfl)
  · exact .inr (.inl rfl)
  · exact .inl rfl

/-- The mode of access has no say in what becomes of the file. -/
theorem flagsEffect_access (access bits : BitVec 32) :
    flagsEffect (accessFlags access ||| bits) = flagsEffect bits := by
  have hdrop : ∀ mask, accessFlags access &&& mask = 0 →
      (accessFlags access ||| bits) &&& mask = bits &&& mask := by
    intro mask hmask
    rw [BitVec.and_comm, BitVec.and_or_distrib_left, BitVec.and_comm mask, hmask, BitVec.and_comm mask]
    exact BitVec.zero_or
  unfold flagsEffect
  rw [hdrop O_CREAT, hdrop O_EXCL, hdrop O_TRUNC]
  all_goals
    rcases accessFlags_cases access with h | h | h
    all_goals
      rw [h]
      decide

/-- What `open_file` does with flags that it knows, against what Win32 asks for. -/
theorem opensRight_of_flags {disp : BitVec 32} (bits : BitVec 32)
    (hpath : '\x00' ∉ (translatePath path).toList)
    (hflags : openFlags access disp = some (accessFlags access ||| bits)) :
    OpensRight files path access disp fd ↔
      flagsEffect bits (files (translatePath path)) = win32Effect disp (files (translatePath path)) := by
  obtain ⟨hfiles, hret⟩ := hostOpen_eq files (translatePath path) (accessFlags access ||| bits) fd
  rw [flagsEffect_access] at hfiles hret
  have hopen : (openFile files path access disp fd).1 = Function.update files (translatePath path)
        (flagsEffect bits (files (translatePath path))).1 ∧
      (openFile files path access disp fd).2.isSome = (flagsEffect bits (files (translatePath path))).2 := by
    unfold openFile
    simp only [hflags, if_neg hpath]
    split
    case isTrue hslt =>
      rw [hslt] at hret
      exact ⟨hfiles, by simpa using hret.symm⟩
    case isFalse hslt =>
      rw [Bool.eq_false_iff.mpr hslt] at hret
      exact ⟨hfiles, by simpa using hret.symm⟩
  unfold OpensRight
  dsimp only
  rw [hopen.1, hopen.2, Prod.ext_iff]
  refine and_congr_left fun _ => ⟨fun heq => ?_, fun heq => by rw [heq]⟩
  -- two updates of the path are the same only if the contents are
  have hat := congrFun heq (translatePath path)
  rwa [Function.update_self, Function.update_self] at hat

end

/-! ### The numbers of `open_file` on the host -/

/-- `0o100` and `0o200` ask for nothing. -/
theorem flagsEffect_plain {bits : BitVec 32} (hbits : bits = 0 ∨ bits = 0o100 ∨ bits = 0o100 ||| 0o200)
    (prior : Option (List (BitVec 8))) : flagsEffect bits prior = (prior, prior.isSome) := by
  have hplain : flagsEffect bits = hostEffect false false false := by
    rcases hbits with rfl | rfl | rfl
    all_goals rfl
  rw [hplain]
  cases prior with
  | none => rfl
  | some contents => rfl

/-- `0o1000` creates the file, and truncates nothing. -/
theorem flagsEffect_create {bits : BitVec 32} (hbits : bits = 0o1000 ∨ bits = 0o100 ||| 0o1000)
    (prior : Option (List (BitVec 8))) : flagsEffect bits prior = (some (prior.getD []), true) := by
  have hcreate : flagsEffect bits = hostEffect true false false := by
    rcases hbits with rfl | rfl
    all_goals rfl
  rw [hcreate]
  cases prior with
  | none => rfl
  | some contents => rfl

/-- **Creation dispositions.**  The open has the effect of Win32 for `OPEN_EXISTING`, for a file that
`OPEN_ALWAYS` finds and for one that is empty when it is to be truncated, or absent for `CREATE_ALWAYS`; for
`CREATE_NEW` never. -/
theorem opensRight_iff (files : Files) {path : String} (hpath : '\x00' ∉ (translatePath path).toList)
    (access disp : BitVec 32) (fd : Fd) :
    OpensRight files path access disp fd ↔ Fits disp (files (translatePath path)) := by
  by_cases h₁ : disp = CREATE_NEW
  · subst h₁
    rw [opensRight_of_flags (0o100 ||| 0o200) hpath rfl, flagsEffect_plain (.inr (.inr rfl))]
    cases files (translatePath path) with
    | none => simp [win32Effect, Fits]
    | some contents => simp [win32Effect, Fits]
  by_cases h₂ : disp = CREATE_ALWAYS
  · subst h₂
    rw [opensRight_of_flags (0o100 ||| 0o1000) hpath rfl, flagsEffect_create (.inr rfl)]
    cases files (translatePath path) with
    | none => simp [win32Effect, Fits, CREATE_ALWAYS, CREATE_NEW]
    | some contents => simp [win32Effect, Fits, CREATE_ALWAYS, CREATE_NEW]
  by_cases h₃ : disp = OPEN_EXISTING
  · subst h₃
    rw [opensRight_of_flags 0 hpath (by simp [openFlags, h₁, h₂]), flagsEffect_plain (.inl rfl)]
    simp [win32Effect, Fits, OPEN_EXISTING, OPEN_ALWAYS, TRUNCATE_EXISTING, CREATE_ALWAYS, CREATE_NEW]
  by_cases h₄ : disp = OPEN_ALWAYS
  · subst h₄
    rw [opensRight_of_flags 0o100 hpath rfl, flagsEffect_plain (.inr (.inl rfl))]
    cases files (translatePath path) with
    | none => simp [win32Effect, Fits, OPEN_EXISTING, OPEN_ALWAYS, CREATE_ALWAYS, CREATE_NEW]
    | some contents => simp [win32Effect, Fits, OPEN_EXISTING, OPEN_ALWAYS, CREATE_ALWAYS, CREATE_NEW]
  by_cases h₅ : disp = TRUNCATE_EXISTING
  · subst h₅
    rw [opensRight_of_flags 0o1000 hpath rfl, flagsEffect_create (.inl rfl)]
    cases files (translatePath path) with
    | none =>
      simp [win32Effect, Fits, OPEN_EXISTING, OPEN_ALWAYS, TRUNCATE_EXISTING, CREATE_ALWAYS, CREATE_NEW]
    | some contents =>
      simp [win32Effect, Fits, OPEN_EXISTING, OPEN_ALWAYS, TRUNCATE_EXISTING, CREATE_ALWAYS, CREATE_NEW]
  · have hflags : openFlags access disp = none := by
      simp only [openFlags, h₁, h₂, h₃, h₄, h₅, if_false]
    unfold OpensRight openFile win32Effect Fits
    simp only [hflags, h₁, h₂, h₃, h₄, h₅, if_false, Function.update_eq_self, Option.isSome_none, and_self]

/-! ### The numbers of the runtime -/

/-- The flags of the runtime mean on the host what they say. -/
theorem flagsEffect_toHost (o : OpenFlags) :
    flagsEffect o.toHost = hostEffect o.create o.exclusive o.truncate := by
  have hbits : ∀ r w a c t e : Bool,
      ((OpenFlags.mk r w a c t e).toHost &&& O_CREAT != 0) = c ∧
        ((OpenFlags.mk r w a c t e).toHost &&& O_EXCL != 0) = e ∧
        ((OpenFlags.mk r w a c t e).toHost &&& O_TRUNC != 0) = t := by decide
  obtain ⟨hcreat, hexcl, htrunc⟩ := hbits o.read o.write o.append o.create o.truncate o.exclusive
  unfold flagsEffect
  rw [hcreat, hexcl, htrunc]

/-- What a disposition asks of a file that is opened for writing, in the words of the runtime. -/
def wanted (disp : BitVec 32) : OpenFlags where
  read := false
  write := true
  append := false
  create := disp == CREATE_NEW || disp == CREATE_ALWAYS || disp == OPEN_ALWAYS
  truncate := disp == CREATE_ALWAYS || disp == TRUNCATE_EXISTING
  exclusive := disp == CREATE_NEW

/-- With the numbers of the runtime each disposition would have its effect. -/
theorem flagsEffect_wanted {access disp flags : BitVec 32} (hflags : openFlags access disp = some flags)
    (prior : Option (List (BitVec 8))) : flagsEffect (wanted disp).toHost prior = win32Effect disp prior := by
  rw [flagsEffect_toHost]
  unfold openFlags at hflags
  split_ifs at hflags
  case pos h =>
    subst h
    cases prior <;> rfl
  case pos h =>
    subst h
    cases prior <;> rfl
  case pos h =>
    subst h
    cases prior <;> rfl
  case pos h =>
    subst h
    cases prior <;> rfl
  case pos h =>
    subst h
    cases prior <;> rfl

/-! ### Two opens -/

/-- A host where every path is a file of one byte. -/
def oneByte : Files := fun _ => some [0x41]

theorem opensRight_iff_existing : OpensRight oneByte "save" GENERIC_WRITE OPEN_EXISTING 3 :=
  (opensRight_iff oneByte (by decide +kernel) GENERIC_WRITE OPEN_EXISTING 3).mpr (by simp [Fits, OPEN_EXISTING,
    OPEN_ALWAYS, TRUNCATE_EXISTING, CREATE_ALWAYS, CREATE_NEW])

/-- `CREATE_ALWAYS` keeps what was in the file. -/
theorem not_opensRight_stale : ¬ ∀ files path access disp fd, '\x00' ∉ (translatePath path).toList →
    access &&& GENERIC_WRITE ≠ 0 → OpensRight files path access disp fd := by
  intro h
  have hfiles := congrFun (h oneByte "save" GENERIC_WRITE CREATE_ALWAYS 3 (by decide +kernel) (by decide)).1
    (translatePath "save")
  rw [Function.update_self] at hfiles
  revert hfiles
  decide +kernel

end Quantum.Kernel32.File
