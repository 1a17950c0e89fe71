import Quantum.Cli.SideDlls
import Quantum.Loader.Equiv.Imports
import Mathlib.Data.Set.Finite.List

/-!
# What `load_side_dlls` loads

The loop always ends.  Unless a file makes it panic, it loads no name twice, and loads exactly the names that
can be reached through loaded modules and that `has_builtin` does not list (`mem_of_run`).  The purpose of that
list is to keep out the DLLs that the thunk table owns; it lacks the fourteen C runtime names of that table.
The path of a file is the directory joined with the name of an import, which may lead out of the directory.
`sideClosure_iff` says when none of this matters.
-/

namespace Quantum.Cli

open Checked Loader

variable {host : DllHost} {dllDir : String} {main : Imports.ImportTable} {name : String}

/-! ### What ought to be loaded -/

/-- The name of a file in a directory: it has no separator, and is neither the directory nor its parent. -/
def IsFileName (name : String) : Prop :=
  name ≠ "" ∧ name ≠ "." ∧ name ≠ ".." ∧ '/' ∉ name.toList

/-- A file of the directory whose name the thunk table does not own. -/
structure IsSideDll (name : String) : Prop where
  file : IsFileName name
  not_owned : ownedByThunks name = false

/-- A name that is reached from the imports of the main image, through the import tables of modules that are
loaded, when `may` says which may be. -/
inductive Reached (host : DllHost) (dllDir : String) (main : Imports.ImportTable) (may : String → Prop) :
    String → Prop
  | root {d : Imports.DllImports} (hd : d ∈ main.dlls) : Reached host dllDir main may d.name.toLower
  | step {name : String} {r : PeImage × ExportTable} {table : Imports.ImportTable} {d : Imports.DllImports}
    (hn : Reached host dllDir main may name) (hmay : may name) (hr : prepare host dllDir name = .ok r)
    (ht : Imports.parse r.1 = .ok table) (hd : d ∈ table.dlls) : Reached host dllDir main may d.name.toLower

/-- The modules that ought to be loaded: those of the directory that are reached, that the thunk table does not
own, and that can be read, parsed, mapped and relocated and have exports. -/
structure SideClosure (host : DllHost) (dllDir : String) (main : Imports.ImportTable)
    (out : List (SideModule PeImage ExportTable)) : Prop where
  nodup : (out.map SideModule.name).Nodup
  not_owned : ∀ m ∈ out, ownedByThunks m.name = false
  mem_iff : ∀ m, m ∈ out ↔ Reached host dllDir main IsSideDll m.name ∧ IsSideDll m.name ∧
    prepare host dllDir m.name = .ok (m.image, m.exports)

/-- No ordinal overflows where the exports of a file are read. -/
def OrdinalsFitIn (host : DllHost) (dllDir name : String) : Prop :=
  ∀ image, relocated host dllDir name = .ok image → host.overflowChecks = true → Exports.OrdinalsFit image

/-- The names that the loop comes to. -/
abbrev Visited (host : DllHost) (dllDir : String) (main : Imports.ImportTable) : String → Prop :=
  Reached host dllDir main fun name => hasBuiltin name = false

/-! ### A round -/

theorem total_orContinue {α : Type} {m : Checked LoadError α} (h : Total m) : Total (orContinue m) := by
  cases m with
  | ok a => exact total_ok a
  | error x =>
    cases x with
    | panicked => exact absurd rfl h
    | err e => exact total_fail ()

theorem total_orContinue_iff {α : Type} {m : Checked LoadError α} : Total (orContinue m) ↔ Total m := by
  refine ⟨?_, total_orContinue⟩
  rintro h rfl
  exact h rfl

theorem total_mapError {ε α : Type} (m : Except ε α) :
    Total (m.mapError fun _ => .err () : Checked Unit α) := by
  cases m with
  | ok a => exact total_ok a
  | error x => exact total_fail ()

theorem total_relocated : Total (relocated host dllDir name) := by
  refine total_bind (total_okOr _ _) fun bytes _ => ?_
  refine total_bind (total_orContinue (total_parse bytes)) fun pe _ => ?_
  refine total_bind (total_mapError _) fun image _ => ?_
  exact total_bind (total_mapError _) fun _ _ => total_ok _

/-- Only the exports can make a file panic. -/
theorem total_prepare_iff : Total (prepare host dllDir name) ↔ OrdinalsFitIn host dllDir name := by
  rw [prepare, total_bind_iff]
  constructor
  · rintro ⟨-, h⟩ image himage
    exact (Exports.total_parseIn_iff _ _).mp (total_orContinue_iff.mp (total_bind_iff.mp (h image himage)).1)
  · refine fun h => ⟨total_relocated, fun image himage => ?_⟩
    have htotal := (Exports.total_parseIn_iff host.overflowChecks image).mpr (h image himage)
    refine total_bind (total_orContinue htotal) fun table _ => ?_
    exact total_bind (total_okOr _ _) fun _ _ => total_ok _

theorem mem_importNames_iff {image : PeImage} {table : Option Imports.ImportTable} {n : String}
    (h : attempt (Imports.parse image) = .ok table) : n ∈ importNames table ↔
      ∃ t d, Imports.parse image = .ok t ∧ d ∈ t.dlls ∧ n = d.name.toLower := by
  cases hparse : Imports.parse image with
  | ok t =>
    rw [hparse] at h
    cases h
    simp only [importNames, Option.map_some, Option.getD_some, List.mem_map]
    constructor
    · rintro ⟨d, hd, rfl⟩
      exact ⟨t, d, rfl, hd, rfl⟩
    · rintro ⟨t', d, ht, hd, rfl⟩
      cases ht
      exact ⟨d, hd, rfl⟩
  | error x =>
    have hnone : table = none := by
      rw [hparse] at h
      cases x with
      | panicked => cases h
      | err e => cases h; rfl
    subst hnone
    simp [importNames]

/-- What a name is expanded to: the module and the names of its imports. -/
theorem loadOne_eq_some {r : PeImage × ExportTable} {names : List String}
    (h : loadOne host dllDir name = .ok (some (r, names))) :
    hasBuiltin name = false ∧ prepare host dllDir name = .ok r ∧
      ∀ n, n ∈ names ↔ ∃ t d, Imports.parse r.1 = .ok t ∧ d ∈ t.dlls ∧ n = d.name.toLower := by
  unfold loadOne at h
  cases hb : hasBuiltin name with
  | true =>
    rw [hb] at h
    cases h
  | false =>
    rw [hb] at h
    obtain ⟨prepared, hp, h⟩ := bind_eq_ok.mp h
    cases prepared with
    | none => cases h
    | some r' =>
      obtain ⟨table, ht, h⟩ := bind_eq_ok.mp h
      cases h
      refine ⟨rfl, ?_, fun n => mem_importNames_iff ht⟩
      cases hprep : prepare host dllDir name with
      | ok q =>
        rw [hprep] at hp
        cases hp
        rfl
      | error x =>
        rw [hprep] at hp
        cases x <;> cases hp

theorem loadOne_of_prepare {r : PeImage × ExportTable} (hb : hasBuiltin name = false)
    (hp : prepare host dllDir name = .ok r) : ∃ names, loadOne host dllDir name = .ok (some (r, names)) := by
  have htotal := Imports.total_parse r.1
  rw [loadOne, hb, hp]
  cases ht : Imports.parse r.1 with
  | ok t => exact ⟨_, by rw [attempt, ok_bind]; dsimp only; rw [ht]; rfl⟩
  | error x =>
    cases x with
    | panicked => exact absurd ht htotal
    | err e => exact ⟨_, by rw [attempt, ok_bind]; dsimp only; rw [ht]; rfl⟩

/-- A name panics in its preparation. -/
theorem loadOne_error_iff {x : Fault Empty} :
    loadOne host dllDir name = .error x ↔ hasBuiltin name = false ∧ ¬ OrdinalsFitIn host dllDir name := by
  rw [← total_prepare_iff]
  cases x with
  | err e => cases e
  | panicked =>
    cases hb : hasBuiltin name with
    | true =>
      rw [loadOne, hb]
      simp [pure, Except.pure]
    | false =>
      cases hp : prepare host dllDir name with
      | ok r =>
        obtain ⟨names, hone⟩ := loadOne_of_prepare hb hp
        rw [hone]
        simp [Checked.Total]
      | error y =>
        rw [loadOne, hb, hp]
        cases y with
        | panicked => simp [attempt, Checked.Total, bind, Except.bind]
        | err e => simp [attempt, Checked.Total, bind, Except.bind, pure, Except.pure]

/-! ### The loop -/

/-- The roots of the loop. -/
abbrev rootNames (main : Imports.ImportTable) : List String :=
  main.dlls.map fun d => d.name.toLower

theorem reach_iff_visited :
    Worklist.Reach (loadOne host dllDir) (rootNames main) name ↔ Visited host dllDir main name := by
  constructor
  · intro h
    induction h with
    | root hr =>
      obtain ⟨d, hd, rfl⟩ := List.mem_map.mp hr
      exact .root hd
    | step hn hone hm ih =>
      obtain ⟨hb, hp, hnames⟩ := loadOne_eq_some hone
      obtain ⟨t, d, ht, hd, rfl⟩ := (hnames _).mp hm
      exact .step ih hb hp ht hd
  · intro h
    induction h with
    | root hd => exact .root (List.mem_map.mpr ⟨_, hd, rfl⟩)
    | step hn hb hp ht hd ih =>
      obtain ⟨names, hone⟩ := loadOne_of_prepare hb hp
      exact .step ih hone (((loadOne_eq_some hone).2.2 _).mpr ⟨_, _, ht, hd, rfl⟩)

theorem inv_initialWork : Worklist.Inv (loadOne host dllDir) (rootNames main) ⟨[], [], initialWork main⟩ :=
  Worklist.inv_init _ fun n => by rw [initialWork, List.mem_reverse]

/-- The strings of at most 4096 bytes. -/
theorem finite_shortNames : {s : String | (utf8Bytes s).length ≤ 4096}.Finite := by
  have hinj : Function.Injective utf8Bytes := by
    intro s t h
    have hs := fromUtf8_eq_some_iff.mpr (rfl : utf8Bytes s = utf8Bytes s)
    rw [h, fromUtf8_eq_some_iff.mpr (rfl : utf8Bytes t = utf8Bytes t)] at hs
    exact (Option.some.inj hs).symm
  have hbyte : Finite (BitVec 8) := Finite.of_injective BitVec.toFin fun _ _ h => BitVec.eq_of_toFin_eq h
  exact Set.Finite.preimage hinj.injOn (List.finite_length_le (BitVec 8) 4096)

/-- The loop comes to finitely many names: the roots and those of import tables. -/
theorem finite_visited (host : DllHost) (dllDir : String) (main : Imports.ImportTable) :
    {name | Visited host dllDir main name}.Finite := by
  have hfin := (rootNames main).toFinset.finite_toSet.union (finite_shortNames.image String.toLower)
  refine hfin.subset fun name h => ?_
  cases h with
  | root hd => exact .inl (by simpa using ⟨_, hd, rfl⟩)
  | step hn hb hp ht hd => exact .inr ⟨_, Imports.length_name_le ht hd, rfl⟩

/-- The loop ends. -/
theorem run_ends (host : DllHost) (dllDir : String) (main : Imports.ImportTable) :
    ∃ fuel r, Worklist.run (loadOne host dllDir) fuel ⟨[], [], initialWork main⟩ = some r := by
  have hfin : ∀ n, Worklist.Reach (loadOne host dllDir) (rootNames main) n →
      ∀ q, loadOne host dllDir n = .ok (some q) → n ∈ (finite_visited host dllDir main).toFinset := by
    intro n hn q _
    exact (finite_visited host dllDir main).mem_toFinset.mpr (reach_iff_visited.mp hn)
  exact Worklist.run_terminates hfin inv_initialWork

section Run

variable {fuel : Nat} {res : List (String × PeImage × ExportTable)}
  (hrun : Worklist.run (loadOne host dllDir) fuel ⟨[], [], initialWork main⟩ = some (.ok res))
include hrun

/-- A loop that does not panic loads what it comes to and `has_builtin` does not list. -/
theorem mem_of_run (r : PeImage × ExportTable) : (name, r) ∈ res ↔
    Visited host dllDir main name ∧ hasBuiltin name = false ∧ prepare host dllDir name = .ok r := by
  rw [Worklist.mem_run_iff inv_initialWork hrun, reach_iff_visited]
  constructor
  · rintro ⟨hv, names, hone⟩
    obtain ⟨hb, hp, -⟩ := loadOne_eq_some hone
    exact ⟨hv, hb, hp⟩
  · rintro ⟨hv, hb, hp⟩
    exact ⟨hv, loadOne_of_prepare hb hp⟩

theorem ordinalsFit_of_run (hv : Visited host dllDir main name) (hb : hasBuiltin name = false) :
    OrdinalsFitIn host dllDir name := by
  obtain ⟨r, hr⟩ := Worklist.expand_ok_of_run inv_initialWork hrun (reach_iff_visited.mpr hv)
  by_contra hfit
  have herr := (loadOne_error_iff (x := .panicked)).mpr ⟨hb, hfit⟩
  rw [hr] at herr
  cases herr

end Run

/-- A loop that panics does so on a name that it comes to. -/
theorem exists_of_run_panic {fuel : Nat} {x : Fault Empty}
    (hrun : Worklist.run (loadOne host dllDir) fuel ⟨[], [], initialWork main⟩ = some (.error x)) :
    ∃ name, Visited host dllDir main name ∧ hasBuiltin name = false ∧ ¬ OrdinalsFitIn host dllDir name := by
  obtain ⟨n, hn, hone⟩ := Worklist.exists_of_run_error inv_initialWork hrun
  exact ⟨n, reach_iff_visited.mp hn, loadOne_error_iff.mp hone⟩

/-- The module of a result. -/
def toModule (r : String × PeImage × ExportTable) : SideModule PeImage ExportTable :=
  ⟨r.1, r.2.1, r.2.2⟩

theorem mem_map_toModule {res : List (String × PeImage × ExportTable)} {m : SideModule PeImage ExportTable} :
    m ∈ res.map toModule ↔ (m.name, m.image, m.exports) ∈ res := by
  constructor
  · intro h
    obtain ⟨r, hr, rfl⟩ := List.mem_map.mp h
    exact hr
  · exact fun h => List.mem_map.mpr ⟨_, h, rfl⟩

/-- The result does not depend on how many rounds are allowed. -/
theorem loadSideDlls_unique {fuel fuel' : Nat} {r r' : Checked Empty (List (SideModule PeImage ExportTable))}
    (h : loadSideDlls host dllDir main fuel = some r) (h' : loadSideDlls host dllDir main fuel' = some r') :
    r = r' := by
  obtain ⟨res, hr, rfl⟩ := Option.map_eq_some_iff.mp h
  obtain ⟨res', hr', rfl⟩ := Option.map_eq_some_iff.mp h'
  have h₁ := Worklist.run_mono hr fuel'
  have h₂ := Worklist.run_mono hr' fuel
  rw [Nat.add_comm, h₂] at h₁
  rw [Option.some.inj h₁]

/-! ### When it is the closure -/

theorem ownedByThunks_of_hasBuiltin (h : hasBuiltin name = true) : ownedByThunks name = true := by
  have hall : ∀ n ∈ builtinDlls, thunkDlls.contains n.toLower = true := by decide +kernel
  exact hall name (List.contains_iff_mem.mp h)

theorem IsSideDll.not_builtin (h : IsSideDll name) : hasBuiltin name = false := by
  by_contra hbuiltin
  have howned := ownedByThunks_of_hasBuiltin (by simpa using hbuiltin)
  rw [h.not_owned] at howned
  cases howned

/-- When all that gets loaded ought to be, the loop comes to the names that it ought to come to. -/
theorem reached_iff_visited (h : ∀ name, Visited host dllDir main name → hasBuiltin name = false →
    ∀ r, prepare host dllDir name = .ok r → IsSideDll name) :
    Reached host dllDir main IsSideDll name ↔ Visited host dllDir main name := by
  constructor
  · intro hr
    induction hr with
    | root hd => exact .root hd
    | step hn hmay hp ht hd ih => exact .step ih hmay.not_builtin hp ht hd
  · intro hv
    induction hv with
    | root hd => exact .root hd
    | step hn hb hp ht hd ih => exact .step ih (h _ hn hb _ hp) hp ht hd

theorem sideClosure_iff_of_run {fuel : Nat} {res : List (String × PeImage × ExportTable)}
    (hrun : Worklist.run (loadOne host dllDir) fuel ⟨[], [], initialWork main⟩ = some (.ok res)) :
    SideClosure host dllDir main (res.map toModule) ↔
      ∀ name, Visited host dllDir main name → hasBuiltin name = false →
        ∀ r, prepare host dllDir name = .ok r → IsSideDll name := by
  constructor
  · intro hclosure name hv hb r hp
    have hmem := (mem_of_run hrun r).mpr ⟨hv, hb, hp⟩
    exact ((hclosure.mem_iff ⟨name, r.1, r.2⟩).mp (mem_map_toModule.mpr hmem)).2.1
  · intro h
    have hmem : ∀ m, m ∈ res.map toModule ↔ Reached host dllDir main IsSideDll m.name ∧ IsSideDll m.name ∧
        prepare host dllDir m.name = .ok (m.image, m.exports) := by
      intro m
      rw [mem_map_toModule, mem_of_run hrun, reached_iff_visited h]
      constructor
      · rintro ⟨hv, hb, hp⟩
        exact ⟨hv, h _ hv hb _ hp, hp⟩
      · rintro ⟨hv, hside, hp⟩
        exact ⟨hv, hside.not_builtin, hp⟩
    refine ⟨?_, fun m hm => ((hmem m).mp hm).2.1.not_owned, hmem⟩
    have hnodup := Worklist.run_nodup inv_initialWork hrun
    rwa [List.map_map, show SideModule.name ∘ toModule = Prod.fst from rfl]

/-- **Side DLLs.**  The loop ends in one way.  It ends with the closure exactly when, among the names that it
comes to and `has_builtin` does not list, none has a file whose ordinals overflow, and those that can be
prepared are names of files of the directory that the thunk table does not own. -/
theorem sideClosure_iff (host : DllHost) (dllDir : String) (main : Imports.ImportTable) :
    ∃ r, (∃ fuel, loadSideDlls host dllDir main fuel = some r) ∧
      (∀ fuel r', loadSideDlls host dllDir main fuel = some r' → r' = r) ∧
      ((∃ out, r = .ok out ∧ SideClosure host dllDir main out) ↔
        ∀ name, Visited host dllDir main name → hasBuiltin name = false →
          OrdinalsFitIn host dllDir name ∧ ∀ q, prepare host dllDir name = .ok q → IsSideDll name) := by
  obtain ⟨fuel, res, hrun⟩ := run_ends host dllDir main
  have hload : loadSideDlls host dllDir main fuel = some (res.map (List.map toModule)) := by
    rw [loadSideDlls, hrun]
    rfl
  refine ⟨_, ⟨fuel, hload⟩, fun fuel' r' h => loadSideDlls_unique h hload, ?_⟩
  cases res with
  | error x =>
    obtain ⟨name, hv, hb, hfit⟩ := exists_of_run_panic hrun
    refine iff_of_false ?_ fun h => hfit (h name hv hb).1
    rintro ⟨out, hout, -⟩
    cases hout
  | ok res =>
    constructor
    · rintro ⟨out, hout, hclosure⟩ name hv hb
      cases hout
      exact ⟨ordinalsFit_of_run hrun hv hb, (sideClosure_iff_of_run hrun).mp hclosure name hv hb⟩
    · exact fun h => ⟨_, rfl, (sideClosure_iff_of_run hrun).mpr fun name hv hb => (h name hv hb).2⟩

/-! ### A directory with a C runtime -/

/-- A DLL of headers only, with an empty export directory at 0xD0. -/
def bareDll : Bytes :=
  (List.range 0x100).map fun
    | 0x00 => 0x4D
    | 0x01 => 0x5A
    | 0x3C => 0x40
    | 0x40 => 0x50
    | 0x41 => 0x45
    | 0x54 => 0x78
    | 0x58 => 0x0B
    | 0x59 => 0x02
    -- the sizes of the image and of the headers
    | 0x91 => 0x10
    | 0x95 => 0x01
    -- one data directory
    | 0xC4 => 0x01
    | 0xC8 => 0xD0
    | 0xCC => 0x28
    | _ => 0

/-- A directory that holds a copy of `msvcrt.dll`. -/
def crtHost : DllHost where
  read path := if path = "dlls/msvcrt.dll" then some bareDll else none
  mapping _ := (⟨fun _ _ _ => .ok (0x10000, fun _ => 0)⟩, fun _ => 0)
  overflowChecks := false

def crtMain : Imports.ImportTable where
  dlls := [{ name := "MSVCRT.dll", iatRva := 0, iltRva := 0, entries := [] }]

theorem prepare_crtHost : ∃ r, prepare crtHost "dlls" "msvcrt.dll" = .ok r := by
  have hcheck : (prepare crtHost "dlls" "msvcrt.dll").toOption.isSome = true := by decide +kernel
  cases hp : prepare crtHost "dlls" "msvcrt.dll" with
  | ok r => exact ⟨r, rfl⟩
  | error x =>
    rw [hp] at hcheck
    cases hcheck

/-- The main image imports `MSVCRT.dll`: the copy in the directory is loaded, although the thunk table
owns that name. -/
theorem loads_msvcrt : ∃ fuel out m, loadSideDlls crtHost "dlls" crtMain fuel = some (.ok out) ∧ m ∈ out ∧
    m.name = "msvcrt.dll" ∧ ownedByThunks m.name = true ∧ ¬ SideClosure crtHost "dlls" crtMain out := by
  have howned : ownedByThunks "msvcrt.dll" = true := by decide +kernel
  have hlower : "MSVCRT.dll".toLower = "msvcrt.dll" := by decide +kernel
  have hbuiltin : hasBuiltin "msvcrt.dll" = false := by decide +kernel
  have hvisited : Visited crtHost "dlls" crtMain "msvcrt.dll" := by
    rw [← hlower]
    exact .root List.mem_cons_self
  obtain ⟨r, hp⟩ := prepare_crtHost
  obtain ⟨fuel, res, hrun⟩ := run_ends crtHost "dlls" crtMain
  cases res with
  | error x =>
    obtain ⟨name, -, -, hfit⟩ := exists_of_run_panic hrun
    refine absurd ?_ hfit
    rintro image - ⟨⟩
  | ok res =>
    have hmem : ⟨"msvcrt.dll", r.1, r.2⟩ ∈ res.map toModule :=
      mem_map_toModule.mpr ((mem_of_run hrun r).mpr ⟨hvisited, hbuiltin, hp⟩)
    refine ⟨fuel, res.map toModule, ⟨"msvcrt.dll", r.1, r.2⟩, ?_, hmem, rfl, howned, fun h => ?_⟩
    · rw [loadSideDlls, hrun]
      rfl
    · have hfalse := h.not_owned _ hmem
      rw [howned] at hfalse
      cases hfalse

end Quantum.Cli
