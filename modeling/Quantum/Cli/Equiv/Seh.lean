import Quantum.Cli.Seh

/-!
# What exception dispatch promises

The vectored handlers are called in list order up to the first one that continues execution, and the
guest resumes with the registers of its `CONTEXT`.  If all of them, and the filter, pass, then the
language-specific handler should be the one of the entry that covers the fault.  The code stops at a handler
that returns anything but the two documented dispositions.  It looks the entry up with the block that the
handlers have entered last, and in the main image's table only.  `dispatchSeh_iff` says exactly when it does
what is promised.
-/

namespace Quantum.Cli

open Quantum.Kernel32 Quantum.Loader Quantum.Runtime

/-- A loaded module with its exception directory. -/
structure SehModule where
  image : LoadedImage
  runtimeFunctions : List RuntimeFunction

/-- The entry belongs to the module and its range contains the address. -/
def SehModule.Covers (m : SehModule) (rf : RuntimeFunction) (rip : BitVec 64) : Prop :=
  rf ∈ m.runtimeFunctions ∧ m.image.actualBase.toNat ≤ rip.toNat ∧
    rf.beginRva.toNat ≤ rip.toNat - m.image.actualBase.toNat ∧
    rip.toNat - m.image.actualBase.toNat < rf.endRva.toNat

/-- No entry that covers the address has a handler, in any of the modules. -/
def Unhandled (modules : List SehModule) (rip : BitVec 64) : Prop :=
  ∀ m ∈ modules, ∀ rf, m.Covers rf rip → entryHandler m.image rf = none

/-- The entry with a handler that `lookup_runtime_function` finds for an address. -/
def SehModule.EntryAt (m : SehModule) (rip : BitVec 64) (rf : RuntimeFunction) : Prop :=
  lookupRuntimeFunction m.runtimeFunctions (faultRvaOf m.image rip) = some rf ∧ entryHandler m.image rf ≠ none

/-- The entry of the block is one of the fault as well; a block without one goes with a fault without one. -/
structure SameEntry (main : SehModule) (side : List SehModule) (block faultRip : BitVec 64) : Prop where
  covers : ∀ rf, main.EntryAt block rf → main.Covers rf faultRip
  unhandled : (∀ rf, ¬ main.EntryAt block rf) → Unhandled (main :: side) faultRip

section Contract

variable {σ : Type} (invoke : SehGuest σ → BitVec 64 → Invoked σ) (recs : SehRecords)

/-- The handler returns with a disposition, and leaves the world as given. -/
def ReturnsWith (callback : BitVec 64) (w : SehWorld σ) (disposition : BitVec 32) (w' : SehWorld σ) : Prop :=
  ∃ rax, callHandler invoke recs w callback = .ok rax w'.lastEnteredRip w'.toSehGuest ∧
    rax.truncate 32 = disposition

/-- The handler passes and leaves the world as given. -/
abbrev Passes (callback : BitVec 64) (w w' : SehWorld σ) : Prop :=
  ReturnsWith invoke recs callback w exceptionContinueSearch w'

/-- The handler comes back, with an error or with a disposition, and does not continue execution. -/
inductive Declines (callback : BitVec 64) (w : SehWorld σ) : SehWorld σ → Prop
  | returned {disposition : BitVec 32} {w' : SehWorld σ} (h : ReturnsWith invoke recs callback w disposition w')
    (hne : disposition ≠ exceptionContinueExecution) : Declines callback w w'
  | failed {lastBlock : Option (BitVec 64)} {guest : SehGuest σ}
    (h : callHandler invoke recs w callback = .error lastBlock guest) :
    Declines callback w ⟨guest, lastBlock.getD w.lastEnteredRip⟩

/-- The handlers of a list do `P`, one after another. -/
inductive AllDo (P : BitVec 64 → SehWorld σ → SehWorld σ → Prop) :
    List VectoredHandler → SehWorld σ → SehWorld σ → Prop
  | nil (w : SehWorld σ) : AllDo P [] w w
  | cons {h : VectoredHandler} {hs : List VectoredHandler} {w w₁ w' : SehWorld σ}
      (hdo : P h.callback w w₁) (hrest : AllDo P hs w₁ w') : AllDo P (h :: hs) w w'

abbrev AllPass : List VectoredHandler → SehWorld σ → SehWorld σ → Prop :=
  AllDo (Passes invoke recs)

abbrev AllDecline : List VectoredHandler → SehWorld σ → SehWorld σ → Prop :=
  AllDo (Declines invoke recs)

/-- The filter passes, or none is registered. -/
def FilterPasses (w w' : SehWorld σ) : Prop :=
  (w.unhandledFilter = 0 ∧ w' = w) ∨
    (w.unhandledFilter ≠ 0 ∧ Passes invoke recs w.unhandledFilter w w')

/-- The calls of vectored handlers. -/
abbrev vectoredCalls (handlers : List VectoredHandler) : List SehCall :=
  handlers.map fun h => .vectored h.callback

/-- The language-specific handlers among the calls. -/
def languageCalls (calls : List SehCall) : List (RuntimeFunction × BitVec 64) :=
  calls.filterMap fun
    | .language rf va => some (rf, va)
    | _ => none

/-- The selection is the handler of an entry (of the main image, where the code takes it from) that
covers the fault; nothing is selected only if no entry of any loaded module that covers it has a
handler. -/
def RightSelection (main : SehModule) (side : List SehModule) (faultRip : BitVec 64) :
    List (RuntimeFunction × BitVec 64) → Prop
  | [] => Unhandled (main :: side) faultRip
  | [(rf, va)] => main.Covers rf faultRip ∧ entryHandler main.image rf = some va
  | _ => False

variable (crash : CrashInfo) (handlers : List VectoredHandler)
  (runtimeFunctions : List RuntimeFunction) (side : List SehModule) (faultRip : BitVec 64)
  (w : SehWorld σ)

/-- The contract of `dispatch_seh` for a crash at `faultRip`; `code` is the exception code of its signal. -/
structure SehContract (code : BitVec 32) : Prop where
  /-- A vectored handler is called after those before it, if none of these has continued execution. -/
  calls : ∀ pre h post w₁, handlers = pre ++ h :: post →
    AllDecline invoke recs pre (sehStart crash code w) w₁ →
    ∃ rest, (dispatchSeh invoke recs crash handlers runtimeFunctions w).calls
      = vectoredCalls (pre ++ [h]) ++ rest
  /-- The one that continues execution is the last call, and the guest resumes with its `CONTEXT`. -/
  resumes : ∀ pre h post w₁ w₂, handlers = pre ++ h :: post →
    AllDecline invoke recs pre (sehStart crash code w) w₁ →
    ReturnsWith invoke recs h.callback w₁ exceptionContinueExecution w₂ →
    ∃ w', dispatchSeh invoke recs crash handlers runtimeFunctions w
        = ⟨vectoredCalls (pre ++ [h]), .resume w'⟩ ∧
      w'.ctx.gprs = w₂.context.gprs ∧ w'.ctx.rip = w₂.context.rip ∧
      w'.ctx.flags = w₂.context.eFlags.zeroExtend 64
  /-- If all handlers pass, the language-specific handler selected then is the one for the fault. -/
  selects : ∀ w₁ w₂, AllPass invoke recs handlers (sehStart crash code w) w₁ →
    FilterPasses invoke recs w₁ w₂ →
    RightSelection ⟨w₂.image, runtimeFunctions⟩ side faultRip
      (languageCalls (dispatchSeh invoke recs crash handlers runtimeFunctions w).calls)

/-- What the guest's handlers have to do for the contract. -/
structure HandlersFit (code : BitVec 32) : Prop where
  /-- A handler that comes back and has another one behind it passes or continues execution, if those before
  it have passed. -/
  inOrder : ∀ pre h h' post w₁ w₂, handlers = pre ++ h :: h' :: post →
    AllPass invoke recs pre (sehStart crash code w) w₁ →
    Declines invoke recs h.callback w₁ w₂ → Passes invoke recs h.callback w₁ w₂
  /-- If all pass, the block that the guest has entered last (in the last handler or filter, or before the
  crash) has its entry in common with the fault. -/
  sameEntry : ∀ w₁ w₂, AllPass invoke recs handlers (sehStart crash code w) w₁ →
    FilterPasses invoke recs w₁ w₂ →
    SameEntry ⟨w₂.image, runtimeFunctions⟩ side w₂.lastEnteredRip faultRip

/-! ### Runs of handlers -/

variable {invoke recs crash handlers runtimeFunctions side faultRip w}

theorem ReturnsWith.declines {callback : BitVec 64} {w w' : SehWorld σ} (h : Passes invoke recs callback w w') :
    Declines invoke recs callback w w' :=
  .returned h (by decide)

theorem AllDo.mono {P Q : BitVec 64 → SehWorld σ → SehWorld σ → Prop} (hPQ : ∀ c w w', P c w w' → Q c w w')
    {hs : List VectoredHandler} {w w' : SehWorld σ} (h : AllDo P hs w w') : AllDo Q hs w w' := by
  induction h with
  | nil w => exact .nil w
  | cons hdo _ ih => exact .cons (hPQ _ _ _ hdo) ih

theorem AllDo.append {P : BitVec 64 → SehWorld σ → SehWorld σ → Prop} {hs ks : List VectoredHandler}
    {w w₁ w' : SehWorld σ} (h : AllDo P hs w w₁) (k : AllDo P ks w₁ w') : AllDo P (hs ++ ks) w w' := by
  induction h with
  | nil w => exact k
  | cons hdo _ ih => exact .cons hdo (ih k)

/-! ### The phases -/

theorem after_eq (call : SehCall) (r : SehResult σ) : r.after call = ⟨call :: r.calls, r.verdict⟩ :=
  rfl

/-- Handlers that pass are called in order, and the walk goes on after them. -/
theorem callVectored_of_allPass (next : SehWorld σ → SehResult σ) {pre : List VectoredHandler}
    (post : List VectoredHandler) {w w' : SehWorld σ} (h : AllPass invoke recs pre w w') :
    callVectored invoke recs next (pre ++ post) w =
      ⟨vectoredCalls pre ++ (callVectored invoke recs next post w').calls,
        (callVectored invoke recs next post w').verdict⟩ := by
  induction h with
  | nil w => rfl
  | cons hpass hrest ih =>
    obtain ⟨rax, hinv, hdisp⟩ := hpass
    rw [List.cons_append, callVectored, hinv]
    dsimp only
    rw [hdisp, if_neg (by decide), if_pos rfl, ih]
    rfl

/-- The first handler of a list is called first. -/
theorem calls_callVectored_cons (invoke : SehGuest σ → BitVec 64 → Invoked σ) (recs : SehRecords)
    (next : SehWorld σ → SehResult σ) (h : VectoredHandler) (hs : List VectoredHandler) (w : SehWorld σ) :
    ∃ rest, (callVectored invoke recs next (h :: hs) w).calls = .vectored h.callback :: rest := by
  unfold callVectored
  split
  · exact ⟨[], rfl⟩
  · exact ⟨[], rfl⟩
  · dsimp only
    split
    · exact ⟨[], rfl⟩
    · split
      · exact ⟨_, rfl⟩
      · exact ⟨_, rfl⟩

/-- A handler that declines and does not pass is the last vectored handler that is called. -/
theorem callVectored_of_declines {next : SehWorld σ → SehResult σ} {h : VectoredHandler}
    (hs : List VectoredHandler) {w w' : SehWorld σ} (hdec : Declines invoke recs h.callback w w')
    (hpass : ¬ Passes invoke recs h.callback w w') :
    ∃ rest, (callVectored invoke recs next (h :: hs) w).calls = .vectored h.callback :: rest ∧
      (rest = [] ∨ rest = (next w').calls) := by
  cases hdec with
  | failed herr =>
    rw [callVectored, herr]
    exact ⟨[], rfl, .inl rfl⟩
  | returned hret hne =>
    obtain ⟨rax, hinv, rfl⟩ := hret
    have hnot : ¬ rax.truncate 32 = exceptionContinueSearch := fun hdisp => hpass ⟨rax, hinv, hdisp⟩
    rw [callVectored, hinv]
    dsimp only
    rw [if_neg hne, if_neg hnot]
    exact ⟨_, rfl, .inr rfl⟩

theorem callVectored_of_continues {next : SehWorld σ → SehResult σ} {h : VectoredHandler}
    (hs : List VectoredHandler) {w w' : SehWorld σ}
    (hret : ReturnsWith invoke recs h.callback w exceptionContinueExecution w') :
    callVectored invoke recs next (h :: hs) w = ⟨[.vectored h.callback], .resume w'.restore⟩ := by
  obtain ⟨rax, hinv, hdisp⟩ := hret
  rw [callVectored, hinv]
  dsimp only
  rw [if_pos hdisp]

theorem callFilter_of_passes (next : SehWorld σ → SehResult σ) {w w' : SehWorld σ}
    (h : FilterPasses invoke recs w w') :
    ∃ calls, languageCalls calls = [] ∧
      callFilter invoke recs next w = ⟨calls ++ (next w').calls, (next w').verdict⟩ := by
  unfold callFilter
  obtain ⟨hzero, rfl⟩ | ⟨hne, rax, hinv, hdisp⟩ := h
  · refine ⟨[], rfl, ?_⟩
    rw [hzero]
    rfl
  · refine ⟨[.filter w.unhandledFilter], rfl, ?_⟩
    dsimp only
    rw [if_pos hne, hinv]
    dsimp only
    rw [hdisp, if_neg (by decide)]
    rfl

/-- The handler called last is that of the selected entry. -/
theorem languageCalls_callLanguage (w : SehWorld σ) :
    languageCalls (callLanguage invoke recs runtimeFunctions w).calls =
      (selectEntry runtimeFunctions w).toList := by
  unfold callLanguage
  cases selectEntry runtimeFunctions w with
  | none => rfl
  | some sel =>
    obtain ⟨rf, va⟩ := sel
    dsimp only
    split
    · rfl
    · rfl
    · split <;> rfl

theorem languageCalls_append (l₁ l₂ : List SehCall) :
    languageCalls (l₁ ++ l₂) = languageCalls l₁ ++ languageCalls l₂ :=
  List.filterMap_append

theorem languageCalls_vectored (hs : List VectoredHandler) : languageCalls (vectoredCalls hs) = [] := by
  induction hs with
  | nil => rfl
  | cons h hs ih => exact ih

/-- After the vectored handlers no vectored handler is called. -/
theorem not_vectored_mem_callFilter (invoke : SehGuest σ → BitVec 64 → Invoked σ) (recs : SehRecords)
    (runtimeFunctions : List RuntimeFunction) (w : SehWorld σ) (callback : BitVec 64) :
    SehCall.vectored callback ∉
      (callFilter invoke recs (callLanguage invoke recs runtimeFunctions) w).calls := by
  have hlanguage : ∀ w : SehWorld σ,
      SehCall.vectored callback ∉ (callLanguage invoke recs runtimeFunctions w).calls := by
    intro w
    unfold callLanguage
    split
    · simp
    · dsimp only
      split
      · simp
      · simp
      · split <;> simp
  unfold callFilter
  dsimp only
  split
  · split
    · simp
    · simp
    · split
      · simp
      · simp [after_eq, hlanguage]
  · exact hlanguage w

section Coded

variable {code : BitVec 32} (hcode : exceptionCode crash.sig = some code)
include hcode

theorem dispatchSeh_eq : dispatchSeh invoke recs crash handlers runtimeFunctions w =
    callVectored invoke recs (callFilter invoke recs (callLanguage invoke recs runtimeFunctions)) handlers
      (sehStart crash code w) := by
  rw [dispatchSeh, hcode]

/-- What has been called when every handler and the filter have passed. -/
theorem languageCalls_of_pass {w₁ w₂ : SehWorld σ}
    (hall : AllPass invoke recs handlers (sehStart crash code w) w₁)
    (hfilter : FilterPasses invoke recs w₁ w₂) :
    languageCalls (dispatchSeh invoke recs crash handlers runtimeFunctions w).calls
      = (selectEntry runtimeFunctions w₂).toList := by
  obtain ⟨calls, hcalls, hcall⟩ :=
    callFilter_of_passes (callLanguage invoke recs runtimeFunctions) hfilter
  have hwalk := callVectored_of_allPass
    (callFilter invoke recs (callLanguage invoke recs runtimeFunctions)) [] hall
  rw [List.append_nil] at hwalk
  rw [dispatchSeh_eq hcode, hwalk, callVectored, hcall]
  rw [languageCalls_append, languageCalls_append, languageCalls_vectored, hcalls,
    languageCalls_callLanguage]
  rfl

end Coded

/-! ### The selection -/

/-- An entry is selected together with its handler, and it is the one of the block entered last. -/
theorem selectEntry_eq_some_iff {w : SehWorld σ} {rf : RuntimeFunction} {va : BitVec 64} :
    selectEntry runtimeFunctions w = some (rf, va) ↔
      lookupRuntimeFunction runtimeFunctions (faultRvaOf w.image w.lastEnteredRip) = some rf ∧
        entryHandler w.image rf = some va := by
  unfold selectEntry
  constructor
  · intro h
    obtain ⟨rf', hrf, h⟩ := Option.bind_eq_some_iff.mp h
    obtain ⟨va', hva, h⟩ := Option.bind_eq_some_iff.mp h
    obtain ⟨rfl, rfl⟩ := Prod.mk.inj (Option.some.inj h)
    exact ⟨hrf, hva⟩
  · rintro ⟨hrf, hva⟩
    dsimp only
    rw [hrf, Option.bind_eq_bind, Option.bind_some, hva]
    rfl

theorem rightSelection_iff {w : SehWorld σ} :
    RightSelection ⟨w.image, runtimeFunctions⟩ side faultRip (selectEntry runtimeFunctions w).toList ↔
      SameEntry ⟨w.image, runtimeFunctions⟩ side w.lastEnteredRip faultRip := by
  cases hsel : selectEntry runtimeFunctions w with
  | none =>
    have hnone : ∀ rf, ¬ SehModule.EntryAt ⟨w.image, runtimeFunctions⟩ w.lastEnteredRip rf := by
      rintro rf ⟨hrf, hne⟩
      obtain ⟨va, hva⟩ := Option.ne_none_iff_exists'.mp hne
      rw [selectEntry_eq_some_iff.mpr ⟨hrf, hva⟩] at hsel
      cases hsel
    exact ⟨fun h => ⟨fun rf hrf => absurd hrf (hnone rf), fun _ => h⟩, fun h => h.unhandled hnone⟩
  | some sel =>
    obtain ⟨rf, va⟩ := sel
    obtain ⟨hrf, hva⟩ := selectEntry_eq_some_iff.mp hsel
    have hentry : SehModule.EntryAt ⟨w.image, runtimeFunctions⟩ w.lastEnteredRip rf :=
      ⟨hrf, by rw [hva]; simp⟩
    constructor
    · rintro ⟨hcovers, -⟩
      refine ⟨fun rf' hrf' => ?_, fun hnone => absurd hentry (hnone rf)⟩
      obtain rfl : rf = rf' := Option.some.inj (hrf.symm.trans hrf'.1)
      exact hcovers
    · exact fun h => ⟨h.covers rf hentry, hva⟩

/-! ### The order -/

/-- If the handlers fit, those that decline before another one pass. -/
theorem allPass_of_inOrder {start w₀ w₁ : SehWorld σ} {done pre : List VectoredHandler}
    (horder : ∀ pre h h' post w₁ w₂, handlers = pre ++ h :: h' :: post → AllPass invoke recs pre start w₁ →
      Declines invoke recs h.callback w₁ w₂ → Passes invoke recs h.callback w₁ w₂)
    (hdone : AllPass invoke recs done start w₀) (hpre : AllDecline invoke recs pre w₀ w₁)
    {h : VectoredHandler} {post : List VectoredHandler} (hlist : handlers = done ++ (pre ++ h :: post)) :
    AllPass invoke recs pre w₀ w₁ := by
  induction hpre generalizing done with
  | nil w => exact .nil w
  | @cons h₀ hs w w' w'' hdo hrest ih =>
    -- another handler follows, of `hs` or `h` itself
    obtain ⟨h', post', hnext⟩ : ∃ h' post', hs ++ h :: post = h' :: post' := by
      cases hs with
      | nil => exact ⟨h, post, rfl⟩
      | cons h' hs => exact ⟨h', hs ++ h :: post, rfl⟩
    have hpass : Passes invoke recs h₀.callback w w' := by
      refine horder done h₀ h' post' w w' ?_ hdone hdo
      rw [hlist, List.cons_append, hnext]
    refine .cons hpass (ih (hdone.append (.cons hpass (.nil _))) ?_)
    rw [hlist, List.append_assoc]
    rfl

end Contract

/-- **Exception dispatch.**  It keeps its contract exactly when every handler that has another one behind it
passes or continues execution, and the block entered last has its entry in common with the fault. -/
theorem dispatchSeh_iff {σ : Type} (invoke : SehGuest σ → BitVec 64 → Invoked σ) (recs : SehRecords)
    (crash : CrashInfo) (code : BitVec 32) (hcode : exceptionCode crash.sig = some code)
    (handlers : List VectoredHandler) (runtimeFunctions : List RuntimeFunction) (side : List SehModule)
    (faultRip : BitVec 64) (w : SehWorld σ) :
    SehContract invoke recs crash handlers runtimeFunctions side faultRip w code ↔
      HandlersFit invoke recs crash handlers runtimeFunctions side faultRip w code := by
  constructor
  · intro hc
    refine ⟨fun pre h h' post w₁ w₂ hlist hpre hdec => ?_, fun w₁ w₂ hall hfilter => ?_⟩
    · by_contra hpass
      have hpre' : AllDecline invoke recs pre (sehStart crash code w) w₁ :=
        hpre.mono fun _ _ _ h => ReturnsWith.declines h
      have hdeclined := hpre'.append (.cons hdec (.nil w₂))
      obtain ⟨rest, hcalls⟩ := hc.calls (pre ++ [h]) h' post w₂ (by rw [hlist, List.append_assoc]; rfl) hdeclined
      obtain ⟨rest', hcalls', hrest'⟩ := callVectored_of_declines (h' :: post) hdec hpass
      rw [dispatchSeh_eq hcode, hlist, callVectored_of_allPass _ _ hpre, hcalls'] at hcalls
      have htail : rest' = .vectored h'.callback :: rest := by
        simpa [vectoredCalls] using hcalls
      rcases hrest' with rfl | hrest'
      · cases htail
      · refine not_vectored_mem_callFilter invoke recs runtimeFunctions w₂ h'.callback ?_
        rw [← hrest', htail]
        exact List.mem_cons_self
    · have hsel := hc.selects w₁ w₂ hall hfilter
      rw [languageCalls_of_pass hcode hall hfilter] at hsel
      exact rightSelection_iff.mp hsel
  · intro hfit
    have hpasses : ∀ pre h post w₁, handlers = pre ++ h :: post →
        AllDecline invoke recs pre (sehStart crash code w) w₁ →
        AllPass invoke recs pre (sehStart crash code w) w₁ :=
      fun pre h post w₁ hlist hpre => allPass_of_inOrder hfit.inOrder (.nil _) hpre hlist
    refine ⟨fun pre h post w₁ hlist hpre => ?_, fun pre h post w₁ w₂ hlist hpre hret => ?_,
      fun w₁ w₂ hall hfilter => ?_⟩
    · obtain ⟨rest, hrest⟩ := calls_callVectored_cons invoke recs
        (callFilter invoke recs (callLanguage invoke recs runtimeFunctions)) h post w₁
      refine ⟨rest, ?_⟩
      rw [dispatchSeh_eq hcode, hlist, callVectored_of_allPass _ _ (hpasses pre h post w₁ hlist hpre), hrest]
      simp [vectoredCalls]
    · refine ⟨w₂.restore, ?_, rfl, rfl, rfl⟩
      rw [dispatchSeh_eq hcode, hlist, callVectored_of_allPass _ _ (hpasses pre h post w₁ hlist hpre),
        callVectored_of_continues post hret]
      simp [vectoredCalls]
    · rw [languageCalls_of_pass hcode hall hfilter]
      exact rightSelection_iff.mpr (hfit.sameEntry w₁ w₂ hall hfilter)

/-! ### Handlers in two functions -/

/-- Two functions, each with a handler of its own. -/
def twoFunctions : List RuntimeFunction :=
  [⟨0x1000, 0x1040, 0x2000⟩, ⟨0x1040, 0x1080, 0x2008⟩]

/-- Both `UNWIND_INFO` have no codes and the handler flag; the handlers are at 0x1100 and 0x1200. -/
def twoHandlersImage : LoadedImage where
  actualBase := 0x140000000
  len := 0x3000
  byte
    | 0x2000 => 0x09
    | 0x2005 => 0x11
    | 0x2008 => 0x09
    | 0x200D => 0x12
    | _ => 0

/-- A vectored handler `xor eax, eax; ret`: one block, RAX is zero, and the RET pops the return address
from the 0x28 bytes that the caller has reserved. -/
def passingHandler (g : SehGuest Unit) (callback : BitVec 64) : Invoked Unit :=
  .ok 0 callback { g with ctx := (g.ctx.setGpr 0 0).setGpr 4 (g.ctx.gprs 4 - 0x20) }

theorem passes_passingHandler (recs : SehRecords) (callback : BitVec 64) (w : SehWorld Unit) :
    ∃ w', Passes passingHandler recs callback w w' ∧ w'.unhandledFilter = w.unhandledFilter ∧
      w'.image = w.image :=
  ⟨⟨_, callback⟩, ⟨0, rfl, rfl⟩, rfl, rfl⟩

/-- The fault is at the start of the first function. -/
def faultWorld : SehWorld Unit where
  ctx := .zero
  lastEnteredRip := 0x140001000
  record := ⟨0, 0⟩
  context := .fromGuestGprs (fun _ => 0) 0 0
  unhandledFilter := 0
  image := twoHandlersImage
  rest := ()

/-- A crash with nothing in the registers. -/
def bareCrash (sig : Int) : CrashInfo :=
  ⟨sig, 0, 0, fun _ => 0⟩

/-- The handler in the first function passes, the one in the second continues execution. -/
def continuingHandler (g : SehGuest Unit) (callback : BitVec 64) : Invoked Unit :=
  if callback = 0x140001040 then .ok 0xFFFFFFFF callback g else passingHandler g callback

theorem dispatchSeh_iff_continuing : SehContract continuingHandler ⟨0, 0, 0⟩ (bareCrash 5)
    [⟨1, 0x140001000, false⟩, ⟨2, 0x140001040, false⟩] twoFunctions [] 0x140001000 faultWorld
    exceptionBreakpoint := by
  refine (dispatchSeh_iff continuingHandler ⟨0, 0, 0⟩ (bareCrash 5) exceptionBreakpoint rfl _ _ _ _ _).mpr
    ⟨fun pre h h' post w₁ w₂ hlist _ hdec => ?_, fun w₁ w₂ hall _ => ?_⟩
  · cases pre with
    | nil =>
      obtain ⟨rfl, -⟩ := List.cons.inj hlist
      cases hdec with
      | returned hret _ =>
        obtain ⟨rax, hinv, -⟩ := hret
        have hrax : 0 = rax := by
          have hok := hinv
          injection hok
        subst hrax
        exact ⟨_, hinv, rfl⟩
      | failed herr => cases herr
    | cons a pre =>
      have hlen := congrArg List.length hlist
      simp only [List.length_cons, List.length_append, List.length_nil] at hlen
      omega
  · -- the second handler does not pass
    cases hall with
    | cons _ hrest =>
      cases hrest with
      | cons hpass _ =>
        obtain ⟨rax, hinv, hdisp⟩ := hpass
        injection hinv with hrax
        rw [← hrax] at hdisp
        exact absurd hdisp (by decide)

/-- The vectored handler lies in the second function and passes: the language-specific handler of the
second function is called. -/
theorem selects_handler_of_handler :
    ¬ SehContract passingHandler ⟨0, 0, 0⟩ (bareCrash 11) [⟨1, 0x140001040, false⟩]
      twoFunctions [] 0x140001000 faultWorld exceptionAccessViolation := by
  intro h
  obtain ⟨w₁, hpass, hfilter, himage⟩ := passes_passingHandler ⟨0, 0, 0⟩ 0x140001040
    (sehStart (bareCrash 11) exceptionAccessViolation faultWorld)
  have hsel := h.selects w₁ w₁ (.cons hpass (.nil w₁)) (.inl ⟨hfilter, rfl⟩)
  rw [himage] at hsel
  obtain ⟨⟨-, -, hbegin, -⟩, -⟩ := hsel
  revert hbegin
  decide

end Quantum.Cli
