import Quantum.Kernel32.ExitTrap

/-!
# Correctness of nested exit traps

`Body.run_eq` follows a body on a thread whose innermost trap frame holds the state `saved`: a body that
returns leaves the thread as it was, and any other ending reaches that frame with its code, whatever the
traps inside the body did.  `runWithExitTrap_eq` is the whole call, on any thread.
-/

namespace Quantum.Kernel32

/-- The code that a trap returns for the way its body ends. -/
def Ending.result : Ending → BitVec 32
  | .returns => bodyReturned
  | .exitProcess code => code
  | .exitThread => 0
  | .crash => crashCode

/-- How a body ends, when every trap inside it returns the code of its own body's ending. -/
def Body.ending : Body → Ending
  | .ends e => e
  | .trap inner rest => (rest inner.ending.result).ending
  | .guest inner rest =>
    match inner.ending with
    | .returns => rest.ending
    | e => e

/-- The jump crosses nothing but dispatcher loops and lands in the first trap below it. -/
def Jump.Innermost (j : Jump) : Prop :=
  ∃ guests saved,
    (∀ f ∈ guests, Frame.isGuest f = true) ∧ j.stack = guests ++ .trap saved () :: j.left

section Nesting

variable {saved : ExitState} {guests rest : List (Frame Unit)} {t : Thread Unit}

/-- The thread of a body: dispatcher loops above the frame of the trap that it runs under. -/
def underTrap (guests : List (Frame Unit)) (saved : ExitState) (rest : List (Frame Unit)) :
    Thread Unit :=
  ⟨⟨rest.length + 1, 0, true⟩, guests ++ .trap saved () :: rest⟩

theorem enterTrap_eq (t : Thread Unit) : t.enterTrap () = underTrap [] t.exit t.stack :=
  rfl

theorem enterGuest_underTrap :
    (underTrap guests saved rest).enterGuest = underTrap (.guest :: guests) saved rest :=
  rfl

theorem leaveGuest_underTrap :
    (underTrap (.guest :: guests) saved rest).leaveGuest = some (underTrap guests saved rest) :=
  rfl

/-- The jump of an armed thread lands in the trap that armed it. -/
theorem longjmp_leaveTrap (code : BitVec 32) :
    (Thread.longjmp ⟨⟨rest.length + 1, code, true⟩, guests ++ .trap saved () :: rest⟩).leaveTrap =
      some ⟨saved, rest⟩ := by
  have hcut : (guests ++ .trap saved () :: rest).length - (rest.length + 1) = guests.length := by
    rw [List.length_append, List.length_cons, Nat.add_sub_cancel]
  have hdrop : (guests ++ .trap saved () :: rest).drop guests.length = .trap saved () :: rest :=
    List.drop_left
  rw [Thread.longjmp, hcut, hdrop]
  rfl

theorem raise_underTrap (code status : BitVec 32) :
    raise (underTrap guests saved rest) code status = some (.caught code ⟨saved, rest⟩) := by
  have hjump := @longjmp_leaveTrap saved guests rest code
  rw [raise, underTrap]
  dsimp only
  rw [if_pos rfl, hjump]
  rfl

/-- No code is stored, and none was left by an earlier trap. -/
theorem exitThread_underTrap :
    exitThread (underTrap guests saved rest) = .caught 0 ⟨saved, rest⟩ := by
  rw [exitThread, underTrap]
  dsimp only
  rw [if_pos rfl, longjmp_leaveTrap]

/-- What a body comes to under its trap. -/
def endingOutcome (t : Thread Unit) (saved : ExitState) (rest : List (Frame Unit)) :
    Ending → BodyOutcome
  | .returns => .returned t
  | e => .caught e.result ⟨saved, rest⟩

theorem Ending.run_underTrap (e : Ending) :
    e.run (underTrap guests saved rest) = endingOutcome (underTrap guests saved rest) saved rest e := by
  cases e with
  | returns => rfl
  | exitProcess code => rw [Ending.run, Kernel32.exitProcess, raise_underTrap]; rfl
  | exitThread => rw [Ending.run, exitThread_underTrap]; rfl
  | crash => rw [Ending.run, crashHandler, raise_underTrap]; rfl

/-- The trap returns the code of its body's ending and leaves the thread that it was called on. -/
theorem trapEnd_endingOutcome (e : Ending) :
    trapEnd t (endingOutcome (t.enterTrap ()) t.exit t.stack e) = .ok (e.result, t) := by
  cases e with
  | returns => rfl
  | exitProcess code => exact if_pos rfl
  | exitThread => exact if_pos rfl
  | crash => exact if_pos rfl

theorem jumps_endingOutcome (hg : ∀ f ∈ guests, Frame.isGuest f = true) (e : Ending) :
    ∀ j ∈ (endingOutcome t saved rest e).jumps (underTrap guests saved rest), j.Innermost := by
  intro j hj
  have hland : Jump.Innermost ⟨(underTrap guests saved rest).stack, rest⟩ := ⟨guests, saved, hg, rfl⟩
  cases e with
  | returns => cases hj
  | exitProcess code => rw [List.eq_of_mem_singleton hj]; exact hland
  | exitThread => rw [List.eq_of_mem_singleton hj]; exact hland
  | crash => rw [List.eq_of_mem_singleton hj]; exact hland

/-- The run of a body under its trap, by induction on the body: the frames above the trap change only
when the body enters a dispatcher loop, and a nested trap gives the thread back. -/
theorem Body.run_eq (body : Body) :
    ∀ {guests : List (Frame Unit)}, (∀ f ∈ guests, Frame.isGuest f = true) →
      ∀ (saved : ExitState) (rest : List (Frame Unit)),
        ∃ jumps, body.run (underTrap guests saved rest) =
            (jumps, endingOutcome (underTrap guests saved rest) saved rest body.ending) ∧
          ∀ j ∈ jumps, j.Innermost := by
  induction body with
  | ends e =>
    intro guests hg saved rest
    have hjumps := @jumps_endingOutcome saved guests rest (underTrap guests saved rest) hg e
    refine ⟨_, ?_, hjumps⟩
    rw [Body.run, Ending.run_underTrap]
    rfl
  | trap inner after ihInner ihAfter =>
    intro guests hg saved rest
    have hnone : ∀ f ∈ ([] : List (Frame Unit)), Frame.isGuest f = true := by
      intro f hf
      cases hf
    -- the inner trap gives back the thread that it was called on
    obtain ⟨jumps, hrun, hjumps⟩ :=
      ihInner hnone (underTrap guests saved rest).exit (underTrap guests saved rest).stack
    obtain ⟨jumps', hrun', hjumps'⟩ := ihAfter inner.ending.result hg saved rest
    have hend : trapEnd (underTrap guests saved rest)
        (endingOutcome ((underTrap guests saved rest).enterTrap ()) (underTrap guests saved rest).exit
          (underTrap guests saved rest).stack inner.ending) =
        .ok (inner.ending.result, underTrap guests saved rest) :=
      trapEnd_endingOutcome inner.ending
    refine ⟨jumps ++ jumps', ?_, ?_⟩
    · rw [Body.run, enterTrap_eq, hrun]
      dsimp only
      rw [← enterTrap_eq, hend]
      dsimp only
      rw [hrun']
      rfl
    · intro j hj
      rcases List.mem_append.mp hj with h | h
      · exact hjumps j h
      · exact hjumps' j h
  | guest inner after ihInner ihAfter =>
    intro guests hg saved rest
    have hguest : ∀ f ∈ .guest :: guests, Frame.isGuest f = true := by
      intro f hf
      rcases List.mem_cons.mp hf with rfl | hf
      · rfl
      · exact hg f hf
    obtain ⟨jumps, hrun, hjumps⟩ := ihInner hguest saved rest
    rw [Body.run, enterGuest_underTrap, hrun]
    -- only a body that returns comes back to the dispatcher loop
    cases he : inner.ending with
    | returns =>
      obtain ⟨jumps', hrun', hjumps'⟩ := ihAfter hg saved rest
      refine ⟨jumps ++ jumps', ?_, ?_⟩
      · rw [Body.ending, he]
        dsimp only [endingOutcome]
        rw [leaveGuest_underTrap]
        dsimp only
        rw [hrun']
        rfl
      · intro j hj
        rcases List.mem_append.mp hj with h | h
        · exact hjumps j h
        · exact hjumps' j h
    | exitProcess code => exact ⟨jumps, by rw [Body.ending, he]; rfl, hjumps⟩
    | exitThread => exact ⟨jumps, by rw [Body.ending, he]; rfl, hjumps⟩
    | crash => exact ⟨jumps, by rw [Body.ending, he]; rfl, hjumps⟩

end Nesting

/-- **Nesting**: on every thread and for every tree of traps, `run_with_exit_trap` returns the code of
its own body's ending and leaves the thread, its exit state included, as it found it; every jump inside
lands in the innermost trap. -/
theorem runWithExitTrap_eq (body : Body) (t : Thread Unit) :
    ∃ jumps, runWithExitTrap body t = (jumps, .ok (body.ending.result, t)) ∧
      ∀ j ∈ jumps, j.Innermost := by
  have hnone : ∀ f ∈ ([] : List (Frame Unit)), Frame.isGuest f = true := by
    intro f hf
    cases hf
  obtain ⟨jumps, hrun, hjumps⟩ := body.run_eq hnone t.exit t.stack
  refine ⟨jumps, ?_, hjumps⟩
  rw [runWithExitTrap, enterTrap_eq, hrun]
  dsimp only
  rw [← enterTrap_eq, trapEnd_endingOutcome]

end Quantum.Kernel32
