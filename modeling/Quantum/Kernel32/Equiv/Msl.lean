import Mathlib.Data.List.Basic
import Quantum.Kernel32.Equiv.Instructions
import Quantum.Kernel32.Equiv.Operands
import Quantum.Kernel32.Msl

/-!
# Shaders, translated or not

`emitMsl` reads at most two operands of an instruction, and reads them from right behind the header token.  So
`ADD`, `MUL` and `MAD` are reported as unsupported, and the extension tokens of a `MOV` are read as operands.
`translated_iff`: a program is translated exactly when this does no harm to any of its instructions.

The texts are compared line by line.  An operand renders without a newline and without an equals sign
(`plain_renderOperand`), so the source falls apart into the lines of its instructions (`lines_flatMap`), and
an assignment into its two sides (`assignment_inj`).
-/

namespace Quantum.Kernel32.Dxbc

open Checked

/-! ### Texts -/

def lines (text : Text) : List Text := text.splitOn '\n'

/-- A line without its indentation. -/
def unindent (line : Text) : Text := line.dropWhile (· == ' ')

/-- A line that is neither empty nor a comment. -/
def isStatement (line : Text) : Bool :=
  !(unindent line).isEmpty && !("//".toList.isPrefixOf (unindent line))

/-- A line that reports an instruction as unsupported. -/
def reportsUnsupported (line : Text) : Bool :=
  "// unsupported opcode".toList.isPrefixOf (unindent line)

def statements (text : Text) : List Text := (lines text).filter isStatement

theorem lines_flatMap {α : Type} (f : α → Text) (l : List α) (h : ∀ a ∈ l, '\n' ∉ f a) :
    lines (l.flatMap fun a => f a ++ ['\n']) = l.map f ++ [[]] := by
  induction l with
  | nil => rfl
  | cons a l ih =>
    obtain ⟨ha, hrest⟩ := List.forall_mem_cons.mp h
    have hcons : (a :: l).flatMap (fun a => f a ++ ['\n']) =
        f a ++ '\n' :: l.flatMap fun a => f a ++ ['\n'] := by
      rw [List.flatMap_cons, List.append_assoc, List.singleton_append]
    rw [lines, hcons, List.splitOn_append_cons_self_of_not_mem ha, ← lines, ih hrest, List.map_cons,
      List.cons_append]

/-- Two ways to keep some of the elements, if they keep the same ones. -/
theorem eq_of_filterMap_eq {α β : Type} {f g : α → Option β} {l : List α}
    (hsome : ∀ a ∈ l, (f a).isSome = (g a).isSome) (h : l.filterMap f = l.filterMap g) :
    ∀ a ∈ l, f a = g a := by
  induction l with
  | nil => exact nofun
  | cons a l ih =>
    obtain ⟨ha, hrest⟩ := List.forall_mem_cons.mp hsome
    rw [List.forall_mem_cons]
    cases hf : f a with
    | none =>
      have hg : g a = none := by simpa [hf] using ha
      rw [List.filterMap_cons_none hf, List.filterMap_cons_none hg] at h
      exact ⟨hg.symm, ih hrest h⟩
    | some b =>
      obtain ⟨b', hg⟩ := Option.isSome_iff_exists.mp (show (g a).isSome = true by rw [← ha, hf]; rfl)
      rw [List.filterMap_cons_some hf, List.filterMap_cons_some hg] at h
      obtain ⟨rfl, htail⟩ := List.cons.inj h
      exact ⟨hg.symm, ih hrest htail⟩

/-- A text without a newline and without an equals sign. -/
def Plain (t : Text) : Prop := ∀ c ∈ t, c ≠ '\n' ∧ c ≠ '='

instance (t : Text) : Decidable (Plain t) := List.decidableBAll (fun c => c ≠ '\n' ∧ c ≠ '=') t

theorem plain_nil : Plain [] := by
  intro c hc
  cases hc

theorem plain_append {s t : Text} (hs : Plain s) (ht : Plain t) : Plain (s ++ t) := by
  intro c hc
  rcases List.mem_append.mp hc with hc | hc
  · exact hs c hc
  · exact ht c hc

theorem plain_cons {c : Char} {t : Text} (hc : c ≠ '\n' ∧ c ≠ '=') (ht : Plain t) : Plain (c :: t) :=
  List.forall_mem_cons.mpr ⟨hc, ht⟩

/-- The characters of a number are digits. -/
theorem exists_digitChar {b n : ℕ} (hb : 1 < b) {c : Char} (hc : c ∈ Nat.toDigits b n) :
    ∃ d < b, c = Nat.digitChar d := by
  induction n using Nat.strongRecOn with
  | ind n ih =>
    rw [Nat.toDigits_eq_if hb] at hc
    split_ifs at hc with hlt
    · exact ⟨n, hlt, List.mem_singleton.mp hc⟩
    · rcases List.mem_append.mp hc with hc | hc
      · exact ih (n / b) (Nat.div_lt_self (by omega) hb) hc
      · exact ⟨n % b, Nat.mod_lt _ (by omega), List.mem_singleton.mp hc⟩

theorem plain_decimal (n : ℕ) : Plain (decimal n) := by
  have hdigit : ∀ d < 10, Nat.digitChar d ≠ '\n' ∧ Nat.digitChar d ≠ '=' := by decide
  intro c hc
  obtain ⟨d, hd, rfl⟩ := exists_digitChar (by decide) hc
  exact hdigit d hd

theorem plain_hexUpper (width n : ℕ) : Plain (hexUpper width n) := by
  have hdigit : ∀ d < 16, (Nat.digitChar d).toUpper ≠ '\n' ∧ (Nat.digitChar d).toUpper ≠ '=' := by decide
  intro c hc
  rcases List.mem_append.mp hc with hpad | hc
  · rw [List.eq_of_mem_replicate hpad]
    decide
  · obtain ⟨c', hc', rfl⟩ := List.mem_map.mp hc
    obtain ⟨d, hd, rfl⟩ := exists_digitChar (by decide) hc'
    exact hdigit d hd

theorem plain_selectSuffix (s : ComponentSelect) : Plain (selectSuffix s) := by
  have hcomp : ∀ c : BitVec 8, compChar c ≠ '\n' ∧ compChar c ≠ '=' := by
    intro c
    unfold compChar
    split <;> decide
  cases s with
  | none => exact plain_nil
  | mask m =>
    unfold selectSuffix
    dsimp only
    split_ifs
    · exact plain_nil
    · refine plain_cons (by decide) fun c hc => ?_
      obtain ⟨⟨ch, i⟩, hmem, hch⟩ := List.mem_filterMap.mp hc
      dsimp only at hch
      split_ifs at hch
      obtain rfl := Option.some.inj hch
      have hxyzw : ∀ p ∈ ['x', 'y', 'z', 'w'].zipIdx, p.1 ≠ '\n' ∧ p.1 ≠ '=' := by decide
      exact hxyzw _ hmem
  | swizzle lanes =>
    refine plain_cons (by decide) fun c hc => ?_
    obtain ⟨lane, -, rfl⟩ := List.mem_map.mp hc
    exact hcomp lane
  | select1 c =>
    exact plain_cons (by decide) (plain_cons (hcomp c) plain_nil)

theorem plain_asFloat (w : BitVec 32) : Plain (asFloat w) :=
  plain_append (plain_append (by decide) (plain_hexUpper 8 _)) (by decide)

theorem plain_renderRegister {letter : Char} (hl : letter ≠ '\n' ∧ letter ≠ '=') (op : Operand) :
    Plain (renderRegister letter op) :=
  plain_cons hl (plain_append (plain_decimal _) (plain_selectSuffix _))

theorem plain_renderOperand (op : Operand) : Plain (renderOperand op) := by
  unfold renderOperand
  split
  case h_4 =>
    split
    · exact plain_append (plain_append (by decide) (plain_asFloat _)) (by decide)
    · have hcomma : Plain ", ".toList := by decide
      refine plain_append (plain_append (plain_append (plain_append (plain_append (plain_append
        (plain_append (plain_append (by decide) (plain_asFloat _)) hcomma) (plain_asFloat _)) hcomma)
        (plain_asFloat _)) hcomma) (plain_asFloat _)) (by decide)
    · decide
  case h_5 =>
    exact plain_append (plain_append (plain_append (plain_append (plain_append (by decide)
      (plain_decimal _)) (by decide)) (plain_decimal _)) (by decide)) (plain_selectSuffix _)
  case h_9 => decide
  case h_10 => exact plain_append (plain_append (by decide) (plain_decimal _)) (by decide)
  all_goals exact plain_renderRegister (by decide) op

/-! ### Lines -/

/-- An operand does not render as a comment to the end of the line. -/
theorem exists_renderOperand (op : Operand) : ∃ c t, renderOperand op = c :: t ∧ c ≠ ' ' ∧
    (c = '/' → t.head? = some '*') := by
  have hletter : ∀ (c : Char) (t : Text), c ≠ '/' → c = '/' → t.head? = some '*' :=
    fun c t hne heq => absurd heq hne
  unfold renderOperand
  split
  case h_4 =>
    split
    · exact ⟨'f', _, rfl, by decide, hletter _ _ (by decide)⟩
    · exact ⟨'f', _, rfl, by decide, hletter _ _ (by decide)⟩
    · exact ⟨'/', _, rfl, by decide, fun _ => rfl⟩
  case h_5 => exact ⟨'c', _, rfl, by decide, hletter _ _ (by decide)⟩
  case h_9 => exact ⟨'/', _, rfl, by decide, fun _ => rfl⟩
  case h_10 => exact ⟨'/', _, rfl, by decide, fun _ => rfl⟩
  all_goals exact ⟨_, _, rfl, by decide, hletter _ _ (by decide)⟩

theorem assignment_eq (dst value : Text) : assignment dst value =
    "    ".toList ++ (dst ++ (" = ".toList ++ (value ++ ";".toList))) := by
  -- `unfold` evaluates the literals for its equation
  delta assignment
  rw [List.append_assoc, List.append_assoc, List.append_assoc]

theorem unindent_assignment (op : Operand) (value : Text) : ∃ c t,
    unindent (assignment (renderOperand op) value) = c :: t ∧ (c = '/' → t.head? = some '*') := by
  obtain ⟨c, t, hrender, hspace, hslash⟩ := exists_renderOperand op
  refine ⟨c, t ++ (" = ".toList ++ (value ++ ";".toList)), ?_, fun hc => ?_⟩
  · have hindent : ∀ rest : Text, unindent ("    ".toList ++ rest) = unindent rest := fun _ => rfl
    rw [assignment_eq, hindent, hrender, List.cons_append, unindent,
      List.dropWhile_cons_of_neg (by simpa using hspace)]
  · have hhead := hslash hc
    cases t with
    | nil => cases hhead
    | cons c' t => exact hhead

theorem isStatement_assignment (op : Operand) (value : Text) :
    isStatement (assignment (renderOperand op) value) = true := by
  obtain ⟨c, t, hline, hslash⟩ := unindent_assignment op value
  rw [isStatement, hline]
  by_cases hc : c = '/'
  · obtain ⟨u, rfl⟩ : ∃ u, t = '*' :: u := by
      cases t with
      | nil => cases hslash hc
      | cons c' u => exact ⟨u, by rw [Option.some.inj (hslash hc)]⟩
    rw [hc]
    rfl
  · have hslashes : "//".toList.isPrefixOf (c :: t) = false := by
      have hne : ('/' == c) = false := by simpa using Ne.symm hc
      rw [show "//".toList = ['/', '/'] from rfl, List.isPrefixOf, hne, Bool.false_and]
    rw [hslashes]
    rfl

/-- A report is a comment. -/
theorem not_reportsUnsupported_of_isStatement {line : Text} (h : isStatement line = true) :
    reportsUnsupported line = false := by
  by_contra hreport
  rw [Bool.not_eq_false, reportsUnsupported, List.isPrefixOf_iff_prefix] at hreport
  have hshort : "//".toList <+: "// unsupported opcode".toList := ⟨" unsupported opcode".toList, rfl⟩
  have hcomment : "//".toList.isPrefixOf (unindent line) = true :=
    List.isPrefixOf_iff_prefix.mpr (hshort.trans hreport)
  rw [isStatement, hcomment, Bool.not_true, Bool.and_false] at h
  cases h

theorem newline_notMem_assignment {dst value : Text} (hd : Plain dst) (hv : Plain value) :
    '\n' ∉ assignment dst value := by
  have hindent : '\n' ∉ "    ".toList := by decide
  have heq : '\n' ∉ " = ".toList := by decide
  have hend : '\n' ∉ ";".toList := by decide
  have hd' : '\n' ∉ dst := fun h => (hd _ h).1 rfl
  have hv' : '\n' ∉ value := fun h => (hv _ h).1 rfl
  simp only [assignment_eq, List.mem_append, not_or]
  exact ⟨hindent, hd', heq, hv', hend⟩

/-- The equals sign divides an assignment. -/
theorem assignment_inj {d v d' v' : Text} (hd : Plain d) (hv : Plain v)
    (h : assignment d v = assignment d' v') : d = d' ∧ v = v' := by
  have hequals : " = ".toList = [' ', '=', ' '] := rfl
  have hend : ";".toList = [';'] := rfl
  have hsplit : ∀ d v : Text, assignment d v =
      ("    ".toList ++ d ++ [' ']) ++ '=' :: (' ' :: v ++ [';']) := by
    intro d v
    rw [assignment_eq, hequals, hend, List.append_assoc, List.append_assoc]
    rfl
  -- no equals sign but the one in the middle, on either side
  have hleft : ∀ {d : Text}, Plain d → '=' ∉ "    ".toList ++ d ++ [' '] := by
    intro d hd hmem
    simp only [List.mem_append] at hmem
    rcases hmem with (hmem | hmem) | hmem
    · exact absurd hmem (by decide)
    · exact (hd _ hmem).2 rfl
    · exact absurd hmem (by decide)
  have hright : ∀ {v : Text}, Plain v → '=' ∉ ' ' :: v ++ [';'] := by
    intro v hv hmem
    rcases List.mem_append.mp hmem with hmem | hmem
    · rcases List.mem_cons.mp hmem with hmem | hmem
      · exact absurd hmem (by decide)
      · exact (hv _ hmem).2 rfl
    · exact absurd hmem (by decide)
  rw [hsplit, hsplit, List.append_cons_inj_of_notMem (hleft hd) (hright hv)] at h
  obtain ⟨hfront, -, hback⟩ := h
  have hdst := List.append_cancel_left (List.append_cancel_right hfront)
  have hvalue := List.append_cancel_right hback
  exact ⟨hdst, List.tail_eq_of_cons_eq hvalue⟩

/-! ### Programs -/

/-- The instructions that the emitter knows. -/
inductive ShaderOp where
  | mov
  | add
  | mul
  | mad
  | ret
  deriving DecidableEq

def ShaderOp.opcode : ShaderOp → BitVec 16
  | .mov => Opcode.MOV
  | .add => Opcode.ADD
  | .mul => Opcode.MUL
  | .mad => Opcode.MAD
  | .ret => Opcode.RET

def ShaderOp.arity : ShaderOp → ℕ
  | .mov => 2
  | .add | .mul => 3
  | .mad => 4
  | .ret => 0

/-- The extended opcode tokens of an instruction: bit 31 of each says whether another one follows. -/
def ExtensionChain (extensions : List (BitVec 32)) : Prop :=
  ∀ i (h : i < extensions.length), extendedField extensions[i] = decide (i + 1 < extensions.length)

/-- A well-formed instruction.  What follows the header of a `RET` does not matter. -/
structure ShaderInstruction where
  op : ShaderOp
  header : BitVec 32
  extensions : List (BitVec 32)
  operands : List EncodedOperand
  opcode_eq : (header &&& 0x07FF).setWidth 16 = op.opcode
  extended_eq : extendedField header = !extensions.isEmpty
  chained : ExtensionChain extensions
  arity_eq : op ≠ .ret → operands.length = op.arity
  length_eq : (lengthField header).toNat = 1 + (extensions ++ operands.flatMap EncodedOperand.tokens).length

namespace ShaderInstruction

/-- The tokens behind the header token. -/
def body (i : ShaderInstruction) : List (BitVec 32) :=
  i.extensions ++ i.operands.flatMap EncodedOperand.tokens

def tokens (i : ShaderInstruction) : List (BitVec 32) := i.header :: i.body

def texts (i : ShaderInstruction) : List Text := i.operands.map fun o => renderOperand o.operand

/-- The assignment that the instruction stands for. -/
def statement (i : ShaderInstruction) : Option Text :=
  match i.op, i.texts with
  | .mov, [dst, src] => some (assignment dst src)
  | .add, [dst, a, b] => some (assignment dst (a ++ " + ".toList ++ b))
  | .mul, [dst, a, b] => some (assignment dst (a ++ " * ".toList ++ b))
  | .mad, [dst, a, b, c] =>
    some (assignment dst ("fma(".toList ++ a ++ ", ".toList ++ b ++ ", ".toList ++ c ++ ")".toList))
  | _, _ => none

/-- The tokens behind the header token, extension tokens included, begin with two operands that render as
the instruction's own do. -/
def ReadsOwnOperands (i : ShaderInstruction) : Prop :=
  ∃ (o₁ o₂ : EncodedOperand) (rest : List (BitVec 32)), i.body = o₁.tokens ++ (o₂.tokens ++ rest) ∧
    [renderOperand o₁.operand, renderOperand o₂.operand] = i.texts

end ShaderInstruction

/-- A program with a valid header. -/
structure ShaderProgram where
  version : BitVec 32
  total : BitVec 32
  instructions : List ShaderInstruction
  total_eq : total.toNat = 2 + (instructions.flatMap ShaderInstruction.tokens).length

def ShaderProgram.tokens (s : ShaderProgram) : List (BitVec 32) :=
  s.version :: s.total :: s.instructions.flatMap ShaderInstruction.tokens

/-- The source is preamble, body and closing.  The statements of the body are the assignments that the
instructions stand for, and no line reports an instruction as unsupported. -/
def ShaderProgram.Translated (s : ShaderProgram) : Prop :=
  ∃ hdr body, parseProgramHeader s.tokens = .ok hdr ∧
    emitMsl s.tokens = .ok (preamble hdr ++ body ++ closing hdr.programType.stage) ∧
    statements body = s.instructions.filterMap ShaderInstruction.statement ∧
    ∀ line ∈ lines body, reportsUnsupported line = false

/-! ### Operands in an instruction -/

/-- Draining operands does not panic, and stops at the number that is asked for. -/
theorem exists_drainOperands {body : List (BitVec 32)} (hlen : body.length < 2 ^ 63) (n : ℕ)
    (cursor : BitVec 64) : ∃ ops, drainOperands body n cursor = .ok ops ∧ ops.length ≤ n := by
  induction n generalizing cursor with
  | zero => exact ⟨[], rfl, le_rfl⟩
  | succ n ih =>
    rw [drainOperands]
    cases hdec : decodeOperand body cursor with
    | ok r =>
      obtain ⟨ops, hops, hle⟩ := ih r.2
      refine ⟨r.1 :: ops, ?_, Nat.succ_le_succ hle⟩
      dsimp only
      rw [hops]
      rfl
    | error f =>
      cases f with
      | err u => exact ⟨[], rfl, Nat.zero_le _⟩
      | panicked => exact absurd hdec (decodeOperand_total hlen cursor)

/-- An operand at the cursor is drained. -/
theorem drainOperands_encoded (o : EncodedOperand) {pre post : List (BitVec 32)} {n : ℕ} {ops : List Operand}
    (hlen : (pre ++ (o.tokens ++ post)).length < 2 ^ 63)
    (h : drainOperands (pre ++ (o.tokens ++ post)) n (BitVec.ofNat 64 (pre.length + o.tokens.length)) =
      .ok ops) :
    drainOperands (pre ++ (o.tokens ++ post)) (n + 1) (BitVec.ofNat 64 pre.length) =
      .ok (o.operand :: ops) := by
  rw [drainOperands, decodeOperand_encoded o hlen]
  dsimp only
  rw [h]
  rfl

/-- An operand that is drained stands at the cursor. -/
theorem exists_of_drainOperands {tokens : List (BitVec 32)} {k n : ℕ} {op : Operand} {ops : List Operand}
    (hk : k < 2 ^ 64) (hlen : tokens.length < 2 ^ 63)
    (h : drainOperands tokens (n + 1) (BitVec.ofNat 64 k) = .ok (op :: ops)) :
    ∃ (o : EncodedOperand) (rest : List (BitVec 32)), tokens.drop k = o.tokens ++ rest ∧ op = o.operand ∧
      drainOperands tokens n (BitVec.ofNat 64 (k + o.tokens.length)) = .ok ops := by
  rw [drainOperands] at h
  cases hdec : decodeOperand tokens (BitVec.ofNat 64 k) with
  | ok r =>
    rw [hdec] at h
    obtain ⟨ops', hops', heq⟩ := bind_eq_ok.mp h
    obtain ⟨rfl, rfl⟩ := List.cons.inj (Except.ok.inj heq)
    obtain ⟨o, rest, htokens, hop, hnext⟩ := exists_encoded hk hlen hdec
    rw [hnext] at hops'
    exact ⟨o, rest, htokens, hop, hops'⟩
  | error f =>
    rw [hdec] at h
    cases f with
    | err u => cases h
    | panicked => cases h

/-- Two operands are drained exactly when the body begins with them. -/
theorem decodeAllOperands_two {body : List (BitVec 32)} (hlen : body.length < 2 ^ 63) {a b : Operand} :
    decodeAllOperands body 2 = .ok [a, b] ↔ ∃ (o₁ o₂ : EncodedOperand) (rest : List (BitVec 32)),
      body = o₁.tokens ++ (o₂.tokens ++ rest) ∧ a = o₁.operand ∧ b = o₂.operand := by
  constructor
  · intro h
    obtain ⟨o₁, rest₁, hbody, ha, h⟩ := @exists_of_drainOperands body 0 1 a [b] (by decide) hlen h
    rw [List.drop_zero] at hbody
    have hle : 0 + o₁.tokens.length ≤ body.length := by
      rw [hbody, List.length_append]
      omega
    obtain ⟨o₂, rest₂, hdrop, hb, -⟩ :=
      @exists_of_drainOperands body (0 + o₁.tokens.length) 0 b [] (by omega) hlen h
    rw [Nat.zero_add, hbody, List.drop_left] at hdrop
    exact ⟨o₁, o₂, rest₂, by rw [hbody, hdrop], ha, hb⟩
  · rintro ⟨o₁, o₂, rest, rfl, rfl, rfl⟩
    have hsecond := @drainOperands_encoded o₂ o₁.tokens rest 0 [] hlen rfl
    rw [← Nat.zero_add o₁.tokens.length] at hsecond
    exact @drainOperands_encoded o₁ [] (o₂.tokens ++ rest) 1 [o₂.operand] hlen hsecond

/-! ### The line of an instruction -/

namespace ShaderInstruction

/-- The operands that the emitter reads. -/
def readOperands (i : ShaderInstruction) : List Operand :=
  match decodeAllOperands i.body 2 with
  | .ok ops => ops
  | .error _ => []

def line (i : ShaderInstruction) : Text := instructionLine i.op.opcode i.readOperands

theorem length_tokens (i : ShaderInstruction) : i.tokens.length = (lengthField i.header).toNat := by
  rw [i.length_eq, tokens, List.length_cons, body, Nat.add_comm]

theorem length_body_lt (i : ShaderInstruction) : i.body.length < 2 ^ 63 := by
  have hlt := (lengthField i.header).isLt
  rw [← i.length_tokens, tokens, List.length_cons] at hlt
  omega

theorem decodeAllOperands_body (i : ShaderInstruction) :
    decodeAllOperands i.body 2 = .ok i.readOperands ∧ i.readOperands.length ≤ 2 := by
  obtain ⟨ops, hops, hle⟩ := exists_drainOperands i.length_body_lt 2 0
  have hread : decodeAllOperands i.body 2 = .ok ops := hops
  rw [readOperands, hread]
  exact ⟨rfl, hle⟩

/-- A `RET` is a comment, a `MOV` of which two operands are read is an assignment, and every other
instruction is reported. -/
theorem line_cases (i : ShaderInstruction) :
    (i.op = .ret ∧ i.line = "    // ret".toList) ∨
      (i.op = .mov ∧ ∃ a b, i.readOperands = [a, b] ∧
        i.line = assignment (renderOperand a) (renderOperand b)) ∨
      i.line = "    // unsupported opcode 0x".toList ++ hexUpper 2 i.op.opcode.toNat := by
  have hle := i.decodeAllOperands_body.2
  unfold line
  generalize i.readOperands = ops at hle
  cases hop : i.op with
  | ret => exact .inl ⟨rfl, rfl⟩
  | mov =>
    rcases ops with - | ⟨a, - | ⟨b, - | ⟨c, ops⟩⟩⟩
    · exact .inr (.inr rfl)
    · exact .inr (.inr rfl)
    · exact .inr (.inl ⟨rfl, a, b, rfl, rfl⟩)
    · simp only [List.length_cons] at hle
      omega
  | add | mul | mad =>
    -- two operands are not enough
    rcases ops with - | ⟨a, - | ⟨b, - | ⟨c, ops⟩⟩⟩
    · exact .inr (.inr rfl)
    · exact .inr (.inr rfl)
    · exact .inr (.inr rfl)
    · simp only [List.length_cons] at hle
      omega

theorem newline_notMem_line (i : ShaderInstruction) : '\n' ∉ i.line := by
  have hplain := plain_renderOperand
  rcases i.line_cases with ⟨-, hline⟩ | ⟨-, a, b, -, hline⟩ | hline
  · rw [hline]
    decide
  · rw [hline]
    exact newline_notMem_assignment (hplain a) (hplain b)
  · have hreport : '\n' ∉ "    // unsupported opcode 0x".toList := by decide
    rw [hline, List.mem_append, not_or]
    exact ⟨hreport, fun h => (plain_hexUpper 2 _ _ h).1 rfl⟩

/-- What the emitter makes of an instruction: its assignment, if it reads two operands of a `MOV`. -/
theorem line_of_reportsUnsupported_eq_false {i : ShaderInstruction}
    (h : reportsUnsupported i.line = false) :
    (i.op = .ret ∧ i.line = "    // ret".toList) ∨
      (i.op = .mov ∧ ∃ a b, i.readOperands = [a, b] ∧
        i.line = assignment (renderOperand a) (renderOperand b)) := by
  rcases i.line_cases with hret | hmov | hline
  · exact .inl hret
  · exact .inr hmov
  · have hreport : ∀ rest : Text,
        reportsUnsupported ("    // unsupported opcode 0x".toList ++ rest) = true := fun _ => rfl
    rw [hline, hreport] at h
    cases h

/-- The instruction is a `RET`, or a `MOV` that is read right. -/
def Faithful (i : ShaderInstruction) : Prop := i.op = .ret ∨ i.op = .mov ∧ i.ReadsOwnOperands

theorem exists_texts_of_mov {i : ShaderInstruction} (hop : i.op = .mov) :
    ∃ dst src, i.texts = [dst, src] ∧ i.statement = some (assignment dst src) := by
  have harity : i.operands.length = 2 := by
    rw [i.arity_eq (by rw [hop]; decide), hop]
    rfl
  obtain ⟨d, s, hds⟩ := List.length_eq_two.mp harity
  have htexts : i.texts = [renderOperand d.operand, renderOperand s.operand] := by
    rw [texts, hds]
    rfl
  refine ⟨_, _, htexts, ?_⟩
  rw [statement, hop, htexts]

theorem statement_of_ret {i : ShaderInstruction} (hop : i.op = .ret) : i.statement = none := by
  rw [statement, hop]

/-- A `MOV` is read right exactly when its line is its assignment. -/
theorem readsOwnOperands_iff {i : ShaderInstruction} :
    i.ReadsOwnOperands ↔ ∃ a b, i.readOperands = [a, b] ∧ [renderOperand a, renderOperand b] = i.texts := by
  have hread := i.decodeAllOperands_body.1
  constructor
  · rintro ⟨o₁, o₂, rest, hbody, htexts⟩
    have htwo := (decodeAllOperands_two i.length_body_lt).mpr ⟨o₁, o₂, rest, hbody, rfl, rfl⟩
    exact ⟨_, _, Except.ok.inj (hread.symm.trans htwo), htexts⟩
  · rintro ⟨a, b, hops, htexts⟩
    rw [hops] at hread
    obtain ⟨o₁, o₂, rest, hbody, rfl, rfl⟩ := (decodeAllOperands_two i.length_body_lt).mp hread
    exact ⟨o₁, o₂, rest, hbody, htexts⟩

/-- Without extension tokens a `MOV` is read right. -/
theorem readsOwnOperands_of_extensions {i : ShaderInstruction} (hop : i.op = .mov) (h : i.extensions = []) :
    i.ReadsOwnOperands := by
  have harity : i.operands.length = 2 := by
    rw [i.arity_eq (by rw [hop]; decide), hop]
    rfl
  obtain ⟨d, s, hds⟩ := List.length_eq_two.mp harity
  refine ⟨d, s, [], ?_, ?_⟩
  · rw [body, h, hds, List.nil_append, List.flatMap_cons, List.flatMap_cons, List.flatMap_nil]
  · rw [texts, hds]
    rfl

/-- The statement of a line, if it is one, is the assignment of an instruction that is read right. -/
theorem Faithful.statement_eq {i : ShaderInstruction} (h : i.Faithful) :
    (if isStatement i.line then some i.line else none) = i.statement ∧
      reportsUnsupported i.line = false := by
  rcases h with hop | ⟨hop, hreads⟩
  · have hline : i.line = "    // ret".toList := by
      rw [line, hop]
      rfl
    rw [statement_of_ret hop, hline]
    exact ⟨rfl, rfl⟩
  · obtain ⟨a, b, hops, htexts⟩ := readsOwnOperands_iff.mp hreads
    obtain ⟨dst, src, hds, hstatement⟩ := exists_texts_of_mov hop
    rw [hds] at htexts
    obtain ⟨hdst, hsrc⟩ := List.cons.inj htexts
    obtain ⟨hsrc, -⟩ := List.cons.inj hsrc
    have hline : i.line = assignment (renderOperand a) (renderOperand b) := by
      rw [line, hops, hop]
      rfl
    have hstmt : isStatement i.line = true := hline ▸ isStatement_assignment a (renderOperand b)
    refine ⟨?_, not_reportsUnsupported_of_isStatement hstmt⟩
    rw [if_pos hstmt, hstatement, hline, hdst, hsrc]

end ShaderInstruction

/-! ### The source of a program -/

section Emission

open InstructionIter

/-- The iterator returns an instruction that stands at the cursor. -/
theorem next_instruction (i : ShaderInstruction) (pre post : List (BitVec 32)) :
    ∃ inst, next ⟨pre ++ (i.tokens ++ post), pre.length⟩ =
        (some (.ok inst), ⟨pre ++ (i.tokens ++ post), pre.length + i.tokens.length⟩) ∧
      inst.opcode = i.op.opcode ∧ inst.tokens = i.tokens := by
  have hhead : (pre ++ (i.tokens ++ post))[pre.length]? = some i.header := by
    simp [ShaderInstruction.tokens]
  have hpos : lengthField i.header ≠ 0 := by
    intro h0
    have hlen := i.length_tokens
    rw [h0, ShaderInstruction.tokens] at hlen
    cases hlen
  have hfits : pre.length + i.tokens.length ≤ (pre ++ (i.tokens ++ post)).length := by
    simp only [List.length_append]
    omega
  have htokens : ((pre ++ (i.tokens ++ post)).drop pre.length).take i.tokens.length = i.tokens := by
    rw [List.drop_left, List.take_left]
  simp only [next, hhead, if_neg hpos, ← i.length_tokens, if_pos hfits, htokens]
  exact ⟨_, rfl, i.opcode_eq, rfl⟩

theorem emitInstruction_eq {i : ShaderInstruction} {inst : Instruction} (hop : inst.opcode = i.op.opcode)
    (htokens : inst.tokens = i.tokens) : emitInstruction inst = .ok (i.line ++ ['\n']) := by
  have hbody : (slice i.tokens 1 (i.tokens.length - 1) : Checked DecodeError _) = .ok i.body := by
    have hlen : i.tokens.length = i.body.length + 1 := rfl
    have htake : (i.tokens.drop 1).take (i.tokens.length - 1) = i.body := by
      rw [hlen, Nat.add_sub_cancel]
      exact List.take_length
    rw [slice, if_pos (by omega), htake]
  unfold emitInstruction
  rw [htokens, hop, hbody, ok_bind, i.decodeAllOperands_body.1]
  rfl

theorem emitInstructions_none {it : InstructionIter} (h : it.next.1 = none) (out : Text) :
    emitInstructions it out = .ok out := by
  rw [emitInstructions]
  split
  · rfl
  case h_2 hnext =>
    rw [hnext] at h
    cases h
  case h_3 hnext =>
    rw [hnext] at h
    cases h

theorem emitInstructions_ok {it it' : InstructionIter} {inst : Instruction} {text : Text}
    (h : it.next = (some (.ok inst), it')) (htext : emitInstruction inst = .ok text) (out : Text) :
    emitInstructions it out = emitInstructions it' (out ++ text) := by
  rw [emitInstructions]
  split
  case h_1 hnext =>
    rw [h] at hnext
    cases hnext
  case h_2 hnext =>
    rw [h] at hnext
    cases hnext
  case h_3 hnext =>
    rw [h] at hnext
    cases hnext
    rw [htext, ok_bind]

/-- The loop pushes the line of each instruction. -/
theorem emitInstructions_eq (is : List ShaderInstruction) (pre : List (BitVec 32)) (out : Text) :
    emitInstructions ⟨pre ++ is.flatMap ShaderInstruction.tokens, pre.length⟩ out =
      .ok (out ++ is.flatMap fun i => i.line ++ ['\n']) := by
  induction is generalizing pre out with
  | nil =>
    have hnone := @next_none pre pre.length (List.drop_length)
    rw [List.flatMap_nil, List.flatMap_nil, List.append_nil, List.append_nil]
    exact emitInstructions_none hnone out
  | cons i is ih =>
    obtain ⟨inst, hnext, hop, htokens⟩ := next_instruction i pre (is.flatMap ShaderInstruction.tokens)
    have hrest := ih (pre ++ i.tokens) (out ++ (i.line ++ ['\n']))
    rw [List.append_assoc, List.length_append] at hrest
    rw [List.flatMap_cons, emitInstructions_ok hnext (emitInstruction_eq hop htokens), hrest,
      List.flatMap_cons, List.append_assoc]

end Emission

namespace ShaderProgram

theorem exists_header (s : ShaderProgram) : ∃ hdr, parseProgramHeader s.tokens = .ok hdr := by
  have hlen : s.total.toNat = s.tokens.length := by
    rw [s.total_eq, tokens, List.length_cons, List.length_cons]
    omega
  have htwo : 2 ≤ s.tokens.length := by
    rw [← hlen, s.total_eq]
    omega
  have hensure : (ensure (2 ≤ s.tokens.length) .headerTooShort : Checked DecodeError Unit) = .ok () :=
    if_pos htwo
  have htotal : (ensure (s.total.toNat = s.tokens.length) (.lengthMismatch s.total s.tokens.length) :
      Checked DecodeError Unit) = .ok () :=
    if_pos hlen
  have hfirst : (index s.tokens 0 : Checked DecodeError _) = .ok s.version := rfl
  have hsecond : (index s.tokens 1 : Checked DecodeError _) = .ok s.total := rfl
  unfold parseProgramHeader
  rw [hensure, ok_bind, hfirst, ok_bind, hsecond, ok_bind, htotal, ok_bind]
  exact ⟨_, rfl⟩

/-- The lines of the instructions, each with its newline. -/
def bodyText (s : ShaderProgram) : Text := s.instructions.flatMap fun i => i.line ++ ['\n']

theorem emitMsl_eq (s : ShaderProgram) {hdr : ShaderProgramHeader}
    (hhdr : parseProgramHeader s.tokens = .ok hdr) :
    emitMsl s.tokens = .ok (preamble hdr ++ s.bodyText ++ closing hdr.programType.stage) := by
  have hnew : InstructionIter.new s.tokens =
      ⟨[s.version, s.total] ++ s.instructions.flatMap ShaderInstruction.tokens,
        [s.version, s.total].length⟩ := by
    have hmin : min s.tokens.length 2 = 2 := Nat.min_eq_right (by
      rw [tokens, List.length_cons, List.length_cons]
      omega)
    rw [InstructionIter.new, hmin]
    rfl
  have hloop := emitInstructions_eq s.instructions [s.version, s.total] (preamble hdr)
  unfold emitMsl
  rw [hhdr, ok_bind, hnew, hloop, ok_bind]
  rfl

theorem lines_bodyText (s : ShaderProgram) : lines s.bodyText = s.instructions.map (·.line) ++ [[]] :=
  lines_flatMap ShaderInstruction.line s.instructions fun i _ => i.newline_notMem_line

theorem statements_bodyText (s : ShaderProgram) : statements s.bodyText =
    s.instructions.filterMap fun i => if isStatement i.line then some i.line else none := by
  have hempty : [([] : Text)].filter isStatement = [] := rfl
  rw [statements, lines_bodyText, List.filter_append, hempty, List.append_nil]
  induction s.instructions with
  | nil => rfl
  | cons i is ih =>
    rw [List.map_cons, List.filterMap_cons, List.filter_cons, ih]
    split_ifs
    · rfl
    · rfl

/-- The body of the source is the lines of the instructions. -/
theorem translated_iff_bodyText (s : ShaderProgram) : s.Translated ↔
    statements s.bodyText = s.instructions.filterMap ShaderInstruction.statement ∧
      ∀ i ∈ s.instructions, reportsUnsupported i.line = false := by
  obtain ⟨hdr, hhdr⟩ := s.exists_header
  have hemit := s.emitMsl_eq hhdr
  have hreports : (∀ line ∈ lines s.bodyText, reportsUnsupported line = false) ↔
      ∀ i ∈ s.instructions, reportsUnsupported i.line = false := by
    have hempty : reportsUnsupported [] = false := rfl
    rw [lines_bodyText, List.forall_mem_append, List.forall_mem_map, List.forall_mem_singleton]
    exact and_iff_left hempty
  constructor
  · rintro ⟨hdr', body, hhdr', hok, hstatements, hlines⟩
    obtain rfl : hdr' = hdr := Except.ok.inj (hhdr'.symm.trans hhdr)
    have htext := Except.ok.inj (hemit.symm.trans hok)
    obtain rfl : s.bodyText = body := List.append_cancel_left (List.append_cancel_right htext)
    exact ⟨hstatements, hreports.mp hlines⟩
  · rintro ⟨hstatements, hlines⟩
    exact ⟨hdr, s.bodyText, hhdr, hemit, hstatements, hreports.mpr hlines⟩

theorem Translated.faithful {s : ShaderProgram} (h : s.Translated) : ∀ i ∈ s.instructions, i.Faithful := by
  obtain ⟨hstatements, hreports⟩ := s.translated_iff_bodyText.mp h
  rw [statements_bodyText] at hstatements
  have hsome : ∀ i ∈ s.instructions,
      (if isStatement i.line then some i.line else none).isSome = i.statement.isSome := by
    intro i hi
    rcases ShaderInstruction.line_of_reportsUnsupported_eq_false (hreports i hi) with
      ⟨hop, hline⟩ | ⟨hop, a, b, -, hline⟩
    · rw [ShaderInstruction.statement_of_ret hop, hline]
      rfl
    · obtain ⟨dst, src, -, hstatement⟩ := ShaderInstruction.exists_texts_of_mov hop
      rw [hstatement, hline, isStatement_assignment]
      rfl
  intro i hi
  rcases ShaderInstruction.line_of_reportsUnsupported_eq_false (hreports i hi) with
    ⟨hop, -⟩ | ⟨hop, a, b, hops, hline⟩
  · exact .inl hop
  · -- the line is the assignment of the instruction, so both sides are
    obtain ⟨dst, src, htexts, hstatement⟩ := ShaderInstruction.exists_texts_of_mov hop
    have heq := eq_of_filterMap_eq hsome hstatements i hi
    rw [hstatement, hline, if_pos (isStatement_assignment a _), Option.some.injEq] at heq
    obtain ⟨hdst, hsrc⟩ := assignment_inj (plain_renderOperand a) (plain_renderOperand b) heq
    refine .inr ⟨hop, ShaderInstruction.readsOwnOperands_iff.mpr ⟨a, b, hops, ?_⟩⟩
    rw [htexts, hdst, hsrc]

theorem translated_of_faithful {s : ShaderProgram} (h : ∀ i ∈ s.instructions, i.Faithful) :
    s.Translated := by
  refine s.translated_iff_bodyText.mpr ⟨?_, fun i hi => (h i hi).statement_eq.2⟩
  rw [statements_bodyText]
  exact List.filterMap_congr fun i hi => (h i hi).statement_eq.1

end ShaderProgram

/-- **Shader translation.**  A program is translated exactly when each of its instructions is a `RET`, or a
`MOV` whose tokens behind the header token begin with two operands that render as its own. -/
theorem translated_iff (s : ShaderProgram) : s.Translated ↔ ∀ i ∈ s.instructions, i.Faithful :=
  ⟨ShaderProgram.Translated.faithful, ShaderProgram.translated_of_faithful⟩

/-- `ADD r0.xyzw, r1.xyzw, r2.xyzw` in a pixel shader. -/
def addProgram : ShaderProgram where
  version := 0x40
  total := 9
  instructions := [{
    op := .add
    header := 0x07000000
    extensions := []
    operands := [
      ⟨0x1000F2, none, [0], by decide, by decide⟩,
      ⟨0x100E46, none, [1], by decide, by decide⟩,
      ⟨0x100E46, none, [2], by decide, by decide⟩]
    opcode_eq := by decide
    extended_eq := by decide
    chained := nofun
    arity_eq := fun _ => rfl
    length_eq := by decide }]
  total_eq := by decide

theorem not_translated : ¬ ∀ s : ShaderProgram, s.Translated := by
  intro h
  rcases (h addProgram).faithful _ (List.mem_singleton_self _) with hop | ⟨hop, -⟩
  · cases hop
  · cases hop

end Quantum.Kernel32.Dxbc
