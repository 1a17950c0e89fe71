import Quantum.Kernel32.Instructions
import Quantum.Kernel32.Operands

/-!
# Metal source for shaders

`emit_msl`: one line of Metal source for each instruction of a token stream, between a preamble and a closing
that depend on the stage.  A `String` is the list of its characters.
-/

namespace Quantum.Kernel32.Dxbc

abbrev Text := List Char

/-- `{}` of a number. -/
def decimal (n : ℕ) : Text := Nat.toDigits 10 n

/-- `{:0widthX}` of a number. -/
def hexUpper (width n : ℕ) : Text := ((Nat.toDigits 16 n).map Char.toUpper).leftpad width '0'

/-! ### The program header -/

inductive ProgramType where
  | pixel
  | vertex
  | geometry
  | hull
  | domain
  | compute
  | unknown (w : BitVec 16)
  deriving DecidableEq

def ProgramType.fromWord (w : BitVec 16) : ProgramType :=
  match w with
  | 0 => .pixel
  | 1 => .vertex
  | 2 => .geometry
  | 3 => .hull
  | 4 => .domain
  | 5 => .compute
  | other => .unknown other

/-- `{:?}` of a program type. -/
def ProgramType.debug : ProgramType → Text
  | .pixel => "Pixel".toList
  | .vertex => "Vertex".toList
  | .geometry => "Geometry".toList
  | .hull => "Hull".toList
  | .domain => "Domain".toList
  | .compute => "Compute".toList
  | .unknown w => "Unknown(".toList ++ decimal w.toNat ++ ")".toList

structure ShaderProgramHeader where
  major : BitVec 8
  minor : BitVec 8
  programType : ProgramType
  totalTokens : BitVec 32
  deriving DecidableEq

/-- `parse_program_header`. -/
def parseProgramHeader (tokens : List (BitVec 32)) : Checked DecodeError ShaderProgramHeader := do
  Checked.ensure (2 ≤ tokens.length) .headerTooShort
  let vt ← Checked.index tokens 0
  let totalTokens ← Checked.index tokens 1
  Checked.ensure (totalTokens.toNat = tokens.length) (.lengthMismatch totalTokens tokens.length)
  return {
    major := (vt >>> 4 &&& 0x0F).setWidth 8
    minor := (vt &&& 0x0F).setWidth 8
    programType := ProgramType.fromWord ((vt >>> 16 &&& 0xFFFF).setWidth 16)
    totalTokens }

inductive Stage where
  | vertex
  | fragment
  | compute
  deriving DecidableEq

def ProgramType.stage : ProgramType → Stage
  | .vertex | .geometry | .hull | .domain => .vertex
  | .pixel => .fragment
  | .compute | .unknown _ => .compute

/-! ### Operands -/

def compChar (c : BitVec 8) : Char :=
  match c &&& 0b11 with
  | 0 => 'x'
  | 1 => 'y'
  | 2 => 'z'
  | _ => 'w'

def selectSuffix : ComponentSelect → Text
  | .none => []
  | .mask m =>
    let out := '.' :: ['x', 'y', 'z', 'w'].zipIdx.filterMap fun (ch, i) =>
      if m &&& 1 <<< i != 0 then some ch else none
    if out = ['.'] then [] else out
  | .swizzle lanes => '.' :: lanes.toList.map compChar
  | .select1 c => ['.', compChar c]

/-- `as_type<float>(uint(0x{:08X}))`. -/
def asFloat (w : BitVec 32) : Text :=
  "as_type<float>(uint(0x".toList ++ hexUpper 8 w.toNat ++ "))".toList

/-- A register: its letter, its index and its components. -/
def renderRegister (letter : Char) (op : Operand) : Text :=
  letter :: (decimal op.index0.toNat ++ selectSuffix op.selection)

theorem immWords_pos : 0 < 4 := by
  decide

/-- `op.imm[0]`. -/
def Operand.imm0 (op : Operand) : BitVec 32 :=
  op.imm.get ⟨0, immWords_pos⟩

/-- `render_operand`. -/
def renderOperand (op : Operand) : Text :=
  match op.opType with
  | .temp => renderRegister 'r' op
  | .input => renderRegister 'v' op
  | .output => renderRegister 'o' op
  | .immediate32 =>
    match op.immLen with
    | 1 => "float(".toList ++ asFloat op.imm0 ++ ")".toList
    | 4 =>
      "float4(".toList ++ asFloat op.imm0 ++ ", ".toList ++ asFloat op.imm[1] ++ ", ".toList ++
        asFloat op.imm[2] ++ ", ".toList ++ asFloat op.imm[3] ++ ")".toList
    | _ => "/* imm-malformed */ 0.0".toList
  | .constantBuffer =>
    "cb".toList ++ decimal op.index0.toNat ++ "[".toList ++ decimal op.imm0.toNat ++ "]".toList ++
      selectSuffix op.selection
  | .sampler => renderRegister 's' op
  | .resource => renderRegister 't' op
  | .indexableTemp => renderRegister 'x' op
  | .nullObject => "/* null-object */ 0.0".toList
  | .unknown raw => "/* TODO operand Unknown(".toList ++ decimal raw.toNat ++ ") */ 0.0".toList

/-- `decode_all_operands` from a cursor on, with `n` operands still to come. -/
def drainOperands (body : List (BitVec 32)) : ℕ → BitVec 64 → Checked DecodeError (List Operand)
  | 0, _ => return []
  | n + 1, cursor =>
    match decodeOperand body cursor with
    | .ok (op, next) => do
      let ops ← drainOperands body n next
      return op :: ops
    | .error (.err ()) => return []
    | .error .panicked => .error .panicked

/-- `decode_all_operands`. -/
def decodeAllOperands (body : List (BitVec 32)) (max : ℕ) : Checked DecodeError (List Operand) :=
  drainOperands body max 0

/-! ### Instructions -/

namespace Opcode

@[match_pattern] def ADD : BitVec 16 := 0x00
@[match_pattern] def MAD : BitVec 16 := 0x32
@[match_pattern] def MOV : BitVec 16 := 0x36
@[match_pattern] def MUL : BitVec 16 := 0x38
@[match_pattern] def RET : BitVec 16 := 0x3E

end Opcode

/-- `    {dst} = {value};`. -/
def assignment (dst value : Text) : Text :=
  "    ".toList ++ dst ++ " = ".toList ++ value ++ ";".toList

/-- The line of an instruction, without its newline. -/
def instructionLine (opcode : BitVec 16) (ops : List Operand) : Text :=
  match opcode, ops with
  | Opcode.MOV, [dst, src] => assignment (renderOperand dst) (renderOperand src)
  | Opcode.ADD, [dst, a, b] =>
    assignment (renderOperand dst) (renderOperand a ++ " + ".toList ++ renderOperand b)
  | Opcode.MUL, [dst, a, b] =>
    assignment (renderOperand dst) (renderOperand a ++ " * ".toList ++ renderOperand b)
  | Opcode.MAD, [dst, a, b, c] =>
    assignment (renderOperand dst) ("fma(".toList ++ renderOperand a ++ ", ".toList ++ renderOperand b ++
      ", ".toList ++ renderOperand c ++ ")".toList)
  | Opcode.RET, _ => "    // ret".toList
  | other, _ => "    // unsupported opcode 0x".toList ++ hexUpper 2 other.toNat

/-- What the loop in `emit_msl` pushes for an instruction. -/
def emitInstruction (inst : Instruction) : Checked DecodeError Text := do
  let body ← Checked.slice inst.tokens 1 (inst.tokens.length - 1)
  let ops ← decodeAllOperands body 2
  return instructionLine inst.opcode ops ++ "\n".toList

/-! ### The source -/

/-- What stands in front of the instructions. -/
def preamble (hdr : ShaderProgramHeader) : Text :=
  "// generated by quantum-kernel32::dxbc::emit_msl\n".toList ++
    "// shader major=".toList ++ decimal hdr.major.toNat ++ " minor=".toList ++ decimal hdr.minor.toNat ++
    " type=".toList ++ hdr.programType.debug ++ "\n".toList ++
    "#include <metal_stdlib>\nusing namespace metal;\n\n".toList ++
    (match hdr.programType.stage with
      | .vertex =>
        "struct VsOut \x7b float4 pos [[position]]; \x7d;\n\n".toList ++
          "vertex VsOut main_vs() \x7b\n".toList
      | .fragment => "fragment float4 main_ps() \x7b\n".toList
      | .compute => "kernel void main_cs() \x7b\n".toList) ++
    "    float4 r0 = float4(0);\n".toList ++ "    float4 r1 = float4(0);\n".toList ++
    "    float4 r2 = float4(0);\n".toList ++ "    float4 r3 = float4(0);\n".toList

/-- What stands behind the instructions. -/
def closing (stage : Stage) : Text :=
  (match stage with
    | .vertex => "    VsOut _o; _o.pos = r0; return _o;\n".toList
    | .fragment => "    return r0;\n".toList
    | .compute => []) ++ "\x7d\n".toList

/-- The iterator advances past an instruction that it returns. -/
theorem InstructionIter.cursor_lt_of_next {it it' : InstructionIter} {inst : Instruction}
    (h : it.next = (some (.ok inst), it')) :
    it'.body = it.body ∧ it.cursor < it'.cursor ∧ it'.cursor ≤ it.body.length := by
  unfold InstructionIter.next at h
  split at h
  · cases h
  · dsimp only at h
    split_ifs at h with hzero hfits
    · cases h
    · obtain ⟨-, rfl⟩ := Prod.mk.inj h
      have hpos : (lengthField _).toNat ≠ 0 := fun h0 => hzero (BitVec.eq_of_toNat_eq h0)
      exact ⟨rfl, Nat.lt_add_of_pos_right (Nat.pos_of_ne_zero hpos), hfits⟩
    · cases h

/-- The loop in `emit_msl`. -/
def emitInstructions (it : InstructionIter) (out : Text) : Checked DecodeError Text :=
  match _h : it.next with
  | (none, _) => .ok out
  | (some (.error e), _) => Checked.fail e
  | (some (.ok inst), it') => do
    let text ← emitInstruction inst
    emitInstructions it' (out ++ text)
  termination_by it.body.length - it.cursor
  decreasing_by
    obtain ⟨hbody, hlt, hle⟩ := InstructionIter.cursor_lt_of_next _h
    rw [hbody]
    omega

/-- `emit_msl`. -/
def emitMsl (tokens : List (BitVec 32)) : Checked DecodeError Text := do
  let hdr ← parseProgramHeader tokens
  let out ← emitInstructions (.new tokens) (preamble hdr)
  return out ++ closing hdr.programType.stage

end Quantum.Kernel32.Dxbc
