import Quantum.Jit.Lifter.Integer
import Quantum.Jit.Lifter.Sse

/-!
# The lifter

`lift` lowers one guest instruction: the dispatch over the operation.  Branches and calls to fixed
targets are not lowered here; the block translator owns them.
-/

namespace Quantum.Jit

open EmitM

def lift (legacy32 : Bool) (inst : Inst) : LiftM Unit :=
  match inst.op with
  | .mov => liftMov inst
  | .movzx => liftMovzxOrMovsx inst false
  | .movsx => liftMovzxOrMovsx inst true
  | .movsxd => liftMovsxd inst
  | .add => liftArith inst .add
  | .sub => liftArith inst .sub
  | .and => liftBitop inst .and
  | .or => liftBitop inst .or
  | .xor => liftXor inst
  | .test => liftTest inst
  | .lea => liftLea inst
  | .cmp => liftCmp inst
  | .inc => liftIncDec inst true
  | .dec => liftIncDec inst false
  | .div => liftDivmul inst .div
  | .idiv => liftDivmul inst .idiv
  | .mul => liftDivmul inst .mul
  | .imul => if inst.operand1 = none then liftDivmul inst .imul1 else liftImulNOperand inst
  | .adc => liftAddc inst true
  | .sbb => liftAddc inst false
  | .neg => liftNeg inst
  | .not => liftNot inst
  | .cdq => liftCdq
  | .cqo => liftCqo
  | .leave => liftLeave
  | .xchg => liftXchg inst
  | .bsr => liftBitscan inst true
  | .bsf => liftBitscan inst false
  | .movqXmm => liftMovqXmm inst
  | .movsdXmm => liftMovsdXmm inst
  | .movssXmm => liftMovssXmm inst
  | .movdqXmm => liftMovdqXmm inst
  | .pxorXmm => liftPackedLogical inst .xor
  | .pandXmm => liftPackedLogical inst .and
  | .porXmm => liftPackedLogical inst .or
  | .addScalar => liftScalarFp inst .add
  | .subScalar => liftScalarFp inst .sub
  | .mulScalar => liftScalarFp inst .mul
  | .divScalar => liftScalarFp inst .div
  | .cvtIntToScalar => liftCvtIntToScalar inst
  | .cvtScalarToInt => liftCvtScalarToInt inst false
  | .cvtScalarToIntTrunc => liftCvtScalarToInt inst true
  | .cvtSsToSd => liftCvtPrecision inst true
  | .cvtSdToSs => liftCvtPrecision inst false
  | .ucomisScalar => liftUcomis inst
  | .minScalar => liftScalarFp inst .min
  | .maxScalar => liftScalarFp inst .max
  | .sqrtScalar => liftSqrtScalar inst
  | .cmpxchg => liftCmpxchg inst
  | .xadd => liftXadd inst
  | .cpuid => liftCpuid
  | .rdtsc => liftRdtsc
  | .bswap => liftBswap inst
  | .paddQ => liftPackedArith inst .addQ
  | .psubQ => liftPackedArith inst .subQ
  | .paddD => liftPackedArith inst .addD
  | .psubD => liftPackedArith inst .subD
  | .paddW => liftPackedArith inst .addW
  | .psubW => liftPackedArith inst .subW
  | .paddB => liftPackedArith inst .addB
  | .psubB => liftPackedArith inst .subB
  | .addPacked => liftPackedFp inst .add
  | .subPacked => liftPackedFp inst .sub
  | .mulPacked => liftPackedFp inst .mul
  | .divPacked => liftPackedFp inst .div
  | .pcmpeqLane lane => liftPcmpeq inst lane
  | .psllImm lane => liftPshiftImm inst lane .sll
  | .psrlImm lane => liftPshiftImm inst lane .srl
  | .psraImm lane => liftPshiftImm inst lane .sra
  | .pshufD => liftPshufd inst
  | .pmullW => liftPmullw inst
  | .pslldqImm => liftPshiftDq inst true
  | .psrldqImm => liftPshiftDq inst false
  | .punpckLow lane => liftPunpck inst lane false
  | .punpckHigh lane => liftPunpck inst lane true
  | .pmovmskB => liftPmovmskb inst
  | .shl => liftShift inst .left
  | .shr => liftShift inst .right
  | .sar => liftShift inst .arithRight
  | .rol => liftRotate inst true
  | .ror => liftRotate inst false
  | .cmov cond => liftCmov inst cond
  | .set cond => liftSet inst cond
  | .push => liftPush inst
  | .pop => liftPop inst
  | .callIndirect => liftCallIndirect legacy32 inst
  | .ret => ret
  | .nop => nop
  | .int3 => brk 0
  | .ud2 => brk 0
  | .movs => liftMovs inst
  | .stos => liftStos inst
  | .unhandled => EmitM.fail .unhandled
  | op => unsupported op

end Quantum.Jit
