import Mathlib.Tactic
import CocoIbex.Bits
import CocoIbex.Pkg

/-!
# Instruction Words

The fields of a 32-bit instruction word under the names of the base formats, and the words
assembled from their fields, as the compressed decoder assembles its expansions. Each field of
an assembled word is read back by a simp lemma.

There are three ways to assemble a word: `encR` with two sources and funct7, `encI` with an
immediate in its upper twelve bits, and `encU` with one of twenty bits. The formats with
scattered immediates are these with their fields filled accordingly, so that S and B words are
read by the lemmas of `encR` and J words by those of `encU`. The decoders and the instruction
set both assemble with them, and what one has encoded the other reads back.

## Main results

* `opcodeBits_encR`, `opcodeBits_encI` and `opcodeBits_encU` — the opcode;
* `funct3_encR`, `funct7_encR`, `regD_encR` and the like — the other fields.
-/

namespace CocoIbex

/-! ### Fields -/

/-- `instr[6:0]`. -/
def opcodeBits (i : BitVec 32) : BitVec 7 := i.extractLsb 6 0

/-- `instr[11:7]`, `REG_D`. -/
def regD (i : BitVec 32) : BitVec 5 := i.extractLsb 11 7

/-- `instr[14:12]`. -/
def funct3 (i : BitVec 32) : BitVec 3 := i.extractLsb 14 12

/-- `instr[19:15]`, `REG_S1`. -/
def regS1 (i : BitVec 32) : BitVec 5 := i.extractLsb 19 15

/-- `instr[24:20]`, `REG_S2`. -/
def regS2 (i : BitVec 32) : BitVec 5 := i.extractLsb 24 20

/-- `instr[31:27]`, `REG_S3`. -/
def regS3 (i : BitVec 32) : BitVec 5 := i.extractLsb 31 27

/-- `instr[31:25]`. -/
def funct7 (i : BitVec 32) : BitVec 7 := i.extractLsb 31 25

/-- `instr[31:20]`. -/
def funct12 (i : BitVec 32) : BitVec 12 := i.extractLsb 31 20

/-! ### Assembled words -/

/-- A word of the R or S format, `{funct7, rs2, rs1, funct3, rd, opcode}`. -/
def encR (f7 : BitVec 7) (rs2 rs1 : BitVec 5) (f3 : BitVec 3) (rd : BitVec 5) (o : Opcode) :
    BitVec 32 :=
  f7 ++ rs2 ++ rs1 ++ f3 ++ rd ++ o.bits

/-- A word of the I format, `{imm, rs1, funct3, rd, opcode}`. -/
def encI (imm : BitVec 12) (rs1 : BitVec 5) (f3 : BitVec 3) (rd : BitVec 5) (o : Opcode) :
    BitVec 32 :=
  imm ++ rs1 ++ f3 ++ rd ++ o.bits

/-- A word of the U or J format, `{imm, rd, opcode}`. -/
def encU (imm : BitVec 20) (rd : BitVec 5) (o : Opcode) : BitVec 32 :=
  imm ++ rd ++ o.bits

section

variable (f7 : BitVec 7) (imm : BitVec 12) (immU : BitVec 20) (rs2 rs1 rd : BitVec 5)
  (f3 : BitVec 3) (o : Opcode)

open Bits

/-- The opcode of a word in the R format is the one it is built with; so it is with all fields
below. -/
@[simp] theorem opcodeBits_encR : opcodeBits (encR f7 rs2 rs1 f3 rd o) = o.bits :=
  extract_last _ _

/-- The opcode of a word in the I format. -/
@[simp] theorem opcodeBits_encI : opcodeBits (encI imm rs1 f3 rd o) = o.bits :=
  extract_last _ _

/-- The opcode of a word in the U format. -/
@[simp] theorem opcodeBits_encU : opcodeBits (encU immU rd o) = o.bits :=
  extract_last _ _

/-- The destination of a word in the R format. -/
@[simp] theorem regD_encR : regD (encR f7 rs2 rs1 f3 rd o) = rd :=
  (extract_skip _ o.bits 0 _).trans (extract_last _ _)

/-- The destination of a word in the I format. -/
@[simp] theorem regD_encI : regD (encI imm rs1 f3 rd o) = rd :=
  (extract_skip _ o.bits 0 _).trans (extract_last _ _)

/-- The destination of a word in the U format. -/
@[simp] theorem regD_encU : regD (encU immU rd o) = rd :=
  (extract_skip _ o.bits 0 _).trans (extract_last _ _)

/-- The function code of a word in the R format. -/
@[simp] theorem funct3_encR : funct3 (encR f7 rs2 rs1 f3 rd o) = f3 :=
  (extract_skip _ o.bits _ _).trans <|
    (extract_skip _ rd 0 _).trans (extract_last _ _)

/-- The function code of a word in the I format. -/
@[simp] theorem funct3_encI : funct3 (encI imm rs1 f3 rd o) = f3 :=
  (extract_skip _ o.bits _ _).trans <|
    (extract_skip _ rd 0 _).trans (extract_last _ _)

/-- The first source of a word in the R format. -/
@[simp] theorem regS1_encR : regS1 (encR f7 rs2 rs1 f3 rd o) = rs1 :=
  (extract_skip _ o.bits _ _).trans <|
    (extract_skip _ rd _ _).trans <|
      (extract_skip _ f3 0 _).trans (extract_last _ _)

/-- The first source of a word in the I format. -/
@[simp] theorem regS1_encI : regS1 (encI imm rs1 f3 rd o) = rs1 :=
  (extract_skip _ o.bits _ _).trans <|
    (extract_skip _ rd _ _).trans <|
      (extract_skip _ f3 0 _).trans (extract_last _ _)

/-- The second source of a word in the R format. -/
@[simp] theorem regS2_encR : regS2 (encR f7 rs2 rs1 f3 rd o) = rs2 :=
  (extract_skip _ o.bits _ _).trans <|
    (extract_skip _ rd _ _).trans <|
      (extract_skip _ f3 _ _).trans <|
        (extract_skip _ rs1 0 _).trans (extract_last _ _)

/-- The upper function code of a word in the R format. -/
@[simp] theorem funct7_encR : funct7 (encR f7 rs2 rs1 f3 rd o) = f7 :=
  (extract_skip _ o.bits _ _).trans <|
    (extract_skip _ rd _ _).trans <|
      (extract_skip _ f3 _ _).trans <|
        (extract_skip _ rs1 _ _).trans <|
          (extract_skip _ rs2 0 _).trans (extract_all _)

/-- Where an R word has its upper function code, an I word has the upper bits of its immediate. -/
@[simp] theorem funct7_encI : funct7 (encI imm rs1 f3 rd o) = imm.extractLsb 11 5 :=
  (extract_skip _ o.bits _ _).trans <|
    (extract_skip _ rd _ _).trans <|
      (extract_skip _ f3 _ _).trans (extract_skip _ rs1 5 _)

/-- The immediate of a word in the I format. -/
@[simp] theorem funct12_encI : funct12 (encI imm rs1 f3 rd o) = imm :=
  (extract_skip _ o.bits _ _).trans <|
    (extract_skip _ rd _ _).trans <|
      (extract_skip _ f3 _ _).trans <|
        (extract_skip _ rs1 0 _).trans (extract_all _)

end

end CocoIbex
