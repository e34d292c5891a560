/-!
# Instructions

An opcode byte stands for a mnemonic, an addressing mode and a cost. All 256
bytes are decoded. The undocumented ones have their real length and cost and
do nothing else.
-/

namespace Famicom.Cpu

inductive Mode where
  | absolute
  | absoluteX
  | absoluteY
  | accumulator
  | immediate
  | implied
  | indexedIndirect
  | indirect
  | indirectIndexed
  | relative
  | zeroPage
  | zeroPageX
  | zeroPageY
deriving DecidableEq, Repr

/-- The length in bytes of an instruction in this mode, opcode included. -/
def Mode.size : Mode → UInt16
  | implied | accumulator => 1
  | immediate | zeroPage | zeroPageX | zeroPageY | indexedIndirect | indirectIndexed
  | relative => 2
  | absolute | absoluteX | absoluteY | indirect => 3

/-- The mnemonics, first the documented ones and then the others. -/
inductive Mnemonic where
  | adc | and | asl | bcc | bcs | beq | bit | bmi | bne | bpl | brk | bvc | bvs | clc
  | cld | cli | clv | cmp | cpx | cpy | dec | dex | dey | eor | inc | inx | iny | jmp
  | jsr | lda | ldx | ldy | lsr | nop | ora | pha | php | pla | plp | rol | ror | rti
  | rts | sbc | sec | sed | sei | sta | stx | sty | tax | tay | tsx | txa | txs | tya
  | ahx | alr | anc | arr | axs | dcp | isc | kil | las | lax | rla | rra | sax | shx
  | shy | slo | sre | tas | xaa
deriving DecidableEq, Repr

namespace Mnemonic

def undocumented : Mnemonic → Bool
  | ahx | alr | anc | arr | axs | dcp | isc | kil | las | lax | rla | rra | sax | shx
  | shy | slo | sre | tas | xaa => true
  | _ => false

def letters : Mnemonic → String
  | adc => "ADC" | and => "AND" | asl => "ASL" | bcc => "BCC" | bcs => "BCS"
  | beq => "BEQ" | bit => "BIT" | bmi => "BMI" | bne => "BNE" | bpl => "BPL"
  | brk => "BRK" | bvc => "BVC" | bvs => "BVS" | clc => "CLC" | cld => "CLD"
  | cli => "CLI" | clv => "CLV" | cmp => "CMP" | cpx => "CPX" | cpy => "CPY"
  | dec => "DEC" | dex => "DEX" | dey => "DEY" | eor => "EOR" | inc => "INC"
  | inx => "INX" | iny => "INY" | jmp => "JMP" | jsr => "JSR" | lda => "LDA"
  | ldx => "LDX" | ldy => "LDY" | lsr => "LSR" | nop => "NOP" | ora => "ORA"
  | pha => "PHA" | php => "PHP" | pla => "PLA" | plp => "PLP" | rol => "ROL"
  | ror => "ROR" | rti => "RTI" | rts => "RTS" | sbc => "SBC" | sec => "SEC"
  | sed => "SED" | sei => "SEI" | sta => "STA" | stx => "STX" | sty => "STY"
  | tax => "TAX" | tay => "TAY" | tsx => "TSX" | txa => "TXA" | txs => "TXS"
  | tya => "TYA" | ahx => "AHX" | alr => "ALR" | anc => "ANC" | arr => "ARR"
  | axs => "AXS" | dcp => "DCP" | isc => "ISC" | kil => "KIL" | las => "LAS"
  | lax => "LAX" | rla => "RLA" | rra => "RRA" | sax => "SAX" | shx => "SHX"
  | shy => "SHY" | slo => "SLO" | sre => "SRE" | tas => "TAS" | xaa => "XAA"

end Mnemonic

structure Instruction where
  mnemonic : Mnemonic
  mode : Mode
  cycles : UInt8
  /-- Additional cost when indexing leaves the page of the base address. -/
  pageCycles : UInt8
deriving DecidableEq, Repr

/-- The number of bytes to the next instruction. A break skips one byte of
padding behind its opcode. -/
def Instruction.size (i : Instruction) : UInt16 :=
  match i.mnemonic with
  | .brk => 2
  | _ => i.mode.size

end Famicom.Cpu
