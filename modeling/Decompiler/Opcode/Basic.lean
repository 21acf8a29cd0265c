/-!
Instruction codes of the virtual machine, and pseudo codes that stand for labels and stack-map frames
in an instruction history.
-/

namespace Decompiler

/-- An instruction code or pseudo code, named by its mnemonic; `vreturn` is the return without a
value. -/
inductive Opcode where
  | nop | aconst_null | iconst_m1 | iconst_0 | iconst_1 | iconst_2 | iconst_3 | iconst_4
  | iconst_5 | lconst_0 | lconst_1 | fconst_0 | fconst_1 | fconst_2 | dconst_0 | dconst_1
  | bipush | sipush | ldc | iload | lload | fload | dload | aload | iaload | laload | faload
  | daload | aaload | baload | caload | saload | istore | lstore | fstore | dstore | astore
  | iastore | lastore | fastore | dastore | aastore | bastore | castore | sastore | pop | pop2
  | dup | dup_x1 | dup_x2 | dup2 | dup2_x1 | dup2_x2 | swap | iadd | ladd | fadd | dadd | isub
  | lsub | fsub | dsub | imul | lmul | fmul | dmul | idiv | ldiv | fdiv | ddiv | irem | lrem
  | frem | drem | ineg | lneg | fneg | dneg | ishl | lshl | ishr | lshr | iushr | lushr | iand
  | land | ior | lor | ixor | lxor | iinc | i2l | i2f | i2d | l2i | l2f | l2d | f2i | f2l | f2d
  | d2i | d2l | d2f | i2b | i2c | i2s | lcmp | fcmpl | fcmpg | dcmpl | dcmpg | ifeq | ifne
  | iflt | ifge | ifgt | ifle | if_icmpeq | if_icmpne | if_icmplt | if_icmpge | if_icmpgt
  | if_icmple | if_acmpeq | if_acmpne | goto | jsr | ret | tableswitch | lookupswitch | ireturn
  | lreturn | freturn | dreturn | areturn | vreturn | getstatic | putstatic | getfield
  | putfield | invokevirtual | invokespecial | invokestatic | invokeinterface | invokedynamic
  | new | newarray | anewarray | arraylength | athrow | checkcast | instanceof | monitorenter
  | monitorexit | multianewarray | ifnull | ifnonnull
  | label | frame_new | frame_full | frame_append | frame_chop | frame_same | frame_same1
  deriving DecidableEq, Inhabited

namespace Opcode

/-- Every code, in increasing order of its number. -/
def all : List Opcode := [
  .nop, .aconst_null, .iconst_m1, .iconst_0, .iconst_1, .iconst_2, .iconst_3, .iconst_4,
  .iconst_5, .lconst_0, .lconst_1, .fconst_0, .fconst_1, .fconst_2, .dconst_0, .dconst_1,
  .bipush, .sipush, .ldc, .iload, .lload, .fload, .dload, .aload, .iaload, .laload, .faload,
  .daload, .aaload, .baload, .caload, .saload, .istore, .lstore, .fstore, .dstore, .astore,
  .iastore, .lastore, .fastore, .dastore, .aastore, .bastore, .castore, .sastore, .pop, .pop2,
  .dup, .dup_x1, .dup_x2, .dup2, .dup2_x1, .dup2_x2, .swap, .iadd, .ladd, .fadd, .dadd, .isub,
  .lsub, .fsub, .dsub, .imul, .lmul, .fmul, .dmul, .idiv, .ldiv, .fdiv, .ddiv, .irem, .lrem,
  .frem, .drem, .ineg, .lneg, .fneg, .dneg, .ishl, .lshl, .ishr, .lshr, .iushr, .lushr, .iand,
  .land, .ior, .lor, .ixor, .lxor, .iinc, .i2l, .i2f, .i2d, .l2i, .l2f, .l2d, .f2i, .f2l, .f2d,
  .d2i, .d2l, .d2f, .i2b, .i2c, .i2s, .lcmp, .fcmpl, .fcmpg, .dcmpl, .dcmpg, .ifeq, .ifne,
  .iflt, .ifge, .ifgt, .ifle, .if_icmpeq, .if_icmpne, .if_icmplt, .if_icmpge, .if_icmpgt,
  .if_icmple, .if_acmpeq, .if_acmpne, .goto, .jsr, .ret, .tableswitch, .lookupswitch, .ireturn,
  .lreturn, .freturn, .dreturn, .areturn, .vreturn, .getstatic, .putstatic, .getfield,
  .putfield, .invokevirtual, .invokespecial, .invokestatic, .invokeinterface, .invokedynamic,
  .new, .newarray, .anewarray, .arraylength, .athrow, .checkcast, .instanceof, .monitorenter,
  .monitorexit, .multianewarray, .ifnull, .ifnonnull, .label, .frame_new, .frame_full,
  .frame_append, .frame_chop, .frame_same, .frame_same1]

/-- The number of a code. Pseudo codes are numbered from 300. -/
def code : Opcode → Nat
  | .nop => 0
  | .aconst_null => 1
  | .iconst_m1 => 2
  | .iconst_0 => 3
  | .iconst_1 => 4
  | .iconst_2 => 5
  | .iconst_3 => 6
  | .iconst_4 => 7
  | .iconst_5 => 8
  | .lconst_0 => 9
  | .lconst_1 => 10
  | .fconst_0 => 11
  | .fconst_1 => 12
  | .fconst_2 => 13
  | .dconst_0 => 14
  | .dconst_1 => 15
  | .bipush => 16
  | .sipush => 17
  | .ldc => 18
  | .iload => 21
  | .lload => 22
  | .fload => 23
  | .dload => 24
  | .aload => 25
  | .iaload => 46
  | .laload => 47
  | .faload => 48
  | .daload => 49
  | .aaload => 50
  | .baload => 51
  | .caload => 52
  | .saload => 53
  | .istore => 54
  | .lstore => 55
  | .fstore => 56
  | .dstore => 57
  | .astore => 58
  | .iastore => 79
  | .lastore => 80
  | .fastore => 81
  | .dastore => 82
  | .aastore => 83
  | .bastore => 84
  | .castore => 85
  | .sastore => 86
  | .pop => 87
  | .pop2 => 88
  | .dup => 89
  | .dup_x1 => 90
  | .dup_x2 => 91
  | .dup2 => 92
  | .dup2_x1 => 93
  | .dup2_x2 => 94
  | .swap => 95
  | .iadd => 96
  | .ladd => 97
  | .fadd => 98
  | .dadd => 99
  | .isub => 100
  | .lsub => 101
  | .fsub => 102
  | .dsub => 103
  | .imul => 104
  | .lmul => 105
  | .fmul => 106
  | .dmul => 107
  | .idiv => 108
  | .ldiv => 109
  | .fdiv => 110
  | .ddiv => 111
  | .irem => 112
  | .lrem => 113
  | .frem => 114
  | .drem => 115
  | .ineg => 116
  | .lneg => 117
  | .fneg => 118
  | .dneg => 119
  | .ishl => 120
  | .lshl => 121
  | .ishr => 122
  | .lshr => 123
  | .iushr => 124
  | .lushr => 125
  | .iand => 126
  | .land => 127
  | .ior => 128
  | .lor => 129
  | .ixor => 130
  | .lxor => 131
  | .iinc => 132
  | .i2l => 133
  | .i2f => 134
  | .i2d => 135
  | .l2i => 136
  | .l2f => 137
  | .l2d => 138
  | .f2i => 139
  | .f2l => 140
  | .f2d => 141
  | .d2i => 142
  | .d2l => 143
  | .d2f => 144
  | .i2b => 145
  | .i2c => 146
  | .i2s => 147
  | .lcmp => 148
  | .fcmpl => 149
  | .fcmpg => 150
  | .dcmpl => 151
  | .dcmpg => 152
  | .ifeq => 153
  | .ifne => 154
  | .iflt => 155
  | .ifge => 156
  | .ifgt => 157
  | .ifle => 158
  | .if_icmpeq => 159
  | .if_icmpne => 160
  | .if_icmplt => 161
  | .if_icmpge => 162
  | .if_icmpgt => 163
  | .if_icmple => 164
  | .if_acmpeq => 165
  | .if_acmpne => 166
  | .goto => 167
  | .jsr => 168
  | .ret => 169
  | .tableswitch => 170
  | .lookupswitch => 171
  | .ireturn => 172
  | .lreturn => 173
  | .freturn => 174
  | .dreturn => 175
  | .areturn => 176
  | .vreturn => 177
  | .getstatic => 178
  | .putstatic => 179
  | .getfield => 180
  | .putfield => 181
  | .invokevirtual => 182
  | .invokespecial => 183
  | .invokestatic => 184
  | .invokeinterface => 185
  | .invokedynamic => 186
  | .new => 187
  | .newarray => 188
  | .anewarray => 189
  | .arraylength => 190
  | .athrow => 191
  | .checkcast => 192
  | .instanceof => 193
  | .monitorenter => 194
  | .monitorexit => 195
  | .multianewarray => 197
  | .ifnull => 198
  | .ifnonnull => 199
  | .label => 300
  | .frame_new => 301
  | .frame_full => 302
  | .frame_append => 303
  | .frame_chop => 304
  | .frame_same => 305
  | .frame_same1 => 306

def mnemonic : Opcode → String
  | .nop => "NOP"
  | .aconst_null => "ACONST_NULL"
  | .iconst_m1 => "ICONST_M1"
  | .iconst_0 => "ICONST_0"
  | .iconst_1 => "ICONST_1"
  | .iconst_2 => "ICONST_2"
  | .iconst_3 => "ICONST_3"
  | .iconst_4 => "ICONST_4"
  | .iconst_5 => "ICONST_5"
  | .lconst_0 => "LCONST_0"
  | .lconst_1 => "LCONST_1"
  | .fconst_0 => "FCONST_0"
  | .fconst_1 => "FCONST_1"
  | .fconst_2 => "FCONST_2"
  | .dconst_0 => "DCONST_0"
  | .dconst_1 => "DCONST_1"
  | .bipush => "BIPUSH"
  | .sipush => "SIPUSH"
  | .ldc => "LDC"
  | .iload => "ILOAD"
  | .lload => "LLOAD"
  | .fload => "FLOAD"
  | .dload => "DLOAD"
  | .aload => "ALOAD"
  | .iaload => "IALOAD"
  | .laload => "LALOAD"
  | .faload => "FALOAD"
  | .daload => "DALOAD"
  | .aaload => "AALOAD"
  | .baload => "BALOAD"
  | .caload => "CALOAD"
  | .saload => "SALOAD"
  | .istore => "ISTORE"
  | .lstore => "LSTORE"
  | .fstore => "FSTORE"
  | .dstore => "DSTORE"
  | .astore => "ASTORE"
  | .iastore => "IASTORE"
  | .lastore => "LASTORE"
  | .fastore => "FASTORE"
  | .dastore => "DASTORE"
  | .aastore => "AASTORE"
  | .bastore => "BASTORE"
  | .castore => "CASTORE"
  | .sastore => "SASTORE"
  | .pop => "POP"
  | .pop2 => "POP2"
  | .dup => "DUP"
  | .dup_x1 => "DUP_X1"
  | .dup_x2 => "DUP_X2"
  | .dup2 => "DUP2"
  | .dup2_x1 => "DUP2_X1"
  | .dup2_x2 => "DUP2_X2"
  | .swap => "SWAP"
  | .iadd => "IADD"
  | .ladd => "LADD"
  | .fadd => "FADD"
  | .dadd => "DADD"
  | .isub => "ISUB"
  | .lsub => "LSUB"
  | .fsub => "FSUB"
  | .dsub => "DSUB"
  | .imul => "IMUL"
  | .lmul => "LMUL"
  | .fmul => "FMUL"
  | .dmul => "DMUL"
  | .idiv => "IDIV"
  | .ldiv => "LDIV"
  | .fdiv => "FDIV"
  | .ddiv => "DDIV"
  | .irem => "IREM"
  | .lrem => "LREM"
  | .frem => "FREM"
  | .drem => "DREM"
  | .ineg => "INEG"
  | .lneg => "LNEG"
  | .fneg => "FNEG"
  | .dneg => "DNEG"
  | .ishl => "ISHL"
  | .lshl => "LSHL"
  | .ishr => "ISHR"
  | .lshr => "LSHR"
  | .iushr => "IUSHR"
  | .lushr => "LUSHR"
  | .iand => "IAND"
  | .land => "LAND"
  | .ior => "IOR"
  | .lor => "LOR"
  | .ixor => "IXOR"
  | .lxor => "LXOR"
  | .iinc => "IINC"
  | .i2l => "I2L"
  | .i2f => "I2F"
  | .i2d => "I2D"
  | .l2i => "L2I"
  | .l2f => "L2F"
  | .l2d => "L2D"
  | .f2i => "F2I"
  | .f2l => "F2L"
  | .f2d => "F2D"
  | .d2i => "D2I"
  | .d2l => "D2L"
  | .d2f => "D2F"
  | .i2b => "I2B"
  | .i2c => "I2C"
  | .i2s => "I2S"
  | .lcmp => "LCMP"
  | .fcmpl => "FCMPL"
  | .fcmpg => "FCMPG"
  | .dcmpl => "DCMPL"
  | .dcmpg => "DCMPG"
  | .ifeq => "IFEQ"
  | .ifne => "IFNE"
  | .iflt => "IFLT"
  | .ifge => "IFGE"
  | .ifgt => "IFGT"
  | .ifle => "IFLE"
  | .if_icmpeq => "IF_ICMPEQ"
  | .if_icmpne => "IF_ICMPNE"
  | .if_icmplt => "IF_ICMPLT"
  | .if_icmpge => "IF_ICMPGE"
  | .if_icmpgt => "IF_ICMPGT"
  | .if_icmple => "IF_ICMPLE"
  | .if_acmpeq => "IF_ACMPEQ"
  | .if_acmpne => "IF_ACMPNE"
  | .goto => "GOTO"
  | .jsr => "JSR"
  | .ret => "RET"
  | .tableswitch => "TABLESWITCH"
  | .lookupswitch => "LOOKUPSWITCH"
  | .ireturn => "IRETURN"
  | .lreturn => "LRETURN"
  | .freturn => "FRETURN"
  | .dreturn => "DRETURN"
  | .areturn => "ARETURN"
  | .vreturn => "RETURN"
  | .getstatic => "GETSTATIC"
  | .putstatic => "PUTSTATIC"
  | .getfield => "GETFIELD"
  | .putfield => "PUTFIELD"
  | .invokevirtual => "INVOKEVIRTUAL"
  | .invokespecial => "INVOKESPECIAL"
  | .invokestatic => "INVOKESTATIC"
  | .invokeinterface => "INVOKEINTERFACE"
  | .invokedynamic => "INVOKEDYNAMIC"
  | .new => "NEW"
  | .newarray => "NEWARRAY"
  | .anewarray => "ANEWARRAY"
  | .arraylength => "ARRAYLENGTH"
  | .athrow => "ATHROW"
  | .checkcast => "CHECKCAST"
  | .instanceof => "INSTANCEOF"
  | .monitorenter => "MONITORENTER"
  | .monitorexit => "MONITOREXIT"
  | .multianewarray => "MULTIANEWARRAY"
  | .ifnull => "IFNULL"
  | .ifnonnull => "IFNONNULL"
  | .label => "LABEL"
  | .frame_new => "FRAME_NEW"
  | .frame_full => "FRAME_FULL"
  | .frame_append => "FRAME_APPEND"
  | .frame_chop => "FRAME_CHOP"
  | .frame_same => "FRAME_SAME"
  | .frame_same1 => "FRAME_SAME1"

def ofCode? (code : Nat) : Option Opcode := all.find? (·.code == code)

/-- The code with a mnemonic, written in letters of either case. Only ASCII letters have two cases
here. -/
def ofMnemonic? (name : String) : Option Opcode :=
  let upper := String.ofList (name.toList.map Char.toUpper)
  all.find? (·.mnemonic == upper)

/-- The text of a number in diagnostics. -/
def textOfCode (code : Nat) : String :=
  match ofCode? code with
  | some op => op.mnemonic
  | none => "OP_" ++ toString code

/-- The mnemonic of a number, or a placeholder. -/
def mnemonicOfCode (code : Nat) : String :=
  match ofCode? code with
  | some op => op.mnemonic
  | none => "UNKNOWN"

def isReturn : Opcode → Bool
  | .ireturn | .lreturn | .freturn | .dreturn | .areturn | .vreturn => true
  | _ => false

/-- A comparison of one value against zero or null. -/
def isUnaryJump : Opcode → Bool
  | .ifeq | .ifne | .iflt | .ifge | .ifgt | .ifle | .ifnull | .ifnonnull => true
  | _ => false

/-- A comparison of two values. -/
def isBinaryJump : Opcode → Bool
  | .if_icmpeq | .if_icmpne | .if_icmplt | .if_icmpge | .if_icmpgt | .if_icmple | .if_acmpeq
  | .if_acmpne => true
  | _ => false

def isConditionalJump (op : Opcode) : Bool := op.isUnaryJump || op.isBinaryJump

def isJump (op : Opcode) : Bool := op.isConditionalJump || op == .goto

def isInvoke : Opcode → Bool
  | .invokevirtual | .invokespecial | .invokestatic | .invokeinterface | .invokedynamic => true
  | _ => false

def isLoad : Opcode → Bool
  | .iload | .lload | .fload | .dload | .aload => true
  | _ => false

def isStore : Opcode → Bool
  | .istore | .lstore | .fstore | .dstore | .astore => true
  | _ => false

def isArrayLoad : Opcode → Bool
  | .iaload | .laload | .faload | .daload | .aaload | .baload | .caload | .saload => true
  | _ => false

def isArrayStore : Opcode → Bool
  | .iastore | .lastore | .fastore | .dastore | .aastore | .bastore | .castore | .sastore => true
  | _ => false

def isFrame : Opcode → Bool
  | .frame_new | .frame_full | .frame_append | .frame_chop | .frame_same | .frame_same1 => true
  | _ => false

end Opcode

end Decompiler
