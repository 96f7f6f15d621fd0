import WordAtlas.Catalog

/-!
# The shipped catalogs

The base catalog uses the official mnemonics of the instruction set and divides the words into
ranges.  The four overlay catalogs take over encodings and masks of base definitions and change only
mnemonic, display string and action string, so that turning one on never changes which words decode
to something.
-/

namespace WordAtlas.Catalog

/-- A definition of an instruction that neither changes the control flow nor has a delay slot. -/
def entry (encoding mask : Word) (format : Format) (xCount yCount : Fin 256)
    (name display action : String) : Definition :=
  ⟨encoding, mask, format, xCount, yCount, name, display, action, .none, false, false⟩

/-- The same instruction with the given control flow. -/
def flowing (flow : Flow) (d : Definition) : Definition :=
  { d with flow := flow }

/-- The same instruction as a conditional branch. -/
def branch (d : Definition) : Definition :=
  { d with flow := .bra, conditional := true }

/-- The same instruction with a delay slot. -/
def delayed (d : Definition) : Definition :=
  { d with delaySlot := true }

/-- The safety net for words that no real instruction claims. -/
def catchAll : Catalog :=
  [entry 0x0000 0x0000 .w 0 0 "UNK" "" ""]

/-- The instructions under their official mnemonics. -/
def base : Catalog :=
  [entry 0x0000 0xFF00 .a 0 0 "LD" "@(A&j),i" "iw",
   entry 0x0100 0xFF00 .a 0 0 "LDUH" "@(A&j),i" "iw",
   entry 0x0200 0xFF00 .a 0 0 "LDUB" "@(A&j),i" "iw",
   entry 0x0300 0xFF00 .c 0 0 "LD" "@(S&4u),i" "iw",
   entry 0x0400 0xFF00 .a 0 0 "LD" "@j,i;Ju" "iw",
   entry 0x0500 0xFF00 .a 0 0 "LDUH" "@j,i;Ju" "iw",
   entry 0x0600 0xFF00 .a 0 0 "LDUB" "@j,i;Ju" "iw",
   entry 0x0700 0xFFF0 .e 0 0 "LD" "@S+,i" "iwSw",
   entry 0x0710 0xFFF0 .e 0 0 "MOV" "i,P" "Pw",
   entry 0x0780 0xFFFF .e 0 0 "LD" "@S+,g" "Sw",
   entry 0x0781 0xFFFF .e 0 0 "LD" "@S+,g" "Sw",
   entry 0x0782 0xFFFF .e 0 0 "LD" "@S+,g" "Sw",
   entry 0x0783 0xFFFF .e 0 0 "LD" "@S+,g" "Sw",
   entry 0x0784 0xFFFF .e 0 0 "LD" "@S+,g" "Sw",
   entry 0x0785 0xFFFF .e 0 0 "LD" "@S+,g" "Sw",
   entry 0x0790 0xFFFF .z 0 0 "LD" "@S+,P" "Sw",
   entry 0x0800 0xFF00 .d 0 0 "DMOV" "@4u,A" "Aw",
   entry 0x0900 0xFF00 .d 0 0 "DMOVH" "@2u,A" "Aw",
   entry 0x0A00 0xFF00 .d 0 0 "DMOVB" "@u,A" "Aw",
   entry 0x0B00 0xFF00 .d 0 0 "DMOV" "@4u,@-S" "Sw",
   entry 0x0C00 0xFF00 .d 0 0 "DMOV" "@4u,@A+" "Aw",
   entry 0x0D00 0xFF00 .d 0 0 "DMOVH" "@2u,@A+" "Aw",
   entry 0x0E00 0xFF00 .d 0 0 "DMOVB" "@u,@A+" "Aw",
   entry 0x0F00 0xFF00 .d 0 0 "ENTER" "#4u" "SwFw",
   entry 0x1000 0xFF00 .a 0 0 "ST" "i,@(A&j)" "",
   entry 0x1100 0xFF00 .a 0 0 "STH" "i,@(A&j)" "",
   entry 0x1200 0xFF00 .a 0 0 "STB" "i,@(A&j)" "",
   entry 0x1300 0xFF00 .c 0 0 "ST" "i,@(S&4u)" "",
   entry 0x1400 0xFF00 .a 0 0 "ST" "i,@j;Ju" "",
   entry 0x1500 0xFF00 .a 0 0 "STH" "i,@j;Ju" "",
   entry 0x1600 0xFF00 .a 0 0 "STB" "i,@j;Ju" "",
   entry 0x1700 0xFFF0 .e 0 0 "ST" "i,@-S" "Sw",
   entry 0x1710 0xFFF0 .e 0 0 "MOV" "P,i" "iw",
   entry 0x1780 0xFFFF .e 0 0 "ST" "g,@-S" "Sw",
   entry 0x1781 0xFFFF .e 0 0 "ST" "g,@-S" "Sw",
   entry 0x1782 0xFFFF .e 0 0 "ST" "g,@-S" "Sw",
   entry 0x1783 0xFFFF .e 0 0 "ST" "g,@-S" "Sw",
   entry 0x1784 0xFFFF .e 0 0 "ST" "g,@-S" "Sw",
   entry 0x1785 0xFFFF .e 0 0 "ST" "g,@-S" "Sw",
   entry 0x1790 0xFFFF .z 0 0 "ST" "P,@-S" "Sw",
   entry 0x1800 0xFF00 .d 0 0 "DMOV" "A,@4u" "",
   entry 0x1900 0xFF00 .d 0 0 "DMOVH" "A,@2u" "",
   entry 0x1A00 0xFF00 .d 0 0 "DMOVB" "A,@u" "",
   entry 0x1B00 0xFF00 .d 0 0 "DMOV" "@S+,@4u" "Sw",
   entry 0x1C00 0xFF00 .d 0 0 "DMOV" "@A+,@4u" "Aw",
   entry 0x1D00 0xFF00 .d 0 0 "DMOVH" "@A+,@2u" "Aw",
   entry 0x1E00 0xFF00 .d 0 0 "DMOVB" "@A+,@u" "Aw",
   flowing .int (entry 0x1F00 0xFF00 .d 0 0 "INT" "#u" "("),
   -- FP relative, 8-bit scaled displacement
   entry 0x2000 0xF000 .b 0 0 "LD" "@(F&4s),i" "iw",
   entry 0x3000 0xF000 .b 0 0 "ST" "i,@(F&4s)" "",
   entry 0x4000 0xF000 .b 0 0 "LDUH" "@(F&2s),i" "iw",
   entry 0x5000 0xF000 .b 0 0 "STH" "i,@(F&2s)" "",
   entry 0x6000 0xF000 .b 0 0 "LDUB" "@(F&s),i" "iw",
   entry 0x7000 0xF000 .b 0 0 "STB" "i,@(F&s)" "",
   -- bit, logic and dedicated register operations
   entry 0x8000 0xFF00 .c 0 0 "BANDL" "#u,@i;Iu" "",
   entry 0x8100 0xFF00 .c 0 0 "BANDH" "#u,@i;Iu" "",
   entry 0x8200 0xFF00 .a 0 0 "AND" "j,i" "iw",
   entry 0x8300 0xFF00 .d 0 0 "ANDCCR" "#u" "",
   entry 0x8400 0xFF00 .a 0 0 "AND" "j,@i;Iu" "",
   entry 0x8500 0xFF00 .a 0 0 "ANDH" "j,@i;Iu" "",
   entry 0x8600 0xFF00 .a 0 0 "ANDB" "j,@i;Iu" "",
   entry 0x8700 0xFF00 .d 0 0 "STILM" "#u" "",
   entry 0x8800 0xFF00 .c 0 0 "BTSTL" "#u,@i;Iu" "",
   entry 0x8900 0xFF00 .c 0 0 "BTSTH" "#u,@i;Iu" "",
   entry 0x8A00 0xFF00 .a 0 0 "XCHB" "@j,i;Ju" "iw",
   entry 0x8B00 0xFF00 .a 0 0 "MOV" "j,i" "iw",
   entry 0x8C00 0xFF00 .d 0 0 "LDM0" "z" "Sw",
   entry 0x8D00 0xFF00 .d 0 0 "LDM1" "y" "Sw",
   entry 0x8E00 0xFF00 .d 0 0 "STM0" "xz" "Sw",
   entry 0x8F00 0xFF00 .d 0 0 "STM1" "xy" "Sw",
   entry 0x9000 0xFF00 .c 0 0 "BORL" "#u,@i;Iu" "",
   entry 0x9100 0xFF00 .c 0 0 "BORH" "#u,@i;Iu" "",
   entry 0x9200 0xFF00 .a 0 0 "OR" "j,i" "iw",
   entry 0x9300 0xFF00 .d 0 0 "ORCCR" "#u" "",
   entry 0x9400 0xFF00 .a 0 0 "OR" "j,@i;Iu" "",
   entry 0x9500 0xFF00 .a 0 0 "ORH" "j,@i;Iu" "",
   entry 0x9600 0xFF00 .a 0 0 "ORB" "j,@i;Iu" "",
   flowing .jmp (entry 0x9700 0xFFF0 .e 0 0 "JMP" "@i;Iu" "!"),
   flowing .call (entry 0x9710 0xFFF0 .e 0 0 "CALL" "@i;Iu" "("),
   flowing .ret (entry 0x9720 0xFFFF .z 0 0 "RET" "" ")"),
   flowing .ret (entry 0x9730 0xFFFF .z 0 0 "RETI" "" ")"),
   entry 0x9740 0xFFF0 .e 0 0 "DIV0S" "i" "iw",
   entry 0x9750 0xFFF0 .e 0 0 "DIV0U" "i" "iw",
   entry 0x9760 0xFFF0 .e 0 0 "DIV1" "i" "iw",
   entry 0x9770 0xFFF0 .e 0 0 "DIV2" "i" "iw",
   entry 0x9780 0xFFF0 .e 0 0 "EXTSB" "i" "iw",
   entry 0x9790 0xFFF0 .e 0 0 "EXTUB" "i" "iw",
   entry 0x97A0 0xFFF0 .e 0 0 "EXTSH" "i" "iw",
   entry 0x97B0 0xFFF0 .e 0 0 "EXTUH" "i" "iw",
   entry 0x9800 0xFF00 .c 0 0 "BEORL" "#u,@i;Iu" "",
   entry 0x9900 0xFF00 .c 0 0 "BEORH" "#u,@i;Iu" "",
   entry 0x9A00 0xFF00 .a 0 0 "EOR" "j,i" "iw",
   entry 0x9B00 0xFF00 .c 1 0 "LDI:20" "#u,i" "iv",
   entry 0x9C00 0xFF00 .a 0 0 "EOR" "j,@i;Iu" "",
   entry 0x9D00 0xFF00 .a 0 0 "EORH" "j,@i;Iu" "",
   entry 0x9E00 0xFF00 .a 0 0 "EORB" "j,@i;Iu" "",
   -- delayed jumps and the 0x9Fxx extension block
   delayed (flowing .jmp (entry 0x9F00 0xFFF0 .e 0 0 "JMP:D" "@i;Iu" "_!")),
   delayed (flowing .call (entry 0x9F10 0xFFF0 .e 0 0 "CALL:D" "@i;Iu" "_(")),
   delayed (flowing .ret (entry 0x9F20 0xFFFF .z 0 0 "RET:D" "" "_)")),
   flowing .inte (entry 0x9F30 0xFFFF .z 0 0 "INTE" "" ""),
   entry 0x9F60 0xFFFF .z 0 0 "DIV3" "" "",
   entry 0x9F70 0xFFFF .z 0 0 "DIV4S" "" "",
   entry 0x9F80 0xFFF0 .e 2 0 "LDI:32" "#u,i" "iv",
   entry 0x9F90 0xFFFF .z 0 0 "LEAVE" "" "",
   entry 0x9FA0 0xFFFF .z 0 0 "NOP" "" "",
   entry 0x9FC0 0xFFF0 .e 0 1 "COPOP" "#u,#c,l,k" "",
   entry 0x9FD0 0xFFF0 .e 0 1 "COPLD" "#u,#c,j,k" "",
   entry 0x9FE0 0xFFF0 .e 0 1 "COPST" "#u,#c,l,i" "iw",
   entry 0x9FF0 0xFFF0 .e 0 1 "COPSV" "#u,#c,l,i" "iw",
   -- arithmetic and shifts
   entry 0xA000 0xFF00 .c 0 0 "ADDN" "#u,i" "iw",
   entry 0xA100 0xFF00 .c 0 0 "ADDN2" "#n,i" "iw",
   entry 0xA200 0xFF00 .a 0 0 "ADDN" "j,i" "iw",
   entry 0xA300 0xFF00 .d 0 0 "ADDSP" "#4s" "Sw",
   entry 0xA400 0xFF00 .c 0 0 "ADD" "#u,i" "iw",
   entry 0xA500 0xFF00 .c 0 0 "ADD2" "#n,i" "iw",
   entry 0xA600 0xFF00 .a 0 0 "ADD" "j,i" "iw",
   entry 0xA700 0xFF00 .a 0 0 "ADDC" "j,i" "iw",
   entry 0xA800 0xFF00 .c 0 0 "CMP" "#u,i" "iw",
   entry 0xA900 0xFF00 .c 0 0 "CMP2" "#n,i" "iw",
   entry 0xAA00 0xFF00 .a 0 0 "CMP" "j,i" "iw",
   entry 0xAB00 0xFF00 .a 0 0 "MULU" "j,i" "iw",
   entry 0xAC00 0xFF00 .a 0 0 "SUB" "j,i" "iw",
   entry 0xAD00 0xFF00 .a 0 0 "SUBC" "j,i" "iw",
   entry 0xAE00 0xFF00 .a 0 0 "SUBN" "j,i" "iw",
   entry 0xAF00 0xFF00 .a 0 0 "MUL" "j,i" "iw",
   entry 0xB000 0xFF00 .c 0 0 "LSR" "#d,i" "iw",
   entry 0xB100 0xFF00 .c 0 0 "LSR2" "#d,i" "iw",
   entry 0xB200 0xFF00 .a 0 0 "LSR" "j,i" "iw",
   entry 0xB300 0xFFF0 .a 0 0 "MOV" "i,h" "",
   entry 0xB310 0xFFF0 .a 0 0 "MOV" "i,h" "",
   entry 0xB320 0xFFF0 .a 0 0 "MOV" "i,h" "",
   entry 0xB330 0xFFF0 .a 0 0 "MOV" "i,h" "",
   entry 0xB340 0xFFF0 .a 0 0 "MOV" "i,h" "",
   entry 0xB350 0xFFF0 .a 0 0 "MOV" "i,h" "",
   entry 0xB400 0xFF00 .c 0 0 "LSL" "#d,i" "iw",
   entry 0xB500 0xFF00 .c 0 0 "LSL2" "#d,i" "iw",
   entry 0xB600 0xFF00 .a 0 0 "LSL" "j,i" "iw",
   entry 0xB700 0xFFF0 .a 0 0 "MOV" "h,i" "iw",
   entry 0xB710 0xFFF0 .a 0 0 "MOV" "h,i" "iw",
   entry 0xB720 0xFFF0 .a 0 0 "MOV" "h,i" "iw",
   entry 0xB730 0xFFF0 .a 0 0 "MOV" "h,i" "iw",
   entry 0xB740 0xFFF0 .a 0 0 "MOV" "h,i" "iw",
   entry 0xB750 0xFFF0 .a 0 0 "MOV" "h,i" "iw",
   entry 0xB800 0xFF00 .c 0 0 "ASR" "#d,i" "iw",
   entry 0xB900 0xFF00 .c 0 0 "ASR2" "#d,i" "iw",
   entry 0xBA00 0xFF00 .a 0 0 "ASR" "j,i" "iw",
   entry 0xBB00 0xFF00 .a 0 0 "MULUH" "j,i" "iw",
   entry 0xBC00 0xFF00 .c 0 0 "LDRES" "@i+,#u;Iu" "",
   entry 0xBD00 0xFF00 .c 0 0 "STRES" "#u,@i+;Iu" "",
   entry 0xBF00 0xFF00 .a 0 0 "MULH" "j,i" "iw",
   entry 0xC000 0xF000 .b 0 0 "LDI:8" "#u,i" "iw",
   -- 11-bit relative calls, then 8-bit relative branches
   flowing .call (entry 0xD000 0xF800 .f 0 0 "CALL" "2ru" "("),
   delayed (flowing .call (entry 0xD800 0xF800 .f 0 0 "CALL:D" "2ru" "_(")),
   flowing .jmp (entry 0xE000 0xFF00 .d 0 0 "BRA" "2ru" "!"),
   entry 0xE100 0xFF00 .d 0 0 "BNO" "2ru" "?",
   branch (entry 0xE200 0xFF00 .d 0 0 "BEQ" "2ru" "?"),
   branch (entry 0xE300 0xFF00 .d 0 0 "BNE" "2ru" "?"),
   branch (entry 0xE400 0xFF00 .d 0 0 "BC" "2ru" "?"),
   branch (entry 0xE500 0xFF00 .d 0 0 "BNC" "2ru" "?"),
   branch (entry 0xE600 0xFF00 .d 0 0 "BN" "2ru" "?"),
   branch (entry 0xE700 0xFF00 .d 0 0 "BP" "2ru" "?"),
   branch (entry 0xE800 0xFF00 .d 0 0 "BV" "2ru" "?"),
   branch (entry 0xE900 0xFF00 .d 0 0 "BNV" "2ru" "?"),
   branch (entry 0xEA00 0xFF00 .d 0 0 "BLT" "2ru" "?"),
   branch (entry 0xEB00 0xFF00 .d 0 0 "BGE" "2ru" "?"),
   branch (entry 0xEC00 0xFF00 .d 0 0 "BLE" "2ru" "?"),
   branch (entry 0xED00 0xFF00 .d 0 0 "BGT" "2ru" "?"),
   branch (entry 0xEE00 0xFF00 .d 0 0 "BLS" "2ru" "?"),
   branch (entry 0xEF00 0xFF00 .d 0 0 "BHI" "2ru" "?"),
   delayed (flowing .jmp (entry 0xF000 0xFF00 .d 0 0 "BRA:D" "2ru" "_!")),
   delayed (entry 0xF100 0xFF00 .d 0 0 "BNO:D" "2ru" "_?"),
   delayed (branch (entry 0xF200 0xFF00 .d 0 0 "BEQ:D" "2ru" "_?")),
   delayed (branch (entry 0xF300 0xFF00 .d 0 0 "BNE:D" "2ru" "_?")),
   delayed (branch (entry 0xF400 0xFF00 .d 0 0 "BC:D" "2ru" "_?")),
   delayed (branch (entry 0xF500 0xFF00 .d 0 0 "BNC:D" "2ru" "_?")),
   delayed (branch (entry 0xF600 0xFF00 .d 0 0 "BN:D" "2ru" "_?")),
   delayed (branch (entry 0xF700 0xFF00 .d 0 0 "BP:D" "2ru" "_?")),
   delayed (branch (entry 0xF800 0xFF00 .d 0 0 "BV:D" "2ru" "_?")),
   delayed (branch (entry 0xF900 0xFF00 .d 0 0 "BNV:D" "2ru" "_?")),
   delayed (branch (entry 0xFA00 0xFF00 .d 0 0 "BLT:D" "2ru" "_?")),
   delayed (branch (entry 0xFB00 0xFF00 .d 0 0 "BGE:D" "2ru" "_?")),
   delayed (branch (entry 0xFC00 0xFF00 .d 0 0 "BLE:D" "2ru" "_?")),
   delayed (branch (entry 0xFD00 0xFF00 .d 0 0 "BGT:D" "2ru" "_?")),
   delayed (branch (entry 0xFE00 0xFF00 .d 0 0 "BLS:D" "2ru" "_?")),
   delayed (branch (entry 0xFF00 0xFF00 .d 0 0 "BHI:D" "2ru" "_?"))]

/-- Loads and stores through the stack pointer, shown as pushes and pops. -/
def stack : Catalog :=
  [entry 0x0700 0xFFF0 .e 0 0 "POP" "i" "",
   entry 0x0780 0xFFFF .e 0 0 "POP" "g" "",
   entry 0x0781 0xFFFF .e 0 0 "POP" "g" "",
   entry 0x0782 0xFFFF .e 0 0 "POP" "g" "",
   entry 0x0783 0xFFFF .e 0 0 "POP" "g" "",
   entry 0x0784 0xFFFF .e 0 0 "POP" "g" "",
   entry 0x0785 0xFFFF .e 0 0 "POP" "g" "",
   entry 0x0790 0xFFFF .z 0 0 "POP" "P" "",
   entry 0x0B00 0xFF00 .d 0 0 "PUSH" "@4u" "",
   entry 0x1700 0xFFF0 .e 0 0 "PUSH" "i" "",
   entry 0x1780 0xFFFF .e 0 0 "PUSH" "g" "",
   entry 0x1781 0xFFFF .e 0 0 "PUSH" "g" "",
   entry 0x1782 0xFFFF .e 0 0 "PUSH" "g" "",
   entry 0x1783 0xFFFF .e 0 0 "PUSH" "g" "",
   entry 0x1784 0xFFFF .e 0 0 "PUSH" "g" "",
   entry 0x1785 0xFFFF .e 0 0 "PUSH" "g" "",
   entry 0x1790 0xFFFF .z 0 0 "PUSH" "P" "",
   entry 0x1B00 0xFF00 .d 0 0 "POP" "@u" "",
   entry 0x8C00 0xFF00 .d 0 0 "POP" "z" "",
   entry 0x8D00 0xFF00 .d 0 0 "POP" "y" "",
   entry 0x8E00 0xFF00 .d 0 0 "PUSH" "xz" "",
   entry 0x8F00 0xFF00 .d 0 0 "PUSH" "xy" ""]

/-- The shifts by sixteen and more, shown with their whole distance. -/
def shift : Catalog :=
  [entry 0xB100 0xFF00 .c 0 0 "LSR" "#bd,i" "iw",
   entry 0xB500 0xFF00 .c 0 0 "LSL" "#bd,i" "iw",
   entry 0xB900 0xFF00 .c 0 0 "ASR" "#bd,i" "iw"]

/-- The direct moves of the accumulator, shown as ordinary loads and stores. -/
def dmov : Catalog :=
  [entry 0x0800 0xFF00 .d 0 0 "LD" "@4u,A" "",
   entry 0x0900 0xFF00 .d 0 0 "LDUH" "@2u,A" "",
   entry 0x0A00 0xFF00 .d 0 0 "LDUB" "@u,A" "",
   entry 0x1800 0xFF00 .d 0 0 "ST" "A,@4u" "",
   entry 0x1900 0xFF00 .d 0 0 "STUH" "A,@2u" "",
   entry 0x1A00 0xFF00 .d 0 0 "STUB" "A,@u" ""]

/-- The instructions on dedicated registers, shown like the general ones. -/
def specials : Catalog :=
  [entry 0x8300 0xFF00 .d 0 0 "AND" "#u,C" "Cw",
   entry 0x8700 0xFF00 .d 0 0 "MOV" "#u,M" "",
   entry 0x9300 0xFF00 .d 0 0 "OR" "#u,C" "Cw",
   entry 0xA300 0xFF00 .d 0 0 "ADD" "#4s,S" ""]

/-- The shipped catalog of an overlay. -/
def ofOverlay : Overlay → Catalog
  | .stack => stack
  | .shift => shift
  | .dmov => dmov
  | .specials => specials

/-- A set of overlays that is no single overlay, where one was asked for. -/
structure NotSingle where
  options : OverlaySet
deriving DecidableEq, Repr

/-- The message about a set that is no single overlay. -/
def NotSingle.message (e : NotSingle) : String :=
  "Not a single output option: " ++ e.options.describe

/-- The shipped catalog of a set that holds a single overlay. -/
def ofOptions (options : OverlaySet) : Except NotSingle Catalog :=
  match options.only? with
  | some overlay => .ok (ofOverlay overlay)
  | none => .error ⟨options⟩

end WordAtlas.Catalog

namespace WordAtlas.Catalogs

/-- The shipped catalogs. -/
def shipped : Catalogs where
  catchAll := Catalog.catchAll
  base := Catalog.base
  overlays := Overlay.all.map fun overlay => (OverlaySet.single overlay, Catalog.ofOverlay overlay)

/-- The catalogs with the given catch-all and base.  Without overlay catalogs of their own they have
the shipped ones. -/
def ofParts (catchAll base : Catalog) (overlays : Option (List (OverlaySet × Catalog))) :
    Catalogs where
  catchAll := catchAll
  base := base
  overlays := overlays.getD shipped.overlays

/-- Every overlay has a shipped catalog. -/
theorem overlay?_shipped (overlay : Overlay) :
    shipped.overlay? overlay = some (Catalog.ofOverlay overlay) := by
  cases overlay <;> rfl

end WordAtlas.Catalogs
