import Chip8.Listing
import Chip8.Execute
import Chip8.Proofs.Decoding
import Chip8.Proofs.Numerals
import Mathlib

/-!
# What the text of an instruction tells

The text of an instruction determines what the instruction does: words with the same text stand for
the same operation and change every state in the same way (`execute_eq_of_disassemble_eq`).

The text of an operation has a format: fixed characters and operand fields of a fixed width, and
perhaps a decimal number at the end. So the places at which the text begins are known beforehand,
and the formats of two operations clash at one of them: a character there fits only one of the two
(`Opcode.eq_of_not_clash`). Within one format the fields stand at fixed places, and no number has
two values (`Mnemonic.Format.agree_of_text_eq`). What a text leaves out, its operation does not read
(`State.execute_congr`).
-/

set_option autoImplicit false

namespace Chip8

/-- The operand for an address has room for three digits. -/
theorem Operand.toNat_addr_lt (o : Operand) : o.addr.toNat < 16 ^ 3 := by
  have h : o.addr.toNat = (256 * o.x.val + 16 * o.y.val + o.n.val) % 65536 := UInt16.toNat_ofNat'
  omega

namespace Mnemonic

/-! ## Places of a text -/

/-- What may stand at a place of a text. -/
inductive Place where
  | char (c : Char)
  | hexDigit
  | decimalDigit
  deriving DecidableEq

namespace Place

/-- Whether a character may stand at a place. -/
def admits (c : Char) : Place → Bool
  | char d => d == c
  | hexDigit => ((List.finRange 16).map Hexadecimal.digit).contains c
  | decimalDigit => c.isDigit

/-- One of the places is for a certain character, which may not stand at the other. -/
def clashes : Place → Place → Bool
  | char c, q => !q.admits c
  | p, char d => !p.admits d
  | _, _ => false

theorem clashes_eq_false {p q : Place} {c : Char} (hp : p.admits c) (hq : q.admits c) :
    p.clashes q = false := by
  cases p <;> cases q <;> simp_all [clashes, admits]

/-- Whether a text begins with the given places. -/
def opens : List Place → List Char → Bool
  | [], _ => true
  | _ :: _, [] => false
  | p :: ps, c :: cs => p.admits c && opens ps cs

/-- Whether two lists of places clash somewhere. -/
def clash : List Place → List Place → Bool
  | p :: ps, q :: qs => p.clashes q || clash ps qs
  | _, _ => false

/-- A text begins with places of which no two clash. -/
theorem clash_eq_false_of_opens {ps qs : List Place} {cs : List Char} (hp : opens ps cs)
    (hq : opens qs cs) : clash ps qs = false := by
  induction ps generalizing qs cs with
  | nil => rfl
  | cons p ps ih =>
    cases qs with
    | nil => rfl
    | cons q qs =>
      cases cs with
      | nil => simp [opens] at hp
      | cons c cs =>
        simp only [opens, Bool.and_eq_true] at hp hq
        simp only [clash, clashes_eq_false hp.1 hq.1, ih hp.2 hq.2, Bool.or_self]

/-- The characters stand at the places, one at each. -/
abbrev Fits (ps : List Place) (cs : List Char) : Prop :=
  List.Forall₂ (fun p c => p.admits c = true) ps cs

theorem opens_append {ps qs : List Place} {cs ds : List Char} (h : Fits ps cs)
    (hopens : opens qs ds) : opens (ps ++ qs) (cs ++ ds) := by
  induction h with
  | nil => exact hopens
  | cons hadmits _ ih =>
    simp only [List.cons_append, opens, hadmits, ih, Bool.and_self]

theorem fits_chars (cs : List Char) : Fits (cs.map char) cs := by
  induction cs with
  | nil => exact .nil
  | cons c cs ih => exact .cons (by simp [admits]) ih

theorem fits_replicate {p : Place} {cs : List Char} (h : ∀ c ∈ cs, p.admits c) :
    Fits (List.replicate cs.length p) cs := by
  induction cs with
  | nil => exact .nil
  | cons c cs ih => exact .cons (h c (by simp)) (ih fun d hd => h d (by simp [hd]))

/-- A hexadecimal numeral fills as many places as it is wide. -/
theorem fits_numeral (width n : Nat) (hwidth : 0 < width) (hn : n < 16 ^ width) :
    Fits (List.replicate width hexDigit) (Hexadecimal.numeral width n).toList := by
  have hdigits : ∀ c ∈ (Hexadecimal.numeral width n).toList, hexDigit.admits c := by
    intro c hc
    rw [Hexadecimal.toList_numeral width n hwidth hn] at hc
    obtain ⟨d, -, rfl⟩ := List.mem_map.1 hc
    simp [admits]
  have hlength : (Hexadecimal.numeral width n).toList.length = width := by
    rw [Hexadecimal.toList_numeral width n hwidth hn, List.length_map,
      Hexadecimal.length_lowNibbles]
  have hfits := fits_replicate hdigits
  rwa [hlength] at hfits

/-- A decimal numeral begins with a digit. -/
theorem opens_decimal (n : Nat) : opens [decimalDigit] (toString n).toList := by
  rw [Nat.toString_eq_repr, Nat.toList_repr]
  cases h : Nat.toDigits 10 n with
  | nil => exact absurd h Nat.toDigits_ne_nil
  | cons c cs =>
    have hmem : c ∈ Nat.toDigits 10 n := by simp [h]
    have hdigit := Nat.isDigit_of_mem_toDigits (by decide) (by decide) hmem
    simp [opens, admits, hdigit]

end Place

/-! ## Formats -/

/-- A part of a text that has a fixed width: given characters, or a field of the operand. -/
inductive Piece where
  | chars (text : String)
  /-- The name of the first register. -/
  | first
  /-- The name of the second register. -/
  | second
  /-- The byte in hexadecimal. -/
  | mask
  /-- The address. -/
  | addr

namespace Piece

/-- The text of a piece. -/
def text (o : Operand) : Piece → String
  | chars t => t
  | first => o.firstName
  | second => o.secondName
  | mask => Hexadecimal.numeral 2 o.byte.toNat
  | addr => o.addrText

/-- The places that a piece takes. -/
def places : Piece → List Place
  | chars t => t.toList.map .char
  | first => .char 'V' :: List.replicate 1 .hexDigit
  | second => .char 'V' :: List.replicate 1 .hexDigit
  | mask => List.replicate 2 .hexDigit
  | addr => List.replicate 3 .hexDigit

/-- Two operands have the same field there. -/
def Agree (o o' : Operand) : Piece → Prop
  | chars _ => True
  | first => o.x = o'.x
  | second => o.y = o'.y
  | mask => o.byte = o'.byte
  | addr => o.addr = o'.addr

theorem fits_text (o : Operand) (p : Piece) : Place.Fits p.places (p.text o).toList := by
  have hname (d : Nibble) : Place.Fits (.char 'V' :: List.replicate 1 .hexDigit)
      ("V" ++ Hexadecimal.numeral 1 d.val).toList := by
    rw [String.toList_append]
    exact .cons rfl (Place.fits_numeral 1 d.val (by decide) d.isLt)
  cases p with
  | chars t => exact Place.fits_chars _
  | first => exact hname o.x
  | second => exact hname o.y
  | mask => exact Place.fits_numeral 2 _ (by decide) o.byte.toNat_lt
  | addr => exact Place.fits_numeral 3 _ (by decide) o.toNat_addr_lt

theorem agree_of_text_eq {o o' : Operand} {p : Piece} (h : p.text o = p.text o') :
    p.Agree o o' := by
  have hname (d d' : Nibble)
      (hd : "V" ++ Hexadecimal.numeral 1 d.val = "V" ++ Hexadecimal.numeral 1 d'.val) : d = d' := by
    have hnumeral := (String.append_right_inj _).1 hd
    exact Fin.ext (Hexadecimal.eq_of_numeral_eq 1 (by decide) d.isLt d'.isLt hnumeral)
  cases p with
  | chars t => trivial
  | first => exact hname _ _ h
  | second => exact hname _ _ h
  | mask =>
    exact UInt8.toNat_inj.1
      (Hexadecimal.eq_of_numeral_eq 2 (by decide) o.byte.toNat_lt o'.byte.toNat_lt h)
  | addr =>
    exact UInt16.toNat_inj.1
      (Hexadecimal.eq_of_numeral_eq 3 (by decide) o.toNat_addr_lt o'.toNat_addr_lt h)

end Piece

/-- A field that is written in decimal, with as many digits as it needs. -/
inductive Number where
  /-- The byte. -/
  | byte
  /-- The height of a sprite. -/
  | height

/-- The value of a field. -/
def Number.value (o : Operand) : Number → Nat
  | byte => o.byte.toNat
  | height => o.n.val

/-- The format of a text: parts of a fixed width, and perhaps a number at the end. -/
structure Format where
  pieces : List Piece
  number : Option Number

namespace Format

/-- The text for an operand. -/
def text (f : Format) (o : Operand) : List Char :=
  (f.pieces.flatMap fun p => (p.text o).toList) ++
    f.number.elim [] fun n => (toString (n.value o)).toList

/-- The places at which every text of a format begins: of the number only the first digit. -/
def places (f : Format) : List Place :=
  f.pieces.flatMap Piece.places ++ f.number.elim [] fun _ => [.decimalDigit]

/-- Two operands have the same fields wherever a format shows one. -/
structure Agree (f : Format) (o o' : Operand) : Prop where
  pieces : ∀ p ∈ f.pieces, p.Agree o o'
  number : ∀ n ∈ f.number, n.value o = n.value o'

theorem opens_text (f : Format) (o : Operand) : Place.opens f.places (f.text o) := by
  obtain ⟨pieces, number⟩ := f
  unfold places text
  dsimp only
  induction pieces with
  | nil =>
    cases number with
    | none => rfl
    | some n => exact Place.opens_decimal _
  | cons p pieces ih =>
    rw [List.flatMap_cons, List.flatMap_cons, List.append_assoc, List.append_assoc]
    exact Place.opens_append (p.fits_text o) ih

/-- The fields stand at the same places in every text of a format. -/
theorem agree_of_text_eq {f : Format} {o o' : Operand} (h : f.text o = f.text o') :
    f.Agree o o' := by
  obtain ⟨pieces, number⟩ := f
  unfold text at h
  dsimp only at h
  induction pieces with
  | nil =>
    refine ⟨by simp, ?_⟩
    rintro n rfl
    exact Nat.repr_inj.1 (String.toList_inj.1 h)
  | cons p pieces ih =>
    rw [List.flatMap_cons, List.flatMap_cons, List.append_assoc, List.append_assoc] at h
    have hwidth : (p.text o).toList.length = (p.text o').toList.length :=
      (p.fits_text o).length_eq.symm.trans (p.fits_text o').length_eq
    obtain ⟨hpiece, hrest⟩ := List.append_inj h hwidth
    obtain ⟨hpieces, hnumber⟩ := ih hrest
    refine ⟨fun q hq => ?_, hnumber⟩
    rcases List.mem_cons.1 hq with rfl | hq
    · exact Piece.agree_of_text_eq (String.toList_inj.1 hpiece)
    · exact hpieces q hq

end Format

end Mnemonic

open Mnemonic

namespace Opcode

/-- The format of an operation's texts. -/
def format : Opcode → Format
  | noop => ⟨[.chars "NOP/SYS"], none⟩
  | clearScreen => ⟨[.chars "CLS"], none⟩
  | ret => ⟨[.chars "RET"], none⟩
  | jump => ⟨[.chars "JP ", .addr], none⟩
  | call => ⟨[.chars "CALL ", .addr], none⟩
  | skipIfByte => ⟨[.chars "SE ", .first, .chars ", "], some .byte⟩
  | skipUnlessByte => ⟨[.chars "SNE ", .first, .chars ", "], some .byte⟩
  | skipIfSame => ⟨[.chars "SE ", .first, .chars ", ", .second], none⟩
  | loadByte => ⟨[.chars "LD ", .first, .chars ", "], some .byte⟩
  | addByte => ⟨[.chars "ADD ", .first, .chars ", "], some .byte⟩
  | copy => ⟨[.chars "LD ", .first, .chars ", ", .second], none⟩
  | or => ⟨[.chars "OR ", .first, .chars ", ", .second], none⟩
  | and => ⟨[.chars "AND ", .first, .chars ", ", .second], none⟩
  | xor => ⟨[.chars "XOR ", .first, .chars ", ", .second], none⟩
  | add => ⟨[.chars "ADD ", .first, .chars ", ", .second], none⟩
  | subtract => ⟨[.chars "SUB ", .first, .chars ", ", .second], none⟩
  | shiftRight => ⟨[.chars "SHR ", .first], none⟩
  | subtractFrom => ⟨[.chars "SUBN ", .first, .chars ", ", .second], none⟩
  | shiftLeft => ⟨[.chars "SHL ", .first], none⟩
  | skipUnlessSame => ⟨[.chars "SNE ", .first, .chars ", ", .second], none⟩
  | loadIndex => ⟨[.chars "LD I, ", .addr], none⟩
  | jumpOffset => ⟨[.chars "JP V0, ", .addr], none⟩
  | random => ⟨[.chars "RND ", .first, .chars ", ", .mask], none⟩
  | draw => ⟨[.chars "DRW ", .first, .chars ", ", .second, .chars ", "], some .height⟩
  | skipIfHeld => ⟨[.chars "SKP ", .first], none⟩
  | skipUnlessHeld => ⟨[.chars "SKNP ", .first], none⟩
  | readDelay => ⟨[.chars "LD ", .first, .chars ", DT"], none⟩
  | awaitKey => ⟨[.chars "LD ", .first, .chars ", Key"], none⟩
  | writeDelay => ⟨[.chars "LD DT, ", .first], none⟩
  | writeSound => ⟨[.chars "LD ST, ", .first], none⟩
  | advanceIndex => ⟨[.chars "ADD I, ", .first], none⟩
  | loadGlyph => ⟨[.chars "LD F, ", .first], none⟩
  | storeDigits => ⟨[.chars "LD B, ", .first], none⟩
  | storeRegisters => ⟨[.chars "LD [I], ", .first], none⟩
  | loadRegisters => ⟨[.chars "LD ", .first, .chars ", [I]"], none⟩

/-- The formats of different operations clash. -/
theorem eq_of_not_clash : ∀ op ∈ all, ∀ op' ∈ all,
    Place.clash op.format.places op'.format.places = false → op = op' := by
  decide +kernel

end Opcode

theorem Instruction.toList_mnemonic (i : Instruction) :
    i.mnemonic.toList = i.opcode.format.text i.operand := by
  obtain ⟨op, o⟩ := i
  cases op <;>
    simp [mnemonic, Opcode.format, Format.text, Piece.text, Number.value, Operand.bothNames,
      Operand.nameAndByte, String.toList_append]

/-! ## What an operation reads -/

/-- An operation reads no field of its operand that its text does not show. -/
theorem State.execute_congr (inputs : Inputs) (s : State) {op : Opcode} {o o' : Operand}
    (h : op.format.Agree o o') : s.execute inputs ⟨op, o⟩ = s.execute inputs ⟨op, o'⟩ := by
  obtain ⟨hpieces, hnumber⟩ := h
  cases op with
  | noop | clearScreen | ret => rfl
  | jump | call | loadIndex | jumpOffset =>
    have haddr : o.addr = o'.addr := hpieces .addr (by simp [Opcode.format])
    simp only [execute, haddr]
  | skipIfByte | skipUnlessByte | loadByte | addByte =>
    have hx : o.x = o'.x := hpieces .first (by simp [Opcode.format])
    have hbyte : o.byte = o'.byte := UInt8.toNat_inj.1 (hnumber .byte rfl)
    simp only [execute, hx, hbyte]
  | random =>
    have hx : o.x = o'.x := hpieces .first (by simp [Opcode.format])
    have hbyte : o.byte = o'.byte := hpieces .mask (by simp [Opcode.format])
    simp only [execute, hx, hbyte]
  | draw =>
    have hx : o.x = o'.x := hpieces .first (by simp [Opcode.format])
    have hy : o.y = o'.y := hpieces .second (by simp [Opcode.format])
    have hn : o.n = o'.n := Fin.ext (hnumber .height rfl)
    simp only [execute, hx, hy, hn]
  | skipIfSame | skipUnlessSame | copy | or | and | xor | add | subtract | subtractFrom =>
    have hx : o.x = o'.x := hpieces .first (by simp [Opcode.format])
    have hy : o.y = o'.y := hpieces .second (by simp [Opcode.format])
    simp only [execute, hx, hy]
  | _ =>
    -- The others have a single register.
    have hx : o.x = o'.x := hpieces .first (by simp [Opcode.format])
    simp only [execute, hx]

/-- The text of an instruction determines what it does. Two words with the same text stand for the
same operation, and change every state in the same way, whatever keys are held and whatever the
random byte is. -/
theorem execute_eq_of_disassemble_eq {w w' : UInt16} (h : disassemble w = disassemble w') :
    (Instruction.ofWord w).opcode = (Instruction.ofWord w').opcode ∧
      ∀ (inputs : Inputs) (s : State),
        s.execute inputs (.ofWord w) = s.execute inputs (.ofWord w') := by
  have htext : (Instruction.ofWord w).mnemonic.toList = (Instruction.ofWord w').mnemonic.toList :=
    congrArg String.toList h
  generalize Instruction.ofWord w = i at htext ⊢
  generalize Instruction.ofWord w' = j at htext ⊢
  rw [i.toList_mnemonic, j.toList_mnemonic] at htext
  obtain ⟨op, o⟩ := i
  obtain ⟨op', o'⟩ := j
  dsimp only at htext ⊢
  -- The one text begins as both formats prescribe, so they do not clash.
  have hopens := op.format.opens_text o
  rw [htext] at hopens
  have hclash := Place.clash_eq_false_of_opens hopens (op'.format.opens_text o')
  obtain rfl := Opcode.eq_of_not_clash op op.mem_all op' op'.mem_all hclash
  exact ⟨rfl, fun inputs s => s.execute_congr inputs (Format.agree_of_text_eq htext)⟩

/-- A shift shows one register: the second one is not read. -/
theorem execute_shiftRight_eq :
    disassemble 0x8126 = disassemble 0x81F6 ∧
      (Instruction.ofWord 0x8126).opcode = (Instruction.ofWord 0x81F6).opcode ∧
      ∀ (inputs : Inputs) (s : State),
        s.execute inputs (.ofWord 0x8126) = s.execute inputs (.ofWord 0x81F6) := by
  have htext : disassemble 0x8126 = disassemble 0x81F6 := by decide +kernel
  exact ⟨htext, execute_eq_of_disassemble_eq htext⟩

end Chip8
