import Chip8.Instruction

/-!
# Reading instruction words

Two operations never share a word: their forms differ in a nibble that both prescribe
(`Opcode.eq_of_fits`). So the nibbles of a word determine its operation, and an operation is read
off a word exactly when the word fits the operation's form (`Opcode.ofNibbles?_eq_some_iff`). What
is known about operations can so be said about the forms of words
(`Instruction.hasForm_filterMap_iff`).
-/

set_option autoImplicit false

namespace Chip8

namespace Opcode

theorem mem_all (op : Opcode) : op ∈ all := by
  cases op <;> decide

/-- Whether some nibbles may fit both of two forms. -/
def Form.overlaps (f g : Form) : Bool :=
  f.lead == g.lead && f.third.all (fun a => g.third.all (a == ·)) &&
    f.fourth.all (fun a => g.fourth.all (a == ·))

theorem Form.overlaps_of_fits {f g : Form} {lead third fourth : Nibble}
    (hf : f.fits lead third fourth) (hg : g.fits lead third fourth) : f.overlaps g := by
  obtain ⟨fl, ft, ff⟩ := f
  obtain ⟨gl, gt, gf⟩ := g
  cases ft <;> cases ff <;> cases gt <;> cases gf <;> simp_all [fits, overlaps]

/-- The forms of two operations overlap only if the operations are the same. -/
theorem eq_of_overlaps : ∀ op ∈ all, ∀ op' ∈ all,
    (op.form?.any fun f => op'.form?.any f.overlaps) → op = op' := by
  decide

/-- No nibbles fit the forms of two operations. -/
theorem eq_of_fits {op op' : Opcode} {f g : Form} {lead third fourth : Nibble}
    (hop : op.form? = some f) (hop' : op'.form? = some g) (hf : f.fits lead third fourth)
    (hg : g.fits lead third fourth) : op = op' := by
  apply eq_of_overlaps op op.mem_all op' op'.mem_all
  rw [hop, hop']
  exact Form.overlaps_of_fits hf hg

/-- An operation is read off nibbles exactly when they fit its form. -/
theorem ofNibbles?_eq_some_iff {op : Opcode} {lead third fourth : Nibble} :
    ofNibbles? lead third fourth = some op ↔
      ∃ f, op.form? = some f ∧ f.fits lead third fourth := by
  -- What the search finds fits; and no two operations fit the same nibbles.
  have found : ∀ op', ofNibbles? lead third fourth = some op' →
      ∃ f, op'.form? = some f ∧ f.fits lead third fourth := by
    intro op' h
    have hfits := List.find?_some h
    rwa [Option.any_eq_true] at hfits
  refine ⟨found op, ?_⟩
  rintro ⟨f, hop, hf⟩
  cases h : ofNibbles? lead third fourth with
  | none =>
    have hnone := List.find?_eq_none.1 h op op.mem_all
    rw [hop] at hnone
    exact absurd hf hnone
  | some op' =>
    obtain ⟨g, hop', hg⟩ := found op' h
    rw [eq_of_fits hop hop' hf hg]

end Opcode

namespace Operand

theorem toNat_addr_ofWord (w : UInt16) : (ofWord w).addr.toNat = w.toNat % 4096 := by
  show (UInt16.ofNat (256 * (w.toNat / 256 % 16) + 16 * (w.toNat / 16 % 16) + w.toNat % 16)).toNat =
    _
  rw [UInt16.toNat_ofNat']
  omega

theorem toNat_byte_ofWord (w : UInt16) : (ofWord w).byte.toNat = w.toNat % 256 := by
  rw [byte, toNat_byteOfNibbles]
  show 16 * (w.toNat / 16 % 16) + w.toNat % 16 = _
  omega

end Operand

namespace Instruction

/-- The leading nibble of a word. -/
def lead (w : UInt16) : Nibble := .ofNat (w.toNat / 4096)

/-- The operation of a word is any but the one that does nothing exactly when the word fits its
form. -/
theorem opcode_ofWord_eq_iff {w : UInt16} {op : Opcode} (hop : op ≠ .noop) :
    (ofWord w).opcode = op ↔
      ∃ f, op.form? = some f ∧ f.fits (lead w) (Operand.ofWord w).y (Operand.ofWord w).n := by
  rw [← Opcode.ofNibbles?_eq_some_iff, ofWord, lead]
  cases h : Opcode.ofNibbles? (.ofNat (w.toNat / 4096)) (Operand.ofWord w).y (Operand.ofWord w).n
  · simp [noop, Ne.symm hop]
  · simp

/-- A word that stands for an operation has the word's low twelve bits as its operand. -/
theorem ofWord_eq_of_opcode {w : UInt16} {op : Opcode} (hop : op ≠ .noop)
    (h : (ofWord w).opcode = op) : ofWord w = ⟨op, .ofWord w⟩ := by
  revert h
  rw [ofWord]
  cases Opcode.ofNibbles? (.ofNat (w.toNat / 4096)) (Operand.ofWord w).y (Operand.ofWord w).n with
  | none => exact fun h => absurd h.symm hop
  | some op' =>
    rintro rfl
    rfl

/-- A word has one of the given forms. -/
def HasForm (forms : List Opcode.Form) (w : UInt16) : Prop :=
  ∃ f ∈ forms, f.fits (lead w) (Operand.ofWord w).y (Operand.ofWord w).n

instance (forms : List Opcode.Form) (w : UInt16) : Decidable (HasForm forms w) :=
  inferInstanceAs (Decidable (∃ f ∈ forms, _))

/-- A word has the form of one of some operations exactly when its operation is among them. -/
theorem hasForm_filterMap_iff {ops : List Opcode} (hops : .noop ∉ ops) {w : UInt16} :
    HasForm (ops.filterMap Opcode.form?) w ↔ (ofWord w).opcode ∈ ops := by
  constructor
  · rintro ⟨f, hf, hfits⟩
    obtain ⟨op, hop, hform⟩ := List.mem_filterMap.1 hf
    have hopcode := (opcode_ofWord_eq_iff (ne_of_mem_of_not_mem hop hops)).2 ⟨f, hform, hfits⟩
    rwa [hopcode]
  · intro hop
    obtain ⟨f, hform, hfits⟩ := (opcode_ofWord_eq_iff (ne_of_mem_of_not_mem hop hops)).1 rfl
    exact ⟨f, List.mem_filterMap.2 ⟨_, hop, hform⟩, hfits⟩

/-- A word with the form of an operation stands for that operation. -/
theorem ofWord_eq_of_hasForm (op : Opcode) {f : Opcode.Form} (hop : op.form? = some f) {w : UInt16}
    (h : HasForm [f] w) : ofWord w = ⟨op, .ofWord w⟩ := by
  have hne : op ≠ .noop := by
    rintro rfl
    cases hop
  obtain ⟨g, hg, hfits⟩ := h
  rw [List.mem_singleton.1 hg] at hfits
  exact ofWord_eq_of_opcode hne ((opcode_ofWord_eq_iff hne).2 ⟨f, hop, hfits⟩)

/-- A word is a jump exactly when its leading nibble is 1. -/
theorem opcode_ofWord_eq_jump_iff {w : UInt16} :
    (ofWord w).opcode = .jump ↔ w.toNat / 4096 = 1 := by
  have hlead : (1 : Nibble) = lead w ↔ w.toNat / 4096 = 1 := by
    have hw := w.toNat_lt
    rw [Fin.ext_iff]
    show 1 = w.toNat / 4096 % 16 ↔ _
    omega
  rw [opcode_ofWord_eq_iff (by decide), ← hlead]
  constructor
  · rintro ⟨f, hf, hfits⟩
    obtain rfl := Option.some.inj hf
    simpa [Opcode.Form.fits] using hfits
  · intro h
    exact ⟨_, rfl, by simp [Opcode.Form.fits, ← h]⟩

theorem toNat_wordOfBytes_byteOfNibbles (a b c d : Nibble) :
    (wordOfBytes (byteOfNibbles a b) (byteOfNibbles c d)).toNat =
      4096 * a.val + 256 * b.val + 16 * c.val + d.val := by
  rw [toNat_wordOfBytes, toNat_byteOfNibbles, toNat_byteOfNibbles]
  omega

/-- The word with given nibbles stands for the operation whose form they fit. -/
theorem ofWord_of_fits (op : Opcode) {f : Opcode.Form} {a b c d : Nibble}
    (hop : op.form? = some f) (hf : f.fits a c d) :
    ofWord (wordOfBytes (byteOfNibbles a b) (byteOfNibbles c d)) = ⟨op, ⟨b, c, d⟩⟩ := by
  have hw := toNat_wordOfBytes_byteOfNibbles a b c d
  have hlead :
      Nibble.ofNat ((wordOfBytes (byteOfNibbles a b) (byteOfNibbles c d)).toNat / 4096) = a := by
    apply Fin.ext
    show _ % 16 = _
    omega
  have hoperand : Operand.ofWord (wordOfBytes (byteOfNibbles a b) (byteOfNibbles c d)) =
      ⟨b, c, d⟩ := by
    simp only [Operand.ofWord, Nibble.ofNat, hw, Operand.mk.injEq, Fin.ext_iff]
    omega
  rw [ofWord, hlead, hoperand, Opcode.ofNibbles?_eq_some_iff.2 ⟨f, hop, hf⟩]

end Instruction

end Chip8
