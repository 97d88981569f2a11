import Mathlib
import Chip8.Proofs.Loading
import Chip8.Proofs.PathSpelling

/-!
# Directories in failures to load

The text of a failure to load names the file by the base name of its path, to keep the directories
out of sight. A path that ends in a name does so: the name has no slash, and reading it leniently
puts none in, since a lenient reading has an ASCII character only where its byte stands
(`Text.Utf8.mem_decode_iff`). A path that ends in the directory above has no name, and all of it is
shown. With more than one component there is nothing else (`loadFile_error_shows_slash_iff`).
-/

set_option autoImplicit false

namespace Chip8

namespace Text.Utf8

/-! ## ASCII characters in a lenient reading -/

/-- The bits read so far and the range of the next byte leave only numbers above ASCII. -/
structure Begun.AboveAscii (g : Begun) : Prop where
  low_le : 0x80 ≤ g.low
  least_le : 0x80 ≤ (64 * g.bits + (g.low - 0x80)) * 64 ^ g.after

/-- A byte between characters is an ASCII character, or it is above ASCII like what it begins. -/
theorem lead_cases (b : Nat) :
    (b < 0x80 ∧ lead b = .whole (Char.ofNat b)) ∨
      (0x80 ≤ b ∧ (lead b = .stray ∨ ∃ g : Begun, g.AboveAscii ∧ lead b = .begun g)) := by
  unfold lead
  split
  · next h => exact .inl ⟨h, rfl⟩
  next h =>
  refine .inr ⟨Nat.le_of_not_lt h, ?_⟩
  -- What is left is stray, or it begins a character of two, three or four bytes.
  split
  · exact .inl rfl
  split
  · exact .inr ⟨_, ⟨Nat.le_refl _, by simp only [Nat.pow_zero]; omega⟩, rfl⟩
  split
  · refine .inr ⟨_, ⟨?_, ?_⟩, rfl⟩
    · dsimp only
      split <;> omega
    · dsimp only
      split <;> omega
  split
  · refine .inr ⟨_, ⟨?_, ?_⟩, rfl⟩
    · dsimp only
      split <;> omega
    · dsimp only
      split <;> omega
  · exact .inl rfl

/-- A byte in the range keeps the number above ASCII. -/
theorem Begun.AboveAscii.le_bits {g : Begun} (hg : g.AboveAscii) {b : Nat} (hb : g.low ≤ b) :
    0x80 ≤ (64 * g.bits + (b - 0x80)) * 64 ^ g.after := by
  refine hg.least_le.trans (Nat.mul_le_mul_right _ ?_)
  omega

/-- A byte that cannot follow what has been begun is read anew. -/
theorem decodeFrom_some_cons_of_not {g : Begun} {b : UInt8}
    (h : ¬ (g.low ≤ b.toNat ∧ b.toNat ≤ g.high)) (bs : List UInt8) :
    decodeFrom (some g) (b :: bs) = replacement :: decodeFrom none (b :: bs) := by
  rw [decodeFrom.eq_def, decodeFrom.eq_def none]
  simp only [if_neg h]
  split <;> rfl

/-- What a byte adds to the text has the character exactly if the byte is that character's, and what
it leaves begun is above ASCII. -/
def Reads (c : Char) (begun : Option Begun) (b : UInt8) : Prop :=
  ∃ (added : List Char) (next : Option Begun),
    (∀ bs, decodeFrom begun (b :: bs) = added ++ decodeFrom next bs) ∧
      (c ∈ added ↔ c.toNat = b.toNat) ∧ ∀ g ∈ next, g.AboveAscii

section Ascii

variable {c : Char} (hpos : 0 < c.toNat) (hlt : c.toNat < 0x80)

include hpos in
theorem eq_ofNat_iff {n : Nat} : c = Char.ofNat n ↔ c.toNat = n := by
  rw [← Char.toNat_inj, Char.toNat_ofNat]
  constructor
  · intro h
    split at h
    · exact h
    · exact absurd h hpos.ne'
  · rintro rfl
    rw [← Char.toNat_ofNat, Char.ofNat_toNat]

include hlt in
theorem ne_replacement : c ≠ replacement := by
  rintro rfl
  exact absurd hlt (by decide)

include hpos hlt

theorem reads_none (b : UInt8) : Reads c none b := by
  have hreplacement : c ≠ replacement := ne_replacement hlt
  rcases lead_cases b.toNat with ⟨-, hwhole⟩ | ⟨hb, hstray | ⟨g, hg, hbegun⟩⟩
  · refine ⟨[Char.ofNat b.toNat], none, fun bs => ?_, ?_, by simp⟩
    · rw [decodeFrom.eq_def]
      simp only [hwhole, List.singleton_append]
    · rw [List.mem_singleton, eq_ofNat_iff hpos]
  · refine ⟨[replacement], none, fun bs => ?_, ?_, by simp⟩
    · rw [decodeFrom.eq_def]
      simp only [hstray, List.singleton_append]
    · rw [List.mem_singleton]
      exact iff_of_false hreplacement (by omega)
  · refine ⟨[], some g, fun bs => ?_, ?_, by simpa using hg⟩
    · rw [decodeFrom.eq_def]
      simp only [hbegun, List.nil_append]
    · exact iff_of_false List.not_mem_nil (by omega)

theorem reads_some {g : Begun} (hg : g.AboveAscii) (b : UInt8) : Reads c (some g) b := by
  by_cases hrange : g.low ≤ b.toNat ∧ b.toNat ≤ g.high
  -- In the range the byte is above ASCII, and so is the number that it goes into.
  · have hne : c.toNat ≠ b.toNat := by
      have := hg.low_le
      omega
    have hbits := hg.le_bits hrange.1
    cases hafter : g.after with
    | zero =>
      rw [hafter, Nat.pow_zero, Nat.mul_one] at hbits
      refine ⟨[Char.ofNat (64 * g.bits + (b.toNat - 0x80))], none, fun bs => ?_, ?_, by simp⟩
      · rw [decodeFrom.eq_def]
        simp only [if_pos hrange, hafter, List.singleton_append]
      · rw [List.mem_singleton, eq_ofNat_iff hpos]
        exact iff_of_false (by omega) hne
    | succ k =>
      refine ⟨[], some ⟨64 * g.bits + (b.toNat - 0x80), 0x80, 0xBF, k⟩, fun bs => ?_,
        iff_of_false List.not_mem_nil hne, ?_⟩
      · rw [decodeFrom.eq_def]
        simp only [if_pos hrange, hafter, List.nil_append]
      · intro g' hg'
        obtain rfl := Option.some.inj hg'
        rw [hafter, Nat.pow_succ', ← Nat.mul_assoc] at hbits
        refine ⟨Nat.le_refl _, ?_⟩
        simpa only [Nat.sub_self, Nat.add_zero, Nat.mul_comm 64] using hbits
  · obtain ⟨added, next, hdecode, hadded, hnext⟩ := reads_none hpos hlt b
    refine ⟨replacement :: added, next, fun bs => ?_, ?_, hnext⟩
    · rw [decodeFrom_some_cons_of_not hrange, hdecode, List.cons_append]
    · rw [List.mem_cons, or_iff_right (ne_replacement hlt), hadded]

/-- An ASCII character other than zero is read exactly where its byte stands, whatever has been
begun. -/
theorem mem_decodeFrom_iff {begun : Option Begun} (hbegun : ∀ g ∈ begun, g.AboveAscii)
    (bytes : List UInt8) : c ∈ decodeFrom begun bytes ↔ c.toNat ∈ bytes.map UInt8.toNat := by
  -- What has been begun changes with each byte, but it stays above ASCII.
  induction bytes generalizing begun with
  | nil =>
    cases begun with
    | none => exact iff_of_false List.not_mem_nil List.not_mem_nil
    | some g =>
      refine iff_of_false ?_ List.not_mem_nil
      exact mt List.mem_singleton.1 (ne_replacement hlt)
  | cons b bytes ih =>
    have hreads : Reads c begun b := by
      cases begun with
      | none => exact reads_none hpos hlt b
      | some g => exact reads_some hpos hlt (hbegun g rfl) b
    obtain ⟨added, next, hdecode, hadded, hnext⟩ := hreads
    rw [hdecode, List.mem_append, hadded, ih hnext, List.map_cons, List.mem_cons]

theorem mem_decode_iff (bytes : List UInt8) :
    c ∈ decode bytes ↔ c.toNat ∈ bytes.map UInt8.toNat :=
  mem_decodeFrom_iff hpos hlt (by simp) bytes

end Ascii

end Text.Utf8

namespace Path

variable {p : Path}

/-! ## The last component -/

theorem slash_mem_decode_iff (bytes : List UInt8) :
    '/' ∈ Text.Utf8.decode bytes ↔ slash ∈ bytes := by
  rw [Text.Utf8.mem_decode_iff (by decide) (by decide)]
  exact List.mem_map_of_injective (a := slash) (fun _ _ => UInt8.toNat_inj.1)

theorem component?_eq_parent_or_name {piece : List UInt8} {x : Component}
    (h : component? piece = some x) : x = .parent ∨ ∃ name, x = .name name := by
  unfold component? at h
  split at h
  · cases h
  · split at h
    · exact .inl (Option.some.inj h).symm
    · exact .inr ⟨piece, (Option.some.inj h).symm⟩

theorem length_lead_le_one (p : Path) : p.lead.length ≤ 1 := by
  unfold lead
  split
  · exact Nat.le_refl 1
  · split
    · exact Nat.le_refl 1
    · exact Nat.zero_le 1

/-- Of several components only the first one may be no name and not the directory above. -/
theorem getLast?_eq_parent_or_name (h : 1 < p.components.length) :
    p.components.getLast? = some .parent ∨ ∃ name, p.components.getLast? = some (.name name) := by
  rw [components_eq] at h ⊢
  -- The lead is one component at most, so the last of several comes from a piece.
  have hlead := p.length_lead_le_one
  rcases List.eq_nil_or_concat' ((p.bytes.splitOn slash).filterMap component?) with
    hnil | ⟨rest, x, hx⟩
  · rw [hnil, List.append_nil] at h
    omega
  · have hmem : x ∈ (p.bytes.splitOn slash).filterMap component? := by
      rw [hx]
      exact List.mem_append_right _ List.mem_cons_self
    obtain ⟨piece, -, hpiece⟩ := List.mem_filterMap.1 hmem
    rw [hx, ← List.append_assoc, List.getLast?_concat]
    rcases component?_eq_parent_or_name hpiece with rfl | ⟨name, rfl⟩
    · exact .inl rfl
    · exact .inr ⟨name, rfl⟩

/-- A path that has no slash is a single piece. -/
theorem length_components_le_one (h : slash ∉ p.bytes) : p.components.length ≤ 1 := by
  have hpieces := split_eq_splitOn p.bytes
  rw [List.splitOn_eq_singleton h, List.cons.injEq] at hpieces
  have hsplit : split p.bytes = (p.bytes, []) := Prod.ext hpieces.1 hpieces.2
  rw [components, hsplit]
  simp only [List.filterMap_nil, List.append_nil]
  split
  · exact Nat.le_refl 1
  · split
    · exact Nat.le_refl 1
    · cases component? p.bytes <;> simp

/-- The base name of a path with several components has a slash exactly if the path ends in the
directory above. -/
theorem slash_mem_baseName_iff (h : 1 < p.components.length) :
    '/' ∈ p.baseName ↔ p.components.getLast? = some .parent := by
  rcases getLast?_eq_parent_or_name h with hparent | ⟨name, hname⟩
  · have hslash : slash ∈ p.bytes := by
      by_contra hnone
      exact absurd h (Nat.not_lt.2 (length_components_le_one hnone))
    refine iff_of_true ?_ hparent
    have hfile : p.fileName? = none := by rw [fileName?, hparent]
    rw [baseName, hfile]
    exact (slash_mem_decode_iff p.bytes).2 hslash
  · have hfile := fileName?_eq_some_iff_getLast?.2 hname
    obtain ⟨before, after, hends⟩ := fileName?_eq_some_iff.1 hfile
    rw [baseName, hfile, hname]
    exact iff_of_false (mt (slash_mem_decode_iff name).1 hends.isName.slash_not_mem) (by simp)

end Path

namespace Rom

/-! ## The text of a failure -/

theorem slash_not_mem_toDigits (n : Nat) : '/' ∉ Nat.toDigits 10 n := by
  intro h
  have hdigit := Nat.isDigit_of_mem_toDigits (by decide) (by decide) h
  exact Bool.noConfusion hdigit

namespace LoadError

/-- The name of the file that was not loaded. -/
def name : LoadError → String
  | notFound name | unreadable name | badSize name _ => name

/-- The text of a failure has no slash but those of the name. -/
theorem slash_mem_message_iff (e : LoadError) :
    '/' ∈ e.message.toList ↔ '/' ∈ e.name.toList := by
  cases e <;> simp [message, name, slash_not_mem_toDigits]

end LoadError

theorem Refused.name_eq {name : String} {file : FileView} {e : LoadError}
    (h : Refused name file e) : e.name = name := by
  cases h <;> rfl

end Rom

/-- When a file is not loaded and its path has more than one component, the name and the text of the
failure have a slash exactly if the last component is the directory above. -/
theorem loadFile_error_shows_slash_iff {m : Machine} {path : Path} {file : Rom.FileView}
    {e : Rom.LoadError} (hmany : 1 < path.components.length)
    (herror : (m.loadFile path file).1 = .error e) :
    ('/' ∈ e.name.toList ↔ path.components.getLast? = some .parent) ∧
      ('/' ∈ e.message.toList ↔ path.components.getLast? = some .parent) := by
  have hname : e.name = .ofList path.baseName :=
    ((m.loadFile_eq_error_iff path file e).1 herror).name_eq
  have hslash : '/' ∈ e.name.toList ↔ path.components.getLast? = some .parent := by
    rw [hname, String.toList_ofList]
    exact Path.slash_mem_baseName_iff hmany
  exact ⟨hslash, e.slash_mem_message_iff.trans hslash⟩

/-- Superfluous slashes and dots do not bring the directories in. -/
theorem long_path_stays_hidden :
    let path : Path := .ofString "roms//./games/../x.ch8/"
    let e : Rom.LoadError := .badSize "x.ch8" 4000
    1 < path.components.length ∧ (Machine.new.loadFile path (.regular 4000 none)).1 = .error e ∧
      '/' ∉ e.name.toList ∧ '/' ∉ e.message.toList := by
  intro path e
  have hmany : 1 < path.components.length := by decide +kernel
  have herror : (Machine.new.loadFile path (.regular 4000 none)).1 = .error e := by decide +kernel
  have hlast : path.components.getLast? ≠ some .parent := by decide +kernel
  obtain ⟨hname, hmessage⟩ := loadFile_error_shows_slash_iff hmany herror
  exact ⟨hmany, herror, mt hname.1 hlast, mt hmessage.1 hlast⟩

/-- A path that ends in the directory above is shown in full. -/
theorem path_to_parent_is_shown :
    let path : Path := .ofString "a/.."
    let e : Rom.LoadError := .notFound "a/.."
    1 < path.components.length ∧ (Machine.new.loadFile path .absent).1 = .error e ∧
      '/' ∈ e.name.toList ∧ '/' ∈ e.message.toList := by
  decide +kernel

end Chip8
