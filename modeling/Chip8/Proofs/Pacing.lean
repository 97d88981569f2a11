import Chip8.Proofs.Frames
import Mathlib.Data.Rat.Floor
import Mathlib.Tactic.Linarith
import Mathlib.Tactic.Ring

/-!
# Pacing loses no instruction

A pacer with exact numbers executes the whole part of what is due and carries the fraction on. After
any spans of time the carried fraction is the fractional part of everything that was due, and the
counts add up to its whole part, provided that none of them had to be clamped to 32 bits
(`Pacer.carry_after`, `Pacer.sum_counts`). Each count by itself is the whole part of what its own
span asks for, or one more.

The frames of a runner are paced in this way as long as it lets its machine run. So the instructions
executed depend on the whole time alone and not on its division into frames
(`sum_counts_eq_floor`).
-/

set_option autoImplicit false

namespace Chip8

/-! ## Spans of any numbers -/

namespace Pacer

section

variable {α : Type} [PaceNumber α]

/-- The whole number of instructions of a span, before it is clamped. -/
def whole (p : Pacer α) (span : Nat) : α :=
  let due : α := PaceNumber.due p.speed span
  if 1 ≤ p.carry + (due - PaceNumber.floor due) then PaceNumber.floor due + 1
  else PaceNumber.floor due

/-- The pacer after a sequence of spans. -/
def after (p : Pacer α) (spans : List Nat) : Pacer α :=
  spans.foldl (fun p span => (p.advance span).2) p

/-- The counts of a sequence of spans. -/
def counts : Pacer α → List Nat → List UInt32
  | _, [] => []
  | p, span :: spans => (p.advance span).1 :: counts (p.advance span).2 spans

theorem after_cons (p : Pacer α) (span : Nat) (spans : List Nat) :
    p.after (span :: spans) = (p.advance span).2.after spans := rfl

/-- A count is the whole number, clamped. -/
theorem advance_count (p : Pacer α) (span : Nat) :
    (p.advance span).1 = PaceNumber.count (p.whole span) := by
  rw [advance, whole]
  split
  · rfl
  · rfl

@[simp]
theorem advance_speed (p : Pacer α) (span : Nat) : (p.advance span).2.speed = p.speed := by
  rw [advance]
  split
  · rfl
  · rfl

end

/-! ## Exact numbers -/

/-- What is carried is a proper fraction. -/
def Proper (p : Pacer Rat) : Prop := 0 ≤ p.carry ∧ p.carry < 1

/-- The instructions that spans of so many nanoseconds altogether ask for, the carried fraction
included. -/
def owed (p : Pacer Rat) (nanos : Nat) : Rat :=
  p.carry + (p.speed.toNat : Rat) * ((nanos : Rat) / 1000000000)

/-- No count of a sequence of spans is too great for 32 bits. -/
def Unclamped : Pacer Rat → List Nat → Prop
  | _, [] => True
  | p, span :: spans => p.whole span ≤ 4294967295 ∧ Unclamped (p.advance span).2 spans

section

variable {p : Pacer Rat} (span : Nat)

/-- What is owed, divided into the whole part of what the span asks for and the fractions. -/
theorem owed_eq_floor_add (p : Pacer Rat) :
    let due : Rat := PaceNumber.due p.speed span
    p.owed span = ⌊due⌋ + (p.carry + Int.fract due) := by
  intro due
  have hdue : (⌊due⌋ : Rat) + Int.fract due = due := Int.floor_add_fract due
  show p.carry + due = _
  linarith

/-- The whole number of a span is the whole part of what is owed. -/
theorem whole_eq_floor (h : p.Proper) : p.whole span = (⌊p.owed span⌋ : Rat) := by
  obtain ⟨hnonneg, hlt⟩ := h
  let due : Rat := PaceNumber.due p.speed span
  have howed : ⌊p.owed span⌋ = ⌊due⌋ + ⌊p.carry + Int.fract due⌋ := by
    rw [owed_eq_floor_add, Int.floor_intCast_add]
  have hfract := Int.fract_nonneg due
  have hfractLt := Int.fract_lt_one due
  show (if 1 ≤ p.carry + Int.fract due then (⌊due⌋ : Rat) + 1 else ⌊due⌋) = _
  -- Two proper fractions make up at most one instruction.
  split
  · next hone =>
    have hfloor : ⌊p.carry + Int.fract due⌋ = 1 := by
      rw [Int.floor_eq_iff]
      constructor
      · simpa using hone
      · push_cast
        linarith
    rw [howed, hfloor]
    push_cast
    rfl
  · next hone =>
    have hfloor : ⌊p.carry + Int.fract due⌋ = 0 :=
      Int.floor_eq_zero_iff.2 ⟨by linarith, not_le.1 hone⟩
    rw [howed, hfloor, add_zero]

/-- The fraction carried on is that of what is owed. -/
theorem advance_carry (h : p.Proper) : (p.advance span).2.carry = Int.fract (p.owed span) := by
  let due : Rat := PaceNumber.due p.speed span
  have howed : Int.fract (p.owed span) = Int.fract (p.carry + Int.fract due) := by
    rw [owed_eq_floor_add, Int.fract_intCast_add]
  have hnonneg : 0 ≤ p.carry + Int.fract due := add_nonneg h.1 (Int.fract_nonneg due)
  rw [howed, advance]
  split
  · rfl
  · next hone => exact (Int.fract_eq_self.2 ⟨hnonneg, not_le.1 hone⟩).symm

theorem Proper.advance (h : p.Proper) : (p.advance span).2.Proper := by
  rw [Proper, advance_carry span h]
  exact ⟨Int.fract_nonneg _, Int.fract_lt_one _⟩

/-- What is owed after a span and some more time: the whole number of the span, and what is owed
after the rest of the time. -/
theorem owed_add (h : p.Proper) (nanos : Nat) :
    p.owed (span + nanos) = ⌊p.owed span⌋ + (p.advance span).2.owed nanos := by
  have hsplit : (⌊p.owed span⌋ : Rat) + Int.fract (p.owed span) = p.owed span :=
    Int.floor_add_fract _
  have hrest : (p.advance span).2.owed nanos =
      Int.fract (p.owed span) + (p.speed.toNat : Rat) * ((nanos : Rat) / 1000000000) := by
    rw [owed, advance_carry span h, advance_speed]
  calc p.owed (span + nanos)
      = p.owed span + (p.speed.toNat : Rat) * ((nanos : Rat) / 1000000000) := by
        rw [owed, owed]
        push_cast
        ring
    _ = ⌊p.owed span⌋ + (p.advance span).2.owed nanos := by
        rw [hrest, ← add_assoc, hsplit]

/-- A whole number that fits into 32 bits is counted in full. -/
theorem toNat_count {n : Int} (hnonneg : 0 ≤ n) (hle : n ≤ 4294967295) :
    ((PaceNumber.count (n : Rat) : UInt32).toNat : Int) = n := by
  show ((UInt32.ofNat (min (⌊(n : Rat)⌋).toNat 4294967295)).toNat : Int) = n
  rw [Int.floor_intCast, UInt32.toNat_ofNat']
  omega

/-- A count that is not clamped is the whole part of what is owed. -/
theorem toNat_advance (h : p.Proper) (hle : p.whole span ≤ 4294967295) :
    ((p.advance span).1.toNat : Int) = ⌊p.owed span⌋ := by
  rw [whole_eq_floor span h] at hle
  have hspeed : (0 : Rat) ≤ p.speed.toNat := Nat.cast_nonneg _
  have howed : 0 ≤ p.owed span := by
    have hspan : (0 : Rat) ≤ (span : Rat) / 1000000000 := by positivity
    exact add_nonneg h.1 (mul_nonneg hspeed hspan)
  rw [advance_count, whole_eq_floor span h]
  exact toNat_count (Int.floor_nonneg.2 howed) (by exact_mod_cast hle)

/-- A count that is not clamped is the whole part of what its span asks for, or one more. -/
theorem toNat_advance_eq_or (h : p.Proper) (hle : p.whole span ≤ 4294967295) :
    let due : Rat := PaceNumber.due p.speed span
    ((p.advance span).1.toNat : Int) = ⌊due⌋ ∨ ((p.advance span).1.toNat : Int) = ⌊due⌋ + 1 := by
  intro due
  have hfloor : ((p.advance span).1.toNat : Rat) = p.whole span := by
    rw [whole_eq_floor span h, ← toNat_advance span h hle]
    rfl
  have hwhole : p.whole span = (⌊due⌋ : Rat) ∨ p.whole span = (⌊due⌋ : Rat) + 1 := by
    rw [whole]
    split
    · exact .inr rfl
    · exact .inl rfl
  rcases hwhole with heq | heq
  · left
    rw [heq] at hfloor
    exact_mod_cast hfloor
  · right
    rw [heq] at hfloor
    exact_mod_cast hfloor

end

/-! ## Sequences of spans -/

/-- The fraction carried after a sequence of spans depends on their sum alone. -/
theorem carry_after {p : Pacer Rat} (h : p.Proper) (spans : List Nat) :
    (p.after spans).carry = Int.fract (p.owed spans.sum) := by
  induction spans generalizing p with
  | nil =>
    have howed : p.owed 0 = p.carry := by simp [owed]
    rw [List.sum_nil, howed, Int.fract_eq_self.2 h]
    rfl
  | cons span spans ih =>
    rw [after_cons, ih (h.advance span), List.sum_cons, owed_add span h, Int.fract_intCast_add]

/-- No instruction is lost and none is executed too early: the counts add up to the whole part of
what is owed for the sum of the spans. -/
theorem sum_counts {p : Pacer Rat} (h : p.Proper) {spans : List Nat} (hfits : p.Unclamped spans) :
    (((p.counts spans).map UInt32.toNat).sum : Int) = ⌊p.owed spans.sum⌋ := by
  induction spans generalizing p with
  | nil =>
    have howed : p.owed 0 = p.carry := by simp [owed]
    rw [List.sum_nil, howed, Int.floor_eq_zero_iff.2 h]
    rfl
  | cons span spans ih =>
    have hfirst := toNat_advance span h hfits.1
    have hrest := ih (h.advance span) hfits.2
    rw [counts, List.map_cons, List.sum_cons, List.sum_cons, Nat.cast_add, hfirst, hrest,
      owed_add span h, Int.floor_intCast_add]

/-- Each count is the whole part of what its own span asks for, or one more. -/
theorem forall₂_counts {p : Pacer Rat} (h : p.Proper) {spans : List Nat}
    (hfits : p.Unclamped spans) :
    List.Forall₂ (fun span count => let due : Rat := PaceNumber.due p.speed span
      ((count : UInt32).toNat : Int) = ⌊due⌋ ∨ (count.toNat : Int) = ⌊due⌋ + 1)
      spans (p.counts spans) := by
  induction spans generalizing p with
  | nil => exact .nil
  | cons span spans ih =>
    have hrest := ih (h.advance span) hfits.2
    rw [advance_speed] at hrest
    exact .cons (toNat_advance_eq_or span h hfits.1) hrest

end Pacer

/-! ## Frames of a runner -/

/-- A call of a runner for a frame: the machine that it is made for, its length, the keys held, and
the host that it finds. -/
structure Runner.FrameCall (σ : Type) where
  machine : Machine
  span : Nat
  keys : HeldKeys
  host : σ

namespace Runner

section

variable {α σ : Type} [PaceNumber α] [Host (StateM σ)]

/-- The count that an update gives back, and the runner after it. -/
def answer (r : Runner α) (c : FrameCall σ) : UInt32 × Runner α :=
  let updated := ((r.update c.machine c.span c.keys : StateM σ _).run c.host).1
  (updated.1, updated.2.1)

/-- The runner after a sequence of frames. -/
def afterFrames (r : Runner α) (calls : List (FrameCall σ)) : Runner α :=
  calls.foldl (fun r c => (r.answer c).2) r

/-- The counts that a sequence of frames gives back. -/
def frameCounts : Runner α → List (FrameCall σ) → List UInt32
  | _, [] => []
  | r, c :: calls => (r.answer c).1 :: frameCounts (r.answer c).2 calls

/-- Every frame of a sequence finds the runner running, and none detects a loop. -/
def KeepsGoing : Runner α → List (FrameCall σ) → Prop
  | _, [] => True
  | r, c :: calls => r.Lets c.machine.isLooping ∧ KeepsGoing (r.answer c).2 calls

theorem answer_eq (r : Runner α) (c : FrameCall σ) :
    r.answer c =
      ((r.frame c.span c.machine.isLooping).1.count, (r.frame c.span c.machine.isLooping).2) := by
  rw [answer, update_eq_map]
  rfl

/-- A runner that lets the machine run paces the frame, whatever machine and host. -/
theorem answer_of_lets {r : Runner α} {c : FrameCall σ} (h : r.Lets c.machine.isLooping) :
    (r.answer c).1 = (r.pacer.advance c.span).1 ∧
      (r.answer c).2.pacer = (r.pacer.advance c.span).2 := by
  rw [answer_eq, frame_of_lets h]
  exact ⟨rfl, rfl⟩

/-- A runner that is running keeps going while no machine jumps to its own address. -/
theorem KeepsGoing.of_not_looping {r : Runner α} {calls : List (FrameCall σ)}
    (hrun : r.isRunning = true) (h : ∀ c ∈ calls, c.machine.isLooping = false) :
    r.KeepsGoing calls := by
  induction calls generalizing r with
  | nil => exact trivial
  | cons c calls ih =>
    have hlets : r.Lets c.machine.isLooping :=
      ⟨hrun, fun hloop => by simp [h c List.mem_cons_self] at hloop⟩
    refine ⟨hlets, ih ?_ fun c' hc' => h c' (List.mem_cons_of_mem c hc')⟩
    rw [answer_eq, frame_of_lets hlets]
    exact hrun

theorem pacer_afterFrames {r : Runner α} {calls : List (FrameCall σ)} (h : r.KeepsGoing calls) :
    (r.afterFrames calls).pacer = r.pacer.after (calls.map FrameCall.span) := by
  induction calls generalizing r with
  | nil => rfl
  | cons c calls ih =>
    have hrest := ih h.2
    rw [(answer_of_lets h.1).2] at hrest
    exact hrest

theorem frameCounts_eq_counts {r : Runner α} {calls : List (FrameCall σ)} (h : r.KeepsGoing calls) :
    r.frameCounts calls = r.pacer.counts (calls.map FrameCall.span) := by
  induction calls generalizing r with
  | nil => rfl
  | cons c calls ih =>
    have hrest := ih h.2
    rw [(answer_of_lets h.1).2] at hrest
    rw [frameCounts, (answer_of_lets h.1).1, hrest]
    rfl

end

end Runner

/-- Pacing with exact numbers loses no instruction and invents none. Take any runner that carries a
proper fraction, and any frames, of whatever lengths and for whatever machines, in which it keeps
running and detects no loop. The fraction carried afterwards is the fractional part of all that was
due, the fraction carried before included. If no count is too great for 32 bits, the counts add up
to the whole part, and each is the whole part of what its own frame asks for, or one more. So other
frames that take the same time altogether make the same number of instructions and leave the same
fraction. -/
theorem sum_counts_eq_floor {σ : Type} [Host (StateM σ)] (r : Runner Rat)
    (calls : List (Runner.FrameCall σ)) (hcarry : 0 ≤ r.pacer.carry ∧ r.pacer.carry < 1)
    (hgoes : r.KeepsGoing calls) :
    let speed : Rat := r.pacer.speed.toNat
    let time := fun calls : List (Runner.FrameCall σ) => (calls.map Runner.FrameCall.span).sum
    let fits := fun calls : List (Runner.FrameCall σ) =>
      r.pacer.Unclamped (calls.map Runner.FrameCall.span)
    let total := fun calls : List (Runner.FrameCall σ) =>
      ((r.frameCounts calls).map UInt32.toNat).sum
    let due := r.pacer.carry + speed * ((time calls : Rat) / 1000000000)
    let carried := (r.afterFrames calls).pacer.carry
    (carried = Int.fract due ∧ 0 ≤ carried ∧ carried < 1) ∧
      (fits calls →
        (total calls : Int) = ⌊due⌋ ∧
        List.Forall₂ (fun c count => let asked := speed * ((c.span : Rat) / 1000000000)
          (count.toNat : Int) = ⌊asked⌋ ∨ (count.toNat : Int) = ⌊asked⌋ + 1)
          calls (r.frameCounts calls)) ∧
      ∀ others, r.KeepsGoing others → time others = time calls →
        (r.afterFrames others).pacer.carry = carried ∧
          (fits calls → fits others → total others = total calls) := by
  intro speed time fits total due carried
  have hleft : ∀ calls, r.KeepsGoing calls →
      (r.afterFrames calls).pacer.carry = Int.fract (r.pacer.owed (time calls)) := by
    intro calls hgoes
    rw [Runner.pacer_afterFrames hgoes]
    exact Pacer.carry_after hcarry _
  have hsum : ∀ calls, r.KeepsGoing calls → fits calls →
      (total calls : Int) = ⌊r.pacer.owed (time calls)⌋ := by
    intro calls hgoes hfits
    show (((r.frameCounts calls).map UInt32.toNat).sum : Int) = _
    rw [Runner.frameCounts_eq_counts hgoes]
    exact Pacer.sum_counts hcarry hfits
  have hcarried : carried = Int.fract due := hleft calls hgoes
  refine ⟨⟨hcarried, ?_, ?_⟩, fun hfits => ⟨hsum calls hgoes hfits, ?_⟩, ?_⟩
  · rw [hcarried]
    exact Int.fract_nonneg due
  · rw [hcarried]
    exact Int.fract_lt_one due
  · rw [Runner.frameCounts_eq_counts hgoes]
    exact List.forall₂_map_left_iff.1 (Pacer.forall₂_counts hcarry hfits)
  · intro others hothers htime
    have hsame := hleft others hothers
    rw [htime] at hsame
    refine ⟨hsame.trans (hleft calls hgoes).symm, fun hfits hotherFits => ?_⟩
    have hequal := hsum others hothers hotherFits
    rw [htime, ← hsum calls hgoes hfits] at hequal
    exact_mod_cast hequal

/-- A running runner of 500 instructions a second that carries a quarter of an instruction. -/
def quarterCarried : Runner Rat :=
  { (Runner.ofSettings .default : Runner Rat).start with pacer := ⟨500, 1 / 4⟩ }

/-- Three frames of unequal lengths. -/
def unevenFrames : List (Runner.FrameCall Tape) :=
  [16667000, 5000000, 400000].map fun span =>
    ⟨.new, span, Keypad.none, ⟨0, fun _ => 1, fun _ => 0⟩⟩

theorem unevenFrames_counted :
    (0 ≤ quarterCarried.pacer.carry ∧ quarterCarried.pacer.carry < 1) ∧
      quarterCarried.KeepsGoing unevenFrames ∧
      quarterCarried.pacer.Unclamped (unevenFrames.map Runner.FrameCall.span) ∧
      quarterCarried.frameCounts unevenFrames = [8, 3, 0] ∧
      (((quarterCarried.frameCounts unevenFrames).map UInt32.toNat).sum : Int) =
        ⌊(1 / 4 + 500 * (22067000 / 1000000000) : Rat)⌋ ∧
      (quarterCarried.afterFrames unevenFrames).pacer.carry = 567 / 2000 := by
  have hcarry : 0 ≤ quarterCarried.pacer.carry ∧ quarterCarried.pacer.carry < 1 := by
    decide +kernel
  have hgoes : quarterCarried.KeepsGoing unevenFrames := by
    apply Runner.KeepsGoing.of_not_looping rfl
    intro c hc
    obtain ⟨span, -, rfl⟩ := List.mem_map.1 hc
    rfl
  have hfits : quarterCarried.pacer.Unclamped (unevenFrames.map Runner.FrameCall.span) := by
    refine ⟨?_, ?_, ?_, trivial⟩
    · decide +kernel
    · decide +kernel
    · decide +kernel
  obtain ⟨⟨hleft, -⟩, hcounts, -⟩ := sum_counts_eq_floor quarterCarried unevenFrames hcarry hgoes
  refine ⟨hcarry, hgoes, hfits, ?_, (hcounts hfits).1, ?_⟩
  · decide +kernel
  · rw [hleft]
    decide +kernel

end Chip8
