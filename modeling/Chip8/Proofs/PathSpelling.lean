import Mathlib.Data.List.Basic
import Mathlib.Logic.Relation
import Chip8.Rom

/-!
# Spellings of a path

A path ends in a name exactly if it is written as that name with nothing or some directories and a
slash before it, and with nothing but slashes and single dots after it
(`Path.fileName?_eq_some_iff`). What stands there can be respelled without any change of the name
(`Path.Respells.fileName?_eq`).

An image is named after the base name, cut in two before its last dot. Nothing gets lost there, and
respelling the path changes neither part (`info_splits_baseName`).
-/

set_option autoImplicit false

namespace Chip8

namespace Path

/-! ## Pieces and components -/

theorem split_cons (b : UInt8) (bytes : List UInt8) :
    split (b :: bytes) = if b = slash then ([], (split bytes).1 :: (split bytes).2)
      else (b :: (split bytes).1, (split bytes).2) := rfl

theorem split_eq_splitOn (bytes : List UInt8) :
    (split bytes).1 :: (split bytes).2 = bytes.splitOn slash := by
  induction bytes with
  | nil => rfl
  | cons b bytes ih =>
    rw [List.splitOn_cons_eq_if_modifyHead, ← ih, split_cons]
    simp only [beq_iff_eq, List.modifyHead_cons]
    split <;> rfl

theorem slash_not_mem_of_mem_splitOn {bytes piece : List UInt8}
    (h : piece ∈ bytes.splitOn slash) : slash ∉ piece := by
  induction bytes generalizing piece with
  | nil => simp_all
  | cons b bytes ih =>
    rw [← split_eq_splitOn, split_cons] at h
    rw [← split_eq_splitOn] at ih
    split at h
    · rcases List.mem_cons.1 h with rfl | h
      · exact List.not_mem_nil
      · exact ih h
    · next hb =>
      rcases List.mem_cons.1 h with rfl | h
      · rw [List.mem_cons, not_or]
        exact ⟨Ne.symm hb, ih List.mem_cons_self⟩
      · exact ih (List.mem_cons_of_mem _ h)

/-- A piece that is a name. -/
structure IsName (piece : List UInt8) : Prop where
  slash_not_mem : slash ∉ piece
  ne_nil : piece ≠ []
  ne_dot : piece ≠ [dot]
  ne_dots : piece ≠ [dot, dot]

theorem component?_eq_none_iff {piece : List UInt8} :
    component? piece = none ↔ piece = [] ∨ piece = [dot] := by
  unfold component?
  split
  · next h => simp only [h]
  · next h => split <;> simp [h]

theorem component?_eq_name_iff {piece name : List UInt8} :
    component? piece = some (.name name) ↔
      piece = name ∧ name ≠ [] ∧ name ≠ [dot] ∧ name ≠ [dot, dot] := by
  unfold component?
  split
  · next h =>
    refine iff_of_false (by simp) ?_
    rintro ⟨rfl, hnil, hdot, -⟩
    exact h.elim hnil hdot
  · next h =>
    split
    · next hdots =>
      refine iff_of_false (by simp) ?_
      rintro ⟨rfl, -, -, hne⟩
      exact hne hdots
    · next hdots =>
      rw [Option.some.injEq, Component.name.injEq]
      refine ⟨?_, And.left⟩
      rintro rfl
      exact ⟨rfl, not_or.1 h |>.1, not_or.1 h |>.2, hdots⟩

/-- What a path has before its pieces. -/
def lead (p : Path) : List Component :=
  if p.isRooted then [.root] else if (split p.bytes).1 = [dot] then [.here] else []

/-- The components are those of the pieces, with the root or the leading dot before them. -/
theorem components_eq (p : Path) :
    p.components = p.lead ++ (p.bytes.splitOn slash).filterMap component? := by
  rw [← split_eq_splitOn, components, lead]
  by_cases hrooted : p.isRooted = true
  -- The first piece of a rooted path is empty, so it adds nothing after the root.
  · have hpiece : (split p.bytes).1 = [] := by
      obtain ⟨bytes⟩ := p
      cases bytes with
      | nil => rfl
      | cons b bytes =>
        have hb : b = slash := by simpa [isRooted] using hrooted
        rw [split_cons, if_pos hb]
    simp [hrooted, hpiece, component?]
  · by_cases hdot : (split p.bytes).1 = [dot]
    · simp [hrooted, hdot, component?]
    · cases hpiece : component? (split p.bytes).1 <;> simp [hrooted, hdot, hpiece]

theorem getLast?_lead (p : Path) (name : List UInt8) : p.lead.getLast? ≠ some (.name name) := by
  unfold lead
  split
  · simp
  · split <;> simp

theorem fileName?_eq_some_iff_getLast? {p : Path} {name : List UInt8} :
    p.fileName? = some name ↔ p.components.getLast? = some (.name name) := by
  unfold fileName?
  split
  · next bytes h => simp [h]
  · next h => simpa using h name

/-- The name is the last one of the pieces that count. -/
theorem fileName?_eq_some_iff_splitOn {p : Path} {name : List UInt8} :
    p.fileName? = some name ↔ ∃ dirs rest, p.bytes.splitOn slash = dirs ++ name :: rest ∧
      (name ≠ [] ∧ name ≠ [dot] ∧ name ≠ [dot, dot]) ∧
      ∀ piece ∈ rest, component? piece = none := by
  rw [fileName?_eq_some_iff_getLast?, components_eq, List.getLast?_append, Option.or_eq_some_iff,
    or_iff_left (fun h => p.getLast?_lead name h.2), List.getLast?_filterMap,
    List.findSome?_eq_some_iff]
  -- The last component is searched from the end, so the pieces stand in reverse here.
  constructor
  · rintro ⟨rest, piece, dirs, hpieces, hname, hrest⟩
    obtain ⟨rfl, hproper⟩ := component?_eq_name_iff.1 hname
    refine ⟨dirs.reverse, rest.reverse, ?_, hproper, fun q hq => hrest q (List.mem_reverse.1 hq)⟩
    rw [← List.reverse_reverse (p.bytes.splitOn slash), hpieces]
    simp
  · rintro ⟨dirs, rest, hpieces, hproper, hrest⟩
    refine ⟨rest.reverse, name, dirs.reverse, ?_, component?_eq_name_iff.2 ⟨rfl, hproper⟩,
      fun q hq => hrest q (List.mem_reverse.1 hq)⟩
    rw [hpieces]
    simp

/-! ## Around the name -/

/-- What may stand before a component: nothing, or bytes of which the last one is a slash. -/
def Ahead (before : List UInt8) : Prop := ∀ b, before.getLast? = some b → b = slash

/-- What may stand after the last component: slashes, with a single dot after each or without. -/
inductive Idle : List UInt8 → Prop where
  | nil : Idle []
  | slash {after : List UInt8} : Idle after → Idle (Path.slash :: after)
  | slashDot {after : List UInt8} : Idle after → Idle (Path.slash :: dot :: after)

/-- A path is written around the name in which it ends. -/
structure EndsIn (p : Path) (before name after : List UInt8) : Prop where
  bytes_eq : p.bytes = before ++ name ++ after
  ahead : Ahead before
  isName : IsName name
  idle : Idle after

theorem splitOn_append_idle {after : List UInt8} (h : Idle after) {piece : List UInt8}
    (hpiece : slash ∉ piece) :
    ∃ rest, (piece ++ after).splitOn slash = piece :: rest ∧
      ∀ q ∈ rest, component? q = none := by
  induction h generalizing piece with
  | nil => exact ⟨[], by rw [List.append_nil, List.splitOn_eq_singleton hpiece], by simp⟩
  | slash _ ih =>
    obtain ⟨rest, hrest, hidle⟩ := ih List.not_mem_nil
    refine ⟨[] :: rest, ?_, List.forall_mem_cons.2 ⟨rfl, hidle⟩⟩
    rw [List.splitOn_append_cons_self_of_not_mem hpiece, ← hrest]
    rfl
  | slashDot _ ih =>
    obtain ⟨rest, hrest, hidle⟩ := ih (show Path.slash ∉ [dot] by decide)
    refine ⟨[dot] :: rest, ?_, List.forall_mem_cons.2 ⟨rfl, hidle⟩⟩
    rw [List.splitOn_append_cons_self_of_not_mem hpiece, ← hrest]
    rfl

theorem idle_of_forall {rest : List (List UInt8)} (h : ∀ q ∈ rest, component? q = none) :
    Idle (rest.flatMap (slash :: ·)) := by
  induction rest with
  | nil => exact .nil
  | cons q rest ih =>
    obtain ⟨hq, hrest⟩ := List.forall_mem_cons.1 h
    rw [List.flatMap_cons]
    rcases component?_eq_none_iff.1 hq with rfl | rfl
    · exact .slash (ih hrest)
    · exact .slashDot (ih hrest)

theorem intercalate_append_cons (dirs : List (List UInt8)) (name : List UInt8)
    (rest : List (List UInt8)) :
    [slash].intercalate (dirs ++ name :: rest) =
      dirs.flatMap (· ++ [slash]) ++ name ++ rest.flatMap (slash :: ·) := by
  induction dirs with
  | nil =>
    induction rest generalizing name with
    | nil => simp
    | cons next rest ih =>
      rw [List.nil_append, List.intercalate_cons_cons, ← List.nil_append (next :: rest), ih]
      simp
  | cons dir dirs ih =>
    rw [List.cons_append, List.intercalate_cons_of_ne_nil (by simp), ih]
    simp

theorem ahead_concat (dirs : List UInt8) : Ahead (dirs ++ [slash]) := by
  simp [Ahead, eq_comm]

theorem ahead_flatMap (dirs : List (List UInt8)) : Ahead (dirs.flatMap (· ++ [slash])) := by
  rcases List.eq_nil_or_concat' dirs with rfl | ⟨dirs, dir, rfl⟩
  · simp [Ahead]
  · rw [List.flatMap_append, List.flatMap_singleton, ← List.append_assoc]
    exact ahead_concat _

/-- A path ends in a name exactly if it can be written so. -/
theorem fileName?_eq_some_iff {p : Path} {name : List UInt8} :
    p.fileName? = some name ↔ ∃ before after, p.EndsIn before name after := by
  rw [fileName?_eq_some_iff_splitOn]
  constructor
  · rintro ⟨dirs, rest, hpieces, ⟨hnil, hdot, hdots⟩, hrest⟩
    have hmem : name ∈ p.bytes.splitOn slash := by rw [hpieces]; simp
    refine ⟨_, _, ?_, ahead_flatMap dirs, ⟨slash_not_mem_of_mem_splitOn hmem, hnil, hdot, hdots⟩,
      idle_of_forall hrest⟩
    rw [← intercalate_append_cons, ← hpieces, List.intercalate_splitOn]
  · rintro ⟨before, after, hbytes, hahead, hname, hidle⟩
    obtain ⟨rest, hrest, hnone⟩ := splitOn_append_idle hidle hname.slash_not_mem
    have hproper := And.intro hname.ne_nil (And.intro hname.ne_dot hname.ne_dots)
    rw [hbytes, List.append_assoc]
    rcases List.eq_nil_or_concat' before with rfl | ⟨dirs, b, rfl⟩
    · exact ⟨[], rest, hrest, hproper, hnone⟩
    -- The slash at the end of `before` cuts the directories off from the name.
    · obtain rfl := hahead b List.getLast?_concat
      refine ⟨dirs.splitOn slash, rest, ?_, hproper, hnone⟩
      rw [List.append_assoc, List.singleton_append, List.splitOn_append_cons_self, hrest]

/-! ## Respelling -/

/-- What may stand before a component may be put in anywhere before it. -/
theorem Ahead.insert {before before' added : List UInt8} (h : Ahead (before ++ before'))
    (hadded : Ahead added) : Ahead (before ++ added ++ before') := by
  intro b hb
  rw [List.getLast?_append, Option.or_eq_some_iff, List.getLast?_append,
    Option.or_eq_some_iff] at hb
  rcases hb with hb | ⟨hnone, hb | ⟨-, hb⟩⟩
  · exact h b (by rw [List.getLast?_append, hb]; rfl)
  · exact hadded b hb
  · exact h b (by rw [List.getLast?_append, hnone, hb]; rfl)

theorem Idle.append {after after' : List UInt8} (h : Idle after) (h' : Idle after') :
    Idle (after ++ after') := by
  induction h with
  | nil => exact h'
  | slash _ ih => exact .slash ih
  | slashDot _ ih => exact .slashDot ih

/-- One change to a path that ends in a name. -/
inductive Respells (p : Path) : Path → Prop where
  /-- `./` is put in before the name. -/
  | insertDotSlash {before before' name after : List UInt8} :
      p.EndsIn (before ++ before') name after →
        Respells p ⟨before ++ [dot, slash] ++ before' ++ name ++ after⟩
  /-- A slash before the name is doubled. -/
  | doubleSlash {before before' name after : List UInt8} :
      p.EndsIn (before ++ [slash] ++ before') name after →
        Respells p ⟨before ++ [slash] ++ [slash] ++ before' ++ name ++ after⟩
  /-- `/` is added somewhere after the name. -/
  | addSlash {before name after after' : List UInt8} :
      p.EndsIn before name (after ++ after') → Idle after → Idle after' →
        Respells p ⟨before ++ name ++ (after ++ [slash] ++ after')⟩
  /-- `/.` is added somewhere after the name. -/
  | addSlashDot {before name after after' : List UInt8} :
      p.EndsIn before name (after ++ after') → Idle after → Idle after' →
        Respells p ⟨before ++ name ++ (after ++ [slash, dot] ++ after')⟩

theorem EndsIn.fileName? {p : Path} {before name after : List UInt8}
    (h : p.EndsIn before name after) : p.fileName? = some name :=
  fileName?_eq_some_iff.2 ⟨before, after, h⟩

/-- The path still ends in the same name. -/
theorem Respells.fileName?_eq {p q : Path} (h : p.Respells q) : q.fileName? = p.fileName? := by
  -- In each case the new path is written around the same name.
  cases h with
  | insertDotSlash h =>
    have hadded : Ahead [dot, slash] := ahead_concat [dot]
    rw [h.fileName?, EndsIn.fileName? ⟨rfl, h.ahead.insert hadded, h.isName, h.idle⟩]
  | doubleSlash h =>
    have hadded : Ahead [slash] := ahead_concat []
    rw [h.fileName?, EndsIn.fileName? ⟨rfl, h.ahead.insert hadded, h.isName, h.idle⟩]
  | addSlash h hafter hafter' =>
    have hidle := (hafter.append (.slash .nil)).append hafter'
    rw [h.fileName?, EndsIn.fileName? ⟨rfl, h.ahead, h.isName, hidle⟩]
  | addSlashDot h hafter hafter' =>
    have hidle := (hafter.append (.slashDot .nil)).append hafter'
    rw [h.fileName?, EndsIn.fileName? ⟨rfl, h.ahead, h.isName, hidle⟩]

theorem Respells.exists_fileName? {p q : Path} (h : p.Respells q) :
    ∃ name, p.fileName? = some name := by
  cases h with
  | insertDotSlash h => exact ⟨_, h.fileName?⟩
  | doubleSlash h => exact ⟨_, h.fileName?⟩
  | addSlash h _ _ => exact ⟨_, h.fileName?⟩
  | addSlashDot h _ _ => exact ⟨_, h.fileName?⟩

/-- So the base name stays the same, however often the path is respelled. -/
theorem baseName_eq_of_respells {p q : Path} (h : Relation.ReflTransGen Respells p q) :
    q.baseName = p.baseName := by
  induction h with
  | refl => rfl
  | tail _ hstep ih =>
    obtain ⟨name, hname⟩ := hstep.exists_fileName?
    rw [← ih, baseName, baseName, hstep.fileName?_eq, hname]

end Path

namespace Rom

/-- A base name without a dot has no extension. Otherwise the extension is the last dot and what
follows it. -/
theorem splitExtension_snd (cs : List Char) :
    ((splitExtension cs).2 = [] ∧ '.' ∉ cs) ∨
      ∃ rest, (splitExtension cs).2 = '.' :: rest ∧ '.' ∉ rest ∧ '.' ∈ cs := by
  induction cs with
  | nil => exact .inl ⟨rfl, List.not_mem_nil⟩
  | cons c cs ih =>
    unfold splitExtension
    -- Without an extension in the rest, only `c` itself can begin one.
    split
    · next name h =>
      rw [h] at ih
      have hnone : '.' ∉ cs := by
        rcases ih with ⟨-, hnone⟩ | ⟨rest, hext, -⟩
        · exact hnone
        · exact absurd hext (List.cons_ne_nil '.' rest).symm
      split
      · next hc => exact .inr ⟨cs, by rw [hc], hnone, by rw [hc]; exact List.mem_cons_self⟩
      · next hc =>
        refine .inl ⟨rfl, ?_⟩
        rw [List.mem_cons, not_or]
        exact ⟨Ne.symm hc, hnone⟩
    · next name ext hext h =>
      rw [h] at ih
      rcases ih with ⟨hnil, -⟩ | ⟨rest, hrest, hlast, hmem⟩
      · exact absurd hnil hext
      · exact .inr ⟨rest, hrest, hlast, List.mem_cons_of_mem _ hmem⟩

end Rom

/-- What an image in a file is called. Name and extension together are the base name. There is an
extension exactly if the base name has a dot in it, and then the extension begins with a dot and has
no other one. A path that ends in a name is written around it, with directories and a slash before
it or nothing, and slashes and single dots after it. However often `./` is put in or a slash is
doubled before the name, and `/` or `/.` is added after it, name and extension stay what they
are. -/
theorem info_splits_baseName (p : Path) (size : Nat) :
    let info := Rom.Info.ofPath p size
    info.name ++ info.ext = .ofList p.baseName ∧
      (info.ext = "" ↔ '.' ∉ p.baseName) ∧
      ('.' ∈ p.baseName → ∃ rest, info.ext.toList = '.' :: rest ∧ '.' ∉ rest) ∧
      (∀ name, p.fileName? = some name ↔ ∃ before after, p.EndsIn before name after) ∧
      ∀ q, Relation.ReflTransGen Path.Respells p q → ∀ size',
        (Rom.Info.ofPath q size').name = info.name ∧
          (Rom.Info.ofPath q size').ext = info.ext := by
  intro info
  have hname : info.name = .ofList (Rom.splitExtension p.baseName).1 := rfl
  have hext : info.ext = .ofList (Rom.splitExtension p.baseName).2 := rfl
  have hsnd := Rom.splitExtension_snd p.baseName
  refine ⟨?_, ?_, ?_, fun name => Path.fileName?_eq_some_iff, fun q hq size' => ?_⟩
  · rw [hname, hext, ← String.ofList_append, Rom.splitExtension_append]
  · rw [hext, String.ofList_eq_empty_iff]
    rcases hsnd with ⟨hnil, hdot⟩ | ⟨rest, hcons, -, hdot⟩
    · exact iff_of_true hnil hdot
    · exact iff_of_false (hcons ▸ List.cons_ne_nil _ _) (not_not_intro hdot)
  · intro hdot
    rcases hsnd with ⟨-, hnone⟩ | ⟨rest, hcons, hlast, -⟩
    · exact absurd hdot hnone
    · exact ⟨rest, by rw [hext, String.toList_ofList, hcons], hlast⟩
  · rw [hname, hext, ← Path.baseName_eq_of_respells hq]
    exact ⟨rfl, rfl⟩

/-- A file's path with a superfluous dot before the name, and another one after it. -/
theorem respelled_pong_keeps_name :
    let p : Path := .ofString "roms/PONG.v2.ch8"
    let q : Path := .ofString "roms/./PONG.v2.ch8/."
    Relation.ReflTransGen Path.Respells p q ∧ '.' ∈ p.baseName ∧
      (Rom.Info.ofPath p 246).name = "PONG.v2" ∧ (Rom.Info.ofPath p 246).ext = ".ch8" ∧
      (Rom.Info.ofPath q 34).name = "PONG.v2" ∧ (Rom.Info.ofPath q 34).ext = ".ch8" := by
  intro p q
  let dirs := Text.Utf8.encode "roms"
  let name := Text.Utf8.encode "PONG.v2.ch8"
  have hname : Path.IsName name := by constructor <;> decide +kernel
  have hp : p.EndsIn (dirs ++ [Path.slash] ++ []) name [] :=
    ⟨by decide +kernel, by rw [List.append_nil]; exact Path.ahead_concat dirs, hname, .nil⟩
  let middle : Path := .ofString "roms/./PONG.v2.ch8"
  have hmiddle : middle.EndsIn (dirs ++ [Path.slash, Path.dot] ++ [Path.slash]) name ([] ++ []) :=
    ⟨by decide +kernel, Path.ahead_concat _, hname, .nil⟩
  have hfirst : p.Respells middle := by
    have hbytes : middle =
        ⟨dirs ++ [Path.slash] ++ [Path.dot, Path.slash] ++ [] ++ name ++ []⟩ := by decide +kernel
    rw [hbytes]
    exact .insertDotSlash hp
  have hsecond : middle.Respells q := by
    have hbytes : q = ⟨dirs ++ [Path.slash, Path.dot] ++ [Path.slash] ++ name ++
        ([] ++ [Path.slash, Path.dot] ++ [])⟩ := by decide +kernel
    rw [hbytes]
    exact .addSlashDot hmiddle .nil .nil
  have hq : Relation.ReflTransGen Path.Respells p q := .tail (.single hfirst) hsecond
  obtain ⟨hqname, hqext⟩ := (info_splits_baseName p 246).2.2.2.2 q hq 34
  have hpname : (Rom.Info.ofPath p 246).name = "PONG.v2" := by decide +kernel
  have hpext : (Rom.Info.ofPath p 246).ext = ".ch8" := by decide +kernel
  exact ⟨hq, by decide +kernel, hpname, hpext, hqname.trans hpname, hqext.trans hpext⟩

end Chip8
