import Chip8.Monitor
import Mathlib.Algebra.GroupWithZero.Nat
import Mathlib.Data.List.Induction

/-!
# What a monitor is attached to

A monitor keeps the number of a machine, and nothing tells it when that machine is gone. So it may
hold no machine, one that is there, or one that is gone, and it finds out only when it is used. What
it answers then is known from what has happened to it and to the machines
(`monitor_answers_from_history`).

Three things are read from a history. The monitor holds the machine that it was last attached to,
until it is detached (`Watch.Holds`). A machine is there as long as somebody keeps it: its maker
until the maker drops it, and each of any number of others from getting hold of it to dropping it
(`Watch.There`). And a lock that is poisoned stays poisoned (`Watch.Poisoned`). Monitor and pool
know just that: the attached number (`Watch.target_after`), and for each machine who keeps it and
whether its lock is poisoned (`Watch.records_after`).
-/

set_option autoImplicit false

namespace Chip8

/-- A monitor and the machines it may be attached to. -/
structure Watch where
  monitor : Monitor
  pool : Pool

namespace Watch

/-- Something that happens to a monitor or to the machines. -/
inductive Event where
  /-- A machine is made. -/
  | create (machine : Machine)
  /-- Somebody gets hold of a machine, such as a run on a thread of its own that begins. -/
  | hold (id : MachineId) (holder : Holder)
  /-- Somebody who holds a machine drops it, such as a run on a thread of its own that ends. -/
  | drop (id : MachineId) (holder : Holder)
  /-- The lock of a machine gets poisoned. -/
  | poison (id : MachineId)
  /-- Somebody else changes a machine. -/
  | change (id : MachineId) (machine : Machine)
  | attach (id : MachineId)
  | detach
  /-- The monitor is asked whether its machine is there. -/
  | ask
  /-- The attached machine is read or changed. -/
  | use (f : Machine → Machine)

/-- Events in the order in which they happen. -/
abbrev History := List Event

/-- Whether the monitor may be attached to a machine. -/
def attaches (w : Watch) (id : MachineId) : Bool := (w.monitor.attach w.pool id).1

/-- The monitor and the machines after an event. -/
def apply (w : Watch) : Event → Watch
  | .create machine => { w with pool := (w.pool.add machine).2 }
  | .hold id holder => { w with pool := w.pool.hold id holder }
  | .drop id holder => { w with pool := w.pool.drop id holder }
  | .poison id => { w with pool := w.pool.poison id }
  | .change id machine => { w with pool := w.pool.setMachine id machine }
  | .attach id => { w with monitor := (w.monitor.attach w.pool id).2 }
  | .detach => { w with monitor := w.monitor.detach.2 }
  | .ask => w
  | .use f => { w with pool := (w.monitor.withMachine w.pool fun machine => ((), f machine)).2 }

/-- The monitor and the machines after a history that begins with a new monitor and no machines. -/
def after (h : History) : Watch := h.foldl apply ⟨.new, .empty⟩

theorem after_append_singleton (h : History) (e : Event) : after (h ++ [e]) = (after h).apply e :=
  List.foldl_append

/-! ## What a history says -/

/-- How many machines an event makes. -/
def Event.made : Event → Nat
  | create _ => 1
  | _ => 0

/-- How many machines were made. They have the numbers below. -/
def created (h : History) : Nat := (h.map Event.made).sum

/-- An event happened at a time with a property, and nothing has ended its effect since. -/
inductive Since (property : History → Prop) (ends : History → Event → Prop) (e : Event) :
    History → Prop where
  | now {h : History} : property h → Since property ends e (h ++ [e])
  | keep {h : History} {other : Event} :
      Since property ends e h → ¬ ends h other → Since property ends e (h ++ [other])

/-- The lock of a machine was poisoned. -/
def Poisoned (h : History) (id : MachineId) : Prop :=
  Since (fun h => id < created h) (fun _ _ => False) (.poison id) h

/-- Somebody keeps a machine: the maker since it was made, and anybody else since getting hold of it
while somebody kept it, both until they drop it. -/
inductive Keeps (id : MachineId) : Holder → History → Prop where
  | made {h : History} {machine : Machine} :
      created h = id → Keeps id .maker (h ++ [.create machine])
  | held {h : History} {holder other : Holder} :
      Keeps id other h → Keeps id holder (h ++ [.hold id holder])
  | still {h : History} {holder : Holder} {e : Event} :
      Keeps id holder h → e ≠ .drop id holder → Keeps id holder (h ++ [e])

/-- A machine is there: somebody keeps it. -/
def There (h : History) (id : MachineId) : Prop := ∃ holder, Keeps id holder h

/-- A monitor lets its machine go when it is detached or attached to another one. -/
def EndsAttachment (h : History) : Event → Prop
  | .attach id => (after h).attaches id = true
  | .detach => True
  | _ => False

/-- The monitor holds a machine: it was attached to it, the attachment was not refused, and it has
not ended. -/
def Holds (h : History) (id : MachineId) : Prop :=
  Since (fun h => (after h).attaches id = true) EndsAttachment (.attach id) h

/-! ## One event more -/

theorem created_append_singleton (h : History) (e : Event) :
    created (h ++ [e]) = created h + e.made := by
  rw [created, List.map_append, List.sum_append]
  rfl

section

variable {property : History → Prop} {ends : History → Event → Prop} {e : Event}

theorem not_since_nil : ¬ Since property ends e [] := by
  intro h
  generalize hnil : ([] : History) = h' at h
  cases h with
  | now _ => exact List.append_ne_nil_of_right_ne_nil _ (List.cons_ne_nil _ _) hnil.symm
  | keep _ _ => exact List.append_ne_nil_of_right_ne_nil _ (List.cons_ne_nil _ _) hnil.symm

theorem since_append_singleton {h : History} {other : Event} :
    Since property ends e (h ++ [other]) ↔
      (other = e ∧ property h) ∨ (Since property ends e h ∧ ¬ ends h other) := by
  constructor
  · intro hsince
    generalize hlast : h ++ [other] = h' at hsince
    cases hsince with
    | now hproperty =>
      obtain ⟨rfl, hevent⟩ := List.append_inj' hlast rfl
      exact .inl ⟨List.head_eq_of_cons_eq hevent, hproperty⟩
    | keep hbefore hends =>
      obtain ⟨rfl, hevent⟩ := List.append_inj' hlast rfl
      obtain rfl := List.head_eq_of_cons_eq hevent
      exact .inr ⟨hbefore, hends⟩
  · rintro (⟨rfl, hproperty⟩ | ⟨hbefore, hends⟩)
    · exact .now hproperty
    · exact .keep hbefore hends

end

theorem keeps_append_singleton {h : History} {e : Event} {id : MachineId} {holder : Holder} :
    Keeps id holder (h ++ [e]) ↔
      (created h = id ∧ holder = .maker ∧ ∃ machine, e = .create machine) ∨
        (e = .hold id holder ∧ There h id) ∨ (Keeps id holder h ∧ e ≠ .drop id holder) := by
  constructor
  · intro hkeeps
    generalize hlast : h ++ [e] = h' at hkeeps
    cases hkeeps with
    | made hid =>
      obtain ⟨rfl, hevent⟩ := List.append_inj' hlast rfl
      exact .inl ⟨hid, rfl, _, List.head_eq_of_cons_eq hevent⟩
    | held hother =>
      obtain ⟨rfl, hevent⟩ := List.append_inj' hlast rfl
      exact .inr (.inl ⟨List.head_eq_of_cons_eq hevent, _, hother⟩)
    | still hbefore hdrop =>
      obtain ⟨rfl, hevent⟩ := List.append_inj' hlast rfl
      obtain rfl := List.head_eq_of_cons_eq hevent
      exact .inr (.inr ⟨hbefore, hdrop⟩)
  · rintro (⟨hid, rfl, machine, rfl⟩ | ⟨rfl, other, hother⟩ | ⟨hbefore, hdrop⟩)
    · exact .made hid
    · exact .held hother
    · exact .still hbefore hdrop

theorem lt_created_append_singleton {h : History} {id : MachineId} (hid : id < created h)
    (e : Event) : id < created (h ++ [e]) := by
  rw [created_append_singleton]
  exact Nat.lt_add_right e.made hid

/-- What was poisoned was made. -/
theorem Since.lt_created {ends : History → Event → Prop} {e : Event} {h : History} {id : MachineId}
    (hsince : Since (fun h => id < created h) ends e h) : id < created h := by
  induction hsince with
  | now hid => exact lt_created_append_singleton hid _
  | keep _ _ ih => exact lt_created_append_singleton ih _

/-- What is kept was made. -/
theorem Keeps.lt_created {h : History} {id : MachineId} {holder : Holder}
    (hkeeps : Keeps id holder h) : id < created h := by
  induction hkeeps with
  | made hid =>
    rw [created_append_singleton, hid]
    exact Nat.lt_succ_self id
  | held _ ih => exact lt_created_append_singleton ih _
  | still _ _ ih => exact lt_created_append_singleton ih _

/-! ## What the pool knows -/

/-- Using the attached machine changes no machine or replaces one. -/
theorem pool_use (w : Watch) (f : Machine → Machine) :
    (w.apply (.use f)).pool = w.pool ∨
      ∃ id machine, (w.apply (.use f)).pool = w.pool.setMachine id machine := by
  rw [apply, Monitor.withMachine]
  cases w.monitor.access w.pool with
  | error _ => exact .inl rfl
  | ok reached => exact .inr ⟨_, _, rfl⟩

theorem size_modify (p : Pool) (id : MachineId) (f : SharedMachine → SharedMachine) :
    (p.modify id f).entries.size = p.entries.size := Array.size_modify

theorem size_apply (w : Watch) (e : Event) :
    (w.apply e).pool.entries.size = w.pool.entries.size + e.made := by
  cases e with
  | create machine => exact Array.size_push _
  | hold id holder => exact size_modify w.pool id _
  | drop id holder => exact size_modify w.pool id _
  | poison id => exact size_modify w.pool id _
  | change id machine => exact size_modify w.pool id _
  | attach id => rfl
  | detach => rfl
  | ask => rfl
  | use f =>
    rcases w.pool_use f with h | ⟨id, machine, h⟩
    · rw [h]
      rfl
    · rw [h]
      exact size_modify w.pool id _

theorem size_after (h : History) : (after h).pool.entries.size = created h := by
  induction h using List.reverseRecOn with
  | nil => rfl
  | append_singleton h e ih =>
    rw [after_append_singleton, size_apply, created_append_singleton, ih]

/-- An entry tells the same of its machine as before an event, unless the event gives or takes the
machine a holder or poisons its lock. -/
structure Follows (e : Event) (id : MachineId) (before entry : SharedMachine) : Prop where
  holders : ∀ holder, holder ∈ entry.holders ↔
    (e = .hold id holder ∧ ∃ other, other ∈ before.holders) ∨
      (holder ∈ before.holders ∧ e ≠ .drop id holder)
  poisoned : entry.poisoned = true ↔ e = .poison id ∨ before.poisoned = true

theorem Follows.of_ne {e : Event} {id : MachineId} {before entry : SharedMachine}
    (hhold : ∀ holder, e ≠ .hold id holder) (hdrop : ∀ holder, e ≠ .drop id holder)
    (hpoison : e ≠ .poison id) (hholders : entry.holders = before.holders)
    (hpoisoned : entry.poisoned = before.poisoned) : Follows e id before entry where
  holders holder := by
    rw [hholders, or_iff_right (fun h => hhold holder h.1), and_iff_left (hdrop holder)]
  poisoned := by rw [hpoisoned, or_iff_right hpoison]

/-- A machine that has a holder gets one more. -/
theorem follows_hold (id : MachineId) (holder : Holder) (before : SharedMachine) :
    Follows (.hold id holder) id before
      (if before.holders.isEmpty then before
        else { before with holders := holder :: before.holders }) := by
  split
  · next hnone =>
    -- Nobody gets hold of a machine that is gone.
    refine ⟨fun other => ?_, by simp⟩
    simp [List.isEmpty_iff.1 hnone]
  · next hsome =>
    refine ⟨fun other => ?_, by simp⟩
    rw [Bool.not_eq_true, List.isEmpty_eq_false_iff_exists_mem] at hsome
    rw [List.mem_cons, and_iff_left hsome, and_iff_left nofun, Event.hold.injEq]
    simp only [true_and, eq_comm]

theorem follows_drop (id : MachineId) (holder : Holder) (before : SharedMachine) :
    Follows (.drop id holder) id before
      { before with holders := before.holders.filter (· != holder) } where
  holders other := by
    rw [List.mem_filter, bne_iff_ne, or_iff_right (fun h => Event.noConfusion h.1), ne_eq, ne_eq,
      Event.drop.injEq]
    simp only [true_and, eq_comm]
  poisoned := by simp

theorem exists_follows_of_modify {p : Pool} {e : Event} {other id : MachineId}
    {f : SharedMachine → SharedMachine} {entry : SharedMachine}
    (hentry : (p.modify other f).entries[id]? = some entry)
    (hsame : ∀ before, other = id → Follows e id before (f before))
    (helse : ∀ before, other ≠ id → Follows e id before before) :
    ∃ before, p.entries[id]? = some before ∧ Follows e id before entry := by
  rw [Pool.getElem?_entries_modify] at hentry
  split at hentry
  next heq =>
    obtain ⟨before, hbefore, rfl⟩ := Option.map_eq_some_iff.1 hentry
    exact ⟨before, hbefore, hsame before heq⟩
  next hne => exact ⟨entry, hentry, helse entry hne⟩

/-- Each event leaves the entries of the machines that were there as they were, up to the mark that
it is about. -/
theorem exists_follows {w : Watch} {e : Event} {id : MachineId} {entry : SharedMachine}
    (hid : id < w.pool.entries.size) (hentry : (w.apply e).pool.entries[id]? = some entry) :
    ∃ before, w.pool.entries[id]? = some before ∧ Follows e id before entry := by
  -- Replacing a machine touches neither its holders nor its lock.
  have hset : ∀ (other : MachineId) (machine : Machine), (∀ k holder, e ≠ .hold k holder) →
      (∀ k holder, e ≠ .drop k holder) → (∀ k, e ≠ .poison k) →
      (w.pool.setMachine other machine).entries[id]? = some entry →
        ∃ before, w.pool.entries[id]? = some before ∧ Follows e id before entry := by
    intro other machine hhold hdrop hpoison hset
    exact exists_follows_of_modify hset
      (fun _ _ => .of_ne (hhold id) (hdrop id) (hpoison id) rfl rfl)
      fun _ _ => .of_ne (hhold id) (hdrop id) (hpoison id) rfl rfl
  cases e with
  | create machine =>
    refine ⟨entry, ?_, .of_ne nofun nofun nofun rfl rfl⟩
    rw [← hentry]
    exact (Array.getElem?_eq_getElem hid).trans (Array.getElem?_push_lt hid).symm
  | hold other holder =>
    refine exists_follows_of_modify hentry (fun before heq => ?_) (fun before hne => ?_)
    · subst heq
      exact follows_hold other holder before
    · exact .of_ne (fun _ h => hne (Event.hold.inj h).1) nofun nofun rfl rfl
  | drop other holder =>
    refine exists_follows_of_modify hentry (fun before heq => ?_) (fun before hne => ?_)
    · subst heq
      exact follows_drop other holder before
    · exact .of_ne nofun (fun _ h => hne (Event.drop.inj h).1) nofun rfl rfl
  | poison other =>
    refine exists_follows_of_modify hentry (fun before heq => ?_) (fun before hne => ?_)
    · subst heq
      exact ⟨by simp, by simp⟩
    · exact .of_ne nofun nofun (fun h => hne (Event.poison.inj h)) rfl rfl
  | change other machine => exact hset other machine nofun nofun nofun hentry
  | attach other => exact ⟨entry, hentry, .of_ne nofun nofun nofun rfl rfl⟩
  | detach => exact ⟨entry, hentry, .of_ne nofun nofun nofun rfl rfl⟩
  | ask => exact ⟨entry, hentry, .of_ne nofun nofun nofun rfl rfl⟩
  | use f =>
    rcases w.pool_use f with h | ⟨other, machine, h⟩
    · rw [h] at hentry
      exact ⟨entry, hentry, .of_ne nofun nofun nofun rfl rfl⟩
    · rw [h] at hentry
      exact hset other machine nofun nofun nofun hentry

/-- An entry tells of its machine what the history says. -/
structure Records (h : History) (id : MachineId) (entry : SharedMachine) : Prop where
  holders : ∀ holder, holder ∈ entry.holders ↔ Keeps id holder h
  poisoned : entry.poisoned = true ↔ Poisoned h id

theorem Records.exists_mem_iff {h : History} {id : MachineId} {entry : SharedMachine}
    (hrecords : Records h id entry) : (∃ holder, holder ∈ entry.holders) ↔ There h id :=
  exists_congr hrecords.holders

theorem Records.append_singleton {h : History} {e : Event} {id : MachineId}
    {before entry : SharedMachine} (hid : id < created h) (hrecords : Records h id before)
    (hfollows : Follows e id before entry) : Records (h ++ [e]) id entry where
  holders holder := by
    -- A machine that is there already is not made once more.
    rw [hfollows.holders, hrecords.exists_mem_iff, hrecords.holders, keeps_append_singleton,
      or_iff_right (a := _ ∧ _ ∧ _) fun hnew => Nat.ne_of_gt hid hnew.1]
  poisoned := by
    rw [hfollows.poisoned, hrecords.poisoned, Poisoned, Poisoned, since_append_singleton]
    simp only [hid, and_true, not_false_eq_true]

/-- A machine that was just made is kept by its maker alone, and its lock is not poisoned. -/
theorem records_create (h : History) (machine : Machine) :
    Records (h ++ [.create machine]) (created h) ⟨machine, false, [.maker]⟩ := by
  constructor
  · intro holder
    rw [keeps_append_singleton, List.mem_singleton]
    constructor
    · intro hmaker
      exact .inl ⟨rfl, hmaker, machine, rfl⟩
    · rintro (⟨-, hmaker, -⟩ | ⟨heq, -⟩ | ⟨hbefore, -⟩)
      · exact hmaker
      · exact Event.noConfusion heq
      · exact absurd hbefore.lt_created (Nat.lt_irrefl _)
  · refine iff_of_false Bool.false_ne_true fun hpoisoned => ?_
    rcases since_append_singleton.1 hpoisoned with ⟨heq, -⟩ | ⟨hbefore, -⟩
    · exact Event.noConfusion heq
    · exact absurd hbefore.lt_created (Nat.lt_irrefl _)

theorem Event.made_eq_zero_or (e : Event) : e.made = 0 ∨ ∃ machine, e = .create machine := by
  cases e with
  | create machine => exact .inr ⟨machine, rfl⟩
  | _ => exact .inl rfl

theorem records_after {h : History} {id : MachineId} {entry : SharedMachine}
    (hentry : (after h).pool.entries[id]? = some entry) : Records h id entry := by
  induction h using List.reverseRecOn generalizing entry with
  | nil => exact absurd hentry (by simp [after, Pool.empty])
  | append_singleton h e ih =>
    rw [after_append_singleton] at hentry
    rcases Nat.lt_or_ge id (created h) with hid | hid
    · obtain ⟨before, hbefore, hfollows⟩ := exists_follows (by rwa [size_after]) hentry
      exact (ih hbefore).append_singleton hid hfollows
    · -- Only a machine that is made right now has a number that was not in use.
      obtain ⟨hsize, -⟩ := Array.getElem?_eq_some_iff.1 hentry
      rw [size_apply, size_after] at hsize
      rcases e.made_eq_zero_or with hmade | ⟨machine, rfl⟩
      · omega
      · have hnew : id = created h := Nat.le_antisymm (Nat.le_of_lt_succ hsize) hid
        rw [hnew, ← size_after h] at hentry
        obtain rfl := Option.some.inj (Array.getElem?_push_size.symm.trans hentry)
        rw [hnew]
        exact records_create h machine

theorem isAlive_after (h : History) (id : MachineId) :
    (after h).pool.isAlive id = true ↔ There h id := by
  rw [Pool.isAlive_iff]
  constructor
  · rintro ⟨entry, hentry, hholder⟩
    exact (records_after hentry).exists_mem_iff.1 hholder
  · intro hthere
    -- What is kept was made, so the pool has an entry for it.
    have hid : id < (after h).pool.entries.size := by
      obtain ⟨holder, hkeeps⟩ := hthere
      rw [size_after]
      exact hkeeps.lt_created
    have hentry := Array.getElem?_eq_getElem hid
    exact ⟨_, hentry, (records_after hentry).exists_mem_iff.2 hthere⟩

/-! ## What the monitor knows -/

theorem attaches_eq_not (w : Watch) (id : MachineId) :
    w.attaches id = !w.monitor.hasMachine w.pool := by
  rw [attaches, Monitor.attach]
  cases w.monitor.hasMachine w.pool with
  | true => rfl
  | false => rfl

theorem attach_eq_of_attaches {w : Watch} {id : MachineId} (h : w.attaches id = true) :
    (w.monitor.attach w.pool id).2 = ⟨some id⟩ := by
  rw [attaches_eq_not, Bool.not_eq_true'] at h
  rw [Monitor.attach, h]
  rfl

theorem attach_eq_of_not_attaches {w : Watch} {id : MachineId} (h : ¬ w.attaches id = true) :
    (w.monitor.attach w.pool id).2 = w.monitor := by
  rw [attaches_eq_not, Bool.not_eq_true', Bool.not_eq_false] at h
  rw [Monitor.attach, h]
  rfl

theorem target_after (h : History) (id : MachineId) :
    (after h).monitor.target = some id ↔ Holds h id := by
  induction h using List.reverseRecOn with
  | nil => exact iff_of_false nofun not_since_nil
  | append_singleton h e ih =>
    rw [after_append_singleton, Holds, since_append_singleton]
    cases e with
    | attach other =>
      show ((after h).monitor.attach (after h).pool other).2.target = some id ↔ _
      by_cases hattaches : (after h).attaches other = true
      · rw [attach_eq_of_attaches hattaches]
        simp only [EndsAttachment, hattaches, not_true_eq_false, and_false, or_false,
          Option.some.injEq, Event.attach.injEq]
        rw [attaches_eq_not] at hattaches ⊢
        rw [and_iff_left hattaches]
      · rw [attach_eq_of_not_attaches hattaches, ih]
        have hattached : ¬ (Event.attach other = .attach id ∧ (after h).attaches id = true) := by
          rintro ⟨heq, hid⟩
          exact hattaches (Event.attach.inj heq ▸ hid)
        rw [or_iff_right hattached]
        exact (and_iff_left hattaches).symm
    | detach => exact iff_of_false nofun (by simp [EndsAttachment])
    | _ => exact ih.trans (by simp [EndsAttachment, Holds])

theorem hasMachine_after (h : History) :
    (after h).monitor.hasMachine (after h).pool = true ↔ ∃ held, Holds h held ∧ There h held := by
  rw [Monitor.hasMachine, Option.any_eq_true]
  simp only [target_after, isAlive_after]

theorem attaches_after (h : History) (id : MachineId) :
    (after h).attaches id = true ↔ ∀ held, Holds h held → ¬ There h held := by
  rw [attaches_eq_not, Bool.not_eq_true', ← Bool.not_eq_true, hasMachine_after]
  simp only [not_exists, not_and]

theorem Holds.unique {h : History} {id other : MachineId} (hid : Holds h id)
    (hother : Holds h other) : id = other :=
  Option.some.inj (((target_after h id).2 hid).symm.trans ((target_after h other).2 hother))

/-! ## Access -/

section

variable {h : History} {held : MachineId}

theorem access_of_not_holds (hnone : ∀ held, ¬ Holds h held) :
    (after h).monitor.access (after h).pool = .error .detached := by
  have htarget : (after h).monitor.target = none :=
    Option.eq_none_iff_forall_ne_some.2 fun held heq => hnone held ((target_after h held).1 heq)
  rw [Monitor.access, htarget]

theorem access_of_not_there (hholds : Holds h held) (hgone : ¬ There h held) :
    (after h).monitor.access (after h).pool = .error .gone := by
  have hget : (after h).pool.get? held = none := by
    rw [← isAlive_after, Pool.isAlive, Bool.not_eq_true, Option.isSome_eq_false_iff,
      Option.isNone_iff_eq_none] at hgone
    exact hgone
  rw [Monitor.access, (target_after h held).2 hholds]
  simp only [hget]

/-- The entry of a machine that is there. -/
theorem exists_get? (hthere : There h held) :
    ∃ entry, (after h).pool.get? held = some entry ∧ (entry.poisoned = true ↔ Poisoned h held) := by
  obtain ⟨entry, hget⟩ := Option.isSome_iff_exists.1 ((isAlive_after h held).2 hthere)
  have hentry := (Option.filter_eq_some_iff.1 hget).1
  exact ⟨entry, hget, (records_after hentry).poisoned⟩

theorem access_of_poisoned (hholds : Holds h held) (hthere : There h held)
    (hpoisoned : Poisoned h held) :
    (after h).monitor.access (after h).pool = .error .poisoned := by
  obtain ⟨entry, hget, hentry⟩ := exists_get? hthere
  rw [Monitor.access, (target_after h held).2 hholds]
  simp only [hget, hentry.2 hpoisoned, if_true]

theorem access_of_free (hholds : Holds h held) (hthere : There h held)
    (hfree : ¬ Poisoned h held) :
    ∃ entry, (after h).pool.get? held = some entry ∧
      (after h).monitor.access (after h).pool = .ok (held, entry.machine) := by
  obtain ⟨entry, hget, hentry⟩ := exists_get? hthere
  refine ⟨entry, hget, ?_⟩
  have hlock : ¬ entry.poisoned = true := fun hpoisoned => hfree (hentry.1 hpoisoned)
  rw [Monitor.access, (target_after h held).2 hholds]
  simp only [hget, if_neg hlock]

end

end Watch

/-- A monitor's answers follow from what has happened. Take any sequence of attachments,
detachments, questions and uses, while machines are made, poisoned, changed, and kept and dropped by
any number of holders. Machines are numbered as they are made. One can be attached exactly if the
monitor holds none or the one that it holds is gone, and a refused attachment changes nothing.
Detaching succeeds exactly if the monitor holds a machine, there or gone, and it has a machine
exactly if the one that it holds is there. Any use of the machine fails if none is held, else if the
held one is gone, else if its lock is poisoned, and each failure leaves all machines as they were.
Otherwise it gives what it computes from the held machine and changes that machine alone. Reading
and writing values are such uses. -/
theorem monitor_answers_from_history (h : Watch.History) :
    let d := (Watch.after h).monitor
    let pool := (Watch.after h).pool
    (∀ machine, (pool.add machine).1 = Watch.created h) ∧
      (∀ id, (d.attach pool id).1 = true ↔ ∀ held, Watch.Holds h held → ¬ Watch.There h held) ∧
      (∀ id, (d.attach pool id).1 = false → (d.attach pool id).2 = d) ∧
      (d.detach.1 = true ↔ ∃ held, Watch.Holds h held) ∧
      (d.hasMachine pool = true ↔ ∃ held, Watch.Holds h held ∧ Watch.There h held) ∧
      (∀ held other, Watch.Holds h held → Watch.Holds h other → held = other) ∧
      (∀ (β : Type) (f : Machine → β × Machine),
        let used := d.withMachine pool f
        ((∀ held, ¬ Watch.Holds h held) → used = (.error .detached, pool)) ∧
          ∀ held, Watch.Holds h held →
            (¬ Watch.There h held → used = (.error .gone, pool)) ∧
            (Watch.There h held → Watch.Poisoned h held → used = (.error .poisoned, pool)) ∧
            (Watch.There h held → ¬ Watch.Poisoned h held →
              ∃ entry, pool.get? held = some entry ∧ used.1 = .ok (f entry.machine).1 ∧
                used.2.get? held = some { entry with machine := (f entry.machine).2 } ∧
                ∀ other, other ≠ held → used.2.get? other = pool.get? other)) ∧
      (∀ (β : Type) (f : State → β),
        d.read pool f = (d.withMachine pool fun machine => (f machine.state, machine)).1) ∧
      (∀ e, let used := d.withMachine pool fun machine => ((), machine.edit e)
        d.write pool e = used.1.map fun _ => used.2) := by
  intro d pool
  refine ⟨fun _ => Watch.size_after h, Watch.attaches_after h, fun id hrefused => ?_, ?_,
    Watch.hasMachine_after h, fun held other hheld hother => hheld.unique hother, fun β f => ?_,
    fun β f => d.read_eq_withMachine pool f, fun e => d.write_eq_withMachine pool e⟩
  · apply Watch.attach_eq_of_not_attaches
    rw [Watch.attaches, hrefused]
    exact Bool.false_ne_true
  · show d.target.isSome = true ↔ _
    rw [Option.isSome_iff_exists]
    exact exists_congr fun held => Watch.target_after h held
  · intro used
    refine ⟨fun hnone => ?_, fun held hholds => ⟨fun hgone => ?_, fun hthere hpoisoned => ?_,
      fun hthere hfree => ?_⟩⟩
    · show d.withMachine pool f = _
      rw [Monitor.withMachine, Watch.access_of_not_holds hnone]
    · show d.withMachine pool f = _
      rw [Monitor.withMachine, Watch.access_of_not_there hholds hgone]
    · show d.withMachine pool f = _
      rw [Monitor.withMachine, Watch.access_of_poisoned hholds hthere hpoisoned]
    · obtain ⟨entry, hget, haccess⟩ := Watch.access_of_free hholds hthere hfree
      have hused : used = (.ok (f entry.machine).1, pool.setMachine held (f entry.machine).2) := by
        show d.withMachine pool f = _
        rw [Monitor.withMachine, haccess]
      rw [hused]
      refine ⟨entry, hget, rfl, ?_, fun other hother => pool.get?_setMachine_of_ne _ hother⟩
      rw [Pool.get?_setMachine, hget]
      rfl

/-- A machine is attached, and a run holds it after its maker has dropped it. When the run has
ended, another machine is attached in its place, and the lock of that one is poisoned. -/
def replacedMachine : Watch.History :=
  [.create .new, .attach 0, .hold 0 1, .drop 0 .maker, .drop 0 1, .create .new, .attach 1,
    .poison 1]

theorem replacedMachine_poisoned :
    let shared := Watch.after (replacedMachine.take 4)
    let replaced := Watch.after (replacedMachine.take 6)
    let poisoned := Watch.after replacedMachine
    shared.monitor.hasMachine shared.pool = true ∧
      (replaced.monitor.attach replaced.pool 1).1 = true ∧
      (poisoned.monitor.attach poisoned.pool 0).1 = false ∧
      ∀ (β : Type) (f : Machine → β × Machine),
        poisoned.monitor.withMachine poisoned.pool f = (.error .poisoned, poisoned.pool) := by
  intro shared replaced poisoned
  have hattached : Watch.Holds (replacedMachine.take 4) 0 := (Watch.target_after _ _).1 rfl
  have hkept : Watch.There (replacedMachine.take 4) 0 := (Watch.isAlive_after _ _).1 rfl
  have hstill : Watch.Holds (replacedMachine.take 6) 0 := (Watch.target_after _ _).1 rfl
  have hgone : ¬ Watch.There (replacedMachine.take 6) 0 := by
    rw [← Watch.isAlive_after]
    decide
  have hholds : Watch.Holds replacedMachine 1 := (Watch.target_after _ _).1 rfl
  have hthere : Watch.There replacedMachine 1 := (Watch.isAlive_after _ _).1 rfl
  have hpoisoned : Watch.Poisoned replacedMachine 1 :=
    Watch.Since.now (h := replacedMachine.take 7) (by decide)
  obtain ⟨-, -, -, -, hhas, -⟩ := monitor_answers_from_history (replacedMachine.take 4)
  obtain ⟨-, hreplace, -, -, -, hunique, -⟩ :=
    monitor_answers_from_history (replacedMachine.take 6)
  obtain ⟨-, hattach, -, -, -, -, huse, -⟩ := monitor_answers_from_history replacedMachine
  refine ⟨hhas.2 ⟨0, hattached, hkept⟩,
    (hreplace 1).2 fun held hheld => hunique 0 held hstill hheld ▸ hgone, ?_, fun β f => ?_⟩
  · apply Bool.eq_false_iff.2
    intro hagain
    exact (hattach 0).1 hagain 1 hholds hthere
  · exact ((huse β f).2 1 hholds).2.1 hthere hpoisoned

end Chip8
