import Std.Data.ExtTreeSet

/-!
# Timelines

A timeline records entries by level. An entry is recorded once, at the level at which it comes
up first, and is never removed. Levels count as seen up to the highest one that was opened,
whether entries came up at them or not.
-/

namespace StripsReach

/-- The entries recorded at each level opened so far, and all entries together. -/
structure Timeline (α : Type) [Ord α] where
  levels : List (Std.ExtTreeSet α)
  all : Std.ExtTreeSet α

namespace Timeline

variable {α : Type} [Ord α] [Std.TransOrd α]

def empty : Timeline α := ⟨[], ∅⟩

def levelCount (t : Timeline α) : Nat := t.levels.length

/-- Opens `level` and all before it, with no entries where they were not open. -/
def openLevel (t : Timeline α) (level : Nat) : Timeline α :=
  { t with levels := t.levels ++ List.replicate (level + 1 - t.levelCount) ∅ }

/-- Records `a` at `level` if it has not come up before. -/
def record (level : Nat) (t : Timeline α) (a : α) : Timeline α :=
  if a ∈ t.all then t
  else ⟨(t.openLevel level).levels.modify level (·.insert a), t.all.insert a⟩

/-- Opens `level`, and records there what has not come up before. -/
def recordAll (t : Timeline α) (level : Nat) (entries : List α) : Timeline α :=
  entries.foldl (record level) (t.openLevel level)

/-- All entries, in ascending order. -/
def entries (t : Timeline α) : List α := t.all.toList

/-- The entries recorded at `level`, in ascending order. -/
def atLevel (t : Timeline α) (level : Nat) : List α :=
  ((t.levels[level]?).getD ∅).toList

/-- The entries recorded at `level` or before, in ascending order. -/
def upToLevel (t : Timeline α) (level : Nat) : List α :=
  ((t.levels.take (level + 1)).foldl (· ∪ ·) ∅).toList

/-- The entries under the level each was recorded at, for the first `count` levels. -/
def byLevel (t : Timeline α) (count : Nat) : List (List α) := (List.range count).map t.atLevel

def contains (t : Timeline α) (a : α) : Bool := a ∈ t.all

def size (t : Timeline α) : Nat := t.all.size

end Timeline

end StripsReach
