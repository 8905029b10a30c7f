import CompactOid.Table
import Mathlib.Data.List.Nodup

namespace CompactOid.Table

/-! The two maps of a table against its entries.

The entries are the semantic model of a table.  `Coherent` says that a code has
the place of its one entry, and an identifier the code of its first entry.
Tables built by `empty` and `push` alone keep it as long as each pushed code is
a new one.
-/

variable {table : Table} {entry : Entry} {code : Code} {oid : Oid}

theorem oid?_eq_some_iff_placed :
    table.oid? code = some oid ↔
      ∃ place entry, table.places[code]? = some place ∧ table.entries[place]? = some entry ∧
        entry.oid = oid := by
  simp only [oid?, Option.bind_eq_bind, Option.bind_eq_some_iff, Option.pure_def, Option.some.injEq]
  refine ⟨fun found => ?_, fun found => ?_⟩
  · obtain ⟨place, held, entry, listed, same⟩ := found
    exact ⟨place, entry, held, listed, same⟩
  · obtain ⟨place, entry, held, listed, same⟩ := found
    exact ⟨place, held, entry, listed, same⟩

theorem contains_iff_placed :
    table.contains code = true ↔ ∃ place, table.places[code]? = some place := by
  rw [contains, Std.TreeMap.contains_eq_isSome_getElem?, Option.isSome_iff_exists]

theorem places_push (table : Table) (entry : Entry) (code : Code) :
    (table.push entry).places[code]? =
      if entry.code = code then some table.size else table.places[code]? := by
  simp [push, size, Std.TreeMap.getElem?_insert]

theorem contains_push (table : Table) (entry : Entry) (code : Code) :
    (table.push entry).contains code = (decide (entry.code = code) || table.contains code) := by
  rw [contains, contains, Std.TreeMap.contains_eq_isSome_getElem?,
    Std.TreeMap.contains_eq_isSome_getElem?, places_push]
  split <;> simp [*]

theorem code?_push (table : Table) (entry : Entry) (oid : Oid) :
    (table.push entry).code? oid =
      (table.code? oid).or (if entry.oid = oid then some entry.code else none) := by
  obtain ⟨arcs⟩ := oid
  obtain ⟨code, ⟨own⟩⟩ := entry
  simp only [code?, push, Std.TreeMap.getElem?_insertIfNew]
  by_cases same : own = arcs
  · subst same
    by_cases known : own ∈ table.codes <;> simp [known]
  · simp [same]

@[simp] theorem entries_push (table : Table) (entry : Entry) :
    (table.push entry).entries.toList = table.entries.toList ++ [entry] :=
  Array.toList_push

structure Coherent (table : Table) : Prop where
  placed_iff : ∀ code place, table.places[code]? = some place ↔
    ∃ entry : Entry, table.entries[place]? = some entry ∧ entry.code = code
  code?_eq : ∀ oid, table.code? oid =
    (table.entries.toList.find? fun entry => entry.oid = oid).map Entry.code

namespace Coherent

theorem codesNodup (coherent : table.Coherent) :
    (table.entries.toList.map Entry.code).Nodup := by
  refine List.nodup_iff_getElem?_ne_getElem?.mpr fun lower upper order bound repeated => ?_
  rw [List.length_map, Array.length_toList] at bound
  rw [List.getElem?_map, List.getElem?_map, Array.getElem?_toList, Array.getElem?_toList,
    Array.getElem?_eq_getElem bound] at repeated
  obtain ⟨entry, listed, same⟩ := Option.map_eq_some_iff.mp repeated
  have first := (coherent.placed_iff _ lower).mpr ⟨entry, listed, same⟩
  have second := (coherent.placed_iff _ upper).mpr ⟨_, Array.getElem?_eq_getElem bound, rfl⟩
  rw [first] at second
  exact Nat.ne_of_lt order (Option.some.inj second)

theorem oid?_of_mem (coherent : table.Coherent) (member : entry ∈ table.entries.toList) :
    table.oid? entry.code = some entry.oid := by
  obtain ⟨place, listed⟩ := List.mem_iff_getElem?.mp member
  rw [Array.getElem?_toList] at listed
  have held := (coherent.placed_iff entry.code place).mpr ⟨entry, listed, rfl⟩
  exact oid?_eq_some_iff_placed.mpr ⟨place, entry, held, listed, rfl⟩

theorem mem_of_oid? (coherent : table.Coherent) (found : table.oid? code = some oid) :
    ⟨code, oid⟩ ∈ table.entries.toList := by
  obtain ⟨place, entry, held, listed, rfl⟩ := oid?_eq_some_iff_placed.mp found
  obtain ⟨other, listed', rfl⟩ := (coherent.placed_iff code place).mp held
  rw [listed] at listed'
  cases listed'
  exact Array.mem_toList_iff.mpr (Array.mem_of_getElem? listed)

theorem oid?_eq_some_iff (coherent : table.Coherent) :
    table.oid? code = some oid ↔ ⟨code, oid⟩ ∈ table.entries.toList :=
  ⟨coherent.mem_of_oid?, coherent.oid?_of_mem⟩

theorem contains_eq_isSome (coherent : table.Coherent) (code : Code) :
    table.contains code = (table.oid? code).isSome := by
  rw [Bool.eq_iff_iff, contains_iff_placed, Option.isSome_iff_exists]
  refine ⟨fun held => ?_, fun found => ?_⟩
  · obtain ⟨place, held⟩ := held
    obtain ⟨entry, listed, _⟩ := (coherent.placed_iff code place).mp held
    exact ⟨entry.oid, oid?_eq_some_iff_placed.mpr ⟨place, entry, held, listed, rfl⟩⟩
  · obtain ⟨oid, found⟩ := found
    obtain ⟨place, _, held, _⟩ := oid?_eq_some_iff_placed.mp found
    exact ⟨place, held⟩

theorem oid?_eq_none_iff (coherent : table.Coherent) :
    table.oid? code = none ↔ table.contains code = false := by
  rw [coherent.contains_eq_isSome, Option.isSome_eq_false_iff, Option.isNone_iff_eq_none]

theorem mem_of_code? (coherent : table.Coherent) (found : table.code? oid = some code) :
    ⟨code, oid⟩ ∈ table.entries.toList := by
  rw [coherent.code?_eq] at found
  obtain ⟨entry, first, rfl⟩ := Option.map_eq_some_iff.mp found
  have same : entry.oid = oid := by simpa using List.find?_some first
  subst same
  exact List.mem_of_find?_eq_some first

theorem oid?_of_code? (coherent : table.Coherent) (found : table.code? oid = some code) :
    table.oid? code = some oid :=
  coherent.oid?_of_mem (coherent.mem_of_code? found)

theorem code?_exists (coherent : table.Coherent) (found : table.oid? code = some oid) :
    ∃ first, table.code? oid = some first := by
  rw [coherent.code?_eq]
  cases search : table.entries.toList.find? fun entry => entry.oid = oid with
  | none =>
      have absent := List.find?_eq_none.mp search _ (coherent.mem_of_oid? found)
      simp at absent
  | some entry => exact ⟨entry.code, rfl⟩

theorem empty : Table.empty.Coherent where
  placed_iff code place := by simp [Table.empty]
  code?_eq _ := rfl

/-- The places so far lie in front of the one that the entry is put at. -/
theorem oid?_push (coherent : table.Coherent) (entry : Entry) (code : Code) :
    (table.push entry).oid? code =
      if entry.code = code then some entry.oid else table.oid? code := by
  have behind : (table.push entry).entries[table.size]? = some entry := Array.getElem?_push_size
  apply Option.ext
  intro oid
  rw [oid?_eq_some_iff_placed, places_push]
  split
  · simp [behind, eq_comm]
  · rw [oid?_eq_some_iff_placed]
    refine exists_congr fun place => exists_congr fun other => and_congr_right fun held => ?_
    obtain ⟨_, listed, _⟩ := (coherent.placed_iff code place).mp held
    obtain ⟨bound, _⟩ := Array.getElem?_eq_some_iff.mp listed
    have kept : (table.push entry).entries[place]? = table.entries[place]? := by
      rw [push, Array.getElem?_push, if_neg (Nat.ne_of_lt bound)]
    rw [kept]

theorem push (coherent : table.Coherent) (fresh : table.contains entry.code = false) :
    (table.push entry).Coherent where
  placed_iff code place := by
    have unplaced : table.places[entry.code]? = none := by
      rw [← Option.not_isSome_iff_eq_none, ← Std.TreeMap.contains_eq_isSome_getElem?]
      exact Bool.eq_false_iff.mp fresh
    have beyond : table.places[code]? ≠ some table.size := by
      intro held
      obtain ⟨_, listed, _⟩ := (coherent.placed_iff code _).mp held
      obtain ⟨bound, _⟩ := Array.getElem?_eq_some_iff.mp listed
      exact Nat.lt_irrefl _ bound
    rw [places_push, Table.push, Array.getElem?_push, ← size]
    by_cases last : place = table.size
    · subst last
      by_cases same : entry.code = code <;> simp [same, beyond]
    · rw [if_neg last, ← coherent.placed_iff]
      by_cases same : entry.code = code
      · rw [if_pos same, ← same, unplaced]
        simp [Ne.symm last]
      · rw [if_neg same]
  code?_eq oid := by
    rw [code?_push, entries_push, List.find?_append, Option.map_or, ← coherent.code?_eq]
    by_cases same : entry.oid = oid <;> simp [same]

end Coherent

end CompactOid.Table
