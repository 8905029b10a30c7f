import CompactOid.Reserved
import Mathlib.Data.List.Nodup

namespace CompactOid.Reserved

variable {code : Code} {oid : Oid} {entry : Entry} {place : Nat}

/-- The codes run from zero without a gap. -/
theorem code_of_place (found : entries[place]? = some entry) : entry.code.toNat = place := by
  have all : ∀ place < count, (entries[place]?).map (fun entry => entry.code.toNat) = some place := by
    decide
  obtain ⟨bound, _⟩ := List.getElem?_eq_some_iff.mp found
  have same := all place bound
  rw [found] at same
  exact Option.some.inj same

theorem codes_nodup : (entries.map Entry.code).Nodup := by decide

theorem oids_nodup : (entries.map Entry.oid).Nodup := by decide

theorem oid?_eq_none_iff : oid? code = none ↔ contains code = false := by
  rw [oid?, Option.map_eq_none_iff, List.getElem?_eq_none_iff, contains, decide_eq_false_iff_not,
    Nat.not_lt, count]

theorem contains_eq_isSome (code : Code) : contains code = (oid? code).isSome := by
  cases found : oid? code with
  | none => exact oid?_eq_none_iff.mp found
  | some oid =>
      rw [Option.isSome_some, ← Bool.not_eq_false, ← oid?_eq_none_iff, found]
      exact Option.some_ne_none oid

theorem contains_eq_false_iff : contains code = false ↔ 0x26 < code.toNat := by
  rw [contains, decide_eq_false_iff_not, Nat.not_lt]
  exact Iff.rfl

theorem contains_of_oid? (found : oid? code = some oid) : contains code = true := by
  rw [contains_eq_isSome, found, Option.isSome_some]

theorem mem_entries_iff : entry ∈ entries ↔ oid? entry.code = some entry.oid := by
  refine ⟨fun listed => ?_, fun held => ?_⟩
  · obtain ⟨place, found⟩ := List.mem_iff_getElem?.mp listed
    rw [oid?, code_of_place found, found, Option.map_some]
  · obtain ⟨code, oid⟩ := entry
    obtain ⟨⟨other, _⟩, found, rfl⟩ := Option.map_eq_some_iff.mp held
    obtain rfl : other = code := UInt16.toNat.inj (code_of_place found)
    exact List.mem_of_getElem? found

theorem code?_eq_some_iff : code? oid = some code ↔ ⟨code, oid⟩ ∈ entries := by
  refine ⟨fun found => ?_, fun listed => ?_⟩
  · obtain ⟨entry, first, rfl⟩ := Option.map_eq_some_iff.mp found
    obtain rfl : entry.oid = oid := by simpa using List.find?_some first
    exact List.mem_of_find?_eq_some first
  · rw [code?]
    cases search : entries.find? fun entry => entry.oid = oid with
    | none => simpa using List.find?_eq_none.mp search _ listed
    | some first =>
        have same : first.oid = oid := by simpa using List.find?_some search
        have equal := List.inj_on_of_nodup_map oids_nodup
          (List.mem_of_find?_eq_some search) listed same
        rw [equal, Option.map_some]

theorem code?_eq_none_iff : code? oid = none ↔ oid ∉ entries.map Entry.oid := by
  rw [code?, Option.map_eq_none_iff, List.find?_eq_none, List.mem_map]
  simp only [decide_eq_true_eq, not_exists, not_and]

theorem filter_eq_toList_find? {listed : List Entry} (distinct : (listed.map Entry.oid).Nodup)
    (oid : Oid) :
    (listed.filter fun entry => entry.oid = oid) =
      (listed.find? fun entry => entry.oid = oid).toList := by
  induction listed with
  | nil => rfl
  | cons entry later ih =>
      obtain ⟨absent, distinct⟩ := List.nodup_cons.mp distinct
      by_cases same : entry.oid = oid
      · have only : (later.filter fun other => other.oid = oid) = [] := by
          refine List.filter_eq_nil_iff.mpr fun other member => ?_
          rw [decide_eq_true_eq]
          rintro rfl
          exact absent (List.mem_map.mpr ⟨other, member, same.symm⟩)
        simp [same, only]
      · simp [same, ih distinct]

theorem toList_code? (oid : Oid) :
    (code? oid).toList = (entries.filter fun entry => entry.oid = oid).map Entry.code := by
  rw [filter_eq_toList_find? oids_nodup, code?, Option.toList_map]

theorem oid?_of_code? (found : code? oid = some code) : oid? code = some oid :=
  mem_entries_iff.mp (code?_eq_some_iff.mp found)

theorem code?_of_oid? (found : oid? code = some oid) : code? oid = some code :=
  code?_eq_some_iff.mpr (mem_entries_iff.mpr found)

/-- No identifier has two entries, so leaving out entries leaves out answers and adds none. -/
theorem find?_filter_entries (visible : Code → Bool) (oid : Oid) :
    ((entries.filter fun entry => visible entry.code).find? fun entry => entry.oid = oid).map
      Entry.code = (code? oid).filter visible := by
  apply Option.ext
  intro code
  rw [Option.map_eq_some_iff, Option.filter_eq_some_iff]
  refine ⟨fun listed => ?_, fun held => ?_⟩
  · obtain ⟨entry, found, rfl⟩ := listed
    have same : entry.oid = oid := by simpa using List.find?_some found
    obtain ⟨member, shown⟩ := List.mem_filter.mp (List.mem_of_find?_eq_some found)
    subst same
    exact ⟨code?_eq_some_iff.mpr member, shown⟩
  · obtain ⟨held, shown⟩ := held
    have member : ⟨code, oid⟩ ∈ entries.filter fun entry => visible entry.code :=
      List.mem_filter.mpr ⟨code?_eq_some_iff.mp held, shown⟩
    cases search : (entries.filter fun entry => visible entry.code).find?
        fun entry => entry.oid = oid with
    | none => simpa using List.find?_eq_none.mp search _ member
    | some entry =>
        have same : entry.oid = oid := by simpa using List.find?_some search
        have first := (List.mem_filter.mp (List.mem_of_find?_eq_some search)).1
        have equal := List.inj_on_of_nodup_map oids_nodup first
          (List.mem_of_mem_filter member) same
        exact ⟨entry, rfl, by rw [equal]⟩

end CompactOid.Reserved
