import MeshChat.Server.Mng

/-!
# Maps of records keyed by their own name

Both server maps store records under the name field of the record. On such a
map every operation is the plain list operation on the records, which is how
the handlers are specified later.
-/
namespace MeshChat.Server

abbrev StringMap (cap : ℕ) (V : Type) := HashMap (@hashString cap) equalString V

section Keyed
variable {cap : ℕ} {V : Type} {name : V → CharArray cap} {map : StringMap cap V}

/-- The stored records in iteration order. -/
def records (map : StringMap cap V) : List V := map.entries.map (·.value)

/-- A well-formed map whose records sit under their own names. -/
structure Keyed (name : V → CharArray cap) (map : StringMap cap V) : Prop where
  wf : map.Wf
  own_key : ∀ pair ∈ map.entries, pair.key = name pair.value

theorem Keyed.keys_eq (h : Keyed name map) : map.entries.map (·.key) = (records map).map name := by
  rw [records, List.map_map]
  exact List.map_congr_left h.own_key

theorem Keyed.nodup (h : Keyed name map) : ((records map).map name).Nodup := by
  rw [← h.keys_eq]
  refine h.wf.distinct.imp fun {a b} hab he => ?_
  rw [equalString_iff.mpr he] at hab
  contradiction

/-- The search of the map is a search of its records by name. -/
theorem Keyed.find?_entries (h : Keyed name map) (key : CharArray cap) :
    (map.entries.find? fun pair => equalString pair.key key).map (·.value) =
      (records map).find? fun v => decide (name v = key) := by
  rw [records, List.find?_map]
  congr 1
  refine List.find?_congr fun pair hp => ?_
  rw [equalString_eq_decide, h.own_key pair hp, Function.comp_apply]

theorem Keyed.find_eq (h : Keyed name map) (key : CharArray cap) :
    map.find key = (records map).find? fun v => decide (name v = key) := by
  rw [HashMap.find_eq (string_laws cap) h.wf, h.find?_entries]

theorem Keyed.find_eq_some (h : Keyed name map) {key : CharArray cap} {v : V} :
    map.find key = some v ↔ v ∈ records map ∧ name v = key := by
  rw [h.find_eq, KeyedList.find?_eq_some_iff h.nodup]

theorem Keyed.find_eq_none (h : Keyed name map) {key : CharArray cap} :
    map.find key = none ↔ ∀ v ∈ records map, name v ≠ key := by
  rw [h.find_eq, KeyedList.find?_eq_none_iff]

/-- An insert under an unused name adds the record, or an allocation fails and
the records stay. -/
theorem Keyed.insert (h : Keyed name map) (alloc : InsertAlloc) {v : V}
    (hn : map.find (name v) = none) :
    Keyed name (map.insert alloc (name v) v).2 ∧
      ((map.insert alloc (name v) v).1 = .success ∧ map.insertAllocOk alloc (name v) = true ∧
          (∃ front back, records map = front ++ back ∧
            records (map.insert alloc (name v) v).2 = front ++ v :: back) ∨
        (map.insert alloc (name v) v).1 ≠ .success ∧
          map.insertAllocOk alloc (name v) = false ∧
          records (map.insert alloc (name v) v).2 = records map) := by
  rw [HashMap.find_eq (string_laws cap) h.wf, Option.map_eq_none_iff] at hn
  obtain ⟨hwf, ⟨hs, halloc, front, back, hold, hnew⟩ | ⟨hs, halloc, hsame⟩⟩ :=
    HashMap.insert_absent (string_laws cap) h.wf alloc v hn
  · refine ⟨⟨hwf, ?_⟩, Or.inl ⟨hs, halloc, front.map (·.value), back.map (·.value), ?_, ?_⟩⟩
    · have hown := h.own_key
      rw [hold] at hown
      rw [hnew]
      intro pair hp
      rcases List.mem_append.mp hp with hp | hp
      · exact hown pair (List.mem_append_left _ hp)
      · rcases List.mem_cons.mp hp with rfl | hp
        · rfl
        · exact hown pair (List.mem_append_right _ hp)
    · rw [records, hold, List.map_append]
    · rw [records, hnew, List.map_append, List.map_cons]
  · refine ⟨⟨hwf, hsame ▸ h.own_key⟩, Or.inr ⟨by rw [hs]; decide, halloc, ?_⟩⟩
    rw [records, hsame, records]

/-- A removal hands the record back and drops exactly the record of that name. -/
theorem Keyed.remove_some (h : Keyed name map) {key : CharArray cap} {v : V}
    (hs : map.find key = some v) :
    (∃ pair, (map.remove key).1 = some pair ∧ pair.value = v) ∧
      Keyed name (map.remove key).2 ∧
      records (map.remove key).2 = (records map).filter fun w => decide (name w ≠ key) := by
  rw [HashMap.find_eq (string_laws cap) h.wf, Option.map_eq_some_iff] at hs
  obtain ⟨pair, hp, hv⟩ := hs
  obtain ⟨hpair, hwf, hentries⟩ := HashMap.remove_present (string_laws cap) h.wf hp
  refine ⟨⟨pair, hpair, hv⟩, ⟨hwf, ?_⟩, ?_⟩
  · intro q hq
    rw [hentries] at hq
    exact h.own_key q (List.mem_of_mem_filter hq)
  · rw [records, hentries, records, List.filter_map]
    congr 1
    apply List.filter_congr
    intro q hq
    rw [equalString_eq_decide, h.own_key q hq, Function.comp_apply, decide_not]

/-- A write through a record pointer that leaves the name alone. -/
theorem Keyed.modify (h : Keyed name map) (key : CharArray cap) {f : V → V}
    (hf : ∀ v ∈ records map, name v = key → name (f v) = name v) :
    Keyed name (map.modify key f) ∧
      records (map.modify key f) = KeyedList.edit name key f (records map) := by
  obtain ⟨hwf, hentries⟩ := HashMap.modify_spec (string_laws cap) h.wf key f
  have hkey : ∀ pair ∈ map.entries, (equalString pair.key key = true) = (name pair.value = key) := by
    intro pair hp
    rw [equalString_iff, h.own_key pair hp]
  refine ⟨⟨hwf, ?_⟩, ?_⟩
  · rw [hentries]
    intro q hq
    obtain ⟨pair, hp, rfl⟩ := List.mem_map.mp hq
    have hown := h.own_key pair hp
    simp only [hkey pair hp]
    split_ifs with hk
    · exact hown.trans (hf _ (List.mem_map_of_mem hp) hk).symm
    · exact hown
  · rw [records, hentries, KeyedList.edit, records, List.map_map, List.map_map]
    apply List.map_congr_left
    intro pair hp
    simp only [Function.comp_apply, hkey pair hp]
    split_ifs <;> rfl

/-- Without failing allocations every insert goes through. -/
theorem insertAllocOk_of_allocOk {env : Env} (h : env.AllocOk) (map : StringMap cap V)
    (key : CharArray cap) : map.insertAllocOk env.insertAlloc key = true := by
  simp [HashMap.insertAllocOk, Env.insertAlloc, h .bucketList, h .pair, h .pairNode]

end Keyed

end MeshChat.Server
