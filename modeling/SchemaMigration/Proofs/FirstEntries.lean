import Mathlib.Data.Finset.Card
import Mathlib.Data.List.Perm.Subperm
import SchemaMigration.Document.OnceMap

namespace SchemaMigration
namespace OnceMap

variable {α : Type}

theorem contains_ofList {entries : List (String × α)} {key : String} :
    (ofList entries).contains key = true ↔ ∃ value, (key, value) ∈ entries := by
  rw [contains, get?_ofList, isSome_lookup_iff]

theorem contains_iff_mem_keys {m : OnceMap α} {key : String} :
    m.contains key = true ↔ key ∈ m.entries.map Prod.fst := by
  rw [contains, Option.isSome_iff_ne_none, ne_eq, get?_eq_none_iff, not_not]

/-- A map has one entry for a key, with the value that is found under it. -/
theorem mem_entries_iff {m : OnceMap α} {key : String} {value : α} :
    (key, value) ∈ m.entries ↔ m.get? key = some value := by
  rw [get?, lookup_eq_some_iff_mem]
  intro v w hv hw
  have heq : (key, v) = (key, w) := List.inj_on_of_nodup_map m.nodup_keys hv hw rfl
  exact congrArg Prod.snd heq

/-- Two maps have the same entries up to order if each key has the same value in both. -/
theorem perm_entries_iff {m n : OnceMap α} :
    m.entries.Perm n.entries ↔ ∀ key, m.get? key = n.get? key := by
  rw [List.perm_ext_iff_of_nodup m.nodup_keys.of_map n.nodup_keys.of_map, Prod.forall]
  apply forall_congr'
  intro key
  rw [Option.ext_iff]
  simp only [mem_entries_iff]

/-- The comparison of two maps does not look at the order. -/
theorem sameEntries_of_get?_eq [DecidableEq α] {m n : OnceMap α}
    (h : ∀ key, m.get? key = n.get? key) : m.sameEntries n = true := by
  have hperm : m.entries.Perm n.entries := perm_entries_iff.mpr h
  rw [sameEntries, Bool.and_eq_true]
  constructor
  · exact beq_iff_eq.mpr hperm.length_eq
  · rw [List.all_eq_true]
    rintro ⟨key, value⟩ hmem
    rw [beq_iff_eq, ← h]
    exact mem_entries_iff.mp hmem

theorem get?_eq_of_sameEntries [DecidableEq α] {m n : OnceMap α} (h : m.sameEntries n = true) :
    ∀ key, m.get? key = n.get? key := by
  rw [sameEntries, Bool.and_eq_true] at h
  obtain ⟨hsize, hall⟩ := h
  -- The entries of one map are among as many entries of the other one, so they are all of these.
  have hsubset : m.entries ⊆ n.entries := by
    rintro ⟨key, value⟩ hmem
    exact mem_entries_iff.mpr (beq_iff_eq.mp (List.all_eq_true.mp hall _ hmem))
  have hlength : n.entries.length ≤ m.entries.length := (beq_iff_eq.mp hsize).ge
  apply perm_entries_iff.mp
  exact (List.subperm_of_subset m.nodup_keys.of_map hsubset).perm_of_length_le hlength

/-- A map has as many entries as there are keys in what it is made of. -/
theorem size_ofList (entries : List (String × α)) :
    (ofList entries).size = (entries.map Prod.fst).toFinset.card := by
  have hkeys : ((ofList entries).entries.map Prod.fst).toFinset =
      (entries.map Prod.fst).toFinset := by
    ext key
    rw [List.mem_toFinset, List.mem_toFinset, ← contains_iff_mem_keys, contains_ofList]
    simp
  rw [← hkeys, List.toFinset_card_of_nodup (ofList entries).nodup_keys, List.length_map, size]

/-- A new key stands at the end. -/
theorem entries_insertIfNew (m : OnceMap α) (key : String) (value : α) :
    (m.insertIfNew key value).2.entries =
      if m.contains key = true then m.entries else m.entries ++ [(key, value)] := by
  unfold insertIfNew contains
  split
  case h_1 old h => simp [h]
  case h_2 h => simp [h]

theorem fst_insertIfNew (m : OnceMap α) (key : String) (value : α) :
    (m.insertIfNew key value).1 = !m.contains key := by
  unfold insertIfNew contains
  split
  case h_1 old h => simp [h]
  case h_2 h => simp [h]

theorem ofList_concat (entries : List (String × α)) (e : String × α) :
    ofList (entries ++ [e]) = ((ofList entries).insertIfNew e.1 e.2).2 := by
  rw [ofList, List.foldl_append]
  rfl

def FirstIn {β : Type} (log : List (β × String × α)) (y : β × String × α) : Prop :=
  -- None of the elements before it has its key.
  ∃ before after, log = before ++ y :: after ∧ ∀ z ∈ before, z.2.1 ≠ y.2.1

/-- The entries of a map that is made of marked entries are marked too: they are the first ones
for their keys, in order. -/
theorem exists_firsts {β : Type} (log : List (β × String × α)) :
    ∃ firsts : List (β × String × α), firsts.Sublist log ∧
      (ofList (log.map Prod.snd)).entries = firsts.map Prod.snd ∧
      ∀ y ∈ firsts, FirstIn log y := by
  induction log using List.reverseRecOn with
  | nil => exact ⟨[], .refl [], rfl, by simp⟩
  | append_singleton log x ih =>
    obtain ⟨firsts, hsub, hentries, hfirst⟩ := ih
    have hmore (y : β × String × α) (hy : y ∈ firsts) : FirstIn (log ++ [x]) y := by
      obtain ⟨before, after, hlog, hbefore⟩ := hfirst y hy
      exact ⟨before, after ++ [x], by simp [hlog], hbefore⟩
    rw [List.map_append, List.map_singleton, ofList_concat, entries_insertIfNew]
    by_cases hcontains : (ofList (log.map Prod.snd)).contains x.2.1 = true
    · rw [if_pos hcontains]
      exact ⟨firsts, hsub.trans (List.sublist_append_left log [x]), hentries, hmore⟩
    · rw [if_neg hcontains, hentries]
      refine ⟨firsts ++ [x], hsub.append (.refl [x]), by simp, ?_⟩
      intro y hy
      rcases List.mem_append.mp hy with hy | hy
      · exact hmore y hy
      -- The new entry is the first for its key, since the map does not have the key yet.
      · obtain rfl := List.mem_singleton.mp hy
        refine ⟨log, [], rfl, fun z hz hkey => hcontains (contains_ofList.mpr ⟨z.2.2, ?_⟩)⟩
        rw [← hkey]
        exact List.mem_map_of_mem hz

end OnceMap
end SchemaMigration
