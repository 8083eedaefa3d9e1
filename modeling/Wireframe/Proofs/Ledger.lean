import Mathlib.Data.List.Induction
import Mathlib.Data.List.Nodup
import Wireframe.Ledger

namespace Wireframe.Ledger

variable {α β : Type}

@[simp] theorem get?_nil (key : String) : get? ([] : Ledger α) key = none := rfl

theorem get?_cons (k : String) (v : α) (rest : Ledger α) (key : String) :
    get? ((k, v) :: rest) key = if k = key then some v else get? rest key := by
  rw [get?, get?, List.lookup_cons]
  by_cases h : k = key
  · simp [h]
  · have hkey : (key == k) = false := beq_false_of_ne (Ne.symm h)
    rw [hkey, if_neg h]

theorem get?_append (first second : Ledger α) (key : String) :
    get? (first ++ second) key = (get? first key).or (get? second key) :=
  List.lookup_append

theorem get?_eq_none_iff {ledger : Ledger α} {key : String} :
    get? ledger key = none ↔ key ∉ keys ledger := by
  induction ledger with
  | nil => simp [keys]
  | cons entry rest ih =>
    obtain ⟨k, v⟩ := entry
    rw [get?_cons, keys, List.map_cons, List.mem_cons, ← keys]
    by_cases h : k = key
    · simp [h]
    · simp [h, Ne.symm h, ih]

theorem contains_eq_false_iff {ledger : Ledger α} {key : String} :
    ledger.contains key = false ↔ key ∉ keys ledger := by
  rw [contains, Option.isSome_eq_false_iff, Option.isNone_iff_eq_none, get?_eq_none_iff]

theorem mem_of_get? {ledger : Ledger α} {key : String} {value : α}
    (h : get? ledger key = some value) : (key, value) ∈ ledger := by
  obtain ⟨before, after, rfl, -⟩ := List.lookup_eq_some_iff.mp h
  exact List.mem_append_right before List.mem_cons_self

-- With each key once, an entry is what is found under its key.
theorem get?_eq_some_iff {ledger : Ledger α} (hdistinct : (keys ledger).Nodup) {key : String}
    {value : α} : get? ledger key = some value ↔ (key, value) ∈ ledger := by
  induction ledger with
  | nil => simp
  | cons entry rest ih =>
    obtain ⟨k, v⟩ := entry
    rw [keys, List.map_cons, List.nodup_cons, ← keys] at hdistinct
    rw [get?_cons, List.mem_cons, Prod.mk.injEq]
    by_cases h : k = key
    · have hrest : (key, value) ∉ rest := fun hmem =>
        hdistinct.1 (List.mem_map.mpr ⟨_, hmem, h.symm⟩)
      simp [h, hrest, eq_comm]
    · simp [h, Ne.symm h, ih hdistinct.2]

theorem get?_map (f : String → α → β) (ledger : Ledger α) (key : String) :
    get? (ledger.map fun entry => (entry.1, f entry.1 entry.2)) key =
      (get? ledger key).map (f key) := by
  induction ledger with
  | nil => rfl
  | cons entry rest ih =>
    obtain ⟨k, v⟩ := entry
    rw [List.map_cons, get?_cons, get?_cons, ih]
    by_cases h : k = key <;> simp [h]

theorem get?_filter (p : String → Bool) (ledger : Ledger α) (key : String) :
    get? (ledger.filter fun entry => p entry.1) key = if p key then get? ledger key else none := by
  induction ledger with
  | nil => simp
  | cons entry rest ih =>
    obtain ⟨k, v⟩ := entry
    rw [List.filter_cons]
    by_cases h : k = key
    · subst h
      cases hp : p k <;> simp [hp, ih, get?_cons]
    · cases hk : p k <;> simp [ih, get?_cons, h]

-- With each key once, the keys of some entries are those under which such an entry is found.
theorem mem_keys_filter {ledger : Ledger α} (hdistinct : (keys ledger).Nodup) (p : α → Bool)
    (key : String) :
    key ∈ keys (ledger.filter fun entry => p entry.2) ↔
      ∃ value, get? ledger key = some value ∧ p value = true := by
  rw [keys, List.mem_map]
  constructor
  · rintro ⟨⟨k, value⟩, hmem, rfl⟩
    obtain ⟨hin, hp⟩ := List.mem_filter.mp hmem
    exact ⟨value, (get?_eq_some_iff hdistinct).mpr hin, hp⟩
  · rintro ⟨value, hfound, hp⟩
    have hin := (get?_eq_some_iff hdistinct).mp hfound
    exact ⟨(key, value), List.mem_filter.mpr ⟨hin, hp⟩, rfl⟩

section

variable {κ : Type} [BEq κ] [LawfulBEq κ]

theorem eraseDups_concat (items : List κ) (item : κ) :
    (items ++ [item]).eraseDups =
      if item ∈ items then items.eraseDups else items.eraseDups ++ [item] := by
  rw [List.eraseDups_append, List.removeAll, List.filter_singleton]
  by_cases h : item ∈ items <;> simp [h, List.eraseDups_cons]

theorem nodup_eraseDups (items : List κ) : items.eraseDups.Nodup := by
  induction items using List.reverseRecOn with
  | nil => exact .nil
  | append_singleton items item ih =>
    rw [eraseDups_concat]
    by_cases h : item ∈ items
    · rwa [if_pos h]
    · rw [if_neg h, ← List.concat_eq_append]
      exact ih.concat (by simpa using h)

theorem eraseDups_of_nodup {items : List κ} (h : items.Nodup) : items.eraseDups = items := by
  induction items using List.reverseRecOn with
  | nil => rfl
  | append_singleton items item ih =>
    have hnew : item ∉ items := by
      intro hmem
      exact (List.nodup_append.mp h).2.2 item hmem item (List.mem_singleton_self item) rfl
    rw [eraseDups_concat, if_neg hnew, ih h.of_append_left]

theorem eraseDups_filter (p : κ → Bool) (items : List κ) :
    (items.filter p).eraseDups = items.eraseDups.filter p := by
  induction items using List.reverseRecOn with
  | nil => rfl
  | append_singleton items item ih =>
    rw [List.filter_append, List.filter_singleton, eraseDups_concat]
    cases hp : p item with
    | false =>
      by_cases hmem : item ∈ items <;> simp [hmem, hp, ih]
    | true =>
      rw [cond_true, eraseDups_concat, ih]
      by_cases hmem : item ∈ items <;> simp [hmem, hp]

-- What is in the first list already does not arrive in the second.
theorem eraseDups_append_filter (first second : List κ) :
    (first ++ second).eraseDups =
      first.eraseDups ++ second.eraseDups.filter fun item => !first.contains item := by
  rw [List.eraseDups_append, List.removeAll, eraseDups_filter]

theorem eraseDups_append_eraseDups (first second : List κ) :
    (first.eraseDups ++ second.eraseDups).eraseDups = (first ++ second).eraseDups := by
  rw [eraseDups_append_filter, eraseDups_append_filter, eraseDups_of_nodup (nodup_eraseDups first),
    eraseDups_of_nodup (nodup_eraseDups second)]
  simp only [List.contains_eq_mem, List.mem_eraseDups]

-- What is left out of both lists together may be left out of each before they are joined.
theorem filter_eraseDups_append {p q keep : κ → Bool} (hp : ∀ item, keep item = true → p item = true)
    (hq : ∀ item, keep item = true → q item = true) (first second : List κ) :
    (first.eraseDups.filter p ++ second.eraseDups.filter q).eraseDups.filter keep =
      (first ++ second).eraseDups.filter keep := by
  have hfirst : (first.eraseDups.filter p).filter keep = first.eraseDups.filter keep := by
    rw [List.filter_filter]
    exact List.filter_congr fun item _ => by cases h : keep item <;> simp [h, hp]
  have hsecond : (second.eraseDups.filter q).filter keep = second.eraseDups.filter keep := by
    rw [List.filter_filter]
    exact List.filter_congr fun item _ => by cases h : keep item <;> simp [h, hq]
  calc (first.eraseDups.filter p ++ second.eraseDups.filter q).eraseDups.filter keep
      = (first.eraseDups.filter keep ++ second.eraseDups.filter keep).eraseDups := by
        rw [← eraseDups_filter, List.filter_append, hfirst, hsecond]
    _ = (first.filter keep ++ second.filter keep).eraseDups := by
        rw [← eraseDups_filter, ← eraseDups_filter, eraseDups_append_eraseDups]
    _ = (first ++ second).eraseDups.filter keep := by
        rw [← List.filter_append, eraseDups_filter]

end

theorem get?_insert (ledger : Ledger α) (k : String) (v : α) (key : String) :
    get? (insert ledger k v) key = if k = key then some v else get? ledger key := by
  induction ledger with
  | nil => rw [insert, get?_cons]
  | cons entry rest ih =>
    obtain ⟨k', v'⟩ := entry
    rw [insert]
    by_cases h : k' = k
    · subst h
      by_cases hkey : k' = key <;> simp [get?_cons, hkey]
    · rw [if_neg (by simpa using h), get?_cons, ih, get?_cons]
      by_cases hkey : k' = key
      · subst hkey
        simp [Ne.symm h]
      · simp [hkey]

theorem keys_insert (ledger : Ledger α) (k : String) (v : α) :
    keys (insert ledger k v) = if k ∈ keys ledger then keys ledger else keys ledger ++ [k] := by
  induction ledger with
  | nil => rfl
  | cons entry rest ih =>
    obtain ⟨k', v'⟩ := entry
    rw [insert]
    by_cases h : k' = k
    · simp [h, keys]
    · rw [if_neg (by simpa using h)]
      simp only [keys, List.map_cons, List.mem_cons, Ne.symm h, false_or] at ih ⊢
      rw [ih]
      by_cases hmem : k ∈ rest.map (·.1) <;> simp [hmem]

theorem nodup_keys_insert {ledger : Ledger α} (hdistinct : (keys ledger).Nodup) (k : String)
    (v : α) : (keys (insert ledger k v)).Nodup := by
  rw [keys_insert]
  by_cases h : k ∈ keys ledger
  · rwa [if_pos h]
  · rw [if_neg h, ← List.concat_eq_append]
    exact hdistinct.concat h

theorem mem_of_mem_insert {ledger : Ledger α} {k : String} {v : α} {entry : String × α}
    (h : entry ∈ insert ledger k v) : entry ∈ ledger ∨ entry = (k, v) := by
  induction ledger with
  | nil => exact .inr (List.mem_singleton.mp h)
  | cons first rest ih =>
    rw [insert] at h
    split at h
    · rcases List.mem_cons.mp h with hentry | hrest
      · exact .inr hentry
      · exact .inl (List.mem_cons_of_mem _ hrest)
    · rcases List.mem_cons.mp h with rfl | hrest
      · exact .inl List.mem_cons_self
      · exact (ih hrest).imp_left (List.mem_cons_of_mem _)

-- A new key goes to the end.
theorem insert_of_notMem {ledger : Ledger α} {k : String} (h : k ∉ keys ledger) (v : α) :
    insert ledger k v = ledger ++ [(k, v)] := by
  induction ledger with
  | nil => rfl
  | cons entry rest ih =>
    obtain ⟨k', v'⟩ := entry
    rw [keys, List.map_cons, List.mem_cons, not_or, ← keys] at h
    rw [insert, if_neg (by simpa using Ne.symm h.1), ih h.2, List.cons_append]

theorem ofList_concat (entries : List (String × α)) (entry : String × α) :
    ofList (entries ++ [entry]) = insert (ofList entries) entry.1 entry.2 := by
  rw [ofList, List.foldl_append, ← ofList, List.foldl_cons, List.foldl_nil]

-- Of the entries with a key the last one counts.
theorem get?_ofList (entries : List (String × α)) (key : String) :
    get? (ofList entries) key = (entries.findRev? fun entry => entry.1 == key).map (·.2) := by
  induction entries using List.reverseRecOn with
  | nil => rfl
  | append_singleton entries entry ih =>
    simp only [List.findRev?_eq_find?_reverse] at ih ⊢
    rw [ofList_concat, get?_insert, ih, List.reverse_concat, List.find?_cons]
    by_cases h : entry.1 = key
    · simp [h]
    · rw [if_neg h, beq_false_of_ne h]

-- The keys stand in the order in which they have come first.
theorem keys_ofList (entries : List (String × α)) :
    keys (ofList entries) = (entries.map (·.1)).eraseDups := by
  induction entries using List.reverseRecOn with
  | nil => rfl
  | append_singleton entries entry ih =>
    rw [ofList_concat, keys_insert, List.map_append, List.map_singleton, eraseDups_concat, ih]
    simp only [List.mem_eraseDups]

end Wireframe.Ledger
