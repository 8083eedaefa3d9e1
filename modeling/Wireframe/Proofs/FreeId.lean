import Mathlib.Data.Finset.Card
import Mathlib.Order.Bounds.Defs
import Wireframe.Proofs.NodeId

namespace Wireframe

-- A search that starts at a word: the words that it tries in turn, and the id that it ends with.
-- It has no bound of its own and starts over at zero where the words end.
inductive Search (parent : String) (kind : Kind) (taken : List String) :
    UInt64 → List UInt64 → String → Prop
  | found {number : UInt64} :
    nodeId (some parent) kind number.toNat ∉ taken →
    Search parent kind taken number [number] (nodeId (some parent) kind number.toNat)
  | passed {number : UInt64} {tried : List UInt64} {id : String} :
    nodeId (some parent) kind number.toNat ∈ taken →
    Search parent kind taken (number + 1) tried id →
    Search parent kind taken number (number :: tried) id

variable {parent : String} {kind : Kind} {taken : List String}

namespace Search

variable {number : UInt64} {tried : List UInt64} {id : String}

theorem unique (h : Search parent kind taken number tried id) {tried' : List UInt64} {id' : String}
    (h' : Search parent kind taken number tried' id') : tried' = tried ∧ id' = id := by
  induction h generalizing tried' with
  | found hfree =>
    cases h' with
    | found => exact ⟨rfl, rfl⟩
    | passed htaken => exact absurd htaken hfree
  | passed htaken _ ih =>
    cases h' with
    | found hfree => exact absurd htaken hfree
    | passed _ hrest =>
      obtain ⟨rfl, rfl⟩ := ih hrest
      exact ⟨rfl, rfl⟩

theorem ne_nil (h : Search parent kind taken number tried id) : tried ≠ [] := by
  cases h <;> exact List.cons_ne_nil _ _

-- From each word that it tries, the search goes on to the same end.
theorem exists_of_mem (h : Search parent kind taken number tried id) {later : UInt64}
    (hlater : later ∈ tried) :
    ∃ rest, Search parent kind taken later rest id ∧ rest.length ≤ tried.length := by
  induction h with
  | found hfree =>
    obtain rfl := List.mem_singleton.mp hlater
    exact ⟨_, .found hfree, Nat.le_refl _⟩
  | passed htaken hrest ih =>
    rcases List.mem_cons.mp hlater with rfl | hlater
    · exact ⟨_, .passed htaken hrest, Nat.le_refl _⟩
    · obtain ⟨rest, hsearch, hle⟩ := ih hlater
      exact ⟨rest, hsearch, Nat.le_succ_of_le hle⟩

theorem nodup (h : Search parent kind taken number tried id) : tried.Nodup := by
  induction h with
  | found => exact List.nodup_singleton _
  | passed htaken hrest ih =>
    refine List.nodup_cons.mpr ⟨fun hmem => ?_, ih⟩
    -- if the first word came again, the search from there would be as long as the whole
    obtain ⟨again, hsearch, hle⟩ := hrest.exists_of_mem hmem
    obtain ⟨rfl, -⟩ := (passed htaken hrest).unique hsearch
    rw [List.length_cons] at hle
    omega

theorem taken_of_mem_dropLast (h : Search parent kind taken number tried id) :
    ∀ word ∈ tried.dropLast, nodeId (some parent) kind word.toNat ∈ taken := by
  induction h with
  | found => exact List.forall_mem_nil _
  | passed htaken hrest ih =>
    rw [List.dropLast_cons_of_ne_nil hrest.ne_nil]
    exact List.forall_mem_cons.mpr ⟨htaken, ih⟩

-- Each candidate but the last is a taken id of its own.
theorem length_le (h : Search parent kind taken number tried id) :
    tried.length ≤ taken.toFinset.card + 1 := by
  have hnumbers : (tried.dropLast.map UInt64.toNat).Nodup :=
    (h.nodup.sublist (List.dropLast_sublist tried)).map fun _ _ => UInt64.toNat_inj.mp
  have hpassed : ∀ i ∈ tried.dropLast.map UInt64.toNat,
      nodeId (some parent) kind i ∈ taken.dedup :=
    List.forall_mem_map.mpr fun word hword =>
      List.mem_dedup.mpr (h.taken_of_mem_dropLast word hword)
  have hle := length_le_of_ids_mem hnumbers hpassed
  rw [List.length_map, List.length_dropLast, ← List.card_toFinset] at hle
  omega

-- A search that has words left for all that it tries has one left for its second.
theorem toNat_second (hrest : Search parent kind taken (number + 1) tried id)
    (hroom : number.toNat + (number :: tried).length ≤ numberBound) :
    (number + 1).toNat = number.toNat + 1 := by
  have hlength := List.length_pos_iff.mpr hrest.ne_nil
  rw [List.length_cons] at hroom
  rw [UInt64.toNat_add, UInt64.toNat_one]
  exact Nat.mod_eq_of_lt (Nat.lt_of_lt_of_le (by omega) hroom)

theorem map_toNat_tried (h : Search parent kind taken number tried id)
    (hroom : number.toNat + tried.length ≤ numberBound) :
    tried.map UInt64.toNat = List.range' number.toNat tried.length := by
  induction h with
  | found => rfl
  | passed htaken hrest ih =>
    have hsecond := hrest.toNat_second hroom
    rw [List.length_cons] at hroom
    rw [hsecond] at ih
    rw [List.map_cons, List.length_cons, List.range'_succ, ih (by omega)]

theorem exists_isLeast (h : Search parent kind taken number tried id)
    (hroom : number.toNat + tried.length ≤ numberBound) :
    ∃ least, IsLeast {i | number.toNat ≤ i ∧ nodeId (some parent) kind i ∉ taken} least ∧
      id = nodeId (some parent) kind least := by
  induction h with
  | found hfree => exact ⟨_, ⟨⟨Nat.le_refl _, hfree⟩, fun i hi => hi.1⟩, rfl⟩
  | @passed number tried id htaken hrest ih =>
    have hsecond := hrest.toNat_second hroom
    rw [List.length_cons] at hroom
    rw [hsecond] at ih
    obtain ⟨least, ⟨⟨hle, hfree⟩, hleast⟩, hid⟩ := ih (by omega)
    refine ⟨least, ⟨⟨by omega, hfree⟩, fun i hi => ?_⟩, hid⟩
    -- the first number is not free, so every free one is among those from the second on
    obtain ⟨hfrom, hother⟩ := hi
    have hne : number.toNat ≠ i := fun heq => hother (heq ▸ htaken)
    exact hleast ⟨by omega, hother⟩

-- From taken ids a search goes on to what follows them, at zero if they take up the last word.
theorem exists_of_passed {start count : Nat} (hword : start + count ≤ numberBound)
    (hpassed : ∀ id ∈ idsFrom parent kind start count, id ∈ taken)
    (hrest : ∃ tried, Search parent kind taken (.ofNat (start + count)) tried id) :
    ∃ tried, Search parent kind taken (.ofNat start) tried id := by
  induction count generalizing start with
  | zero => exact hrest
  | succ count ih =>
    rw [idsFrom, List.range'_succ, List.map_cons, List.forall_mem_cons] at hpassed
    obtain ⟨hfirst, hpassed⟩ := hpassed
    have hstart : (UInt64.ofNat start).toNat = start :=
      UInt64.toNat_ofNat_of_lt' (Nat.lt_of_lt_of_le (by omega) hword)
    have hsecond : start + (count + 1) = start + 1 + count := by omega
    rw [hsecond] at hword hrest
    obtain ⟨tried, hsearch⟩ := ih hword hpassed hrest
    rw [UInt64.ofNat_add] at hsearch
    exact ⟨_ :: tried, .passed (hstart.symm ▸ hfirst) hsearch⟩

theorem exists_of_free {start count : Nat} (hword : start + count < numberBound)
    (hpassed : ∀ id ∈ idsFrom parent kind start count, id ∈ taken)
    (hfree : nodeId (some parent) kind (start + count) ∉ taken) :
    ∃ tried, Search parent kind taken (.ofNat start) tried
      (nodeId (some parent) kind (start + count)) := by
  have hlast : (UInt64.ofNat (start + count)).toNat = start + count :=
    UInt64.toNat_ofNat_of_lt' hword
  apply exists_of_passed (Nat.le_of_lt hword) hpassed
  rw [← hlast] at hfree
  have hfound := found hfree
  rw [hlast] at hfound
  exact ⟨_, hfound⟩

end Search

-- As long as there are fewer taken ids than words, the search from any word ends, and it ends with
-- the next free id.
theorem exists_search_nextFreeId (parent : String) (kind : Kind) {index : Nat} {taken : List String}
    (hindex : index < numberBound) (hfew : taken.toFinset.card < numberBound) :
    ∃ tried, Search parent kind taken (.ofNat index) tried
      (nextFreeId parent kind index taken) := by
  obtain ⟨count, hnumber, hpassed, hfree⟩ := freeNumber_eq parent kind index taken
  by_cases hword : index + count < numberBound
  · simp only [nextFreeId, hnumber, if_pos hword]
    exact Search.exists_of_free hword hpassed hfree
  · obtain ⟨count', hnumber', hpassed', hfree'⟩ := freeNumber_eq parent kind 0 taken
    simp only [nextFreeId, hnumber, if_neg hword, hnumber']
    -- all words from the first on are taken, and after them the search starts over
    have hend : index + (numberBound - index) = numberBound := by omega
    have hover : UInt64.ofNat numberBound = .ofNat 0 := UInt64.ofNat_size
    have hcount' : count' ≤ taken.dedup.length :=
      le_length_of_idsFrom_subset fun id hid => List.mem_dedup.mpr (hpassed' id hid)
    rw [← List.card_toFinset] at hcount'
    apply Search.exists_of_passed (Nat.le_of_eq hend)
    · intro id hid
      obtain ⟨number, hmem, rfl⟩ := List.mem_map.mp hid
      rw [List.mem_range'_1] at hmem
      exact hpassed _ (List.mem_map_of_mem (List.mem_range'_1.mpr (by omega)))
    · rw [hend, hover]
      exact Search.exists_of_free (by omega) hpassed' hfree'

example : nextFreeId "p" (.component .card) 18446744073709551615
    ["p.card-18446744073709551615"] = "p.card-0" := by
  decide +kernel

-- The search has one run, in which the counter goes up by one each time and never starts over. It
-- takes one step for each taken id at most, and one more, to the first id that is not taken.
theorem nextFreeId_isLeast (parent : String) (kind : Kind) {index : Nat} {taken : List String}
    (hroom : index + taken.toFinset.card < numberBound) :
    ∃ tried,
      (∀ other id, Search parent kind taken (.ofNat index) other id ↔
        other = tried ∧ id = nextFreeId parent kind index taken) ∧
      tried.length ≤ taken.toFinset.card + 1 ∧
      tried.map UInt64.toNat = List.range' index tried.length ∧
      nextFreeId parent kind index taken ∉ taken ∧
      ∃ number, IsLeast {i | index ≤ i ∧ nodeId (some parent) kind i ∉ taken} number ∧
        nextFreeId parent kind index taken = nodeId (some parent) kind number := by
  have hstart : index < numberBound := by omega
  have hfew : taken.toFinset.card < numberBound := by omega
  obtain ⟨tried, hsearch⟩ := exists_search_nextFreeId parent kind hstart hfew
  have hlength := hsearch.length_le
  have hindex : (UInt64.ofNat index).toNat = index := UInt64.toNat_ofNat_of_lt' hstart
  have hwords : (UInt64.ofNat index).toNat + tried.length ≤ numberBound := by omega
  have hnumbers := hsearch.map_toNat_tried hwords
  obtain ⟨number, hleast, hid⟩ := hsearch.exists_isLeast hwords
  rw [hindex] at hnumbers hleast
  have hfree : nextFreeId parent kind index taken ∉ taken := hid ▸ hleast.1.2
  refine ⟨tried, fun other id => ⟨hsearch.unique, ?_⟩, hlength, hnumbers, hfree, number, hleast,
    hid⟩
  rintro ⟨rfl, rfl⟩
  exact hsearch

-- Of the last three words the first two are taken, one of them twice over.
def lastIds : List String :=
  ["p.card-18446744073709551614", "p.card-18446744073709551613", "p.card-18446744073709551614"]

theorem lastIds_searched :
    18446744073709551613 + lastIds.toFinset.card < numberBound ∧
      ∃ tried,
        (∀ other id, Search "p" (.component .card) lastIds 18446744073709551613 other id ↔
          other = tried ∧ id = "p.card-18446744073709551615") ∧
        tried.length ≤ 3 := by
  have hroom : 18446744073709551613 + lastIds.toFinset.card < numberBound := by decide +kernel
  have hcard : lastIds.toFinset.card = 2 := by decide +kernel
  have hid : nextFreeId "p" (.component .card) 18446744073709551613 lastIds =
      "p.card-18446744073709551615" := by
    decide +kernel
  obtain ⟨tried, hruns, hlength, -⟩ := nextFreeId_isLeast "p" (.component .card) hroom
  rw [hid] at hruns
  rw [hcard] at hlength
  exact ⟨hroom, tried, hruns, hlength⟩

end Wireframe
