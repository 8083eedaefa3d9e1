import Mathlib.Algebra.Group.Nat.Defs
import Mathlib.Data.List.Nodup
import Mathlib.Data.List.Perm.Subperm
import Wireframe.Plan.Id
import Wireframe.Proofs.Validity

namespace Wireframe

-- What an id has more than the id of its parent, apart from the point.
def Kind.segment (kind : Kind) (index : Nat) : List Char :=
  kind.slug.toList ++ '-' :: Nat.toDigits 10 index

theorem toList_nodeId_some (parent : String) (kind : Kind) (index : Nat) :
    (nodeId (some parent) kind index).toList = parent.toList ++ '.' :: kind.segment index := by
  simp [nodeId, Kind.segment]

theorem toDigits_injective {i j : Nat} (h : Nat.toDigits 10 i = Nat.toDigits 10 j) : i = j := by
  rw [← Nat.ofDigitChars_ten_toDigits (n := i), h, Nat.ofDigitChars_ten_toDigits]

theorem isDigit_of_mem_digits {c : Char} {n : Nat} (h : c ∈ Nat.toDigits 10 n) : c.isDigit :=
  Nat.isDigit_of_mem_toDigits (by decide) (by decide) h

namespace Kind

theorem forall_of_forall_mem {P : Kind → Prop} (h : ∀ kind ∈ all, P kind) (kind : Kind) :
    P kind := by
  apply h
  rcases kind with kind | kind <;> cases kind <;> decide

theorem hyphen_notMem_slug : ∀ kind : Kind, '-' ∉ kind.slug.toList :=
  forall_of_forall_mem (by decide)

theorem point_notMem_slug : ∀ kind : Kind, '.' ∉ kind.slug.toList :=
  forall_of_forall_mem (by decide)

theorem slug_injective {a b : Kind} (h : a.slug = b.slug) : a = b := by
  have hall : ∀ a ∈ all, ∀ b ∈ all, a.slug = b.slug → a = b := by decide
  have hfirst : ∀ a b : Kind, a.slug = b.slug → a = b :=
    forall_of_forall_mem fun a ha => forall_of_forall_mem (hall a ha)
  exact hfirst a b h

theorem segment_injective {a b : Kind} {i j : Nat} (h : a.segment i = b.segment j) :
    a = b ∧ i = j := by
  have hyphen_notMem_digits : '-' ∉ Nat.toDigits 10 i := fun hmem => by
    have := isDigit_of_mem_digits hmem
    contradiction
  obtain ⟨hslug, -, hdigits⟩ :=
    (List.append_cons_inj_of_notMem a.hyphen_notMem_slug hyphen_notMem_digits).mp h
  exact ⟨slug_injective (String.toList_inj.mp hslug), toDigits_injective hdigits⟩

theorem point_notMem_segment (kind : Kind) (index : Nat) : '.' ∉ kind.segment index := by
  rw [segment, List.mem_append, List.mem_cons]
  rintro (hslug | hhyphen | hdigit)
  · exact kind.point_notMem_slug hslug
  · cases hhyphen
  · have := isDigit_of_mem_digits hdigit
    contradiction

theorem segment_characters (kind : Kind) (index : Nat) : ∀ c ∈ kind.segment index, isIdPart c := by
  have hslug : ∀ kind : Kind, kind.slug.toList.all isIdPart = true :=
    forall_of_forall_mem (by decide)
  intro c hc
  rw [segment, List.mem_append, List.mem_cons] at hc
  rcases hc with hc | rfl | hc
  · exact List.all_eq_true.mp (hslug kind) c hc
  · rfl
  · simp [isIdPart, Char.isAlphanum, isDigit_of_mem_digits hc]

-- Numbers with up to twenty digits, which all words of 64 bits are, make short segments.
theorem length_segment_le (kind : Kind) {index : Nat} (hindex : index < 10 ^ 20) :
    (kind.segment index).length ≤ 28 := by
  have hslug : ∀ kind : Kind, kind.slug.toList.length ≤ 7 := forall_of_forall_mem (by decide)
  have hdigits : (Nat.toDigits 10 index).length ≤ 20 :=
    (Nat.length_toDigits_le_iff (by decide) (by decide)).mpr hindex
  have := hslug kind
  rw [segment, List.length_append, List.length_cons]
  omega

end Kind

theorem nodeId_injective (parent : String) {a b : Kind} {i j : Nat}
    (h : nodeId (some parent) a i = nodeId (some parent) b j) : a = b ∧ i = j := by
  have hlist := congrArg String.toList h
  rw [toList_nodeId_some, toList_nodeId_some] at hlist
  exact Kind.segment_injective (List.cons.inj (List.append_cancel_left hlist)).2

-- An id that is another one, or is made from it by adding segments.
def IdWithin (base id : String) : Prop :=
  ∃ rest : List Char, id.toList = base.toList ++ rest ∧ ∀ c ∈ rest.head?, c = '.'

theorem IdWithin.refl (id : String) : IdWithin id id :=
  ⟨[], (List.append_nil _).symm, nofun⟩

theorem IdWithin.trans {a b c : String} (hab : IdWithin a b) (hbc : IdWithin b c) :
    IdWithin a c := by
  obtain ⟨first, hfirst, hpoint⟩ := hab
  obtain ⟨second, hsecond, hpoint'⟩ := hbc
  refine ⟨first ++ second, by rw [hsecond, hfirst, List.append_assoc], ?_⟩
  cases first with
  | nil => exact hpoint'
  | cons c rest => exact hpoint

theorem IdWithin.length_le {base id : String} (h : IdWithin base id) : base.length ≤ id.length := by
  obtain ⟨rest, hrest, -⟩ := h
  rw [← String.length_toList, ← String.length_toList, hrest, List.length_append]
  omega

theorem idWithin_nodeId (parent : String) (kind : Kind) (index : Nat) :
    IdWithin parent (nodeId (some parent) kind index) :=
  ⟨_, toList_nodeId_some parent kind index, by rintro _ ⟨⟩; rfl⟩

-- An id within a child's id tells which child it is.
theorem eq_of_idWithin {parent id : String} {a b : Kind} {i j : Nat}
    (ha : IdWithin (nodeId (some parent) a i) id) (hb : IdWithin (nodeId (some parent) b j) id) :
    nodeId (some parent) a i = nodeId (some parent) b j := by
  have htake : ∀ (kind : Kind) (index : Nat) (rest : List Char), (∀ c ∈ rest.head?, c = '.') →
      (kind.segment index ++ rest).takeWhile (· != '.') = kind.segment index := by
    intro kind index rest hrest
    have hsegment : ∀ c ∈ kind.segment index, (c != '.') = true := fun c hc =>
      bne_iff_ne.mpr fun heq => kind.point_notMem_segment index (heq ▸ hc)
    rw [List.takeWhile_append_of_pos hsegment]
    cases rest with
    | nil => rw [List.takeWhile_nil, List.append_nil]
    | cons c rest =>
      obtain rfl := hrest c rfl
      rw [List.takeWhile_cons_of_neg (by decide), List.append_nil]
  obtain ⟨first, hfirst, hpoint⟩ := ha
  obtain ⟨second, hsecond, hpoint'⟩ := hb
  have hsame : a.segment i ++ first = b.segment j ++ second := by
    rw [hfirst, toList_nodeId_some, toList_nodeId_some, List.append_assoc, List.append_assoc]
      at hsecond
    exact (List.cons.inj (List.append_cancel_left hsecond)).2
  have hsegment := congrArg (List.takeWhile (· != '.')) hsame
  rw [htake a i first hpoint, htake b j second hpoint'] at hsegment
  obtain ⟨rfl, rfl⟩ := Kind.segment_injective hsegment
  rfl

-- Going down a level makes an id longer by 29 characters at most.
theorem length_nodeId_le (parent : String) (kind : Kind) {index : Nat} (hindex : index < 10 ^ 20) :
    (nodeId (some parent) kind index).length ≤ parent.length + 29 := by
  have hsegment := kind.length_segment_le hindex
  rw [← String.length_toList, toList_nodeId_some, List.length_append, List.length_cons,
    String.length_toList]
  omega

theorem length_lt_nodeId (parent : String) (kind : Kind) (index : Nat) :
    parent.length < (nodeId (some parent) kind index).length := by
  rw [← String.length_toList, ← String.length_toList, toList_nodeId_some, List.length_append,
    List.length_cons]
  omega

-- Below a well-formed id the ids are well-formed as long as they are short enough.
theorem wellFormedId_nodeId {parent : String} (hparent : WellFormedId parent) (kind : Kind)
    (index : Nat) (hshort : (nodeId (some parent) kind index).length ≤ 256) :
    WellFormedId (nodeId (some parent) kind index) := by
  have hlonger := length_lt_nodeId parent kind index
  refine ⟨by omega, hshort, ?_, ?_⟩
  · rw [toList_nodeId_some]
    intro c hc
    rw [List.mem_append, List.mem_cons] at hc
    rcases hc with hc | rfl | hc
    · exact hparent.characters c hc
    · exact .inr (.inl rfl)
    · exact (isIdPart_iff c).mp (kind.segment_characters index c hc)
  · rw [toList_nodeId_some]
    have hstart := hparent.start
    have hnonempty := hparent.nonempty
    rw [← String.length_toList] at hnonempty
    cases hlist : parent.toList with
    | nil => simp [hlist] at hnonempty
    | cons c rest => rwa [hlist] at hstart

theorem wellFormedId_root (kind : Kind) : WellFormedId (nodeId none kind 0) := by
  rw [← isValidId_iff]
  revert kind
  exact Kind.forall_of_forall_mem (by decide)

-- The ids below a parent of a kind with the numbers from one on.
def idsFrom (parent : String) (kind : Kind) (index count : Nat) : List String :=
  (List.range' index count).map (nodeId (some parent) kind)

-- Different numbers make different ids, so only as many can be in a list as it is long.
theorem length_le_of_ids_mem {parent : String} {kind : Kind} {numbers : List Nat}
    {known : List String} (hnumbers : numbers.Nodup)
    (hknown : ∀ number ∈ numbers, nodeId (some parent) kind number ∈ known) :
    numbers.length ≤ known.length := by
  have hnodup : (numbers.map (nodeId (some parent) kind)).Nodup :=
    hnumbers.map fun i j h => (nodeId_injective parent h).2
  have hle := (List.subperm_of_subset hnodup (List.forall_mem_map.mpr hknown)).length_le
  rwa [List.length_map] at hle

theorem le_length_of_idsFrom_subset {parent : String} {kind : Kind} {index count : Nat}
    {known : List String} (hknown : ∀ id ∈ idsFrom parent kind index count, id ∈ known) :
    count ≤ known.length := by
  have hle := length_le_of_ids_mem (List.nodup_range' 1) (List.forall_mem_map.mp hknown)
  rwa [List.length_range'] at hle

-- All numbers that the search passes over are taken. It stops at one that is not, or when it has
-- missed as often as it may.
theorem freeNumber_go (parent : String) (kind : Kind) (taken : List String) (misses index : Nat) :
    ∃ count ≤ misses, freeNumber.go parent kind taken misses index = index + count ∧
      (∀ id ∈ idsFrom parent kind index count, id ∈ taken) ∧
      (count < misses → nodeId (some parent) kind (index + count) ∉ taken) := by
  induction misses generalizing index with
  | zero => exact ⟨0, Nat.le_refl 0, rfl, nofun, nofun⟩
  | succ misses ih =>
    rw [freeNumber.go]
    by_cases htaken : nodeId (some parent) kind index ∈ taken
    · obtain ⟨count, hcount, hgo, hpassed, hfree⟩ := ih (index + 1)
      rw [if_pos (List.contains_iff_mem.mpr htaken)]
      have hnext : index + 1 + count = index + (count + 1) := by omega
      refine ⟨count + 1, by omega, hgo.trans hnext, ?_, ?_⟩
      · rw [idsFrom, List.range'_succ, List.map_cons]
        exact List.forall_mem_cons.mpr ⟨htaken, hpassed⟩
      · intro hlt
        rw [← hnext]
        exact hfree (by omega)
    · rw [if_neg (by simpa using htaken)]
      exact ⟨0, Nat.zero_le _, rfl, nofun, fun _ => htaken⟩

-- The search finds the first number whose id is not taken.
theorem freeNumber_eq (parent : String) (kind : Kind) (index : Nat) (taken : List String) :
    ∃ count, freeNumber parent kind index taken = index + count ∧
      (∀ id ∈ idsFrom parent kind index count, id ∈ taken) ∧
      nodeId (some parent) kind (index + count) ∉ taken := by
  obtain ⟨count, hcount, hgo, hpassed, hfree⟩ :=
    freeNumber_go parent kind taken taken.length index
  refine ⟨count, hgo, hpassed, ?_⟩
  by_cases hlt : count < taken.length
  · exact hfree hlt
  · -- as many ids as there are taken ones are among those: one more would be too many
    intro hmem
    have hone : ∀ id ∈ idsFrom parent kind index (count + 1), id ∈ taken := by
      rw [idsFrom, List.range'_1_concat, List.map_append]
      intro id hid
      rcases List.mem_append.mp hid with hid | hid
      · exact hpassed id hid
      · exact List.mem_singleton.mp hid ▸ hmem
    have := le_length_of_idsFrom_subset hone
    omega

-- The next free id is not taken. Its number is a word unless more ids than that are known below the
-- parent.
theorem nextFreeId_eq {parent : String} {kind : Kind} {taken known : List String} (index : Nat)
    (hknown : ∀ number, nodeId (some parent) kind number ∈ taken →
      nodeId (some parent) kind number ∈ known) :
    ∃ number, nextFreeId parent kind index taken = nodeId (some parent) kind number ∧
      nodeId (some parent) kind number ∉ taken ∧
      (number < numberBound ∨ number ≤ known.length) := by
  obtain ⟨count, hnumber, -, hfree⟩ := freeNumber_eq parent kind index taken
  by_cases hword : index + count < numberBound
  · refine ⟨index + count, ?_, hfree, .inl hword⟩
    simp only [nextFreeId, hnumber, if_pos hword]
  · -- the search goes on at zero, and what it passes over is known
    obtain ⟨count', hnumber', hpassed, hfree'⟩ := freeNumber_eq parent kind 0 taken
    refine ⟨0 + count', ?_, hfree', .inr ?_⟩
    · simp only [nextFreeId, hnumber, if_neg hword, hnumber']
    · rw [Nat.zero_add]
      apply le_length_of_idsFrom_subset
      intro id hid
      obtain ⟨number, -, rfl⟩ := List.mem_map.mp hid
      exact hknown number (hpassed _ hid)

end Wireframe
