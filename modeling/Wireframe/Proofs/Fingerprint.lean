import Wireframe.Plan.Fingerprint
import Wireframe.Proofs.Distinct
import Wireframe.Proofs.PlanText

namespace Wireframe

namespace Json

mutual

-- In equal values: the keys of all objects come in the same order, and zeros have the same sign.
def aligned : Json → Json → Bool
  | float x, float y => x.negative == y.negative
  | array as, array bs => alignedItems as bs
  | object as, object bs => alignedFields as bs
  | _, _ => true

def alignedItems : List Json → List Json → Bool
  | a :: as, b :: bs => aligned a b && alignedItems as bs
  | _, _ => true

def alignedFields : Fields → Fields → Bool
  | (key, a) :: as, (other, b) :: bs => key == other && aligned a b && alignedFields as bs
  | _, _ => true

end

theorem sameFields_iff {fields others : Fields} :
    sameFields fields others = true ↔
      ∀ entry ∈ fields, ∃ other, Ledger.get? others entry.1 = some other ∧
        same entry.2 other = true := by
  induction fields with
  | nil => simp [sameFields]
  | cons entry rest ih =>
    obtain ⟨key, value⟩ := entry
    rw [sameFields, Bool.and_eq_true, ih, List.forall_mem_cons]
    cases Ledger.get? others key <;> simp

-- Under the same first key there are equal values, and what comes behind is equal too.
theorem same_of_sameFields_cons {key : String} {a b : Json} {as bs : Fields}
    (hkey : key ∉ Ledger.keys as) (h : sameFields ((key, a) :: as) ((key, b) :: bs) = true) :
    same a b = true ∧ sameFields as bs = true := by
  rw [sameFields_iff, List.forall_mem_cons] at h
  obtain ⟨⟨other, hother, hsame⟩, hrest⟩ := h
  rw [Ledger.get?_cons, if_pos rfl, Option.some.injEq] at hother
  refine ⟨hother ▸ hsame, sameFields_iff.mpr fun entry hentry => ?_⟩
  obtain ⟨other, hother, hsame⟩ := hrest entry hentry
  have hne : key ≠ entry.1 := by
    rintro rfl
    exact hkey (List.mem_map_of_mem hentry)
  rw [Ledger.get?_cons, if_neg hne] at hother
  exact ⟨other, hother, hsame⟩

theorem sameAll_self {items : List Json} (h : ∀ item ∈ items, same item item = true) :
    sameAll items items = true := by
  induction items with
  | nil => rfl
  | cons item rest ih =>
    obtain ⟨hitem, hrest⟩ := List.forall_mem_cons.mp h
    rw [sameAll, hitem, ih hrest]
    rfl

theorem Distinct.same_self {json : Json} (h : json.Distinct) : same json json = true := by
  induction h with
  | null => rfl
  | bool | int | string => exact beq_self_eq_true _
  | float x => simp [same, Binary64.same]
  | array _ ih => exact sameAll_self ih
  | object hkeys _ ih =>
    rw [same, beq_self_eq_true, Bool.true_and, sameFields_iff]
    exact fun entry hentry => ⟨entry.2, (Ledger.get?_eq_some_iff hkeys).mpr hentry, ih entry hentry⟩

variable {a b : Json} {rest rest' : List Char}

theorem printString_append_inj {s t : String} :
    printString s ++ rest = printString t ++ rest' ↔ s = t ∧ rest = rest' := by
  constructor
  · intro h
    rw [printString_append, printString_append] at h
    have hread := congrArg (stringTail? []) (List.cons.inj h).2
    rw [stringTail?_printString, stringTail?_printString] at hread
    simpa using hread
  · rintro ⟨rfl, rfl⟩
    rfl

-- Numbers that are equal differ in their sign only.
theorem printFloat_append_inj {x y : Binary64} (h : x.same y = true) :
    printFloat x ++ rest = printFloat y ++ rest' ↔ x.negative = y.negative ∧ rest = rest' := by
  rw [Binary64.same, Bool.or_eq_true, Bool.and_eq_true, beq_iff_eq] at h
  rcases h with ⟨hx, hy⟩ | rfl
  · rw [printFloat, printFloat, hx, hy]
    cases x.negative <;> cases y.negative <;> simp
  · simp

-- What tells the texts of two equal values apart, whatever comes behind them.
def TextsAlign (style : Style) (a b : Json) : Prop :=
  ∀ level rest rest', a.print style level ++ rest = b.print style level ++ rest' ↔
    aligned a b = true ∧ rest = rest'

theorem printItems_append_inj (style : Style) (level : Nat) {items others : List Json}
    (hitems : ∀ item ∈ items, ∀ other, other.Distinct → same item other = true →
      TextsAlign style item other)
    (hothers : ∀ other ∈ others, other.Distinct) (hsame : sameAll items others = true) :
    printItems style level items ++ rest = printItems style level others ++ rest' ↔
      alignedItems items others = true ∧ rest = rest' := by
  induction items generalizing others with
  | nil =>
    cases others with
    | nil => simp [printItems, alignedItems]
    | cons other others => cases hsame
  | cons item items ih =>
    cases others with
    | nil => cases hsame
    | cons other others =>
      obtain ⟨hitem, hitems⟩ := List.forall_mem_cons.mp hitems
      obtain ⟨hother, hothers⟩ := List.forall_mem_cons.mp hothers
      rw [sameAll, Bool.and_eq_true] at hsame
      rw [printItems_cons, printItems_cons, List.cons.injEq, List.append_cancel_left_eq,
        hitem other hother hsame.1 level, ih hitems hothers hsame.2, alignedItems,
        Bool.and_eq_true, and_assoc]
      simp

theorem printFields_append_inj (style : Style) (level : Nat) {fields others : Fields}
    (hkeys : (Ledger.keys fields).Nodup)
    (hvalues : ∀ entry ∈ fields, ∀ other, other.Distinct → same entry.2 other = true →
      TextsAlign style entry.2 other)
    (hothers : ∀ other ∈ others, other.2.Distinct)
    (hlength : fields.length = others.length) (hsame : sameFields fields others = true) :
    printFields style level fields ++ rest = printFields style level others ++ rest' ↔
      alignedFields fields others = true ∧ rest = rest' := by
  induction fields generalizing others with
  | nil =>
    cases others with
    | nil => simp [printFields, alignedFields]
    | cons other others => cases hlength
  | cons entry fields ih =>
    cases others with
    | nil => cases hlength
    | cons other others =>
      obtain ⟨key, value⟩ := entry
      obtain ⟨key', value'⟩ := other
      obtain ⟨hvalue, hbehind⟩ := List.forall_mem_cons.mp hvalues
      obtain ⟨hother, hbehind'⟩ := List.forall_mem_cons.mp hothers
      rw [Ledger.keys, List.map_cons, List.nodup_cons, ← Ledger.keys] at hkeys
      rw [printFields_cons, printFields_cons, List.cons.injEq, List.append_cancel_left_eq,
        printEntry, printEntry, List.append_assoc, List.append_assoc, printString_append_inj]
      by_cases hkey : key = key'
      · subst hkey
        obtain ⟨hfirst, hrest⟩ := same_of_sameFields_cons hkeys.1 hsame
        simp only [List.cons_append, List.append_assoc, List.cons.injEq,
          List.append_cancel_left_eq, hvalue value' hother hfirst level,
          ih hkeys.2 hbehind hbehind' (Nat.succ.inj hlength) hrest, alignedFields,
          Bool.and_eq_true, beq_self_eq_true, true_and, and_assoc]
      · simp [alignedFields, hkey]

-- The text of an array or an object is that of its items, each behind a comma, but for the first.
theorem print_array_append (style : Style) (level : Nat) (item : Json) (items : List Json)
    (rest : List Char) : ∃ text, (array (item :: items)).print style level ++ rest = '[' :: text ∧
      printItems style (level + 1) (item :: items) ++ (style.lineBreak level ++ ']' :: rest) =
        ',' :: text := by
  refine ⟨_, rfl, ?_⟩
  rw [printItems_cons]
  simp

theorem print_object_append (style : Style) (level : Nat) (entry : String × Json)
    (fields : Fields) (rest : List Char) :
    ∃ text, (object (entry :: fields)).print style level ++ rest = '{' :: text ∧
      printFields style (level + 1) (entry :: fields) ++ (style.lineBreak level ++ '}' :: rest) =
        ',' :: text := by
  obtain ⟨key, value⟩ := entry
  refine ⟨_, rfl, ?_⟩
  rw [printFields_cons, printEntry]
  simp

theorem textsAlign_self (style : Style) (h : aligned a a = true) : TextsAlign style a a := by
  intro level rest rest'
  rw [h, List.append_cancel_left_eq, eq_self, true_and]

theorem textsAlign_array (style : Style) {items others : List Json}
    (hitems : ∀ item ∈ items, ∀ other, other.Distinct → same item other = true →
      TextsAlign style item other)
    (hothers : ∀ other ∈ others, other.Distinct) (hsame : sameAll items others = true) :
    TextsAlign style (array items) (array others) := by
  intro level rest rest'
  cases items with
  | nil =>
    cases others with
    | nil => simp [aligned, alignedItems]
    | cons => cases hsame
  | cons item items =>
    cases others with
    | nil => cases hsame
    | cons other others =>
      obtain ⟨text, hprint, htext⟩ := print_array_append style level item items rest
      obtain ⟨text', hprint', htext'⟩ := print_array_append style level other others rest'
      rw [hprint, hprint', aligned, List.cons_inj_right, ← List.cons_inj_right ',', ← htext,
        ← htext', printItems_append_inj style (level + 1) hitems hothers hsame]
      simp

theorem textsAlign_object (style : Style) {fields others : Fields}
    (hkeys : (Ledger.keys fields).Nodup)
    (hvalues : ∀ entry ∈ fields, ∀ other, other.Distinct → same entry.2 other = true →
      TextsAlign style entry.2 other)
    (hothers : ∀ other ∈ others, other.2.Distinct)
    (hlength : fields.length = others.length) (hsame : sameFields fields others = true) :
    TextsAlign style (object fields) (object others) := by
  intro level rest rest'
  cases fields with
  | nil =>
    cases others with
    | nil => simp [aligned, alignedFields]
    | cons => cases hlength
  | cons entry fields =>
    cases others with
    | nil => cases hlength
    | cons other others =>
      obtain ⟨text, hprint, htext⟩ := print_object_append style level entry fields rest
      obtain ⟨text', hprint', htext'⟩ := print_object_append style level other others rest'
      rw [hprint, hprint', aligned, List.cons_inj_right, ← List.cons_inj_right ',', ← htext,
        ← htext', printFields_append_inj style (level + 1) hkeys hvalues hothers hlength hsame]
      simp

-- Of equal values the text tells how their keys are ordered and which signs their zeros have, and
-- nothing more.
theorem Distinct.textsAlign (style : Style) (ha : a.Distinct) (hb : b.Distinct)
    (hsame : same a b = true) : TextsAlign style a b := by
  induction ha generalizing b with
  | null =>
    cases b with
    | null => exact textsAlign_self style rfl
    | _ => cases hsame
  | bool x =>
    cases b with
    | bool y =>
      obtain rfl : x = y := beq_iff_eq.mp hsame
      exact textsAlign_self style rfl
    | _ => cases hsame
  | int n =>
    cases b with
    | int m =>
      obtain rfl : n = m := beq_iff_eq.mp hsame
      exact textsAlign_self style rfl
    | _ => cases hsame
  | string s =>
    cases b with
    | string t =>
      obtain rfl : s = t := beq_iff_eq.mp hsame
      exact textsAlign_self style rfl
    | _ => cases hsame
  | float x =>
    cases b with
    | float y =>
      intro level rest rest'
      rw [print, print, printFloat_append_inj hsame, aligned, beq_iff_eq]
    | _ => cases hsame
  | array _ ih =>
    cases b with
    | array others =>
      exact textsAlign_array style (fun item hitem _ => ih item hitem) hb.items hsame
    | _ => cases hsame
  | object hkeys _ ih =>
    cases b with
    | object others =>
      rw [same, Bool.and_eq_true, beq_iff_eq] at hsame
      exact textsAlign_object style hkeys (fun entry hentry _ => ih entry hentry) hb.fields.2
        hsame.1 hsame.2
    | _ => cases hsame

-- Equal values have the same text on one line exactly if they are aligned.
theorem compact_eq_iff_aligned (ha : a.Distinct) (hb : b.Distinct) (hsame : same a b = true) :
    a.compact = b.compact ↔ aligned a b = true := by
  have htexts := ha.textsAlign .compact hb hsame 0 [] []
  rw [List.append_nil, List.append_nil] at htexts
  rw [compact, compact, String.ofList_inj, htexts]
  exact and_iff_left rfl

end Json

mutual

def Component.same : Component → Component → Bool
  | ⟨id, kind, props, children⟩, ⟨id', kind', props', children'⟩ =>
    id == id' && kind == kind' && Json.same (.object props) (.object props') &&
      Component.sameAll children children'

def Component.sameAll : List Component → List Component → Bool
  | [], [] => true
  | c :: rest, c' :: rest' => c.same c' && Component.sameAll rest rest'
  | _, _ => false

end

mutual

def Node.same : Node → Node → Bool
  | .layout id kind spacing children, .layout id' kind' spacing' children' =>
    id == id' && kind == kind' && spacing == spacing' && Node.sameAll children children'
  | .component c, .component c' => c.same c'
  | _, _ => false

def Node.sameAll : List Node → List Node → Bool
  | [], [] => true
  | node :: rest, node' :: rest' => node.same node' && Node.sameAll rest rest'
  | _, _ => false

end

-- Equality of plans: the props are compared as values, everything else as it is.
def Plan.same (p q : Plan) : Bool :=
  p.modification == q.modification && p.root.toNode.same q.root.toNode

theorem Component.sameAll_allToJson {parts others : List Component}
    (hparts : ∀ part ∈ parts, ∀ other, part.same other = true →
      Json.same part.toJson other.toJson = true)
    (hsame : Component.sameAll parts others = true) :
    Json.sameAll (Component.allToJson parts) (Component.allToJson others) = true := by
  induction parts generalizing others with
  | nil =>
    cases others with
    | nil => rfl
    | cons => cases hsame
  | cons part parts ih =>
    cases others with
    | nil => cases hsame
    | cons other others =>
      obtain ⟨hpart, hparts⟩ := List.forall_mem_cons.mp hparts
      rw [Component.sameAll, Bool.and_eq_true] at hsame
      rw [Component.allToJson, Component.allToJson, Json.sameAll, hpart other hsame.1,
        ih hparts hsame.2]
      rfl

theorem Component.same_toJson {c other : Component} (hsame : c.same other = true) :
    Json.same c.toJson other.toJson = true := by
  induction c using Component.induct generalizing other with
  | step c ih =>
    obtain ⟨id, kind, props, children⟩ := c
    obtain ⟨id', kind', props', children'⟩ := other
    simp only [Component.same, Bool.and_eq_true, beq_iff_eq] at hsame
    obtain ⟨⟨⟨rfl, rfl⟩, hprops⟩, hchildren⟩ := hsame
    have hitems := Component.sameAll_allToJson (fun part hpart _ => ih part hpart) hchildren
    cases children with
    | nil =>
      cases children' with
      | nil => simpa [Component.toJson, Json.same, Json.sameFields, Ledger.get?_cons] using hprops
      | cons => cases hchildren
    | cons child children =>
      cases children' with
      | nil => cases hchildren
      | cons child' children' =>
        simp only [Component.allToJson] at hitems
        simp [Component.toJson, Json.same, Json.sameFields, Ledger.get?_cons, hitems]
        simpa [Json.same] using hprops

theorem Json.inherited_distinct : Json.Inherited Json.Distinct where
  string := .string
  word n := .int n.toNat
  array := .array
  object := .object

theorem Node.sameAll_allToJson {nodes others : List Node}
    (hnodes : ∀ node ∈ nodes, ∀ other, node.same other = true →
      Json.same node.toJson other.toJson = true)
    (hsame : Node.sameAll nodes others = true) :
    Json.sameAll (Node.allToJson nodes) (Node.allToJson others) = true := by
  induction nodes generalizing others with
  | nil =>
    cases others with
    | nil => rfl
    | cons => cases hsame
  | cons node nodes ih =>
    cases others with
    | nil => cases hsame
    | cons other others =>
      obtain ⟨hnode, hnodes⟩ := List.forall_mem_cons.mp hnodes
      rw [Node.sameAll, Bool.and_eq_true] at hsame
      rw [Node.allToJson, Node.allToJson, Json.sameAll, hnode other hsame.1, ih hnodes hsame.2]
      rfl

theorem Node.same_toJson {node other : Node} (hsame : node.same other = true) :
    Json.same node.toJson other.toJson = true := by
  induction node using Node.induct generalizing other with
  | step node ih =>
    cases node with
    | component c =>
      cases other with
      | component d => exact Component.same_toJson hsame
      | layout => cases hsame
    | layout id kind spacing children =>
      cases other with
      | component => cases hsame
      | layout id' kind' spacing' children' =>
        simp only [Node.same, Bool.and_eq_true, beq_iff_eq] at hsame
        obtain ⟨⟨⟨rfl, rfl⟩, rfl⟩, hchildren⟩ := hsame
        have hitems : Json.sameAll (Node.allToJson children) (Node.allToJson children') = true :=
          Node.sameAll_allToJson (fun child hchild _ => ih child hchild) hchildren
        have hprops := (Json.inherited_distinct.spacing spacing).same_self
        simp [Node.toJson, Json.same, Json.sameFields, Ledger.get?_cons, hprops, hitems]

namespace Plan

theorem same_toJson {p q : Plan} (hsame : p.same q = true) :
    Json.same p.toJson q.toJson = true := by
  simp only [same, Bool.and_eq_true, beq_iff_eq] at hsame
  have hroot := Node.same_toJson hsame.2
  simp [toJson, Json.same, Json.sameFields, Ledger.get?_cons, hsame.1, hroot]

-- The keys of all objects in the props come in the same order, and zeros have the same sign.
def Aligned (p q : Plan) : Prop := Json.aligned p.toJson q.toJson = true

-- Two texts that are not the same have the same hash.
def Collides (p q : Plan) : Prop :=
  p.toJson.compact ≠ q.toJson.compact ∧
    Blake3.hashText p.toJson.compact = Blake3.hashText q.toJson.compact

-- No object in the props of a component has a key twice, as in all that is parsed.
def DistinctKeys (plan : Plan) : Prop :=
  ∀ c, Node.component c ∈ plan.nodes → (Json.object c.props).Distinct

theorem fingerprint_eq_iff_hashText_eq {p q : Plan} :
    p.fingerprint = q.fingerprint ↔
      Blake3.hashText p.toJson.compact = Blake3.hashText q.toJson.compact := by
  rw [fingerprint, fingerprint, fingerprintText, fingerprintText, String.append_right_inj]

-- Equal plans need not have the same fingerprint: their keys have to come in the same order.
theorem fingerprint_eq_iff_aligned {p q : Plan} (hp : p.DistinctKeys) (hq : q.DistinctKeys)
    (hsame : p.same q = true) :
    p.fingerprint = q.fingerprint ↔ p.Aligned q ∨ p.Collides q := by
  have htext : p.toJson.compact = q.toJson.compact ↔ p.Aligned q :=
    Json.compact_eq_iff_aligned (Json.inherited_distinct.plan hp) (Json.inherited_distinct.plan hq)
      (same_toJson hsame)
  rw [fingerprint_eq_iff_hashText_eq]
  constructor
  · intro hhash
    by_cases haligned : p.Aligned q
    · exact .inl haligned
    · exact .inr ⟨htext.not.mpr haligned, hhash⟩
  · rintro (haligned | ⟨-, hhash⟩)
    · rw [htext.mpr haligned]
    · exact hhash

-- A page with one component on it, which has the given props.
def pageWith (props : Fields) : Plan :=
  ⟨.edit, ⟨"a", .row, {}, [.component ⟨"b", .text, props, []⟩]⟩⟩

def point : Plan := pageWith [("x", .int 0), ("y", .int 1)]

-- The same with its keys in the other order.
def turnedPoint : Plan := pageWith [("y", .int 1), ("x", .int 0)]

theorem turnedPoint_fingerprint_ne :
    point.same turnedPoint = true ∧ point.fingerprint ≠ turnedPoint.fingerprint :=
  ⟨by decide, by decide +kernel⟩

theorem distinctKeys_pageWith {props : Fields} (hprops : (Json.object props).Distinct) :
    (pageWith props).DistinctKeys := by
  intro c hc
  have hnodes : (pageWith props).nodes =
      [(pageWith props).root.toNode, .component ⟨"b", .text, props, []⟩] := rfl
  rw [hnodes, List.mem_pair] at hc
  rcases hc with h | h
  · cases h
  · rw [Node.component.inj h]
    exact hprops

theorem turnedPoint_collides_iff :
    point.DistinctKeys ∧ turnedPoint.DistinctKeys ∧ point.same turnedPoint = true ∧
      (point.fingerprint = turnedPoint.fingerprint ↔ point.Collides turnedPoint) := by
  have hpoint : point.DistinctKeys :=
    distinctKeys_pageWith (.object (by decide) (by simpa using ⟨.int 0, .int 1⟩))
  have hturned : turnedPoint.DistinctKeys :=
    distinctKeys_pageWith (.object (by decide) (by simpa using ⟨.int 1, .int 0⟩))
  have hsame : point.same turnedPoint = true := by decide
  have hkeys : ¬ point.Aligned turnedPoint := by
    rw [Aligned]
    decide
  refine ⟨hpoint, hturned, hsame, ?_⟩
  rw [fingerprint_eq_iff_aligned hpoint hturned hsame, or_iff_right hkeys]

end Plan

end Wireframe
