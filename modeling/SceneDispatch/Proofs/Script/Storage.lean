import Mathlib.Data.List.Forall2
import Mathlib.Data.List.Nodup
import SceneDispatch.Proofs.Json.RoundTrip
import SceneDispatch.Script.Json
/-!
Scripts as stored texts. A stored script may have its fields in any order, other fields between
them, and the statuses of a group in any order and repeated. Main statement: a script that is
stored is read back, and a text that is read, stored and read again gives the same script and the
same stored text.
-/
namespace SceneDispatch

namespace Json

/-- The value is a record in which each of the names is given once. -/
inductive Record (names : List String) : Json → List Json → Prop
  | ordered {values : List Json} (h : values.length = names.length) :
    Record names (array values) values
  | named {fields : List (Literal × Json)} {values : List Json} (hnamed : ∀ f ∈ fields, f.1.isSome)
    (h : List.Forall₂ (fun name value => fields.filter (·.1 = some name) = [(some name, value)])
      names values) : Record names (object fields) values

section Lists

variable {α β : Type} {f : α → Option β} {l : List α} {r : List β}

theorem mapM_eq_some_iff : l.mapM f = some r ↔ List.Forall₂ (fun a b => f a = some b) l r := by
  induction l generalizing r with
  | nil => cases r <;> simp
  | cons a l ih =>
    rw [List.mapM_cons]
    simp only [Option.bind_eq_bind, Option.bind_eq_some_iff, ih, Option.pure_def,
      Option.some.injEq]
    constructor
    · rintro ⟨b, hb, r', hr', rfl⟩
      exact .cons hb hr'
    · intro h
      cases h with
      | cons hb hr' => exact ⟨_, hb, _, hr', rfl⟩

theorem forall₂_eq_iff {g : β → α} :
    List.Forall₂ (fun a b => a = g b) l r ↔ l = r.map g := by
  rw [← List.forall₂_eq_eq_eq, List.forall₂_map_right_iff]

theorem forall₂_eq_and_iff {g : β → α} {p : β → Prop} :
    List.Forall₂ (fun a b => a = g b ∧ p b) l r ↔ l = r.map g ∧ ∀ b ∈ r, p b := by
  induction r generalizing l with
  | nil => simp
  | cons b r ih =>
    rw [List.forall₂_cons_right_iff, List.map_cons, List.forall_mem_cons]
    constructor
    · rintro ⟨a, l, ⟨rfl, hb⟩, hl, rfl⟩
      obtain ⟨rfl, hr⟩ := ih.mp hl
      exact ⟨rfl, hb, hr⟩
    · rintro ⟨rfl, hb, hr⟩
      exact ⟨g b, r.map g, ⟨rfl, hb⟩, ih.mpr ⟨rfl, hr⟩, rfl⟩

theorem list?_eq_some_iff {item? : Json → Option β} {v : Json} :
    v.list? item? = some r ↔
      ∃ items, v = array items ∧ List.Forall₂ (fun w b => item? w = some b) items r := by
  cases v with
  | array items => simp [list?, mapM_eq_some_iff]
  | _ => simp [list?]

end Lists

section Scalars

variable {v : Json}

theorem text?_eq_some_iff {text : String} : v.text? = some text ↔ v = ofText text := by
  cases v <;> simp [text?, ofText]

theorem integer?_eq_some_iff {lo hi n : Int} :
    v.integer? lo hi = some n ↔ v = integer n ∧ lo ≤ n ∧ n ≤ hi := by
  cases v with
  | integer m =>
    simp only [integer?, Option.ite_none_right_eq_some, Bool.and_eq_true, decide_eq_true_eq,
      Option.some.injEq, integer.injEq]
    constructor
    · rintro ⟨hm, rfl⟩
      exact ⟨rfl, hm⟩
    · rintro ⟨rfl, hm⟩
      exact ⟨hm, rfl⟩
  | _ => simp [integer?]

end Scalars

section Records

variable {names given : List String} {fields : List (Literal × Json)} {values : List Json}
  {v : Json}

theorem lookup_eq_head? (key : Literal) :
    fields.lookup key = (fields.filter (·.1 = key)).head?.map Prod.snd := by
  induction fields with
  | nil => rfl
  | cons f fields ih =>
    obtain ⟨name, v⟩ := f
    by_cases hkey : name = key
    · subst hkey
      simp
    · have hbeq : (key == name) = false := by simpa using fun h : key = name => hkey h.symm
      simp [List.lookup_cons, hbeq, hkey, ih]

theorem count_eq_length_filter (h : List.Forall₂ (fun f name => f.1 = some name) fields given)
    (name : String) : given.count name = (fields.filter (·.1 = some name)).length := by
  induction h with
  | nil => rfl
  | @cons f other fields given hf _ ih =>
    by_cases hname : other = name
    · subst hname
      simp [hf, ih]
    · simp [hf, ih, hname]

theorem nodup_given_iff (h : List.Forall₂ (fun f name => f.1 = some name) fields given) :
    (given.filter (· ∈ names)).Nodup ↔
      ∀ name ∈ names, (fields.filter (·.1 = some name)).length ≤ 1 := by
  rw [List.nodup_iff_count_le_one]
  constructor
  · intro hcount name hname
    rw [← count_eq_length_filter h, ← List.count_filter (p := (· ∈ names)) (by simpa using hname)]
    exact hcount name
  · intro hlength name
    by_cases hname : name ∈ names
    · rw [List.count_filter (by simpa using hname), count_eq_length_filter h]
      exact hlength name hname
    · -- fields of other names may repeat
      rw [List.count_eq_zero_of_not_mem (by simp [hname])]
      exact Nat.zero_le 1

theorem filter_eq_singleton_iff {name : String} :
    fields.filter (·.1 = some name) = [(some name, v)] ↔
      (fields.filter (·.1 = some name)).length ≤ 1 ∧ fields.lookup (some name) = some v := by
  rw [lookup_eq_head?]
  constructor
  · intro h
    rw [h]
    exact ⟨Nat.le_refl 1, rfl⟩
  · rintro ⟨hlength, hhead⟩
    obtain ⟨f, hf, rfl⟩ := Option.map_eq_some_iff.mp hhead
    obtain ⟨tail, htail⟩ := List.head?_eq_some_iff.mp hf
    have hname : f.1 = some name := by
      have hmem : f ∈ fields.filter (·.1 = some name) := List.mem_of_mem_head? hf
      simpa using (List.mem_filter.mp hmem).2
    rw [htail] at hlength ⊢
    have hnil : tail = [] := List.length_eq_zero_iff.mp (by simpa using hlength)
    rw [hnil, ← hname]

theorem exists_given_iff :
    (∃ given, List.Forall₂ (fun f name => f.1 = some name) fields given) ↔
      ∀ f ∈ fields, f.1.isSome := by
  induction fields with
  | nil => exact ⟨fun _ f hf => absurd hf List.not_mem_nil, fun _ => ⟨[], .nil⟩⟩
  | cons f fields ih =>
    rw [List.forall_mem_cons, ← ih]
    constructor
    · rintro ⟨_, h⟩
      cases h with
      | cons hf hfields => exact ⟨by rw [hf]; rfl, _, hfields⟩
    · rintro ⟨hf, given, hgiven⟩
      obtain ⟨name, hname⟩ := Option.isSome_iff_exists.mp hf
      exact ⟨name :: given, .cons hname hgiven⟩

theorem forall₂_filter_iff :
    List.Forall₂ (fun name value => fields.filter (·.1 = some name) = [(some name, value)])
        names values ↔
      (∀ name ∈ names, (fields.filter (·.1 = some name)).length ≤ 1) ∧
        names.map (fun name => fields.lookup (some name)) = values.map some := by
  have hlookup : names.map (fun name => fields.lookup (some name)) = values.map some ↔
      List.Forall₂ (fun name value => fields.lookup (some name) = some value) names values := by
    rw [← List.forall₂_eq_eq_eq, List.forall₂_map_left_iff, List.forall₂_map_right_iff]
  rw [hlookup, ← List.forall₂_and_left]
  simp only [filter_eq_singleton_iff]

theorem record?_object_eq_some_iff :
    (object fields).record? names = some (values.map some) ↔
      Record names (object fields) values := by
  rw [record?]
  simp only [Option.bind_eq_bind, Option.bind_eq_some_iff, mapM_eq_some_iff,
    Option.ite_none_right_eq_some, Option.some.injEq]
  constructor
  · rintro ⟨given, hgiven, hnodup, hvalues⟩
    refine .named (exists_given_iff.mp ⟨given, hgiven⟩) (forall₂_filter_iff.mpr ⟨?_, hvalues⟩)
    exact (nodup_given_iff hgiven).mp hnodup
  · intro h
    cases h with
    | named hnamed hvalues =>
      obtain ⟨given, hgiven⟩ := exists_given_iff.mpr hnamed
      obtain ⟨hlength, hvalues⟩ := forall₂_filter_iff.mp hvalues
      exact ⟨given, hgiven, (nodup_given_iff hgiven).mpr hlength, hvalues⟩

theorem record?_array_eq_some_iff {items : List Json} :
    (array items).record? names = some (values.map some) ↔ Record names (array items) values := by
  rw [record?]
  constructor
  · intro h
    split at h
    · next hle =>
      have h := Option.some.inj h
      -- a missing item is filled up by a value that no record has
      have hzero : names.length - items.length = 0 := by
        by_contra hne
        have hmem : none ∈ values.map some := by
          rw [← h]
          simp [hne]
        simp at hmem
      have hvalues : items = values := by
        rw [hzero, List.replicate_zero, List.append_nil] at h
        exact (List.map_inj_right fun _ _ => Option.some.inj).mp h
      subst hvalues
      exact .ordered (by omega)
    · cases h
  · intro h
    cases h with
    | ordered hlength =>
      rw [if_pos (by omega), hlength, Nat.sub_self, List.replicate_zero, List.append_nil]

/-- Reading a record finds the value of every name exactly if each name is given once. -/
theorem record?_eq_some_iff :
    v.record? names = some (values.map some) ↔ Record names v values := by
  cases v with
  | array items => exact record?_array_eq_some_iff
  | object fields => exact record?_object_eq_some_iff
  | _ => exact ⟨nofun, nofun⟩

end Records

end Json

namespace StatusContext

/-- The value lists the statuses of the context, in any order and any number of times. -/
def Lists (v : Json) (c : StatusContext) : Prop :=
  ∃ ids : List Int, v = .array (ids.map .integer) ∧
    (∀ id ∈ ids, -0x80000000 ≤ id ∧ id ≤ 0x7fffffff) ∧ ∀ id, id ∈ c ↔ id ∈ ids

theorem ofJson?_eq_some_iff {v : Json} {c : StatusContext} : ofJson? v = some c ↔ Lists v c := by
  have hset : ∀ ids : List Int, OrderedSet.ofList ids = c ↔ ∀ id, id ∈ c ↔ id ∈ ids := by
    intro ids
    constructor
    · rintro rfl id
      exact OrderedSet.mem_ofList
    · intro h
      exact OrderedSet.ext fun id => OrderedSet.mem_ofList.trans (h id).symm
  unfold ofJson? Lists
  simp only [Option.map_eq_some_iff, hset, Json.list?_eq_some_iff, Json.integer?_eq_some_iff,
    Json.forall₂_eq_and_iff]
  constructor
  · rintro ⟨ids, ⟨items, rfl, rfl, hrange⟩, hmem⟩
    exact ⟨ids, rfl, hrange, hmem⟩
  · rintro ⟨ids, rfl, hrange, hmem⟩
    exact ⟨ids, ⟨_, rfl, rfl, hrange⟩, hmem⟩

end StatusContext

namespace Script

/-- The statuses and the number of suspend points fit their places in a stored text. -/
structure Storable (s : Script) : Prop where
  statuses : ∀ c ∈ s.statusGroups, ∀ id ∈ c, -0x80000000 ≤ id ∧ id ≤ 0x7fffffff
  count : s.statusCount ≤ 0xffffffffffffffff

/-- The value is a record of the script. -/
def Describes (v : Json) (s : Script) : Prop :=
  ∃ groups, v.Record fieldNames [.ofText s.source, .array (s.dependencies.map .ofText),
      .array groups, .integer s.statusCount] ∧
    List.Forall₂ StatusContext.Lists groups s.statusGroups ∧ s.statusCount ≤ 0xffffffffffffffff

theorem dependencies?_eq_some_iff {v : Json} {dependencies : List String} :
    v.list? Json.text? = some dependencies ↔ v = .array (dependencies.map .ofText) := by
  rw [Json.list?_eq_some_iff]
  simp only [Json.text?_eq_some_iff, Json.forall₂_eq_iff]
  constructor
  · rintro ⟨items, rfl, rfl⟩
    rfl
  · rintro rfl
    exact ⟨_, rfl, rfl⟩

theorem groups?_eq_some_iff {v : Json} {contexts : List StatusContext} :
    v.list? StatusContext.ofJson? = some contexts ↔
      ∃ groups, v = .array groups ∧ List.Forall₂ StatusContext.Lists groups contexts := by
  rw [Json.list?_eq_some_iff]
  simp only [StatusContext.ofJson?_eq_some_iff]

theorem ofJson?_eq_some_iff {v : Json} {s : Script} : ofJson? v = some s ↔ Describes v s := by
  unfold ofJson? Describes
  constructor
  · intro h
    obtain ⟨fields, hfields, h⟩ := Option.bind_eq_some_iff.mp h
    split at h
    · next source dependencies groups count =>
      obtain ⟨sourceText, hsource, h⟩ := Option.bind_eq_some_iff.mp h
      obtain ⟨dependencyTexts, hdependencies, h⟩ := Option.bind_eq_some_iff.mp h
      obtain ⟨contexts, hcontexts, h⟩ := Option.bind_eq_some_iff.mp h
      obtain ⟨n, hn, h⟩ := Option.bind_eq_some_iff.mp h
      cases h
      obtain ⟨groups', rfl, hgroups⟩ := groups?_eq_some_iff.mp hcontexts
      obtain ⟨rfl, hlow, hhigh⟩ := Json.integer?_eq_some_iff.mp hn
      have hrecord : v.Record fieldNames [source, dependencies, .array groups', .integer n] :=
        Json.record?_eq_some_iff.mp hfields
      rw [Json.text?_eq_some_iff.mp hsource, dependencies?_eq_some_iff.mp hdependencies] at hrecord
      refine ⟨groups', ?_, hgroups, ?_⟩
      · dsimp only
        rw [Int.toNat_of_nonneg hlow]
        exact hrecord
      · show n.toNat ≤ _
        omega
    · cases h
  · rintro ⟨groups, hrecord, hgroups, hcount⟩
    have hcount' : (Json.integer s.statusCount).integer? 0 0xffffffffffffffff =
        some s.statusCount :=
      Json.integer?_eq_some_iff.mpr ⟨rfl, by omega, by omega⟩
    rw [Json.record?_eq_some_iff.mpr hrecord]
    show (do
      return Script.mk (← some s.source)
        (← (Json.array (s.dependencies.map .ofText)).list? Json.text?)
        (← (Json.array groups).list? StatusContext.ofJson?)
        (← (Json.integer s.statusCount).integer? 0 0xffffffffffffffff).toNat) = some s
    rw [dependencies?_eq_some_iff.mpr rfl, groups?_eq_some_iff.mpr ⟨groups, rfl, hgroups⟩, hcount']
    rfl

theorem Describes.storable {v : Json} {s : Script} (h : Describes v s) : s.Storable := by
  obtain ⟨groups, -, hgroups, hcount⟩ := h
  refine ⟨?_, hcount⟩
  -- the statuses of a context are among those that its value lists
  clear hcount
  generalize s.statusGroups = contexts at hgroups
  induction hgroups with
  | nil => simp
  | cons hlists _ ih =>
    obtain ⟨ids, -, hrange, hmem⟩ := hlists
    rw [List.forall_mem_cons]
    exact ⟨fun id hid => hrange id ((hmem id).mp hid), ih⟩

theorem lists_toJson {c : StatusContext} (h : ∀ id ∈ c, -0x80000000 ≤ id ∧ id ≤ 0x7fffffff) :
    StatusContext.Lists c.toJson c :=
  ⟨c.toList, rfl, h, fun _ => OrderedSet.mem_iff⟩

theorem Storable.describes {s : Script} (h : s.Storable) : Describes s.toJson s := by
  refine ⟨s.statusGroups.map StatusContext.toJson, .named ?_ ?_, ?_, h.count⟩
  · simp
  · simp [fieldNames]
  · rw [List.forall₂_map_left_iff, List.forall₂_same]
    exact fun c hc => lists_toJson (h.statuses c hc)

theorem proper_toJson (s : Script) : s.toJson.Proper := by
  have hdependencies : (Json.array (s.dependencies.map .ofText)).Proper :=
    .array (List.forall_mem_map.mpr fun text _ => .string (some text))
  have hgroups : (Json.array (s.statusGroups.map StatusContext.toJson)).Proper :=
    .array (List.forall_mem_map.mpr fun c _ =>
      .array (List.forall_mem_map.mpr fun id _ => .integer id))
  refine .object ?_
  simp only [List.forall_mem_cons]
  exact ⟨.string _, hdependencies, hgroups, .integer _, fun f hf => absurd hf List.not_mem_nil⟩

/-- The text that a script is stored as. -/
def stored (s : Script) : String := s.toJson.render

/-- The script that a text stores. -/
def read? (text : String) : Option Script := Json.parse? text >>= ofJson?

theorem read?_eq_some_iff {text : String} {s : Script} :
    read? text = some s ↔ ∃ v, Json.parse? text = some v ∧ Describes v s := by
  unfold read?
  simp only [Option.bind_eq_bind, Option.bind_eq_some_iff, ofJson?_eq_some_iff]

theorem Storable.read?_stored {s : Script} (h : s.Storable) : read? s.stored = some s :=
  read?_eq_some_iff.mpr ⟨s.toJson, Json.parse?_render (proper_toJson s), h.describes⟩

/-- A list without blanks. -/
def listText (items : List (List Char)) : List Char := '[' :: Json.separated items ++ [']']

def fieldText (name : String) (value : List Char) : List Char :=
  Json.quoted (some name) ++ ':' :: value

/-- The four fields in their order, without blanks; each group lists the given statuses. -/
def compactText (source : String) (dependencies : List String) (groups : List (List Int))
    (count : Nat) : List Char :=
  '\x7b' :: Json.separated
    [fieldText "source" (Json.quoted (some source)),
      fieldText "dependencies" (listText (dependencies.map fun d => Json.quoted (some d))),
      fieldText "statusGroups"
        (listText (groups.map fun ids => listText (ids.map fun id => (toString id).toList))),
      fieldText "statusCount" (toString count).toList] ++ ['\x7d']

theorem renderList_map {α : Type} (f : α → Json) (items : List α) :
    (Json.array (items.map f)).renderList = listText (items.map fun a => (f a).renderList) := by
  rw [Json.renderList, Json.renderItems_eq_map, List.map_map]
  rfl

theorem toList_stored (s : Script) :
    s.stored.toList =
      compactText s.source s.dependencies (s.statusGroups.map OrderedSet.toList)
        s.statusCount := by
  have hgroup : ∀ c : StatusContext,
      c.toJson.renderList = listText (c.toList.map fun id => (toString id).toList) := by
    intro c
    rw [StatusContext.toJson, renderList_map]
    simp only [Json.renderList]
  have hdependencies : (Json.array (s.dependencies.map .ofText)).renderList =
      listText (s.dependencies.map fun d => Json.quoted (some d)) := renderList_map _ _
  have hgroups : (Json.array (s.statusGroups.map StatusContext.toJson)).renderList =
      listText ((s.statusGroups.map OrderedSet.toList).map fun ids =>
        listText (ids.map fun id => (toString id).toList)) := by
    rw [renderList_map, List.map_map]
    simp only [hgroup, Function.comp_def]
  rw [stored, Json.render, String.toList_ofList]
  unfold compactText
  rw [← hdependencies, ← hgroups]
  rfl

/-- Every script whose numbers fit is read back from the text it is stored as. A text that spells a
record of the script is read as that script, whatever its blanks, escapes, order of fields, other
fields, and order and repetition of statuses. Storing what a text was read as gives a text that is
read as the same script and is stored as itself, in which every group lists its statuses in
strictly increasing order. -/
theorem stored_stable :
    (∀ s : Script, s.Storable → read? s.stored = some s) ∧
    (∀ (v : Json) (text : String) (s : Script),
      Json.LaidOut v.tokens text.toList → Describes v s → read? text = some s) ∧
    ∀ (text : String) (s : Script), read? text = some s →
      (∃ v, Json.parse? text = some v ∧ Describes v s) ∧
      read? s.stored = some s ∧
      (∀ s', read? s.stored = some s' → s'.stored = s.stored) ∧
      ∃ groups, s.stored.toList = compactText s.source s.dependencies groups s.statusCount ∧
        (∀ ids ∈ groups, ids.Pairwise (· < ·)) ∧
        List.Forall₂ (fun ids c => ∀ id, id ∈ ids ↔ id ∈ c) groups s.statusGroups := by
  refine ⟨fun s h => h.read?_stored, fun v text s hlaid hv => ?_, fun text s hread => ?_⟩
  · exact read?_eq_some_iff.mpr ⟨v, Json.parse?_of_laidOut hlaid, hv⟩
  · obtain ⟨v, hparse, hv⟩ := read?_eq_some_iff.mp hread
    have hstored := hv.storable.read?_stored
    refine ⟨⟨v, hparse, hv⟩, hstored, ?_, s.statusGroups.map OrderedSet.toList,
      toList_stored s, ?_, ?_⟩
    · intro s' hs'
      rw [hstored] at hs'
      rw [Option.some.inj hs']
    · intro ids hids
      obtain ⟨c, -, rfl⟩ := List.mem_map.mp hids
      exact c.sorted
    · rw [List.forall₂_map_left_iff, List.forall₂_same]
      exact fun c _ id => Iff.rfl

namespace Sample

/-- Fields out of order among others, blanks, escapes, and statuses out of order and repeated. -/
def loose : String :=
  "\x7b \"note\": [1.5e3],\t\"statusCount\":2,\n\"statusGroups\":[[7, -1, 7], []]," ++
    "\"dependencies\":[\"\\ud83d\\ude00\"],\"source\":\"\\u0041\\/\\u0001\\\"\"\x7d "

def script : Script := ⟨"A/\x01\"", ["😀"], [.ofList [-1, 7], .empty], 2⟩

end Sample

theorem loose_stored_stable :
    (Sample.script.Storable ∧ read? Sample.script.stored = some Sample.script) ∧
    (Json.LaidOut Sample.script.toJson.tokens (" " ++ Sample.script.stored).toList ∧
      Describes Sample.script.toJson Sample.script ∧
      read? (" " ++ Sample.script.stored) = some Sample.script) ∧
    read? Sample.loose = some Sample.script ∧
      ∃ groups, Sample.script.stored.toList = compactText "A/\x01\"" ["😀"] groups 2 ∧
        ∀ ids ∈ groups, ids.Pairwise (· < ·) := by
  have hstorable : Sample.script.Storable := ⟨by decide, by decide⟩
  have hlaid : Json.LaidOut Sample.script.toJson.tokens (" " ++ Sample.script.stored).toList := by
    have hblank : ∀ text : String, (" " ++ text).toList = ' ' :: text.toList := by
      intro text
      rw [String.toList_append]
      rfl
    rw [hblank]
    exact .space rfl (proper_toJson Sample.script).laidOut_render
  have hread : read? Sample.loose = some Sample.script := by decide +kernel
  obtain ⟨-, -, -, groups, htext, hsorted, -⟩ := stored_stable.2.2 _ _ hread
  exact ⟨⟨hstorable, stored_stable.1 _ hstorable⟩,
    ⟨hlaid, hstorable.describes, stored_stable.2.1 _ _ _ hlaid hstorable.describes⟩,
    hread, groups, htext, hsorted⟩

end Script

end SceneDispatch
